import MultipathTools.Base.Fault
import MultipathTools.Pgpolicies.Sort

/-! The path grouping policies and `group_paths` of `pgpolicies.c`. Any allocation may fail. -/
namespace MultipathTools.Pgpolicies

def serialSize : ℕ := 128
def nodeNameSize : ℕ := 224

/-- `alloc_pathgroup` -/
def allocPathgroup : Alloc Pathgroup :=
  Alloc.malloc.bind fun _ => Alloc.malloc.bind fun _ => Alloc.pure { paths := some [] }

/-- `store_path`: a path without a name and a device number is not stored. -/
def storePath (pathvec : List Path) (pp : Path) : Alloc (List Path) :=
  if pp.devT = [] ∧ pp.dev = [] then Alloc.fail
  else Alloc.malloc.bind fun _ => Alloc.pure (pathvec ++ [pp])

/-- `add_pathgroup` -/
def addPathgroup (pg : List Pathgroup) (pgp : Pathgroup) : Alloc (List Pathgroup) :=
  Alloc.malloc.bind fun _ => Alloc.pure (pg ++ [pgp])

/-- `node_names_match` -/
def nodeNamesMatch (pp1 pp2 : Path) : Bool :=
  strncmpEq pp1.tgtNodeName pp2.tgtNodeName nodeNameSize

/-- `serials_match` -/
def serialsMatch (pp1 pp2 : Path) : Bool := strncmpEq pp1.serial pp2.serial serialSize

/-- `prios_match` -/
def priosMatch (pp1 pp2 : Path) : Bool := pp1.priority = pp2.priority

/-- The bits that are set in a bitfield. -/
abbrev Bitfield := ℕ → Bool

/-- The inner loop of `group_by_match`: the paths behind the one that the group was made for. -/
def feedLoop (pathMatchFn : Path → Path → Bool) (pp : Path) :
    List (Path × ℕ) → List Path → Bitfield → Alloc (List Path × Bitfield)
  | [], paths, bitmap => Alloc.pure (paths, bitmap)
  | (pp2, j) :: rest, paths, bitmap =>
    if bitmap j then feedLoop pathMatchFn pp rest paths bitmap
    else if pathMatchFn pp pp2 then
      (storePath paths pp2).bind fun paths =>
        feedLoop pathMatchFn pp rest paths (Function.update bitmap j true)
    else feedLoop pathMatchFn pp rest paths bitmap

/-- The outer loop of `group_by_match`. -/
def matchLoop (pathMatchFn : Path → Path → Bool) :
    List (Path × ℕ) → List Pathgroup → Bitfield → Alloc (List Pathgroup)
  | [], pg, _ => Alloc.pure pg
  | (pp, i) :: rest, pg, bitmap =>
    if bitmap i then matchLoop pathMatchFn rest pg bitmap
    else
      allocPathgroup.bind fun pgp =>
        (addPathgroup pg pgp).bind fun _ =>
          (storePath [] pp).bind fun paths =>
            (feedLoop pathMatchFn pp rest paths (Function.update bitmap i true)).bind fun r =>
              matchLoop pathMatchFn rest (pg ++ [{ pgp with paths := some r.1 }]) r.2

/-- `group_by_match`, up to the code for errors, which frees the groups. -/
def groupByMatch (pathMatchFn : Path → Path → Bool) (paths : List Path) (pg : List Pathgroup) :
    Alloc (List Pathgroup) :=
  -- alloc_bitfield does not make a bitfield without bits
  if paths = [] then Alloc.fail
  else Alloc.malloc.bind fun _ => matchLoop pathMatchFn paths.zipIdx pg fun _ => false

/-- `one_path_per_group` -/
def onePathPerGroup : List Path → List Pathgroup → Alloc (List Pathgroup)
  | [], pg => Alloc.pure pg
  | pp :: paths, pg =>
    allocPathgroup.bind fun pgp =>
      (addPathgroup pg pgp).bind fun _ =>
        (storePath [] pp).bind fun stored =>
          onePathPerGroup paths (pg ++ [{ pgp with paths := some stored }])

/-- The loop that stores paths in a vector. -/
def storePaths : List Path → List Path → Alloc (List Path)
  | [], stored => Alloc.pure stored
  | pp :: paths, stored => (storePath stored pp).bind fun stored => storePaths paths stored

/-- `one_group` -/
def oneGroup (paths : List Path) (pg : List Pathgroup) : Alloc (List Pathgroup) :=
  allocPathgroup.bind fun pgp =>
    (addPathgroup pg pgp).bind fun _ =>
      (storePaths paths []).bind fun stored =>
        Alloc.pure (pg ++ [{ pgp with paths := some stored }])

inductive Pgpolicy
  | failover | multibus | groupBySerial | groupByPrio | groupByNodeName
  deriving DecidableEq, Repr

/-- The function of a policy (`pgpolicies[]`). -/
def Pgpolicy.fn : Pgpolicy → List Path → List Pathgroup → Alloc (List Pathgroup)
  | .failover => onePathPerGroup
  | .multibus => oneGroup
  | .groupBySerial => groupByMatch serialsMatch
  | .groupByPrio => groupByMatch priosMatch
  | .groupByNodeName => groupByMatch nodeNamesMatch

/-- The loop of `split_marginal_paths`. -/
def splitLoop : List Path → List Path → List Path → Alloc (List Path × List Path)
  | [], normal, marginal => Alloc.pure (normal, marginal)
  | pp :: paths, normal, marginal =>
    if pp.marginal then
      (storePath marginal pp).bind fun marginal => splitLoop paths normal marginal
    else (storePath normal pp).bind fun normal => splitLoop paths normal marginal

/-- `split_marginal_paths`: the normal and the marginal paths, if there are both. -/
def splitMarginalPaths (paths : List Path) : Alloc (List Path × List Path) :=
  let hasMarginal := paths.any (·.marginal)
  let hasNormal := paths.any (!·.marginal)
  if !hasMarginal || !hasNormal then Alloc.fail
  else Alloc.mallocs.bind fun _ => splitLoop paths [] []

/-- `struct multipath`, with the fields that path grouping looks at. -/
structure Multipath where
  paths : Option (List Path) := none
  pg : Option (List Pathgroup) := none
  pgpolicyfn : Option Pgpolicy := none
  deriving DecidableEq, Repr

/-- The groups that `group_paths` puts behind those of `pg`. -/
def groupAll (fn : List Path → List Pathgroup → Alloc (List Pathgroup))
    (marginalPathgroups : Bool) (paths : List Path) (pg : List Pathgroup) :
    Alloc (List Pathgroup) := fun m =>
  if !marginalPathgroups then fn paths pg m
  else match splitMarginalPaths paths m with
  | (none, m) => fn paths pg m
  | (some (normal, marginal), m) => ((fn normal pg).bind (fn marginal)) m

/-- `group_paths` -/
def groupPaths (m : Supply) (mp : Multipath) (marginalPathgroups : Bool) : ℤ × Multipath :=
  let alloc := match mp.pg with
    | some pg => (some pg, m)
    | none => (Alloc.malloc.bind fun _ => Alloc.pure []) m
  match alloc with
  | (none, _) => (1, mp)
  | (some pg, m) =>
    if mp.paths.getD [] = [] then (0, { mp with pg := some pg, paths := none })
    else match mp.pgpolicyfn with
    | none => (1, { mp with pg := none })
    | some policy =>
      match groupAll policy.fn marginalPathgroups (mp.paths.getD []) pg m with
      | (none, _) => (1, { mp with pg := none })
      | (some pg, _) => (0, { mp with pg := sortPathgroups (some pg), paths := none })

/-- Failing, `group_paths` drops all groups. Otherwise the groups of a new map are sorted. -/
theorem groupPaths_cases (m : Supply) (mp : Multipath) (marginalPathgroups : Bool) :
    groupPaths m mp marginalPathgroups = (1, { mp with pg := none }) ∨
      ∃ pg, groupPaths m mp marginalPathgroups = (0, { mp with pg := some pg, paths := none }) ∧
        (mp.pg = none → ∃ v, sortPathgroups (some v) = some pg) := by
  rcases mp with ⟨paths, pg, pgpolicyfn⟩
  have htail (start : List Pathgroup) (m' : Supply) (pg : Option (List Pathgroup))
      (hstart : pg = none → start = [])
      (hm : groupPaths m ⟨paths, pg, pgpolicyfn⟩ marginalPathgroups =
        groupPaths m' ⟨paths, some start, pgpolicyfn⟩ marginalPathgroups) :
      groupPaths m ⟨paths, pg, pgpolicyfn⟩ marginalPathgroups = (1, ⟨paths, none, pgpolicyfn⟩) ∨
        ∃ r, groupPaths m ⟨paths, pg, pgpolicyfn⟩ marginalPathgroups =
            (0, ⟨none, some r, pgpolicyfn⟩) ∧
          (pg = none → ∃ v, sortPathgroups (some v) = some r) := by
    rw [hm]
    by_cases hempty : paths.getD [] = []
    · right
      refine ⟨start, by simp only [groupPaths, if_pos hempty], fun hnone => ⟨[], ?_⟩⟩
      rw [hstart hnone]
      rfl
    · simp only [groupPaths, if_neg hempty]
      cases pgpolicyfn with
      | none => exact Or.inl rfl
      | some policy =>
        dsimp only
        rcases groupAll policy.fn marginalPathgroups (paths.getD []) start m' with ⟨_ | v, m''⟩
        · exact Or.inl rfl
        · exact Or.inr ⟨_, rfl, fun _ => ⟨v, rfl⟩⟩
  cases pg with
  | some start => exact htail start m _ (fun hnone => by cases hnone) rfl
  | none =>
    -- the vector of the groups is allocated first
    by_cases hm : m 0 = true
    · apply htail [] (fun n => m (n + 1)) _ fun _ => rfl
      simp only [groupPaths, Alloc.malloc, Alloc.bind, Alloc.pure, if_pos hm]
    · left
      simp only [groupPaths, Alloc.malloc, Alloc.bind, if_neg hm]

end MultipathTools.Pgpolicies
