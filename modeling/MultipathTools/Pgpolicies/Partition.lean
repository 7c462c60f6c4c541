import MultipathTools.Base.Classes
import MultipathTools.Pgpolicies.Grouping

/-! The groups that `group_paths` makes are a partition of the paths. -/
namespace MultipathTools.Pgpolicies

open Alloc (Yields Steady always)

theorem storePath_steady (pathvec : List Path) (pp : Path) : Steady (storePath pathvec pp) := by
  unfold storePath
  split_ifs
  · exact Alloc.fail_steady
  · exact Alloc.bind_steady Alloc.malloc_steady fun _ => Alloc.pure_steady _

theorem allocPathgroup_steady : Steady allocPathgroup :=
  Alloc.bind_steady Alloc.malloc_steady fun _ =>
    Alloc.bind_steady Alloc.malloc_steady fun _ => Alloc.pure_steady _

theorem addPathgroup_steady (pg : List Pathgroup) (pgp : Pathgroup) :
    Steady (addPathgroup pg pgp) :=
  Alloc.bind_steady Alloc.malloc_steady fun _ => Alloc.pure_steady _

theorem feedLoop_steady (fn : Path → Path → Bool) (pp : Path) (rest : List (Path × ℕ))
    (paths : List Path) (bitmap : Bitfield) : Steady (feedLoop fn pp rest paths bitmap) := by
  induction rest generalizing paths bitmap with
  | nil => exact Alloc.pure_steady _
  | cons x rest ih =>
    unfold feedLoop
    split_ifs
    · exact ih _ _
    · exact Alloc.bind_steady (storePath_steady _ _) fun _ => ih _ _
    · exact ih _ _

theorem matchLoop_steady (fn : Path → Path → Bool) (rest : List (Path × ℕ))
    (pg : List Pathgroup) (bitmap : Bitfield) : Steady (matchLoop fn rest pg bitmap) := by
  induction rest generalizing pg bitmap with
  | nil => exact Alloc.pure_steady _
  | cons x rest ih =>
    unfold matchLoop
    split_ifs
    · exact ih _ _
    · exact Alloc.bind_steady allocPathgroup_steady fun _ =>
        Alloc.bind_steady (addPathgroup_steady _ _) fun _ =>
          Alloc.bind_steady (storePath_steady _ _) fun _ =>
            Alloc.bind_steady (feedLoop_steady _ _ _ _ _) fun _ => ih _ _

theorem onePathPerGroup_steady (paths : List Path) (pg : List Pathgroup) :
    Steady (onePathPerGroup paths pg) := by
  induction paths generalizing pg with
  | nil => exact Alloc.pure_steady _
  | cons pp paths ih =>
    exact Alloc.bind_steady allocPathgroup_steady fun _ =>
      Alloc.bind_steady (addPathgroup_steady _ _) fun _ =>
        Alloc.bind_steady (storePath_steady _ _) fun _ => ih _

theorem storePaths_steady (paths stored : List Path) : Steady (storePaths paths stored) := by
  induction paths generalizing stored with
  | nil => exact Alloc.pure_steady _
  | cons pp paths ih => exact Alloc.bind_steady (storePath_steady _ _) fun _ => ih _

theorem splitLoop_steady (paths normal marginal : List Path) :
    Steady (splitLoop paths normal marginal) := by
  induction paths generalizing normal marginal with
  | nil => exact Alloc.pure_steady _
  | cons pp paths ih =>
    unfold splitLoop
    split_ifs
    · exact Alloc.bind_steady (storePath_steady _ _) fun _ => ih _ _
    · exact Alloc.bind_steady (storePath_steady _ _) fun _ => ih _ _

theorem Pgpolicy.fn_steady (policy : Pgpolicy) (paths : List Path) (pg : List Pathgroup) :
    Steady (policy.fn paths pg) := by
  have hmatch (fn : Path → Path → Bool) : Steady (groupByMatch fn paths pg) := by
    unfold groupByMatch
    split_ifs
    · exact Alloc.fail_steady
    · exact Alloc.bind_steady Alloc.malloc_steady fun _ => matchLoop_steady _ _ _ _
  cases policy with
  | failover => exact onePathPerGroup_steady _ _
  | multibus =>
    exact Alloc.bind_steady allocPathgroup_steady fun _ =>
      Alloc.bind_steady (addPathgroup_steady _ _) fun _ =>
        Alloc.bind_steady (storePaths_steady _ _) fun _ => Alloc.pure_steady _
  | groupBySerial => exact hmatch _
  | groupByPrio => exact hmatch _
  | groupByNodeName => exact hmatch _

section Yields

variable {v v' : List Path} {pp : Path} {pg pg' : List Pathgroup}

theorem storePath_yields (h : Yields (storePath v pp) v') : v' = v ++ [pp] := by
  unfold storePath at h
  split_ifs at h
  · exact absurd h Alloc.fail_yields_iff.mp
  · obtain ⟨u, -, h⟩ := (Alloc.bind_yields_iff Alloc.malloc_steady).mp h
    exact (Alloc.pure_yields_iff.mp h).symm

/-- `store_path` takes the path. -/
def Named (pp : Path) : Prop := ¬ (pp.devT = [] ∧ pp.dev = [])

theorem storePath_named (h : Yields (storePath v pp) v') : Named pp := by
  unfold storePath at h
  split_ifs at h with hnone
  · exact absurd h Alloc.fail_yields_iff.mp
  · exact hnone

theorem allocPathgroup_yields {pgp : Pathgroup} (h : Yields allocPathgroup pgp) :
    pgp = { paths := some [] } := by
  obtain ⟨u, -, h⟩ := (Alloc.bind_yields_iff Alloc.malloc_steady).mp h
  obtain ⟨u, -, h⟩ := (Alloc.bind_yields_iff Alloc.malloc_steady).mp h
  exact (Alloc.pure_yields_iff.mp h).symm

theorem storePaths_yields {stored : List Path} (h : Yields (storePaths v v') stored) :
    stored = v' ++ v := by
  induction v generalizing v' with
  | nil =>
    rw [← Alloc.pure_yields_iff.mp h, List.append_nil]
  | cons pp v ih =>
    obtain ⟨next, hnext, h⟩ := (Alloc.bind_yields_iff (storePath_steady _ _)).mp h
    rw [ih h, storePath_yields hnext, List.append_assoc]
    rfl

theorem splitLoop_yields {normal marginal : List Path} {r : List Path × List Path}
    (h : Yields (splitLoop v normal marginal) r) :
    r = (normal ++ v.filter (!·.marginal), marginal ++ v.filter (·.marginal)) := by
  induction v generalizing normal marginal with
  | nil =>
    rw [← Alloc.pure_yields_iff.mp h, List.filter_nil, List.filter_nil, List.append_nil,
      List.append_nil]
  | cons pp v ih =>
    unfold splitLoop at h
    by_cases hm : pp.marginal = true
    · rw [if_pos hm] at h
      obtain ⟨stored, hstored, h⟩ := (Alloc.bind_yields_iff (storePath_steady _ _)).mp h
      rw [ih h, storePath_yields hstored]
      simp [hm]
    · rw [if_neg hm] at h
      obtain ⟨stored, hstored, h⟩ := (Alloc.bind_yields_iff (storePath_steady _ _)).mp h
      rw [ih h, storePath_yields hstored]
      simp [hm]

end Yields

/-- The group of the paths of a class. -/
def groupOf {α : Type*} (path : α → Path) (c : List α) : Pathgroup := { paths := some (c.map path) }

section Classes

variable {α : Type*} {path : α → Path} {fn : Path → Path → Bool}

/-- The bit of one path does not tell about those behind it. -/
theorem update_rest {rest : List (α × ℕ)} {bitmap : Bitfield} {i : ℕ} {y : α × ℕ}
    (hi : i ∉ rest.map Prod.snd) (hy : y ∈ rest) :
    Function.update bitmap i true y.2 = bitmap y.2 := by
  apply Function.update_of_ne
  rintro rfl
  exact hi (List.mem_map_of_mem hy)

/-- The inner loop takes all paths that match and are in no group yet, and marks them. -/
theorem feedLoop_yields {pp : Path} {rest : List (α × ℕ)} {paths : List Path} {bitmap : Bitfield}
    {r : List Path × Bitfield} (hrest : (rest.map Prod.snd).Nodup)
    (h : Yields (feedLoop fn pp (rest.map (Prod.map path id)) paths bitmap) r) :
    r.1 = paths ++
        (rest.filter fun x => !bitmap x.2 && fn pp (path x.1)).map (fun x => path x.1) ∧
      (∀ x ∈ rest, r.2 x.2 = (bitmap x.2 || fn pp (path x.1))) ∧
      ∀ j ∉ rest.map Prod.snd, r.2 j = bitmap j := by
  induction rest generalizing paths bitmap with
  | nil =>
    rw [← Alloc.pure_yields_iff.mp h]
    exact ⟨(List.append_nil _).symm, List.forall_mem_nil _, fun _ _ => rfl⟩
  | cons x rest ih =>
    obtain ⟨a, i⟩ := x
    rw [List.map_cons, List.nodup_cons] at hrest
    obtain ⟨hi, hrest⟩ := hrest
    change Yields (feedLoop fn pp ((path a, i) :: rest.map (Prod.map path id)) paths bitmap) r at h
    rw [feedLoop] at h
    by_cases hbit : bitmap i = true
    · rw [if_pos hbit] at h
      obtain ⟨hpaths, hmarks, hothers⟩ := ih hrest h
      refine ⟨?_, List.forall_mem_cons.mpr ⟨?_, hmarks⟩, fun j hj => ?_⟩
      · rw [hpaths, List.filter_cons_of_neg (by simp [hbit])]
      · rw [hothers i hi, hbit, Bool.true_or]
      · exact hothers j fun hmem => hj (List.mem_cons_of_mem _ hmem)
    · rw [if_neg hbit] at h
      by_cases hfn : fn pp (path a) = true
      · rw [if_pos hfn] at h
        obtain ⟨stored, hstored, h⟩ := (Alloc.bind_yields_iff (storePath_steady _ _)).mp h
        obtain ⟨hpaths, hmarks, hothers⟩ := ih hrest h
        have hsame : ∀ y ∈ rest, Function.update bitmap i true y.2 = bitmap y.2 :=
          fun y hy => update_rest hi hy
        refine ⟨?_, List.forall_mem_cons.mpr ⟨?_, fun y hy => ?_⟩, fun j hj => ?_⟩
        · rw [hpaths, storePath_yields hstored, List.filter_cons_of_pos (by simp [hbit, hfn]),
            List.append_assoc, List.map_cons, List.singleton_append]
          congr 3
          apply List.filter_congr
          intro y hy
          rw [hsame y hy]
        · rw [hothers i hi, Function.update_self, hfn, Bool.or_true]
        · rw [hmarks y hy, hsame y hy]
        · rw [List.map_cons, List.mem_cons, not_or] at hj
          rw [hothers j hj.2, Function.update_of_ne hj.1]
      · rw [if_neg hfn] at h
        obtain ⟨hpaths, hmarks, hothers⟩ := ih hrest h
        refine ⟨?_, List.forall_mem_cons.mpr ⟨?_, hmarks⟩, fun j hj => ?_⟩
        · rw [hpaths, List.filter_cons_of_neg (by simp [hfn])]
        · rw [hothers i hi, Bool.eq_false_iff.mpr hfn, Bool.or_false]
        · exact hothers j fun hmem => hj (List.mem_cons_of_mem _ hmem)

theorem feedLoop_named {pp : Path} {rest : List (α × ℕ)} {paths : List Path} {bitmap : Bitfield}
    {r : List Path × Bitfield} (hrest : (rest.map Prod.snd).Nodup)
    (h : Yields (feedLoop fn pp (rest.map (Prod.map path id)) paths bitmap) r) :
    ∀ x ∈ rest, bitmap x.2 = false → fn pp (path x.1) = true → Named (path x.1) := by
  induction rest generalizing paths bitmap with
  | nil => exact List.forall_mem_nil _
  | cons x rest ih =>
    obtain ⟨a, i⟩ := x
    rw [List.map_cons, List.nodup_cons] at hrest
    obtain ⟨hi, hrest⟩ := hrest
    change Yields (feedLoop fn pp ((path a, i) :: rest.map (Prod.map path id)) paths bitmap) r at h
    rw [feedLoop] at h
    rw [List.forall_mem_cons]
    by_cases hbit : bitmap i = true
    · rw [if_pos hbit] at h
      refine ⟨fun hno => ?_, ih hrest h⟩
      rw [hbit] at hno
      cases hno
    · rw [if_neg hbit] at h
      by_cases hfn : fn pp (path a) = true
      · rw [if_pos hfn] at h
        obtain ⟨stored, hstored, h⟩ := (Alloc.bind_yields_iff (storePath_steady _ _)).mp h
        refine ⟨fun _ _ => storePath_named hstored, fun y hy hno => ?_⟩
        have hsame : Function.update bitmap i true y.2 = bitmap y.2 := update_rest hi hy
        exact ih hrest h y hy (hsame.trans hno)
      · rw [if_neg hfn] at h
        exact ⟨fun _ hyes => absurd hyes hfn, ih hrest h⟩

theorem matchLoop_named {rest : List (α × ℕ)} {pg pg' : List Pathgroup} {bitmap : Bitfield}
    (hrest : (rest.map Prod.snd).Nodup)
    (h : Yields (matchLoop fn (rest.map (Prod.map path id)) pg bitmap) pg') :
    ∀ x ∈ rest, bitmap x.2 = false → Named (path x.1) := by
  induction rest generalizing pg bitmap with
  | nil => exact List.forall_mem_nil _
  | cons x rest ih =>
    obtain ⟨a, i⟩ := x
    rw [List.map_cons, List.nodup_cons] at hrest
    obtain ⟨hi, hrest⟩ := hrest
    change Yields (matchLoop fn ((path a, i) :: rest.map (Prod.map path id)) pg bitmap) pg' at h
    rw [matchLoop] at h
    rw [List.forall_mem_cons]
    by_cases hbit : bitmap i = true
    · rw [if_pos hbit] at h
      refine ⟨fun hno => ?_, ih hrest h⟩
      rw [hbit] at hno
      cases hno
    · rw [if_neg hbit] at h
      obtain ⟨pgp, -, h⟩ := (Alloc.bind_yields_iff allocPathgroup_steady).mp h
      obtain ⟨-, -, h⟩ := (Alloc.bind_yields_iff (addPathgroup_steady _ _)).mp h
      obtain ⟨first, hfirst, h⟩ := (Alloc.bind_yields_iff (storePath_steady _ _)).mp h
      obtain ⟨r, hfed, h⟩ := (Alloc.bind_yields_iff (feedLoop_steady _ _ _ _ _)).mp h
      obtain ⟨-, hmarks, -⟩ := feedLoop_yields hrest hfed
      refine ⟨fun _ => storePath_named hfirst, fun y hy hno => ?_⟩
      have hsame : Function.update bitmap i true y.2 = bitmap y.2 := update_rest hi hy
      have hupdate := hsame.trans hno
      by_cases hfn : fn (path a) (path y.1) = true
      · exact feedLoop_named hrest hfed y hy hupdate hfn
      · apply ih hrest h y hy
        rw [hmarks y hy, hupdate, Bool.eq_false_iff.mpr hfn]
        rfl

/-- The outer loop makes groups of the classes of the paths that are in no group yet. -/
theorem matchLoop_yields (hfn : Equivalence fun a b => fn (path a) (path b) = true)
    {rest : List (α × ℕ)} {pg pg' : List Pathgroup} {bitmap : Bitfield}
    (hrest : (rest.map Prod.snd).Nodup)
    (h : Yields (matchLoop fn (rest.map (Prod.map path id)) pg bitmap) pg') :
    ∃ cs, Classes (fun a b => fn (path a) (path b) = true)
        ((rest.filter fun x => !bitmap x.2).map Prod.fst) cs ∧
      pg' = pg ++ cs.map (groupOf path) := by
  induction rest generalizing pg bitmap with
  | nil =>
    rw [← Alloc.pure_yields_iff.mp h]
    exact ⟨[], classes_nil _, (List.append_nil _).symm⟩
  | cons x rest ih =>
    obtain ⟨a, i⟩ := x
    rw [List.map_cons, List.nodup_cons] at hrest
    obtain ⟨hi, hrest⟩ := hrest
    change Yields (matchLoop fn ((path a, i) :: rest.map (Prod.map path id)) pg bitmap) pg' at h
    rw [matchLoop] at h
    by_cases hbit : bitmap i = true
    · rw [if_pos hbit] at h
      rw [List.filter_cons_of_neg (by simp [hbit])]
      exact ih hrest h
    · rw [if_neg hbit] at h
      obtain ⟨pgp, hpgp, h⟩ := (Alloc.bind_yields_iff allocPathgroup_steady).mp h
      obtain ⟨-, -, h⟩ := (Alloc.bind_yields_iff (addPathgroup_steady _ _)).mp h
      obtain ⟨first, hfirst, h⟩ := (Alloc.bind_yields_iff (storePath_steady _ _)).mp h
      obtain ⟨r, hfed, h⟩ := (Alloc.bind_yields_iff (feedLoop_steady _ _ _ _ _)).mp h
      obtain ⟨hpaths, hmarks, -⟩ := feedLoop_yields hrest hfed
      obtain ⟨cs, hcs, rfl⟩ := ih hrest h
      have hsame : ∀ y ∈ rest, Function.update bitmap i true y.2 = bitmap y.2 :=
        fun y hy => update_rest hi hy
      -- the paths that are left are those of no group that do not match
      have hleft : (rest.filter fun y => !r.2 y.2).map Prod.fst =
          ((rest.filter fun y => !bitmap y.2).map Prod.fst).filter
            fun b => !fn (path a) (path b) := by
        rw [List.filter_map, List.filter_filter]
        congr 1
        apply List.filter_congr
        intro y hy
        rw [hmarks y hy, hsame y hy, Bool.not_or, Bool.and_comm]
        rfl
      have hgroup : r.1 = path a :: (((rest.filter fun y => !bitmap y.2).map Prod.fst).filter
          fun b => fn (path a) (path b)).map path := by
        rw [hpaths, storePath_yields hfirst, List.filter_map, List.filter_filter, List.map_map,
          List.nil_append, List.singleton_append]
        congr 2
        apply List.filter_congr
        intro y hy
        rw [hsame y hy, Bool.and_comm]
        rfl
      rw [hleft] at hcs
      refine ⟨_, by
        rw [List.filter_cons_of_pos (by simp [hbit]), List.map_cons]
        exact hcs.cons (fun b => Iff.rfl) hfn, ?_⟩
      rw [List.map_cons, allocPathgroup_yields hpgp, hgroup, List.append_assoc]
      rfl

theorem groupByMatch_yields (hfn : Equivalence fun a b => fn (path a) (path b) = true)
    {l : List α} {pg pg' : List Pathgroup} (h : Yields (groupByMatch fn (l.map path) pg) pg') :
    (∃ cs, Classes (fun a b => fn (path a) (path b) = true) l cs ∧
      pg' = pg ++ cs.map (groupOf path)) ∧ ∀ a ∈ l, Named (path a) := by
  unfold groupByMatch at h
  split_ifs at h
  · exact absurd h Alloc.fail_yields_iff.mp
  · obtain ⟨-, -, h⟩ := (Alloc.bind_yields_iff Alloc.malloc_steady).mp h
    have hzip : (l.map path).zipIdx = l.zipIdx.map (Prod.map path id) := List.zipIdx_map
    rw [hzip] at h
    have hnodup : (l.zipIdx.map Prod.snd).Nodup := by
      rw [List.zipIdx_map_snd]
      exact List.nodup_range'
    constructor
    · have hclasses := matchLoop_yields hfn hnodup h
      simpa [List.zipIdx_map_fst] using hclasses
    · intro a ha
      rw [← List.zipIdx_map_fst 0 l] at ha
      obtain ⟨x, hx, rfl⟩ := List.mem_map.mp ha
      exact matchLoop_named hnodup h x hx rfl

theorem onePathPerGroup_yields {l : List α} {pg pg' : List Pathgroup}
    (h : Yields (onePathPerGroup (l.map path) pg) pg') :
    pg' = pg ++ (l.map ([·])).map (groupOf path) ∧ ∀ a ∈ l, Named (path a) := by
  induction l generalizing pg with
  | nil =>
    rw [← Alloc.pure_yields_iff.mp h]
    exact ⟨(List.append_nil _).symm, List.forall_mem_nil _⟩
  | cons a l ih =>
    rw [List.map_cons, onePathPerGroup] at h
    obtain ⟨pgp, hpgp, h⟩ := (Alloc.bind_yields_iff allocPathgroup_steady).mp h
    obtain ⟨-, -, h⟩ := (Alloc.bind_yields_iff (addPathgroup_steady _ _)).mp h
    obtain ⟨first, hfirst, h⟩ := (Alloc.bind_yields_iff (storePath_steady _ _)).mp h
    obtain ⟨hpg, hnamed⟩ := ih h
    constructor
    · rw [hpg, allocPathgroup_yields hpgp, storePath_yields hfirst, List.append_assoc]
      rfl
    · exact List.forall_mem_cons.mpr ⟨storePath_named hfirst, hnamed⟩

theorem storePaths_named {l : List α} {v v' : List Path}
    (h : Yields (storePaths (l.map path) v) v') : ∀ a ∈ l, Named (path a) := by
  induction l generalizing v with
  | nil => exact List.forall_mem_nil _
  | cons a l ih =>
    rw [List.map_cons, storePaths] at h
    obtain ⟨next, hnext, h⟩ := (Alloc.bind_yields_iff (storePath_steady _ _)).mp h
    exact List.forall_mem_cons.mpr ⟨storePath_named hnext, ih h⟩

theorem oneGroup_yields {l : List α} {pg pg' : List Pathgroup}
    (h : Yields (oneGroup (l.map path) pg) pg') :
    pg' = pg ++ [l].map (groupOf path) ∧ ∀ a ∈ l, Named (path a) := by
  obtain ⟨pgp, hpgp, h⟩ := (Alloc.bind_yields_iff allocPathgroup_steady).mp h
  obtain ⟨-, -, h⟩ := (Alloc.bind_yields_iff (addPathgroup_steady _ _)).mp h
  obtain ⟨stored, hstored, h⟩ := (Alloc.bind_yields_iff (storePaths_steady _ _)).mp h
  refine ⟨?_, storePaths_named hstored⟩
  rw [← Alloc.pure_yields_iff.mp h, allocPathgroup_yields hpgp, storePaths_yields hstored]
  rfl

end Classes

/-- When the paths at two positions belong together. -/
def Pgpolicy.Related : Pgpolicy → Path × ℕ → Path × ℕ → Prop
  | .failover, a, b => a.2 = b.2
  | .multibus, _, _ => True
  | .groupBySerial, a, b => serialsMatch a.1 b.1 = true
  | .groupByPrio, a, b => priosMatch a.1 b.1 = true
  | .groupByNodeName, a, b => nodeNamesMatch a.1 b.1 = true

/-- With marginal path groups, both paths or neither are also marginal. -/
def SameGroup (policy : Pgpolicy) (marginalPathgroups : Bool) (a b : Path × ℕ) : Prop :=
  policy.Related a b ∧ (marginalPathgroups = true → a.1.marginal = b.1.marginal)

section Policies

variable {l : List (Path × ℕ)} {pg pg' : List Pathgroup} {policy : Pgpolicy}

/-- Each policy makes groups of its classes. -/
theorem Pgpolicy.fn_yields (hl : (l.map Prod.snd).Nodup)
    (h : Yields (policy.fn (l.map Prod.fst) pg) pg') :
    (∃ cs, Classes policy.Related l cs ∧ pg' = pg ++ cs.map (groupOf Prod.fst)) ∧
      ∀ a ∈ l, Named a.1 := by
  have hstrncmp {α β : Type} [DecidableEq β] (f : α → β) :
      Equivalence fun a b : α => decide (f a = f b) = true := by
    simp only [decide_eq_true_iff]
    exact ⟨fun _ => rfl, Eq.symm, Eq.trans⟩
  cases policy with
  | failover =>
    obtain ⟨hpg, hnamed⟩ := onePathPerGroup_yields h
    refine ⟨⟨_, classes_single fun a ha b hb => ?_, hpg⟩, hnamed⟩
    exact ⟨fun hab => List.inj_on_of_nodup_map hl hb ha hab.symm, fun hba => by rw [hba]; rfl⟩
  | multibus =>
    obtain ⟨hpg, hnamed⟩ := oneGroup_yields h
    exact ⟨⟨_, classes_whole fun _ _ _ _ => trivial, hpg⟩, hnamed⟩
  | groupBySerial => exact groupByMatch_yields (hstrncmp fun a : Path × ℕ => a.1.serial.take 128) h
  | groupByPrio => exact groupByMatch_yields (hstrncmp fun a : Path × ℕ => a.1.priority) h
  | groupByNodeName =>
    exact groupByMatch_yields (hstrncmp fun a : Path × ℕ => a.1.tgtNodeName.take 224) h

theorem splitLoop_yields_of_named {v normal marginal : List Path} (h : ∀ pp ∈ v, Named pp) :
    Yields (splitLoop v normal marginal)
      (normal ++ v.filter (!·.marginal), marginal ++ v.filter (·.marginal)) := by
  have hstore (w : List Path) (pp : Path) (hpp : Named pp) :
      Yields (storePath w pp) (w ++ [pp]) := by
    rw [storePath, if_neg hpp]
    rfl
  induction v generalizing normal marginal with
  | nil => simp [splitLoop, Alloc.pure_yields_iff]
  | cons pp v ih =>
    rw [List.forall_mem_cons] at h
    rw [splitLoop]
    by_cases hm : pp.marginal = true
    · rw [if_pos hm]
      apply (Alloc.bind_yields_iff (storePath_steady _ _)).mpr
      refine ⟨_, hstore marginal pp h.1, ?_⟩
      simpa [hm] using @ih normal (marginal ++ [pp]) h.2
    · rw [if_neg hm]
      apply (Alloc.bind_yields_iff (storePath_steady _ _)).mpr
      refine ⟨_, hstore normal pp h.1, ?_⟩
      simpa [hm] using @ih (normal ++ [pp]) marginal h.2

theorem splitMarginalPaths_steady (paths : List Path) : Steady (splitMarginalPaths paths) := by
  unfold splitMarginalPaths
  dsimp only
  split_ifs
  · exact Alloc.fail_steady
  · exact Alloc.bind_steady Alloc.mallocs_steady fun _ => splitLoop_steady _ _ _

/-- The marginal paths are split off. -/
theorem splitMarginalPaths_yields {paths : List Path} {r : List Path × List Path}
    (h : Yields (splitMarginalPaths paths) r) :
    r = (paths.filter (!·.marginal), paths.filter (·.marginal)) := by
  unfold splitMarginalPaths at h
  dsimp only at h
  split_ifs at h
  · exact absurd h Alloc.fail_yields_iff.mp
  · obtain ⟨-, -, h⟩ := (Alloc.bind_yields_iff Alloc.mallocs_steady).mp h
    exact splitLoop_yields h

theorem splitMarginalPaths_succeeds {paths : List Path} (hnamed : ∀ pp ∈ paths, Named pp)
    (hmarginal : ∃ pp ∈ paths, pp.marginal = true) (hnormal : ∃ pp ∈ paths, pp.marginal = false) :
    ∃ r, Yields (splitMarginalPaths paths) r := by
  obtain ⟨pp, hpp, hm⟩ := hmarginal
  obtain ⟨qq, hqq, hn⟩ := hnormal
  have hboth : ¬ ((!paths.any (·.marginal)) || (!paths.any (!·.marginal))) = true := by
    have hany : paths.any (·.marginal) = true := List.any_eq_true.mpr ⟨pp, hpp, hm⟩
    have hany' : paths.any (!·.marginal) = true :=
      List.any_eq_true.mpr ⟨qq, hqq, by rw [hn]; rfl⟩
    rw [hany, hany']
    exact Bool.false_ne_true
  unfold splitMarginalPaths
  dsimp only
  rw [if_neg hboth]
  have hloop := @splitLoop_yields_of_named paths [] [] hnamed
  exact ⟨_, (Alloc.bind_yields_iff Alloc.mallocs_steady).mpr ⟨(), rfl, hloop⟩⟩

theorem groupAll_steady (policy : Pgpolicy) (marginalPathgroups : Bool) (paths : List Path)
    (pg : List Pathgroup) : Steady (groupAll policy.fn marginalPathgroups paths pg) := by
  have hsplit := splitMarginalPaths_steady paths
  unfold Steady at hsplit
  unfold Steady groupAll
  split_ifs
  · exact policy.fn_steady _ _
  · rcases hr : splitMarginalPaths paths always with ⟨_ | r, m⟩
    · rw [hr] at hsplit
      obtain rfl : m = always := hsplit
      exact policy.fn_steady _ _
    · rw [hr] at hsplit
      obtain rfl : m = always := hsplit
      exact Alloc.bind_steady (policy.fn_steady _ _) fun _ => policy.fn_steady _ _

/-- Where all paths are marginal, or none is, the flag does not divide them. -/
theorem classes_sameFlag {flag : Bool} {cs : List (List (Path × ℕ))} {marginalPathgroups : Bool}
    (h : Classes policy.Related l cs) (hflag : ∀ a ∈ l, a.1.marginal = flag) :
    Classes (SameGroup policy marginalPathgroups) l cs := by
  apply h.congr
  intro a ha b hb
  exact ⟨fun hab => ⟨hab, fun _ => (hflag a ha).trans (hflag b hb).symm⟩, fun hab => hab.1⟩

/-- Without failed allocations the groups are the classes of the paths. -/
theorem groupAll_yields {marginalPathgroups : Bool} (hl : (l.map Prod.snd).Nodup)
    (h : Yields (groupAll policy.fn marginalPathgroups (l.map Prod.fst) pg) pg') :
    ∃ cs, Classes (SameGroup policy marginalPathgroups) l cs ∧
      pg' = pg ++ cs.map (groupOf Prod.fst) := by
  cases marginalPathgroups with
  | false =>
    obtain ⟨⟨cs, hcs, hpg⟩, -⟩ := Pgpolicy.fn_yields hl h
    refine ⟨cs, hcs.congr fun a _ b _ => ?_, hpg⟩
    exact ⟨fun hab => ⟨hab, fun hno => by cases hno⟩, fun hab => hab.1⟩
  | true =>
    unfold Yields groupAll at h
    rw [if_neg (by decide)] at h
    have hsplit := splitMarginalPaths_steady (l.map Prod.fst)
    unfold Steady at hsplit
    rcases hr : splitMarginalPaths (l.map Prod.fst) always with ⟨_ | ⟨normal, marginal⟩, m⟩
    · rw [hr] at h hsplit
      obtain rfl : m = always := hsplit
      obtain ⟨⟨cs, hcs, hpg⟩, hnamed⟩ := Pgpolicy.fn_yields hl h
      -- nothing was split, although all paths can be stored
      have hflag : (∀ a ∈ l, a.1.marginal = false) ∨ ∀ a ∈ l, a.1.marginal = true := by
        by_contra hboth
        rw [not_or] at hboth
        obtain ⟨hmarginal, hnormal⟩ := hboth
        push Not at hmarginal hnormal
        obtain ⟨a, ha, hma⟩ := hmarginal
        obtain ⟨b, hb, hmb⟩ := hnormal
        have hall : ∀ pp ∈ l.map Prod.fst, Named pp := by
          intro pp hpp
          obtain ⟨c, hc, rfl⟩ := List.mem_map.mp hpp
          exact hnamed c hc
        obtain ⟨r, hyields⟩ := splitMarginalPaths_succeeds hall
          ⟨a.1, List.mem_map_of_mem ha, by simpa using hma⟩
          ⟨b.1, List.mem_map_of_mem hb, by simpa using hmb⟩
        rw [Yields, hr] at hyields
        cases hyields
      rcases hflag with hflag | hflag
      · exact ⟨cs, classes_sameFlag hcs hflag, hpg⟩
      · exact ⟨cs, classes_sameFlag hcs hflag, hpg⟩
    · rw [hr] at h hsplit
      obtain rfl : m = always := hsplit
      have hparts := splitMarginalPaths_yields (show Yields _ _ from hr)
      rw [List.filter_map, List.filter_map] at hparts
      obtain ⟨rfl, rfl⟩ := Prod.mk.inj hparts
      obtain ⟨pg1, hfirst, hsecond⟩ := (Alloc.bind_yields_iff (policy.fn_steady _ _)).mp h
      have hsub (p : Path × ℕ → Bool) : ((l.filter p).map Prod.snd).Nodup :=
        (List.filter_sublist.map Prod.snd).nodup hl
      obtain ⟨⟨cs, hcs, rfl⟩, -⟩ := Pgpolicy.fn_yields (hsub _) hfirst
      obtain ⟨⟨ds, hds, rfl⟩, -⟩ := Pgpolicy.fn_yields (hsub _) hsecond
      refine ⟨cs ++ ds, ?_, by rw [List.map_append, List.append_assoc]⟩
      have hnormal : Classes (SameGroup policy true) _ cs :=
        @classes_sameFlag _ policy false _ true hcs fun a ha => by
          simpa using (List.mem_filter.mp ha).2
      have hmarginal : Classes (SameGroup policy true) _ ds :=
        @classes_sameFlag _ policy true _ true hds fun a ha => (List.mem_filter.mp ha).2
      apply hnormal.append (p := fun a => !a.1.marginal)
      · simp only [Bool.not_not]
        exact hmarginal
      · intro a b hab
        rw [hab.2 rfl]

end Policies

/-- Sorting the groups moves them as a whole. -/
theorem sortPathgroups_paths {pg : List Pathgroup} :
    ∃ pg', sortPathgroups (some pg) = some pg' ∧ (pg'.map (·.paths)).Perm (pg.map (·.paths)) := by
  have hsorted : StableSorted merit (pg.map pathGroupPrioUpdate) (sortLoop pg.length 0 pg) :=
    sortLoop_sorted stableSorted_nil
  refine ⟨_, rfl, (hsorted.perm.map (·.paths)).trans ?_⟩
  rw [List.map_map]
  exact List.Perm.of_eq (List.map_congr_left fun pgp _ => pathGroupPrioUpdate_paths pgp)

theorem groupPaths_success {policy : Pgpolicy} {marginalPathgroups : Bool}
    {paths : Option (List Path)}
    (hrc : (groupPaths always { paths := paths, pgpolicyfn := some policy }
      marginalPathgroups).1 = 0) :
    ∃ pg cs,
      (groupPaths always { paths := paths, pgpolicyfn := some policy } marginalPathgroups).2 =
        { pg := some pg, pgpolicyfn := some policy } ∧
      Classes (SameGroup policy marginalPathgroups) (paths.getD []).zipIdx cs ∧
      (pg.map (·.paths)).Perm (cs.map fun c => some (c.map Prod.fst)) := by
  have halloc : (Alloc.malloc.bind fun _ => Alloc.pure ([] : List Pathgroup)) always =
      (some [], always) := rfl
  by_cases hempty : paths.getD [] = []
  · have hgroup : groupPaths always { paths := paths, pgpolicyfn := some policy }
        marginalPathgroups = (0, { pg := some [], pgpolicyfn := some policy }) := by
      simp only [groupPaths, halloc, if_pos hempty]
    rw [hgroup, hempty]
    exact ⟨[], [], rfl, classes_nil _, List.Perm.nil⟩
  · have hsteady := groupAll_steady policy marginalPathgroups (paths.getD []) []
    simp only [groupPaths, halloc, if_neg hempty] at hrc ⊢
    rcases hr : groupAll policy.fn marginalPathgroups (paths.getD []) [] always with ⟨_ | pg, m⟩
    · rw [hr] at hrc
      exact absurd hrc one_ne_zero
    · simp only
      have hyields : Yields (groupAll policy.fn marginalPathgroups
          ((paths.getD []).zipIdx.map Prod.fst) []) pg := by
        rw [List.zipIdx_map_fst]
        exact hsteady.yields (by rw [hr])
      have hnodup : ((paths.getD []).zipIdx.map Prod.snd).Nodup := by
        rw [List.zipIdx_map_snd]
        exact List.nodup_range'
      obtain ⟨cs, hcs, hpg⟩ := groupAll_yields hnodup hyields
      obtain ⟨pg', hsort, hperm⟩ := @sortPathgroups_paths pg
      refine ⟨pg', cs, by rw [hsort], hcs, hperm.trans ?_⟩
      rw [hpg, List.nil_append, List.map_map]
      rfl

/-- Without failed allocations, if `group_paths` succeeds, the groups are the classes of the
paths, in the order of the paths. If it fails at any allocation, the map has no groups and
keeps its paths. -/
theorem groupPaths_partition (policy : Pgpolicy) (marginalPathgroups : Bool)
    (paths : Option (List Path)) :
    ((groupPaths always { paths := paths, pgpolicyfn := some policy } marginalPathgroups).1 = 0 →
      ∃ pg cs,
        (groupPaths always { paths := paths, pgpolicyfn := some policy } marginalPathgroups).2 =
          { pg := some pg, pgpolicyfn := some policy } ∧
        Classes (SameGroup policy marginalPathgroups) (paths.getD []).zipIdx cs ∧
        (pg.map (·.paths)).Perm (cs.map fun c => some (c.map Prod.fst))) ∧
    ∀ m mp, (groupPaths m mp marginalPathgroups).1 ≠ 0 →
      (groupPaths m mp marginalPathgroups).2.pg = none ∧
        (groupPaths m mp marginalPathgroups).2.paths = mp.paths := by
  constructor
  · exact groupPaths_success
  · intro m mp hrc
    rcases groupPaths_cases m mp marginalPathgroups with hfail | ⟨pg, hpg, -⟩
    · rw [hfail]
      exact ⟨rfl, rfl⟩
    · rw [hpg] at hrc
      exact absurd rfl hrc

/-- A path of this name. -/
def namedPath (dev : CStr) (marginal : Bool) : Path := { dev := dev, marginal := marginal }

/-- Of three paths the second one is marginal. -/
def sampleGroups : ℤ × Multipath :=
  groupPaths always { paths := some [namedPath ['a'] false, namedPath ['b'] true, namedPath ['c'] false],
                      pgpolicyfn := some .multibus } true

theorem groupPaths_partition_sample :
    sampleGroups.1 = 0 ∧
      ∃ pg cs, sampleGroups.2 = { pg := some pg, pgpolicyfn := some .multibus } ∧
        Classes (SameGroup .multibus true)
          [(namedPath ['a'] false, 0), (namedPath ['b'] true, 1), (namedPath ['c'] false, 2)] cs ∧
        (pg.map (·.paths)).Perm (cs.map fun c => some (c.map Prod.fst)) :=
  ⟨by decide, (groupPaths_partition .multibus true
    (some [namedPath ['a'] false, namedPath ['b'] true, namedPath ['c'] false])).1 (by decide)⟩

end MultipathTools.Pgpolicies
