import Mathlib.Data.Bool.Basic
import Mathlib.Data.Prod.Lex
import MultipathTools.Structs

/-! The priority of path groups, and the choice of the best group of a map
(`switchgroup.c`). -/
namespace MultipathTools.Pgpolicies

/-- `struct path`, with the fields that path grouping looks at. -/
structure Path extends MultipathTools.Path where
  serial : CStr := []
  tgtNodeName : CStr := []
  marginal : Bool := false
  deriving DecidableEq, Repr

/-- `struct pathgroup`. The paths are a pointer that may be NULL. -/
structure Pathgroup where
  priority : ℤ := 0
  enabledPaths : ℕ := 0
  marginal : Bool := false
  paths : Option (List Path) := none
  deriving DecidableEq, Repr

/-- A path counts as enabled in the states PATH_UP and PATH_GHOST. -/
def Path.enabled (pp : Path) : Bool := pp.isActive

/-- `path_group_prio_update` -/
def pathGroupPrioUpdate (pgp : Pathgroup) : Pathgroup :=
  match pgp.paths with
  | none => { pgp with enabledPaths := 0, priority := 0 }
  | some paths =>
    let marginal := paths.countP (·.marginal)
    let enabledPaths := paths.countP Path.enabled
    let priority := toInt ((paths.filter Path.enabled).map (·.priority)).sum
    { pgp with
      enabledPaths := enabledPaths
      priority := if enabledPaths ≠ 0 then priority.tdiv enabledPaths else 0
      -- the flag is never taken back
      marginal := if marginal ≠ 0 ∧ marginal = paths.length then true else pgp.marginal }

/-- The local variables of `select_path_group`. -/
structure Selection where
  normalPgp : Bool := false
  maxPriority : ℤ := 0
  bestpg : ℕ := 1
  maxEnabledPaths : ℕ := 1
  deriving DecidableEq, Repr

/-- One turn of the loop of `select_path_group`, for the group number `i` from 0. -/
def selectStep (s : Selection) (pgp : Pathgroup) (i : ℕ) : Selection :=
  if pgp.paths = none then s
  else
    let pgp := pathGroupPrioUpdate pgp
    if pgp.marginal ∧ s.normalPgp then s
    else if pgp.enabledPaths ≠ 0 then
      if ¬ pgp.marginal ∧ ¬ s.normalPgp then
        { normalPgp := true, maxPriority := pgp.priority, maxEnabledPaths := pgp.enabledPaths,
          bestpg := i + 1 }
      else if pgp.priority > s.maxPriority then
        { s with maxPriority := pgp.priority, maxEnabledPaths := pgp.enabledPaths,
                 bestpg := i + 1 }
      else if pgp.priority = s.maxPriority then
        if pgp.enabledPaths > s.maxEnabledPaths then
          { s with maxEnabledPaths := pgp.enabledPaths, bestpg := i + 1 }
        else s
      else s
    else s

def selectLoop : List Pathgroup → ℕ → Selection → Selection
  | [], _, s => s
  | pgp :: pg, i, s => selectLoop pg (i + 1) (selectStep s pgp i)

/-- `select_path_group` -/
def selectPathGroup (pg : Option (List Pathgroup)) : ℕ :=
  match pg with
  | none => 1
  | some pg => (selectLoop pg 0 {}).bestpg

section Update

variable (pgp : Pathgroup)

@[simp] theorem pathGroupPrioUpdate_paths : (pathGroupPrioUpdate pgp).paths = pgp.paths := by
  unfold pathGroupPrioUpdate
  cases pgp.paths <;> rfl

/-- The paths are enough to tell the flag and the numbers, up to the old flag. -/
theorem pathGroupPrioUpdate_idem :
    pathGroupPrioUpdate (pathGroupPrioUpdate pgp) = pathGroupPrioUpdate pgp := by
  cases hp : pgp.paths with
  | none => simp [pathGroupPrioUpdate, hp]
  | some paths =>
    unfold pathGroupPrioUpdate
    simp only [hp]
    split_ifs <;> rfl

end Update

/-- The merit of a group: not marginal, then a high priority, then many enabled paths. -/
def merit (pgp : Pathgroup) : Bool ×ₗ ℤ ×ₗ ℕ :=
  toLex (!pgp.marginal, toLex (pgp.priority, pgp.enabledPaths))

theorem merit_le_iff {a b : Pathgroup} :
    merit a ≤ merit b ↔ (a.marginal = true ∧ b.marginal = false) ∨
      a.marginal = b.marginal ∧ (a.priority < b.priority ∨
        a.priority = b.priority ∧ a.enabledPaths ≤ b.enabledPaths) := by
  unfold merit
  rw [Prod.Lex.toLex_le_toLex, Prod.Lex.toLex_le_toLex]
  cases a.marginal <;> cases b.marginal <;> simp

end MultipathTools.Pgpolicies

/-! The marginal flag of a path group over the life of the group. -/
namespace MultipathTools.Pgpolicies

/-- What happens to a path group. Paths are told by their slot. -/
inductive Event
  | setMarginal (i : ℕ) (marginal : Bool)
  | removePath (i : ℕ)
  /-- A call of `path_group_prio_update`. -/
  | prioUpdate
  deriving DecidableEq, Repr

def Event.apply (pgp : Pathgroup) : Event → Pathgroup
  | .setMarginal i marginal =>
    { pgp with paths := pgp.paths.map (·.modify i fun pp => { pp with marginal := marginal }) }
  | .removePath i => { pgp with paths := pgp.paths.map (·.eraseIdx i) }
  | .prioUpdate => pathGroupPrioUpdate pgp

def run (pgp : Pathgroup) (es : List Event) : Pathgroup := es.foldl Event.apply pgp

/-- The group is not empty, and all its paths are marginal. -/
def allMarginal (pgp : Pathgroup) : Bool :=
  match pgp.paths with
  | none => false
  | some paths => !paths.isEmpty && paths.all (·.marginal)

/-- Right after each call the flag says whether all paths of the group are marginal. -/
def Tracks (pgp : Pathgroup) (es : List Event) : Prop :=
  ∀ pre post, es = pre ++ .prioUpdate :: post →
    (run pgp (pre ++ [.prioUpdate])).marginal = allMarginal (run pgp (pre ++ [.prioUpdate]))

/-- Whether all paths are marginal at each call. -/
def calls (pgp : Pathgroup) : List Event → List Bool
  | [] => []
  | e :: es =>
    (if e = .prioUpdate then [allMarginal pgp] else []) ++ calls (e.apply pgp) es

section Step

variable {pgp : Pathgroup} {e : Event} {es : List Event}

/-- A call only ever sets the flag. -/
theorem pathGroupPrioUpdate_marginal :
    (pathGroupPrioUpdate pgp).marginal = (pgp.marginal || allMarginal pgp) := by
  unfold pathGroupPrioUpdate allMarginal
  cases pgp.paths with
  | none => simp
  | some paths =>
    have hall : (paths.countP (·.marginal) ≠ 0 ∧ paths.countP (·.marginal) = paths.length) ↔
        (!paths.isEmpty && paths.all (·.marginal)) = true := by
      rw [List.countP_eq_length]
      cases paths with
      | nil => simp
      | cons pp paths =>
        simp
        intro hpp _ hfalse
        rw [hpp] at hfalse
        cases hfalse
    dsimp only
    by_cases h : (!paths.isEmpty && paths.all (·.marginal)) = true
    · rw [if_pos (hall.mpr h), h, Bool.or_true]
    · rw [if_neg (mt hall.mp h), Bool.eq_false_iff.mpr h, Bool.or_false]

theorem pathGroupPrioUpdate_allMarginal :
    allMarginal (pathGroupPrioUpdate pgp) = allMarginal pgp := by
  unfold allMarginal
  rw [pathGroupPrioUpdate_paths]

/-- All other events leave the flag as it is. -/
theorem apply_marginal (h : e ≠ .prioUpdate) : (e.apply pgp).marginal = pgp.marginal := by
  cases e with
  | setMarginal i marginal => rfl
  | removePath i => rfl
  | prioUpdate => exact absurd rfl h

theorem tracks_cons : Tracks pgp (e :: es) ↔
    (e = .prioUpdate → (pathGroupPrioUpdate pgp).marginal = allMarginal pgp) ∧
      Tracks (e.apply pgp) es := by
  constructor
  · intro h
    constructor
    · rintro rfl
      have hfirst := h [] es rfl
      rwa [List.nil_append, run, List.foldl_cons, List.foldl_nil, Event.apply,
        pathGroupPrioUpdate_allMarginal] at hfirst
    · intro pre post hes
      exact h (e :: pre) post (by rw [hes]; rfl)
  · rintro ⟨hfirst, hrest⟩ pre post hes
    cases pre with
    | nil =>
      cases hes
      show (pathGroupPrioUpdate pgp).marginal = allMarginal (pathGroupPrioUpdate pgp)
      rw [pathGroupPrioUpdate_allMarginal]
      exact hfirst rfl
    | cons d pre =>
      cases hes
      exact hrest pre post rfl

end Step

/-- In a run the flag is right after each call if and only if all calls behind one that found
all paths marginal do so, too, and all calls if the flag was set before the run. -/
theorem tracks_iff (pgp : Pathgroup) (es : List Event) :
    Tracks pgp es ↔ (pgp.marginal :: calls pgp es).Pairwise fun a b => a = true → b = true := by
  induction es generalizing pgp with
  | nil =>
    constructor
    · exact fun _ => List.pairwise_singleton _ _
    · rintro - pre post hes
      cases pre <;> cases hes
  | cons e es ih =>
    rw [tracks_cons, ih, calls]
    by_cases he : e = .prioUpdate
    · subst he
      rw [if_pos rfl, List.singleton_append, Event.apply, pathGroupPrioUpdate_marginal]
      simp only [forall_const, List.pairwise_cons, List.forall_mem_cons]
      cases pgp.marginal <;> cases allMarginal pgp <;> simp
    · rw [if_neg he, List.nil_append, apply_marginal he]
      simp [he]

/-- A group of one marginal path that recovers between two calls keeps the flag. -/
theorem tracks_fails :
    ¬ Tracks { paths := some [{ marginal := true }] }
      [.prioUpdate, .setMarginal 0 false, .prioUpdate] := by
  intro h
  have hlast := h [.prioUpdate, .setMarginal 0 false] [] rfl
  exact absurd hlast (by decide)

end MultipathTools.Pgpolicies
