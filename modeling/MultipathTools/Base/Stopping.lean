import Mathlib.Algebra.Group.Nat.Even
import Mathlib.Data.List.Basic
import Mathlib.Data.List.DropRight

/-! Loops over a list that take some of its elements and stop at the first one that fails. -/
namespace MultipathTools

/-- What a loop does at an element. -/
inductive Turn where
  | skip
  | take
  | stop
  deriving DecidableEq

variable {α : Type*} {turn : α → Turn}

/-- The elements that are taken before the loop stops. -/
def taken (turn : α → Turn) : List α → List α
  | [] => []
  | a :: l =>
    match turn a with
    | .skip => taken turn l
    | .take => a :: taken turn l
    | .stop => []

theorem taken_cons_skip {a : α} {l : List α} (h : turn a = .skip) :
    taken turn (a :: l) = taken turn l := by
  rw [taken, h]

theorem taken_cons_take {a : α} {l : List α} (h : turn a = .take) :
    taken turn (a :: l) = a :: taken turn l := by
  rw [taken, h]

theorem taken_cons_stop {a : α} {l : List α} (h : turn a = .stop) : taken turn (a :: l) = [] := by
  rw [taken, h]

/-- Where an element of a longer list stands: in front, or in the rest. -/
private theorem exists_split_cons {P : List α → α → Prop} {a : α} {l : List α} :
    (∃ s b t, a :: l = s ++ b :: t ∧ P s b) ↔ P [] a ∨ ∃ s b t, l = s ++ b :: t ∧ P (a :: s) b := by
  constructor
  · rintro ⟨s, b, t, hl, hp⟩
    cases s with
    | nil =>
      cases hl
      exact .inl hp
    | cons c s =>
      cases hl
      exact .inr ⟨s, b, t, rfl, hp⟩
  · rintro (hp | ⟨s, b, t, rfl, hp⟩)
    · exact ⟨[], a, l, rfl, hp⟩
    · exact ⟨a :: s, b, t, rfl, hp⟩

/-- An element is taken if none before it stops the loop. -/
theorem exists_mem_taken_iff {l : List α} {P : α → Prop} :
    (∃ b ∈ taken turn l, P b) ↔
      ∃ s b t, l = s ++ b :: t ∧ turn b = .take ∧ P b ∧ ∀ k ∈ s, turn k ≠ .stop := by
  induction l with
  | nil => simp [taken]
  | cons a l ih =>
    rw [exists_split_cons (P := fun s b => turn b = .take ∧ P b ∧ ∀ k ∈ s, turn k ≠ .stop)]
    cases ha : turn a with
    | skip =>
      rw [taken_cons_skip ha, ih]
      simp [ha]
    | take =>
      rw [taken_cons_take ha, List.exists_mem_cons_iff, ih]
      simp [ha]
    | stop =>
      rw [taken_cons_stop ha]
      simp [ha]

/-- All that is taken has a property, exactly if each element without it comes after one that stops
the loop. -/
theorem forall_mem_taken_iff {l : List α} {P : α → Prop} :
    (∀ b ∈ taken turn l, P b) ↔
      ∀ s b t, l = s ++ b :: t → turn b = .take → ¬ P b → ∃ k ∈ s, turn k = .stop := by
  have hnot := not_congr (@exists_mem_taken_iff α turn l fun b => ¬ P b)
  push Not at hnot
  exact hnot

end MultipathTools

/-! A search in a list in which some elements make it skip the next one. -/
namespace MultipathTools

variable {α : Type*}

/-- The search; `skip` tells that the next element is left out. -/
def skipSearch (found skips : α → Bool) : Bool → List α → Bool
  | _, [] => false
  | true, _ :: ls => skipSearch found skips false ls
  | false, l :: ls => if found l then true else skipSearch found skips (skips l) ls

variable {found skips : α → Bool}

/-- How many elements at the end of the list make the search skip the next one. -/
def skipsBefore (skips : α → Bool) (pre : List α) : ℕ := (pre.rtakeWhile skips).length

@[simp] theorem skipsBefore_nil : skipsBefore skips [] = 0 := rfl

theorem skipsBefore_concat (pre : List α) (l : α) :
    skipsBefore skips (pre ++ [l]) = if skips l then skipsBefore skips pre + 1 else 0 := by
  unfold skipsBefore
  rw [List.rtakeWhile_concat]
  split_ifs <;> simp

/-- The search goes on after `pre`, skipping if an odd number of elements asked for it. -/
theorem skipSearch_after (pre ls : List α) :
    skipSearch found skips (decide (¬ Even (skipsBefore skips pre))) ls = true ↔
      ∃ mid l post, ls = mid ++ l :: post ∧ found l = true ∧
        Even (skipsBefore skips (pre ++ mid)) := by
  induction ls generalizing pre with
  | nil => simp [skipSearch]
  | cons l ls ih =>
    have hcons : (∃ mid m post, l :: ls = mid ++ m :: post ∧ found m = true ∧
          Even (skipsBefore skips (pre ++ mid))) ↔
        (found l = true ∧ Even (skipsBefore skips pre)) ∨
          ∃ mid m post, ls = mid ++ m :: post ∧ found m = true ∧
            Even (skipsBefore skips (pre ++ [l] ++ mid)) := by
      constructor
      · rintro ⟨mid, m, post, heq, hm, heven⟩
        cases mid with
        | nil =>
          obtain ⟨rfl, rfl⟩ := List.cons.inj heq
          exact .inl ⟨hm, by simpa using heven⟩
        | cons l' mid =>
          obtain ⟨rfl, rfl⟩ := List.cons.inj heq
          exact .inr ⟨mid, m, post, rfl, hm, by simpa using heven⟩
      · rintro (⟨hl, heven⟩ | ⟨mid, m, post, rfl, hm, heven⟩)
        · exact ⟨[], l, ls, rfl, hl, by simpa using heven⟩
        · exact ⟨l :: mid, m, post, rfl, hm, by simpa using heven⟩
    rw [hcons, ← ih, skipsBefore_concat]
    by_cases heven : Even (skipsBefore skips pre)
    · -- the element is looked at
      have hskip : decide (¬ Even (skipsBefore skips pre)) = false := by simpa using heven
      rw [hskip, skipSearch]
      by_cases hl : found l = true
      · simp [hl, heven]
      · cases hs : skips l <;> simp [hl, heven, Nat.even_add_one]
    · have hskip : decide (¬ Even (skipsBefore skips pre)) = true := by simpa using heven
      rw [hskip, skipSearch]
      cases hs : skips l <;> simp [heven, Nat.even_add_one]

/-- An element is found if the elements directly before it that make the search skip are even in
number. -/
theorem skipSearch_iff {ls : List α} :
    skipSearch found skips false ls = true ↔
      ∃ pre l post, ls = pre ++ l :: post ∧ found l = true ∧ Even (skipsBefore skips pre) := by
  have hafter := @skipSearch_after α found skips [] ls
  simpa using hafter

end MultipathTools
