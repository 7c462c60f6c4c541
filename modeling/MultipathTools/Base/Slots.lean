import Mathlib.Algebra.BigOperators.Group.List.Basic
import Mathlib.Algebra.GroupWithZero.Nat
import Mathlib.Data.List.Basic
import Mathlib.Tactic.Common

/-! The loop over the slots of a vector whose body may delete the slot that it is at, and the pass over
a list that it amounts to; and the nested loops that delete every element which is the same as an
earlier one. -/
namespace MultipathTools

variable {σ α : Type*}

/-- The loop from slot `i` on. The body changes the state, and keeps the slot with a new value or
deletes it; after a deletion the next element is in the same slot. -/
def foreachSlot (f : σ → α → σ × Option α) (i : ℕ) (v : List α) (s : σ) : σ × List α :=
  if h : i < v.length then
    match f s v[i] with
    | (s, some a) => foreachSlot f (i + 1) (v.set i a) s
    | (s, none) => foreachSlot f i (v.eraseIdx i) s
  else (s, v)
termination_by v.length - i
decreasing_by
  · rw [List.length_set]
    omega
  · rw [List.length_eraseIdx_of_lt h]
    omega

/-- One pass over a list: the state, and the elements that are kept. -/
def sweep (f : σ → α → σ × Option α) : List α → σ → σ × List α
  | [], s => (s, [])
  | a :: as, s =>
    let t := sweep f as (f s a).1
    (t.1, (f s a).2.toList ++ t.2)

variable (f : σ → α → σ × Option α)

theorem foreachSlot_append (as bs : List α) (s : σ) :
    foreachSlot f as.length (as ++ bs) s = ((sweep f bs s).1, as ++ (sweep f bs s).2) := by
  induction bs generalizing as s with
  | nil =>
    rw [List.append_nil, foreachSlot, dif_neg (Nat.lt_irrefl as.length), sweep, List.append_nil]
  | cons b bs ih =>
    have hlt : as.length < (as ++ b :: bs).length := by
      rw [List.length_append, List.length_cons]
      omega
    have hget : (as ++ b :: bs)[as.length] = b := by
      rw [List.getElem_append_right (Nat.le_refl _)]
      simp
    rw [foreachSlot, dif_pos hlt, hget, sweep]
    rcases f s b with ⟨t, _ | c⟩
    · have herase : (as ++ b :: bs).eraseIdx as.length = as ++ bs := by
        rw [List.eraseIdx_append_of_length_le (Nat.le_refl _), Nat.sub_self]
        rfl
      dsimp only
      rw [herase]
      exact ih as t
    · have hset : (as ++ b :: bs).set as.length c = (as ++ [c]) ++ bs := by
        rw [List.set_append_right _ _ (Nat.le_refl _), Nat.sub_self]
        simp
      have hnext := ih (as ++ [c]) t
      rw [List.length_append, List.length_singleton, List.append_assoc as [c] (sweep f bs t).2]
        at hnext
      dsimp only
      rw [hset]
      exact hnext

theorem foreachSlot_eq (v : List α) (s : σ) : foreachSlot f 0 v s = sweep f v s :=
  foreachSlot_append f [] v s

variable {f}

/-- What a step keeps between the elements that it has kept and those that are left, a pass
keeps. -/
theorem sweep_invariant {I : σ → List α → List α → Prop}
    (hstep : ∀ s done a todo, I s done (a :: todo) →
      I (f s a).1 (done ++ (f s a).2.toList) todo)
    {as done todo : List α} {s : σ} (h : I s done (as ++ todo)) :
    I (sweep f as s).1 (done ++ (sweep f as s).2) todo := by
  induction as generalizing s done with
  | nil =>
    rw [sweep, List.append_nil]
    exact h
  | cons a as ih =>
    rw [sweep, ← List.append_assoc]
    exact ih (hstep s done a (as ++ todo) h)

/-- What holds of every element that a step keeps. -/
theorem sweep_forall {P : α → Prop} (hstep : ∀ s a, ∀ b ∈ (f s a).2, P b) (as : List α) (s : σ) :
    ∀ b ∈ (sweep f as s).2, P b := by
  induction as generalizing s with
  | nil => exact List.forall_mem_nil P
  | cons a as ih =>
    intro b hb
    rcases List.mem_append.mp hb with hb | hb
    · exact hstep s a b (Option.mem_toList.mp hb)
    · exact ih _ b hb

theorem sweep_sublist {β : Type*} {g : α → List β}
    (hstep : ∀ s a, ((f s a).2.toList.flatMap g).Sublist (g a)) (as : List α) (s : σ) :
    ((sweep f as s).2.flatMap g).Sublist (as.flatMap g) := by
  induction as generalizing s with
  | nil => exact List.Sublist.refl []
  | cons a as ih =>
    rw [sweep, List.flatMap_append, List.flatMap_cons]
    exact (hstep s a).append (ih _)

theorem length_sweep_le (as : List α) (s : σ) : (sweep f as s).2.length ≤ as.length := by
  induction as generalizing s with
  | nil => exact Nat.le_refl 0
  | cons a as ih =>
    have hone : (f s a).2.toList.length ≤ 1 := by
      cases (f s a).2 <;> simp
    have hrest := ih (f s a).1
    rw [sweep, List.length_append, List.length_cons]
    omega

variable {w : α → ℕ}

theorem sum_sweep_le (hle : ∀ s a, ((f s a).2.toList.map w).sum ≤ w a) (as : List α) (s : σ) :
    ((sweep f as s).2.map w).sum ≤ (as.map w).sum := by
  induction as generalizing s with
  | nil => exact Nat.le_refl 0
  | cons a as ih =>
    rw [sweep, List.map_append, List.sum_append, List.map_cons, List.sum_cons]
    exact Nat.add_le_add (hle s a) (ih _)

/-- A flag that is set where a step leaves less of an element tells whether the pass has left
less of the list. -/
theorem sweep_flag {flag : σ → Prop} (hle : ∀ s a, ((f s a).2.toList.map w).sum ≤ w a)
    (hflag : ∀ s a, flag (f s a).1 ↔ flag s ∨ ((f s a).2.toList.map w).sum < w a)
    (as : List α) (s : σ) :
    flag (sweep f as s).1 ↔ flag s ∨ ((sweep f as s).2.map w).sum < (as.map w).sum := by
  induction as generalizing s with
  | nil => exact (or_iff_left (Nat.lt_irrefl 0)).symm
  | cons a as ih =>
    have hone := hle s a
    have hrest := sum_sweep_le hle as (f s a).1
    rw [sweep, ih, hflag, or_assoc, List.map_append, List.sum_append, List.map_cons, List.sum_cons]
    refine or_congr_right ?_
    omega

variable {α : Type*}

/-- The body of the inner loop: the slot is deleted if its element is the same as `a`. -/
def deleteSame (same : α → α → Bool) (a : α) (s : Unit) (b : α) : Unit × Option α :=
  (s, if same a b then none else some b)

/-- The two loops, from slot `i` on. -/
def distinctSlots (same : α → α → Bool) (i : ℕ) (v : List α) : List α :=
  if h : i < v.length then
    distinctSlots same (i + 1) (foreachSlot (deleteSame same v[i]) (i + 1) v ()).2
  else v
termination_by v.length - i
decreasing_by
  have hle : (foreachSlot (deleteSame same v[i]) (i + 1) v ()).2.length ≤ v.length := by
    have hlength : (v.take (i + 1)).length = i + 1 := by
      rw [List.length_take]
      omega
    have heq := foreachSlot_append (deleteSame same v[i]) (v.take (i + 1)) (v.drop (i + 1)) ()
    rw [hlength, List.take_append_drop] at heq
    have hsweep := length_sweep_le (f := deleteSame same v[i]) (v.drop (i + 1)) ()
    have hall := congrArg List.length (List.take_append_drop (i + 1) v)
    rw [List.length_append] at hall
    rw [heq, List.length_append]
    omega
  omega

/-- The elements that are not the same as `a`. -/
def unlike (same : α → α → Bool) (a : α) (l : List α) : List α := l.filter fun b => !same a b

theorem length_unlike_le (same : α → α → Bool) (a : α) (l : List α) :
    (unlike same a l).length ≤ l.length := List.length_filter_le _ _

/-- The elements that are not the same as an earlier one. -/
def distinct (same : α → α → Bool) : List α → List α
  | [] => []
  | a :: l => a :: distinct same (unlike same a l)
termination_by l => l.length
decreasing_by
  rw [List.length_cons]
  exact Nat.lt_succ_of_le (length_unlike_le same a l)

variable {same : α → α → Bool} {l : List α}

theorem sweep_deleteSame (a : α) (l : List α) (s : Unit) :
    (sweep (deleteSame same a) l s).2 = unlike same a l := by
  rw [unlike]
  induction l generalizing s with
  | nil => rfl
  | cons b l ih =>
    rw [sweep, deleteSame, ih]
    cases hb : same a b <;> simp [hb]

theorem distinctSlots_append (as bs : List α) :
    distinctSlots same as.length (as ++ bs) = as ++ distinct same bs := by
  induction hn : bs.length using Nat.strongRecOn generalizing as bs with
  | ind n ih =>
    cases bs with
    | nil =>
      rw [List.append_nil, distinctSlots, dif_neg (Nat.lt_irrefl as.length), distinct,
        List.append_nil]
    | cons b bs =>
      have hlt : as.length < (as ++ b :: bs).length := by
        rw [List.length_append, List.length_cons]
        omega
      have hget : (as ++ b :: bs)[as.length] = b := by
        rw [List.getElem_append_right (Nat.le_refl _)]
        simp
      have hsplit : as ++ b :: bs = (as ++ [b]) ++ bs := by simp
      have hlength : as.length + 1 = (as ++ [b]).length := by simp
      have hshorter : (unlike same b bs).length < n := by
        have hle := length_unlike_le same b bs
        rw [← hn, List.length_cons]
        omega
      rw [distinctSlots, dif_pos hlt, hget, hsplit, hlength, foreachSlot_append, sweep_deleteSame,
        ih _ hshorter (as ++ [b]) _ rfl, distinct, List.append_assoc]
      rfl

theorem distinctSlots_eq (v : List α) : distinctSlots same 0 v = distinct same v :=
  distinctSlots_append [] v

theorem distinct_sublist (l : List α) : (distinct same l).Sublist l := by
  fun_induction distinct same l with
  | case1 => exact List.Sublist.refl []
  | case2 a l ih => exact (ih.trans List.filter_sublist).cons_cons a

theorem distinct_pairwise (l : List α) : (distinct same l).Pairwise fun a b => same a b = false := by
  fun_induction distinct same l with
  | case1 => exact List.Pairwise.nil
  | case2 a l ih =>
    refine List.Pairwise.cons (fun b hb => ?_) ih
    have hkept := (List.mem_filter.mp ((distinct_sublist _).subset hb)).2
    simpa using hkept

section Search

/-- A search for an element that passes a test, up to the first one or to one whose test has no
result. -/
def firstHit (test : α → Option Bool) : List α → Option Bool
  | [] => some false
  | a :: l =>
    match test a with
    | none => none
    | some true => some true
    | some false => firstHit test l

variable {test : α → Option Bool} {p : α → Bool} {answer : Bool}

/-- The answer does not depend on elements that do not pass the test. -/
theorem firstHit_filter (hp : ∀ a ∈ l, p a = false → ∀ b, test a = some b → b = false)
    (h : firstHit test l = some answer) : firstHit test (l.filter p) = some answer := by
  induction l with
  | nil => exact h
  | cons a l ih =>
    have hrest : firstHit test l = some answer → firstHit test (l.filter p) = some answer :=
      ih fun b hb => hp b (List.mem_cons_of_mem a hb)
    rw [firstHit] at h
    cases ha : test a with
    | none =>
      rw [ha] at h
      cases h
    | some b =>
      rw [ha] at h
      cases hpa : p a with
      | true =>
        rw [List.filter_cons_of_pos hpa, firstHit, ha]
        cases b with
        | true => exact h
        | false => exact hrest h
      | false =>
        obtain rfl := hp a (List.mem_cons_self ..) hpa b ha
        rw [List.filter_cons_of_neg (by simp [hpa])]
        exact hrest h

/-- Where an element does not pass the test, those that are the same as it do not either. -/
theorem firstHit_distinct
    (hsame : ∀ a b, same a b = true → test a = some false → ∀ c, test b = some c → c = false)
    (h : firstHit test l = some answer) : firstHit test (distinct same l) = some answer := by
  fun_induction distinct same l with
  | case1 => exact h
  | case2 a l ih =>
    rw [firstHit] at h ⊢
    cases ha : test a with
    | none =>
      rw [ha] at h
      cases h
    | some b =>
      rw [ha] at h
      cases b with
      | true => exact h
      | false =>
        refine ih (firstHit_filter (fun b _ hb => ?_) h)
        exact hsame a b (by simpa using hb) ha

end Search

end MultipathTools
