import Mathlib.Data.List.Basic
import Mathlib.Data.List.Perm.Basic
import Mathlib.Order.Lattice

/-! The elements of a list by a merit: the first among those for which it is largest, which is what a
search keeps that replaces its best candidate by better ones only, and stable sorting by insertion, the
elements of the largest merit first. -/
namespace MultipathTools

section FirstMax

variable {α β : Type*} [LinearOrder β] {r : α → β} {l : List α} {a b : α}

/-- `a` is better than all elements before it, and no worse than those behind it. -/
def IsFirstMax (r : α → β) (l : List α) (a : α) : Prop :=
  ∃ pre post, l = pre ++ a :: post ∧ (∀ b ∈ pre, r b < r a) ∧ ∀ b ∈ post, r b ≤ r a

theorem IsFirstMax.mem (h : IsFirstMax r l a) : a ∈ l := by
  obtain ⟨pre, post, rfl, -⟩ := h
  exact List.mem_append_right pre List.mem_cons_self

theorem IsFirstMax.le (h : IsFirstMax r l a) (hb : b ∈ l) : r b ≤ r a := by
  obtain ⟨pre, post, rfl, hpre, hpost⟩ := h
  rcases List.mem_append.mp hb with hb | hb
  · exact le_of_lt (hpre b hb)
  · rcases List.mem_cons.mp hb with rfl | hb
    · exact le_refl _
    · exact hpost b hb

theorem exists_isFirstMax (h : l ≠ []) : ∃ a, IsFirstMax r l a := by
  induction l with
  | nil => exact absurd rfl h
  | cons b l ih =>
    by_cases hl : l = []
    · subst hl
      refine ⟨b, [], [], rfl, fun c hc => ?_, fun c hc => ?_⟩
      · exact absurd hc List.not_mem_nil
      · exact absurd hc List.not_mem_nil
    · obtain ⟨a, pre, post, rfl, hpre, hpost⟩ := ih hl
      rcases lt_or_ge (r b) (r a) with hlt | hge
      · refine ⟨a, b :: pre, post, rfl, fun c hc => ?_, hpost⟩
        rcases List.mem_cons.mp hc with rfl | hc
        · exact hlt
        · exact hpre c hc
      · refine ⟨b, [], _, rfl, fun c hc => absurd hc List.not_mem_nil, fun c hc => ?_⟩
        have hle : r c ≤ r a := IsFirstMax.le ⟨pre, post, rfl, hpre, hpost⟩ hc
        exact le_trans hle hge

/-- A search that starts below the largest value keeps the first element that has it. -/
theorem IsFirstMax.foldl {σ : Type*} {f : σ → α → σ} {s : σ} (value : σ → β)
    (hbetter : ∀ s a, value s < r a → value (f s a) = r a)
    (hkeep : ∀ s a, r a ≤ value s → f s a = s)
    (h : IsFirstMax r l a) (hs : value s < r a) :
    ∃ s', value s' < r a ∧ l.foldl f s = f s' a := by
  obtain ⟨pre, post, rfl, hpre, hpost⟩ := h
  have hbefore : value (pre.foldl f s) < r a := by
    clear hpost
    induction pre generalizing s with
    | nil => exact hs
    | cons b pre ih =>
      rw [List.foldl_cons]
      apply ih _ fun c hc => hpre c (List.mem_cons_of_mem b hc)
      rcases lt_or_ge (value s) (r b) with hlt | hge
      · rw [hbetter s b hlt]
        exact hpre b List.mem_cons_self
      · rw [hkeep s b hge]
        exact hs
  refine ⟨pre.foldl f s, hbefore, ?_⟩
  rw [List.foldl_append, List.foldl_cons]
  have hafter : ∀ t, value t = r a → post.foldl f t = t := by
    intro t ht
    clear hbefore
    induction post with
    | nil => rfl
    | cons b post ih =>
      rw [List.foldl_cons, hkeep t b (ht ▸ hpost b List.mem_cons_self)]
      exact ih fun c hc => hpost c (List.mem_cons_of_mem b hc)
  exact hafter _ (hbetter _ a hbefore)

end FirstMax

section StableSort

variable {α β : Type*} [LinearOrder β] {m : α → β} {l s a b : List α} {x : α}

/-- The list `s` is the list `l`, the elements of larger merit first, and those of equal merit
in the order that they have in `l`. -/
structure StableSorted (m : α → β) (l s : List α) : Prop where
  perm : s.Perm l
  sorted : s.Pairwise fun a b => m b ≤ m a
  stable : ∀ k, s.filter (m · = k) = l.filter (m · = k)

theorem stableSorted_nil : StableSorted m [] [] :=
  ⟨List.Perm.nil, List.Pairwise.nil, fun _ => rfl⟩

/-- An element may be put between those that are not worse and those that are. -/
theorem StableSorted.insert (h : StableSorted m l (a ++ b)) (ha : ∀ y ∈ a, m x ≤ m y)
    (hb : ∀ y ∈ b, m y < m x) : StableSorted m (l ++ [x]) (a ++ x :: b) := by
  constructor
  · have hcons : (a ++ x :: b).Perm (x :: l) := List.perm_middle.trans (h.perm.cons x)
    exact hcons.trans (List.perm_append_singleton x l).symm
  · obtain ⟨hsa, hsb, hab⟩ := List.pairwise_append.mp h.sorted
    apply List.pairwise_append.mpr
    refine ⟨hsa, List.pairwise_cons.mpr ⟨fun y hy => le_of_lt (hb y hy), hsb⟩, ?_⟩
    intro y hy z hz
    rcases List.mem_cons.mp hz with rfl | hz
    · exact ha y hy
    · exact hab y hy z hz
  · intro k
    have hk := h.stable k
    rw [List.filter_append] at hk
    rw [List.filter_append, List.filter_append, ← hk, List.append_assoc]
    congr 1
    by_cases hx : m x = k
    · have hnone : b.filter (m · = k) = [] := by
        apply List.filter_eq_nil_iff.mpr
        intro y hy
        have hne := (hb y hy).ne
        simpa [← hx] using hne
      rw [List.filter_cons_of_pos (by simpa using hx), hnone,
        List.filter_cons_of_pos (by simpa using hx)]
      rfl
    · rw [List.filter_cons_of_neg (by simpa using hx), List.filter_cons_of_neg (by simpa using hx),
        List.filter_nil, List.append_nil]

/-- In a sorted list all elements up to one that is not worse are not worse. -/
theorem StableSorted.le_of_getLast (h : StableSorted m l (a ++ b))
    (hlast : ∀ hne : a ≠ [], m x ≤ m (a.getLast hne)) : ∀ y ∈ a, m x ≤ m y := by
  intro y hy
  have hne := List.ne_nil_of_mem hy
  have hsa := (List.pairwise_append.mp h.sorted).1
  rw [← List.dropLast_append_getLast hne] at hsa hy
  rcases List.mem_append.mp hy with hy | hy
  · exact le_trans (hlast hne)
      ((List.pairwise_append.mp hsa).2.2 y hy _ (List.mem_singleton.mpr rfl))
  · rw [List.mem_singleton.mp hy]
    exact hlast hne

end StableSort

end MultipathTools
