import Mathlib.Data.List.Perm.Basic
import Mathlib.Data.List.Nodup
import Mathlib.Tactic.Common

/-! Lists that are divided into classes by a relation. -/
namespace MultipathTools

variable {α : Type*} {r r' : α → α → Prop} {l : List α} {cs ds : List (List α)}

/-- The classes hold all elements of the list, each as often as the list does and in its
order; two elements share a class exactly if they are related. -/
structure Classes (r : α → α → Prop) (l : List α) (cs : List (List α)) : Prop where
  perm : cs.flatten.Perm l
  sublist : ∀ c ∈ cs, c.Sublist l
  same : ∀ c ∈ cs, ∀ a ∈ c, ∀ b ∈ l, b ∈ c ↔ r a b

theorem classes_nil (r : α → α → Prop) : Classes r [] [] :=
  ⟨List.Perm.nil, List.forall_mem_nil _, List.forall_mem_nil _⟩

theorem Classes.mem (h : Classes r l cs) {c : List α} (hc : c ∈ cs) {a : α} (ha : a ∈ c) :
    a ∈ l := (h.sublist c hc).subset ha

/-- Relations that agree on the list divide it in the same way. -/
theorem Classes.congr (h : Classes r l cs) (hr : ∀ a ∈ l, ∀ b ∈ l, r a b ↔ r' a b) :
    Classes r' l cs := by
  refine ⟨h.perm, h.sublist, fun c hc a ha b hb => ?_⟩
  rw [h.same c hc a ha b hb, hr a (h.mem hc ha) b hb]

/-- All elements in one class. -/
theorem classes_whole (h : ∀ a ∈ l, ∀ b ∈ l, r a b) : Classes r l [l] := by
  constructor
  · rw [List.flatten_singleton]
  · intro c hc
    rw [List.mem_singleton.mp hc]
  · intro c hc a ha b hb
    rw [List.mem_singleton.mp hc] at ha ⊢
    exact iff_of_true hb (h a ha b hb)

/-- Every element in a class of its own. -/
theorem classes_single (h : ∀ a ∈ l, ∀ b ∈ l, r a b ↔ b = a) : Classes r l (l.map ([·])) := by
  constructor
  · have hflatten : (l.map ([·])).flatten = l := by
      induction l with
      | nil => rfl
      | cons a l ih =>
        rw [List.map_cons, List.flatten_cons,
          ih fun b hb c hc => h b (List.mem_cons_of_mem a hb) c (List.mem_cons_of_mem a hc)]
        rfl
    rw [hflatten]
  · intro c hc
    obtain ⟨a, ha, rfl⟩ := List.mem_map.mp hc
    exact List.singleton_sublist.mpr ha
  · intro c hc a ha b hb
    obtain ⟨d, hd, rfl⟩ := List.mem_map.mp hc
    rw [List.mem_singleton.mp ha, h d hd b hb, List.mem_singleton]

/-- The classes of two halves of a list, where no element is related to one of the other
half. -/
theorem Classes.append {p : α → Bool} (h : Classes r (l.filter p) cs)
    (h' : Classes r (l.filter fun a => !p a) ds) (hr : ∀ a b, r a b → p a = p b) :
    Classes r l (cs ++ ds) := by
  constructor
  · rw [List.flatten_append]
    exact (h.perm.append h'.perm).trans (List.filter_append_perm p l)
  · intro c hc
    rcases List.mem_append.mp hc with hc | hc
    · exact (h.sublist c hc).trans List.filter_sublist
    · exact (h'.sublist c hc).trans List.filter_sublist
  · intro c hc a ha b hb
    rcases List.mem_append.mp hc with hc | hc
    · have hpa := (List.mem_filter.mp (h.mem hc ha)).2
      by_cases hpb : p b = true
      · exact h.same c hc a ha b (List.mem_filter.mpr ⟨hb, hpb⟩)
      · apply iff_of_false
        · exact fun hbc => hpb (List.mem_filter.mp (h.mem hc hbc)).2
        · exact fun hab => hpb ((hr a b hab).symm.trans hpa)
    · have hpa := (List.mem_filter.mp (h'.mem hc ha)).2
      by_cases hpb : (!p b) = true
      · exact h'.same c hc a ha b (List.mem_filter.mpr ⟨hb, hpb⟩)
      · apply iff_of_false
        · exact fun hbc => hpb (List.mem_filter.mp (h'.mem hc hbc)).2
        · exact fun hab => hpb (by rw [← hr a b hab]; exact hpa)

/-- The first element with those related to it, and the classes of the others. -/
theorem Classes.cons {x : α} {q : α → Bool} (hq : ∀ a, q a = true ↔ r x a)
    (hr : Equivalence r) (h : Classes r (l.filter fun a => !q a) cs) :
    Classes r (x :: l) ((x :: l.filter q) :: cs) := by
  have hx : q x = true := (hq x).mpr (hr.refl x)
  have hfirst : Classes r ((x :: l).filter q) [(x :: l).filter q] := by
    apply classes_whole
    intro a ha b hb
    have hxa := (hq a).mp (List.mem_filter.mp ha).2
    have hxb := (hq b).mp (List.mem_filter.mp hb).2
    exact hr.trans (hr.symm hxa) hxb
  have hrest : Classes r ((x :: l).filter fun a => !q a) cs := by
    rwa [List.filter_cons_of_neg (by rw [hx]; exact Bool.false_ne_true)]
  have hboth := hfirst.append hrest fun a b hab => by
    rw [Bool.eq_iff_iff, hq, hq]
    exact ⟨fun hxa => hr.trans hxa hab, fun hxb => hr.trans hxb (hr.symm hab)⟩
  rwa [List.filter_cons_of_pos hx] at hboth

end MultipathTools
