import Mathlib.Data.List.Basic
import Mathlib.Tactic.Common
import MultipathTools.Base.Outcome

/-! Records that lie one after the other in a buffer, and what a walk over the buffer by
their lengths meets. -/
namespace MultipathTools

variable {α β : Type*}

/-- The positions of records that follow each other from `d` on. -/
def laidOut (enc : α → List β) : ℕ → List α → List ℕ
  | _, [] => []
  | d, x :: xs => d :: laidOut enc (d + (enc x).length) xs

section LaidOut

variable {enc : α → List β} {buf : List β} {a : Advance} {d e limit : ℕ} {xs pre post : List α}
  {x : α}

theorem laidOut_append (d : ℕ) (xs ys : List α) :
    laidOut enc d (xs ++ ys) =
      laidOut enc d xs ++ laidOut enc (d + (xs.flatMap enc).length) ys := by
  induction xs generalizing d with
  | nil => rfl
  | cons x xs ih =>
    rw [List.cons_append, laidOut, ih, laidOut, List.flatMap_cons, List.length_append,
      ← Nat.add_assoc]
    rfl

/-- What begins at a position is one of the records. -/
theorem exists_of_mem_laidOut (h : e ∈ laidOut enc d xs) :
    ∃ pre x post, xs = pre ++ x :: post ∧ e = d + (pre.flatMap enc).length := by
  induction xs generalizing d with
  | nil => cases h
  | cons x xs ih =>
    rcases List.mem_cons.mp h with rfl | h
    · exact ⟨[], x, xs, rfl, rfl⟩
    · obtain ⟨pre, y, post, rfl, rfl⟩ := ih h
      refine ⟨x :: pre, y, post, rfl, ?_⟩
      rw [List.flatMap_cons, List.length_append, Nat.add_assoc]

/-- Every record begins at its position. -/
theorem isPrefix_of_flatMap (h : (pre ++ x :: post).flatMap enc <+: buf.drop d) :
    enc x <+: buf.drop (d + (pre.flatMap enc).length) := by
  obtain ⟨rest, hrest⟩ := h
  rw [List.flatMap_append, List.flatMap_cons, List.append_assoc] at hrest
  refine ⟨post.flatMap enc ++ rest, ?_⟩
  rw [← List.drop_drop, ← hrest, List.drop_left, List.append_assoc]

theorem flatMap_isPrefix_drop (h : (x :: xs).flatMap enc <+: buf.drop d) :
    enc x <+: buf.drop d ∧ xs.flatMap enc <+: buf.drop (d + (enc x).length) := by
  constructor
  · exact (List.prefix_append _ _).trans h
  · obtain ⟨rest, hrest⟩ := h
    rw [List.flatMap_cons, List.append_assoc] at hrest
    exact ⟨rest, by rw [← List.drop_drop, ← hrest, List.drop_left]⟩

/-- A walk over the records goes from one to the next, up to its limit. -/
theorem offsets_laidOut
    (hnext : ∀ x d, enc x <+: buf.drop d → a.next d = d + (enc x).length)
    (h : xs.flatMap enc <+: buf.drop d) (hlimit : limit ≤ d + (xs.flatMap enc).length) :
    offsets a limit d = (laidOut enc d xs).takeWhile (· < limit) := by
  induction xs generalizing d with
  | nil =>
    rw [offsets_of_le (show limit ≤ d from hlimit)]
    rfl
  | cons x xs ih =>
    rcases Nat.lt_or_ge d limit with hd | hd
    · obtain ⟨hx, hxs⟩ := flatMap_isPrefix_drop h
      rw [List.flatMap_cons, List.length_append] at hlimit
      rw [offsets_of_lt hd, hnext x d hx, ih hxs (by omega), laidOut,
        List.takeWhile_cons_of_pos (by simpa using hd)]
    · rw [offsets_of_le hd, laidOut, List.takeWhile_cons_of_neg (by simpa using hd)]

/-- The first position of a kind that a walk meets is that of the first record of the kind,
if it begins below the limit. -/
theorem find?_offsets_eq_some_iff {p : ℕ → Bool} {q : α → Bool}
    (hnext : ∀ x d, enc x <+: buf.drop d → a.next d = d + (enc x).length)
    (hkind : ∀ x d, enc x <+: buf.drop d → p d = q x)
    (h : xs.flatMap enc <+: buf.drop d) (hlimit : limit ≤ d + (xs.flatMap enc).length) :
    (offsets a limit d).find? p = some e ↔
      ∃ pre x post, xs = pre ++ x :: post ∧ e = d + (pre.flatMap enc).length ∧ e < limit ∧
        (∀ y ∈ pre, q y = false) ∧ q x = true := by
  induction xs generalizing d with
  | nil =>
    rw [offsets_of_le (show limit ≤ d from hlimit)]
    constructor
    · intro hnone
      cases hnone
    · rintro ⟨pre, x, post, hnil, -⟩
      cases pre <;> cases hnil
  | cons x xs ih =>
    rcases Nat.lt_or_ge d limit with hd | hd
    · obtain ⟨hx, hxs⟩ := flatMap_isPrefix_drop h
      rw [List.flatMap_cons, List.length_append] at hlimit
      rw [offsets_of_lt hd, hnext x d hx]
      cases hq : q x with
      | true =>
        rw [List.find?_cons_of_pos (by rw [hkind x d hx, hq])]
        constructor
        · intro he
          cases he
          exact ⟨[], x, xs, rfl, rfl, hd, List.forall_mem_nil _, hq⟩
        · rintro ⟨pre, y, post, hcons, rfl, -, hpre, -⟩
          cases pre with
          | nil => rfl
          | cons z pre =>
            cases hcons
            rw [hpre _ List.mem_cons_self] at hq
            cases hq
      | false =>
        rw [List.find?_cons_of_neg (by rw [hkind x d hx, hq]; exact Bool.false_ne_true),
          ih hxs (by omega)]
        constructor
        · rintro ⟨pre, y, post, rfl, rfl, he, hpre, hy⟩
          refine ⟨x :: pre, y, post, rfl, ?_, he, List.forall_mem_cons.mpr ⟨hq, hpre⟩, hy⟩
          rw [List.flatMap_cons, List.length_append, Nat.add_assoc]
        · rintro ⟨pre, y, post, hcons, rfl, he, hpre, hy⟩
          cases pre with
          | nil =>
            cases hcons
            rw [hq] at hy
            cases hy
          | cons z pre =>
            cases hcons
            refine ⟨pre, y, post, rfl, ?_, he, (List.forall_mem_cons.mp hpre).2, hy⟩
            rw [List.flatMap_cons, List.length_append, Nat.add_assoc]
    · rw [offsets_of_le hd]
      constructor
      · intro hnone
        cases hnone
      · rintro ⟨pre, x, post, -, rfl, he, -⟩
        omega

end LaidOut

end MultipathTools
