import Mathlib.Data.List.Induction
import Mathlib.Tactic.Linarith
import MultipathTools.Base.Outcome

/-! Arrays with signed positions, and the loops that move a range of their cells by one. -/
namespace MultipathTools

variable {α : Type*}

/-- The cell at a position. -/
def cellAt (cells : List α) (i : ℤ) : Outcome α :=
  if 0 ≤ i then .ofOption cells[i.toNat]? else .outside

/-- The array after the cell at a position has been written. -/
def setCell (cells : List α) (i : ℤ) (a : α) : Outcome (List α) :=
  if 0 ≤ i ∧ i < cells.length then .done (cells.set i.toNat a) else .outside

/-- `cells[i + 1] = cells[i]` for the `n` positions from `lo` on, in descending order. -/
def shiftUp (lo : ℤ) : ℕ → List α → Outcome (List α)
  | 0, cells => .done cells
  | n + 1, cells =>
    (cellAt cells (lo + n)).bind fun a => (setCell cells (lo + n + 1) a).bind (shiftUp lo n)

/-- `cells[i] = cells[i + 1]` for the `n` positions from `lo` on, in ascending order. -/
def shiftDown : ℤ → ℕ → List α → Outcome (List α)
  | _, 0, cells => .done cells
  | lo, n + 1, cells =>
    (cellAt cells (lo + 1)).bind fun a => (setCell cells lo a).bind (shiftDown (lo + 1) n)

/-- `cells[i] = a` for the `n` positions from `lo` on. -/
def fillCells (a : α) : ℤ → ℕ → List α → Outcome (List α)
  | _, 0, cells => .done cells
  | lo, n + 1, cells => (setCell cells lo a).bind (fillCells a (lo + 1) n)

variable {as bs cs : List α} {a b x : α} {lo : ℤ} {n : ℕ}

theorem cellAt_append (h : lo = as.length) : cellAt (as ++ a :: bs) lo = .done a := by
  subst h
  rw [cellAt, if_pos (Int.natCast_nonneg _), Int.toNat_natCast,
    List.getElem?_append_right le_rfl, Nat.sub_self]
  rfl

theorem cellAt_neg {cells : List α} (h : lo < 0) : cellAt cells lo = .outside :=
  if_neg (not_le.2 h)

theorem setCell_append (h : lo = as.length) (b : α) :
    setCell (as ++ a :: bs) lo b = .done (as ++ b :: bs) := by
  subst h
  have hlt : as.length < (as ++ a :: bs).length := by
    rw [List.length_append, List.length_cons]
    omega
  rw [setCell, if_pos ⟨Int.natCast_nonneg _, Int.ofNat_lt.2 hlt⟩, Int.toNat_natCast,
    List.set_append_right _ _ le_rfl, Nat.sub_self]
  rfl

/-- The cells `bs` move up over the one behind them, and leave a cell of some value. -/
theorem shiftUp_append (hlo : lo = as.length) (hn : n = bs.length) :
    ∃ y, shiftUp lo n (as ++ (bs ++ x :: cs)) = .done (as ++ y :: (bs ++ cs)) := by
  subst hn
  induction bs using List.reverseRecOn generalizing x cs with
  | nil => exact ⟨x, rfl⟩
  | append_singleton bs b ih =>
    obtain ⟨y, hy⟩ := @ih (b :: cs) b
    have hread : cellAt (as ++ (bs ++ [b] ++ x :: cs)) (lo + bs.length) = .done b := by
      rw [List.append_assoc bs, List.singleton_append, ← List.append_assoc]
      exact cellAt_append (by rw [hlo, List.length_append, Nat.cast_add])
    have hwrite : setCell (as ++ (bs ++ [b] ++ x :: cs)) (lo + bs.length + 1) b =
        .done (as ++ (bs ++ b :: (b :: cs))) := by
      rw [← List.append_assoc, setCell_append (by simp [hlo, add_assoc]) b]
      simp only [List.append_assoc, List.singleton_append]
    refine ⟨y, ?_⟩
    rw [List.length_append, List.length_singleton, shiftUp, hread, Outcome.bind_done, hwrite,
      Outcome.bind_done, hy, List.append_assoc bs, List.singleton_append]

/-- The cells `bs` move down over the one before them, and leave a cell of some value. -/
theorem shiftDown_append (hlo : lo = as.length) (hn : n = bs.length) :
    ∃ y, shiftDown lo n (as ++ x :: bs) = .done (as ++ (bs ++ [y])) := by
  subst hn
  induction bs generalizing as x lo with
  | nil => exact ⟨x, rfl⟩
  | cons b bs ih =>
    obtain ⟨y, hy⟩ := @ih (as ++ [b]) b (lo + 1) (by simp [hlo])
    have hread : cellAt (as ++ x :: b :: bs) (lo + 1) = .done b := by
      rw [List.append_cons]
      exact cellAt_append (by simp [hlo])
    refine ⟨y, ?_⟩
    rw [List.length_cons, shiftDown, hread, Outcome.bind_done, setCell_append hlo, Outcome.bind_done,
      List.append_cons, hy]
    simp only [List.append_assoc, List.cons_append, List.nil_append]

/-- A loop down to a negative position goes outside. -/
theorem shiftUp_outside (hlo : lo < 0) (hn : 0 < n) (cells : List α) :
    shiftUp lo n cells = .outside := by
  induction n generalizing cells with
  | zero => exact absurd hn (lt_irrefl 0)
  | succ n ih =>
    rw [shiftUp]
    by_cases hneg : lo + n < 0
    · rw [cellAt_neg hneg]
      rfl
    cases hread : cellAt cells (lo + n) with
    | outside => rfl
    | unfinished =>
      unfold cellAt at hread
      split_ifs at hread
      cases h : cells[(lo + n).toNat]? <;> rw [h] at hread <;> cases hread
    | done a =>
      rw [Outcome.bind_done]
      unfold setCell
      split_ifs
      · exact ih (by omega) _
      · rfl

theorem insertIdx_append (as bs : List (α)) (a : α) :
    (as ++ bs).insertIdx as.length a = as ++ a :: bs := by
  induction as with
  | nil => rfl
  | cons b as ih =>
    rw [List.cons_append, List.length_cons, List.insertIdx_succ_cons, ih, List.cons_append]

theorem eraseIdx_append (as bs : List (α)) (a : α) :
    (as ++ a :: bs).eraseIdx as.length = as ++ bs := by
  rw [List.eraseIdx_append_of_length_le le_rfl, Nat.sub_self]
  rfl

end MultipathTools
