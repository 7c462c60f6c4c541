import Mathlib.Data.List.Basic
import Mathlib.Data.List.Infix

/-! Memory as cells with numbers: what is stored, and what is left of other cells. -/
namespace MultipathTools

variable {β : Type*} {m : ℕ → β} {a b n : ℕ} {bs : List β}

/-- The `n` cells from `a` on. -/
def load (m : ℕ → β) (a : ℕ) : ℕ → List β
  | 0 => []
  | n + 1 => m a :: load m (a + 1) n

/-- The memory after the cells from `a` on have been written. -/
def store (m : ℕ → β) (a : ℕ) (bs : List β) : ℕ → β := fun x =>
  if a ≤ x then (bs[x - a]?).getD (m x) else m x

@[simp] theorem load_length (m : ℕ → β) (a n : ℕ) : (load m a n).length = n := by
  induction n generalizing a with
  | zero => rfl
  | succ n ih => rw [load, List.length_cons, ih]

theorem load_add (m : ℕ → β) (a k n : ℕ) : load m a (k + n) = load m a k ++ load m (a + k) n := by
  induction k generalizing a with
  | zero => rw [Nat.zero_add]; rfl
  | succ k ih =>
    rw [Nat.add_right_comm, load, ih, load, List.cons_append, Nat.add_assoc, Nat.add_comm 1 k]

theorem load_congr {m' : ℕ → β} (h : ∀ x, a ≤ x → x < a + n → m x = m' x) :
    load m a n = load m' a n := by
  induction n generalizing a with
  | zero => rfl
  | succ n ih =>
    have hrest : load m (a + 1) n = load m' (a + 1) n :=
      ih fun x hx hlt => h x (by omega) (by omega)
    rw [load, load, h a le_rfl (by omega), hrest]

theorem take_load {k : ℕ} (h : k ≤ n) : (load m a n).take k = load m a k := by
  obtain ⟨j, rfl⟩ := Nat.exists_eq_add_of_le h
  rw [load_add, List.take_left' (load_length _ _ _)]

theorem drop_load {k : ℕ} (h : k ≤ n) : (load m a n).drop k = load m (a + k) (n - k) := by
  obtain ⟨j, rfl⟩ := Nat.exists_eq_add_of_le h
  rw [load_add, List.drop_left' (load_length _ _ _), Nat.add_sub_cancel_left]

theorem store_of_lt {x : ℕ} (h : x < a) : store m a bs x = m x := if_neg (Nat.not_le.mpr h)

theorem store_of_ge {x : ℕ} (h : a + bs.length ≤ x) : store m a bs x = m x := by
  unfold store
  rw [if_pos (by omega), List.getElem?_eq_none (by omega), Option.getD_none]

/-- A write leaves the other cells as they are. -/
theorem load_store_of_disjoint (h : a + n ≤ b ∨ b + bs.length ≤ a) :
    load (store m b bs) a n = load m a n := by
  refine load_congr fun x hx hlt => ?_
  rcases h with h | h
  · exact store_of_lt (by omega)
  · exact store_of_ge (by omega)

theorem load_store_self (m : ℕ → β) (a : ℕ) (bs : List β) : load (store m a bs) a bs.length = bs := by
  induction bs generalizing a m with
  | nil => rfl
  | cons b bs ih =>
    have hhead : store m a (b :: bs) a = b := by simp [store]
    have htail : load (store m a (b :: bs)) (a + 1) bs.length =
        load (store (store m a (b :: bs)) (a + 1) bs) (a + 1) bs.length := by
      refine load_congr fun x hx hlt => ?_
      have hindex : x - a = (x - (a + 1)) + 1 := by omega
      unfold store
      rw [if_pos (by omega), if_pos hx, hindex, List.getElem?_cons_succ,
        List.getElem?_eq_getElem (by omega), Option.getD_some, Option.getD_some]
    rw [List.length_cons, load, hhead, htail, ih]

/-- The cells of a string up to the first that is `z`, if there is one among the next `n`. -/
def loadUntil [DecidableEq β] (z : β) (m : ℕ → β) (a : ℕ) : ℕ → Option (List β)
  | 0 => none
  | n + 1 => if m a = z then some [] else (loadUntil z m (a + 1) n).map (m a :: ·)

theorem loadUntil_eq [DecidableEq β] {z : β} (hz : z ∉ bs)
    (h : load m a (bs.length + 1) = bs ++ [z]) (hn : bs.length < n) :
    loadUntil z m a n = some bs := by
  induction bs generalizing a n with
  | nil =>
    obtain ⟨n, rfl⟩ := Nat.exists_eq_succ_of_ne_zero (Nat.ne_of_gt hn)
    exact if_pos (List.cons.inj h).1
  | cons b bs ih =>
    obtain ⟨n, rfl⟩ := Nat.exists_eq_succ_of_ne_zero (Nat.ne_of_gt (Nat.zero_lt_of_lt hn))
    obtain ⟨hne, hz⟩ := not_or.mp (List.mem_cons.not.mp hz)
    obtain ⟨hb, htail⟩ := List.cons.inj h
    rw [loadUntil, hb, if_neg (Ne.symm hne), ih hz htail (Nat.lt_of_succ_lt_succ hn)]
    rfl

end MultipathTools
