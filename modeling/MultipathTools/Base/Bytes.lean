import Mathlib.Data.BitVec
import Mathlib.Tactic.Ring

/-! Byte buffers: reads that may leave the buffer, and big-endian numbers. -/
namespace MultipathTools

abbrev Byte := BitVec 8

variable {α : Type*}

/-- The `n` bytes of the buffer from position `p` on, if all of them are inside. -/
def slice (buf : List α) (p : ℤ) (n : ℕ) : Option (List α) :=
  if 0 ≤ p ∧ ((buf.drop p.toNat).take n).length = n then some ((buf.drop p.toNat).take n) else none

theorem slice_eq_some_iff {buf bs : List α} {p : ℤ} {n : ℕ} :
    slice buf p n = some bs ↔
      0 ≤ p ∧ bs.length = n ∧ (buf.drop p.toNat).take n = bs := by
  unfold slice
  split_ifs with h
  · constructor
    · intro hbs
      cases hbs
      exact ⟨h.1, h.2, rfl⟩
    · intro hbs
      rw [hbs.2.2]
  · constructor
    · intro hbs
      cases hbs
    · intro hbs
      rw [hbs.2.2] at h
      exact absurd ⟨hbs.1, hbs.2.1⟩ h

/-- A read from a position inside the buffer succeeds where it ends inside. -/
theorem slice_natCast {buf : List α} {p n : ℕ} (h : n ≠ 0 ∨ p ≤ buf.length) :
    slice buf p n = if p + n ≤ buf.length then some ((buf.drop p).take n) else none := by
  have hlen : ((buf.drop p).take n).length = n ↔ p + n ≤ buf.length := by
    rw [List.length_take, List.length_drop]
    omega
  by_cases hp : p + n ≤ buf.length
  · rw [if_pos hp]
    exact slice_eq_some_iff.mpr ⟨by omega, hlen.mpr hp, by simp⟩
  · rw [if_neg hp, slice, if_neg]
    intro hs
    exact hp (hlen.mp (by simpa using hs.2))

/-- A read inside bytes that have been read. -/
theorem slice_slice {buf bs : List α} {p : ℤ} {n : ℕ} (h : slice buf p n = some bs) {i m : ℕ}
    (him : i + m ≤ n) : slice buf (p + i) m = some ((bs.drop i).take m) := by
  obtain ⟨hp, hlen, rfl⟩ := slice_eq_some_iff.mp h
  apply slice_eq_some_iff.mpr
  have hpos : (p + i).toNat = p.toNat + i := by omega
  refine ⟨by omega, ?_, ?_⟩
  · rw [List.length_take, List.length_drop, hlen]
    omega
  · rw [hpos, ← List.drop_drop, List.drop_take, List.take_take, Nat.min_eq_left (by omega)]

theorem slice_self (bs : List α) : slice bs 0 bs.length = some bs :=
  slice_eq_some_iff.mpr ⟨le_rfl, rfl, by simp⟩

/-- The value of a big-endian number. -/
def ofBe (bs : List Byte) : ℕ := bs.foldl (fun v b => 256 * v + b.toNat) 0

/-- A number in `w` bytes, the highest first. -/
def toBe : ℕ → ℕ → List Byte
  | 0, _ => []
  | w + 1, n => toBe w (n / 256) ++ [BitVec.ofNat 8 n]

@[simp] theorem toBe_length (w n : ℕ) : (toBe w n).length = w := by
  induction w generalizing n with
  | zero => rfl
  | succ w ih => simp [toBe, ih]

theorem ofBe_append (bs : List Byte) (b : Byte) : ofBe (bs ++ [b]) = 256 * ofBe bs + b.toNat := by
  simp [ofBe]

theorem ofBe_toBe (w n : ℕ) : ofBe (toBe w n) = n % 256 ^ w := by
  induction w generalizing n with
  | zero => simp [toBe, ofBe, Nat.mod_one]
  | succ w ih =>
    rw [toBe, ofBe_append, ih, BitVec.toNat_ofNat]
    calc 256 * (n / 256 % 256 ^ w) + n % 2 ^ 8 = n % 256 + 256 * (n / 256 % 256 ^ w) :=
          Nat.add_comm _ _
      _ = n % 256 ^ (w + 1) := by rw [Nat.pow_succ', ← Nat.mod_mul]

theorem ofBe_lt (bs : List Byte) : ofBe bs < 256 ^ bs.length := by
  induction bs using List.reverseRecOn with
  | nil => simp [ofBe]
  | append_singleton bs b ih =>
    have hb := b.isLt
    rw [ofBe_append, List.length_append, List.length_singleton, pow_succ]
    omega

/-- The order of the bytes of a number in the memory of a machine. -/
inductive ByteOrder
  | little
  | big
  deriving DecidableEq, Repr

/-- The `w` bytes of a number in memory. -/
def ByteOrder.toBytes (order : ByteOrder) (w n : ℕ) : List Byte :=
  match order with
  | .little => (toBe w n).reverse
  | .big => toBe w n

def ByteOrder.ofBytes (order : ByteOrder) (bs : List Byte) : ℕ :=
  match order with
  | .little => ofBe bs.reverse
  | .big => ofBe bs

@[simp] theorem ByteOrder.toBytes_length (order : ByteOrder) (w n : ℕ) :
    (order.toBytes w n).length = w := by
  cases order <;> simp [toBytes]

theorem ByteOrder.ofBytes_toBytes (order : ByteOrder) {w n : ℕ} (h : n < 256 ^ w) :
    order.ofBytes (order.toBytes w n) = n := by
  cases order <;> simp [ofBytes, toBytes, ofBe_toBe, Nat.mod_eq_of_lt h]

end MultipathTools
