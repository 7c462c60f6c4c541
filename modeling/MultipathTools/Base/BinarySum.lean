import Mathlib.Algebra.Order.BigOperators.Group.List
import Mathlib.Combinatorics.Colex
import Mathlib.Data.Nat.Basic
import Mathlib.Tactic.Common

/-! Sums of powers of two over lists of exponents. A list without repetitions is determined
by its sum; what repetitions add is their `surplus`. -/
namespace MultipathTools

/-- The sum of the powers of two with the listed exponents, each as often as it is listed. -/
def binSum (v : List ℕ) : ℕ := (v.map (2 ^ ·)).sum

/-- What the second and later occurrences of the exponents add to the sum. -/
def surplus (v : List ℕ) : ℕ := ∑ i ∈ v.toFinset, (v.count i - 1) * 2 ^ i

@[simp] theorem binSum_nil : binSum [] = 0 := rfl

@[simp] theorem binSum_cons (i : ℕ) (v : List ℕ) : binSum (i :: v) = 2 ^ i + binSum v := by
  simp [binSum]

theorem binSum_eq_sum_toFinset {v : List ℕ} (h : v.Nodup) :
    binSum v = ∑ i ∈ v.toFinset, 2 ^ i :=
  (List.sum_toFinset _ h).symm

theorem binSum_eq_add_surplus (v : List ℕ) :
    binSum v = ∑ i ∈ v.toFinset, 2 ^ i + surplus v := by
  rw [binSum, Finset.sum_list_map_count, surplus, ← Finset.sum_add_distrib]
  refine Finset.sum_congr rfl fun i hi => ?_
  have hc : 1 ≤ v.count i := List.count_pos_iff.mpr (List.mem_toFinset.mp hi)
  obtain ⟨n, hn⟩ := Nat.exists_eq_add_of_le hc
  rw [hn, Nat.add_sub_cancel_left, nsmul_eq_mul, Nat.cast_id, Nat.add_mul, Nat.one_mul]

theorem surplus_eq_zero_iff {v : List ℕ} : surplus v = 0 ↔ v.Nodup := by
  simp only [surplus, Finset.sum_eq_zero_iff, List.mem_toFinset, mul_eq_zero, Nat.pow_eq_zero,
    OfNat.ofNat_ne_zero, false_and, or_false, List.nodup_iff_count_le_one]
  refine forall_congr' fun i => ?_
  by_cases hi : i ∈ v
  · simp only [hi, true_imp_iff]
    omega
  · simp [hi, List.count_eq_zero_of_not_mem hi]

/-- Binary digits are unique. -/
theorem mem_iff_of_binSum_eq {v w : List ℕ} (hv : v.Nodup) (hw : w.Nodup)
    (h : binSum v = binSum w) (i : ℕ) : i ∈ v ↔ i ∈ w := by
  rw [binSum_eq_sum_toFinset hv, binSum_eq_sum_toFinset hw] at h
  have hset : v.toFinset = w.toFinset := Finset.geomSum_injective le_rfl h
  rw [← List.mem_toFinset, hset, List.mem_toFinset]

theorem binSum_lt {v : List ℕ} {n : ℕ} (hv : v.Nodup) (h : ∀ i ∈ v, i < n) :
    binSum v < 2 ^ n := by
  rw [binSum_eq_sum_toFinset hv]
  exact Nat.geomSum_lt le_rfl fun i hi => h i (List.mem_toFinset.mp hi)

theorem binSum_le {v : List ℕ} {n : ℕ} (h : ∀ i ∈ v, i < n) : binSum v ≤ v.length * 2 ^ n := by
  have hle : ∀ x ∈ v.map (2 ^ ·), x ≤ 2 ^ n := by
    simpa using fun i hi => Nat.pow_le_pow_right Nat.two_pos (h i hi).le
  simpa [binSum] using List.sum_le_card_nsmul _ _ hle

theorem sum_toFinset_lt {v : List ℕ} {n : ℕ} (h : ∀ i ∈ v, i < n) :
    ∑ i ∈ v.toFinset, 2 ^ i < 2 ^ n :=
  Nat.geomSum_lt le_rfl fun i hi => h i (List.mem_toFinset.mp hi)

end MultipathTools

/-! Cursors that go round: how far a cursor modulo `n` is from a position, and from a position of a
second cursor which goes on whenever the first one gets to its place. -/
namespace MultipathTools

/-- The steps that a cursor at `i` takes to the position `k`. -/
def stepsTo (n k i : ℕ) : ℕ := if i ≤ k then k - i else n + k - i

variable {n k i m h j : ℕ}

theorem stepsTo_self : stepsTo n k k = 0 := by
  rw [stepsTo, if_pos (Nat.le_refl k), Nat.sub_self]

theorem succ_mod_eq (hi : i < n) : (i + 1) % n = if i + 1 = n then 0 else i + 1 := by
  split_ifs with hn
  · rw [hn, Nat.mod_self]
  · exact Nat.mod_eq_of_lt (by omega)

theorem stepsTo_succ (hk : k < n) (hi : i < n) (hne : i ≠ k) :
    stepsTo n k ((i + 1) % n) + 1 = stepsTo n k i := by
  rw [succ_mod_eq hi]
  unfold stepsTo
  split_ifs <;> omega

theorem stepsTo_succ_self (hk : k < n) : stepsTo n k ((k + 1) % n) = n - 1 := by
  rw [succ_mod_eq hk]
  unfold stepsTo
  split_ifs <;> omega

/-- The steps until the first cursor is at `k` while the second one is at `h`. -/
def stepsToBoth (n k m h i j : ℕ) : ℕ := stepsTo n k i + n * stepsTo m h j

theorem stepsToBoth_elsewhere (hk : k < n) (hi : i < n) (hne : i ≠ k) :
    stepsToBoth n k m h ((i + 1) % n) j < stepsToBoth n k m h i j := by
  have hstep := stepsTo_succ hk hi hne
  unfold stepsToBoth
  omega

theorem stepsToBoth_there (hk : k < n) (hh : h < m) (hj : j < m) (hne : j ≠ h) :
    stepsToBoth n k m h ((k + 1) % n) ((j + 1) % m) < stepsToBoth n k m h k j := by
  have hstep := stepsTo_succ hh hj hne
  unfold stepsToBoth
  rw [stepsTo_succ_self hk, stepsTo_self, ← hstep, Nat.mul_add]
  omega

end MultipathTools
