import Mathlib.Algebra.Ring.Parity
import Mathlib.Data.List.GetD
import Mathlib.Logic.Function.Iterate
import Mathlib.Tactic.Ring

/-! Shift registers with linear feedback: they are linear for exclusive or, a table takes several of
their steps at once, and what they leave of a message tells bursts of errors. -/
namespace MultipathTools

variable {w : ℕ} {poly : BitVec w}

section Register

/-- One step: the register shifts to the right, and the bit that leaves it feeds back. -/
def lfsr (poly c : BitVec w) : BitVec w := (c >>> 1) ^^^ (if c.getLsbD 0 then poly else 0#w)

theorem lfsr_of_false {c : BitVec w} (h : c.getLsbD 0 = false) : lfsr poly c = c >>> 1 := by
  simp [lfsr, h]

@[simp] theorem lfsr_zero : lfsr poly 0#w = 0#w := by simp [lfsr]

theorem xor_xor_xor_cancel (a b p : BitVec w) : a ^^^ p ^^^ (b ^^^ p) = a ^^^ b := by
  rw [BitVec.xor_comm b p, ← BitVec.xor_assoc, BitVec.xor_assoc a p p, BitVec.xor_self,
    BitVec.xor_zero]

theorem lfsr_xor (a b : BitVec w) : lfsr poly (a ^^^ b) = lfsr poly a ^^^ lfsr poly b := by
  unfold lfsr
  rw [BitVec.ushiftRight_xor_distrib, BitVec.getLsbD_xor]
  cases ha : a.getLsbD 0 <;> cases hb : b.getLsbD 0
  · simp
  · simp [BitVec.xor_assoc]
  · simp only [Bool.xor_false, if_true, Bool.false_eq_true, if_false, BitVec.xor_zero]
    rw [BitVec.xor_assoc, BitVec.xor_assoc, BitVec.xor_comm poly]
  · simp only [Bool.xor_self, if_true, Bool.false_eq_true, if_false, BitVec.xor_zero]
    exact (xor_xor_xor_cancel _ _ _).symm

@[simp] theorem iterate_lfsr_zero (n : ℕ) : (lfsr poly)^[n] 0#w = 0#w :=
  Function.iterate_fixed lfsr_zero n

theorem iterate_lfsr_xor (n : ℕ) (a b : BitVec w) :
    (lfsr poly)^[n] (a ^^^ b) = (lfsr poly)^[n] a ^^^ (lfsr poly)^[n] b := by
  induction n generalizing a b with
  | zero => rfl
  | succ n ih => rw [Function.iterate_succ_apply, lfsr_xor, ih]; rfl

/-- Bits that are clear only move down. -/
theorem iterate_lfsr_of_false {n : ℕ} {c : BitVec w} (h : ∀ i < n, c.getLsbD i = false) :
    (lfsr poly)^[n] c = c >>> n := by
  induction n with
  | zero => simp
  | succ n ih =>
    rw [Function.iterate_succ_apply', ih fun i hi => h i (by omega), lfsr_of_false,
      ← BitVec.shiftRight_add]
    rw [BitVec.getLsbD_ushiftRight]
    exact h n (Nat.lt_succ_self n)

/-- A feedback into the highest bit makes every step reversible. -/
theorem lfsr_eq_zero_iff (hp : poly.msb = true) {c : BitVec w} : lfsr poly c = 0#w ↔ c = 0#w := by
  refine ⟨fun h => ?_, fun h => by rw [h, lfsr_zero]⟩
  have hw : 0 < w := by
    by_contra hw
    obtain rfl : w = 0 := by omega
    simp [BitVec.msb_eq_getLsbD_last] at hp
  have hlow : c.getLsbD 0 = false := by
    by_contra hc
    rw [Bool.not_eq_false] at hc
    have htop := congrArg (BitVec.getLsbD · (w - 1)) h
    have hout : c.getLsbD (1 + (w - 1)) = false := BitVec.getLsbD_of_ge c _ (by omega)
    have hpoly : poly.getLsbD (w - 1) = true := by
      rw [← hp, BitVec.msb_eq_getLsbD_last]
    simp [lfsr, hc, hout, hpoly] at htop
  rw [lfsr_of_false hlow] at h
  apply BitVec.eq_of_getLsbD_eq
  intro i _
  cases i with
  | zero => simpa using hlow
  | succ i =>
    have hi := congrArg (BitVec.getLsbD · i) h
    simpa [Nat.add_comm] using hi

theorem iterate_lfsr_eq_zero_iff (hp : poly.msb = true) (n : ℕ) {c : BitVec w} :
    (lfsr poly)^[n] c = 0#w ↔ c = 0#w := by
  induction n with
  | zero => rfl
  | succ n ih => rw [Function.iterate_succ_apply', lfsr_eq_zero_iff hp, ih]

end Register

section Message

/-- A message goes in bit by bit. -/
def feed (poly c : BitVec w) (bits : List Bool) : BitVec w :=
  bits.foldl (fun c b => lfsr poly (c ^^^ (BitVec.ofBool b).zeroExtend w)) c

/-- The bits as a number, the first one being the lowest. -/
def bitsWord (w : ℕ) : List Bool → BitVec w
  | [] => 0#w
  | b :: bits => (bitsWord w bits <<< 1) ^^^ (BitVec.ofBool b).zeroExtend w

theorem feed_append (c : BitVec w) (l m : List Bool) :
    feed poly c (l ++ m) = feed poly (feed poly c l) m := List.foldl_append

theorem bitsWord_getLsbD (bits : List Bool) (i : ℕ) :
    (bitsWord w bits).getLsbD i = (decide (i < w) && bits.getD i false) := by
  induction bits generalizing i with
  | nil => simp [bitsWord]
  | cons b bits ih =>
    rw [bitsWord, BitVec.getLsbD_xor, BitVec.getLsbD_shiftLeft, ih, BitVec.getLsbD_setWidth,
      BitVec.getLsbD_ofBool]
    cases i with
    | zero => cases b <;> simp
    | succ i =>
      by_cases hi : i + 1 < w
      · simp [hi, show i < w by omega]
      · simp [hi]

/-- Bits that fit into the register may be put into it at once. -/
theorem feed_eq_iterate {bits : List Bool} (h : bits.length ≤ w) (c : BitVec w) :
    feed poly c bits = (lfsr poly)^[bits.length] (c ^^^ bitsWord w bits) := by
  induction bits generalizing c with
  | nil => simp [feed, bitsWord]
  | cons b bits ih =>
    have hdown : (bitsWord w bits <<< 1) >>> 1 = bitsWord w bits := by
      apply BitVec.eq_of_getLsbD_eq
      intro i hi
      rw [BitVec.getLsbD_ushiftRight, BitVec.getLsbD_shiftLeft, bitsWord_getLsbD, bitsWord_getLsbD]
      rw [List.length_cons] at h
      by_cases hw : 1 + i < w
      · simp [hw, hi]
      · simp [hw, hi, List.getElem?_eq_none (show bits.length ≤ i by omega)]
    have hlow : (bitsWord w bits <<< 1).getLsbD 0 = false := by simp
    rw [List.length_cons, Function.iterate_succ_apply, bitsWord,
      BitVec.xor_comm _ ((BitVec.ofBool b).zeroExtend w), ← BitVec.xor_assoc, lfsr_xor,
      lfsr_of_false hlow, hdown, ← ih (by rw [List.length_cons] at h; omega)]
    rfl

theorem feed_replicate_false (c : BitVec w) (n : ℕ) :
    feed poly c (List.replicate n false) = (lfsr poly)^[n] c := by
  induction n generalizing c with
  | zero => rfl
  | succ n ih =>
    have hstep : feed poly c (List.replicate (n + 1) false) =
        feed poly (lfsr poly c) (List.replicate n false) := by
      simp [feed, List.replicate_succ]
    rw [hstep, ih]
    rfl

/-- The register is linear in what it holds and in the message. -/
theorem feed_xor (poly : BitVec w) {l m : List Bool} (h : l.length = m.length) (c d : BitVec w) :
    feed poly (c ^^^ d) (List.zipWith (· ^^ ·) l m) = feed poly c l ^^^ feed poly d m := by
  induction l generalizing m c d with
  | nil =>
    obtain rfl := List.length_eq_zero_iff.mp h.symm
    rfl
  | cons a l ih =>
    obtain ⟨b, m, rfl⟩ := List.exists_cons_of_length_eq_add_one h.symm
    have hbit : (BitVec.ofBool (a ^^ b)).zeroExtend w =
        (BitVec.ofBool a).zeroExtend w ^^^ (BitVec.ofBool b).zeroExtend w := by
      cases a <;> cases b <;> simp
    have hstep : lfsr poly (c ^^^ d ^^^ (BitVec.ofBool (a ^^ b)).zeroExtend w) =
        lfsr poly (c ^^^ (BitVec.ofBool a).zeroExtend w) ^^^
          lfsr poly (d ^^^ (BitVec.ofBool b).zeroExtend w) := by
      rw [hbit, ← lfsr_xor]
      congr 1
      ac_rfl
    show feed poly (lfsr poly _) _ = feed poly (lfsr poly _) l ^^^ feed poly (lfsr poly _) m
    rw [hstep, ih (by simpa using h)]

end Message

section Burst

/-- Two messages that differ in a burst of at most `w` bits. -/
def BurstApart (w : ℕ) (l m : List Bool) : Prop :=
  ∃ a u v b, l = a ++ u ++ b ∧ m = a ++ v ++ b ∧ u.length = v.length ∧ u.length ≤ w

theorem zipWith_bxor_self (l : List Bool) :
    List.zipWith (· ^^ ·) l l = List.replicate l.length false := by
  induction l with
  | nil => rfl
  | cons b l ih => rw [List.zipWith_cons_cons, ih, Bool.xor_self]; rfl

theorem eq_of_zipWith_bxor {u v : List Bool} (h : u.length = v.length)
    (hd : ∀ i, (List.zipWith (· ^^ ·) u v).getD i false = false) : u = v := by
  induction u generalizing v with
  | nil => exact (List.length_eq_zero_iff.mp h.symm).symm
  | cons a u ih =>
    obtain ⟨b, v, rfl⟩ := List.exists_cons_of_length_eq_add_one h.symm
    have hab : a = b := by simpa using hd 0
    have huv : u = v := ih (by simpa using h) fun i => by simpa using hd (i + 1)
    rw [hab, huv]

/-- A register as wide as the burst tells the messages apart, whatever it held before. -/
theorem eq_of_feed_eq (hp : poly.msb = true) {l m : List Bool} (h : BurstApart w l m)
    {c : BitVec w} (heq : feed poly c l = feed poly c m) : l = m := by
  obtain ⟨a, u, v, b, rfl, rfl, hlen, hle⟩ := h
  have hdiff : feed poly 0#w (List.zipWith (· ^^ ·) (a ++ u ++ b) (a ++ v ++ b)) = 0#w := by
    have hlens : (a ++ u ++ b).length = (a ++ v ++ b).length := by simp [hlen]
    have hxor := feed_xor poly hlens c c
    rwa [BitVec.xor_self, heq, BitVec.xor_self] at hxor
  rw [List.zipWith_append (by simp [hlen]), List.zipWith_append rfl, zipWith_bxor_self,
    zipWith_bxor_self, feed_append, feed_append, feed_replicate_false, feed_replicate_false,
    iterate_lfsr_zero, iterate_lfsr_eq_zero_iff hp,
    feed_eq_iterate (by simpa [← hlen] using hle), iterate_lfsr_eq_zero_iff hp,
    BitVec.zero_xor] at hdiff
  have huv : u = v := by
    refine eq_of_zipWith_bxor hlen fun i => ?_
    by_cases hi : i < w
    · have hbit := bitsWord_getLsbD (w := w) (List.zipWith (· ^^ ·) u v) i
      rw [hdiff] at hbit
      simpa [hi] using hbit.symm
    · exact List.getD_eq_default _ _ (by simp [← hlen]; omega)
  rw [huv]

end Burst

section Table

/-- The inner loop of a table's construction: from the entries for the multiples of `2 * i` those for
the odd multiples of `i`. -/
def fillTable (crc : BitVec w) (i k : ℕ) (table : List (BitVec w)) : List (BitVec w) :=
  ((List.range (2 ^ k / (2 * i))).map (2 * i * ·)).foldl
    (fun table j => table.set (i + j) (crc ^^^ table.getD j 0#w)) table

/-- The outer loop, over the powers of two below `2 ^ k` downwards. -/
def buildTable (poly : BitVec w) (k : ℕ) : ℕ → BitVec w → List (BitVec w) → List (BitVec w)
  | 0, _, table => table
  | e + 1, crc, table =>
    buildTable poly k e (lfsr poly crc) (fillTable (lfsr poly crc) (2 ^ e) k table)

/-- What the table should have for an index: the register after `k` steps. -/
def TableAt (poly : BitVec w) (k e : ℕ) (table : List (BitVec w)) : Prop :=
  table.length = 2 ^ k ∧
    ∀ n < 2 ^ k, 2 ^ e ∣ n → table.getD n 0#w = (lfsr poly)^[k] (BitVec.ofNat w n)

theorem two_pow_mul_add_eq_xor {k b : ℕ} (h : b < 2 ^ k) (a : ℕ) :
    2 ^ k * a + b = 2 ^ k * a ^^^ b := by
  apply Nat.eq_of_testBit_eq
  intro i
  rw [Nat.testBit_two_pow_mul_add a h, Nat.testBit_xor, Nat.testBit_two_pow_mul]
  by_cases hi : i < k
  · simp [hi, Nat.not_le_of_lt hi]
  · have hb : b.testBit i = false :=
      Nat.testBit_lt_two_pow (h.trans_le (Nat.pow_le_pow_right two_pos (Nat.le_of_not_lt hi)))
    simp [hi, Nat.le_of_not_lt hi, hb]

theorem fillTable_spec (crc : BitVec w) {i m : ℕ} (hi : 0 < i) (table : List (BitVec w))
    (hm : 2 * i * m ≤ table.length) :
    let out := ((List.range m).map (2 * i * ·)).foldl
      (fun table j => table.set (i + j) (crc ^^^ table.getD j 0#w)) table
    out.length = table.length ∧
      (∀ j < m, out.getD (i + 2 * i * j) 0#w = crc ^^^ table.getD (2 * i * j) 0#w) ∧
      ∀ n, (∀ j < m, n ≠ i + 2 * i * j) → out.getD n 0#w = table.getD n 0#w := by
  induction m with
  | zero => simp
  | succ m ih =>
    have hm' : 2 * i * m + 2 * i ≤ table.length := by rwa [Nat.mul_succ] at hm
    obtain ⟨hlen, hodd, hrest⟩ := ih (by omega)
    have hodd_ne : ∀ j k, i + 2 * i * j ≠ 2 * i * k := by
      intro j k h
      have hdiv : 2 * i ∣ i := (Nat.dvd_add_left ⟨j, rfl⟩).mp ⟨k, h⟩
      have := Nat.le_of_dvd hi hdiv
      omega
    intro out
    have hout : out = (((List.range m).map (2 * i * ·)).foldl
        (fun table j => table.set (i + j) (crc ^^^ table.getD j 0#w)) table).set (i + 2 * i * m)
          (crc ^^^ table.getD (2 * i * m) 0#w) := by
      simp only [out, List.range_succ, List.map_append, List.map_cons, List.map_nil,
        List.foldl_append, List.foldl_cons, List.foldl_nil]
      rw [hrest (2 * i * m) fun j _ h => hodd_ne j m h.symm]
    rw [hout]
    refine ⟨by rw [List.length_set, hlen], fun j hj => ?_, fun n hn => ?_⟩
    · by_cases hjm : j = m
      · subst hjm
        rw [List.getD_eq_getElem?_getD, List.getElem?_set_self (by rw [hlen]; omega)]
        rfl
      · have hne : i + 2 * i * m ≠ i + 2 * i * j := by
          intro h
          have := Nat.eq_of_mul_eq_mul_left (show 0 < 2 * i by omega) (Nat.add_left_cancel h)
          omega
        rw [List.getD_eq_getElem?_getD, List.getElem?_set_ne hne, ← List.getD_eq_getElem?_getD]
        exact hodd j (by omega)
    · rw [List.getD_eq_getElem?_getD, List.getElem?_set_ne (hn m (Nat.lt_succ_self m)).symm,
        ← List.getD_eq_getElem?_getD]
      exact hrest n fun j hj => hn j (by omega)

theorem fillTable_tableAt {k e : ℕ} (he : e < k) {table : List (BitVec w)}
    (h : TableAt poly k (e + 1) table) :
    TableAt poly k e (fillTable ((lfsr poly)^[k] (BitVec.ofNat w (2 ^ e))) (2 ^ e) k table) := by
  have hdiv : 2 * 2 ^ e * (2 ^ k / (2 * 2 ^ e)) = 2 ^ k := by
    rw [← pow_succ']
    exact Nat.mul_div_cancel' (pow_dvd_pow 2 he)
  obtain ⟨hlen, hodd, hrest⟩ := fillTable_spec ((lfsr poly)^[k] (BitVec.ofNat w (2 ^ e)))
    (Nat.two_pow_pos e) table (m := 2 ^ k / (2 * 2 ^ e)) (by rw [hdiv, h.1])
  refine ⟨hlen.trans h.1, fun n hn hen => ?_⟩
  obtain ⟨q, rfl⟩ := hen
  rcases Nat.even_or_odd' q with ⟨j, rfl | rfl⟩
  · -- the entry was there before
    have hnew : ∀ j' < 2 ^ k / (2 * 2 ^ e), 2 ^ e * (2 * j) ≠ 2 ^ e + 2 * 2 ^ e * j' := by
      intro j' _ heq
      have := Nat.eq_of_mul_eq_mul_left (Nat.two_pow_pos e)
        (heq.trans (show 2 ^ e + 2 * 2 ^ e * j' = 2 ^ e * (1 + 2 * j') by ring))
      omega
    refine (hrest _ hnew).trans (h.2 _ hn ⟨j, ?_⟩)
    ring
  · -- it comes from the one for the bits above `e`
    have heq : 2 ^ e * (2 * j + 1) = 2 ^ e + 2 * 2 ^ e * j := by ring
    rw [heq] at hn
    have hj : j < 2 ^ k / (2 * 2 ^ e) := by
      refine (Nat.lt_div_iff_mul_lt' (pow_succ' 2 e ▸ pow_dvd_pow 2 he) j).mpr ?_
      exact (Nat.le_add_left _ _).trans_lt hn
    have hbits : BitVec.ofNat w (2 ^ e + 2 * 2 ^ e * j) =
        BitVec.ofNat w (2 ^ e) ^^^ BitVec.ofNat w (2 * 2 ^ e * j) := by
      rw [← BitVec.ofNat_xor, ← pow_succ', Nat.add_comm, Nat.xor_comm]
      congr 1
      exact two_pow_mul_add_eq_xor (Nat.pow_lt_pow_succ one_lt_two) j
    rw [heq, hbits, iterate_lfsr_xor, ← h.2 (2 * 2 ^ e * j) ((Nat.le_add_left _ _).trans_lt hn) ⟨j, by ring⟩]
    exact hodd j hj

theorem buildTable_tableAt {k : ℕ} (hk : k ≤ w) {e : ℕ} (he : e ≤ k) {crc : BitVec w}
    (hcrc : crc = (lfsr poly)^[k - e] 1#w) {table : List (BitVec w)} (h : TableAt poly k e table) :
    TableAt poly k 0 (buildTable poly k e crc table) := by
  induction e generalizing crc table with
  | zero => exact h
  | succ e ih =>
    have hstep : lfsr poly crc = (lfsr poly)^[k] (BitVec.ofNat w (2 ^ e)) := by
      have hone : (lfsr poly)^[e] (BitVec.ofNat w (2 ^ e)) = 1#w := by
        rw [iterate_lfsr_of_false fun i hi => by
          rw [BitVec.getLsbD_ofNat, Nat.testBit_two_pow_of_ne (by omega), Bool.and_false]]
        apply BitVec.eq_of_toNat_eq
        rw [BitVec.toNat_ushiftRight, BitVec.toNat_ofNat,
          Nat.mod_eq_of_lt (Nat.pow_lt_pow_right one_lt_two (by omega)), Nat.shiftRight_eq_div_pow,
          Nat.div_self (Nat.two_pow_pos e), BitVec.toNat_ofNat,
          Nat.mod_eq_of_lt (Nat.one_lt_two_pow (by omega))]
      rw [hcrc, ← Function.iterate_succ_apply' (lfsr poly), ← hone, ← Function.iterate_add_apply]
      congr 1
      omega
    rw [buildTable, hstep]
    refine ih (by omega) ?_ (fillTable_tableAt he h)
    rw [← hstep, hcrc, ← Function.iterate_succ_apply' (lfsr poly)]
    congr 1
    omega

/-- The table has for each index what `k` steps make of it. -/
theorem buildTable_getD {k : ℕ} (hk : k ≤ w) {mem : List (BitVec w)} (hlen : mem.length = 2 ^ k)
    {n : ℕ} (hn : n < 2 ^ k) :
    (buildTable poly k k 1#w (mem.set 0 0#w)).getD n 0#w = (lfsr poly)^[k] (BitVec.ofNat w n) := by
  have hzero : TableAt poly k k (mem.set 0 0#w) := by
    refine ⟨by rw [List.length_set, hlen], fun n hn hdvd => ?_⟩
    obtain rfl := Nat.eq_zero_of_dvd_of_lt hdvd hn
    rw [List.getD_eq_getElem?_getD, List.getElem?_set_self (by rw [hlen]; exact hn)]
    exact (iterate_lfsr_zero k).symm
  exact (buildTable_tableAt hk le_rfl (by rw [Nat.sub_self]; rfl) hzero).2 n hn (one_dvd n)

/-- `k` steps at once: the low bits are looked up, the others move down. -/
theorem iterate_lfsr_eq_table {k : ℕ} (c : BitVec w) {table : List (BitVec w)}
    (h : ∀ n < 2 ^ k, table.getD n 0#w = (lfsr poly)^[k] (BitVec.ofNat w n)) :
    (lfsr poly)^[k] c = (c >>> k) ^^^ table.getD (c.toNat % 2 ^ k) 0#w := by
  have hsplit : c = (c >>> k <<< k) ^^^ BitVec.ofNat w (c.toNat % 2 ^ k) := by
    apply BitVec.eq_of_getLsbD_eq
    intro i hi
    rw [BitVec.getLsbD_xor, BitVec.getLsbD_shiftLeft, BitVec.getLsbD_ushiftRight, BitVec.getLsbD_ofNat,
      Nat.testBit_mod_two_pow, BitVec.testBit_toNat]
    by_cases hik : i < k
    · simp only [hi, hik, decide_true, Bool.not_true, Bool.and_false, Bool.false_and, Bool.true_and,
        Bool.false_xor]
    · simp only [hi, hik, decide_true, decide_false, Bool.not_false, Bool.true_and, Bool.false_and,
        Bool.and_false, Bool.xor_false, show k + (i - k) = i by omega]
  have hdown : (lfsr poly)^[k] (c >>> k <<< k) = c >>> k := by
    rw [iterate_lfsr_of_false fun i hi => by simp [hi]]
    apply BitVec.eq_of_getLsbD_eq
    intro i hi
    rw [BitVec.getLsbD_ushiftRight, BitVec.getLsbD_shiftLeft, Nat.add_sub_cancel_left]
    by_cases hik : k + i < w
    · simp only [hik, Nat.not_lt_of_le (Nat.le_add_right k i), decide_true, decide_false,
        Bool.not_false, Bool.true_and]
    · rw [BitVec.getLsbD_ushiftRight, BitVec.getLsbD_of_ge c _ (Nat.le_of_not_lt hik)]
      simp only [hik, decide_false, Bool.false_and]
  rw [h _ (Nat.mod_lt _ (Nat.two_pow_pos k))]
  conv_lhs => rw [hsplit]
  rw [iterate_lfsr_xor, hdown]

end Table

end MultipathTools
