import Mathlib.Algebra.Order.Ring.Nat
import Mathlib.Data.List.TakeWhile
import Mathlib.Tactic.Linarith
import Mathlib.Tactic.NormNum
import MultipathTools.Base.CString

/-! The C types `int` and `unsigned int`, as integers with explicit conversions. -/
namespace MultipathTools

def intMax : ℤ := 2 ^ 31 - 1
def intMin : ℤ := -2 ^ 31
def uintMax : ℤ := 2 ^ 32 - 1

/-- A value of type `int`. -/
def IsInt (x : ℤ) : Prop := intMin ≤ x ∧ x ≤ intMax

instance (x : ℤ) : Decidable (IsInt x) := inferInstanceAs (Decidable (_ ∧ _))

/-- Conversion to `int` of a value computed modulo `2 ^ 32`. -/
def toInt (x : ℤ) : ℤ := x.bmod (2 ^ 32)

theorem toInt_isInt (x : ℤ) : IsInt (toInt x) := by
  have hl := Int.le_bmod (x := x) (m := 2 ^ 32) (by norm_num)
  have hu := Int.bmod_lt (x := x) (m := 2 ^ 32) (by norm_num)
  unfold IsInt intMin intMax toInt
  norm_num at hl hu ⊢
  omega

@[simp] theorem toInt_of_isInt {x : ℤ} (h : IsInt x) : toInt x = x := by
  unfold IsInt intMin intMax at h
  exact Int.bmod_eq_of_le (by norm_num; omega) (by norm_num; omega)

theorem toInt_eq_self_iff {x : ℤ} : toInt x = x ↔ IsInt x :=
  ⟨fun h => h ▸ toInt_isInt x, toInt_of_isInt⟩

end MultipathTools

/-! Decimal numbers in C strings: `strtoul`, `atoi` and the `%d` conversion. -/
namespace MultipathTools

def ulongMax : ℕ := 2 ^ 64 - 1

/-- The digits that a number starts with, and what follows them. -/
def scanDigits (s : CStr) : CStr × CStr := (s.takeWhile Char.isDigit, s.dropWhile Char.isDigit)

/-- White space and a sign: whether it is a minus, and the text after it. -/
def scanSign (s : CStr) : Bool × CStr :=
  match s.dropWhile isspace with
  | '-' :: t => (true, t)
  | '+' :: t => (false, t)
  | t => (false, t)

/-- `strtoul(s, &e, 10)`: the value, and `e`, which is `s` itself where no digit is found. -/
def strtoul (s : CStr) : ℕ × CStr :=
  let (neg, t) := scanSign s
  let (ds, e) := scanDigits t
  let v := Nat.ofDigitChars 10 ds 0
  if ds = [] then (0, s)
  else if ulongMax < v then (ulongMax, e)
  else (if neg then (2 ^ 64 - v) % 2 ^ 64 else v, e)

/-- `atoi`, which glibc computes as `(int)strtol`. -/
def atoi (s : CStr) : ℤ :=
  let (neg, t) := scanSign s
  let v : ℤ := Nat.ofDigitChars 10 (scanDigits t).1 0
  toInt (if neg then max (-v) (-2 ^ 63) else min v (2 ^ 63 - 1))

/-- The `%d` conversion. -/
def itoa (x : ℤ) : CStr :=
  if x < 0 then '-' :: Nat.toDigits 10 x.natAbs else Nat.toDigits 10 x.natAbs

/-- A text that does not go on with a digit. -/
def NoDigit (s : CStr) : Prop := ∀ c ∈ s.head?, c.isDigit = false

theorem isDigit_toDigits {n : ℕ} {c : Char} (h : c ∈ Nat.toDigits 10 n) : c.isDigit = true :=
  Nat.isDigit_of_mem_toDigits (by decide) le_rfl h

theorem isDigit_toNat {c : Char} (h : c.isDigit = true) : 48 ≤ c.toNat ∧ c.toNat ≤ 57 := by
  simp only [Char.isDigit, Bool.and_eq_true, decide_eq_true_eq, ge_iff_le] at h
  exact h

theorem isspace_of_isDigit {c : Char} (h : c.isDigit = true) : isspace c = false := by
  obtain ⟨hl, hu⟩ := isDigit_toNat h
  simp only [isspace, Bool.decide_or, Bool.or_eq_false_iff, decide_eq_false_iff_not]
  refine ⟨?_, ?_, ?_, ?_, by omega, by omega⟩ <;> rintro rfl <;> simp at hl

theorem scanDigits_append {ds s : CStr} (hd : ∀ c ∈ ds, c.isDigit = true) (hs : NoDigit s) :
    scanDigits (ds ++ s) = (ds, s) := by
  have ht : s.takeWhile Char.isDigit = [] ∧ s.dropWhile Char.isDigit = s := by
    cases s with
    | nil => simp
    | cons c s => simp [hs c (by simp)]
  unfold scanDigits
  rw [List.takeWhile_append_of_pos hd, List.dropWhile_append_of_pos hd, ht.1, ht.2,
    List.append_nil]

theorem scanSign_digits {n : ℕ} (s : CStr) :
    scanSign (Nat.toDigits 10 n ++ s) = (false, Nat.toDigits 10 n ++ s) := by
  obtain ⟨c, ds, hc⟩ := List.exists_cons_of_ne_nil (Nat.toDigits_ne_nil (n := n) (b := 10))
  have hdig : c.isDigit = true := isDigit_toDigits (n := n) (by simp [hc])
  obtain ⟨hl, hu⟩ := isDigit_toNat hdig
  unfold scanSign
  rw [hc, List.cons_append, List.dropWhile_cons_of_neg (by simp [isspace_of_isDigit hdig])]
  split
  · next h => cases h; simp at hl
  · next h => cases h; simp at hl
  · rfl

theorem strtoul_toDigits {n : ℕ} {s : CStr} (hn : n ≤ ulongMax) (hs : NoDigit s) :
    strtoul (Nat.toDigits 10 n ++ s) = (n, s) := by
  unfold strtoul
  rw [scanSign_digits]
  dsimp only
  rw [scanDigits_append (fun _ => isDigit_toDigits) hs]
  dsimp only
  rw [if_neg Nat.toDigits_ne_nil, Nat.ofDigitChars_ten_toDigits, if_neg (by omega)]
  simp

theorem itoa_natCast (n : ℕ) : itoa n = Nat.toDigits 10 n := by
  simp [itoa]

/-- A printed `int` is read back, whatever follows the number. -/
theorem atoi_itoa {x : ℤ} {s : CStr} (hx : IsInt x) (hs : NoDigit s) : atoi (itoa x ++ s) = x := by
  have hb := hx
  unfold IsInt intMin intMax at hb
  unfold atoi itoa
  split_ifs with hneg
  · have hsign : scanSign ('-' :: Nat.toDigits 10 x.natAbs ++ s) =
        (true, Nat.toDigits 10 x.natAbs ++ s) := by
      rw [scanSign, List.cons_append, List.dropWhile_cons_of_neg (by decide)]
      rfl
    rw [hsign]
    dsimp only
    rw [scanDigits_append (fun _ => isDigit_toDigits) hs, Nat.ofDigitChars_ten_toDigits, if_pos rfl,
      max_eq_left (by omega)]
    rw [show -(x.natAbs : ℤ) = x by omega, toInt_of_isInt hx]
  · rw [scanSign_digits]
    dsimp only
    rw [scanDigits_append (fun _ => isDigit_toDigits) hs, Nat.ofDigitChars_ten_toDigits,
      if_neg (by simp), min_eq_left (by omega)]
    rw [show (x.natAbs : ℤ) = x by omega, toInt_of_isInt hx]

end MultipathTools

/-! Hexadecimal numbers in C strings. -/
namespace MultipathTools

/-- The value of a hexadecimal digit. -/
def hexValue (c : Char) : ℕ :=
  if c.toNat < 58 then c.toNat - 48 else if c.toNat < 71 then c.toNat - 55 else c.toNat - 87

/-- The number that hexadecimal digits stand for. -/
def ofHex (s : CStr) : ℕ := s.foldl (fun v c => 16 * v + hexValue c) 0

/-- The last digits of a number, as `%0*x` prints them. -/
def toHex : ℕ → ℕ → CStr
  | 0, _ => []
  | w + 1, n => toHex w (n / 16) ++ [Nat.digitChar (n % 16)]

def isxdigit (c : Char) : Bool := c ∈ "0123456789aAbBcCdDeEfF".toList

@[simp] theorem length_toHex (w n : ℕ) : (toHex w n).length = w := by
  induction w generalizing n with
  | zero => rfl
  | succ w ih => simp [toHex, ih]

theorem hexValue_digitChar : ∀ d < 16, hexValue (Nat.digitChar d) = d := by decide

theorem isxdigit_digitChar : ∀ d < 16, isxdigit (Nat.digitChar d) = true := by decide

theorem isxdigit_toHex {w n : ℕ} : ∀ c ∈ toHex w n, isxdigit c = true := by
  induction w generalizing n with
  | zero => simp [toHex]
  | succ w ih =>
    intro c hc
    obtain hc | hc := List.mem_append.mp hc
    · exact ih c hc
    · rw [List.mem_singleton.mp hc]
      exact isxdigit_digitChar _ (Nat.mod_lt n (by decide))

theorem ofHex_append (s : CStr) (c : Char) : ofHex (s ++ [c]) = 16 * ofHex s + hexValue c := by
  simp [ofHex]

theorem ofHex_toHex (w n : ℕ) : ofHex (toHex w n) = n % 16 ^ w := by
  induction w generalizing n with
  | zero => simp [toHex, ofHex, Nat.mod_one]
  | succ w ih =>
    rw [toHex, ofHex_append, ih, hexValue_digitChar _ (Nat.mod_lt n (by decide)), Nat.pow_succ',
      Nat.mod_mul, Nat.add_comm]

/-- A property of the digits in a base holds of the digits of every number. -/
theorem forall_mem_toDigits {b : ℕ} (hb : 1 < b) {P : Char → Prop}
    (hP : ∀ d < b, P (Nat.digitChar d)) (n : ℕ) : ∀ c ∈ Nat.toDigits b n, P c := by
  induction n using Nat.strong_induction_on with
  | h n ih =>
    intro c hc
    rw [Nat.toDigits_eq_if hb] at hc
    split at hc
    · next hlt =>
      rw [List.mem_singleton.mp hc]
      exact hP n hlt
    · obtain hc | hc := List.mem_append.mp hc
      · exact ih _ (Nat.div_lt_self (by omega) hb) c hc
      · rw [List.mem_singleton.mp hc]
        exact hP _ (Nat.mod_lt n (by omega))

/-- A number that `%x` has printed. -/
theorem ofHex_toDigits (n : ℕ) : ofHex (Nat.toDigits 16 n) = n := by
  induction n using Nat.strong_induction_on with
  | h n ih =>
    rw [Nat.toDigits_eq_if (by decide)]
    split
    · next hlt =>
      show 16 * 0 + hexValue (Nat.digitChar n) = n
      rw [hexValue_digitChar n hlt, Nat.mul_zero, Nat.zero_add]
    · next hge =>
      rw [ofHex_append, ih _ (Nat.div_lt_self (by omega) (by decide)),
        hexValue_digitChar _ (Nat.mod_lt n (by decide)), Nat.div_add_mod]

end MultipathTools

/-! Numbers that `strtol` and the conversions `%d`, `%u` and `%o` of `sscanf` read from C strings. -/
namespace MultipathTools

def longMax : ℤ := 2 ^ 63 - 1
def longMin : ℤ := -2 ^ 63

/-- `strtol(s, &e, 10)`: the value, and `e`, which is `s` itself where no digit is found. -/
def strtol (s : CStr) : ℤ × CStr :=
  let (neg, t) := scanSign s
  let (ds, e) := scanDigits t
  let v : ℤ := Nat.ofDigitChars 10 ds 0
  if ds = [] then (0, s) else (if neg then max (-v) longMin else min v longMax, e)

/-- The conversion `%d` of `sscanf`; `none` if there is no number. -/
def sscanfInt (s : CStr) : Option ℤ :=
  if (scanDigits (scanSign s).2).1 = [] then none else some (toInt (strtol s).1)

/-- A digit in a base of at most ten. -/
def isDigitOf (b : ℕ) (c : Char) : Bool := 48 ≤ c.toNat ∧ c.toNat < 48 + b

/-- The conversions `%u` and `%o` of `sscanf`, by their base. -/
def sscanfUint (b : ℕ) (s : CStr) : Option (BitVec 32) :=
  let (neg, t) := scanSign s
  let ds := t.takeWhile (isDigitOf b)
  let v := Nat.ofDigitChars b ds 0
  if ds = [] then none
  else some (BitVec.ofNat 32
    (if ulongMax < v then ulongMax else if neg then (2 ^ 64 - v) % 2 ^ 64 else v))

/-- The conversions `%u` and `%o` of `printf`. -/
def utoa (b : ℕ) (v : BitVec 32) : CStr := Nat.toDigits b v.toNat

theorem length_toDigits_le {n : ℕ} (h : n < 2 ^ 32) : (Nat.toDigits 10 n).length ≤ 10 :=
  (Nat.length_toDigits_le_iff (by decide) (by decide)).2 (h.trans (by decide))

theorem length_itoa_le {x : ℤ} (h : IsInt x) : (itoa x).length ≤ 11 := by
  obtain ⟨hlow, hhigh⟩ : -2 ^ 31 ≤ x ∧ x ≤ 2 ^ 31 - 1 := h
  have hlen := @length_toDigits_le x.natAbs (by omega)
  unfold itoa
  split_ifs
  · rw [List.length_cons]
    omega
  · omega

theorem noDigit_nil : NoDigit [] := fun _ hc => by cases hc

theorem scanSign_neg (s : CStr) : scanSign ('-' :: s) = (true, s) := by
  unfold scanSign
  rw [List.dropWhile_cons_of_neg (by decide)]
  rfl

/-- A printed `int` is a sign and digits. -/
theorem scan_itoa (x : ℤ) : ∃ neg, scanSign (itoa x) = (neg, Nat.toDigits 10 x.natAbs) ∧
    (neg = true ↔ x < 0) := by
  unfold itoa
  split
  · rename_i hneg
    exact ⟨true, scanSign_neg _, iff_of_true rfl hneg⟩
  · rename_i hpos
    have hsign := scanSign_digits (n := x.natAbs) []
    rw [List.append_nil] at hsign
    exact ⟨false, hsign, iff_of_false (by decide) hpos⟩

theorem scanDigits_toDigits (n : ℕ) : scanDigits (Nat.toDigits 10 n) = (Nat.toDigits 10 n, []) := by
  have hscan : scanDigits (Nat.toDigits 10 n ++ []) = _ :=
    scanDigits_append (fun _ => isDigit_toDigits) noDigit_nil
  rwa [List.append_nil] at hscan

theorem strtol_itoa {x : ℤ} (hx : IsInt x) : strtol (itoa x) = (x, []) := by
  obtain ⟨neg, hsign, hneg⟩ := scan_itoa x
  obtain ⟨hlow, hhigh⟩ : -2 ^ 31 ≤ x ∧ x ≤ 2 ^ 31 - 1 := hx
  unfold strtol
  rw [hsign]
  dsimp only
  rw [scanDigits_toDigits]
  dsimp only
  rw [if_neg Nat.toDigits_ne_nil, Nat.ofDigitChars_ten_toDigits]
  unfold longMin longMax
  cases neg with
  | true =>
    have hlt := hneg.mp rfl
    rw [if_pos rfl, max_eq_left (by omega), show -(x.natAbs : ℤ) = x by omega]
  | false =>
    have hge : ¬ x < 0 := fun h => by cases hneg.mpr h
    rw [if_neg (by decide), min_eq_left (by omega), show (x.natAbs : ℤ) = x by omega]

theorem sscanfInt_itoa {x : ℤ} (hx : IsInt x) : sscanfInt (itoa x) = some x := by
  obtain ⟨neg, hsign, -⟩ := scan_itoa x
  unfold sscanfInt
  rw [hsign, scanDigits_toDigits, if_neg Nat.toDigits_ne_nil, strtol_itoa hx, toInt_of_isInt hx]

theorem isInt_of_sscanfInt {s : CStr} {x : ℤ} (h : sscanfInt s = some x) : IsInt x := by
  unfold sscanfInt at h
  split at h
  · cases h
  · cases h
    exact toInt_isInt _

theorem isInt_atoi (s : CStr) : IsInt (atoi s) := toInt_isInt _

theorem toNat_digitChar : ∀ d < 10, (Nat.digitChar d).toNat = 48 + d := by decide

theorem isDigitOf_toDigits {b n : ℕ} (hb : 1 < b) (hten : b ≤ 10) :
    ∀ c ∈ Nat.toDigits b n, isDigitOf b c = true := by
  apply forall_mem_toDigits (P := fun c => isDigitOf b c = true) hb
  intro d hd
  unfold isDigitOf
  rw [toNat_digitChar d (by omega)]
  simpa using hd

theorem isDigitOf_mono {a b : ℕ} (hab : a ≤ b) {c : Char} (h : isDigitOf a c = true) :
    isDigitOf b c = true := by
  unfold isDigitOf at h ⊢
  simp only [decide_eq_true_eq] at h ⊢
  omega

theorem isspace_of_isDigitOf {b : ℕ} (hten : b ≤ 10) {c : Char} (h : isDigitOf b c = true) :
    isspace c = false := by
  apply isspace_of_isDigit
  have hdigit := isDigitOf_mono hten h
  simpa [isDigitOf, Char.isDigit, UInt32.le_iff_toNat_le, Nat.lt_succ_iff] using hdigit

/-- Digits are read without a sign. -/
theorem scanSign_isDigitOf {b : ℕ} (hten : b ≤ 10) {s : CStr} (h : ∀ c ∈ s, isDigitOf b c = true) :
    scanSign s = (false, s) := by
  cases s with
  | nil => rfl
  | cons c s =>
    have hc := h c List.mem_cons_self
    unfold scanSign
    rw [List.dropWhile_cons_of_neg (by simp [isspace_of_isDigitOf hten hc])]
    split
    · next heq =>
      cases heq
      simp [isDigitOf] at hc
    · next heq =>
      cases heq
      simp [isDigitOf] at hc
    · rfl

/-- Digits that stand for a number below `2 ^ 32` are read as this number. -/
theorem sscanfUint_digits {b : ℕ} (hten : b ≤ 10) {s : CStr} (hne : s ≠ [])
    (h : ∀ c ∈ s, isDigitOf b c = true) {v : BitVec 32} (hv : Nat.ofDigitChars b s 0 = v.toNat) :
    sscanfUint b s = some v := by
  have hlt := v.isLt
  unfold sscanfUint
  rw [scanSign_isDigitOf hten h]
  dsimp only
  rw [List.takeWhile_eq_self_iff.mpr h, if_neg hne, hv, if_neg (by unfold ulongMax; omega),
    if_neg (by decide), BitVec.ofNat_toNat, BitVec.setWidth_eq]

theorem sscanfUint_utoa (v : BitVec 32) : sscanfUint 10 (utoa 10 v) = some v :=
  sscanfUint_digits le_rfl Nat.toDigits_ne_nil (isDigitOf_toDigits (by decide) le_rfl)
    Nat.ofDigitChars_ten_toDigits

theorem forall_mem_octal (v : BitVec 32) : ∀ c ∈ '0' :: utoa 8 v, isDigitOf 8 c = true :=
  List.forall_mem_cons.mpr ⟨by decide, isDigitOf_toDigits (by decide) (by decide)⟩

/-- An octal number with a leading zero is read back in base 8. -/
theorem sscanfUint_octal (v : BitVec 32) : sscanfUint 8 ('0' :: utoa 8 v) = some v := by
  apply sscanfUint_digits (by decide) (List.cons_ne_nil _ _) (forall_mem_octal v)
  rw [Nat.ofDigitChars_cons, utoa]
  exact Nat.ofDigitChars_toDigits (by decide) (by decide)

/-- In base 10 it is read back if it has a single digit. -/
theorem sscanfUint_octal_ten {v : BitVec 32} (hv : v.toNat < 8) :
    sscanfUint 10 ('0' :: utoa 8 v) = some v := by
  apply sscanfUint_digits le_rfl (List.cons_ne_nil _ _)
    fun c hc => isDigitOf_mono (by decide) (forall_mem_octal v c hc)
  rw [Nat.ofDigitChars_cons, utoa, Nat.toDigits_of_lt_base hv,
    Nat.ofDigitChars_cons_digitChar_of_lt_ten (by omega)]
  simp

end MultipathTools
