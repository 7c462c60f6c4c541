import Mathlib.Algebra.Order.Ring.Int
import Mathlib.Tactic.GCongr
import Mathlib.Tactic.Ring
import MultipathTools.Base.Numeral
import MultipathTools.Base.Words

/-! The numbers of user friendly names (`alias.c`): `a` is 1, `z` is 26, `aa` is 27. -/
namespace MultipathTools.Alias

/-- `last_26`. -/
def last26 : ℤ := intMax / 26

def letter (i : ℕ) : Char := Char.ofNat ('a'.toNat + i)

/-- The loop of `format_devname`, with `room` positions left in front of the letters `acc`. -/
def formatLetters : ℕ → ℕ → CStr → Option CStr
  | 0, _, _ => none
  | room + 1, id, acc =>
    let id := id - 1
    let acc := letter (id % 26) :: acc
    if id < 26 then some acc else formatLetters room (id / 26) acc

/-- `format_devname` into a buffer of `len` bytes: the string in the buffer. -/
def formatDevname (id : ℤ) (len : ℕ) (pre : CStr) : Option CStr :=
  if len ≤ pre.length + 1 ∨ id ≤ 0 then none
  else (formatLetters (len - 1 - pre.length) id.toNat []).map (pre ++ ·)

/-- The loop of `scan_devname`. -/
def scanLetters (n : ℤ) : CStr → ℤ
  | [] => n
  | c :: s =>
    if c = ' ' ∨ c = '\t' then n
    else if c < 'a' ∨ 'z' < c then -1
    else
      let i : ℤ := c.toNat - 'a'.toNat
      if last26 < n ∨ (n = last26 ∧ intMax % 26 ≤ i) then -1
      else scanLetters (n * 26 + i + 1) s

/-- `scan_devname`: the number of an alias, `-1` if it is none with this prefix. -/
def scanDevname (aliasName : CStr) : Option CStr → ℤ
  | none => -1
  | some pre =>
    if ¬ strncmpEq aliasName pre pre.length then -1
    else if aliasName.length = pre.length then -1
    -- the id of "aaaaaaaa" overflows int
    else if pre.length + 7 < aliasName.length then -1
    else scanLetters 0 (aliasName.drop pre.length)

/-- The number that a text of letters stands for, after letters that stand for `n`. -/
def lettersValue (n : ℤ) (s : CStr) : ℤ :=
  s.foldl (fun n c => n * 26 + (c.toNat - 'a'.toNat) + 1) n

/-- The text has small letters only. -/
def IsLetters (s : CStr) : Prop := ∀ c ∈ s, 'a' ≤ c ∧ c ≤ 'z'

@[simp] theorem lettersValue_nil (n : ℤ) : lettersValue n [] = n := rfl

@[simp] theorem lettersValue_cons (n : ℤ) (c : Char) (s : CStr) :
    lettersValue n (c :: s) = lettersValue (n * 26 + (c.toNat - 'a'.toNat) + 1) s := rfl

@[simp] theorem lettersValue_concat (n : ℤ) (s : CStr) (c : Char) :
    lettersValue n (s ++ [c]) = lettersValue n s * 26 + (c.toNat - 'a'.toNat) + 1 := by
  simp [lettersValue]

theorem letter_spec :
    ∀ i < 26, 'a' ≤ letter i ∧ letter i ≤ 'z' ∧ (letter i).toNat = 'a'.toNat + i := by
  decide

theorem letter_range {c : Char} (h : 'a' ≤ c ∧ c ≤ 'z') :
    'a'.toNat ≤ c.toNat ∧ c.toNat ≤ 'a'.toNat + 25 :=
  ⟨h.1, h.2⟩

/-- The letters that the loop puts in front stand for the id. -/
theorem formatLetters_spec {room id : ℕ} {acc s : CStr} (hid : 0 < id)
    (h : formatLetters room id acc = some s) :
    ∃ u, s = u ++ acc ∧ u ≠ [] ∧ IsLetters u ∧ lettersValue 0 u = id := by
  induction room generalizing id acc with
  | zero => cases h
  | succ room ih =>
    obtain ⟨hl, hu, hv⟩ := letter_spec _ (Nat.mod_lt (id - 1) (by decide : 26 > 0))
    unfold formatLetters at h
    dsimp only at h
    split_ifs at h with hlt
    · obtain rfl := Option.some.inj h
      refine ⟨[letter ((id - 1) % 26)], rfl, by simp, by simpa [IsLetters] using ⟨hl, hu⟩, ?_⟩
      simp only [lettersValue_cons, lettersValue_nil, hv]
      omega
    · obtain ⟨u, rfl, hne, hlet, hval⟩ := ih (by omega) h
      refine ⟨u ++ [letter ((id - 1) % 26)], by simp, by simp, ?_, ?_⟩
      · exact List.forall_mem_append.mpr ⟨hlet, by simpa using ⟨hl, hu⟩⟩
      · rw [lettersValue_concat, hval, hv]
        omega

theorem lettersValue_pow {n : ℤ} {s : CStr} (hs : IsLetters s) :
    (25 * n + 1) * 26 ^ s.length ≤ 25 * lettersValue n s + 1 := by
  induction s generalizing n with
  | nil => simp
  | cons c s ih =>
    obtain ⟨hc, hs⟩ := List.forall_mem_cons.mp hs
    have hr := letter_range hc
    calc (25 * n + 1) * 26 ^ (s.length + 1)
        = (26 * (25 * n + 1)) * 26 ^ s.length := by ring
      _ ≤ (25 * (n * 26 + (c.toNat - 'a'.toNat) + 1) + 1) * 26 ^ s.length := by
          gcongr
          omega
      _ ≤ 25 * lettersValue n (c :: s) + 1 := ih hs

/-- An id of type `int` has at most seven letters. -/
theorem letters_length_le {s : CStr} (hs : IsLetters s) (hv : lettersValue 0 s ≤ intMax) :
    s.length ≤ 7 := by
  by_contra hlen
  have hpow := lettersValue_pow (n := 0) hs
  have hmono : (26 : ℤ) ^ 8 ≤ 26 ^ s.length := by
    gcongr
    · norm_num
    · omega
  unfold intMax at hv
  norm_num at hpow hmono hv
  omega

theorem le_lettersValue {n : ℤ} {s : CStr} (hn : 0 ≤ n) (hs : IsLetters s) :
    n ≤ lettersValue n s := by
  induction s generalizing n with
  | nil => exact le_rfl
  | cons c s ih =>
    obtain ⟨hc, hs⟩ := List.forall_mem_cons.mp hs
    have hr := letter_range hc
    have := ih (n := n * 26 + (c.toNat - 'a'.toNat) + 1) (by omega) hs
    simp only [lettersValue_cons]
    omega

/-- Without an overflow the loop of `scan_devname` computes the number of the letters. -/
theorem scanLetters_eq {n : ℤ} {s : CStr} (hn : 0 ≤ n) (hs : IsLetters s)
    (hv : lettersValue n s ≤ intMax) : scanLetters n s = lettersValue n s := by
  induction s generalizing n with
  | nil => rfl
  | cons c s ih =>
    obtain ⟨hc, hs⟩ := List.forall_mem_cons.mp hs
    have hr := letter_range hc
    have hle := le_lettersValue (n := n * 26 + (c.toNat - 'a'.toNat) + 1) (by omega) hs
    rw [lettersValue_cons] at hv ⊢
    have hblank : ¬ (c = ' ' ∨ c = '\t') := by
      rintro (rfl | rfl) <;> exact absurd hc.1 (by decide)
    have hletter : ¬ (c < 'a' ∨ 'z' < c) :=
      not_or_intro (Char.not_lt.mpr hc.1) (Char.not_lt.mpr hc.2)
    have hfit : ¬ (last26 < n ∨ (n = last26 ∧ intMax % 26 ≤ (c.toNat : ℤ) - 'a'.toNat)) := by
      unfold last26 intMax at *
      norm_num at *
      omega
    unfold scanLetters
    rw [if_neg hblank, if_neg hletter]
    dsimp only
    rw [if_neg hfit]
    exact ih (by omega) hs hv

theorem scanLetters_le {n : ℤ} (hn : n ≤ intMax) (s : CStr) : scanLetters n s ≤ intMax := by
  induction s generalizing n with
  | nil => exact hn
  | cons c s ih =>
    unfold scanLetters
    dsimp only
    split_ifs with hblank hletter hfit
    · exact hn
    · decide
    · decide
    · have hr := letter_range (c := c)
        (by simpa only [not_or, Char.not_lt] using hletter)
      apply ih
      unfold last26 intMax at *
      norm_num at *
      omega

/-- `scan_devname` stays in the range of `int`. -/
theorem scanDevname_le (aliasName : CStr) (pre : Option CStr) :
    scanDevname aliasName pre ≤ intMax := by
  unfold scanDevname
  split
  · decide
  · split_ifs <;> first | decide | exact scanLetters_le (by decide) _

/-- The name that `format_devname` makes is the prefix and letters, and `scan_devname`
reads the id back. -/
theorem formatDevname_spec {id : ℤ} {len : ℕ} {pre name : CStr}
    (h : formatDevname id len pre = some name) (hid : id ≤ intMax) :
    0 < id ∧ scanDevname name (some pre) = id ∧ ∃ u, name = pre ++ u ∧ u ≠ [] ∧ IsLetters u := by
  unfold formatDevname at h
  split_ifs at h with hlen
  obtain ⟨-, hpos⟩ := not_or.mp hlen
  obtain ⟨s, hs, rfl⟩ := Option.map_eq_some_iff.mp h
  obtain ⟨u, rfl, hne, hlet, hval⟩ := formatLetters_spec (by omega) hs
  rw [Int.toNat_of_nonneg (by omega)] at hval
  rw [List.append_nil]
  have hv : lettersValue 0 u ≤ intMax := hval ▸ hid
  have hu := List.length_pos_iff.mpr hne
  have h7 := letters_length_le hlet hv
  refine ⟨by omega, ?_, u, rfl, hne, hlet⟩
  unfold scanDevname
  dsimp only
  rw [if_neg (by simp [strncmpEq]), if_neg (by simp; omega), if_neg (by simp; omega),
    List.drop_left, scanLetters_eq le_rfl hlet hv, hval]

end MultipathTools.Alias
