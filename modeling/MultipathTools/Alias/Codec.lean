import MultipathTools.Alias.Devname

/-! The other way round: an alias that `scan_devname` has a number for is the one that
`format_devname` makes of this number. -/
namespace MultipathTools.Alias

theorem letter_sub {c : Char} (h : 'a' ≤ c ∧ c ≤ 'z') : letter (c.toNat - 'a'.toNat) = c := by
  have hr := letter_range h
  unfold letter
  rw [Nat.add_sub_cancel' hr.1, Char.ofNat_toNat]

/-- The loop of `format_devname` finds the letters of their number, if they have room. -/
theorem formatLetters_value {room : ℕ} {u : CStr} (acc : CStr) (hne : u ≠ []) (hu : IsLetters u)
    (hroom : u.length ≤ room) :
    formatLetters room (lettersValue 0 u).toNat acc = some (u ++ acc) := by
  induction room generalizing u acc with
  | zero => exact absurd (List.length_eq_zero_iff.mp (Nat.le_zero.mp hroom)) hne
  | succ room ih =>
    obtain ⟨v, c, hvc⟩ := (List.eq_nil_or_concat u).resolve_left hne
    rw [List.concat_eq_append] at hvc
    subst hvc
    have hv : IsLetters v := fun d hd => hu d (List.mem_append_left _ hd)
    have hc : 'a' ≤ c ∧ c ≤ 'z' := hu c (by simp)
    have hr := letter_range hc
    have hpos := le_lettersValue (le_refl 0) hv
    have hid : (lettersValue 0 (v ++ [c])).toNat - 1 =
        26 * (lettersValue 0 v).toNat + (c.toNat - 'a'.toNat) := by
      rw [lettersValue_concat]
      omega
    unfold formatLetters
    dsimp only
    rw [hid, Nat.mul_add_mod, Nat.mod_eq_of_lt (by omega), letter_sub hc]
    cases v with
    | nil =>
      have hlt : c.toNat - 'a'.toNat < 26 := by omega
      rw [if_pos (by simpa using hlt)]
      rfl
    | cons d v =>
      have hbig : 1 ≤ lettersValue 0 (d :: v) := by
        have hd := letter_range (hv d List.mem_cons_self)
        have hle := le_lettersValue (n := 0 * 26 + (d.toNat - 'a'.toNat) + 1) (by omega)
          (fun e he => hv e (List.mem_cons_of_mem d he))
        rw [lettersValue_cons]
        omega
      rw [if_neg (by omega), Nat.mul_add_div (by omega), Nat.div_eq_of_lt (by omega), Nat.add_zero,
        ih _ (by simp) hv (by simpa using hroom), List.append_assoc, List.singleton_append]

/-- A positive result of the loop of `scan_devname` is the number of the letters up to the
first blank. -/
theorem scanLetters_pos {n : ℤ} {s : CStr} (h : 0 < scanLetters n s) :
    IsLetters (s.takeWhile (!isDelim ·)) ∧
      lettersValue n (s.takeWhile (!isDelim ·)) = scanLetters n s := by
  induction s generalizing n with
  | nil => simp [IsLetters, scanLetters]
  | cons c s ih =>
    by_cases hblank : c = ' ' ∨ c = '\t'
    · have hd : isDelim c = true := decide_eq_true hblank
      simp [IsLetters, scanLetters, hd, hblank]
    · have hd : isDelim c = false := decide_eq_false hblank
      by_cases hletter : c < 'a' ∨ 'z' < c
      · rw [scanLetters, if_neg hblank, if_pos hletter] at h
        omega
      · by_cases hfit : last26 < n ∨ (n = last26 ∧ intMax % 26 ≤ (c.toNat : ℤ) - 'a'.toNat)
        · rw [scanLetters, if_neg hblank, if_neg hletter, if_pos hfit] at h
          omega
        · have hstep : scanLetters n (c :: s) =
              scanLetters (n * 26 + ((c.toNat : ℤ) - 'a'.toNat) + 1) s := by
            rw [scanLetters, if_neg hblank, if_neg hletter, if_neg hfit]
          rw [hstep] at h ⊢
          obtain ⟨hlet, hval⟩ := ih h
          have hc : 'a' ≤ c ∧ c ≤ 'z' := by
            simpa only [not_or, Char.not_lt] using hletter
          simp only [List.takeWhile_cons, hd, Bool.not_false, if_true]
          constructor
          · exact List.forall_mem_cons.mpr ⟨hc, hlet⟩
          · exact hval

/-- What `scan_devname` has checked before it reads letters. -/
theorem scanDevname_pos {aliasName pre : CStr} (h : 0 < scanDevname aliasName (some pre)) :
    ∃ s, aliasName = pre ++ s ∧ s ≠ [] ∧ s.length ≤ 7 ∧
      scanDevname aliasName (some pre) = scanLetters 0 s := by
  unfold scanDevname at h ⊢
  dsimp only at h ⊢
  by_cases hpre : strncmpEq aliasName pre pre.length
  · rw [if_neg (not_not_intro hpre)] at h ⊢
    by_cases heq : aliasName.length = pre.length
    · rw [if_pos heq] at h
      omega
    · rw [if_neg heq] at h ⊢
      by_cases hlong : pre.length + 7 < aliasName.length
      · rw [if_pos hlong] at h
        omega
      · rw [if_neg hlong] at h ⊢
        have htake : aliasName.take pre.length = pre := by
          simpa [strncmpEq] using hpre
        have happ := List.take_append_drop pre.length aliasName
        rw [htake] at happ
        have hlen := congrArg List.length happ
        rw [List.length_append] at hlen
        refine ⟨aliasName.drop pre.length, happ.symm, ?_, by omega, rfl⟩
        intro hnil
        rw [hnil, List.length_nil] at hlen
        omega
  · rw [if_pos hpre] at h
    omega

theorem formatLetters_mono {room room' id : ℕ} {acc s : CStr} (hle : room ≤ room')
    (h : formatLetters room id acc = some s) : formatLetters room' id acc = some s := by
  induction room generalizing room' id acc with
  | zero => cases h
  | succ room ih =>
    obtain ⟨room', rfl⟩ := Nat.exists_eq_succ_of_ne_zero (by omega : room' ≠ 0)
    unfold formatLetters at h ⊢
    dsimp only at h ⊢
    split_ifs at h ⊢
    · exact h
    · exact ih (by omega) h

/-- `format_devname` makes the alias again, up to a blank after the prefix. -/
theorem formatDevname_scanDevname {aliasName pre name : CStr} {len : ℕ}
    (h : 0 < scanDevname aliasName (some pre))
    (hf : formatDevname (scanDevname aliasName (some pre)) len pre = some name) :
    ∃ s, aliasName = pre ++ s ∧ name = pre ++ s.takeWhile (!isDelim ·) := by
  obtain ⟨s, hs, -, h7, hscan⟩ := scanDevname_pos h
  refine ⟨s, hs, ?_⟩
  rw [hscan] at h hf
  obtain ⟨hlet, hval⟩ := scanLetters_pos h
  have hne : s.takeWhile (!isDelim ·) ≠ [] := by
    intro hnil
    rw [hnil, lettersValue_nil] at hval
    omega
  have htake := (List.takeWhile_prefix (!isDelim ·) (l := s)).length_le
  unfold formatDevname at hf
  split_ifs at hf
  obtain ⟨u, hu, rfl⟩ := Option.map_eq_some_iff.mp hf
  have hbig := formatLetters_mono (Nat.le_add_right _ 7) hu
  rw [← hval, formatLetters_value [] hne hlet (by omega), List.append_nil] at hbig
  rw [Option.some.inj hbig]

end MultipathTools.Alias

/-! Ids and names as inverse to each other, and the arithmetic of `scan_devname` in the type
`int`. -/
namespace MultipathTools.Alias

/-- A value that is computed in the type `int`; none if it overflows. -/
def inInt (x : ℤ) : Option ℤ := if IsInt x then some x else none

theorem inInt_eq {x : ℤ} (h : IsInt x) : inInt x = some x := if_pos h

/-- The loop of `scan_devname`, with every step of its arithmetic in the type `int`. -/
def scanLettersInt (n : ℤ) : CStr → Option ℤ
  | [] => some n
  | c :: s =>
    if c = ' ' ∨ c = '\t' then some n
    else if c < 'a' ∨ 'z' < c then some (-1)
    else
      (inInt (c.toNat - 'a'.toNat)).bind fun i =>
        if last26 < n ∨ (n = last26 ∧ intMax % 26 ≤ i) then some (-1)
        else (inInt (n * 26)).bind fun m => (inInt (m + i)).bind fun m => (inInt (m + 1)).bind
          fun m => scanLettersInt m s

/-- `scan_devname` with its arithmetic in the type `int`. -/
def scanDevnameInt (aliasName : CStr) : Option CStr → Option ℤ
  | none => some (-1)
  | some pre =>
    if ¬ strncmpEq aliasName pre pre.length then some (-1)
    else if aliasName.length = pre.length then some (-1)
    else if pre.length + 7 < aliasName.length then some (-1)
    else scanLettersInt 0 (aliasName.drop pre.length)

/-- The guard of the loop keeps every step in range. -/
theorem scanLettersInt_eq {n : ℤ} (hn : 0 ≤ n) (s : CStr) :
    scanLettersInt n s = some (scanLetters n s) := by
  induction s generalizing n with
  | nil => rfl
  | cons c s ih =>
    unfold scanLettersInt scanLetters
    by_cases hblank : c = ' ' ∨ c = '\t'
    · rw [if_pos hblank, if_pos hblank]
    · rw [if_neg hblank, if_neg hblank]
      by_cases hletter : c < 'a' ∨ 'z' < c
      · rw [if_pos hletter, if_pos hletter]
      · rw [if_neg hletter, if_neg hletter]
        have hr := letter_range (c := c) (by simpa only [not_or, Char.not_lt] using hletter)
        have hi : IsInt ((c.toNat : ℤ) - 'a'.toNat) := by
          unfold IsInt intMin intMax
          omega
        rw [inInt_eq hi, Option.bind_some]
        dsimp only
        split_ifs with hfit
        · rfl
        · have hm : IsInt (n * 26) ∧ IsInt (n * 26 + (c.toNat - 'a'.toNat)) ∧
              IsInt (n * 26 + (c.toNat - 'a'.toNat) + 1) := by
            unfold last26 intMax at hfit
            unfold IsInt intMin intMax
            norm_num at hfit ⊢
            omega
          rw [inInt_eq hm.1, Option.bind_some, inInt_eq hm.2.1, Option.bind_some,
            inInt_eq hm.2.2, Option.bind_some]
          exact ih (by omega)

theorem scanDevnameInt_eq (aliasName : CStr) (pre : Option CStr) :
    scanDevnameInt aliasName pre = some (scanDevname aliasName pre) := by
  cases pre with
  | none => rfl
  | some pre =>
    unfold scanDevnameInt scanDevname
    dsimp only
    split_ifs
    · rfl
    · rfl
    · exact scanLettersInt_eq le_rfl _
    · rfl

/-- The loop of `format_devname` ends, as it divides the id by 26 in every turn. -/
theorem exists_formatLetters {room id : ℕ} (hid : 0 < id) (hroom : id ≤ room) (acc : CStr) :
    ∃ s, formatLetters room id acc = some s := by
  induction room generalizing id acc with
  | zero => omega
  | succ room ih =>
    unfold formatLetters
    dsimp only
    split_ifs with hlt
    · exact ⟨_, rfl⟩
    · exact ih (by omega) (by omega) _

/-- Every positive id has letters that stand for it. -/
theorem exists_letters {id : ℤ} (hid : 0 < id) :
    ∃ u, u ≠ [] ∧ IsLetters u ∧ lettersValue 0 u = id := by
  obtain ⟨s, hs⟩ := @exists_formatLetters id.toNat id.toNat (by omega) le_rfl []
  obtain ⟨u, -, hne, hu, hval⟩ := formatLetters_spec (by omega) hs
  exact ⟨u, hne, hu, by omega⟩

/-- A buffer that has room for the prefix, the letters and the NUL is long enough. -/
theorem formatDevname_letters {u pre : CStr} {len : ℕ} (hne : u ≠ []) (hu : IsLetters u)
    (hlen : (pre ++ u).length < len) :
    formatDevname (lettersValue 0 u) len pre = some (pre ++ u) := by
  have hu0 := List.length_pos_iff.mpr hne
  rw [List.length_append] at hlen
  have hpos : 0 < lettersValue 0 u := by
    obtain ⟨c, v, rfl⟩ := List.exists_cons_of_ne_nil hne
    obtain ⟨hc, hv⟩ := List.forall_mem_cons.mp hu
    have hr := letter_range hc
    have hle := le_lettersValue (n := 0 * 26 + (c.toNat - 'a'.toNat) + 1) (by omega) hv
    rw [lettersValue_cons]
    omega
  rw [formatDevname, if_neg (by omega), formatLetters_value [] hne hu (by omega),
    List.append_nil, Option.map_some]

/-- The name of an id, and the id that is read back from it. -/
theorem exists_name {id : ℤ} (hid : 0 < id) (hmax : id ≤ intMax) (pre : CStr) :
    ∃ name, (∀ len, name.length < len → formatDevname id len pre = some name) ∧
      name.length ≤ pre.length + 7 ∧ scanDevname name (some pre) = id := by
  obtain ⟨u, hne, hu, rfl⟩ := exists_letters hid
  have hform : ∀ len, (pre ++ u).length < len →
      formatDevname (lettersValue 0 u) len pre = some (pre ++ u) :=
    fun _ hlen => formatDevname_letters hne hu hlen
  refine ⟨pre ++ u, hform, ?_, ?_⟩
  · have h7 := letters_length_le hu hmax
    rw [List.length_append]
    omega
  · exact (formatDevname_spec (hform _ (Nat.lt_succ_self _)) hmax).2.1

/-- An alias with a positive id is the name of this id, up to a blank after the prefix. -/
theorem scanDevname_name {aliasName pre : CStr} (h : 0 < scanDevname aliasName (some pre)) :
    ∃ s, aliasName = pre ++ s ∧ ∀ len, (pre ++ s.takeWhile (!isDelim ·)).length < len →
      formatDevname (scanDevname aliasName (some pre)) len pre =
        some (pre ++ s.takeWhile (!isDelim ·)) := by
  obtain ⟨s, hs, -, -, hscan⟩ := scanDevname_pos h
  rw [hscan] at h ⊢
  obtain ⟨hlet, hval⟩ := scanLetters_pos h
  have hne : s.takeWhile (!isDelim ·) ≠ [] := by
    intro hnil
    rw [hnil, lettersValue_nil] at hval
    omega
  refine ⟨s, hs, fun len hlen => ?_⟩
  rw [← hval]
  exact formatDevname_letters hne hlet hlen

/-- Ids and names are inverse to each other, and no alias makes the arithmetic overflow. -/
theorem devname_codec (pre : CStr) :
    (∀ id, 0 < id → id ≤ intMax → ∃ name,
      (∀ len, name.length < len → formatDevname id len pre = some name) ∧
        scanDevname name (some pre) = id) ∧
    (∀ aliasName, 0 < scanDevname aliasName (some pre) →
      ∃ s, aliasName = pre ++ s ∧ ∀ len, (pre ++ s.takeWhile (!isDelim ·)).length < len →
        formatDevname (scanDevname aliasName (some pre)) len pre =
          some (pre ++ s.takeWhile (!isDelim ·))) ∧
    ∀ aliasName, scanDevnameInt aliasName (some pre) = some (scanDevname aliasName (some pre)) := by
  refine ⟨fun id hid hmax => ?_, fun _ => scanDevname_name, fun a => scanDevnameInt_eq a (some pre)⟩
  obtain ⟨name, hname, -, hscan⟩ := exists_name hid hmax pre
  exact ⟨name, hname, hscan⟩

/-- The blank of the prefix `a b` comes before the letters. -/
theorem devname_codec_blank : ¬ ∀ (pre aliasName : CStr), 0 < scanDevname aliasName (some pre) →
    ∃ len, formatDevname (scanDevname aliasName (some pre)) len pre =
      some (aliasName.takeWhile (!isDelim ·)) := by
  intro h
  obtain ⟨len, hlen⟩ := h "a b".toList "a bc".toList (by decide)
  obtain ⟨u, -, hu⟩ := formatDevname_scanDevname (by decide) hlen
  have hshort : ("a bc".toList.takeWhile (!isDelim ·)).length = 1 := rfl
  rw [hu] at hshort
  simp at hshort

end MultipathTools.Alias
