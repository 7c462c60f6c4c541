import MultipathTools.Dict.IntRoundTrip
import MultipathTools.Dict.Options

/-! The other options are read back as they are printed. -/
namespace MultipathTools.Dict
open MultipathTools.Parser

section Uint
variable {strvec : List Token} {v : BitVec 32} {text : CStr}

theorem isBareWord_utoa (v : BitVec 32) : IsBareWord (utoa 10 v) :=
  isBareWord_toDigits (by decide) le_rfl v.toNat

theorem setUint_utoa {strvec : List Token} (v : BitVec 32) (h : setValue strvec = .ok (utoa 10 v)) :
    setUint strvec = .stores v := by
  have hlt := v.isLt
  obtain ⟨c, ds, hc⟩ := List.exists_cons_of_ne_nil (isBareWord_utoa v).1
  have hdigit : c.isDigit = true := isDigit_toDigits (n := v.toNat) (by rw [← utoa, hc]; simp)
  have hskip : (utoa 10 v).dropWhile isspace = utoa 10 v := by
    rw [hc, List.dropWhile_cons_of_neg (by simp [isspace_of_isDigit hdigit])]
  have hread := strtoul_toDigits (n := v.toNat) (by unfold ulongMax; omega) noDigit_nil
  rw [List.append_nil] at hread
  have hfirst : (utoa 10 v).head?.any Char.isDigit = true := by rw [hc]; exact hdigit
  rw [setUint, withValue_ok h]
  dsimp only
  rw [hskip, show strtoul (utoa 10 v) = (v.toNat, []) from hread]
  dsimp only
  rw [List.dropWhile_nil, ite_self, if_neg, BitVec.ofNat_toNat, BitVec.setWidth_eq]
  intro hbad
  obtain hbad | hbad | hbad | hbad := hbad
  · exact (isBareWord_utoa v).1 hbad
  · exact hbad rfl
  · exact hbad hfirst
  · omega

/-- A handler that fails stores nothing. -/
theorem setUint_failed (h : (setUint strvec).rc ≠ 0) : (setUint strvec).stored = none := by
  unfold setUint withValue at h ⊢
  split
  · rfl
  · next buff hs =>
    rw [hs] at h
    dsimp only at h ⊢
    generalize (if (strtoul (buff.dropWhile isspace)).2.length < buff.length then
      (strtoul (buff.dropWhile isspace)).2.dropWhile isspace
      else (strtoul (buff.dropWhile isspace)).2) = eptr at h ⊢
    split
    · rfl
    · next hok =>
      rw [if_neg hok] at h
      exact absurd rfl h

theorem checkintHandler_stored (h : (checkintHandler strvec).stored = some v) :
    v ≠ checkintUndef := by
  unfold checkintHandler at h
  dsimp only at h
  split at h
  · next hrc =>
    rw [setUint_failed hrc] at h
    cases h
  · obtain ⟨w, -, rfl⟩ := Option.map_eq_some_iff.mp h
    split
    · next hw =>
      rw [hw]
      decide
    · assumption

theorem uxsockTimeoutHandler_stored (h : (uxsockTimeoutHandler strvec).stored = some v) :
    defaultReplyTimeout ≤ v := by
  obtain ⟨s, hs⟩ := exists_of_stored h
  split at hs
  · split at hs
    · next hlt =>
      cases hs
      exact BitVec.le_of_lt hlt
    · cases hs
      exact BitVec.le_refl _
  · cases hs
    exact BitVec.le_refl _

/-- The values that a handler can store. -/
def UintKind.Valid : UintKind → BitVec 32 → Prop
  | .checkint, v => v ≠ checkintUndef
  | .uxsockTimeout, v => defaultReplyTimeout ≤ v
  | _, _ => True

theorem UintKind.valid_of_stored {kind : UintKind} (h : (kind.handler strvec).stored = some v) :
    kind.Valid v := by
  cases kind with
  | checkint => exact checkintHandler_stored h
  | uxsockTimeout => exact uxsockTimeoutHandler_stored h
  | uint => trivial
  | devLoss => trivial

theorem utoa_ne_infinity (v : BitVec 32) : utoa 10 v ≠ "infinity".toList := by
  intro h
  have hdigit : ∀ c ∈ utoa 10 v, c.isDigit = true := fun _ => isDigit_toDigits
  rw [h] at hdigit
  have hno := hdigit 'i' (by decide)
  revert hno
  decide

theorem setDevLoss_readsAs (h : printDevLoss v = some text) : ReadsAs setDevLoss text v := by
  unfold printDevLoss at h
  split_ifs at h with hunset hmax <;> cases h
  · have hv : v = maxDevLossTmo := by
      have hle : (BitVec.allOnes 32).toNat ≤ v.toNat := hmax
      have hlt := v.isLt
      rw [BitVec.toNat_allOnes] at hle
      rw [maxDevLossTmo, ← BitVec.toNat_inj, BitVec.toNat_allOnes]
      omega
    rw [hv]
    exact readsAs_inQuotes (by decide) (by decide)
  · apply readsAs_bare (isBareWord_utoa v)
    rw [if_neg (utoa_ne_infinity v), sscanfUint_utoa]
    rfl

theorem UintKind.readsAs {kind : UintKind} (hv : kind.Valid v) (h : kind.print v = some text) :
    ReadsAs kind.handler text v := by
  cases kind with
  | checkint =>
    cases h
    apply readsAs_of (.bare (isBareWord_utoa v))
    intro strvec hs
    show checkintHandler strvec = _
    rw [checkintHandler, setUint_utoa v hs]
    show Handled.mk (some (if v = checkintUndef then v - 1 else v)) 0 [] = _
    rw [if_neg hv]
    rfl
  | uint =>
    cases h
    exact readsAs_of (.bare (isBareWord_utoa v)) fun strvec hs => setUint_utoa v hs
  | devLoss => exact setDevLoss_readsAs h
  | uxsockTimeout =>
    cases h
    apply readsAs_bare (isBareWord_utoa v)
    rw [sscanfUint_utoa]
    dsimp only
    split
    · rfl
    · next hle =>
      have heq : v = defaultReplyTimeout := BitVec.le_antisymm (BitVec.not_lt.mp hle) hv
      rw [heq]

end Uint

section Strings

theorem setStr_quoted (s : CStr) : ReadsAs setStr (quoted s) (some s) := by
  apply readsAs_of (.quoted s)
  intro strvec h
  rw [setStr, h]

theorem partitionDelimHandler_stored {strvec : List Token} {v : Option CStr}
    (h : (partitionDelimHandler strvec).stored = some v) : v ≠ some unsetPartitionDelim := by
  unfold partitionDelimHandler at h
  dsimp only at h
  split at h
  · next hrc =>
    unfold setStr at h hrc
    split at h
    · cases h
      exact nofun
    · next hs =>
      rw [hs] at hrc
      exact absurd rfl hrc
  · split at h
    · cases h
      exact nofun
    · next hne =>
      rw [h] at hne
      exact fun heq => hne (congrArg some heq)

theorem partitionDelimHandler_quoted {s : CStr} (hs : s ≠ unsetPartitionDelim) :
    ReadsAs partitionDelimHandler (quoted s) (some s) := by
  apply readsAs_of (.quoted s)
  intro strvec h
  have hstr : setStr strvec = .stores (some s) := by rw [setStr, h]
  rw [partitionDelimHandler, hstr]
  show (if (some (some s) : Option (Option CStr)) = some (some unsetPartitionDelim) then _ else _) = _
  rw [if_neg (by simpa using hs)]

end Strings

section UidAttrs

theorem uidAttrRecord_colon (record : CStr) : ∀ attr ∈ (uidAttrRecord record).1, ':' ∈ attr := by
  unfold uidAttrRecord
  split
  · next h =>
    intro attr hattr
    rw [List.mem_singleton.mp hattr]
    exact h
  · simp

theorem parseUidAttrs_colon (uidAttrs : CStr) : ∀ attr ∈ (parseUidAttrs uidAttrs).1, ':' ∈ attr := by
  fun_induction parseUidAttrs uidAttrs with
  | case1 => simp
  | case2 record => exact uidAttrRecord_colon record
  | case3 _ record p _ r _ rest ih =>
    intro attr hattr
    obtain hattr | hattr := List.mem_append.mp hattr
    · exact uidAttrRecord_colon record attr hattr
    · exact ih attr hattr

theorem getWord_bare {w : CStr} (hw : IsBareWord w) : Dmparser.getWord w = (some w, w) := by
  have hspace : ∀ c ∈ w, isspace c = false ∧ c ≠ ' ' := by
    intro c hc
    have hblank := (isWordChar_iff.mp (hw.2 c hc)).1
    have hno : isspace c = false := by
      rw [isBlank, Bool.or_eq_false_iff] at hblank
      exact hblank.1
    refine ⟨hno, fun h => ?_⟩
    rw [h] at hno
    cases hno
  have hskip : (w.dropWhile fun c => decide (c = ' ')) = w := by
    obtain ⟨c, s, rfl⟩ := List.exists_cons_of_ne_nil hw.1
    exact List.dropWhile_cons_of_neg (by simpa using (hspace c List.mem_cons_self).2)
  have htake : (w.takeWhile fun c => decide (c ≠ ' ')) = w :=
    List.takeWhile_eq_self_iff.mpr fun c hc => by simpa using (hspace c hc).2
  have hdrop : (w.dropWhile fun c => decide (c ≠ ' ')) = [] :=
    List.dropWhile_eq_nil_iff.mpr fun c hc => by simpa using (hspace c hc).2
  have hchop : Dmparser.strchop w = w := by
    apply List.rdropWhile_eq_self_iff.mpr
    intro hne
    simp [(hspace _ (List.getLast_mem hne)).1]
  unfold Dmparser.getWord
  rw [hskip]
  dsimp only
  rw [if_neg hw.1, htake, hdrop, if_pos rfl, hchop]

/-- A single record without special characters is read back. -/
theorem uidAttrsHandler_bare {w : CStr} (hw : IsBareWord w) (hcolon : ':' ∈ w) :
    ReadsAs uidAttrsHandler w [w] := by
  apply readsAs_of (.bare hw)
  intro strvec h
  have hparse : parseUidAttrs w = ([w], []) := by
    rw [parseUidAttrs]
    split
    · next heq => cases (getWord_bare hw).symm.trans heq
    · next heq =>
      cases (getWord_bare hw).symm.trans heq
      dsimp only
      rw [dif_pos rfl, uidAttrRecord, if_pos hcolon]
  rw [uidAttrsHandler, h]
  dsimp only
  rw [hparse]
  rfl

end UidAttrs

section Attributes

theorem isBareWord_octal (v : BitVec 32) : IsBareWord ('0' :: utoa 8 v) :=
  isBareWord_cons (by decide) (isBareWord_toDigits (by decide) (by decide) v.toNat)

theorem setMode_stored {strvec : List Token} {v : Option (BitVec 32)}
    (h : (setMode strvec).stored = some v) : ∀ mode ∈ v, mode ≤ 0o777 := by
  obtain ⟨s, hs⟩ := exists_of_stored h
  split at hs
  · split at hs
    · next hle =>
      cases hs
      intro mode hmode
      cases hmode
      exact hle
    · cases hs
  · cases hs

theorem setMode_octal {v : BitVec 32} (hv : v ≤ 0o777) :
    ReadsAs setMode ('0' :: utoa 8 v) (some v) := by
  apply readsAs_bare (isBareWord_octal v)
  rw [sscanfUint_octal]
  exact if_pos hv

/-- The octal number is read as a decimal one, unless it is the name of a user. -/
theorem setUid_octal (env : Env) {v : BitVec 32}
    (hno : env.getpwnam ('0' :: utoa 8 v) = none → v.toNat < 8)
    (hname : ∀ info ∈ env.getpwnam ('0' :: utoa 8 v), info.1 = v) :
    ReadsAs (setUid env) ('0' :: utoa 8 v) (some v) := by
  apply readsAs_bare (isBareWord_octal v)
  cases h : env.getpwnam ('0' :: utoa 8 v) with
  | none =>
    rw [sscanfUint_octal_ten (hno h)]
  | some info =>
    dsimp only
    rw [hname info h]

theorem setGid_octal (env : Env) {v : BitVec 32}
    (hno : env.getpwnam ('0' :: utoa 8 v) = none → v.toNat < 8)
    (hname : ∀ info ∈ env.getpwnam ('0' :: utoa 8 v), info.2 = v) :
    ReadsAs (setGid env) ('0' :: utoa 8 v) (some v) := by
  apply readsAs_bare (isBareWord_octal v)
  cases h : env.getpwnam ('0' :: utoa 8 v) with
  | none =>
    rw [sscanfUint_octal_ten (hno h)]
  | some info =>
    dsimp only
    rw [hname info h]

end Attributes

section MaxFds
variable {env : Env} {v : ℤ}

theorem maxFdsHandler_stored {strvec : List Token} {maxFds : {n : ℤ // IsInt n}}
    (henv : env.sysMaxFds = some maxFds) (h : (maxFdsHandler env strvec).stored = some v) :
    IsInt v ∧ v ≤ maxFds.1 := by
  obtain ⟨s, hs⟩ := exists_of_stored h
  have hmax := maxFds.2
  have hatoi := isInt_atoi s
  simp only [henv, Option.map_some, Option.getD_some, Option.some.injEq] at hs
  split_ifs at hs <;> constructor <;> first | (rw [← hs]; assumption) | omega

theorem maxFdsHandler_readsAs {maxFds : {n : ℤ // IsInt n}} {text : CStr}
    (henv : env.sysMaxFds = some maxFds) (hv : IsInt v) (hle : v ≤ maxFds.1)
    (h : printMaxFds env v = some text) : ReadsAs (maxFdsHandler env) text v := by
  have hread : ∀ strvec s, setValue strvec = .ok s →
      (if s = "max".toList then maxFds.1 else atoi s) = v →
      maxFdsHandler env strvec = .stores v := by
    intro strvec s hs hval
    rw [maxFdsHandler, withValue_ok hs]
    simp only [henv, Option.map_some, Option.getD_some, hval]
    rw [if_neg (not_lt.mpr hle), if_neg (Option.some_ne_none _)]
    rfl
  unfold printMaxFds at h
  rw [henv] at h
  dsimp only at h
  split_ifs at h with hzero hmax <;> cases h
  · rw [← quoted_eq_inQuotes (by decide)]
    apply readsAs_of (.quoted _)
    intro strvec hs
    exact hread strvec _ hs (by rw [if_pos rfl]; omega)
  · apply readsAs_of (.bare (isBareWord_itoa v))
    intro strvec hs
    exact hread strvec _ hs (by rw [if_neg (itoa_ne_word (by decide)), atoi_itoa_eq hv])

end MaxFds

section ReservationKey

/-- The keys that `reservation_key` can set. -/
def ReservationKey.Valid (v : ReservationKey) : Prop :=
  match v.source with
  | .none => False
  | .file => v = { source := .file }
  | .conf => v.flags = 0 ∨ v.flags = Prkey.aptplMask

theorem setReservationKey_stored {strvec : List Token} {v : ReservationKey}
    (h : (setReservationKey strvec).stored = some v) : v.Valid := by
  obtain ⟨s, hs⟩ := exists_of_stored h
  split at hs
  · cases hs
    rfl
  · split at hs
    · cases hs
    · next prkey saFlags hparse =>
      cases hs
      obtain ⟨key, -, hkey⟩ := Option.map_eq_some_iff.mp hparse
      cases hkey
      show (if _ then _ else _) = (0 : BitVec 8) ∨ (if _ then _ else _) = Prkey.aptplMask
      split
      · exact .inr rfl
      · exact .inl rfl

theorem toDigits_hex (key : BitVec 64) : Nat.toDigits 16 key.toNat ≠ [] ∧
    (Nat.toDigits 16 key.toNat).length ≤ 16 ∧
    ∀ c ∈ Nat.toDigits 16 key.toNat, isxdigit c = true ∧ isWordChar c = true ∧ c ≠ ':' := by
  refine ⟨Nat.toDigits_ne_nil, ?_, ?_⟩
  · rw [Nat.length_toDigits_le_iff (by decide) (by decide)]
    exact key.isLt
  · apply forall_mem_toDigits (P := fun c => isxdigit c = true ∧ isWordChar c = true ∧ c ≠ ':')
      (by decide)
    decide

theorem parsePrkey_hex (key : BitVec 64) :
    Prkey.parsePrkey ('0' :: 'x' :: Nat.toDigits 16 key.toNat) = some key := by
  obtain ⟨hne, hlen, hchars⟩ := toDigits_hex key
  have htake : (Nat.toDigits 16 key.toNat).takeWhile isxdigit = Nat.toDigits 16 key.toNat :=
    List.takeWhile_eq_self_iff.mpr fun c hc => (hchars c hc).1
  unfold Prkey.parsePrkey
  simp only [List.head?_cons, List.tail_cons, if_true, true_or, htake]
  rw [if_neg (not_or.mpr ⟨hne, not_lt.mpr hlen⟩), if_neg (not_not.mpr rfl), ofHex_toDigits,
    BitVec.ofNat_toNat, BitVec.setWidth_eq]

theorem parsePrkeyFlags_hex (key : BitVec 64) {flagstr : CStr}
    (hflag : flagstr = [] ∨ flagstr = ":aptpl".toList) :
    parsePrkeyFlags ('0' :: 'x' :: (Nat.toDigits 16 key.toNat ++ flagstr)) =
      some (key, if flagstr = [] then 0 else Prkey.aptplMask) := by
  obtain ⟨-, -, hchars⟩ := toDigits_hex key
  have hcolon : ∀ c ∈ '0' :: 'x' :: Nat.toDigits 16 key.toNat, decide (c ≠ ':') = true := by
    rw [List.forall_mem_cons, List.forall_mem_cons]
    exact ⟨by decide, by decide, fun c hc => by simpa using (hchars c hc).2.2⟩
  have hhead : flagstr.takeWhile (fun c => decide (c ≠ ':')) = [] ∧
      flagstr.dropWhile (fun c => decide (c ≠ ':')) = flagstr := by
    obtain rfl | rfl := hflag
    · exact ⟨rfl, rfl⟩
    · exact ⟨by decide, by decide⟩
  unfold parsePrkeyFlags
  rw [← List.cons_append, ← List.cons_append, List.takeWhile_append_of_pos hcolon,
    List.dropWhile_append_of_pos hcolon, hhead.1, hhead.2, List.append_nil]
  dsimp only
  rw [parsePrkey_hex, Option.map_some]
  obtain rfl | rfl := hflag
  · rw [if_neg (by decide), if_pos rfl]
  · rw [if_pos rfl, if_neg (by decide)]

theorem printReservationKey_conf (key : BitVec 64) (flags : BitVec 8) :
    printReservationKey ⟨.conf, key, flags⟩ = some ('0' :: 'x' :: (Nat.toDigits 16 key.toNat ++
      if flags &&& Prkey.aptplMask ≠ 0 then ":aptpl".toList else [])) := rfl

theorem setReservationKey_readsAs {v : ReservationKey} (hv : v.Valid) {text : CStr}
    (h : printReservationKey v = some text) : ReadsAs setReservationKey text v := by
  obtain ⟨source, key, flags⟩ := v
  cases source with
  | none => cases h
  | file =>
    cases h
    have hval : (⟨.file, key, flags⟩ : ReservationKey) = { source := .file } := hv
    rw [hval]
    exact readsAs_bare (by decide) (by decide)
  | conf =>
    obtain ⟨-, -, hchars⟩ := toDigits_hex key
    obtain ⟨flagstr, hflag, rfl, hflags⟩ : ∃ flagstr : CStr,
        (flagstr = [] ∨ flagstr = ":aptpl".toList) ∧
        '0' :: 'x' :: (Nat.toDigits 16 key.toNat ++ flagstr) = text ∧
        (if flagstr = [] then 0 else Prkey.aptplMask) = flags := by
      obtain hval | hval : flags = 0 ∨ flags = Prkey.aptplMask := hv
      · refine ⟨[], .inl rfl, ?_, hval.symm⟩
        rw [hval, printReservationKey_conf, if_neg (by decide)] at h
        exact Option.some.inj h
      · refine ⟨":aptpl".toList, .inr rfl, ?_, ?_⟩
        · rw [hval, printReservationKey_conf, if_pos (by decide)] at h
          exact Option.some.inj h
        · rw [if_neg (by decide), hval]
    apply readsAs_bare
    · refine ⟨List.cons_ne_nil _ _, ?_⟩
      rw [List.forall_mem_cons, List.forall_mem_cons]
      refine ⟨by decide, by decide, ?_⟩
      intro c hc
      obtain hc | hc := List.mem_append.mp hc
      · exact (hchars c hc).2.1
      · obtain rfl | rfl := hflag
        · cases hc
        · have hword : ∀ c ∈ ":aptpl".toList, isWordChar c = true := by decide
          exact hword c hc
    · have hfile : '0' :: 'x' :: (Nat.toDigits 16 key.toNat ++ flagstr) ≠ "file".toList := by
        intro heq
        have hhead : some '0' = "file".toList.head? := congrArg List.head? heq
        revert hhead
        decide
      rw [if_neg hfile, parsePrkeyFlags_hex key hflag]
      dsimp only
      rw [hflags]

end ReservationKey

section Blacklist

theorem bleHandler_stored {env : Env} {strvec : List Token} {ble : Blentry}
    (h : (bleHandler env strvec).stored = some ble) : storeBle env ble.str = .stores ble := by
  obtain ⟨s, hs⟩ := exists_of_stored h
  unfold storeBle at hs
  dsimp only at hs
  split at hs
  · next hcomp =>
    cases hs
    exact if_pos hcomp
  · cases hs

theorem bleHandler_inQuotes {env : Env} {ble : Blentry} (hquote : '"' ∉ ble.str)
    (h : storeBle env ble.str = .stores ble) : ReadsAs (bleHandler env) (inQuotes ble.str) ble :=
  readsAs_inQuotes hquote h

end Blacklist

end MultipathTools.Dict
