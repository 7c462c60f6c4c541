import Mathlib.Tactic.IntervalCases
import MultipathTools.Dict.IntOptions

/-! The options of type `int` are read back as they are printed. -/
namespace MultipathTools.Dict
open MultipathTools.Parser

/-- The handler takes a printed value for `v`. -/
def ReadsAs {α : Type} (handler : List Token → Handled α) (text : CStr) (v : α) : Prop :=
  ∃ tokens s, Tokens text tokens s ∧ ∀ string, handler (.word string :: tokens) = .stores v

section Values
variable {α : Type} {f : CStr → Handled α} {v : α} {s text : CStr} {strvec : List Token}

theorem withValue_ok (h : setValue strvec = .ok s) : withValue strvec f = f s := by
  rw [withValue, h]

theorem exists_of_stored (h : (withValue strvec f).stored = some v) :
    ∃ s, (f s).stored = some v := by
  unfold withValue at h
  split at h
  · cases h
  · next s _ => exact ⟨s, h⟩

theorem readsAs_of {handler : List Token → Handled α} {tokens : List Token}
    (ht : Tokens text tokens s) (h : ∀ strvec, setValue strvec = .ok s → handler strvec = .stores v) :
    ReadsAs handler text v :=
  ⟨tokens, s, ht, fun _ => h _ (setValue_printed ht)⟩

theorem quoted_eq_inQuotes (h : '"' ∉ s) : quoted s = inQuotes s := by
  rw [quoted, inQuotes, doubleQuotes_of_not_mem h]

/-- A word between quotes. -/
theorem readsAs_inQuotes (hs : '"' ∉ s) (hf : f s = .stores v) :
    ReadsAs (fun strvec => withValue strvec f) (inQuotes s) v := by
  apply readsAs_of (s := s)
  · rw [← quoted_eq_inQuotes hs]
    exact .quoted s
  · intro strvec h
    rw [withValue_ok h, hf]

/-- A word without quotes. -/
theorem readsAs_bare (hs : IsBareWord s) (hf : f s = .stores v) :
    ReadsAs (fun strvec => withValue strvec f) s v := by
  apply readsAs_of (.bare hs)
  intro strvec h
  rw [withValue_ok h, hf]

end Values

theorem isWordChar_of_isDigitOf {b : ℕ} (hten : b ≤ 10) {c : Char} (h : isDigitOf b c = true) :
    isWordChar c = true := by
  have hspace := isspace_of_isDigitOf hten h
  have hc : 48 ≤ c.toNat ∧ c.toNat < 48 + b := by simpa [isDigitOf] using h
  have hne : ∀ d : Char, d.toNat < 48 ∨ 58 ≤ d.toNat → c ≠ d := by
    intro d hd heq
    rw [heq] at hc
    omega
  have hascii : isascii c = true := by
    simp only [isascii, decide_eq_true_eq]
    omega
  simp [isWordChar, isBlank, isComment, isBrace, hspace, hascii, hne '!' (by decide),
    hne '#' (by decide), hne '{' (by decide), hne '}' (by decide), hne '"' (by decide)]

theorem isBareWord_toDigits {b : ℕ} (hb : 1 < b) (hten : b ≤ 10) (n : ℕ) :
    IsBareWord (Nat.toDigits b n) :=
  ⟨Nat.toDigits_ne_nil, fun c hc => isWordChar_of_isDigitOf hten (isDigitOf_toDigits hb hten c hc)⟩

theorem isBareWord_cons {c : Char} {w : CStr} (hc : isWordChar c = true) (hw : IsBareWord w) :
    IsBareWord (c :: w) :=
  ⟨List.cons_ne_nil c w, List.forall_mem_cons.mpr ⟨hc, hw.2⟩⟩

theorem isBareWord_itoa (v : ℤ) : IsBareWord (itoa v) := by
  have hdigits := isBareWord_toDigits (b := 10) (by decide) le_rfl v.natAbs
  unfold itoa
  split
  · exact isBareWord_cons (by decide) hdigits
  · exact hdigits

/-- A number does not start like a word. -/
theorem itoa_ne_word {v : ℤ} {w : CStr}
    (hw : w.head?.all (fun c => !isDigitOf 10 c && c ≠ '-') = true) : itoa v ≠ w := by
  intro h
  obtain ⟨c, ds, hc⟩ := List.exists_cons_of_ne_nil (Nat.toDigits_ne_nil (n := v.natAbs) (b := 10))
  have hdigit := isDigitOf_toDigits (b := 10) (n := v.natAbs) (by decide) le_rfl c
    (by rw [hc]; exact List.mem_cons_self)
  unfold itoa at h
  split at h
  · rw [← h] at hw
    cases hw
  · rw [← h, hc, List.head?_cons, Option.all_some, hdigit] at hw
    cases hw

theorem atoi_itoa_eq {v : ℤ} (hv : IsInt v) : atoi (itoa v) = v := by
  have hread := atoi_itoa hv noDigit_nil
  rwa [List.append_nil] at hread

theorem itoa_ne {v w : ℤ} (hv : IsInt v) (hw : IsInt w) (hne : v ≠ w) : itoa v ≠ itoa w := by
  intro h
  apply hne
  rw [← atoi_itoa_eq hv, h, atoi_itoa_eq hw]

section Stored
variable {strvec : List Token} {v : ℤ}

theorem setInt_stored (h : (setInt strvec).stored = some v) : IsInt v := by
  obtain ⟨s, hs⟩ := exists_of_stored h
  dsimp only at hs
  generalize (if (strtol s).2.length < s.length then (strtol s).2.dropWhile isspace
    else (strtol s).2) = eptr at hs
  split at hs
  · cases hs
  · next hok =>
    cases hs
    push Not at hok
    exact ⟨hok.2.2.2, hok.2.2.1⟩

theorem setYesNo_stored (h : (setYesNo strvec).stored = some v) : 0 ≤ v ∧ v ≤ 1 := by
  obtain ⟨s, hs⟩ := exists_of_stored h
  split at hs <;> cases hs <;> decide

theorem setYesNoUndef_stored (h : (setYesNoUndef strvec).stored = some v) : 0 ≤ v ∧ v ≤ 2 := by
  obtain ⟨s, hs⟩ := exists_of_stored h
  split_ifs at hs <;> cases hs <;> decide

theorem findMultipathsHandler_stored (h : (findMultipathsHandler strvec).stored = some v) :
    1 ≤ v ∧ v ≤ 5 := by
  unfold findMultipathsHandler at h
  dsimp only at h
  split at h
  · next hset =>
    have hle := setYesNoUndef_stored h
    have hne : v ≠ 0 := by
      intro hv
      rw [hv] at h
      exact hset.2 h
    omega
  · obtain ⟨s, hs⟩ := exists_of_stored h
    split at hs
    · next opt hopt =>
      cases hs
      have hall : ∀ opt ∈ findMultipathsOptvals, 1 ≤ opt.1 ∧ opt.1 ≤ 5 := by
        simp [findMultipathsOptvals, ynuNo, ynuYes]
      exact hall opt (List.mem_of_find?_eq_some hopt)
    · cases hs
      decide

theorem setFastIoFail_stored (h : (setFastIoFail strvec).stored = some v) :
    -2 ≤ v ∧ v ≤ intMax := by
  obtain ⟨s, hs⟩ := exists_of_stored h
  split at hs
  · cases hs
    decide
  · split at hs
    · cases hs
      decide
    · next w hw =>
      have hint := isInt_of_sscanfInt hw
      split at hs
      · cases hs
        decide
      · next hlow =>
        split at hs
        · cases hs
          decide
        · cases hs
          exact ⟨not_lt.mp hlow, hint.2⟩

theorem getPgpolicyId_range (str : CStr) : 0 ≤ getPgpolicyId str ∧ getPgpolicyId str ≤ 5 := by
  have hall : ∀ policy ∈ pgpolicies, 0 ≤ policy.1 ∧ policy.1 ≤ 5 := by simp [pgpolicies]
  unfold getPgpolicyId
  cases hfind : pgpolicies.find? fun policy => strncmpEq str policy.2 policy.2.length with
  | none => decide
  | some policy => exact hall policy (List.mem_of_find?_eq_some hfind)

theorem setRrWeight_stored (h : (setRrWeight strvec).stored = some v) : 1 ≤ v ∧ v ≤ 2 := by
  obtain ⟨s, hs⟩ := exists_of_stored h
  split_ifs at hs <;> cases hs <;> decide

theorem setPgfailback_stored (h : (setPgfailback strvec).stored = some v) : IsInt v := by
  obtain ⟨s, hs⟩ := exists_of_stored h
  split_ifs at hs <;> cases hs
  · decide
  · decide
  · decide
  · exact isInt_atoi s

theorem atoiOrUndef_stored {s : CStr} (h : (atoiOrUndef s).stored = some v) :
    0 ≤ v ∧ v ≤ intMax := by
  unfold atoiOrUndef at h
  split at h
  · cases h
    decide
  · next hpos =>
    cases h
    exact ⟨by omega, (isInt_atoi s).2⟩

theorem noPathRetryHelper_stored (h : (noPathRetryHelper strvec).stored = some v) :
    -2 ≤ v ∧ v ≤ intMax := by
  obtain ⟨s, hs⟩ := exists_of_stored h
  split at hs
  · cases hs
    decide
  · split at hs
    · cases hs
      decide
    · have hrange := atoiOrUndef_stored hs
      exact ⟨by omega, hrange.2⟩

theorem setOffIntUndef_stored (h : (setOffIntUndef strvec).stored = some v) :
    -1 ≤ v ∧ v ≤ intMax := by
  obtain ⟨s, hs⟩ := exists_of_stored h
  split at hs
  · cases hs
    decide
  · have hrange := atoiOrUndef_stored hs
    exact ⟨by omega, hrange.2⟩

theorem logCheckerErrHandler_stored (h : (logCheckerErrHandler strvec).stored = some v) :
    0 ≤ v ∧ v ≤ 1 := by
  obtain ⟨s, hs⟩ := exists_of_stored h
  split_ifs at hs <;> cases hs <;> decide

theorem vpdVendorHandler_stored (h : (vpdVendorHandler strvec).stored = some v) :
    0 ≤ v ∧ v ≤ 1 := by
  obtain ⟨s, hs⟩ := exists_of_stored h
  cases hs
  have hall : ∀ page ∈ vpdVendorPages, 0 ≤ page.1 ∧ page.1 ≤ 1 := by simp [vpdVendorPages]
  cases hfind : vpdVendorPages.find? fun page => page.2 = s with
  | none => decide
  | some page => exact hall page (List.mem_of_find?_eq_some hfind)

theorem IntKind.valid_of_stored {kind : IntKind} (h : (kind.handler strvec).stored = some v) :
    kind.Valid v := by
  cases kind with
  | int => exact setInt_stored h
  | nonzero => exact setInt_stored h
  | yesNo => exact setYesNo_stored h
  | yesNoUndef => exact setYesNoUndef_stored h
  | queueWithoutDaemon => exact setYesNo_stored h
  | findMultipaths => exact findMultipathsHandler_stored h
  | fastIoFail => exact setFastIoFail_stored h
  | pgpolicy =>
    obtain ⟨s, hs⟩ := exists_of_stored h
    cases hs
    exact getPgpolicyId_range s
  | rrWeight => exact setRrWeight_stored h
  | pgfailback => exact setPgfailback_stored h
  | noPathRetry => exact noPathRetryHelper_stored h
  | offIntUndef => exact setOffIntUndef_stored h
  | logCheckerErr => exact logCheckerErrHandler_stored h
  | vpdVendor => exact vpdVendorHandler_stored h

end Stored

section ReadsAs
variable {v : ℤ} {text : CStr}

theorem setInt_itoa (hv : IsInt v) : ReadsAs setInt (itoa v) v := by
  apply readsAs_of (.bare (isBareWord_itoa v))
  intro strvec h
  have hread := strtol_itoa hv
  have hne := (isBareWord_itoa v).1
  obtain ⟨hlow, hhigh⟩ := hv
  rw [setInt, withValue_ok h]
  dsimp only
  rw [hread]
  dsimp only
  rw [List.dropWhile_nil, ite_self, if_neg]
  simp [hne, not_lt.mpr hlow, not_lt.mpr hhigh]

theorem setYesNo_readsAs (hlow : 0 ≤ v) (hhigh : v ≤ 1) :
    ReadsAs setYesNo (inQuotes (if v = ynNo then "no".toList else "yes".toList)) v := by
  interval_cases v
  · exact readsAs_inQuotes (s := "no".toList) (by decide) (by decide)
  · exact readsAs_inQuotes (s := "yes".toList) (by decide) (by decide)

theorem setYesNoUndef_readsAs (hlow : 0 < v) (hhigh : v ≤ 2) :
    ReadsAs setYesNoUndef (inQuotes (if v = ynuNo then "no".toList else "yes".toList)) v := by
  interval_cases v
  · exact readsAs_inQuotes (s := "no".toList) (by decide) (by decide)
  · exact readsAs_inQuotes (s := "yes".toList) (by decide) (by decide)

theorem findMultipathsHandler_readsAs (hlow : 1 ≤ v) (hhigh : v ≤ 5)
    (h : printFindMultipaths v = some text) : ReadsAs findMultipathsHandler text v := by
  have hread : ∀ opt ∈ findMultipathsOptvals,
      ReadsAs findMultipathsHandler (quoted opt.2) opt.1 := by
    intro opt hopt
    apply readsAs_of (.quoted opt.2)
    intro strvec hs
    simp only [findMultipathsHandler, setYesNoUndef, withValue_ok hs]
    clear hs
    revert opt
    decide
  have hprint : ∀ opt ∈ findMultipathsOptvals, printFindMultipaths opt.1 = some (quoted opt.2) := by
    decide
  have hmem : ∃ opt ∈ findMultipathsOptvals, opt.1 = v := by
    interval_cases v <;> simp [findMultipathsOptvals, ynuNo, ynuYes]
  obtain ⟨opt, hopt, rfl⟩ := hmem
  rw [hprint opt hopt] at h
  cases h
  exact hread opt hopt

/-- The words that the handlers know do not look like numbers. -/
theorem itoa_ne_off : itoa v ≠ "off".toList := itoa_ne_word (by decide)

theorem setFastIoFail_readsAs (hlow : -2 ≤ v) (hhigh : v ≤ intMax)
    (h : printFastIoFail v = some text) : ReadsAs setFastIoFail text v := by
  unfold printFastIoFail at h
  split_ifs at h with hunset hoff hzero <;> cases h
  · rw [hoff]
    exact readsAs_inQuotes (by decide) (by decide)
  · rw [hzero]
    exact readsAs_bare (by decide) (by decide)
  · apply readsAs_bare (isBareWord_itoa v)
    unfold fastIoFailUnset fastIoFailOff fastIoFailZero at *
    have hint : IsInt v := ⟨by unfold intMin; omega, hhigh⟩
    rw [if_neg itoa_ne_off, sscanfInt_itoa hint]
    dsimp only
    rw [if_neg (by omega), if_neg hunset]

theorem setPgpolicy_readsAs (hlow : 0 ≤ v) (hhigh : v ≤ 5) (h : printPgpolicy v = some text) :
    ReadsAs setPgpolicy text v := by
  have hname : ∀ policy ∈ pgpolicies, getPgpolicyName policy.1 = policy.2 ∧
      getPgpolicyId policy.2 = policy.1 ∧ '"' ∉ policy.2 := by decide
  unfold printPgpolicy at h
  split at h
  · cases h
  · next hne =>
    cases h
    have hmem : ∃ policy ∈ pgpolicies, policy.1 = v := by
      interval_cases v <;> first | exact absurd rfl hne | simp [pgpolicies]
    obtain ⟨policy, hpolicy, rfl⟩ := hmem
    obtain ⟨hget, hid, hquote⟩ := hname policy hpolicy
    rw [hget]
    exact readsAs_inQuotes hquote (by rw [hid])

theorem setRrWeight_readsAs (h : printRrWeight v = some text) : ReadsAs setRrWeight text v := by
  unfold printRrWeight at h
  split_ifs at h with hzero hprio hnone <;> cases h
  · rw [hprio]
    exact readsAs_inQuotes (by decide) (by decide)
  · rw [hnone]
    exact readsAs_inQuotes (by decide) (by decide)

theorem setPgfailback_readsAs (hv : IsInt v) (h : printPgfailback v = some text) :
    ReadsAs setPgfailback text v := by
  unfold printPgfailback at h
  split_ifs at h with hundef hmanual himmediate hfollowover <;> cases h
  · rw [hmanual]
    exact readsAs_inQuotes (by decide) (by decide)
  · rw [himmediate]
    exact readsAs_inQuotes (by decide) (by decide)
  · rw [hfollowover]
    exact readsAs_inQuotes (by decide) (by decide)
  · apply readsAs_bare (isBareWord_itoa v)
    rw [if_neg (itoa_ne_word (by decide)), if_neg (itoa_ne_word (by decide)),
      if_neg (itoa_ne_word (by decide)), atoi_itoa_eq hv]

theorem atoiOrUndef_itoa (hpos : 0 < v) (hhigh : v ≤ intMax) :
    itoa v ≠ "0".toList ∧ atoiOrUndef (itoa v) = .stores v := by
  have hint : IsInt v := ⟨by unfold intMin; omega, hhigh⟩
  constructor
  · exact itoa_ne hint (w := 0) (by decide) (by omega)
  · unfold atoiOrUndef
    rw [atoi_itoa_eq hint, if_neg (by omega)]

theorem noPathRetryHelper_readsAs (hlow : -2 ≤ v) (hhigh : v ≤ intMax)
    (h : printNoPathRetry v = some text) : ReadsAs noPathRetryHelper text v := by
  unfold printNoPathRetry at h
  split_ifs at h with hundef hfail hqueue <;> cases h
  · rw [hfail]
    exact readsAs_inQuotes (by decide) (by decide)
  · rw [hqueue]
    exact readsAs_inQuotes (by decide) (by decide)
  · unfold noPathRetryUndef noPathRetryFail noPathRetryQueue at *
    obtain ⟨hne, hread⟩ := atoiOrUndef_itoa (v := v) (by omega) hhigh
    apply readsAs_bare (isBareWord_itoa v)
    rw [if_neg (by rw [not_or]; exact ⟨itoa_ne_word (by decide), hne⟩),
      if_neg (itoa_ne_word (by decide)), hread]

theorem setOffIntUndef_readsAs (hlow : -1 ≤ v) (hhigh : v ≤ intMax)
    (h : printOffIntUndef v = some text) : ReadsAs setOffIntUndef text v := by
  unfold printOffIntUndef at h
  split_ifs at h with hundef hno <;> cases h
  · rw [hno]
    exact readsAs_inQuotes (by decide) (by decide)
  · unfold nuUndef nuNo at *
    obtain ⟨hne, hread⟩ := atoiOrUndef_itoa (v := v) (by omega) hhigh
    apply readsAs_bare (isBareWord_itoa v)
    rw [if_neg (by rw [not_or]; exact ⟨itoa_ne_word (by decide), hne⟩), hread]

theorem logCheckerErrHandler_readsAs (hlow : 0 ≤ v) (hhigh : v ≤ 1)
    (h : printLogCheckerErr v = some text) : ReadsAs logCheckerErrHandler text v := by
  cases h
  interval_cases v
  · exact readsAs_bare (s := "always".toList) (by decide) (by decide)
  · exact readsAs_bare (s := "once".toList) (by decide) (by decide)

theorem vpdVendorHandler_readsAs (hlow : 0 ≤ v) (hhigh : v ≤ 1)
    (h : printVpdVendor v = some text) : ReadsAs vpdVendorHandler text v := by
  interval_cases v
  · cases h
  · have hprint : printVpdVendor 1 = some "hp3par".toList := by decide
    rw [hprint] at h
    cases h
    exact readsAs_bare (by decide) (by decide)

/-- What a print function prints for a value that its handler can store is read back. -/
theorem IntKind.readsAs {kind : IntKind} (hv : kind.Valid v) (h : kind.print v = some text) :
    ReadsAs kind.handler text v := by
  cases kind with
  | int =>
    cases h
    exact setInt_itoa hv
  | nonzero =>
    change printNonzero v = _ at h
    unfold printNonzero at h
    split at h <;> cases h
    exact setInt_itoa hv
  | yesNo =>
    cases h
    exact setYesNo_readsAs hv.1 hv.2
  | yesNoUndef =>
    obtain ⟨hlow, hhigh⟩ : 0 ≤ v ∧ v ≤ 2 := hv
    change printYesNoUndef v = _ at h
    unfold printYesNoUndef at h
    split at h <;> cases h
    exact setYesNoUndef_readsAs (by omega) hhigh
  | queueWithoutDaemon =>
    obtain ⟨hlow, hhigh⟩ : 0 ≤ v ∧ v ≤ 1 := hv
    have hread := setYesNo_readsAs hlow hhigh
    have hprint : printQueueWithoutDaemon v =
        some (inQuotes (if v = ynNo then "no".toList else "yes".toList)) := by
      interval_cases v <;> rfl
    cases hprint.symm.trans h
    exact hread
  | findMultipaths => exact findMultipathsHandler_readsAs hv.1 hv.2 h
  | fastIoFail => exact setFastIoFail_readsAs hv.1 hv.2 h
  | pgpolicy => exact setPgpolicy_readsAs hv.1 hv.2 h
  | rrWeight => exact setRrWeight_readsAs h
  | pgfailback => exact setPgfailback_readsAs hv h
  | noPathRetry => exact noPathRetryHelper_readsAs hv.1 hv.2 h
  | offIntUndef => exact setOffIntUndef_readsAs hv.1 hv.2 h
  | logCheckerErr => exact logCheckerErrHandler_readsAs hv.1 hv.2 h
  | vpdVendor => exact vpdVendorHandler_readsAs hv.1 hv.2 h

/-- Only an undefined option is not printed. -/
theorem IntKind.eq_zero_of_print {kind : IntKind} (hv : kind.Valid v) (h : kind.print v = none) :
    v = 0 := by
  cases kind with
  | int => cases h
  | yesNo => cases h
  | logCheckerErr => cases h
  | findMultipaths =>
    obtain ⟨hlow, hhigh⟩ : 1 ≤ v ∧ v ≤ 5 := hv
    have hsome : ∀ opt ∈ findMultipathsOptvals, printFindMultipaths opt.1 ≠ none := by
      decide
    have hmem : ∃ opt ∈ findMultipathsOptvals, opt.1 = v := by
      interval_cases v <;> simp [findMultipathsOptvals, ynuNo, ynuYes]
    obtain ⟨opt, hopt, rfl⟩ := hmem
    exact absurd h (hsome opt hopt)
  | queueWithoutDaemon =>
    obtain ⟨hlow, hhigh⟩ : 0 ≤ v ∧ v ≤ 1 := hv
    interval_cases v <;> cases h
  | rrWeight =>
    obtain ⟨hlow, hhigh⟩ : 1 ≤ v ∧ v ≤ 2 := hv
    interval_cases v <;> cases h
  | vpdVendor =>
    obtain ⟨hlow, hhigh⟩ : 0 ≤ v ∧ v ≤ 1 := hv
    interval_cases v
    · rfl
    · exact absurd h (by decide)
  | nonzero =>
    change printNonzero v = _ at h
    unfold printNonzero at h
    split at h
    · assumption
    · cases h
  | yesNoUndef =>
    change printYesNoUndef v = _ at h
    unfold printYesNoUndef at h
    split at h
    · assumption
    · cases h
  | fastIoFail =>
    change printFastIoFail v = _ at h
    unfold printFastIoFail at h
    split_ifs at h
    assumption
  | pgpolicy =>
    change printPgpolicy v = _ at h
    unfold printPgpolicy at h
    split at h
    · assumption
    · cases h
  | pgfailback =>
    change printPgfailback v = _ at h
    unfold printPgfailback at h
    split_ifs at h
    assumption
  | noPathRetry =>
    change printNoPathRetry v = _ at h
    unfold printNoPathRetry at h
    split_ifs at h
    assumption
  | offIntUndef =>
    change printOffIntUndef v = _ at h
    unfold printOffIntUndef at h
    split_ifs at h
    assumption

end ReadsAs

end MultipathTools.Dict
