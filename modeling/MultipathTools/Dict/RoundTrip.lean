import MultipathTools.Dict.Keywords
import MultipathTools.Dict.Printed

/-! A printed configuration gives the same options again. -/
namespace MultipathTools.Dict
open MultipathTools.Parser

namespace Family

/-- The values that the handler stores for some line. -/
def Stored (env : Env) (f : Family) (v : f.Val) : Prop :=
  ∃ strvec, (f.handler env strvec).stored = some v

/-- The option is not set, or it does not say anything. -/
def Undefined : (f : Family) → f.Val → Prop
  | .int _ _, v => v = (0 : ℤ)
  | .uint _, v => v = (0 : BitVec 32)
  | .str _, v => v = (none : Option CStr)
  | .partitionDelim, v => v = (none : Option CStr)
  | .configDir, v => v = (none : Option CStr)
  | .uidAttrs, v => v = ([] : List CStr)
  | .mode, v => v = (none : Option (BitVec 32))
  | .uid, v => v = (none : Option (BitVec 32))
  | .gid, v => v = (none : Option (BitVec 32))
  | .maxFds, v => v = (0 : ℤ)
  | .reservationKey, v => ReservationKey.source v = .none
  | .ble, _ => False
  | .disableChangedWwids, _ => True
  | .deprecated, _ => True

/-- The value that is printed: the default if the option has one and is not set. -/
def shownInt {kind : IntKind} (default : Option {d : ℤ // kind.Valid d ∧ d ≠ 0}) (v : ℤ) : ℤ :=
  match default with
  | some d => if v = 0 then d.1 else v
  | none => v

def shownStr (default v : Option CStr) : Option CStr :=
  match default with
  | some d => some (v.getD d)
  | none => v

def shown : (f : Family) → f.Val → f.Val
  | .int _ default => shownInt default
  | .str default => shownStr default
  | .uint _ => id
  | .partitionDelim => id
  | .configDir => id
  | .uidAttrs => id
  | .mode => id
  | .uid => id
  | .gid => id
  | .maxFds => id
  | .reservationKey => id
  | .ble => id
  | .disableChangedWwids => id
  | .deprecated => id

/-- The ids of the user of a name. -/
def uidOf (env : Env) (name : CStr) : Option (BitVec 32) := (env.getpwnam name).map Prod.fst

def gidOf (env : Env) (name : CStr) : Option (BitVec 32) := (env.getpwnam name).map Prod.snd

/-- The octal text of a number of a user or group is the name of another one, or it has more than
one digit and is no decimal number. -/
def Misread (getId : CStr → Option (BitVec 32)) (v : Option (BitVec 32)) : Prop :=
  ∃ id ∈ v, match getId ('0' :: utoa 8 id) with
    | some other => other ≠ id
    | none => 8 ≤ id.toNat

/-- The records of `uid_attrs` are not printed as one word. -/
def NotOneWord (attrs : List CStr) : Prop :=
  1 < attrs.length ∨ ∃ attr ∈ attrs, ∃ c ∈ attr, isWordChar c = false

/-- What is not printed in the form in which it is read: numbers of users and groups, records of
`uid_attrs`, quotes in a blacklist. And `max_fds` is never read without a warning if the limit of the
system is not known. -/
def Excepted (env : Env) : (f : Family) → f.Val → Prop
  | .uid => Misread (uidOf env)
  | .gid => Misread (gidOf env)
  | .uidAttrs => NotOneWord
  | .maxFds => fun _ => env.sysMaxFds = none
  | .ble => fun ble : Blentry => '"' ∈ ble.str
  | .int _ _ => fun _ => False
  | .uint _ => fun _ => False
  | .str _ => fun _ => False
  | .partitionDelim => fun _ => False
  | .configDir => fun _ => False
  | .mode => fun _ => False
  | .reservationKey => fun _ => False
  | .disableChangedWwids => fun _ => False
  | .deprecated => fun _ => False

theorem not_misread (getId : CStr → Option (BitVec 32)) {id : BitVec 32}
    (h : ¬ Misread getId (some id)) : (getId ('0' :: utoa 8 id) = none → id.toNat < 8) ∧
      ∀ other ∈ getId ('0' :: utoa 8 id), other = id := by
  constructor
  · intro hnone
    by_contra hge
    refine h ⟨id, rfl, ?_⟩
    rw [hnone]
    exact not_lt.mp hge
  · intro other hother
    by_contra hne
    refine h ⟨id, rfl, ?_⟩
    rw [Option.mem_def.mp hother]
    exact hne

theorem printStr_some {v : Option CStr} {text : CStr} (h : Parser.printStr v = some text) :
    ∃ s, v = some s ∧ text = quoted s := by
  cases v with
  | none => cases h
  | some s => exact ⟨s, rfl, (Option.some.inj h).symm⟩

variable {env : Env}

theorem readsAs_str (default v : Option CStr) {text : CStr}
    (h : Family.printStr default v = some text) :
    ReadsAs setStr text (shownStr default v) := by
  cases default with
  | none =>
    obtain ⟨s, rfl, rfl⟩ := printStr_some h
    exact setStr_quoted s
  | some d =>
    cases v with
    | none =>
      cases h
      exact setStr_quoted d
    | some s =>
      cases h
      exact setStr_quoted s

theorem readsAs_int {kind : IntKind} (default : Option {d : ℤ // kind.Valid d ∧ d ≠ 0}) {v : ℤ}
    (hv : kind.Valid v) {text : CStr} (h : Family.printInt kind default v = some text) :
    ReadsAs kind.handler text (shownInt default v) := by
  cases default with
  | none => exact IntKind.readsAs hv h
  | some d =>
    change (if v = 0 then kind.print d.1 else kind.print v) = some text at h
    show ReadsAs kind.handler text (if v = 0 then d.1 else v)
    split at h
    · next hzero =>
      rw [if_pos hzero]
      exact IntKind.readsAs d.2.1 h
    · next hzero =>
      rw [if_neg hzero]
      exact IntKind.readsAs hv h

theorem uidAttrsHandler_stored {strvec : List Token} {attrs : List CStr}
    (h : (uidAttrsHandler strvec).stored = some attrs) : ∀ attr ∈ attrs, ':' ∈ attr := by
  unfold uidAttrsHandler at h
  split at h
  · cases h
    simp
  · cases h
    exact parseUidAttrs_colon _

theorem readsAs_uidAttrs {attrs : List CStr} (hcolon : ∀ attr ∈ attrs, ':' ∈ attr)
    (hex : ¬ NotOneWord attrs) {text : CStr} (h : printUidAttrs attrs = some text) :
    ReadsAs uidAttrsHandler text attrs := by
  obtain ⟨hlen, hchars⟩ := not_or.mp hex
  match attrs, hlen with
  | [], _ => cases h
  | [w], _ =>
    have hw : ':' ∈ w := hcolon w List.mem_cons_self
    have hbare : IsBareWord w := by
      refine ⟨List.ne_nil_of_mem hw, ?_⟩
      intro c hc
      by_contra hno
      exact hchars ⟨w, List.mem_cons_self, c, hc, by simpa using hno⟩
    have htext : text = w := by
      rw [printUidAttrs, List.intercalate_singleton] at h
      rw [if_neg hbare.1] at h
      exact (Option.some.inj h).symm
    rw [htext]
    exact uidAttrsHandler_bare hbare hw
  | _ :: _ :: attrs, hlen => exact absurd (Nat.succ_lt_succ (Nat.succ_pos attrs.length)) hlen

/-- What is printed for an option is read back by its handler. -/
theorem readsAs {f : Family} {v : f.Val} (hv : f.Stored env v) (hex : ¬ f.Excepted env v)
    {text : CStr} (h : f.print env v = some text) : ReadsAs (f.handler env) text (f.shown v) := by
  cases f with
  | int kind default =>
    obtain ⟨strvec, hstored⟩ := hv
    exact readsAs_int default (IntKind.valid_of_stored hstored) h
  | uint kind =>
    obtain ⟨strvec, hstored⟩ := hv
    exact UintKind.readsAs (UintKind.valid_of_stored hstored) h
  | str default => exact readsAs_str default v h
  | partitionDelim =>
    obtain ⟨strvec, hstored⟩ := hv
    obtain ⟨s, rfl, rfl⟩ := printStr_some (v := v) h
    exact partitionDelimHandler_quoted fun hs => partitionDelimHandler_stored hstored (by rw [hs])
  | configDir =>
    obtain ⟨s, rfl, rfl⟩ := printStr_some (v := v) h
    obtain ⟨strvec, hstored⟩ := hv
    have hmain : env.processedMainConfig = false := by
      by_contra hdone
      change (configDirHandler env strvec).stored = _ at hstored
      rw [configDirHandler, if_pos (by simpa using hdone)] at hstored
      cases hstored
    have hhandler : configDirHandler env = setStr := by
      funext strvec
      rw [configDirHandler, if_neg (by simp [hmain])]
    show ReadsAs (configDirHandler env) (quoted s) (some s)
    rw [hhandler]
    exact setStr_quoted s
  | uidAttrs =>
    obtain ⟨strvec, hstored⟩ := hv
    exact readsAs_uidAttrs (uidAttrsHandler_stored hstored) hex h
  | mode =>
    obtain ⟨strvec, hstored⟩ := hv
    obtain ⟨mode, rfl, rfl⟩ := Option.map_eq_some_iff.mp h
    exact setMode_octal (setMode_stored hstored mode rfl)
  | uid =>
    obtain ⟨uid, rfl, rfl⟩ := Option.map_eq_some_iff.mp h
    obtain ⟨hno, hname⟩ := not_misread (uidOf env) hex
    apply setUid_octal env
    · intro hnone
      exact hno (Option.map_eq_none_iff.mpr hnone)
    · intro info hinfo
      exact hname info.1 (Option.map_eq_some_iff.mpr ⟨info, hinfo, rfl⟩)
  | gid =>
    obtain ⟨gid, rfl, rfl⟩ := Option.map_eq_some_iff.mp h
    obtain ⟨hno, hname⟩ := not_misread (gidOf env) hex
    apply setGid_octal env
    · intro hnone
      exact hno (Option.map_eq_none_iff.mpr hnone)
    · intro info hinfo
      exact hname info.2 (Option.map_eq_some_iff.mpr ⟨info, hinfo, rfl⟩)
  | maxFds =>
    obtain ⟨strvec, hstored⟩ := hv
    have hlimit : env.sysMaxFds ≠ none := hex
    obtain ⟨maxFds, henv⟩ := Option.ne_none_iff_exists'.mp hlimit
    obtain ⟨hint, hle⟩ := maxFdsHandler_stored henv hstored
    exact maxFdsHandler_readsAs henv hint hle h
  | reservationKey =>
    obtain ⟨strvec, hstored⟩ := hv
    exact setReservationKey_readsAs (setReservationKey_stored hstored) h
  | ble =>
    obtain ⟨strvec, hstored⟩ := hv
    cases h
    exact bleHandler_inQuotes hex (bleHandler_stored hstored)
  | disableChangedWwids =>
    obtain ⟨strvec, hstored⟩ := hv
    cases hstored
  | deprecated =>
    obtain ⟨strvec, hstored⟩ := hv
    obtain ⟨s, hs⟩ := exists_of_stored hstored
    cases hs

theorem printUidAttrs_eq_none {attrs : List CStr} (hcolon : ∀ attr ∈ attrs, ':' ∈ attr)
    (h : printUidAttrs attrs = none) : attrs = [] := by
  cases attrs with
  | nil => rfl
  | cons w ws =>
    have hne : w ≠ [] := List.ne_nil_of_mem (hcolon w List.mem_cons_self)
    have htext : [' '].intercalate (w :: ws) ≠ [] := by
      cases ws with
      | nil => simpa using hne
      | cons v ws => simp [hne]
    rw [printUidAttrs, if_neg htext] at h
    cases h

theorem printInt_eq_none {kind : IntKind} {d : {d : ℤ // kind.Valid d ∧ d ≠ 0}} {v : ℤ}
    (h : Family.printInt kind (some d) v = none) : v = 0 ∨ kind.print v = none := by
  change (if v = 0 then kind.print d.1 else kind.print v) = none at h
  split at h
  · exact .inl (by assumption)
  · exact .inr h

/-- Only an undefined option is not printed. -/
theorem undefined_of_print {f : Family} {v : f.Val} (hv : f.Stored env v)
    (h : f.print env v = none) : f.Undefined v := by
  cases f with
  | int kind default =>
    obtain ⟨strvec, hstored⟩ := hv
    have hvalid := IntKind.valid_of_stored hstored
    cases default with
    | none => exact IntKind.eq_zero_of_print hvalid h
    | some d =>
      obtain hzero | hprint := printInt_eq_none (d := d) h
      · exact hzero
      · exact IntKind.eq_zero_of_print hvalid hprint
  | uint kind =>
    cases kind with
    | devLoss =>
      change printDevLoss v = none at h
      unfold printDevLoss at h
      split_ifs at h
      assumption
    | checkint => cases h
    | uint => cases h
    | uxsockTimeout => cases h
  | str default =>
    cases v with
    | none => rfl
    | some s => cases default <;> cases h
  | partitionDelim =>
    cases v with
    | none => rfl
    | some s => cases h
  | configDir =>
    cases v with
    | none => rfl
    | some s => cases h
  | uidAttrs =>
    obtain ⟨strvec, hstored⟩ := hv
    exact printUidAttrs_eq_none (uidAttrsHandler_stored hstored) h
  | mode => exact Option.map_eq_none_iff.mp h
  | uid => exact Option.map_eq_none_iff.mp h
  | gid => exact Option.map_eq_none_iff.mp h
  | maxFds =>
    change printMaxFds env v = none at h
    unfold printMaxFds at h
    split at h
    · assumption
    · split at h
      · split at h <;> cases h
      · cases h
  | reservationKey =>
    obtain ⟨source, key, flags⟩ := v
    cases source with
    | none => rfl
    | file => cases h
    | conf => cases h
  | ble => cases h
  | disableChangedWwids => trivial
  | deprecated => trivial

end Family

namespace Keyword
variable {env : Env} {k : Keyword}

/-- A line with a value that the handler takes for `v`. -/
theorem readLine_of_readsAs (hk : IsName k.string) (level : ℕ) {text : CStr} {v : k.family.Val}
    (h : ReadsAs (k.family.handler env) text v) :
    k.readLine env (List.replicate level '\t' ++ (k.string ++ ' ' :: (text ++ ['\n']))) =
      .stores v := by
  obtain ⟨tokens, s, htokens, hread⟩ := h
  unfold readLine
  rw [allocStrvec_printed hk.1 level htokens]
  dsimp only
  rw [validateConfigStrvec_printed hk.1 hk.2 htokens, hread k.string]
  dsimp only
  have hname : optionName (.word k.string :: tokens) = k.string := rfl
  rw [if_neg (not_not.mpr rfl), if_neg (not_not.mpr hname)]
  rfl

/-- The line of a keyword is read back as the value that it shows. -/
theorem readLine_printLine (hk : IsName k.string) (level : ℕ) {v : k.family.Val}
    (hv : k.family.Stored env v) (hex : ¬ k.family.Excepted env v) {line : CStr}
    (h : k.printLine env level v = some line) :
    k.readLine env line = .stores (k.family.shown v) := by
  unfold printLine at h
  rw [snprintKeyword_format] at h
  obtain ⟨text, htext, rfl⟩ := Option.map_eq_some_iff.mp h
  exact readLine_of_readsAs hk level (Family.readsAs hv hex htext)

theorem undefined_of_printLine {level : ℕ} {v : k.family.Val} (hv : k.family.Stored env v)
    (h : k.printLine env level v = none) : k.family.Undefined v := by
  unfold printLine at h
  rw [snprintKeyword_format, Option.map_eq_none_iff] at h
  exact Family.undefined_of_print hv h

end Keyword

/-- A value that a handler has stored is either undefined and not printed, or the line gives the
same value again, or the default if the value is not set, and nothing is logged. -/
theorem keywords_roundTrip (env : Env) {k : Keyword} (hk : k ∈ keywords) (level : ℕ)
    {v : k.family.Val} (hv : k.family.Stored env v) (hex : ¬ k.family.Excepted env v) :
    match k.printLine env level v with
    | none => k.family.Undefined v
    | some line => k.readLine env line = .stores (k.family.shown v) := by
  cases h : k.printLine env level v with
  | none => exact Keyword.undefined_of_printLine hv h
  | some line => exact Keyword.readLine_printLine (keywords_isName k hk) level hv hex h

/-- A system without users. -/
def noUsers : Env where
  getpwnam _ := none
  sysMaxFds := none
  regcomp _ := true

theorem valid_thousand : IntKind.int.Valid 1000 ∧ (1000 : ℤ) ≠ 0 := by decide

def rrMinIo : Keyword := ⟨"rr_min_io".toList, .int .int (some ⟨1000, valid_thousand⟩)⟩

theorem rrMinIo_mem : rrMinIo ∈ keywords := by
  have hget : defaultsKeywords[16]? = some rrMinIo := rfl
  unfold keywords
  simp only [List.mem_append]
  exact .inl (.inl (.inl (.inl (.inl (List.mem_of_getElem? hget)))))

theorem rrMinIo_stored (env : Env) {strvec : List Token} {v : ℤ}
    (h : (setInt strvec).stored = some v) : rrMinIo.family.Stored env v := ⟨strvec, h⟩

theorem setInt_stored_hundred :
    (setInt [.word "rr_min_io".toList, .word "100".toList]).stored = some 100 := by decide

theorem setInt_stored_zero :
    (setInt [.word "rr_min_io".toList, .word "0".toList]).stored = some 0 := by decide

theorem keywords_roundTrip_minio :
    match rrMinIo.printLine noUsers 1 (100 : ℤ) with
    | none => rrMinIo.family.Undefined (100 : ℤ)
    | some line => rrMinIo.readLine noUsers line = .stores (rrMinIo.family.shown (100 : ℤ)) :=
  keywords_roundTrip noUsers rrMinIo_mem 1
    (rrMinIo_stored noUsers setInt_stored_hundred) id

/-- In the `defaults` section `rr_min_io 0` is printed as the default. -/
theorem keywords_roundTrip_zero_fails :
    ¬ ∀ (env : Env) (k : Keyword), k ∈ keywords → ∀ (level : ℕ) (v : k.family.Val),
      k.family.Stored env v → ∀ line, k.printLine env level v = some line →
        k.readLine env line = .stores v := by
  intro h
  have hstored := rrMinIo_stored noUsers setInt_stored_zero
  have hname := keywords_isName rrMinIo rrMinIo_mem
  have hline : rrMinIo.printLine noUsers 1 (0 : ℤ) = some (List.replicate 1 '\t' ++
      (rrMinIo.string ++ ' ' :: (itoa 1000 ++ ['\n']))) := by
    unfold Keyword.printLine
    rw [snprintKeyword_format]
    rfl
  have hsame := h noUsers rrMinIo rrMinIo_mem 1 (0 : ℤ) hstored _ hline
  have hdefault := Keyword.readLine_printLine hname 1 hstored id hline
  have hvalue := congrArg Handled.stored (hsame.symm.trans hdefault)
  have hzero : (0 : ℤ) = 1000 := Option.some.inj hvalue
  omega

end MultipathTools.Dict
