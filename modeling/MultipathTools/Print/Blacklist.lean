import MultipathTools.Cli.Reply

/-! The report on the blacklists and their exceptions (`print.c`), and the reply with it
(`cli_handlers.c`). -/
namespace MultipathTools.Print
open MultipathTools.Cli

/-- `MAX_LINE_LEN`. -/
def maxLineLen : ℕ := 80

/-- Where a rule comes from: `ORIGIN_DEFAULT` or `ORIGIN_CONFIG`. -/
inductive Origin where
  | default
  | config
  deriving DecidableEq, Repr

def Origin.label : Origin → CStr
  | .config => "        (config file rule) ".toList
  | .default => "        (default rule)     ".toList

structure Blentry where
  str : CStr
  origin : Origin
  deriving DecidableEq, Repr

structure BlentryDevice where
  vendor : Option CStr
  product : Option CStr
  origin : Origin
  deriving DecidableEq, Repr

/-- What `%s` prints; NULL is printed as the C library does. -/
def formatStr (str : Option CStr) : CStr := str.getD "(null)".toList

def Blentry.text (ble : Blentry) : CStr := ble.str ++ ['\n']

def BlentryDevice.text (bled : BlentryDevice) : CStr :=
  formatStr bled.vendor ++ ':' :: (formatStr bled.product ++ ['\n'])

/-- The rules of `struct config` that are reported. -/
structure Rules where
  blistDevnode : List Blentry := []
  elistDevnode : List Blentry := []
  blistProperty : List Blentry := []
  elistProperty : List Blentry := []
  blistProtocol : List Blentry := []
  elistProtocol : List Blentry := []
  blistWwid : List Blentry := []
  elistWwid : List Blentry := []
  blistDevice : List BlentryDevice := []
  elistDevice : List BlentryDevice := []
  deriving DecidableEq, Repr

/-- `pos += snprintf(buff + pos, len - pos, ...)`; a negative size would be a huge one. `pos` is an
`int`, which it stays for texts of less than 2^31 bytes. -/
def printAt (len : ℤ) (buff : List Char) (pos : ℕ) (text : CStr) : Outcome (List Char × ℕ) :=
  if len - pos < 0 then .outside
  else (snprintf buff pos (len - pos).toNat text).bind fun (buff, n) => .done (buff, pos + n)

section Group

variable {α : Type*} (origin : α → Origin) (text : α → CStr)

/-- The loop over the rules of a group: the buffer, the position of the caller and what is
returned. -/
def rulesLoop (len : ℤ) (fwd : ℕ) : List α → List Char → ℕ → Outcome (List Char × ℕ × ℕ)
  | [], buff, pos => .done (buff, pos, pos)
  | ble :: vec, buff, pos =>
    if len - pos - maxLineLen ≤ 0 then .done (buff, fwd, 0)
    else (printAt len buff pos (origin ble).label).bind fun (buff, pos) =>
      (printAt len buff pos (text ble)).bind fun (buff, pos) => rulesLoop len fwd vec buff pos

/-- The rules of one group. -/
def snprintGroup (len : ℤ) (vec : List α) (buff : List Char) (fwd : ℕ) :
    Outcome (List Char × ℕ × ℕ) :=
  if vec.isEmpty then
    if len - fwd - maxLineLen ≤ 0 then .done (buff, fwd, 0)
    else (printAt len buff fwd "        <empty>\n".toList).bind fun (buff, pos) =>
      .done (buff, pos, pos)
  else rulesLoop origin text len fwd vec buff fwd

/-- What a group prints. -/
def groupText (vec : List α) : CStr :=
  if vec.isEmpty then "        <empty>\n".toList
  else vec.flatMap fun ble => (origin ble).label ++ text ble

end Group

/-- `snprint_blacklist_group`. -/
def snprintBlacklistGroup (len : ℤ) (vec : List Blentry) (buff : List Char) (fwd : ℕ) :
    Outcome (List Char × ℕ × ℕ) :=
  snprintGroup Blentry.origin Blentry.text len vec buff fwd

/-- `snprint_blacklist_devgroup`. -/
def snprintBlacklistDevgroup (len : ℤ) (vec : List BlentryDevice) (buff : List Char) (fwd : ℕ) :
    Outcome (List Char × ℕ × ℕ) :=
  snprintGroup BlentryDevice.origin BlentryDevice.text len vec buff fwd

/-- A vector of rules of either kind. -/
inductive Group where
  | group (vec : List Blentry)
  | devgroup (vec : List BlentryDevice)
  deriving DecidableEq, Repr

def Group.snprint (len : ℤ) : Group → List Char → ℕ → Outcome (List Char × ℕ × ℕ)
  | .group vec => snprintBlacklistGroup len vec
  | .devgroup vec => snprintBlacklistDevgroup len vec

def Group.text : Group → CStr
  | .group vec => groupText Blentry.origin Blentry.text vec
  | .devgroup vec => groupText BlentryDevice.origin BlentryDevice.text vec

/-- The headers of the report and the groups behind them. -/
def Rules.sections (conf : Rules) : List (CStr × Group) :=
  [("device node rules:\n- blacklist:\n".toList, .group conf.blistDevnode),
    ("- exceptions:\n".toList, .group conf.elistDevnode),
    ("udev property rules:\n- blacklist:\n".toList, .group conf.blistProperty),
    ("- exceptions:\n".toList, .group conf.elistProperty),
    ("protocol rules:\n- blacklist:\n".toList, .group conf.blistProtocol),
    ("- exceptions:\n".toList, .group conf.elistProtocol),
    ("wwid rules:\n- blacklist:\n".toList, .group conf.blistWwid),
    ("- exceptions:\n".toList, .group conf.elistWwid),
    ("device rules:\n- blacklist:\n".toList, .devgroup conf.blistDevice),
    ("- exceptions:\n".toList, .devgroup conf.elistDevice)]

/-- The headers and groups of `snprint_blacklist_report`, one after the other. -/
def reportLoop (len : ℤ) : List (CStr × Group) → List Char → ℕ → Outcome (List Char × ℤ)
  | [], buff, fwd => .done (buff, if fwd > len then len else fwd)
  | (header, group) :: sections, buff, fwd =>
    if len - fwd - maxLineLen ≤ 0 then .done (buff, len)
    else (printAt len buff fwd header).bind fun (buff, fwd) =>
      (group.snprint len buff fwd).bind fun (buff, fwd, rc) =>
        if rc = 0 then .done (buff, len) else reportLoop len sections buff fwd

/-- `snprint_blacklist_report`. -/
def snprintBlacklistReport (conf : Rules) (buff : List Char) (len : ℤ) :
    Outcome (List Char × ℤ) :=
  reportLoop len conf.sections buff 0

/-- The complete report. -/
def Rules.report (conf : Rules) : CStr :=
  conf.sections.flatMap fun (header, group) => header ++ group.text

/-- `show_blacklist`: the reply and its length, unless there is an error. -/
def showBlacklist (turns : ℕ) (conf : Rules) : Outcome (Option (List Char × ℕ)) :=
  (growReply (fun maxlen reply => (snprintBlacklistReport conf reply maxlen).bind
      fun (reply, c) => .done (reply, 0, c.toNat)) id turns).bind fun
    | none => .done none
    | some (reply, _, c) => .done (some (reply, c + 1))

/-- A text has been printed up to a position; it is all there if it is shorter than the buffer. -/
structure Printed (len : ℤ) (out : CStr) (buff : List Char) (pos : ℕ) : Prop where
  length : buff.length = len.toNat
  position : pos = out.length
  written : pos < len → out <+: buff
  terminated : pos < len → out ≠ [] → out ++ [nul] <+: buff

variable {len : ℤ} {buff out : List Char} {pos : ℕ}

/-- One more text goes behind what has been printed, as long as there is a byte left. -/
theorem Printed.printAt (h : Printed len out buff pos) (hlt : pos < len) (text : CStr) :
    ∃ buff', Print.printAt len buff pos text = .done (buff', pos + text.length) ∧
      Printed len (out ++ text) buff' (pos + text.length) := by
  obtain ⟨hlen, rfl, hout, -⟩ := h
  have hsize : out.length + (len - out.length).toNat = buff.length := by omega
  obtain ⟨buff', hprint, hlen', hout'⟩ := snprintf_behind text (hout hlt)
    (by omega : 0 < (len - out.length).toNat) hsize.le
  have hterminated : (out.length + text.length : ℕ) < len → out ++ text ++ [nul] <+: buff' := by
    intro hroom
    rwa [List.take_of_length_le (by omega)] at hout'
  refine ⟨buff', ?_, hlen'.trans hlen, List.length_append.symm, fun hroom => ?_, fun hroom _ => ?_⟩
  · rw [Print.printAt, if_neg (by omega), hprint]
    rfl
  · exact (List.prefix_append _ _).trans (hterminated hroom)
  · exact hterminated hroom

/-- A group ends in one of two ways: it gives up, as the buffer is almost full, or its text is
printed. -/
def GroupEnds (len : ℤ) (fwd : ℕ) (out : CStr) (pos : ℕ) (text : CStr)
    (result : Outcome (List Char × ℕ × ℕ)) : Prop :=
  (∃ buff, result = .done (buff, fwd, 0) ∧ buff.length = len.toNat ∧
    len ≤ pos + text.length + maxLineLen) ∨
  ∃ buff, result = .done (buff, pos + text.length, pos + text.length) ∧
    Printed len (out ++ text) buff (pos + text.length)

section Group

variable {α : Type*} {origin : α → Origin} {text : α → CStr} {fwd : ℕ}

theorem length_label (o : Origin) : o.label.length = 27 := by
  cases o <;> rfl

theorem rulesLoop_ends (h : Printed len out buff pos) (vec : List α) :
    GroupEnds len fwd out pos (vec.flatMap fun ble => (origin ble).label ++ text ble)
      (rulesLoop origin text len fwd vec buff pos) := by
  induction vec generalizing out buff pos with
  | nil =>
    refine .inr ⟨buff, by rw [rulesLoop]; rfl, ?_⟩
    rwa [List.flatMap_nil, List.append_nil]
  | cons ble vec ih =>
    rw [rulesLoop, List.flatMap_cons]
    by_cases hfull : len - pos - maxLineLen ≤ 0
    · rw [if_pos hfull]
      exact .inl ⟨buff, rfl, h.length, by omega⟩
    · have hroom : (maxLineLen : ℤ) = 80 := rfl
      obtain ⟨buff1, hlabel, h1⟩ := h.printAt (by omega) (origin ble).label
      have hlen := length_label (origin ble)
      obtain ⟨buff2, htext, h2⟩ := h1.printAt (by omega) (text ble)
      have hpos : pos + (origin ble).label.length + (text ble).length =
          pos + ((origin ble).label ++ text ble).length := by
        rw [List.length_append, Nat.add_assoc]
      rw [if_neg hfull, hlabel, Outcome.bind_done]
      dsimp only
      rw [htext, Outcome.bind_done]
      dsimp only
      rw [hpos, List.append_assoc] at h2
      rw [hpos]
      obtain ⟨buff3, hloop, hlen3, hle⟩ | ⟨buff3, hloop, h3⟩ := ih h2
      · refine .inl ⟨buff3, hloop, hlen3, ?_⟩
        rw [List.length_append]
        omega
      · rw [Nat.add_assoc, ← List.length_append] at hloop h3
        rw [List.append_assoc] at h3
        exact .inr ⟨buff3, hloop, h3⟩

theorem snprintGroup_ends (h : Printed len out buff pos) (vec : List α) :
    GroupEnds len pos out pos (groupText origin text vec)
      (snprintGroup origin text len vec buff pos) := by
  unfold snprintGroup groupText
  by_cases hvec : vec.isEmpty = true
  · rw [if_pos hvec, if_pos hvec]
    by_cases hfull : len - pos - maxLineLen ≤ 0
    · rw [if_pos hfull]
      exact .inl ⟨buff, rfl, h.length, by omega⟩
    · have hroom : (maxLineLen : ℤ) = 80 := rfl
      obtain ⟨buff1, hprint, h1⟩ := h.printAt (by omega) "        <empty>\n".toList
      rw [if_neg hfull, hprint]
      exact .inr ⟨buff1, rfl, h1⟩
  · rw [if_neg hvec, if_neg hvec]
    exact rulesLoop_ends h vec

end Group

theorem Group.snprint_ends (h : Printed len out buff pos) (group : Group) :
    GroupEnds len pos out pos group.text (group.snprint len buff pos) := by
  cases group with
  | group vec => exact snprintGroup_ends h vec
  | devgroup vec => exact snprintGroup_ends h vec

/-- The report is given up, as the buffer is almost full or overfull, or it is printed. -/
def ReportEnds (len : ℤ) (text : CStr) (result : Outcome (List Char × ℤ)) : Prop :=
  ∃ buff r, result = .done (buff, r) ∧ buff.length = len.toNat ∧ r ≤ len ∧
    (r = len → len ≤ text.length + maxLineLen) ∧
    (r < len → r = text.length ∧ (text ≠ [] → text ++ [nul] <+: buff))

theorem reportLoop_ends {sections : List (CStr × Group)} (h : Printed len out buff pos)
    (hheaders : ∀ part ∈ sections, part.1 ≠ []) :
    ReportEnds len (out ++ sections.flatMap fun (header, group) => header ++ group.text)
      (reportLoop len sections buff pos) := by
  induction sections generalizing out buff pos with
  | nil =>
    have hpos := h.position
    rw [reportLoop, List.flatMap_nil, List.append_nil]
    by_cases hover : pos > len
    · rw [if_pos hover]
      exact ⟨buff, len, rfl, h.length, Int.le_refl len, fun _ => by omega, fun hlt => by omega⟩
    · rw [if_neg hover]
      exact ⟨buff, pos, rfl, h.length, by omega, fun _ => by omega,
        fun hlt => ⟨by omega, h.terminated hlt⟩⟩
  | cons part sections ih =>
    obtain ⟨header, group⟩ := part
    obtain ⟨hheader, hrest⟩ := List.forall_mem_cons.mp hheaders
    have hpos := h.position
    have hroom : (maxLineLen : ℤ) = 80 := rfl
    have hpositive := List.length_pos_iff.mpr hheader
    rw [reportLoop, List.flatMap_cons]
    by_cases hfull : len - pos - maxLineLen ≤ 0
    · rw [if_pos hfull]
      refine ⟨buff, len, rfl, h.length, Int.le_refl len, fun _ => ?_, fun hlt => by omega⟩
      rw [List.length_append]
      omega
    · obtain ⟨buff1, hprint, h1⟩ := h.printAt (by omega) header
      have hpos1 := h1.position
      rw [if_neg hfull, hprint, Outcome.bind_done]
      dsimp only at hpositive ⊢
      obtain ⟨buff2, hgroup, hlen2, hle⟩ | ⟨buff2, hgroup, h2⟩ := group.snprint_ends h1
      · rw [hgroup, Outcome.bind_done]
        refine ⟨buff2, len, rfl, hlen2, Int.le_refl len, fun _ => ?_, fun hlt => by omega⟩
        simp only [List.length_append]
        omega
      · rw [hgroup, Outcome.bind_done]
        dsimp only
        rw [if_neg (by omega)]
        have hends := ih h2 hrest
        simp only [List.append_assoc] at hends ⊢
        exact hends

theorem header_ne_nil (conf : Rules) : ∀ part ∈ conf.sections, part.1 ≠ [] := by
  unfold Rules.sections
  simp only [List.forall_mem_cons, List.not_mem_nil, false_imp_iff, implies_true, and_true]
  decide

theorem report_ne_nil (conf : Rules) : conf.report ≠ [] := by
  unfold Rules.report Rules.sections
  exact List.cons_ne_nil _ _

theorem snprintBlacklistReport_ends (conf : Rules) (hbuff : buff.length = len.toNat) :
    ReportEnds len conf.report (snprintBlacklistReport conf buff len) := by
  have hstart : Printed len [] buff 0 :=
    ⟨hbuff, rfl, fun _ => List.nil_prefix, fun _ h => absurd rfl h⟩
  have hends := reportLoop_ends hstart (header_ne_nil conf)
  rwa [List.nil_append] at hends

/-- The report is written inside of the buffer, and no size that is passed to `snprintf` is
negative; if the result is less than the size of the buffer, the report is complete. So is every
reply with it. -/
theorem snprintBlacklistReport_complete (conf : Rules) :
    (∀ (len : ℤ) (buff : List Char), buff.length = len.toNat →
      ∃ buff' r, snprintBlacklistReport conf buff len = .done (buff', r) ∧ r ≤ len ∧
        (r < len → r = conf.report.length ∧ conf.report ++ [nul] <+: buff')) ∧
    ∀ turns ≥ 16, ∃ r, showBlacklist turns conf = .done r ∧
      (r = none → lastReplyLen ≤ conf.report.length + maxLineLen) ∧
      ∀ reply len, r = some (reply, len) →
        len = conf.report.length + 1 ∧ conf.report ++ [nul] <+: reply := by
  constructor
  · intro len buff hbuff
    obtain ⟨buff', r, hreport, -, hle, -, hlt⟩ := snprintBlacklistReport_ends conf hbuff
    exact ⟨buff', r, hreport, hle, fun h => ⟨(hlt h).1, (hlt h).2 (report_ne_nil conf)⟩⟩
  · intro turns hturns
    have hgrow := @growReply_eq (fun maxlen reply => (snprintBlacklistReport conf reply maxlen).bind
        fun (reply, c) => .done (reply, 0, c.toNat)) id
      (fun reply _ c => c = conf.report.length ∧ conf.report ++ [nul] <+: reply)
      (fun maxlen => maxlen ≤ conf.report.length + maxLineLen) ?_ turns hturns
    · unfold showBlacklist
      obtain ⟨reply, header, c, hreply, rfl, htext⟩ | ⟨hfull, hnone⟩ := hgrow
      · rw [hreply]
        refine ⟨_, rfl, (fun h => nomatch h), fun _ _ h => ?_⟩
        cases h
        exact ⟨rfl, htext⟩
      · rw [hnone]
        exact ⟨none, rfl, fun _ => hfull, fun _ _ h => nomatch h⟩
    · intro maxlen reply hpos hle hlen
      have hbuff : reply.length = (maxlen : ℤ).toNat := hlen.trans (Int.toNat_natCast maxlen).symm
      obtain ⟨reply', r, hreport, hlen', hle', hfull, hlt⟩ := snprintBlacklistReport_ends conf hbuff
      refine ⟨reply', 0, r.toNat, by rw [hreport]; rfl, ?_, fun hc => ?_, fun hc => ?_⟩
      · rw [hlen', Int.toNat_natCast]
      · have hr : r.toNat = maxlen := hc
        have hbound := hfull (by omega)
        change maxlen ≤ conf.report.length + maxLineLen
        omega
      · have hr : r.toNat ≠ maxlen := hc
        obtain ⟨hlength, htext⟩ := hlt (by omega)
        exact ⟨by omega, htext (report_ne_nil conf)⟩

end MultipathTools.Print
