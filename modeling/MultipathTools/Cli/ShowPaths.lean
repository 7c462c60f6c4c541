import MultipathTools.Cli.Reply
import MultipathTools.Print.Format

/-! The replies to `show paths format` and `show path` with a format (`cli_handlers.c`). -/
namespace MultipathTools.Cli
open MultipathTools.Print

/-- `c += print(c, reply + maxlen - c, ...)`. -/
def addText (print : ℕ → ℕ → List Char → Outcome (List Char × ℕ)) (maxlen : ℕ)
    (reply : List Char) (c : ℕ) : Outcome (List Char × ℕ) :=
  (print c (maxlen - c) reply).bind fun (reply, n) => .done (reply, c + n)

/-- The lines of the paths. -/
def addPaths (layout : List PathData) (style : CStr) (pretty : Bool) (maxlen : ℕ) :
    List GenPath → List Char → ℕ → Outcome (List Char × ℕ)
  | [], reply, c => .done (reply, c)
  | pp :: pathvec, reply, c =>
    (addText (fun c len => snprintPath layout pp pretty c len style) maxlen reply c).bind
      fun (reply, c) => addPaths layout style pretty maxlen pathvec reply c

/-- One round of `show_paths`, without foreign paths: the reply, where the header ends, and where
the lines end. -/
def printPaths (layout : List PathData) (pathvec : List GenPath) (style : CStr) (pretty : Bool)
    (maxlen : ℕ) (reply : List Char) : Outcome (List Char × ℕ × ℕ) :=
  let top :=
    if pretty then
      addText (fun c len => snprintPathHeader layout c len style) maxlen reply 0
    else .done (reply, 0)
  top.bind fun (reply, header) =>
    (addPaths layout style pretty maxlen pathvec reply header).bind fun (reply, c) =>
      .done (reply, header, c)

/-- `show_paths`: the reply and its length, unless there is an error. -/
def showPaths (turns : ℕ) (pathvec : List GenPath) (style : CStr) (pretty : Bool) :
    Outcome (Option (List Char × ℕ)) :=
  let layout := getPathLayout pathvec true
  (growReply (printPaths layout pathvec style pretty) (· - 1) turns).bind fun
    | none => .done none
    | some (reply, header, c) =>
      if pretty ∧ c = header then
        (writeAt reply 0 [nul]).bind fun reply => .done (some (reply, 1))
      else .done (some (reply, c + 1))

/-- One round of `show_path`. -/
def printPath (layout : List PathData) (pp : GenPath) (style : CStr) (maxlen : ℕ)
    (reply : List Char) : Outcome (List Char × ℕ × ℕ) :=
  (addText (fun c len => snprintPath layout pp false c len style) maxlen reply 0).bind
    fun (reply, c) => .done (reply, 0, c)

/-- `show_path`. -/
def showPath (turns : ℕ) (pathvec : List GenPath) (pp : GenPath) (style : CStr) :
    Outcome (Option (List Char × ℕ)) :=
  let layout := getPathLayout pathvec true
  (growReply (printPath layout pp style) (· - 1) turns).bind fun
    | none => .done none
    | some (reply, _, c) => .done (some (reply, c + 1))

/-- The fields of the paths in the places of the wildcards. -/
def expansions (style : CStr) (pathvec : List GenPath) : CStr :=
  pathvec.flatMap fun pp => expand pp.field style

/-- What the reply is to be. -/
def report (style : CStr) (pathvec : List GenPath) : CStr :=
  pathvec.flatMap fun pp => expand pp.field style ++ ['\n']

/-- What is printed. -/
def printed (style : CStr) (pathvec : List GenPath) : CStr :=
  pathvec.flatMap fun pp => printedLine pp.snprint style

/-- The reply is the text, with a NUL; there is none only if the text does not fit into the largest
buffer. -/
def IsReply (text : CStr) (result : Outcome (Option (List Char × ℕ))) : Prop :=
  ∃ r, result = .done r ∧ (r = none → lastReplyLen - 1 ≤ text.length) ∧
    ∀ reply len, r = some (reply, len) → len = text.length + 1 ∧ text ++ [nul] <+: reply

section Rounds

variable {layout : List PathData} {maxlen : ℕ} {reply out : List Char}

variable (hlayout : layout.map PathData.wildcard = pd.map PathData.wildcard)

include hlayout in
/-- One line goes behind what is in the buffer, with the cursor at the last byte if it does not end
before that. -/
theorem addPath_eq (style : CStr) (pp : GenPath) (hout : out <+: reply) (hlt : out.length < maxlen)
    (hlen : reply.length = maxlen) :
    ∃ reply', addText (fun c len => snprintPath layout pp false c len style) maxlen reply out.length =
        .done (reply', min (out.length + (printedLine pp.snprint style).length) (maxlen - 1)) ∧
      reply'.length = maxlen ∧
      (out.length + (printedLine pp.snprint style).length < maxlen - 1 →
        out ++ printedLine pp.snprint style <+: reply' ∧
          (endsInSign style = false → out ++ printedLine pp.snprint style ++ [nul] <+: reply')) := by
  obtain ⟨reply', hprint, hlen', hline⟩ := snprintPath_eq hlayout pp style hout
    (Nat.sub_pos_of_lt hlt) (by omega)
  refine ⟨reply', ?_, hlen'.trans hlen, fun h => hline (by omega)⟩
  have hpos : out.length + min (printedLine pp.snprint style).length (maxlen - out.length - 1) =
      min (out.length + (printedLine pp.snprint style).length) (maxlen - 1) := by omega
  rw [addText, hprint, Outcome.bind_done]
  dsimp only
  rw [hpos]

include hlayout in
/-- The lines go behind what is in the buffer, with the cursor at the last byte if they do not end
before that. -/
theorem addPaths_eq (style : CStr) (pathvec : List GenPath) (hout : out <+: reply)
    (hlt : out.length < maxlen) (hlen : reply.length = maxlen) :
    ∃ reply', addPaths layout style false maxlen pathvec reply out.length =
        .done (reply', min (out.length + (printed style pathvec).length) (maxlen - 1)) ∧
      reply'.length = maxlen ∧
      (out.length + (printed style pathvec).length < maxlen - 1 →
        out ++ printed style pathvec <+: reply' ∧
          (endsInSign style = false → pathvec ≠ [] →
            out ++ printed style pathvec ++ [nul] <+: reply')) := by
  induction pathvec generalizing reply out with
  | nil =>
    refine ⟨reply, ?_, hlen, fun _ => ⟨?_, fun _ h => absurd rfl h⟩⟩
    · have hmin : min (out.length + 0) (maxlen - 1) = out.length := by omega
      rw [addPaths, printed, List.flatMap_nil, List.length_nil, hmin]
    · rwa [printed, List.flatMap_nil, List.append_nil]
  | cons pp pathvec ih =>
    obtain ⟨reply1, hline, hlen1, hout1⟩ := addPath_eq hlayout style pp hout hlt hlen
    have hcons : printed style (pp :: pathvec) =
        printedLine pp.snprint style ++ printed style pathvec := List.flatMap_cons
    rw [addPaths, hline, Outcome.bind_done, hcons, List.length_append]
    dsimp only
    by_cases hroom : out.length + (printedLine pp.snprint style).length < maxlen - 1
    · obtain ⟨htext, hnul⟩ := hout1 hroom
      have hpos : min (out.length + (printedLine pp.snprint style).length) (maxlen - 1) =
          (out ++ printedLine pp.snprint style).length := by
        rw [List.length_append]
        omega
      have hlength : (out ++ printedLine pp.snprint style).length < maxlen := by omega
      obtain ⟨reply2, hlines, hlen2, hout2⟩ := ih htext hlength hlen1
      rw [List.length_append, Nat.add_assoc] at hlines hout2
      rw [hpos, List.length_append, hlines]
      refine ⟨reply2, rfl, hlen2, fun h => ?_⟩
      obtain ⟨htext2, hnul2⟩ := hout2 h
      rw [← List.append_assoc]
      refine ⟨htext2, fun hsign _ => ?_⟩
      cases pathvec with
      | nil =>
        obtain ⟨rfl, -⟩ : reply1 = reply2 ∧ _ := by simpa [addPaths] using hlines
        simpa [printed] using hnul hsign
      | cons pp' pathvec => exact hnul2 hsign (List.cons_ne_nil _ _)
    · -- nothing more is printed once the cursor is at the last byte
      have hpos : min (out.length + (printedLine pp.snprint style).length) (maxlen - 1) =
          (reply1.take (maxlen - 1)).length := by
        rw [List.length_take]
        omega
      have hlength : (reply1.take (maxlen - 1)).length = maxlen - 1 := by
        rw [List.length_take]
        omega
      obtain ⟨reply2, hlines, hlen2, -⟩ := ih (List.take_prefix (maxlen - 1) reply1) (by omega) hlen1
      rw [hpos, hlines]
      refine ⟨reply2, ?_, hlen2, fun h => by omega⟩
      congr 2
      omega

end Rounds

/-- The reply holds what is printed, with the cursor behind it. -/
structure HoldsLines (style : CStr) (pathvec : List GenPath) (reply : List Char) (c : ℕ) :
    Prop where
  fits : (printed style pathvec).length < lastReplyLen - 1
  cursor : c = (printed style pathvec).length
  text : endsInSign style = false → printed style pathvec ++ [nul] <+: reply

/-- The text that is printed has the length of the text that is to be printed, or misses the
newlines. -/
theorem length_printed {pathvec : List GenPath} (hshort : ∀ pp ∈ pathvec, pp.Short) (style : CStr) :
    (endsInSign style = false → printed style pathvec = report style pathvec) ∧
    (endsInSign style = true →
      (printed style pathvec).length = (expansions style pathvec).length) ∧
    (report style pathvec).length = (expansions style pathvec).length + pathvec.length := by
  induction pathvec with
  | nil => exact ⟨fun _ => rfl, fun _ => rfl, rfl⟩
  | cons pp pathvec ih =>
    obtain ⟨hpp, hrest⟩ := List.forall_mem_cons.mp hshort
    obtain ⟨heq, hlen, hreport⟩ := ih hrest
    have hline := length_printedLine pp.snprint style
    rw [hpp.expand_snprint] at hline
    unfold printed report expansions at *
    simp only [List.flatMap_cons, List.length_append, List.length_cons, List.length_nil]
    refine ⟨fun hsign => ?_, fun hsign => ?_, by omega⟩
    · rw [heq hsign, printedLine, hsign, hpp.expand_snprint]
      rfl
    · rw [hlen hsign, hline, hsign]
      rfl

/-- A reply with what is printed is right unless a newline takes the place of a character. -/
theorem isReply_iff {pathvec : List GenPath} (hne : pathvec ≠ [])
    (hshort : ∀ pp ∈ pathvec, pp.Short) {style : CStr} {result : Outcome (Option (List Char × ℕ))}
    (h : (∃ reply c, result = .done (some (reply, c + 1)) ∧ HoldsLines style pathvec reply c) ∨
      lastReplyLen - 1 ≤ (printed style pathvec).length ∧ result = .done none) :
    (∃ r, result = .done r) ∧ (IsReply (report style pathvec) result ↔
      endsInSign style = false ∨ lastReplyLen - 1 ≤ (expansions style pathvec).length) := by
  obtain ⟨heq, hsignLen, hreport⟩ := length_printed hshort style
  have hpaths := List.length_pos_iff.mpr hne
  obtain ⟨reply, _, rfl, hlt, rfl, htext⟩ | ⟨hle, rfl⟩ := h
  · refine ⟨⟨_, rfl⟩, ?_⟩
    constructor
    · rintro ⟨r, hr, -, hreply⟩
      cases hr
      obtain ⟨hlen, -⟩ := hreply _ _ rfl
      cases hsign : endsInSign style with
      | false => exact .inl rfl
      | true =>
        have := hsignLen hsign
        omega
    · rintro (hsign | hle)
      · rw [heq hsign] at htext ⊢
        refine ⟨_, rfl, (fun h => nomatch h), fun _ _ h => ?_⟩
        cases h
        exact ⟨rfl, htext hsign⟩
      · cases hsign : endsInSign style with
        | false =>
          rw [heq hsign] at hlt
          omega
        | true =>
          have := hsignLen hsign
          omega
  · refine ⟨⟨_, rfl⟩, iff_of_true ⟨none, rfl, fun _ => ?_, fun _ _ h => nomatch h⟩ ?_⟩
    · cases hsign : endsInSign style with
      | false => rwa [← heq hsign]
      | true =>
        have := hsignLen hsign
        omega
    · cases hsign : endsInSign style with
      | false => exact .inl rfl
      | true =>
        rw [hsignLen hsign] at hle
        exact .inr hle

section Replies

variable {style : CStr} {turns : ℕ}

/-- Where the cursor is in a buffer that is full, and where it is in a buffer that is not. -/
theorem full_iff {textLen maxlen c : ℕ} (hc : c = min textLen (maxlen - 1)) :
    (c = maxlen - 1 → maxlen - 1 ≤ textLen) ∧ (c ≠ maxlen - 1 → textLen < maxlen - 1 ∧ c = textLen) := by
  omega

/-- How `show_paths` ends for a list of paths that is not empty. -/
theorem showPaths_eq {pathvec : List GenPath} (hne : pathvec ≠ []) (hturns : 16 ≤ turns) :
    (∃ reply c, showPaths turns pathvec style false = .done (some (reply, c + 1)) ∧
      HoldsLines style pathvec reply c) ∨
    lastReplyLen - 1 ≤ (printed style pathvec).length ∧
      showPaths turns pathvec style false = .done none := by
  have hgrow := @growReply_eq (printPaths (getPathLayout pathvec true) pathvec style false) (· - 1)
    (fun reply _ c => HoldsLines style pathvec reply c)
    (fun maxlen => maxlen - 1 ≤ (printed style pathvec).length) ?_ turns hturns
  · obtain ⟨reply, header, c, hreply, hlines⟩ | ⟨hle, hnone⟩ := hgrow
    · exact .inl ⟨reply, c, by rw [showPaths, hreply]; rfl, hlines⟩
    · exact .inr ⟨hle, by rw [showPaths, hnone]; rfl⟩
  · intro maxlen reply hpos hle hlen
    obtain ⟨reply', hadd, hlen', htext⟩ := addPaths_eq
      (getPathLayout_wildcard pathvec true) style pathvec (List.nil_prefix (l := reply)) hpos hlen
    rw [List.length_nil, Nat.zero_add] at hadd htext
    obtain ⟨hfull, hroom⟩ := @full_iff (printed style pathvec).length maxlen _ rfl
    refine ⟨reply', 0, _, ?_, hlen', hfull, fun hc => ?_⟩
    · rw [printPaths, if_neg Bool.false_ne_true, Outcome.bind_done]
      dsimp only
      rw [hadd]
      rfl
    · obtain ⟨hlt, hcursor⟩ := hroom hc
      exact ⟨by omega, hcursor, fun hsign => (htext hlt).2 hsign hne⟩

/-- How `show_path` ends. -/
theorem showPath_eq (pathvec : List GenPath) (pp : GenPath) (hturns : 16 ≤ turns) :
    (∃ reply c, showPath turns pathvec pp style = .done (some (reply, c + 1)) ∧
      HoldsLines style [pp] reply c) ∨
    lastReplyLen - 1 ≤ (printed style [pp]).length ∧
      showPath turns pathvec pp style = .done none := by
  have hone : printed style [pp] = printedLine pp.snprint style :=
    List.flatMap_singleton _ _
  have hgrow := @growReply_eq (printPath (getPathLayout pathvec true) pp style) (· - 1)
    (fun reply _ c => HoldsLines style [pp] reply c)
    (fun maxlen => maxlen - 1 ≤ (printed style [pp]).length) ?_ turns hturns
  · obtain ⟨reply, header, c, hreply, hlines⟩ | ⟨hle, hnone⟩ := hgrow
    · exact .inl ⟨reply, c, by rw [showPath, hreply]; rfl, hlines⟩
    · exact .inr ⟨hle, by rw [showPath, hnone]; rfl⟩
  · intro maxlen reply hpos hle hlen
    obtain ⟨reply', hadd, hlen', htext⟩ := addPath_eq
      (getPathLayout_wildcard pathvec true) style pp (List.nil_prefix (l := reply)) hpos hlen
    rw [List.length_nil, Nat.zero_add, ← hone] at hadd htext
    obtain ⟨hfull, hroom⟩ := @full_iff (printed style [pp]).length maxlen _ rfl
    refine ⟨reply', 0, _, ?_, hlen', hfull, fun hc => ?_⟩
    · rw [printPath, hadd]
      rfl
    · obtain ⟨hlt, hcursor⟩ := hroom hc
      exact ⟨by omega, hcursor, (htext hlt).2⟩

/-- Without paths the reply is empty. -/
theorem showPaths_nil (hturns : 0 < turns) :
    showPaths turns [] style false = .done (some (List.replicate initialReplyLen nul, 1)) := by
  obtain ⟨turns, rfl⟩ := Nat.exists_eq_succ_of_ne_zero (Nat.ne_of_gt hturns)
  rfl

end Replies

/-- The replies of both commands stay inside of their buffers. They are the text with the fields of
the paths and a newline for each path, unless the format ends with a sign. -/
theorem showPaths_iff (turns : ℕ) (hturns : 16 ≤ turns) (pathvec : List GenPath)
    (hshort : ∀ pp ∈ pathvec, pp.Short) (style : CStr) :
    ((∃ r, showPaths turns pathvec style false = .done r) ∧
      (IsReply (report style pathvec) (showPaths turns pathvec style false) ↔
        endsInSign style = false ∨ pathvec = [] ∨
          lastReplyLen - 1 ≤ (expansions style pathvec).length)) ∧
    ∀ pp ∈ pathvec,
      (∃ r, showPath turns pathvec pp style = .done r) ∧
      (IsReply (report style [pp]) (showPath turns pathvec pp style) ↔
        endsInSign style = false ∨ lastReplyLen - 1 ≤ (expansions style [pp]).length) := by
  constructor
  · obtain rfl | hne := eq_or_ne pathvec []
    · rw [showPaths_nil (by omega)]
      refine ⟨⟨_, rfl⟩, iff_of_true ⟨_, rfl, (fun h => nomatch h), fun _ _ h => ?_⟩ (by simp)⟩
      cases h
      exact ⟨rfl, List.replicate 1199 nul, rfl⟩
    · rw [or_iff_right hne]
      exact isReply_iff hne hshort (showPaths_eq hne hturns)
  · intro pp hpp
    refine isReply_iff (List.cons_ne_nil pp []) (fun pp' hmem => ?_)
      (showPath_eq pathvec pp hturns)
    rw [List.mem_singleton.mp hmem]
    exact hshort pp hpp

/-- A path whose name is its only field. -/
def namedPath (dev : CStr) : GenPath := ⟨fun wildcard => if wildcard = 'd' then dev else []⟩

theorem short_namedPath {dev : CStr} (h : dev.length < maxFieldLen) : (namedPath dev).Short := by
  intro data _
  unfold namedPath
  dsimp only
  split_ifs
  · exact h
  · exact Nat.zero_lt_succ _

theorem showPaths_iff_sda : IsReply "dev sda\n".toList
    (showPaths 16 [namedPath "sda".toList] "dev %d%x".toList false) :=
  (showPaths_iff 16 le_rfl [namedPath "sda".toList]
    (by simpa using short_namedPath (by decide)) "dev %d%x".toList).1.2.mpr (.inl rfl)

/-- The last character of the name is lost if the format ends with a sign. -/
theorem showPaths_sign : ¬ ∀ (turns : ℕ) (pathvec : List GenPath) (style : CStr), 16 ≤ turns →
    (∀ pp ∈ pathvec, pp.Short) →
      IsReply (report style pathvec) (showPaths turns pathvec style false) := by
  intro h
  have hne : [namedPath "sda".toList] ≠ [] := List.cons_ne_nil _ _
  have hshort : ∀ pp ∈ [namedPath "sda".toList], pp.Short := by
    simpa using short_namedPath (by decide)
  have hreply := h 16 [namedPath "sda".toList] "%d%".toList le_rfl hshort
  have hiff := (isReply_iff hne hshort (showPaths_eq hne le_rfl)).2.mp hreply
  revert hiff
  decide

end MultipathTools.Cli
