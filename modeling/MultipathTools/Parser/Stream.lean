import Mathlib.Order.Basic
import MultipathTools.Base.Block
import MultipathTools.Base.Lines
import MultipathTools.Parser.Quoting

/-! Reading a configuration file section by section (`process_stream` and `process_file` of `parser.c`),
and what the sections of a file mean. -/
namespace MultipathTools.Parser

/-- `MAXBUF` -/
def maxbuf : ℕ := 1024

/-- `strtok_r(buf, "\n\r", &p)` cuts the string behind its first token. -/
def cutLine (buf : CStr) : CStr :=
  let eol := fun c : Char => decide (c = '\n' ∨ c = '\r')
  buf.takeWhile eol ++ (buf.dropWhile eol).takeWhile (!eol ·)

/-- What `read_line` puts into `buf`, one line after the other. A NUL ends the string. -/
def streamLines (stream : CStr) : List CStr :=
  (readLines (maxbuf - 1) stream).map fun buf => cutLine (buf.takeWhile (· ≠ nul))

/-- What is logged while the line of this number is read. -/
inductive StreamMessage where
  | line (lineNr : ℕ) (message : Message)
  /-- `%s line %d, duplicate keyword: %s` -/
  | duplicateKeyword (lineNr : ℕ) (str : CStr)
  /-- `unmatched '%s' at line %d of %s` -/
  | unmatched (lineNr : ℕ)
  deriving DecidableEq, Repr

/-- `struct keyword`. The handler is given the configuration, of type `σ`. -/
structure KeywordTree (σ : Type) where
  string : CStr
  unique : Bool
  handler : Option (List Token → σ → ℤ × σ × List Message)
  sub : Option (List (KeywordTree σ))

/-- A stream that is being read: the configuration, the log, how many lines have been read
(`line_nr`), and the lines that are left. -/
structure Reader (σ : Type) where
  conf : σ
  log : List StreamMessage
  lineNr : ℕ
  lines : List CStr

/-- `EOB` -/
def eob : CStr := ['}']

/-- What is logged about a line that closes a section where none is open. -/
def unmatchedEob (lineNr : ℕ) (str : CStr) : List StreamMessage :=
  if str = eob then [.unmatched lineNr] else []

section Stream
variable {σ : Type}

namespace KeywordTree

/-- `warn_on_duplicates`, which is called for unique keywords: what is logged. -/
def duplicates (keyword : KeywordTree σ) (lineNr : ℕ) (uniques : List CStr) :
    List StreamMessage :=
  if keyword.unique ∧ keyword.string ∈ uniques then [.duplicateKeyword lineNr keyword.string] else []

/-- The keywords that `warn_on_duplicates` knows afterwards. -/
def addUnique (keyword : KeywordTree σ) (uniques : List CStr) : List CStr :=
  if keyword.unique ∧ keyword.string ∉ uniques then uniques ++ [keyword.string] else uniques

/-- The handler's turn: its result, the configuration, and what is logged. -/
def handle (keyword : KeywordTree σ) (lineNr : ℕ) (buf : CStr) (strvec : List Token) (conf : σ) :
    ℤ × σ × List StreamMessage :=
  match keyword.handler with
  | none => (0, conf, [])
  | some handler =>
    let r := handler strvec conf
    (r.1, r.2.1, r.2.2.map (.line lineNr) ++
      if r.1 ≠ 0 then [.line lineNr (.parsingFailed buf)] else [])

end KeywordTree

/-- The loop over `keywords`. -/
def lookupKeyword (keywords : List (KeywordTree σ)) (str : CStr) : Option (KeywordTree σ) :=
  keywords.find? fun keyword => decide (keyword.string = str)

/-- `process_stream`, with a bound on the lines that are read. `kwLevel` counts the sections around. -/
def processStream : ℕ → List (KeywordTree σ) → ℕ → List CStr → Reader σ → ℤ × Reader σ
  | 0, _, _, _, s => (0, s)
  | turns + 1, keywords, kwLevel, uniques, s =>
    match s.lines with
    | [] => (0, s)
    | buf :: lines =>
      let lineNr := s.lineNr + 1
      match allocStrvec buf with
      | none => processStream turns keywords kwLevel uniques { s with lineNr, lines }
      | some strvec =>
        let valid := validateConfigStrvec strvec
        let s := { s with lineNr, lines, log := s.log ++ valid.2.map (.line lineNr) }
        if valid.1 ≠ 0 then processStream turns keywords kwLevel uniques s
        else
          let str := optionName strvec
          if str = eob ∧ 0 < kwLevel then (0, s)
          else
            let s := { s with log := s.log ++ unmatchedEob lineNr str }
            match lookupKeyword keywords str with
            | none =>
              processStream turns keywords kwLevel uniques
                { s with log := s.log ++ [.line lineNr (.unknownKeyword str)] }
            | some keyword =>
              let t := keyword.handle lineNr buf strvec s.conf
              let s := { s with
                conf := t.2.1, log := s.log ++ (keyword.duplicates lineNr uniques ++ t.2.2) }
              let inner :=
                match keyword.sub with
                | none => (0, s)
                | some sub => processStream turns sub (kwLevel + 1) [] s
              let outer := processStream turns keywords kwLevel (keyword.addUnique uniques) inner.2
              (t.1 + inner.1 + outer.1, outer.2)

/-- `process_file`, for the contents of the file. -/
def processFile (keywords : List (KeywordTree σ)) (conf : σ) (stream : CStr) :
    ℤ × σ × List StreamMessage :=
  let lines := streamLines stream
  let r := processStream lines.length keywords 0 [] ⟨conf, [], 0, lines⟩
  (r.1, r.2.conf, r.2.log)

variable {keywords : List (KeywordTree σ)}

/-- A line with an option, and what is logged about the line itself. Inside of a section, a closing
brace is not an option. -/
structure OptionLine (inside : Bool) (lineNr : ℕ) (buf : CStr) (strvec : List Token)
    (log : List StreamMessage) : Prop where
  tokens : allocStrvec buf = some strvec
  valid : (validateConfigStrvec strvec).1 = 0
  notEob : inside = true → optionName strvec ≠ eob
  logged : log =
    (validateConfigStrvec strvec).2.map (.line lineNr) ++ unmatchedEob lineNr (optionName strvec)

/-- A line that closes a section, and what is logged about it. -/
structure ClosingLine (lineNr : ℕ) (buf : CStr) (strvec : List Token) (log : List StreamMessage) :
    Prop where
  tokens : allocStrvec buf = some strvec
  valid : (validateConfigStrvec strvec).1 = 0
  isEob : optionName strvec = eob
  logged : log = (validateConfigStrvec strvec).2.map (.line lineNr)

/-- What lines mean for the keywords of their section: they change the configuration, their handlers'
results add up, and something is logged. In front come whether the lines are inside of a section, the
keywords, those of them that have been seen, and the number of the line before; the last value tells
whether a section is still open at the end. -/
inductive Means : Bool → List (KeywordTree σ) → List CStr → ℕ → List CStr → σ → ℤ → σ →
    List StreamMessage → Bool → Prop
  | nil {inside keywords uniques nr conf} : Means inside keywords uniques nr [] conf 0 conf [] false
  /-- A blank line or a comment. -/
  | skip {inside keywords uniques nr buf lines conf r conf' log unclosed}
      (hbuf : allocStrvec buf = none)
      (hrest : Means inside keywords uniques (nr + 1) lines conf r conf' log unclosed) :
      Means inside keywords uniques nr (buf :: lines) conf r conf' log unclosed
  /-- A line that is not valid. -/
  | invalid {inside keywords uniques nr buf lines conf r conf' log unclosed strvec}
      (hbuf : allocStrvec buf = some strvec) (hvalid : (validateConfigStrvec strvec).1 ≠ 0)
      (hrest : Means inside keywords uniques (nr + 1) lines conf r conf' log unclosed) :
      Means inside keywords uniques nr (buf :: lines) conf r conf'
        ((validateConfigStrvec strvec).2.map (.line (nr + 1)) ++ log) unclosed
  | unknown {inside keywords uniques nr buf lines conf r conf' first log unclosed strvec}
      (hbuf : OptionLine inside (nr + 1) buf strvec first)
      (hkey : lookupKeyword keywords (optionName strvec) = none)
      (hrest : Means inside keywords uniques (nr + 1) lines conf r conf' log unclosed) :
      Means inside keywords uniques nr (buf :: lines) conf r conf'
        (first ++ ([.line (nr + 1) (.unknownKeyword (optionName strvec))] ++ log)) unclosed
  | option {inside keywords uniques nr buf lines conf r conf' first log unclosed strvec}
      {keyword : KeywordTree σ} (hbuf : OptionLine inside (nr + 1) buf strvec first)
      (hkey : lookupKeyword keywords (optionName strvec) = some keyword) (hsub : keyword.sub = none)
      (hrest : Means inside keywords (keyword.addUnique uniques) (nr + 1) lines
        (keyword.handle (nr + 1) buf strvec conf).2.1 r conf' log unclosed) :
      Means inside keywords uniques nr (buf :: lines) conf
        ((keyword.handle (nr + 1) buf strvec conf).1 + r) conf'
        (first ++ (keyword.duplicates (nr + 1) uniques ++
          (keyword.handle (nr + 1) buf strvec conf).2.2 ++ log)) unclosed
  /-- A line that opens a section, the lines of the section, and the line that closes it. -/
  | sub {inside} {keywords sub : List (KeywordTree σ)}
      {uniques nr buf body close lines conf r r' conf₁ conf' first log last log' unclosed strvec strvec'}
      {keyword : KeywordTree σ} (hbuf : OptionLine inside (nr + 1) buf strvec first)
      (hkey : lookupKeyword keywords (optionName strvec) = some keyword) (hsub : keyword.sub = some sub)
      (hbody : Means true sub [] (nr + 1) body (keyword.handle (nr + 1) buf strvec conf).2.1 r conf₁
        log false)
      (hclose : ClosingLine (nr + 1 + body.length + 1) close strvec' last)
      (hrest : Means inside keywords (keyword.addUnique uniques) (nr + 1 + body.length + 1) lines conf₁
        r' conf' log' unclosed) :
      Means inside keywords uniques nr (buf :: (body ++ close :: lines)) conf
        ((keyword.handle (nr + 1) buf strvec conf).1 + r + r') conf'
        (first ++ (keyword.duplicates (nr + 1) uniques ++
          (keyword.handle (nr + 1) buf strvec conf).2.2 ++ (log ++ (last ++ log')))) unclosed
  /-- A section that the file ends in. -/
  | unclosed {inside} {keywords sub : List (KeywordTree σ)}
      {uniques nr buf body conf r conf' first log unclosed strvec} {keyword : KeywordTree σ}
      (hbuf : OptionLine inside (nr + 1) buf strvec first)
      (hkey : lookupKeyword keywords (optionName strvec) = some keyword) (hsub : keyword.sub = some sub)
      (hbody : Means true sub [] (nr + 1) body (keyword.handle (nr + 1) buf strvec conf).2.1 r conf'
        log unclosed) :
      Means inside keywords uniques nr (buf :: body) conf
        ((keyword.handle (nr + 1) buf strvec conf).1 + r) conf'
        (first ++ (keyword.duplicates (nr + 1) uniques ++
          (keyword.handle (nr + 1) buf strvec conf).2.2 ++ log)) true

section Steps
variable {turns kwLevel nr : ℕ} {uniques lines : List CStr} {conf : σ} {log first : List StreamMessage}
  {buf : CStr} {strvec : List Token} {inside : Bool}

theorem processStream_nil : processStream turns keywords kwLevel uniques ⟨conf, log, nr, []⟩ =
    (0, ⟨conf, log, nr, []⟩) := by
  cases turns <;> rfl

theorem processStream_skip (h : allocStrvec buf = none) :
    processStream (turns + 1) keywords kwLevel uniques ⟨conf, log, nr, buf :: lines⟩ =
      processStream turns keywords kwLevel uniques ⟨conf, log, nr + 1, lines⟩ := by
  rw [processStream]
  dsimp only
  rw [h]

theorem processStream_invalid (h : allocStrvec buf = some strvec)
    (hvalid : (validateConfigStrvec strvec).1 ≠ 0) :
    processStream (turns + 1) keywords kwLevel uniques ⟨conf, log, nr, buf :: lines⟩ =
      processStream turns keywords kwLevel uniques
        ⟨conf, log ++ (validateConfigStrvec strvec).2.map (.line (nr + 1)), nr + 1, lines⟩ := by
  rw [processStream]
  dsimp only
  rw [h]
  dsimp only
  rw [if_pos hvalid]

theorem processStream_close (h : ClosingLine (nr + 1) buf strvec first) (hlevel : 0 < kwLevel) :
    processStream (turns + 1) keywords kwLevel uniques ⟨conf, log, nr, buf :: lines⟩ =
      (0, ⟨conf, log ++ first, nr + 1, lines⟩) := by
  rw [processStream]
  dsimp only
  rw [h.tokens]
  dsimp only
  rw [if_neg (not_not.mpr h.valid), if_pos ⟨h.isEob, hlevel⟩, h.logged]

theorem processStream_unknown (h : OptionLine inside (nr + 1) buf strvec first)
    (hlevel : 0 < kwLevel → inside = true)
    (hkey : lookupKeyword keywords (optionName strvec) = none) :
    processStream (turns + 1) keywords kwLevel uniques ⟨conf, log, nr, buf :: lines⟩ =
      processStream turns keywords kwLevel uniques ⟨conf,
        log ++ first ++ [.line (nr + 1) (.unknownKeyword (optionName strvec))], nr + 1, lines⟩ := by
  have hopen : ¬(optionName strvec = eob ∧ 0 < kwLevel) := fun hc => h.notEob (hlevel hc.2) hc.1
  rw [processStream]
  dsimp only
  rw [h.tokens]
  dsimp only
  rw [if_neg (not_not.mpr h.valid), if_neg hopen, hkey, h.logged]
  simp only [List.append_assoc]

theorem processStream_keyword {keyword : KeywordTree σ}
    (h : OptionLine inside (nr + 1) buf strvec first) (hlevel : 0 < kwLevel → inside = true)
    (hkey : lookupKeyword keywords (optionName strvec) = some keyword) :
    processStream (turns + 1) keywords kwLevel uniques ⟨conf, log, nr, buf :: lines⟩ =
      let t := keyword.handle (nr + 1) buf strvec conf
      let s : Reader σ :=
        ⟨t.2.1, log ++ first ++ (keyword.duplicates (nr + 1) uniques ++ t.2.2), nr + 1, lines⟩
      let inner := match keyword.sub with
        | none => (0, s)
        | some sub => processStream turns sub (kwLevel + 1) [] s
      let outer := processStream turns keywords kwLevel (keyword.addUnique uniques) inner.2
      (t.1 + inner.1 + outer.1, outer.2) := by
  have hopen : ¬(optionName strvec = eob ∧ 0 < kwLevel) := fun hc => h.notEob (hlevel hc.2) hc.1
  rw [processStream]
  dsimp only
  rw [h.tokens]
  dsimp only
  rw [if_neg (not_not.mpr h.valid), if_neg hopen, hkey, h.logged]
  simp only [List.append_assoc]

end Steps

/-- Reading leaves the end of what there was. -/
theorem processStream_lines (turns : ℕ) (keywords : List (KeywordTree σ)) (kwLevel : ℕ)
    (uniques : List CStr) (s : Reader σ) :
    (processStream turns keywords kwLevel uniques s).2.lines <:+ s.lines := by
  fun_induction processStream turns keywords kwLevel uniques s with
  | case1 => exact List.suffix_rfl
  | case2 _ _ _ _ s h => exact List.suffix_rfl
  | case3 _ _ _ _ _ _ _ hlines _ _ ih => exact hlines ▸ ih.trans (List.suffix_cons _ _)
  | case4 _ _ _ _ _ _ _ hlines _ _ _ _ _ _ ih => exact hlines ▸ ih.trans (List.suffix_cons _ _)
  | case5 _ _ _ _ _ _ _ hlines => exact hlines ▸ List.suffix_cons _ _
  | case6 _ _ _ _ _ _ _ hlines _ _ _ _ _ _ _ _ _ _ ih =>
    exact hlines ▸ ih.trans (List.suffix_cons _ _)
  | case7 _ _ _ _ _ _ _ hlines _ _ _ _ _ _ _ _ _ keyword _ _ s inner _ ihsub ih =>
    have hinner : inner.2.lines <:+ s.lines := by
      unfold inner
      cases keyword.sub with
      | none => exact List.suffix_rfl
      | some sub => exact ihsub sub
    exact hlines ▸ (ih.trans hinner).trans (List.suffix_cons _ _)

theorem processStream_succ {turns : ℕ} {keywords : List (KeywordTree σ)} {kwLevel : ℕ}
    {uniques : List CStr} {s : Reader σ} (h : s.lines.length ≤ turns) :
    processStream (turns + 1) keywords kwLevel uniques s =
      processStream turns keywords kwLevel uniques s := by
  induction turns generalizing keywords kwLevel uniques s with
  | zero =>
    obtain ⟨conf, log, nr, lines⟩ := s
    obtain rfl : lines = [] := List.length_eq_zero_iff.mp (Nat.le_zero.mp h)
    rw [processStream_nil, processStream_nil]
  | succ turns ih =>
    obtain ⟨conf, log, nr, lines⟩ := s
    cases lines with
    | nil => rw [processStream_nil, processStream_nil]
    | cons buf lines =>
      have hlen : lines.length ≤ turns := Nat.le_of_succ_le_succ h
      rw [processStream.eq_2 _ _ _ _ (turns + 1), processStream.eq_2 _ _ _ _ turns]
      dsimp only
      cases allocStrvec buf with
      | none => exact ih hlen
      | some strvec =>
        dsimp only
        split
        · exact ih hlen
        · split
          · rfl
          · cases lookupKeyword keywords (optionName strvec) with
            | none => exact ih hlen
            | some keyword =>
              dsimp only
              cases keyword.sub with
              | none =>
                dsimp only
                rw [ih hlen]
              | some sub =>
                dsimp only
                have hsub {s : Reader σ} (hs : s.lines.length ≤ turns) :
                    processStream (turns + 1) sub (kwLevel + 1) [] s =
                      processStream turns sub (kwLevel + 1) [] s := ih hs
                rw [hsub hlen, ih]
                exact (processStream_lines turns sub _ _ _).length_le.trans hlen

/-- A bound of the number of lines is enough. -/
theorem processStream_turns {turns : ℕ} {s : Reader σ} (h : s.lines.length ≤ turns) (kwLevel : ℕ)
    (uniques : List CStr) : processStream turns keywords kwLevel uniques s =
      processStream s.lines.length keywords kwLevel uniques s := by
  induction turns, h using Nat.le_induction with
  | base => rfl
  | succ turns h ih => rw [processStream_succ h, ih]

/-- The lines of a section are read in their order, up to the line that ends the section. -/
theorem processStream_means {inside unclosed : Bool} {uniques lines : List CStr} {nr : ℕ}
    {conf conf' : σ} {r : ℤ} {log : List StreamMessage}
    (h : Means inside keywords uniques nr lines conf r conf' log unclosed) {kwLevel nr' : ℕ}
    (hlevel : 0 < kwLevel → inside = true) {rest rest' : List CStr} {last : List StreamMessage}
    (hend : unclosed = true → rest = [])
    (hrest : ∀ turns ≥ rest.length, ∀ uniques conf log,
      processStream turns keywords kwLevel uniques ⟨conf, log, nr + lines.length, rest⟩ =
        (0, ⟨conf, log ++ last, nr', rest'⟩)) {turns : ℕ} (hturns : (lines ++ rest).length ≤ turns)
    (before : List StreamMessage) :
    processStream turns keywords kwLevel uniques ⟨conf, before, nr, lines ++ rest⟩ =
      (r, ⟨conf', before ++ log ++ last, nr', rest'⟩) := by
  have hnext : ∀ (nr : ℕ) (buf : CStr) (lines : List CStr),
      nr + (buf :: lines).length = nr + 1 + lines.length := by
    intro nr buf lines
    rw [List.length_cons]
    omega
  induction h generalizing kwLevel nr' rest rest' last turns before with
  | nil =>
    rw [List.append_nil]
    exact hrest turns hturns _ _ _
  | skip hbuf _ ih =>
    obtain ⟨turns, rfl⟩ := Nat.exists_eq_add_one_of_ne_zero (show turns ≠ 0 by simp at hturns; omega)
    rw [hnext] at hrest
    rw [List.cons_append, processStream_skip hbuf]
    exact ih hlevel hend hrest (Nat.le_of_succ_le_succ hturns) before
  | invalid hbuf hvalid _ ih =>
    obtain ⟨turns, rfl⟩ := Nat.exists_eq_add_one_of_ne_zero (show turns ≠ 0 by simp at hturns; omega)
    rw [hnext] at hrest
    rw [List.cons_append, processStream_invalid hbuf hvalid,
      ih hlevel hend hrest (Nat.le_of_succ_le_succ hturns), List.append_assoc before]
  | unknown hbuf hkey _ ih =>
    obtain ⟨turns, rfl⟩ := Nat.exists_eq_add_one_of_ne_zero (show turns ≠ 0 by simp at hturns; omega)
    rw [hnext] at hrest
    rw [List.cons_append, processStream_unknown hbuf hlevel hkey,
      ih hlevel hend hrest (Nat.le_of_succ_le_succ hturns)]
    simp only [List.append_assoc]
  | option hbuf hkey hsub _ ih =>
    obtain ⟨turns, rfl⟩ := Nat.exists_eq_add_one_of_ne_zero (show turns ≠ 0 by simp at hturns; omega)
    rw [hnext] at hrest
    rw [List.cons_append, processStream_keyword hbuf hlevel hkey]
    dsimp only
    rw [hsub]
    dsimp only
    rw [ih hlevel hend hrest (Nat.le_of_succ_le_succ hturns)]
    simp only [List.append_assoc, Int.add_zero]
  | @sub inside keywords sub uniques nr buf body close lines conf r r' conf₁ conf' first log closing log'
      unclosed strvec strvec' keyword hbuf hkey hsub _ hclose _ ihbody ih =>
    obtain ⟨turns, rfl⟩ := Nat.exists_eq_add_one_of_ne_zero (show turns ≠ 0 by simp at hturns; omega)
    have hnr : nr + (buf :: (body ++ close :: lines)).length =
        nr + 1 + body.length + 1 + lines.length := by
      simp only [List.length_cons, List.length_append]
      omega
    rw [hnr] at hrest
    simp only [List.cons_append, List.append_assoc, List.length_cons, List.length_append] at hturns ⊢
    rw [processStream_keyword hbuf hlevel hkey]
    dsimp only
    rw [hsub]
    dsimp only
    -- the section ends at its closing line
    have hstop : ∀ turns ≥ (close :: (lines ++ rest)).length, ∀ uniques conf log,
        processStream turns sub (kwLevel + 1) uniques
            ⟨conf, log, nr + 1 + body.length, close :: (lines ++ rest)⟩ =
          (0, ⟨conf, log ++ closing, nr + 1 + body.length + 1, lines ++ rest⟩) := by
      intro turns hturns uniques conf log
      obtain ⟨turns, rfl⟩ := Nat.exists_eq_add_one_of_ne_zero
        (show turns ≠ 0 by simp at hturns; omega)
      exact processStream_close hclose (Nat.succ_pos kwLevel)
    rw [ihbody (fun _ => rfl) (fun hc => Bool.noConfusion hc) hstop (by simp; omega)]
    dsimp only
    rw [ih hlevel hend hrest (by simp; omega)]
    simp only [List.append_assoc]
  | @unclosed inside keywords sub uniques nr buf body conf r conf' first log unclosed strvec keyword hbuf
      hkey hsub _ ihbody =>
    obtain ⟨turns, rfl⟩ := Nat.exists_eq_add_one_of_ne_zero (show turns ≠ 0 by simp at hturns; omega)
    obtain rfl := hend rfl
    rw [hnext] at hrest
    rw [List.cons_append, processStream_keyword hbuf hlevel hkey]
    dsimp only
    rw [hsub]
    dsimp only
    have hstop : ∀ turns ≥ ([] : List CStr).length, ∀ uniques conf log,
        processStream turns sub (kwLevel + 1) uniques ⟨conf, log, nr + 1 + body.length, []⟩ =
          (0, ⟨conf, log ++ [], nr + 1 + body.length, []⟩) := by
      intro turns _ uniques conf log
      rw [processStream_nil, List.append_nil]
    rw [ihbody (fun _ => rfl) (fun _ => rfl) hstop (Nat.le_of_succ_le_succ hturns)]
    dsimp only
    rw [hrest turns (Nat.zero_le turns)]
    simp only [List.append_assoc, List.append_nil, Int.add_zero]

end Stream

section Lines

theorem strvecLoop_tabs (level : ℕ) (t : CStr) :
    strvecLoop false (List.replicate level '\t' ++ t) = strvecLoop false t := by
  apply strvecLoop_blanks
  intro c hc
  rw [List.eq_of_mem_replicate hc]
  decide

theorem strvecLoop_space (t : CStr) : strvecLoop false (' ' :: t) = strvecLoop false t :=
  strvecLoop_blanks (a := [' ']) (t := t) (by decide)

theorem strvecLoop_brace {c : Char} (hc : c = '{' ∨ c = '}') (t : CStr) :
    strvecLoop false (c :: t) = .word [c] :: strvecLoop false t := by
  have hskip : skipBlanks false (c :: t) = c :: t := by
    apply skipBlanks_cons
    obtain rfl | rfl := hc <;> decide
  have htoken : nextToken false c t = (.word [c], false, t) := by
    unfold nextToken
    obtain rfl | rfl := hc <;> rfl
  rw [strvecLoop_cons hskip fun _ => by obtain rfl | rfl := hc <;> decide, htoken]

/-- The tokens of a line with a value. -/
theorem allocStrvec_value {string text s : CStr} {tokens : List Token} (hname : IsBareWord string)
    (level : ℕ) (h : Tokens text tokens s) :
    allocStrvec (List.replicate level '\t' ++ (string ++ ' ' :: text)) =
      some (.word string :: tokens) := by
  have hloop : strvecLoop false (string ++ ' ' :: text) = .word string :: tokens := by
    cases h with
    | bare hw =>
      have hword := strvecLoop_word (t := []) hw (by simp [EndsWord])
      rw [List.append_nil, strvecLoop_nil] at hword
      rw [strvecLoop_word hname (by intro c hc; cases hc; decide), strvecLoop_space, hword]
    | quoted => exact strvecLoop_quoted hname s
  rw [allocStrvec, strvecLoop_tabs, hloop]

theorem allocStrvec_open {name : CStr} (hname : IsBareWord name) (level : ℕ) :
    allocStrvec (List.replicate level '\t' ++ (name ++ " \x7b".toList)) =
      some [.word name, .word ['{']] := by
  have hloop : strvecLoop false (name ++ " \x7b".toList) = [.word name, .word ['{']] := by
    show strvecLoop false (name ++ ' ' :: ['{']) = _
    rw [strvecLoop_word hname (by intro c hc; cases hc; decide), strvecLoop_space,
      strvecLoop_brace (.inl rfl), strvecLoop_nil]
  rw [allocStrvec, strvecLoop_tabs, hloop]

theorem allocStrvec_close (level : ℕ) :
    allocStrvec (List.replicate level '\t' ++ ['}']) = some [.word ['}']] := by
  rw [allocStrvec, strvecLoop_tabs, strvecLoop_brace (.inr rfl), strvecLoop_nil]

theorem allocStrvec_comment (level : ℕ) (t : CStr) :
    allocStrvec (List.replicate level '\t' ++ '#' :: t) = none := by
  rw [allocStrvec, strvecLoop_tabs, strvecLoop_comment (skipBlanks_cons (by decide)) (by decide)]

theorem isBareWord_head_ne {name : CStr} (h : IsBareWord name) {c : Char} (hc : isBrace c = true) :
    name.head? ≠ some c := by
  intro heq
  have hword := isWordChar_iff.mp (h.2 c (List.mem_of_head? heq))
  rw [hc] at hword
  cases hword.2.2.1

theorem isBareWord_ne_eob {name : CStr} (h : IsBareWord name) : name ≠ eob := by
  rintro rfl
  exact isBareWord_head_ne h (c := '}') (by decide) rfl

variable {inside : Bool} {nr : ℕ}

/-- Nothing is logged about a line that opens a section. -/
theorem optionLine_open {name : CStr} (hname : IsBareWord name) (level : ℕ) :
    OptionLine inside nr (List.replicate level '\t' ++ (name ++ " \x7b".toList))
      [.word name, .word ['{']] [] := by
  have hvalid : validateConfigStrvec [.word name, .word ['{']] = (0, []) := by
    unfold validateConfigStrvec
    dsimp only [Token.text]
    rw [if_neg (isBareWord_head_ne hname (by decide)), if_neg (isBareWord_head_ne hname (by decide))]
    split <;> rfl
  refine ⟨allocStrvec_open hname level, by rw [hvalid], fun _ => isBareWord_ne_eob hname, ?_⟩
  have hmatched : unmatchedEob nr (optionName [.word name, .word ['{']]) = [] :=
    if_neg (isBareWord_ne_eob hname)
  rw [hvalid, hmatched]
  rfl

/-- Nothing is logged about a line with a value. -/
theorem optionLine_value {string text s : CStr} {tokens : List Token} (hname : IsBareWord string)
    (hsub : isSublevelKeyword string = false) (level : ℕ) (h : Tokens text tokens s) :
    OptionLine inside nr (List.replicate level '\t' ++ (string ++ ' ' :: text))
      (.word string :: tokens) [] := by
  have hvalid := validateConfigStrvec_printed hname hsub h
  refine ⟨allocStrvec_value hname level h, by rw [hvalid], fun _ => isBareWord_ne_eob hname, ?_⟩
  have hmatched : unmatchedEob nr (optionName (.word string :: tokens)) = [] :=
    if_neg (isBareWord_ne_eob hname)
  rw [hvalid, hmatched]
  rfl

/-- Nothing is logged about the line that closes a section. -/
theorem closingLine_close (level : ℕ) :
    ClosingLine nr (List.replicate level '\t' ++ ['}']) [.word ['}']] [] :=
  ⟨allocStrvec_close level, rfl, rfl, rfl⟩

/-- A line that `read_line` gives back as it is. -/
def LineFits (line : CStr) : Prop :=
  line.length < maxbuf - 1 ∧ '\n' ∉ line ∧ '\r' ∉ line ∧ nul ∉ line

theorem cutLine_of_fits {line : CStr} (hne : line ≠ []) (h : LineFits line) :
    cutLine ((line ++ ['\n']).takeWhile (· ≠ nul)) = line := by
  obtain ⟨-, hnl, hcr, hnul⟩ := h
  have hnot : ∀ c ∈ line, (c = '\n' ∨ c = '\r') = False := by
    intro c hc
    simp only [eq_iff_iff, iff_false, not_or]
    exact ⟨fun h => hnl (h ▸ hc), fun h => hcr (h ▸ hc)⟩
  have hkeep : (line ++ ['\n']).takeWhile (fun c => decide (c ≠ nul)) = line ++ ['\n'] := by
    apply List.takeWhile_eq_self_iff.mpr
    intro c hc
    rw [List.mem_append, List.mem_singleton] at hc
    obtain hc | rfl := hc
    · exact decide_eq_true fun h => hnul (h ▸ hc)
    · decide
  obtain ⟨c, s, rfl⟩ := List.exists_cons_of_ne_nil hne
  have hc : decide (c = '\n' ∨ c = '\r') = false := by simp [hnot c List.mem_cons_self]
  rw [hkeep, cutLine]
  dsimp only
  rw [List.cons_append, List.takeWhile_cons_of_neg (by simp [hc]),
    List.dropWhile_cons_of_neg (by simp [hc]), List.nil_append, ← List.cons_append,
    List.takeWhile_append_of_pos (fun d hd => by simp [hnot d hd])]
  simp

/-- Lines that fit are read as they are. -/
theorem streamLines_flatMap {lines : List CStr} (h : ∀ line ∈ lines, line ≠ [] ∧ LineFits line) :
    streamLines (lines.flatMap (· ++ ['\n'])) = lines := by
  unfold streamLines
  rw [readLines_flatMap fun line hline => ⟨(h line hline).2.2.1, (h line hline).2.1⟩, List.map_map]
  conv_rhs => rw [← List.map_id lines]
  exact List.map_congr_left fun line hline => cutLine_of_fits (h line hline).1 (h line hline).2

end Lines

section Every
variable {σ : Type} {keywords sub : List (KeywordTree σ)} {uniques lines : List CStr} {nr : ℕ} {conf : σ}
  {buf : CStr} {strvec : List Token} {first : List StreamMessage} {inside : Bool}
  {keyword : KeywordTree σ}

/-- The lines have a meaning up to one that closes the section around them, or all of them have. -/
def HasMeaning (inside : Bool) (keywords : List (KeywordTree σ)) (uniques : List CStr) (nr : ℕ)
    (lines : List CStr) (conf : σ) : Prop :=
  ∃ body rest r conf' log unclosed, lines = body ++ rest ∧
    Means inside keywords uniques nr body conf r conf' log unclosed ∧ (unclosed = true → rest = []) ∧
    (rest = [] ∨ inside = true ∧ ∃ close after strvec last, rest = close :: after ∧
      ClosingLine (nr + body.length + 1) close strvec last)

/-- A line in front of others, with what it means where they have a meaning. -/
theorem HasMeaning.cons {uniques' : List CStr} {conf₁ : σ}
    (h : HasMeaning inside keywords uniques' (nr + 1) lines conf₁)
    (hline : ∀ {body r conf' log unclosed},
      Means inside keywords uniques' (nr + 1) body conf₁ r conf' log unclosed →
      ∃ r' log', Means inside keywords uniques nr (buf :: body) conf r' conf' log' unclosed) :
    HasMeaning inside keywords uniques nr (buf :: lines) conf := by
  obtain ⟨body, rest, r, conf', log, unclosed, rfl, hmeans, hend, hrest⟩ := h
  obtain ⟨r', log', hmeans'⟩ := hline hmeans
  refine ⟨buf :: body, rest, r', conf', log', unclosed, rfl, hmeans', hend, ?_⟩
  have hnr : nr + (buf :: body).length = nr + 1 + body.length := by
    rw [List.length_cons]
    omega
  rwa [hnr]

/-- A line that opens a section. -/
theorem HasMeaning.opens (hbuf : OptionLine inside (nr + 1) buf strvec first)
    (hkey : lookupKeyword keywords (optionName strvec) = some keyword) (hsub : keyword.sub = some sub)
    (hbody : HasMeaning true sub [] (nr + 1) lines (keyword.handle (nr + 1) buf strvec conf).2.1)
    (hrest : ∀ (nr : ℕ) (after : List CStr) (conf : σ), after.length < lines.length →
      HasMeaning inside keywords (keyword.addUnique uniques) nr after conf) :
    HasMeaning inside keywords uniques nr (buf :: lines) conf := by
  obtain ⟨body, rest, r, conf₁, log, unclosed, rfl, hmeans, hend, hclose⟩ := hbody
  obtain rfl | ⟨-, close, after, strvec', last, rfl, hclose⟩ := hclose
  · rw [List.append_nil]
    exact ⟨buf :: body, [], _, _, _, true, (List.append_nil _).symm,
      .unclosed hbuf hkey hsub hmeans, fun _ => rfl, .inl rfl⟩
  · have hclosed : unclosed = false := by
      cases unclosed with
      | false => rfl
      | true => cases hend rfl
    rw [hclosed] at hmeans
    obtain ⟨body', rest', r', conf', log', unclosed', rfl, hmeans', hend', hclose'⟩ :=
      hrest (nr + 1 + body.length + 1) after conf₁ (by simp; omega)
    refine ⟨buf :: (body ++ close :: body'), rest', _, _, _, _, by simp,
      .sub hbuf hkey hsub hmeans hclose hmeans', hend', ?_⟩
    have hnr : nr + (buf :: (body ++ close :: body')).length =
        nr + 1 + body.length + 1 + body'.length := by
      simp only [List.length_cons, List.length_append]
      omega
    rwa [hnr]

/-- All lines have a meaning. -/
theorem hasMeaning (inside : Bool) (keywords : List (KeywordTree σ)) (uniques : List CStr) (nr : ℕ)
    (lines : List CStr) (conf : σ) : HasMeaning inside keywords uniques nr lines conf := by
  induction hk : lines.length using Nat.strong_induction_on
    generalizing inside keywords uniques nr lines conf with
  | _ k ih =>
    cases lines with
    | nil => exact ⟨[], [], _, _, _, false, rfl, .nil, fun _ => rfl, .inl rfl⟩
    | cons buf lines =>
      have hlt : lines.length < k := by rw [← hk, List.length_cons]; omega
      cases hbuf : allocStrvec buf with
      | none => exact (ih _ hlt _ _ _ _ _ _ rfl).cons fun h => ⟨_, _, .skip hbuf h⟩
      | some strvec =>
        by_cases hvalid : (validateConfigStrvec strvec).1 = 0
        · by_cases heob : inside = true ∧ optionName strvec = eob
          · exact ⟨[], buf :: lines, _, _, _, false, rfl, .nil, fun hc => Bool.noConfusion hc,
              .inr ⟨heob.1, buf, lines, strvec, _, rfl, hbuf, hvalid, heob.2, rfl⟩⟩
          · have hline : OptionLine inside (nr + 1) buf strvec _ :=
              ⟨hbuf, hvalid, fun hin he => heob ⟨hin, he⟩, rfl⟩
            cases hkey : lookupKeyword keywords (optionName strvec) with
            | none => exact (ih _ hlt _ _ _ _ _ _ rfl).cons fun h => ⟨_, _, .unknown hline hkey h⟩
            | some keyword =>
              cases hsub : keyword.sub with
              | none =>
                exact (ih _ hlt _ _ _ _ _ _ rfl).cons fun h => ⟨_, _, .option hline hkey hsub h⟩
              | some sub =>
                exact .opens hline hkey hsub (ih _ hlt _ _ _ _ _ _ rfl) fun nr after conf hafter =>
                  ih _ (hafter.trans hlt) _ _ _ _ _ _ rfl
        · exact (ih _ hlt _ _ _ _ _ _ rfl).cons fun h => ⟨_, _, .invalid hbuf hvalid h⟩

end Every

section File
variable {σ : Type} {keywords : List (KeywordTree σ)} {stream : CStr} {conf conf' : σ} {r : ℤ}
  {log : List StreamMessage} {unclosed : Bool}

/-- A file is read as it is meant. -/
theorem processFile_of_means
    (h : Means false keywords [] 0 (streamLines stream) conf r conf' log unclosed) :
    processFile keywords conf stream = (r, conf', log) := by
  have hrest : ∀ turns ≥ ([] : List CStr).length, ∀ uniques conf log,
      processStream turns keywords 0 uniques ⟨conf, log, 0 + (streamLines stream).length, []⟩ =
        (0, ⟨conf, log ++ ([] : List StreamMessage), 0 + (streamLines stream).length, []⟩) := by
    intro turns _ uniques conf log
    rw [processStream_nil, List.append_nil]
  have hlines : (streamLines stream ++ []).length ≤ (streamLines stream).length := by
    rw [List.append_nil]
  have hread := processStream_means h (fun hc => absurd hc (Nat.lt_irrefl 0)) (fun _ => rfl) hrest
    hlines []
  rw [List.append_nil] at hread
  unfold processFile
  dsimp only
  rw [hread]
  simp

/-- Every file is read as it is meant: the result, the configuration and what is logged are those of the
sections, and no others. -/
theorem processFile_means (keywords : List (KeywordTree σ)) (conf : σ) (stream : CStr) (r : ℤ)
    (conf' : σ) (log : List StreamMessage) :
    processFile keywords conf stream = (r, conf', log) ↔
      ∃ unclosed, Means false keywords [] 0 (streamLines stream) conf r conf' log unclosed := by
  constructor
  · intro h
    obtain ⟨body, rest, r₁, conf₁, log₁, unclosed, hlines, hmeans, -, rfl | ⟨hc, -⟩⟩ :=
      hasMeaning false keywords [] 0 (streamLines stream) conf
    · rw [List.append_nil] at hlines
      rw [← hlines] at hmeans
      obtain ⟨rfl, rfl, rfl⟩ : r₁ = r ∧ conf₁ = conf' ∧ log₁ = log := by
        simpa using (processFile_of_means hmeans).symm.trans h
      exact ⟨unclosed, hmeans⟩
    · cases hc
  · rintro ⟨unclosed, h⟩
    exact processFile_of_means h

/-- An option whose tokens are stored. -/
def sampleOption : KeywordTree (List CStr) where
  string := "verbosity".toList
  unique := true
  handler := some fun strvec conf => (0, conf ++ strvec.map Token.text, [])
  sub := none

/-- A section with this option. -/
def sampleSection : KeywordTree (List CStr) where
  string := "defaults".toList
  unique := true
  handler := none
  sub := some [sampleOption]

/-- A brace too many, and a section that is not closed. -/
example : processFile [sampleSection] [] "\x7d\ndefaults \x7b\n\tverbosity 3\n".toList =
    (0, ["verbosity".toList, "3".toList],
      [.unmatched 1, .line 1 (.unknownKeyword ['}'])]) := by decide +kernel

end File

end MultipathTools.Parser
