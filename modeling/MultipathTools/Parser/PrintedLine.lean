import MultipathTools.Parser.Values

/-! The tokens of a line that `snprint_keyword` has printed. -/
namespace MultipathTools.Parser

/-- The formats that keywords are printed with: a tab for each level of the section. -/
def keywordFormat (level : ℕ) : CStr := List.replicate level '\t' ++ ['%', 'k', ' ', '%', 'v', '\n']

/-- A text that is a token of its own. -/
def IsBareWord (w : CStr) : Prop := w ≠ [] ∧ ∀ c ∈ w, isWordChar c = true

instance (w : CStr) : Decidable (IsBareWord w) := inferInstanceAs (Decidable (_ ∧ _))

/-- A text that a word does not go on with. -/
def EndsWord (t : CStr) : Prop := ∀ c ∈ t.head?, isWordChar c = false

theorem snprintKeyword_format (level : ℕ) (string : CStr) (value : Option CStr) :
    snprintKeyword string value (keywordFormat level) = value.map fun text =>
      List.replicate level '\t' ++ (string ++ ' ' :: (text ++ ['\n'])) := by
  induction level with
  | zero => cases value <;> rfl
  | succ level ih =>
    show (snprintKeyword string value (keywordFormat level)).map ('\t' :: ·) = _
    rw [ih, Option.map_map]
    rfl

section Loop

theorem strvecLoop_end {inString : Bool} {cp : CStr} (h : skipBlanks inString cp = []) :
    strvecLoop inString cp = [] := by
  rw [strvecLoop]
  split
  · rfl
  · next h' => cases h.symm.trans h'

theorem strvecLoop_comment {cp s : CStr} {c : Char} (h : skipBlanks false cp = c :: s)
    (hc : isComment c = true) : strvecLoop false cp = [] := by
  rw [strvecLoop]
  split
  · rfl
  · next h' =>
    cases h.symm.trans h'
    rw [dif_pos ⟨rfl, hc⟩]

/-- Blanks in front of a token do not matter. -/
theorem strvecLoop_blanks {a t : CStr} (ha : ∀ c ∈ a, isBlank c = true) :
    strvecLoop false (a ++ t) = strvecLoop false t := by
  have hskip : skipBlanks false (a ++ t) = skipBlanks false t :=
    List.dropWhile_append_of_pos ha
  cases h : skipBlanks false t with
  | nil => rw [strvecLoop_end h, strvecLoop_end (hskip.trans h)]
  | cons c s =>
    by_cases hc : isComment c = true
    · rw [strvecLoop_comment h hc, strvecLoop_comment (hskip.trans h) hc]
    · rw [strvecLoop_cons (hskip.trans h) fun _ => by simpa using hc,
        strvecLoop_cons h fun _ => by simpa using hc]

theorem strvecLoop_nil (inString : Bool) : strvecLoop inString [] = [] := by
  apply strvecLoop_end
  cases inString <;> rfl

theorem isWordChar_iff {c : Char} : isWordChar c = true ↔
    isBlank c = false ∧ isComment c = false ∧ isBrace c = false ∧ c ≠ '"' := by
  simp [isWordChar, and_assoc]

theorem skipBlanks_cons {c : Char} {s : CStr} (h : isBlank c = false) :
    skipBlanks false (c :: s) = c :: s :=
  List.dropWhile_cons_of_neg (by simp [h])

/-- A word is taken as a whole. -/
theorem strvecLoop_word {w t : CStr} (hw : IsBareWord w) (ht : EndsWord t) :
    strvecLoop false (w ++ t) = .word w :: strvecLoop false t := by
  obtain ⟨hne, hchars⟩ := hw
  obtain ⟨c, s, rfl⟩ := List.exists_cons_of_ne_nil hne
  obtain ⟨hblank, hcomment, hbrace, hquote⟩ := isWordChar_iff.mp (hchars c List.mem_cons_self)
  have htail : t.takeWhile isWordChar = [] ∧ t.dropWhile isWordChar = t := by
    cases t with
    | nil => exact ⟨rfl, rfl⟩
    | cons d t => simp [ht d rfl]
  have htoken : nextToken false c (s ++ t) = (.word (c :: s), false, t) := by
    unfold nextToken
    rw [if_neg (fun h => hquote h.1), if_neg (by simp [hbrace]), if_neg (by decide),
      ← List.cons_append, List.takeWhile_append_of_pos hchars, List.dropWhile_append_of_pos hchars,
      htail.1, htail.2, List.append_nil]
  rw [List.cons_append, strvecLoop_cons (skipBlanks_cons hblank) fun _ => hcomment, htoken]

theorem strvecLoop_openQuote (t : CStr) :
    strvecLoop false ('"' :: t) = .quoteMarker :: strvecLoop true t := by
  have htoken : nextToken false '"' t = (.quoteMarker, true, t) := if_pos ⟨rfl, by simp⟩
  rw [strvecLoop_cons (skipBlanks_cons (by decide)) fun _ => by decide, htoken]

theorem strvecLoop_closeQuote {t : CStr} (ht : t.head? ≠ some '"') :
    strvecLoop true ('"' :: t) = .quoteMarker :: strvecLoop false t := by
  have htoken : nextToken true '"' t = (.quoteMarker, false, t) := if_pos ⟨rfl, by simpa using ht⟩
  rw [strvecLoop_cons (s := t) (c := '"') rfl Bool.noConfusion, htoken]

/-- A string with its quotes doubled is one token, with the quotes undone. -/
theorem strvecLoop_string {s t : CStr} (hs : s ≠ []) (ht : t.head? ≠ some '"') :
    strvecLoop true (doubleQuotes s ++ '"' :: t) = .word s :: strvecLoop true ('"' :: t) := by
  obtain ⟨c, d, hd⟩ := List.exists_cons_of_ne_nil (mt doubleQuotes_eq_nil_iff.mp hs)
  have hscan := scanString_doubleQuotes s ht
  have hfirst : c = '"' → (d ++ '"' :: t).head? = some '"' := by
    intro hc
    obtain ⟨a, s', rfl⟩ := List.exists_cons_of_ne_nil hs
    unfold doubleQuotes at hd
    split at hd
    · obtain ⟨-, rfl⟩ := List.cons.inj hd
      rfl
    · next ha => exact absurd ((List.cons.inj hd).1.trans hc) ha
  have htoken : nextToken true c (d ++ '"' :: t) = (.word s, true, '"' :: t) := by
    unfold nextToken
    rw [if_neg (fun h => by simp [hfirst h.1] at h), if_neg (by simp), if_pos rfl,
      ← List.cons_append, ← hd, hscan, unquote_doubleQuotes]
  rw [hd, List.cons_append, strvecLoop_cons (c := c) rfl Bool.noConfusion, htoken]

end Loop

/-- The tokens of a value. -/
inductive Tokens : CStr → List Token → CStr → Prop
  | bare {w : CStr} (hw : IsBareWord w) : Tokens w [.word w] w
  | quoted (s : CStr) : Tokens (quoted s)
      (.quoteMarker :: ((if s = [] then [] else [.word s]) ++ [.quoteMarker])) s

theorem tokens_of_strvecLoop {text s : CStr} {tokens : List Token} (h : Tokens text tokens s) :
    strvecLoop false (text ++ ['\n']) = tokens := by
  have hend : strvecLoop false ['\n'] = [] := by
    have hblank := strvecLoop_blanks (a := ['\n']) (t := []) (by decide)
    rwa [List.append_nil, strvecLoop_nil] at hblank
  cases h with
  | bare hw =>
    rw [strvecLoop_word hw (by intro c hc; cases hc; decide), hend]
  | quoted =>
    have hclose := strvecLoop_closeQuote (t := ['\n']) (by decide)
    rw [hend] at hclose
    rw [quoted, List.cons_append, strvecLoop_openQuote, List.append_assoc, List.singleton_append]
    split
    · next hs =>
      rw [hs]
      exact congrArg _ hclose
    · next hs => rw [strvecLoop_string hs (by decide), hclose, List.singleton_append]

/-- The tokens of a printed line. -/
theorem allocStrvec_printed {string text s : CStr} {tokens : List Token} (hname : IsBareWord string)
    (level : ℕ) (h : Tokens text tokens s) :
    allocStrvec (List.replicate level '\t' ++ (string ++ ' ' :: (text ++ ['\n']))) =
      some (.word string :: tokens) := by
  have hloop : strvecLoop false (List.replicate level '\t' ++ (string ++ ' ' :: (text ++ ['\n']))) =
      .word string :: tokens := by
    have htabs : ∀ c ∈ List.replicate level '\t', isBlank c = true := by
      intro c hc
      rw [List.eq_of_mem_replicate hc]
      decide
    rw [strvecLoop_blanks htabs, strvecLoop_word hname (by intro c hc; cases hc; decide)]
    have hblank := strvecLoop_blanks (a := [' ']) (t := text ++ ['\n']) (by decide)
    rw [List.singleton_append] at hblank
    rw [hblank, tokens_of_strvecLoop h]
  rw [allocStrvec, hloop]

/-- A printed value is taken as it is. -/
theorem setValue_printed {string text s : CStr} {tokens : List Token} (h : Tokens text tokens s) :
    setValue (.word string :: tokens) = .ok s := by
  cases h with
  | bare hw => exact if_neg hw.1
  | quoted =>
    by_cases hs : s = []
    · rw [hs]
      rfl
    · rw [if_neg hs]
      rfl

/-- Nothing is logged about a printed line. -/
theorem validateConfigStrvec_printed {string text s : CStr} {tokens : List Token}
    (hname : IsBareWord string) (hsub : isSublevelKeyword string = false)
    (h : Tokens text tokens s) : validateConfigStrvec (.word string :: tokens) = (0, []) := by
  have hhead : ∀ c, isBrace c = true → string.head? ≠ some c := by
    intro c hc heq
    have hword := isWordChar_iff.mp (hname.2 c (List.mem_of_head? heq))
    rw [hc] at hword
    cases hword.2.2.1
  unfold validateConfigStrvec
  dsimp only [Token.text]
  rw [if_neg (hhead '}' (by decide)), if_neg (hhead '{' (by decide)), if_neg (by simp [hsub])]
  cases h with
  | bare hw => rfl
  | quoted =>
    by_cases hs : s = []
    · rw [hs]
      rfl
    · rw [if_neg hs]
      rfl

end MultipathTools.Parser
