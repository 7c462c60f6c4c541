import MultipathTools.Base.CString

/-! The tokeniser of configuration lines and of client commands (`parser.c`). -/
namespace MultipathTools.Parser

/-- A slot of a token vector. -/
inductive Token where
  | quoteMarker
  | word (str : CStr)
  deriving DecidableEq, Repr

def isQuote : Token → Bool
  | .quoteMarker => true
  | .word _ => false

/-- What separates words outside of a quoted string. -/
def isBlank (c : Char) : Bool := isspace c || !isascii c

def isComment (c : Char) : Bool := c = '!' ∨ c = '#'

def isBrace (c : Char) : Bool := c = '{' ∨ c = '}'

def isWordChar (c : Char) : Bool :=
  !isBlank c && !isComment c && !isBrace c && c ≠ '"'

/-- The scan of `move_on` inside of a quoted string: two quotes do not end it. The token as
it stands in the line, and the rest of the line. -/
def scanString : CStr → CStr × CStr
  | [] => ([], [])
  | c :: cp =>
    if c ≠ '"' then
      let r := scanString cp
      (c :: r.1, r.2)
    else
      match cp with
      | '"' :: cp =>
        let r := scanString cp
        ('"' :: '"' :: r.1, r.2)
      | _ => ([], c :: cp)

/-- The loop that replaces `""` by `"`. -/
def unquote : CStr → CStr
  | '"' :: '"' :: s => '"' :: unquote s
  | c :: s => c :: unquote s
  | [] => []

/-- One turn of the loop of `alloc_strvec`, with `cp` at the character `c`: the token, whether
the loop is inside of a quoted string then, and the rest of the line. -/
def nextToken (inString : Bool) (c : Char) (cp : CStr) : Token × Bool × CStr :=
  if c = '"' ∧ !(inString ∧ cp.head? = some '"') then (.quoteMarker, !inString, cp)
  else if !inString ∧ isBrace c then (.word [c], inString, cp)
  else if inString then
    (.word (unquote (scanString (c :: cp)).1), inString, (scanString (c :: cp)).2)
  else (.word ((c :: cp).takeWhile isWordChar), inString, (c :: cp).dropWhile isWordChar)

theorem scanString_length (cp : CStr) : (scanString cp).2.length ≤ cp.length := by
  fun_induction scanString cp with
  | case1 => simp
  | case2 c cp _ r ih => exact ih.trans (Nat.le_succ _)
  | case3 c _ cp r ih => exact ih.trans ((Nat.le_succ _).trans (Nat.le_succ _))
  | case4 c cp => simp

/-- A turn of the loop takes at least one character. -/
theorem nextToken_length {inString : Bool} {c : Char} (cp : CStr)
    (hb : inString = false → isBlank c = false) (hc : inString = false → isComment c = false) :
    (nextToken inString c cp).2.2.length ≤ cp.length := by
  unfold nextToken
  split_ifs with hq hbr hs
  · exact le_rfl
  · exact le_rfl
  · -- in a string the character is no quote, or the first of two
    subst hs
    by_cases hcq : c = '"'
    · obtain ⟨s, rfl⟩ : ∃ s, cp = '"' :: s := by
        cases cp <;> simp_all
      subst hcq
      exact (scanString_length s).trans (Nat.le_succ _)
    · unfold scanString
      rw [if_pos hcq]
      exact scanString_length cp
  · have hs' : inString = false := by simpa using hs
    have hw : isWordChar c = true := by
      simp_all [isWordChar]
    simpa [List.dropWhile_cons, hw] using (List.dropWhile_suffix isWordChar).length_le

/-- Where the loop of `alloc_strvec` goes on: blanks count inside of a quoted string. -/
def skipBlanks (inString : Bool) (cp : CStr) : CStr :=
  if inString then cp else cp.dropWhile isBlank

theorem skipBlanks_length (inString : Bool) (cp : CStr) :
    (skipBlanks inString cp).length ≤ cp.length := by
  unfold skipBlanks
  split_ifs
  · exact le_rfl
  · exact (List.dropWhile_suffix _).length_le

theorem isBlank_of_skipBlanks {inString : Bool} {cp s : CStr} {c : Char}
    (h : skipBlanks inString cp = c :: s) (hs : inString = false) : isBlank c = false := by
  subst hs
  have hne : cp.dropWhile isBlank ≠ [] := fun hn => by simp [skipBlanks, hn] at h
  have hhead := List.head_dropWhile_not isBlank hne
  simpa [show cp.dropWhile isBlank = c :: s from h] using hhead

/-- The loop of `alloc_strvec`, to the end of the line or to a comment. -/
def strvecLoop (inString : Bool) (cp : CStr) : List Token :=
  match _ : skipBlanks inString cp with
  | [] => []
  | c :: s =>
    if _ : inString = false ∧ isComment c = true then []
    else (nextToken inString c s).1 ::
      strvecLoop (nextToken inString c s).2.1 (nextToken inString c s).2.2
termination_by cp.length
decreasing_by
  rename_i h hc
  have hlt : s.length < cp.length := by
    have := skipBlanks_length inString cp
    rw [h, List.length_cons] at this
    exact this
  refine (nextToken_length s (isBlank_of_skipBlanks h) fun hs => ?_).trans_lt hlt
  simpa [hs] using hc

/-- `alloc_strvec`: `NULL` for a line without a token. -/
def allocStrvec (string : CStr) : Option (List Token) :=
  match strvecLoop false string with
  | [] => none
  | strvec => some strvec

theorem strvecLoop_cons {inString : Bool} {cp s : CStr} {c : Char}
    (h : skipBlanks inString cp = c :: s) (hc : inString = false → isComment c = false) :
    strvecLoop inString cp = (nextToken inString c s).1 ::
      strvecLoop (nextToken inString c s).2.1 (nextToken inString c s).2.2 := by
  rw [strvecLoop]
  split
  next h' => simp [h] at h'
  next d t h' =>
    cases h.symm.trans h'
    rw [dif_neg]
    rintro ⟨hs, hcm⟩
    simp [hc hs] at hcm

theorem strvecLoop_length (inString : Bool) (cp : CStr) :
    (strvecLoop inString cp).length ≤ cp.length := by
  fun_induction strvecLoop inString cp with
  | case1 => simp
  | case2 => simp
  | case3 inString cp c s h hc ih =>
    have hs := skipBlanks_length inString cp
    have ht := nextToken_length s (isBlank_of_skipBlanks h) fun hs => by simpa [hs] using hc
    rw [h] at hs
    simp only [List.length_cons] at hs ⊢
    omega

end MultipathTools.Parser
