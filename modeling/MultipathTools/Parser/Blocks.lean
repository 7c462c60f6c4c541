import MultipathTools.Base.Block
import MultipathTools.Parser.PrintedLine

/-! The tokens of a line as blocks of memory, with every access of `alloc_strvec`, `is_quote` and
`set_value` to them (`parser.c`). Loops are run with a bound on their turns. -/
namespace MultipathTools.Parser

/-- `quote_marker`. -/
def quoteMarker : List Char := [nul, '"', nul]

/-- `is_quote`: a byte is looked at only if those before it are the marker's. -/
def isQuoteAt (token : List Char) : Outcome Bool :=
  (byteAt token 0).bind fun c =>
    if c ≠ nul then .done false
    else (byteAt token 1).bind fun d =>
      if d ≠ '"' then .done false
      else (byteAt token 2).bind fun e => .done (e = nul)

/-- The loop at `move_on`: whether it has met two quotes, the text that it has passed, and the rest
of the line. -/
def moveOn (inString : Bool) : CStr → Bool × CStr × CStr
  | '"' :: '"' :: cp =>
    if inString then
      let r := moveOn inString cp
      (true, '"' :: '"' :: r.2.1, r.2.2)
    else (false, [], '"' :: '"' :: cp)
  | c :: cp =>
    if (inString ∨ !isBlank c ∧ !isComment c ∧ !isBrace c) ∧ c ≠ '"' then
      let r := moveOn inString cp
      (r.1, c :: r.2.1, r.2.2)
    else (false, [], c :: cp)
  | [] => (false, [], [])

/-- The loop that replaces `""` by `"`, from a position on; `strlen` is the length that the token
had before. -/
def squeezeLoop (strlen : ℕ) : ℕ → List Char → ℕ → Outcome (List Char)
  | 0, _, _ => .unfinished
  | turns + 1, token, i =>
    (cstrAt token i).bind fun s =>
      match strstr ['"', '"'] s with
      | none => .done token
      | some (before, _) =>
        let qq := i + before.length
        -- a negative size would be a huge one
        if strlen + 1 < qq + 2 then .outside
        else (memmove token (qq + 1) (qq + 2) (strlen + 1 - (qq + 2))).bind fun token =>
          squeezeLoop strlen turns token (qq + 1)

/-- One turn of the loop of `alloc_strvec`: the block of the token, and how the loop goes on. -/
def nextBlock (inString : Bool) (c : Char) (cp : CStr) : Outcome (List Char × Bool × CStr) :=
  if c = '"' ∧ !(inString ∧ cp.head? = some '"') then .done (quoteMarker, !inString, cp)
  else if !inString ∧ isBrace c then .done ([c, nul], inString, cp)
  else
    let (twoQuotes, start, rest) := moveOn inString (c :: cp)
    let token := start ++ [nul]
    if twoQuotes then
      (squeezeLoop start.length (start.length + 1) token 0).bind fun token =>
        .done (token, inString, rest)
    else .done (token, inString, rest)

/-- The loop of `alloc_strvec`. -/
def blocksLoop : ℕ → Bool → CStr → Outcome (List (List Char))
  | 0, _, _ => .unfinished
  | turns + 1, inString, cp =>
    match skipBlanks inString cp with
    | [] => .done []
    | c :: s =>
      if inString = false ∧ isComment c = true then .done []
      else (nextBlock inString c s).bind fun (token, inString, cp) =>
        (blocksLoop turns inString cp).bind fun strvec => .done (token :: strvec)

/-- `alloc_strvec`. -/
def allocStrvecAt (turns : ℕ) (string : CStr) : Outcome (Option (List (List Char))) :=
  (blocksLoop turns false string).bind fun strvec =>
    .done (if strvec = [] then none else some strvec)

/-- `VECTOR_SLOT(strvec, 0)`, for the messages. -/
def optionNameAt : List (List Char) → Outcome CStr
  | [] => .done []
  | str :: _ => cstrAt str 0

/-- The loop of `set_value` over the tokens behind the first quote. -/
def valueLoop : List (List Char) → CStr → Outcome CStr
  | [], alloc => .done alloc
  | str :: strvec, alloc =>
    (isQuoteAt str).bind fun quote =>
      if quote then .done alloc
      else (cstrAt str 0).bind fun s =>
        valueLoop strvec (if alloc = [] then s else alloc ++ ' ' :: s)

/-- `set_value`. -/
def setValueAt (strvec : List (List Char)) : Outcome (Except Message CStr) :=
  match strvec.tail with
  | [] => (optionNameAt strvec).bind fun option => .done (.error (.optionMissingValue option))
  | str :: rest =>
    (isQuoteAt str).bind fun quote =>
      if quote then (valueLoop rest []).bind fun alloc => .done (.ok alloc)
      else (cstrAt str 0).bind fun s =>
        if s = [] then (optionNameAt strvec).bind fun option => .done (.error (.emptyValue option))
        else .done (.ok s)

/-- What a block holds. -/
inductive Stored : List Char → Token → Prop
  | marker : Stored quoteMarker .quoteMarker
  | word {s : CStr} (hne : s ≠ []) (hs : nul ∉ s) (z : List Char) :
      Stored (s ++ nul :: z) (.word s)

theorem Stored.isQuoteAt {block : List Char} {token : Token} (h : Stored block token) :
    isQuoteAt block = .done (isQuote token) := by
  cases h with
  | marker => rfl
  | word hne hs z =>
    obtain ⟨c, s, rfl⟩ := List.exists_cons_of_ne_nil hne
    have hc : c ≠ nul := fun h => hs (h ▸ List.mem_cons_self)
    exact if_pos hc

theorem Stored.cstrAt {block : List Char} {token : Token} (h : Stored block token) :
    cstrAt block 0 = .done token.text := by
  cases h with
  | marker => rfl
  | word hne hs z => exact cstrAt_zero hs

theorem optionNameAt_eq {blocks : List (List Char)} {strvec : List Token}
    (h : List.Forall₂ Stored blocks strvec) : optionNameAt blocks = .done (optionName strvec) := by
  cases h with
  | nil => rfl
  | cons hb _ => exact hb.cstrAt

theorem valueLoop_eq {blocks : List (List Char)} {strvec : List Token}
    (h : List.Forall₂ Stored blocks strvec) (alloc : CStr) :
    valueLoop blocks alloc = .done (((strvec.takeWhile fun token => !isQuote token).map
      Token.text).foldl (fun alloc str => if alloc = [] then str else alloc ++ ' ' :: str) alloc) := by
  induction h generalizing alloc with
  | nil => rfl
  | @cons block token _ _ hb _ ih =>
    rw [valueLoop, hb.isQuoteAt, Outcome.bind_done]
    cases hq : isQuote token with
    | true => simp [hq]
    | false =>
      rw [if_neg Bool.false_ne_true, hb.cstrAt, Outcome.bind_done, ih,
        List.takeWhile_cons_of_pos (by simp [hq])]
      rfl

/-- `set_value` takes from the blocks what it takes from the tokens. -/
theorem setValueAt_eq {blocks : List (List Char)} {strvec : List Token}
    (h : List.Forall₂ Stored blocks strvec) : setValueAt blocks = .done (setValue strvec) := by
  unfold setValueAt setValue
  have hname := optionNameAt_eq h
  cases h with
  | nil => rfl
  | cons _ htail =>
    cases htail with
    | nil => rw [List.tail_cons, List.tail_cons, hname]; rfl
    | cons hb hrest =>
      dsimp only [List.tail_cons]
      rw [hb.isQuoteAt, Outcome.bind_done]
      cases hb with
      | marker => rw [isQuote, if_pos rfl, valueLoop_eq hrest]; rfl
      | word hne hs z =>
        rw [isQuote, if_neg Bool.false_ne_true, cstrAt_zero hs, Outcome.bind_done, if_neg hne]
        exact congrArg Outcome.done (if_neg hne).symm

end MultipathTools.Parser
