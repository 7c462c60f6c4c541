import MultipathTools.Parser.Strvec

/-! The values of configuration lines: how they are taken from the tokens, and how keywords are
printed (`parser.c`). -/
namespace MultipathTools.Parser

/-- What is logged about a line. Debugging output is left out. -/
inductive Message where
  /-- `option '%s' missing value` -/
  | optionMissingValue (option : CStr)
  /-- `option '%s' has empty value` -/
  | emptyValue (option : CStr)
  /-- `can't parse option on line %d of %s` -/
  | cantParseOption
  /-- `invalid keyword '%s' on line %d of %s` -/
  | invalidKeyword (str : CStr)
  /-- `missing '{' on line %d of %s` -/
  | missingBrace
  /-- `expecting '{' on line %d of %s. found '%s'` -/
  | expectingBrace (str : CStr)
  /-- `ignoring extra data starting with '%s' on line %d of %s` -/
  | extraData (str : CStr)
  /-- `missing value for option '%s' on line %d of %s` -/
  | missingValue (option : CStr)
  /-- `missing closing quotes on line %d of %s` -/
  | missingQuotes
  /-- `%s line %d, invalid keyword: %s` -/
  | unknownKeyword (str : CStr)
  /-- `multipath.conf +%d, parsing failed: %s` -/
  | parsingFailed (buf : CStr)
  /-- `%s: invalid value for %s: "%s"` -/
  | invalidValue (option buff : CStr)
  /-- `illegal value for find_multipaths: %s` -/
  | illegalFindMultipaths (buff : CStr)
  /-- `invalid record in uid_attrs: %s` -/
  | invalidRecord (record : CStr)
  /-- `error parsing uid_attrs: "%s"` -/
  | errorParsingUidAttrs (val : CStr)
  deriving DecidableEq, Repr

/-- A token as a C string: the marker starts with a NUL. -/
def Token.text : Token → CStr
  | .quoteMarker => []
  | .word str => str

/-- `VECTOR_SLOT(strvec, 0)`, for the messages. -/
def optionName (strvec : List Token) : CStr := (strvec.head?.map Token.text).getD []

/-- The loop of `set_value` over the words between quotes. -/
def joinWords (words : List CStr) : CStr :=
  words.foldl (fun alloc str => if alloc = [] then str else alloc ++ ' ' :: str) []

/-- `set_value`. -/
def setValue (strvec : List Token) : Except Message CStr :=
  match strvec.tail with
  | [] => .error (.optionMissingValue (optionName strvec))
  | .word str :: _ => if str = [] then .error (.emptyValue (optionName strvec)) else .ok str
  | .quoteMarker :: rest =>
    .ok (joinWords ((rest.takeWhile fun token => !isQuote token).map Token.text))

/-- `is_sublevel_keyword`. -/
def isSublevelKeyword (str : CStr) : Bool :=
  str ∈ ["defaults".toList, "blacklist".toList, "blacklist_exceptions".toList, "devices".toList,
    "device".toList, "multipaths".toList, "multipath".toList]

def extraData (rest : List Token) : List Message :=
  (rest.head?.map fun token => Message.extraData token.text).toList

/-- `validate_config_strvec`. -/
def validateConfigStrvec : List Token → ℤ × List Message
  | [] => (-1, [.cantParseOption])
  | token :: rest =>
    let str := token.text
    if str.head? = some '}' then (0, extraData rest)
    else if str.head? = some '{' then (-1, [.invalidKeyword str])
    else if isSublevelKeyword str then
      match rest with
      | [] => (0, [.missingBrace])
      | brace :: rest =>
        if brace.text.head? ≠ some '{' then (0, [.expectingBrace brace.text])
        else (0, extraData rest)
    else
      match rest with
      | [] => (-1, [.missingValue str])
      | value :: rest =>
        if !isQuote value then (0, extraData rest)
        else
          match rest.dropWhile fun token => !isQuote token with
          | [] => (0, [.missingQuotes])
          | _ :: rest => (0, extraData rest)

/-- `snprint_keyword`, with a buffer that is large enough: the text for a format, unless the
keyword prints no value. -/
def snprintKeyword (string : CStr) (value : Option CStr) : CStr → Option CStr
  | [] => some []
  | '%' :: 'k' :: fmt => (snprintKeyword string value fmt).map (string ++ ·)
  | '%' :: 'v' :: fmt => value.bind fun text => (snprintKeyword string value fmt).map (text ++ ·)
  | '%' :: _ :: fmt => snprintKeyword string value fmt
  | c :: fmt => (snprintKeyword string value fmt).map (c :: ·)

/-- The quotes of `print_str`: each one in the string is doubled. -/
def doubleQuotes : CStr → CStr
  | [] => []
  | c :: s => if c = '"' then c :: '"' :: doubleQuotes s else c :: doubleQuotes s

def quoted (s : CStr) : CStr := '"' :: (doubleQuotes s ++ ['"'])

/-- `print_str`, with a buffer that is large enough. -/
def printStr : Option CStr → Option CStr
  | none => none
  | some str => some (quoted str)

theorem doubleQuotes_of_not_mem {s : CStr} (h : '"' ∉ s) : doubleQuotes s = s := by
  induction s with
  | nil => rfl
  | cons c s ih =>
    obtain ⟨hc, hs⟩ := not_or.mp (mt List.mem_cons.mpr h)
    rw [doubleQuotes, if_neg (Ne.symm hc), ih hs]

theorem doubleQuotes_eq_nil_iff {s : CStr} : doubleQuotes s = [] ↔ s = [] := by
  cases s with
  | nil => simp [doubleQuotes]
  | cons c s =>
    unfold doubleQuotes
    split <;> simp

/-- Inside of a string, the scan stops at the first quote that is not doubled. -/
theorem scanString_doubleQuotes (s : CStr) {t : CStr} (ht : t.head? ≠ some '"') :
    scanString (doubleQuotes s ++ '"' :: t) = (doubleQuotes s, '"' :: t) := by
  induction s with
  | nil =>
    show scanString ('"' :: t) = ([], '"' :: t)
    cases t with
    | nil => rfl
    | cons d t =>
      have hd : d ≠ '"' := fun h => ht (congrArg some h)
      rw [scanString, if_neg (not_not.mpr rfl)]
      intro cp heq
      exact hd (List.cons.inj heq).1
  | cons c s ih =>
    by_cases hc : c = '"'
    · rw [doubleQuotes, if_pos hc, hc, List.cons_append, List.cons_append, scanString,
        if_neg (not_not.mpr rfl), ih]
    · rw [doubleQuotes, if_neg hc, List.cons_append]
      unfold scanString
      rw [if_pos hc, ih]

theorem unquote_doubleQuotes (s : CStr) : unquote (doubleQuotes s) = s := by
  induction s with
  | nil => rfl
  | cons c s ih =>
    by_cases hc : c = '"'
    · rw [doubleQuotes, if_pos hc, hc, unquote, ih]
    · rw [doubleQuotes, if_neg hc, unquote, ih]
      intro t h
      exact absurd h hc

end MultipathTools.Parser
