import MultipathTools.Base.Block

/-! Lines that are printed by a format, in which `%` and a wildcard stand for a field of a path
(`print.c`). -/
namespace MultipathTools.Print

/-- `MAX_FIELD_LEN`. -/
def maxFieldLen : ℕ := 128

/-- An entry of `pd`; its print function is a field of the path. -/
structure PathData where
  wildcard : Char
  header : CStr
  width : ℕ := 0
  deriving DecidableEq, Repr

/-- `pd`. -/
def pd : List PathData :=
  [⟨'w', "uuid".toList, 0⟩, ⟨'i', "hcil".toList, 0⟩, ⟨'d', "dev".toList, 0⟩,
    ⟨'D', "dev_t".toList, 0⟩, ⟨'t', "dm_st".toList, 0⟩, ⟨'o', "dev_st".toList, 0⟩,
    ⟨'T', "chk_st".toList, 0⟩, ⟨'s', "vend/prod/rev".toList, 0⟩, ⟨'c', "checker".toList, 0⟩,
    ⟨'C', "next_check".toList, 0⟩, ⟨'p', "pri".toList, 0⟩, ⟨'S', "size".toList, 0⟩,
    ⟨'z', "serial".toList, 0⟩, ⟨'M', "marginal_st".toList, 0⟩, ⟨'m', "multipath".toList, 0⟩,
    ⟨'N', "host WWNN".toList, 0⟩, ⟨'n', "target WWNN".toList, 0⟩, ⟨'R', "host WWPN".toList, 0⟩,
    ⟨'r', "target WWPN".toList, 0⟩, ⟨'a', "host adapter".toList, 0⟩, ⟨'G', "foreign".toList, 0⟩,
    ⟨'g', "vpd page data".toList, 0⟩, ⟨'0', "failures".toList, 0⟩, ⟨'P', "protocol".toList, 0⟩]

/-- A path, with what the print functions of `pd` have to print for each wildcard. -/
structure GenPath where
  field : Char → CStr

/-- `snprint_path_attr`, with a buffer of `MAX_FIELD_LEN` bytes. -/
def GenPath.snprint (gp : GenPath) (wildcard : Char) : CStr :=
  (gp.field wildcard).take (maxFieldLen - 1)

/-- The fields of the path are shorter than the buffer for a field. -/
def GenPath.Short (gp : GenPath) : Prop :=
  ∀ data ∈ pd, (gp.field data.wildcard).length < maxFieldLen

/-- `get_path_layout`: the widths of the columns, with their headers if `header` is set. -/
def getPathLayout (pathvec : List GenPath) (header : Bool) : List PathData :=
  pd.map fun data =>
    { data with
      width := pathvec.foldl (fun width gp => max width (gp.snprint data.wildcard).length)
        (if header then data.header.length else 0) }

/-- `pd_lookup`. -/
def pdLookup (layout : List PathData) (wildcard : Char) : Option PathData :=
  layout.find? (·.wildcard = wildcard)

/-- `PAD(width)`: blanks from the cursor to the width of a column that starts at `s`. -/
def padTo (stop width s : ℕ) (buff : List Char) (c : ℕ) : Outcome (List Char × ℕ) :=
  let blanks := min (s + width) stop - c
  (writeAt buff c (List.replicate blanks ' ')).bind fun buff => .done (buff, c + blanks)

/-- The loop over a format; `stop` is the last byte of the buffer, which the cursor does not pass.
The NUL at the end of the format is copied too. -/
def formatLoop (layout : List PathData) (text : PathData → CStr) (pad : Bool) (stop : ℕ) :
    CStr → List Char → ℕ → Outcome (List Char × ℕ)
  | [], buff, c =>
    if stop ≤ c then .done (buff, c)
    else (writeAt buff c [nul]).bind fun buff => .done (buff, c + 1)
  -- the NUL behind the sign is taken as an unknown wildcard, and ends the loop
  | ['%'], buff, c => .done (buff, c)
  | '%' :: wildcard :: f, buff, c =>
    if stop ≤ c then .done (buff, c)
    else
      match pdLookup layout wildcard with
      | none => formatLoop layout text pad stop f buff c
      | some data =>
        (snprintf buff c (stop - c) (text data)).bind fun (buff, fwd) =>
          let s := c
          let c := c + (if stop - c ≤ fwd then stop - c else fwd)
          if pad then
            (padTo stop data.width s buff c).bind fun (buff, c) =>
              formatLoop layout text pad stop f buff c
          else formatLoop layout text pad stop f buff c
  | ch :: f, buff, c =>
    if stop ≤ c then .done (buff, c)
    else (writeAt buff c [ch]).bind fun buff => formatLoop layout text pad stop f buff (c + 1)

/-- `__endline`, for a line that starts at `line` and has `len` bytes. -/
def endline (line len : ℕ) (buff : List Char) (c : ℕ) : Outcome (List Char) :=
  if line < c then
    let c := if line + len ≤ c then line + len - 1 else c
    (writeAt buff (c - 1) ['\n']).bind fun buff => writeAt buff c [nul]
  else .done buff

/-- A line by a format, in the `len` bytes from `line` on, and how far the cursor gets. -/
def snprintFormat (layout : List PathData) (text : PathData → CStr) (pad : Bool) (line len : ℕ)
    (format : CStr) (buff : List Char) : Outcome (List Char × ℕ) :=
  (formatLoop layout text pad (line + len - 1) format buff line).bind fun (buff, c) =>
    (endline line len buff c).bind fun buff => .done (buff, c - line)

/-- `snprint_path_header`. -/
def snprintPathHeader (layout : List PathData) (line len : ℕ) (format : CStr) (buff : List Char) :
    Outcome (List Char × ℕ) :=
  snprintFormat layout PathData.header true line len format buff

/-- `_snprint_path`. -/
def snprintPath (layout : List PathData) (gp : GenPath) (pad : Bool) (line len : ℕ)
    (format : CStr) (buff : List Char) : Outcome (List Char × ℕ) :=
  snprintFormat layout (fun data => gp.snprint data.wildcard) pad line len format buff

/-- A format with the fields of a path in the places of its wildcards. -/
def expand (field : Char → CStr) : CStr → CStr
  | [] => []
  | ['%'] => []
  | '%' :: wildcard :: f =>
    (if (pdLookup pd wildcard).isSome then field wildcard else []) ++ expand field f
  | ch :: f => ch :: expand field f

/-- The format ends with a sign that no wildcard comes behind. -/
def endsInSign : CStr → Bool
  | [] => false
  | ['%'] => true
  | '%' :: _ :: f => endsInSign f
  | _ :: f => endsInSign f

/-- A text with a newline, which takes the place of its last character if a lone sign was behind
it. -/
def endText (sign : Bool) (text : CStr) : CStr :=
  if sign then if text = [] then [] else text.dropLast ++ ['\n'] else text ++ ['\n']

/-- The line that is printed. -/
def printedLine (field : Char → CStr) (format : CStr) : CStr :=
  endText (endsInSign format) (expand field format)

/-- A format with a text for each wildcard of a layout. -/
def expandBy (layout : List PathData) (text : PathData → CStr) : CStr → CStr
  | [] => []
  | ['%'] => []
  | '%' :: wildcard :: f => ((pdLookup layout wildcard).elim [] text) ++ expandBy layout text f
  | ch :: f => ch :: expandBy layout text f

theorem pdLookup_isSome_iff {layout : List PathData} {wildcard : Char} :
    (pdLookup layout wildcard).isSome = true ↔ wildcard ∈ layout.map PathData.wildcard := by
  rw [pdLookup, List.find?_isSome, List.mem_map]
  simp only [decide_eq_true_eq]

theorem getPathLayout_wildcard (pathvec : List GenPath) (header : Bool) :
    (getPathLayout pathvec header).map PathData.wildcard = pd.map PathData.wildcard := by
  rw [getPathLayout, List.map_map]
  rfl

section Loop

variable {layout : List PathData} {text : PathData → CStr} {pad : Bool} {stop c : ℕ}
  {f : CStr} {buff out : List Char}

theorem formatLoop_stop (h : stop ≤ c) :
    formatLoop layout text pad stop f buff c = .done (buff, c) := by
  unfold formatLoop
  split
  · exact if_pos h
  · rfl
  · exact if_pos h
  · exact if_pos h

theorem formatLoop_char {ch : Char} (hch : ch ≠ '%') (h : c < stop) :
    formatLoop layout text pad stop (ch :: f) buff c =
      (writeAt buff c [ch]).bind fun buff => formatLoop layout text pad stop f buff (c + 1) := by
  rw [formatLoop, if_neg (Nat.not_le.mpr h)]
  · intro hsign
    exact absurd hsign hch
  · intro _ _ hsign
    exact absurd hsign hch

/-- The cursor gets to the last byte of the buffer if the text does not end before it; otherwise the
text is there, and the cursor `extra` bytes behind it. -/
def Reaches (stop size extra : ℕ) (text : CStr) (result : Outcome (List Char × ℕ)) : Prop :=
  ∃ buff, result = .done (buff, if text.length < stop then text.length + extra else stop) ∧
    buff.length = size ∧ (text.length < stop → text <+: buff)

theorem reaches_stop {extra : ℕ} {t : CStr} (hend : out.length = stop) :
    Reaches stop buff.length extra (out ++ t) (formatLoop layout text pad stop f buff out.length) := by
  have hfull : ¬ (out ++ t).length < stop := by
    rw [List.length_append]
    omega
  exact ⟨buff, by rw [formatLoop_stop hend.ge, if_neg hfull, hend], rfl, fun h => absurd h hfull⟩

theorem padTo_zero {s : ℕ} (hs : s ≤ c) (hc : c ≤ buff.length) :
    padTo stop 0 s buff c = .done (buff, c) := by
  have hblanks : min (s + 0) stop - c = 0 := by omega
  rw [padTo, hblanks, List.replicate_zero, writeAt_of_le (by simpa using hc)]
  simp

/-- The loop prints the expanded format behind what is there, if it pads to no width; the NUL of the
format is copied if there is room for it, unless a sign comes before it. -/
theorem formatLoop_reaches (stop : ℕ) (hpad : pad = true → ∀ data ∈ layout, data.width = 0)
    (hout : out <+: buff) (hle : out.length ≤ stop) (hstop : stop < buff.length) :
    Reaches stop buff.length (if endsInSign f then 0 else 1) (out ++ expandBy layout text f)
      (formatLoop layout text pad stop f buff out.length) := by
  induction f using expand.induct generalizing buff out with
  | case1 =>
    obtain hend | hlt := Nat.eq_or_lt_of_le hle
    · exact reaches_stop hend
    obtain ⟨buff', hwrite, hlen, hout'⟩ := writeAt_behind [nul] hout
      (by rw [List.length_singleton]; omega)
    rw [formatLoop, if_neg (Nat.not_le.mpr hlt), hwrite, Outcome.bind_done, expandBy, List.append_nil]
    exact ⟨buff', by rw [if_pos hlt]; rfl, hlen, fun _ => (List.prefix_append _ _).trans hout'⟩
  | case2 =>
    obtain hend | hlt := Nat.eq_or_lt_of_le hle
    · exact reaches_stop hend
    rw [formatLoop, expandBy, List.append_nil]
    exact ⟨buff, by rw [if_pos hlt]; rfl, rfl, fun _ => hout⟩
  | case3 wildcard f ih =>
    obtain hend | hlt := Nat.eq_or_lt_of_le hle
    · exact reaches_stop hend
    have hsign : endsInSign ('%' :: wildcard :: f) = endsInSign f := by rw [endsInSign]
    rw [formatLoop, if_neg (Nat.not_le.mpr hlt), expandBy, hsign]
    cases hdata : pdLookup layout wildcard with
    | none => exact ih hout hle hstop
    | some data =>
      obtain ⟨buff', hprint, hlen, hout'⟩ := snprintf_behind (text data) hout
        (Nat.sub_pos_of_lt hlt) (by omega)
      -- padding leaves the buffer and the cursor as they are
      have hrest : ∀ c, out.length ≤ c → c ≤ buff'.length →
          (if pad then (padTo stop data.width out.length buff' c).bind fun (buff, c) =>
              formatLoop layout text pad stop f buff c
            else formatLoop layout text pad stop f buff' c) =
          formatLoop layout text pad stop f buff' c := by
        intro c hc hin
        split_ifs with hp
        · rw [hpad hp data (List.mem_of_find?_eq_some hdata), padTo_zero hc hin]
          rfl
        · rfl
      dsimp only [Option.elim]
      rw [hprint, Outcome.bind_done]
      dsimp only
      by_cases hroom : stop - out.length ≤ (text data).length
      · -- the field does not fit, and the cursor is at the last byte
        have hpos : out.length + (stop - out.length) = stop := by omega
        have hfull : ¬ (out ++ (text data ++ expandBy layout text f)).length < stop := by
          simp only [List.length_append]
          omega
        rw [if_pos hroom, hpos, hrest stop (by omega) (by omega), formatLoop_stop le_rfl]
        exact ⟨buff', by rw [if_neg hfull], hlen, fun h => absurd h hfull⟩
      · have htake : (text data).take (stop - out.length - 1) = text data :=
          List.take_of_length_le (by omega)
        rw [htake] at hout'
        rw [if_neg hroom, hrest _ (by omega) (by omega), ← List.length_append, ← List.append_assoc,
          ← hlen]
        exact ih ((List.prefix_append _ _).trans hout') (by rw [List.length_append]; omega)
          (by omega)
  | case4 ch f hsign hwildcard ih =>
    obtain hend | hlt := Nat.eq_or_lt_of_le hle
    · exact reaches_stop hend
    have hch : ch ≠ '%' := by
      intro h
      cases f with
      | nil => exact hsign h rfl
      | cons wildcard f => exact hwildcard wildcard f h rfl
    have hend : endsInSign (ch :: f) = endsInSign f := by
      rw [endsInSign]
      · exact hsign
      · exact hwildcard
    obtain ⟨buff', hwrite, hlen, hout'⟩ := writeAt_behind [ch] hout
      (by rw [List.length_singleton]; omega)
    have hpos : out.length + 1 = (out ++ [ch]).length := by simp
    have hfull : out ++ ch :: expandBy layout text f = out ++ [ch] ++ expandBy layout text f := by simp
    rw [formatLoop_char hch hlt, hwrite, Outcome.bind_done, expandBy, hend, hpos, hfull, ← hlen]
    · exact ih hout' (by rw [← hpos]; omega) (by omega)
    · exact hsign
    · exact hwildcard

end Loop

/-- A layout with the wildcards of `pd`. -/
theorem expandBy_eq {layout : List PathData}
    (hlayout : layout.map PathData.wildcard = pd.map PathData.wildcard) (field : Char → CStr)
    (f : CStr) :
    expandBy layout (fun data => field data.wildcard) f = expand field f := by
  induction f using expand.induct with
  | case1 => rw [expand, expandBy]
  | case2 => rw [expand, expandBy]
  | case3 wildcard f ih =>
    rw [expand, expandBy, ih]
    cases hdata : pdLookup layout wildcard with
    | none =>
      have hunknown : ¬ (pdLookup pd wildcard).isSome = true := by
        rw [pdLookup_isSome_iff, ← hlayout, ← pdLookup_isSome_iff, hdata]
        exact Bool.false_ne_true
      rw [if_neg hunknown]
      rfl
    | some data =>
      have hknown : (pdLookup pd wildcard).isSome = true := by
        rw [pdLookup_isSome_iff, ← hlayout, ← pdLookup_isSome_iff, hdata]
        rfl
      have hwildcard : data.wildcard = wildcard := by
        simpa using List.find?_some hdata
      rw [if_pos hknown, ← hwildcard]
      rfl
  | case4 ch f hsign hwildcard ih =>
    rw [expand, expandBy, ih]
    · exact hsign
    · exact hwildcard
    · exact hsign
    · exact hwildcard

theorem expandBy_cons {layout : List PathData} {text : PathData → CStr} {ch : Char} (hch : ch ≠ '%')
    (f : CStr) : expandBy layout text (ch :: f) = ch :: expandBy layout text f := by
  rw [expandBy]
  · intro hsign
    exact absurd hsign hch
  · intro _ _ hsign
    exact absurd hsign hch

/-- What has no sign in it is printed as it is. -/
theorem expandBy_append {layout : List PathData} {text : PathData → CStr} {a : CStr} (ha : '%' ∉ a)
    (f : CStr) : expandBy layout text (a ++ f) = a ++ expandBy layout text f := by
  induction a with
  | nil => rfl
  | cons ch a ih =>
    rw [List.mem_cons, not_or] at ha
    rw [List.cons_append, expandBy_cons (Ne.symm ha.1), ih ha.2, List.cons_append]

/-- Fields that are the same for the known wildcards give the same text. -/
theorem expand_congr {field field' : Char → CStr}
    (h : ∀ data ∈ pd, field data.wildcard = field' data.wildcard) (f : CStr) :
    expand field f = expand field' f := by
  induction f using expand.induct with
  | case1 => rw [expand, expand]
  | case2 => rw [expand, expand]
  | case3 wildcard f ih =>
    rw [expand, expand, ih]
    split_ifs with hknown
    · obtain ⟨data, hmem, heq⟩ := List.mem_map.mp (pdLookup_isSome_iff.mp hknown)
      rw [← heq, h data hmem]
    · rfl
  | case4 ch f hsign hwildcard ih =>
    rw [expand, expand, ih]
    · exact hsign
    · exact hwildcard
    · exact hsign
    · exact hwildcard

theorem GenPath.Short.expand_snprint {gp : GenPath} (h : gp.Short) (f : CStr) :
    expand gp.snprint f = expand gp.field f :=
  expand_congr (fun data hmem => List.take_of_length_le (Nat.le_pred_of_lt (h data hmem))) f

theorem length_endText (sign : Bool) (text : CStr) :
    (endText sign text).length = text.length + if sign then 0 else 1 := by
  unfold endText
  split_ifs with hsign htext
  · rw [htext]
    rfl
  · have hpos := List.length_pos_iff.mpr htext
    rw [List.length_append, List.length_dropLast, List.length_singleton]
    omega
  · rw [List.length_append, List.length_singleton]

theorem length_printedLine (field : Char → CStr) (f : CStr) :
    (printedLine field f).length = (expand field f).length + if endsInSign f then 0 else 1 :=
  length_endText _ _

section Line

variable {buff out : List Char} {len : ℕ}

/-- A newline behind a text, and a NUL. -/
theorem endline_eq (line len : ℕ) (hout : out <+: buff) (hline : line ≤ out.length)
    (hlen : out.length + 1 < line + len) (hbuff : line + len = buff.length) :
    ∃ buff', endline line len buff (out.length + 1) = .done buff' ∧ buff'.length = buff.length ∧
      out ++ ['\n'] ++ [nul] <+: buff' := by
  obtain ⟨buff1, hnewline, hlen1, hout1⟩ := writeAt_behind ['\n'] hout
    (by rw [List.length_singleton]; omega)
  have hpos : out.length + 1 = (out ++ ['\n']).length := by simp
  obtain ⟨buff2, hnul, hlen2, hout2⟩ := writeAt_behind [nul] hout1
    (by rw [List.length_singleton, ← hpos]; omega)
  refine ⟨buff2, ?_, hlen2.trans hlen1, hout2⟩
  rw [endline, if_pos (by omega)]
  dsimp only
  rw [if_neg (by omega), Nat.add_sub_cancel, hnewline, Outcome.bind_done, hpos, hnul]

theorem endline_line {line c : ℕ} (h : c ≤ line) : endline line len buff c = .done buff :=
  if_neg (Nat.not_lt.mpr h)

/-- The end of a line whose text fits. -/
theorem endline_text {text : CStr} (sign : Bool) (hout : out ++ text <+: buff)
    (hroom : text.length + 1 < len) (hbuff : out.length + len = buff.length) :
    ∃ buff', endline out.length len buff (out.length + text.length + if sign then 0 else 1) =
        .done buff' ∧ buff'.length = buff.length ∧ out ++ endText sign text <+: buff' ∧
      (sign = false → out ++ endText sign text ++ [nul] <+: buff') := by
  cases sign with
  | false =>
    obtain ⟨buff1, hend, hlen1, hout1⟩ := endline_eq out.length len hout
      (by rw [List.length_append]; omega) (by rw [List.length_append]; omega) hbuff
    have htext : out ++ endText false text = out ++ text ++ ['\n'] := by
      rw [endText, if_neg Bool.false_ne_true, List.append_assoc]
    rw [List.length_append] at hend
    rw [if_neg Bool.false_ne_true, hend, htext]
    exact ⟨buff1, rfl, hlen1, (List.prefix_append _ _).trans hout1, fun _ => hout1⟩
  | true =>
    rw [if_pos rfl, Nat.add_zero]
    by_cases htext : text = []
    · subst htext
      rw [List.length_nil, Nat.add_zero, endline_line le_rfl]
      exact ⟨buff, rfl, rfl, hout, fun h => Bool.noConfusion h⟩
    · have hdrop : out ++ text.dropLast <+: buff :=
        ((List.prefix_append_right_inj out).mpr (List.dropLast_prefix text)).trans hout
      have hpositive := List.length_pos_iff.mpr htext
      have hlength : (out ++ text.dropLast).length + 1 = out.length + text.length := by
        rw [List.length_append, List.length_dropLast]
        omega
      obtain ⟨buff1, hend, hlen1, hout1⟩ := endline_eq out.length len hdrop
        (by rw [List.length_append]; omega) (by omega) hbuff
      have hend_text : out ++ endText true text = out ++ text.dropLast ++ ['\n'] := by
        rw [endText, if_pos rfl, if_neg htext, List.append_assoc]
      rw [← hlength, hend, hend_text]
      exact ⟨buff1, rfl, hlen1, (List.prefix_append _ _).trans hout1, fun h => Bool.noConfusion h⟩

/-- The end of a line that has reached the last byte of the buffer. -/
theorem endline_full {line : ℕ} (hpos : 0 < len) (hbuff : line + len = buff.length) :
    ∃ buff', endline line len buff (line + len - 1) = .done buff' ∧ buff'.length = buff.length := by
  obtain hone | hmore := Nat.eq_or_lt_of_le hpos
  · rw [endline_line (by omega)]
    exact ⟨buff, rfl, rfl⟩
  · have hlength : (buff.take (line + len - 2)).length + 1 = line + len - 1 := by
      rw [List.length_take]
      omega
    obtain ⟨buff1, hend, hlen1, -⟩ := endline_eq line len (List.take_prefix (line + len - 2) buff)
      (by omega) (by omega) hbuff
    rw [hlength] at hend
    exact ⟨buff1, hend, hlen1⟩

/-- A line goes behind what is in the buffer, with the cursor at the last byte if it does not end
before that. -/
theorem snprintFormat_eq {layout : List PathData} {text : PathData → CStr} {pad : Bool}
    (hpad : pad = true → ∀ data ∈ layout, data.width = 0) (format : CStr) (hout : out <+: buff)
    (hpos : 0 < len) (hbuff : out.length + len = buff.length) :
    ∃ buff', snprintFormat layout text pad out.length len format buff = .done (buff',
        min (endText (endsInSign format) (expandBy layout text format)).length (len - 1)) ∧
      buff'.length = buff.length ∧
      ((endText (endsInSign format) (expandBy layout text format)).length < len - 1 →
        out ++ endText (endsInSign format) (expandBy layout text format) <+: buff' ∧
          (endsInSign format = false →
            out ++ endText (endsInSign format) (expandBy layout text format) ++ [nul] <+: buff')) := by
  obtain ⟨buff1, hloop, hlen1, hout1⟩ := @formatLoop_reaches layout text pad format buff out
    (out.length + len - 1) hpad hout (by omega) (by omega)
  have hline := length_endText (endsInSign format) (expandBy layout text format)
  rw [snprintFormat, hloop, Outcome.bind_done]
  rw [List.length_append] at hout1 ⊢
  dsimp only
  by_cases hroom : out.length + (expandBy layout text format).length < out.length + len - 1
  · obtain ⟨buff2, hend, hlen2, htext, hnul⟩ := endline_text (endsInSign format) (hout1 hroom)
      (by omega : (expandBy layout text format).length + 1 < len) (hbuff.trans hlen1.symm)
    have hadvance : out.length + (expandBy layout text format).length +
        (if endsInSign format then 0 else 1) - out.length =
          min (endText (endsInSign format) (expandBy layout text format)).length (len - 1) := by
      split_ifs at hline ⊢ <;> omega
    rw [if_pos hroom, hend, Outcome.bind_done, hadvance]
    exact ⟨buff2, rfl, hlen2.trans hlen1, fun _ => ⟨htext, hnul⟩⟩
  · obtain ⟨buff2, hend, hlen2⟩ := @endline_full buff1 len out.length hpos (hbuff.trans hlen1.symm)
    have hadvance : out.length + len - 1 - out.length =
        min (endText (endsInSign format) (expandBy layout text format)).length (len - 1) := by
      omega
    rw [if_neg hroom, hend, Outcome.bind_done, hadvance]
    exact ⟨buff2, rfl, hlen2.trans hlen1, fun h => by omega⟩

theorem snprintPath_eq {layout : List PathData}
    (hlayout : layout.map PathData.wildcard = pd.map PathData.wildcard) (gp : GenPath)
    (format : CStr) (hout : out <+: buff) (hpos : 0 < len) (hbuff : out.length + len = buff.length) :
    ∃ buff', snprintPath layout gp false out.length len format buff =
        .done (buff', min (printedLine gp.snprint format).length (len - 1)) ∧
      buff'.length = buff.length ∧
      ((printedLine gp.snprint format).length < len - 1 →
        out ++ printedLine gp.snprint format <+: buff' ∧
          (endsInSign format = false → out ++ printedLine gp.snprint format ++ [nul] <+: buff')) := by
  have hpad : false = true → ∀ data ∈ layout, data.width = 0 := fun h => Bool.noConfusion h
  have hline := @snprintFormat_eq buff out len layout (fun data => gp.snprint data.wildcard) false hpad
    format hout hpos hbuff
  rwa [expandBy_eq hlayout] at hline

end Line

end MultipathTools.Print
