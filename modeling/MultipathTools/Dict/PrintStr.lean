import MultipathTools.Base.Block
import MultipathTools.Parser.Values

/-! `print_str` on a buffer with a given number of bytes (`dict.c`), and `strlcpy` (`util.c`). -/
namespace MultipathTools.Dict
open MultipathTools.Parser

/-- The loop of `strlcpy`, and where it ends. -/
def strlcpyLoop (size : ℕ) : CStr → List Char → ℕ → ℕ → Outcome (List Char × ℕ × ℕ)
  | [], buff, dst, bytes => .done (buff, dst, bytes)
  | ch :: src, buff, dst, bytes =>
    if bytes + 1 < size then
      (writeAt buff dst [ch]).bind fun buff => strlcpyLoop size src buff (dst + 1) (bytes + 1)
    else strlcpyLoop size src buff dst (bytes + 1)

/-- `strlcpy`, to a place in a buffer: it returns the length of the source. -/
def strlcpy (buff : List Char) (dst : ℕ) (src : CStr) (size : ℕ) : Outcome (List Char × ℕ) :=
  (strlcpyLoop size src buff dst 0).bind fun (buff, dst, bytes) =>
    if size = 0 then .done (buff, bytes)
    else (writeAt buff dst [nul]).bind fun buff => .done (buff, bytes)

/-- The end of `print_str` at the label `out`. -/
def printOut (len : ℕ) (buff : List Char) (p : ℕ) : Outcome (List Char × ℕ) :=
  (writeAt buff p [nul]).bind fun buff => .done (buff, len)

/-- The loop of `print_str` and what comes after it. -/
def printStrLoop (len last : ℕ) : ℕ → List Char → ℕ → CStr → Outcome (List Char × ℕ)
  | 0, _, _, _ => .unfinished
  | turns + 1, buff, p, ptr =>
    match strchr '"' ptr with
    | some (text, after) =>
      -- `q + 1 - ptr` is the length up to the quote and with it
      if text.length + 1 < last - p then
        (writeAt buff p (text ++ ['"'])).bind fun buff =>
          let p := p + (text.length + 1)
          (writeAt buff p ['"']).bind fun buff =>
            let p := p + 1
            if last ≤ p then printOut len buff p else printStrLoop len last turns buff p after
      else (writeAt buff p (ptr.take (last - p))).bind fun buff =>
        printOut len buff (p + (last - p))
    | none =>
      (strlcpy buff p ptr (last - p)).bind fun (buff, bytes) =>
        let p := p + bytes
        if last ≤ p then printOut len buff p
        else (writeAt buff p ['"']).bind fun buff =>
          let p := p + 1
          (writeAt buff p [nul]).bind fun buff => .done (buff, p)

/-- `print_str`. -/
def printStrAt (buff : List Char) (len : ℤ) (ptr : Option CStr) : Outcome (List Char × ℕ) :=
  match ptr with
  | none => .done (buff, 0)
  | some ptr =>
    if len ≤ 0 then .done (buff, 0)
    else if strchr '"' ptr = none then snprintf buff 0 len.toNat ('"' :: (ptr ++ ['"']))
    else
      let last := len.toNat - 1
      if last ≤ 0 then printOut len.toNat buff 0
      else (writeAt buff 0 ['"']).bind fun buff =>
        if last ≤ 1 then printOut len.toNat buff 1
        else printStrLoop len.toNat last (ptr.length + 1) buff 1 ptr

section Buffer

variable {buff out : List Char}

theorem strlcpyLoop_eq (size bytes : ℕ) (src : CStr) (hout : out <+: buff)
    (hroom : out.length + (size - 1 - bytes) ≤ buff.length) :
    ∃ buff', strlcpyLoop size src buff out.length bytes =
        .done (buff', (out ++ src.take (size - 1 - bytes)).length, bytes + src.length) ∧
      buff'.length = buff.length ∧ out ++ src.take (size - 1 - bytes) <+: buff' := by
  induction src generalizing buff out bytes with
  | nil => exact ⟨buff, by simp [strlcpyLoop], rfl, by simpa using hout⟩
  | cons ch src ih =>
    rw [strlcpyLoop]
    by_cases hlt : bytes + 1 < size
    · obtain ⟨buff', hwrite, hlen, hout'⟩ := writeAt_behind [ch] hout
        (by rw [List.length_singleton]; omega)
      have htake : (ch :: src).take (size - 1 - bytes) =
          ch :: src.take (size - 1 - (bytes + 1)) := by
        rw [show size - 1 - bytes = (size - 1 - (bytes + 1)) + 1 by omega, List.take_succ_cons]
      have hpos : out.length + 1 = (out ++ [ch]).length := by simp
      obtain ⟨buff'', hloop, hlen', hout''⟩ := ih (bytes + 1) hout'
        (by rw [← hpos, hlen]; omega)
      rw [if_pos hlt, hwrite, Outcome.bind_done, hpos, hloop, htake]
      refine ⟨buff'', ?_, hlen'.trans hlen, by simpa using hout''⟩
      simp only [List.append_assoc, List.singleton_append, List.length_cons, Nat.add_assoc,
        Nat.add_comm 1]
    · have hzero : size - 1 - bytes = 0 := by omega
      have hzero' : size - 1 - (bytes + 1) = 0 := by omega
      obtain ⟨buff', hloop, hlen, hout'⟩ := ih (bytes + 1) hout (by omega)
      rw [hzero'] at hloop hout'
      rw [if_neg hlt, hloop, hzero, List.take_zero, List.take_zero]
      refine ⟨buff', ?_, hlen, by simpa using hout'⟩
      simp only [List.length_cons, Nat.add_assoc, Nat.add_comm 1]

/-- `strlcpy` writes what fits, with a NUL, and returns the whole length. -/
theorem strlcpy_eq {size : ℕ} (src : CStr) (hout : out <+: buff) (hsize : 0 < size)
    (hroom : out.length + size ≤ buff.length) :
    ∃ buff', strlcpy buff out.length src size = .done (buff', src.length) ∧
      buff'.length = buff.length ∧ out ++ src.take (size - 1) <+: buff' := by
  obtain ⟨buff', hloop, hlen, hout'⟩ := strlcpyLoop_eq size 0 src hout (by omega)
  rw [Nat.sub_zero, Nat.zero_add] at hloop
  rw [Nat.sub_zero] at hout'
  obtain ⟨buff'', hwrite, hlen', hout''⟩ := writeAt_behind [nul] hout' (by
    rw [List.length_append, List.length_take, List.length_singleton]; omega)
  refine ⟨buff'', ?_, hlen'.trans hlen, (List.prefix_append _ _).trans hout''⟩
  rw [strlcpy, hloop, Outcome.bind_done]
  dsimp only
  rw [if_neg (Nat.ne_of_gt hsize), hwrite]
  rfl

end Buffer

/-- What `print_str` is to do: it returns `len` or more exactly if the text does not fit, and
otherwise its length, with the text and a NUL in the buffer. -/
def Prints (len : ℤ) (text : CStr) (result : Outcome (List Char × ℕ)) : Prop :=
  ∃ buff r, result = .done (buff, r) ∧ (len ≤ r ↔ len ≤ text.length) ∧
    (r < len → r = text.length ∧ text ++ [nul] <+: buff)

/-- Where the text behind the last quote goes, and that text. -/
def lastPart (p : ℕ) (ptr : CStr) : ℕ × CStr :=
  match strrchr '"' ptr with
  | some (text, after) => (p + (doubleQuotes text).length + 2, after)
  | none => (p, ptr)

/-- The text behind the last quote begins before `last` and ends behind it. -/
def Overruns (last p : ℕ) (ptr : CStr) : Prop :=
  (lastPart p ptr).1 < last ∧ last < (lastPart p ptr).1 + (lastPart p ptr).2.length

instance (last p : ℕ) (ptr : CStr) : Decidable (Overruns last p ptr) :=
  inferInstanceAs (Decidable (_ ∧ _))

theorem doubleQuotes_append (s t : CStr) :
    doubleQuotes (s ++ t) = doubleQuotes s ++ doubleQuotes t := by
  induction s with
  | nil => rfl
  | cons c s ih =>
    rw [List.cons_append, doubleQuotes, doubleQuotes, ih]
    split_ifs <;> rfl

theorem doubleQuotes_quote {text : CStr} (htext : '"' ∉ text) (after : CStr) :
    doubleQuotes (text ++ '"' :: after) = text ++ ['"', '"'] ++ doubleQuotes after := by
  rw [doubleQuotes_append, doubleQuotes_of_not_mem htext, doubleQuotes, if_pos rfl]
  simp

theorem lastPart_of_not_mem {p : ℕ} {ptr : CStr} (h : '"' ∉ ptr) : lastPart p ptr = (p, ptr) := by
  rw [lastPart, strrchr_eq_none h]

theorem lastPart_quote {text : CStr} (htext : '"' ∉ text) (p : ℕ) (after : CStr) :
    lastPart p (text ++ '"' :: after) = lastPart (p + text.length + 2) after := by
  unfold lastPart
  rw [strrchr_append_cons]
  cases strrchr '"' after with
  | none =>
    dsimp only
    rw [doubleQuotes_of_not_mem htext]
  | some r =>
    dsimp only
    rw [doubleQuotes_quote htext]
    simp only [List.length_append, List.length_cons, List.length_nil]
    congr 1
    omega

theorem le_lastPart (p : ℕ) (ptr : CStr) : p ≤ (lastPart p ptr).1 := by
  unfold lastPart
  cases strrchr '"' ptr with
  | none => exact le_rfl
  | some r => exact (Nat.le_add_right _ _).trans (Nat.le_add_right _ _)

/-- At `out`, with no room for the text, the last byte is the only one that the NUL can go to. -/
theorem prints_printOut {last p : ℕ} {buff text : CStr} (hlen : buff.length = last + 1)
    (hp : p = last) (htext : last + 1 ≤ text.length) :
    Prints (last + 1 : ℕ) text (printOut (last + 1) buff p) := by
  have hwrite := @writeAt_of_le _ buff [nul] p (by rw [List.length_singleton]; omega)
  refine ⟨_, last + 1, by rw [printOut, hwrite]; rfl, ?_, fun h => absurd h (Int.lt_irrefl _)⟩
  exact iff_of_true (Int.le_refl _) (by exact_mod_cast htext)

theorem not_prints_outside {len : ℤ} {text : CStr} : ¬ Prints len text .outside := by
  rintro ⟨_, _, h, -⟩
  cases h

section Loop

variable {last turns : ℕ} {buff out : CStr} (hlen : buff.length = last + 1) (hout : out <+: buff)
  (hlt : out.length < last)

include hlen hout hlt in
/-- What comes behind the last quote is not cut off, and a NUL is written where it would end. -/
theorem printStrLoop_tail {ptr : CStr} (hno : '"' ∉ ptr) :
    Prints (last + 1 : ℕ) (out ++ ptr ++ ['"'])
        (printStrLoop (last + 1) last (turns + 1) buff out.length ptr) ↔
      out.length + ptr.length ≤ last := by
  obtain ⟨copied, hcopy, hlen', hcopied⟩ := strlcpy_eq ptr hout (Nat.sub_pos_of_lt hlt) (by omega)
  rw [printStrLoop, strchr_eq_none_iff.mpr hno]
  dsimp only
  rw [hcopy, Outcome.bind_done]
  dsimp only
  obtain hbehind | hend | hroom := Nat.lt_trichotomy last (out.length + ptr.length)
  · have houtside : printOut (last + 1) copied (out.length + ptr.length) = .outside := by
      rw [printOut, writeAt, if_neg (by rw [List.length_singleton]; omega)]
      rfl
    rw [if_pos hbehind.le, houtside]
    exact iff_of_false not_prints_outside (Nat.not_le.mpr hbehind)
  · have hlong : last + 1 ≤ (out ++ ptr ++ ['"']).length := by
      simp only [List.length_append, List.length_singleton]
      omega
    rw [if_pos hend.le]
    exact iff_of_true (prints_printOut (by omega) hend.symm hlong) hend.ge
  · have htake : ptr.take (last - out.length - 1) = ptr := List.take_of_length_le (by omega)
    rw [htake] at hcopied
    have hpos : out.length + ptr.length = (out ++ ptr).length := List.length_append.symm
    obtain ⟨buff1, hquote, hlen1, hout1⟩ := writeAt_behind ['"'] hcopied
      (by rw [List.length_singleton]; omega)
    have hpos1 : (out ++ ptr).length + 1 = (out ++ ptr ++ ['"']).length := by
      simp [Nat.add_assoc]
    obtain ⟨buff2, hnul, -, hout2⟩ := writeAt_behind [nul] hout1
      (by rw [List.length_singleton, ← hpos1]; omega)
    rw [if_neg (by omega), hpos, hquote, Outcome.bind_done, hpos1, hnul]
    exact iff_of_true ⟨buff2, _, rfl, Iff.rfl, fun _ => ⟨rfl, hout2⟩⟩ (by omega)

section Quote

variable {text : CStr} (htext : '"' ∉ text) (after : CStr)

include htext in
theorem strchr_quote : strchr '"' (text ++ '"' :: after) = some (text, after) := by
  induction text with
  | nil => rfl
  | cons c text ih =>
    obtain ⟨hc, htext⟩ := not_or.mp (List.mem_cons.not.mp htext)
    rw [List.cons_append, strchr, if_neg (Ne.symm hc), ih htext]
    rfl

include hlen hout hlt htext in
/-- A text with its quote that reaches the last byte is cut off there. -/
theorem printStrLoop_cut (turns : ℕ) (hroom : last - out.length ≤ text.length + 1) :
    ∃ buff', buff'.length = last + 1 ∧
      printStrLoop (last + 1) last (turns + 1) buff out.length (text ++ '"' :: after) =
        printOut (last + 1) buff' last := by
  obtain ⟨buff1, htake, hlen1, -⟩ := writeAt_behind
    ((text ++ '"' :: after).take (last - out.length)) hout (by rw [List.length_take]; omega)
  have hpos : out.length + (last - out.length) = last := by omega
  rw [printStrLoop, strchr_quote htext]
  dsimp only
  rw [if_neg (Nat.not_lt.mpr hroom), htake, Outcome.bind_done, hpos]
  exact ⟨buff1, hlen1.trans hlen, rfl⟩

include hlen hout htext in
/-- A text with its quote, doubled, goes behind what has been written. -/
theorem printStrLoop_quote (turns : ℕ) (hroom : text.length + 1 < last - out.length) :
    ∃ buff', buff'.length = last + 1 ∧ out ++ text ++ ['"', '"'] <+: buff' ∧
      printStrLoop (last + 1) last (turns + 1) buff out.length (text ++ '"' :: after) =
        if last ≤ out.length + text.length + 2 then
          printOut (last + 1) buff' (out.length + text.length + 2)
        else printStrLoop (last + 1) last turns buff' (out.length + text.length + 2) after := by
  obtain ⟨buff1, htextw, hlen1, hout1⟩ := writeAt_behind (text ++ ['"']) hout
    (by rw [List.length_append, List.length_singleton]; omega)
  have hpos : out.length + (text.length + 1) = (out ++ (text ++ ['"'])).length := by simp
  obtain ⟨buff2, hquote, hlen2, hout2⟩ := writeAt_behind ['"'] hout1
    (by rw [List.length_singleton, ← hpos]; omega)
  have hwhole : out ++ (text ++ ['"']) ++ ['"'] = out ++ text ++ ['"', '"'] := by simp
  refine ⟨buff2, (hlen2.trans hlen1).trans hlen, hwhole ▸ hout2, ?_⟩
  rw [printStrLoop, strchr_quote htext]
  dsimp only
  rw [if_pos hroom, htextw, Outcome.bind_done, hpos, hquote, Outcome.bind_done, ← hpos]
  rfl

end Quote

include hlen hout hlt in
/-- The loop has written what is before the rest of the string, and goes beyond the buffer exactly
if the text behind the last quote does not end in it. -/
theorem printStrLoop_iff {ptr : CStr} (hturns : ptr.length < turns) :
    Prints (last + 1 : ℕ) (out ++ doubleQuotes ptr ++ ['"'])
        (printStrLoop (last + 1) last turns buff out.length ptr) ↔
      ¬ Overruns last out.length ptr := by
  induction turns generalizing buff out ptr with
  | zero => omega
  | succ turns ih =>
    cases hq : strchr '"' ptr with
    | none =>
      have hno := strchr_eq_none_iff.mp hq
      rw [doubleQuotes_of_not_mem hno, printStrLoop_tail hlen hout hlt hno, Overruns,
        lastPart_of_not_mem hno, not_and, Nat.not_lt, imp_iff_right hlt]
    | some r =>
      obtain ⟨text, after⟩ := r
      obtain ⟨rfl, htext⟩ := strchr_append hq
      have hwhole : out ++ doubleQuotes (text ++ '"' :: after) ++ ['"'] =
          out ++ text ++ ['"', '"'] ++ doubleQuotes after ++ ['"'] := by
        rw [doubleQuotes_quote htext]
        simp only [List.append_assoc]
      have hlong : out.length + text.length + 3 ≤
          (out ++ text ++ ['"', '"'] ++ doubleQuotes after ++ ['"']).length := by
        simp only [List.length_append, List.length_cons, List.length_nil]
        omega
      have hle := le_lastPart (out.length + text.length + 2) after
      rw [hwhole, Overruns, lastPart_quote htext]
      obtain hroom | hcut := Nat.lt_or_ge (text.length + 1) (last - out.length)
      · obtain ⟨buff1, hlen1, hout1, hloop⟩ :=
          printStrLoop_quote hlen hout htext after turns hroom
        rw [hloop]
        by_cases hend : last ≤ out.length + text.length + 2
        · rw [if_pos hend]
          exact iff_of_true (prints_printOut hlen1 (by omega) (by omega)) fun h => by omega
        · have hpos : out.length + text.length + 2 = (out ++ text ++ ['"', '"']).length := by
            simp [Nat.add_assoc]
          simp only [List.length_append, List.length_cons] at hturns
          rw [if_neg hend, hpos]
          exact ih hlen1 hout1 (by omega) (by omega)
      · obtain ⟨buff1, hlen1, hloop⟩ :=
          printStrLoop_cut hlen hout hlt htext after turns hcut
        rw [hloop]
        exact iff_of_true (prints_printOut hlen1 rfl (by omega)) fun h => by omega

end Loop

theorem quoted_of_not_mem {s : CStr} (hs : '"' ∉ s) : quoted s = '"' :: (s ++ ['"']) := by
  rw [quoted, doubleQuotes_of_not_mem hs]

theorem two_le_length_quoted (s : CStr) : 2 ≤ (quoted s).length := by
  rw [quoted, List.length_cons, List.length_append, List.length_singleton]
  omega

/-- Without a quote in the string `print_str` is one `snprintf`. -/
theorem prints_snprintf {len : ℕ} {buff text : CStr} (hlen : 0 < len) (hbuff : buff.length = len) :
    Prints len text (snprintf buff 0 len text) := by
  obtain ⟨buff', hprint, -, hout⟩ := snprintf_behind text (List.nil_prefix (l := buff)) hlen
    (by rw [List.length_nil, hbuff, Nat.zero_add])
  refine ⟨buff', text.length, hprint, Iff.rfl, fun hlt => ⟨rfl, ?_⟩⟩
  rwa [List.nil_append, List.take_of_length_le (by omega)] at hout

/-- `print_str` does what it is to do, unless the text behind the last quote begins before the last
byte of the buffer and does not end in front of it. -/
theorem printStrAt_iff (s : CStr) (len : ℤ) (buff : List Char) (hbuff : buff.length = len.toNat) :
    Prints len (quoted s) (printStrAt buff len (some s)) ↔
      ¬ ('"' ∈ s ∧ Overruns (len.toNat - 1) 1 s) := by
  have htwo := two_le_length_quoted s
  unfold printStrAt
  dsimp only
  by_cases hneg : len ≤ 0
  · rw [if_pos hneg]
    refine iff_of_true ⟨buff, 0, rfl, ?_, fun h => ?_⟩ fun h => ?_
    · exact iff_of_true (by omega) (by omega)
    · omega
    · have := h.2.1
      omega
  rw [if_neg hneg]
  obtain ⟨len, rfl⟩ := Int.eq_ofNat_of_zero_le (by omega : 0 ≤ len)
  rw [Int.toNat_natCast] at hbuff ⊢
  by_cases hq : strchr '"' s = none
  · have hno := strchr_eq_none_iff.mp hq
    rw [if_pos hq, ← quoted_of_not_mem hno]
    exact iff_of_true (prints_snprintf (by omega) hbuff) fun h => hno h.1
  have hmem : '"' ∈ s := by
    by_contra h
    exact hq (strchr_eq_none_iff.mpr h)
  obtain ⟨last, rfl⟩ : ∃ last, len = last + 1 := ⟨len - 1, by omega⟩
  have hle := le_lastPart 1 s
  rw [if_neg hq, Nat.add_sub_cancel, and_iff_right hmem]
  by_cases hzero : last ≤ 0
  · rw [if_pos hzero]
    refine iff_of_true (prints_printOut hbuff (by omega) (by omega)) fun h => ?_
    have := h.1
    omega
  rw [if_neg hzero]
  obtain ⟨buff', hwrite, hlen, hout⟩ := writeAt_behind ['"'] (List.nil_prefix (l := buff))
    (by rw [List.length_singleton, List.length_nil]; omega)
  rw [List.length_nil] at hwrite
  rw [hwrite, Outcome.bind_done]
  by_cases hone : last ≤ 1
  · rw [if_pos hone]
    refine iff_of_true (prints_printOut (by omega) (by omega) (by omega)) fun h => ?_
    have := h.1
    omega
  · rw [if_neg hone]
    exact printStrLoop_iff (hlen.trans hbuff) hout (by rw [List.nil_append, List.length_singleton]; omega)
      (Nat.lt_succ_self _)

theorem printStrAt_iff_inch : Prints 20 "\"2.5\"\" SSD\"".toList
    (printStrAt (List.replicate 20 nul) 20 (some "2.5\" SSD".toList)) :=
  (printStrAt_iff "2.5\" SSD".toList 20 (List.replicate 20 nul) (by decide)).mpr (by decide)

/-- The NUL of a string with one quote at its start is written behind a buffer of 8 bytes. -/
theorem printStrAt_overrun : ¬ ∀ (s : CStr) (len : ℤ) (buff : List Char),
    buff.length = len.toNat → Prints len (quoted s) (printStrAt buff len (some s)) := by
  intro h
  have houtside : printStrAt (List.replicate 8 nul) 8 (some "\"abcdefgh".toList) = .outside := rfl
  have hprints := h "\"abcdefgh".toList 8 (List.replicate 8 nul) (by decide)
  rw [houtside] at hprints
  exact not_prints_outside hprints

end MultipathTools.Dict
