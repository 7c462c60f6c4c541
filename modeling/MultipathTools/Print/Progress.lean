import MultipathTools.Base.Block
import MultipathTools.Base.Numeral

/-! The progress bar of the topology output (`print.c`), and when it stays in its buffer. The arithmetic
of `int` wraps. -/
namespace MultipathTools.Print

/-- `PROGRESS_LEN` -/
def progressLen : ℤ := 10

/-- A loop of `i` turns at `c`, in a buffer of `len` bytes, of which `len - c` are left in each turn.
The result is `false` at `goto out`. -/
def progressLoop (len : ℕ) (ch : Char) : ℕ → List Char → ℕ → Outcome (List Char × ℕ × Bool)
  | 0, buff, c => .done (buff, c, true)
  | i + 1, buff, c =>
    (snprintf buff c (len - c) [ch]).bind fun (buff, fwd) =>
      if len - (c + fwd) ≤ 1 then .done (buff, c + fwd, false)
      else progressLoop len ch i buff (c + fwd)

/-- The value of `i`, for a positive `total`. -/
def progressDone (cur total : ℤ) : ℤ := (toInt (progressLen * cur)).tdiv total

/-- The value of `j`. -/
def progressLeft (cur total : ℤ) : ℤ := toInt (progressLen - progressDone cur total)

/-- The two loops. -/
def progressBar (len : ℕ) (cur total : ℤ) (buff : List Char) : Outcome (List Char × ℕ × Bool) :=
  if total > 0 then
    (progressLoop len 'X' (progressDone cur total).toNat buff 0).bind fun (buff, c, more) =>
      if more then progressLoop len '.' (progressLeft cur total).toNat buff c
      else .done (buff, c, false)
  else .done (buff, 0, true)

def progressText (cur total : ℤ) : CStr := [' '] ++ itoa cur ++ ['/'] ++ itoa total

/-- `snprint_progress`: the buffer, and what is returned. -/
def snprintProgress (buff : List Char) (cur total : ℤ) : Outcome (List Char × ℕ) :=
  let len := buff.length
  (progressBar len cur total buff).bind fun (buff, c, more) =>
    (if more then
      (snprintf buff c (len - c) (progressText cur total)).bind fun (buff, fwd) =>
        .done (buff, c + fwd)
    else .done (buff, c)).bind fun (buff, c) =>
      (writeAt buff (c + 1) [nul]).bind fun buff => .done (buff, c + 1)

section Inside

variable {buff : List Char} {len i c : ℕ} {ch : Char} {cur total : ℤ}

/-- The characters of the bar. -/
def barLength (cur total : ℤ) : ℕ :=
  if total > 0 then (progressDone cur total).toNat + (progressLeft cur total).toNat else 0

theorem snprintf_inside (hc : c ≤ buff.length) (text : CStr) :
    ∃ buff', snprintf buff c (buff.length - c) text = .done (buff', text.length) ∧
      buff'.length = buff.length := by
  unfold snprintf
  split_ifs with hzero
  · exact ⟨buff, rfl, rfl⟩
  · obtain ⟨buff', hwrite, hlen⟩ := @exists_writeAt _ buff (text.take (buff.length - c - 1) ++ [nul]) c (by
      rw [List.length_append, List.length_take, List.length_singleton]
      omega)
    exact ⟨buff', by rw [hwrite, Outcome.bind_done], hlen⟩

/-- A loop comes to its end with two bytes left, or goes out with one. -/
theorem progressLoop_done (hlen : buff.length = len) (hc : c < len) :
    ∃ buff' c' more, progressLoop len ch i buff c = .done (buff', c', more) ∧ buff'.length = len ∧
      (more = true → c' = c + i ∧ (i = 0 ∨ c' + 2 ≤ len)) ∧
      (more = false → len ≤ c' + 1 ∧ len < c + i + 2) := by
  induction i generalizing buff c with
  | zero => exact ⟨buff, c, true, rfl, hlen, fun _ => ⟨rfl, .inl rfl⟩, fun h => absurd h (by simp)⟩
  | succ i ih =>
    obtain ⟨buff', hprint, hlen'⟩ := @snprintf_inside buff c (hlen ▸ hc.le) [ch]
    rw [hlen] at hprint hlen'
    rw [progressLoop, hprint, Outcome.bind_done]
    dsimp only [List.length_singleton]
    split_ifs with hlast
    · refine ⟨buff', c + 1, false, rfl, hlen', fun h => absurd h (by simp), fun _ => ?_⟩
      omega
    · obtain ⟨buff'', c', more, hrest, hlen'', htrue, hfalse⟩ := @ih buff' (c + 1) hlen' (by omega)
      refine ⟨buff'', c', more, hrest, hlen'', fun h => ?_, fun h => ?_⟩
      · obtain ⟨heq, hor⟩ := htrue h
        omega
      · have hout := hfalse h
        omega

theorem progressBar_done (hlen : buff.length = len) (hpos : 0 < len) :
    ∃ buff' c' more, progressBar len cur total buff = .done (buff', c', more) ∧ buff'.length = len ∧
      (more = true → c' = barLength cur total ∧ c' ≤ len) ∧
      (more = false → len ≤ c' + 1 ∧ len < barLength cur total + 2) := by
  unfold progressBar barLength
  split_ifs with ht
  swap
  · exact ⟨buff, 0, true, rfl, hlen, fun _ => ⟨rfl, Nat.zero_le _⟩, fun h => absurd h (by simp)⟩
  obtain ⟨buff', c', more, hdone, hlen', htrue, hfalse⟩ :=
    @progressLoop_done buff len (progressDone cur total).toNat 0 'X' hlen hpos
  rw [hdone, Outcome.bind_done]
  cases more with
  | false =>
    have hout := hfalse rfl
    exact ⟨buff', c', false, rfl, hlen', fun h => absurd h (by simp), fun _ => by omega⟩
  | true =>
    obtain ⟨hc', hroom⟩ := htrue rfl
    obtain ⟨buff'', c'', more, hdone', hlen'', htrue', hfalse'⟩ :=
      @progressLoop_done buff' len (progressLeft cur total).toNat c' '.' hlen' (by omega)
    refine ⟨buff'', c'', more, hdone', hlen'', fun h => ?_, fun h => ?_⟩
    · have hin := htrue' h
      omega
    · have hout := hfalse' h
      omega

/-- The bar and the numbers need two more bytes: the NUL is stored one byte behind the end. -/
theorem snprintProgress_inside_iff (buff : List Char) (cur total : ℤ) (hlen : 0 < buff.length) :
    (∃ out ret, snprintProgress buff cur total = .done (out, ret)) ↔
      barLength cur total + (progressText cur total).length + 2 ≤ buff.length := by
  obtain ⟨buff', c, more, hdone, hlen', htrue, hfalse⟩ := @progressBar_done buff _ cur total rfl hlen
  unfold snprintProgress
  dsimp only
  rw [hdone, Outcome.bind_done]
  cases more with
  | false =>
    have hout := hfalse rfl
    refine iff_of_false ?_ (by omega)
    rintro ⟨out, ret, h⟩
    dsimp only at h
    rw [if_neg Bool.false_ne_true, Outcome.bind_done, writeAt, if_neg] at h
    · cases h
    · dsimp only
      rw [List.length_singleton]
      omega
  | true =>
    obtain ⟨hc, hle⟩ := htrue rfl
    obtain ⟨buff'', hprint, hlen''⟩ := @snprintf_inside buff' c (by omega) (progressText cur total)
    rw [hlen'] at hprint hlen''
    dsimp only
    rw [if_pos rfl, hprint, Outcome.bind_done, Outcome.bind_done]
    dsimp only
    constructor
    · rintro ⟨out, ret, h⟩
      rw [Outcome.bind_eq_done_iff] at h
      obtain ⟨out', hwrite, -⟩ := h
      unfold writeAt at hwrite
      split_ifs at hwrite with hroom
      rw [List.length_singleton] at hroom
      omega
    · intro hroom
      obtain ⟨out, hwrite, -⟩ := @exists_writeAt _ buff'' [nul]
        (c + (progressText cur total).length + 1) (by rw [List.length_singleton]; omega)
      exact ⟨out, _, by rw [hwrite, Outcome.bind_done]⟩

theorem snprintProgress_inside_iff_half :
    (∃ out ret, snprintProgress (List.replicate 16 ' ') 5 10 = .done (out, ret)) ↔
      barLength 5 10 + (progressText 5 10).length + 2 ≤ (List.replicate 16 ' ').length :=
  snprintProgress_inside_iff (List.replicate 16 ' ') 5 10 (by decide)

/-- In a buffer of ten bytes the bar alone goes to the last byte, and the NUL behind it. -/
theorem snprintProgress_inside_fails :
    ¬ ∃ out ret, snprintProgress (List.replicate 10 ' ') 5 10 = .done (out, ret) := by
  have h : snprintProgress (List.replicate 10 ' ') 5 10 = .outside := by decide
  rintro ⟨out, ret, hdone⟩
  cases h.symm.trans hdone

end Inside

end MultipathTools.Print
