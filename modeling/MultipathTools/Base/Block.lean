import MultipathTools.Base.CString
import MultipathTools.Base.Outcome

/-! C strings in blocks of memory, and the functions of the C library that copy them. -/
namespace MultipathTools

/-- The byte that ends a string. -/
def nul : Char := Char.ofNat 0

/-- The string at a position: the bytes up to the first NUL. -/
def cstrAt (block : List Char) (i : ℕ) : Outcome CStr :=
  if nul ∈ block.drop i then .done ((block.drop i).takeWhile (· ≠ nul)) else .outside

/-- `memmove(block + i, block + j, n)`. -/
def memmove (block : List Char) (i j n : ℕ) : Outcome (List Char) :=
  (readAt block j n).bind (writeAt block i)

theorem takeWhile_nul {s z : CStr} (hs : nul ∉ s) :
    (s ++ nul :: z).takeWhile (· ≠ nul) = s := by
  have hne : ∀ c ∈ s, decide (c ≠ nul) = true := by
    intro c hc
    rw [decide_eq_true_eq]
    rintro rfl
    exact hs hc
  rw [List.takeWhile_append_of_pos hne, List.takeWhile_cons_of_neg (by simp), List.append_nil]

theorem cstrAt_of_append {a s z : CStr} (hs : nul ∉ s) :
    cstrAt (a ++ (s ++ nul :: z)) a.length = .done s := by
  have hmem : nul ∈ s ++ nul :: z := by simp
  rw [cstrAt, List.drop_left, if_pos hmem, takeWhile_nul hs]

theorem cstrAt_zero {s z : CStr} (hs : nul ∉ s) : cstrAt (s ++ nul :: z) 0 = .done s := by
  have h := cstrAt_of_append (a := []) (z := z) hs
  rwa [List.nil_append] at h

/-- One byte is cut out; the last one of the block stays where it is. -/
theorem memmove_cut (a s : List Char) (x c : Char) :
    memmove (a ++ x :: (s ++ [c])) a.length (a.length + 1) (s.length + 1) =
      .done (a ++ (s ++ [c, c])) := by
  have hdrop : (a ++ x :: (s ++ [c])).drop (a.length + 1) = s ++ [c] := by
    rw [List.drop_append, List.drop_eq_nil_of_le (Nat.le_succ _), Nat.add_sub_cancel_left]
    rfl
  have hread : readAt (a ++ x :: (s ++ [c])) (a.length + 1) (s.length + 1) = .done (s ++ [c]) := by
    rw [readAt_of_le (by simp; omega), hdrop, List.take_of_length_le (by simp)]
  have hlast : (a ++ x :: (s ++ [c])).drop (a.length + (s ++ [c]).length) = [c] := by
    have hsplit : a ++ x :: (s ++ [c]) = (a ++ x :: s) ++ [c] := by simp
    rw [hsplit, List.drop_left' (by simp)]
  rw [memmove, hread, Outcome.bind_done, writeAt_of_le (by simp), List.take_left, hlast]
  simp

/-- `snprintf(block + i, size, ...)`: what it writes of a text, and the length that the whole text
has. -/
def snprintf (block : List Char) (i size : ℕ) (text : CStr) : Outcome (List Char × ℕ) :=
  if size = 0 then .done (block, text.length)
  else (writeAt block i (text.take (size - 1) ++ [nul])).bind fun block =>
    .done (block, text.length)

section Append

variable {block out : List Char} {size : ℕ}

/-- Bytes that go behind those that have been written. -/
theorem writeAt_behind (bs : List Char) (hout : out <+: block)
    (hle : out.length + bs.length ≤ block.length) :
    ∃ block', writeAt block out.length bs = .done block' ∧ block'.length = block.length ∧
      out ++ bs <+: block' :=
  writeAt_append rfl hout (by rwa [List.length_append])

/-- A text that goes behind what has been written, as far as there is room for it. -/
theorem snprintf_behind (text : CStr) (hout : out <+: block) (hsize : 0 < size)
    (hroom : out.length + size ≤ block.length) :
    ∃ block', snprintf block out.length size text = .done (block', text.length) ∧
      block'.length = block.length ∧ out ++ text.take (size - 1) ++ [nul] <+: block' := by
  obtain ⟨block', hwrite, hlen, hout'⟩ := writeAt_behind (text.take (size - 1) ++ [nul]) hout
    (by rw [List.length_append, List.length_take, List.length_singleton]; omega)
  refine ⟨block', ?_, hlen, by rwa [List.append_assoc]⟩
  rw [snprintf, if_neg (Nat.ne_of_gt hsize), hwrite]
  rfl

end Append

end MultipathTools
