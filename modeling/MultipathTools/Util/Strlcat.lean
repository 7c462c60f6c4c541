import MultipathTools.Dict.PrintStr

/-! `strlcat` (`util.c`), and what it and `strlcpy` leave in their destination. -/
namespace MultipathTools.Util
open MultipathTools.Dict

/-- The loop in `strlcat` that goes to the end of the old string, for at most `n` more bytes. -/
def strlcatSkip (dst : List Char) : ℕ → ℕ → Outcome ℕ
  | 0, bytes => .done bytes
  | n + 1, bytes =>
    (byteAt dst bytes).bind fun ch =>
      if ch = nul then .done bytes else strlcatSkip dst n (bytes + 1)

/-- `strlcat`. Its last loop is the one of `strlcpy`. -/
def strlcat (dst : List Char) (src : CStr) (size : ℕ) : Outcome (List Char × ℕ) :=
  (strlcatSkip dst size 0).bind fun bytes =>
    if bytes = size then .done (dst, bytes + src.length)
    else
      (strlcpyLoop size src dst bytes bytes).bind fun (dst, p, bytes) =>
        (writeAt dst p [nul]).bind fun dst => .done (dst, bytes)

/-- The string that a block holds, also if it is not terminated. -/
def oldString (dst : List Char) : CStr := dst.takeWhile (· ≠ nul)

variable {dst out rest : List Char} {src text : CStr} {size bytes n : ℕ}

theorem writeAt_over (a b : List Char) (x c : Char) :
    writeAt (a ++ x :: b) a.length [c] = .done (a ++ c :: b) := by
  have hdrop : (a ++ x :: b).drop (a.length + [c].length) = b := by
    rw [List.drop_append, List.drop_eq_nil_of_le (Nat.le_add_right _ _), Nat.add_sub_cancel_left]
    rfl
  rw [writeAt_of_le (by simp), List.take_left, hdrop, List.append_assoc, List.singleton_append]

/-- The loop that copies, with the cursor behind `out`. -/
theorem strlcpyLoop_append (hroom : (src.take (size - 1 - bytes)).length ≤ rest.length) :
    strlcpyLoop size src (out ++ rest) out.length bytes =
      .done (out ++ src.take (size - 1 - bytes) ++ rest.drop (src.take (size - 1 - bytes)).length,
        (out ++ src.take (size - 1 - bytes)).length, bytes + src.length) := by
  induction src generalizing out rest bytes with
  | nil => simp [strlcpyLoop]
  | cons ch src ih =>
    rw [strlcpyLoop]
    by_cases hlt : bytes + 1 < size
    · rw [show size - 1 - bytes = (size - 1 - (bytes + 1)) + 1 by omega, List.take_succ_cons] at hroom ⊢
      cases rest with
      | nil => exact absurd hroom (Nat.not_succ_le_zero _)
      | cons r rest =>
        have hwrite : writeAt (out ++ r :: rest) out.length [ch] = .done ((out ++ [ch]) ++ rest) := by
          rw [writeAt_over, List.append_assoc, List.singleton_append]
        have hpos : out.length + 1 = (out ++ [ch]).length := by simp
        rw [if_pos hlt, hwrite, Outcome.bind_done, hpos, ih (Nat.le_of_succ_le_succ hroom)]
        simp only [List.append_assoc, List.singleton_append, List.length_cons, Nat.add_assoc,
          Nat.add_comm 1, List.drop_succ_cons]
    · have hzero : size - 1 - bytes = 0 := by omega
      have hzero' : size - 1 - (bytes + 1) = 0 := by omega
      have hrest := @ih out rest (bytes + 1) (by rw [hzero']; exact Nat.zero_le _)
      rw [hzero'] at hrest
      rw [if_neg hlt, hrest, hzero]
      simp only [List.take_zero, List.length_cons, Nat.add_assoc, Nat.add_comm 1]

/-- The loop that copies, and the NUL behind it. -/
theorem strlcpyLoop_ended (hroom : (src.take (size - 1 - bytes)).length < rest.length) :
    ((strlcpyLoop size src (out ++ rest) out.length bytes).bind fun (dst, p, bytes) =>
        (writeAt dst p [nul]).bind fun dst => .done (dst, bytes)) =
      .done (out ++ src.take (size - 1 - bytes) ++
        nul :: rest.drop ((src.take (size - 1 - bytes)).length + 1), bytes + src.length) := by
  rw [strlcpyLoop_append hroom.le, Outcome.bind_done]
  dsimp only
  rw [List.drop_eq_getElem_cons hroom, writeAt_over, Outcome.bind_done]

theorem strlcatSkip_eq (h : bytes + n ≤ dst.length) :
    strlcatSkip dst n bytes = .done (bytes + min n (oldString (dst.drop bytes)).length) := by
  induction n generalizing bytes with
  | zero => simp [strlcatSkip]
  | succ n ih =>
    have hlt : bytes < dst.length := by omega
    rw [strlcatSkip, byteAt_of_lt hlt, Outcome.bind_done, List.drop_eq_getElem_cons hlt, oldString,
      List.takeWhile_cons]
    by_cases hnul : dst[bytes] = nul
    · rw [if_pos hnul, if_neg (by simp [hnul])]
      simp
    · rw [if_neg hnul, if_pos (by simp [hnul]), ih (by omega), List.length_cons,
        Nat.add_min_add_right, oldString, Nat.add_assoc, Nat.add_comm 1]

theorem oldString_of_mem (h : nul ∈ dst.take size) :
    ∃ rest, dst = oldString dst ++ nul :: rest ∧ nul ∉ oldString dst ∧ (oldString dst).length < size := by
  obtain ⟨s, z, htake, hs⟩ := List.eq_append_cons_of_mem h
  have hdst : dst = s ++ nul :: (z ++ dst.drop size) := by
    rw [← List.cons_append, ← List.append_assoc, ← htake, List.take_append_drop]
  have hold : oldString dst = s := by
    rw [hdst]
    exact takeWhile_nul hs
  have hlen : (dst.take size).length = s.length + (z.length + 1) := by
    rw [htake, List.length_append, List.length_cons]
  rw [List.length_take] at hlen
  rw [hold]
  exact ⟨_, hdst, hs, by omega⟩

theorem le_oldString_of_not_mem (h : nul ∉ dst.take size) (hsize : size ≤ dst.length) :
    size ≤ (oldString dst).length := by
  have hne : ∀ ch ∈ dst.take size, decide (ch ≠ nul) = true := by
    intro ch hch
    rw [decide_eq_true_eq]
    rintro rfl
    exact h hch
  rw [oldString, ← List.take_append_drop size dst, List.takeWhile_append_of_pos hne,
    List.length_append, List.length_take]
  omega

/-- The block after a string of at most `n` bytes has been put at its start. -/
def ended (dst : List Char) (text : CStr) (n : ℕ) : List Char :=
  text.take n ++ nul :: dst.drop ((text.take n).length + 1)

theorem cstrAt_ended (h : nul ∉ text) : cstrAt (ended dst text n) 0 = .done (text.take n) :=
  cstrAt_zero fun hmem => h (List.mem_of_mem_take hmem)

theorem length_ended (h : n < dst.length) : (ended dst text n).length = dst.length := by
  rw [ended, List.length_append, List.length_cons, List.length_drop, List.length_take]
  omega

/-- The bytes from `size` on stay as they are. -/
theorem drop_ended (h : n < size) : (ended dst text n).drop size = dst.drop size := by
  have hle : (text.take n).length + 1 ≤ size := by
    rw [List.length_take]
    omega
  rw [ended, List.append_cons, List.drop_append, List.drop_eq_nil_of_le (by simpa using hle),
    List.nil_append, List.drop_drop, List.length_append, List.length_singleton]
  congr 1
  omega

/-- `strlcpy` leaves the longest part of the source that fits with a NUL. -/
theorem strlcpy_ended (hpos : 0 < size) (hsize : size ≤ dst.length) :
    strlcpy dst 0 src size = .done (ended dst src (size - 1), src.length) := by
  have hended := @strlcpyLoop_ended [] dst src size 0 (by rw [List.length_take]; omega)
  rw [Nat.sub_zero, List.nil_append, List.nil_append, Nat.zero_add] at hended
  unfold strlcpy
  simp only [Nat.ne_of_gt hpos, if_false]
  exact hended

/-- Without room for a NUL `strlcpy` counts only. -/
theorem strlcpy_zero (dst : List Char) (src : CStr) : strlcpy dst 0 src 0 = .done (dst, src.length) := by
  have hloop : strlcpyLoop 0 src dst 0 0 = .done (dst, 0, src.length) := by
    simpa using @strlcpyLoop_append [] dst src 0 0 (Nat.zero_le _)
  rw [strlcpy, hloop]
  rfl

/-- `strlcat` leaves the longest part of both strings that fits with a NUL. -/
theorem strlcat_ended (hterm : nul ∈ dst.take size) (hsize : size ≤ dst.length) :
    strlcat dst src size =
      .done (ended dst (oldString dst ++ src) (size - 1), (oldString dst).length + src.length) := by
  obtain ⟨rest, hdst, -, hlt⟩ := oldString_of_mem hterm
  have hskip := @strlcatSkip_eq dst 0 size (by omega)
  rw [List.drop_zero, Nat.zero_add, min_eq_right hlt.le] at hskip
  generalize oldString dst = old at *
  subst hdst
  rw [List.length_append, List.length_cons] at hsize
  have hcopied := @strlcpyLoop_ended old (nul :: rest) src size old.length (by
    rw [List.length_take, List.length_cons]
    omega)
  have hcut : (old ++ src).take (size - 1) = old ++ src.take (size - 1 - old.length) := by
    rw [List.take_append, List.take_of_length_le (by omega)]
  rw [strlcat, hskip, Outcome.bind_done, if_neg hlt.ne, hcopied, ended, hcut, List.length_append,
    Nat.add_assoc, List.drop_append, List.drop_eq_nil_of_le (Nat.le_add_right _ _), List.nil_append,
    Nat.add_sub_cancel_left]

/-- A string that is not terminated in the first `size` bytes is left alone. -/
theorem strlcat_full (hterm : nul ∉ dst.take size) (hsize : size ≤ dst.length) :
    strlcat dst src size = .done (dst, size + src.length) := by
  have hskip := @strlcatSkip_eq dst 0 size (by omega)
  rw [List.drop_zero, Nat.zero_add, min_eq_left (le_oldString_of_not_mem hterm hsize)] at hskip
  rw [strlcat, hskip, Outcome.bind_done, if_pos rfl]

/-- `strlcpy` and `strlcat` write to the first `size` bytes only, and leave the longest part that fits,
terminated, of the source and of both strings. -/
theorem strlcpy_strlcat_spec (dst : List Char) (src : CStr) (size : ℕ) (hsrc : nul ∉ src)
    (hsize : size ≤ dst.length) :
    (∃ dst', strlcpy dst 0 src size = .done (dst', src.length) ∧
      dst'.length = dst.length ∧ dst'.drop size = dst.drop size ∧
      (0 < size → cstrAt dst' 0 = .done (src.take (size - 1)))) ∧
    ∃ dst', strlcat dst src size = .done (dst', min size (oldString dst).length + src.length) ∧
      dst'.length = dst.length ∧ dst'.drop size = dst.drop size ∧
      (nul ∈ dst.take size → cstrAt dst' 0 = .done ((oldString dst ++ src).take (size - 1))) ∧
      (nul ∉ dst.take size → dst' = dst) := by
  constructor
  · rcases Nat.eq_zero_or_pos size with rfl | hpos
    · exact ⟨dst, strlcpy_zero dst src, rfl, rfl, fun h => absurd h (lt_irrefl 0)⟩
    · exact ⟨_, strlcpy_ended hpos hsize, length_ended (by omega), drop_ended (by omega),
        fun _ => cstrAt_ended hsrc⟩
  · by_cases hterm : nul ∈ dst.take size
    · obtain ⟨rest, -, hold, hlt⟩ := oldString_of_mem hterm
      have hboth : nul ∉ oldString dst ++ src := by
        rw [List.mem_append]
        exact not_or.2 ⟨hold, hsrc⟩
      refine ⟨_, ?_, length_ended (by omega), drop_ended (by omega), fun _ => cstrAt_ended hboth,
        fun h => absurd hterm h⟩
      rw [strlcat_ended hterm hsize, min_eq_right hlt.le]
    · refine ⟨dst, ?_, rfl, rfl, fun h => absurd h hterm, fun _ => rfl⟩
      rw [strlcat_full hterm hsize, min_eq_left (le_oldString_of_not_mem hterm hsize)]

theorem strlcpy_strlcat_spec_hello :
    (∃ dst', strlcpy ("Hello".toList ++ [nul, '@', '@']) 0 " World".toList 8 = .done (dst', 6) ∧
      dst'.length = 8 ∧ dst'.drop 8 = [] ∧
      (0 < 8 → cstrAt dst' 0 = .done (" World".toList.take 7))) ∧
    ∃ dst', strlcat ("Hello".toList ++ [nul, '@', '@']) " World".toList 8 = .done (dst', 11) ∧
      dst'.length = 8 ∧ dst'.drop 8 = [] ∧
      (nul ∈ ("Hello".toList ++ [nul, '@', '@']).take 8 →
        cstrAt dst' 0 = .done ("Hello World".toList.take 7)) ∧
      (nul ∉ ("Hello".toList ++ [nul, '@', '@']).take 8 →
        dst' = "Hello".toList ++ [nul, '@', '@']) :=
  strlcpy_strlcat_spec ("Hello".toList ++ [nul, '@', '@']) " World".toList 8 (by decide) (by decide)

end MultipathTools.Util
