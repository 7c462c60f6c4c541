import Mathlib.Data.List.TakeWhile
import MultipathTools.Base.CString

/-! Reading a stream line by line with `fgets` into a buffer of fixed size, and how the
lines change when text is appended to the stream. -/
namespace MultipathTools

/-- `fgets(buf, n + 1, f)`: what is stored, and the rest of the stream. -/
def fgets : ℕ → CStr → CStr × CStr
  | 0, s => ([], s)
  | _ + 1, [] => ([], [])
  | n + 1, c :: s =>
    if c = '\n' then ([c], s)
    else
      let r := fgets n s
      (c :: r.1, r.2)

/-- `fgets` has a whole line or a full buffer, so that it does not look any further. -/
def Full (n : ℕ) (s : CStr) : Prop := n ≤ s.length ∨ '\n' ∈ s

instance (n : ℕ) (s : CStr) : Decidable (Full n s) := inferInstanceAs (Decidable (_ ∨ _))

theorem fgets_append_rest (n : ℕ) (s : CStr) : (fgets n s).1 ++ (fgets n s).2 = s := by
  fun_induction fgets n s with
  | case1 => rfl
  | case2 => rfl
  | case3 => rfl
  | case4 n c s _ r ih => exact congrArg (c :: ·) ih

theorem fgets_append {n : ℕ} {s : CStr} (h : Full n s) (t : CStr) :
    fgets n (s ++ t) = ((fgets n s).1, (fgets n s).2 ++ t) := by
  fun_induction fgets n s with
  | case1 => simp [fgets]
  | case2 => simp [Full] at h
  | case3 => simp [fgets]
  | case4 n c s hc r ih =>
    have hf : Full n s := by
      obtain hl | hm := h
      · exact .inl (by simpa using hl)
      · exact .inr (by simpa [Ne.symm hc] using hm)
    simp [fgets, hc, ih hf, r]

theorem fgets_of_not_full {n : ℕ} {s : CStr} (h : ¬ Full n s) : fgets n s = (s, []) := by
  fun_induction fgets n s with
  | case1 => simp [Full] at h
  | case2 => rfl
  | case3 => simp [Full] at h
  | case4 n c s hc r ih =>
    have hf : ¬ Full n s := by
      rintro (hl | hm)
      · exact h (.inl (by simpa using hl))
      · exact h (.inr (List.mem_cons_of_mem c hm))
    simp [r, ih hf]

/-- The part of the stream before the line break, if the buffer has room for it. -/
theorem fgets_line {n : ℕ} {s : CStr} (hs : '\n' ∉ s) (t : CStr) :
    fgets n (s ++ '\n' :: t) =
      if s.length < n then (s ++ ['\n'], t) else (s.take n, s.drop n ++ '\n' :: t) := by
  induction s generalizing n with
  | nil => cases n <;> simp [fgets]
  | cons c s ih =>
    obtain ⟨hc, hs⟩ : ¬ '\n' = c ∧ '\n' ∉ s := by simpa using hs
    cases n with
    | zero => simp [fgets]
    | succ n =>
      by_cases hl : s.length < n
      · simp [fgets, Ne.symm hc, ih hs, hl]
      · simp [fgets, Ne.symm hc, ih hs, hl]

theorem fgets_rest_lt {n : ℕ} {s : CStr} (hn : n ≠ 0) (hs : s ≠ []) :
    (fgets n s).2.length < s.length := by
  have hlen := congrArg List.length (fgets_append_rest n s)
  have hpos : (fgets n s).1 ≠ [] := by
    obtain ⟨m, rfl⟩ := Nat.exists_eq_succ_of_ne_zero hn
    obtain ⟨c, s, rfl⟩ := List.exists_cons_of_ne_nil hs
    unfold fgets
    split_ifs <;> simp
  have := List.length_pos_iff.mpr hpos
  rw [List.length_append] at hlen
  omega

/-- The loop `while (fgets(buf, n + 1, f))`: the contents of `buf`, one after the other. -/
def readLines (n : ℕ) (s : CStr) : List CStr :=
  if _ : n = 0 ∨ s = [] then []
  else (fgets n s).1 :: readLines n (fgets n s).2
termination_by s.length
decreasing_by
  rename_i h
  exact fgets_rest_lt (fun hn => h (.inl hn)) fun hs => h (.inr hs)

/-- What the loop reads last, if the stream ends there before the line or the buffer does. -/
def unfinished (n : ℕ) (s : CStr) : CStr :=
  if _ : n ≠ 0 ∧ Full n s then unfinished n (fgets n s).2 else s
termination_by s.length
decreasing_by
  rename_i h
  refine fgets_rest_lt h.1 fun hs => ?_
  subst hs
  simpa [Full, h.1] using h.2

@[simp] theorem readLines_nil (n : ℕ) : readLines n [] = [] := by
  rw [readLines, dif_pos (.inr rfl)]

theorem readLines_cons {n : ℕ} {s : CStr} (hn : n ≠ 0) (hs : s ≠ []) :
    readLines n s = (fgets n s).1 :: readLines n (fgets n s).2 := by
  rw [readLines, dif_neg (not_or_intro hn hs)]

theorem readLines_of_not_full {n : ℕ} {s : CStr} (hn : n ≠ 0) (h : ¬ Full n s) :
    readLines n s = if s = [] then [] else [s] := by
  split_ifs with hs
  · rw [hs, readLines_nil]
  · rw [readLines_cons hn hs, fgets_of_not_full h, readLines_nil]

theorem unfinished_not_full {n : ℕ} (hn : n ≠ 0) (s : CStr) : ¬ Full n (unfinished n s) := by
  fun_induction unfinished n s with
  | case1 s _ ih => exact ih
  | case2 s h => exact fun hf => h ⟨hn, hf⟩

theorem unfinished_suffix (n : ℕ) (s : CStr) : unfinished n s <:+ s := by
  fun_induction unfinished n s with
  | case1 s _ ih =>
    apply ih.trans
    exact ⟨(fgets n s).1, fgets_append_rest n s⟩
  | case2 s _ => exact List.suffix_refl s

/-- Every line of the text ends with a line break. -/
def Terminated (s : CStr) : Prop := ∀ c ∈ s.getLast?, c = '\n'

instance (s : CStr) : Decidable (Terminated s) :=
  decidable_of_iff (s.getLast?.all (· = '\n') = true) (by simp [Terminated, Option.all_eq_true])

theorem Terminated.append_line (s t : CStr) : Terminated (s ++ (t ++ ['\n'])) := by
  intro c hc
  simpa using hc.symm

/-- Nothing is left over of a text that ends with a line break. -/
theorem Terminated.unfinished_eq {n : ℕ} (hn : n ≠ 0) {s : CStr} (hs : Terminated s) :
    unfinished n s = [] := by
  by_contra hne
  have hlast : s.getLast? = some ((unfinished n s).getLast hne) := by
    obtain ⟨t, ht⟩ := unfinished_suffix n s
    calc s.getLast? = (t ++ unfinished n s).getLast? := by rw [ht]
      _ = some ((unfinished n s).getLast hne) := by
        rw [List.getLast?_append, List.getLast?_eq_some_getLast hne, Option.some_or]
  apply unfinished_not_full hn s
  apply Or.inr
  rw [← hs _ hlast]
  exact List.getLast_mem hne

/-- Appended text changes what comes after the finished lines only. -/
theorem exists_readLines_append {n : ℕ} (hn : n ≠ 0) (s : CStr) :
    ∃ ls, ∀ t, readLines n (s ++ t) = ls ++ readLines n (unfinished n s ++ t) := by
  fun_induction unfinished n s with
  | case1 s h ih =>
    obtain ⟨ls, hls⟩ := ih
    have hs : s ≠ [] := fun hs => by simpa [hs, Full, hn] using h.2
    refine ⟨(fgets n s).1 :: ls, fun t => ?_⟩
    rw [readLines_cons hn (by simp [hs]), fgets_append h.2, hls, List.cons_append]
  | case2 s h => exact ⟨[], fun t => rfl⟩

/-- A line that fits into the buffer is read as it is. -/
theorem readLines_line_append {n : ℕ} {s : CStr} (hs : '\n' ∉ s) (hlen : s.length < n) (t : CStr) :
    readLines n (s ++ '\n' :: t) = (s ++ ['\n']) :: readLines n t := by
  rw [readLines_cons (by omega) (by simp), fgets_line hs, if_pos hlen]

theorem unfinished_line_append {n : ℕ} {s : CStr} (hs : '\n' ∉ s) (hlen : s.length < n) (t : CStr) :
    unfinished n (s ++ '\n' :: t) = unfinished n t := by
  rw [unfinished, dif_pos ⟨by omega, .inr (by simp)⟩, fgets_line hs, if_pos hlen]

/-- A text of whole lines is read line by line. -/
theorem readLines_flatMap {n : ℕ} {ls : List CStr} (hls : ∀ l ∈ ls, '\n' ∉ l ∧ l.length < n) :
    readLines n (ls.flatMap (· ++ ['\n'])) = ls.map (· ++ ['\n']) := by
  induction ls with
  | nil => simp
  | cons l ls ih =>
    obtain ⟨hl, hls⟩ := List.forall_mem_cons.mp hls
    rw [List.flatMap_cons, List.append_assoc, List.singleton_append,
      readLines_line_append hl.1 hl.2, ih hls, List.map_cons]

theorem Terminated.flatMap (ls : List CStr) : Terminated (ls.flatMap (· ++ ['\n'])) := by
  cases ls using List.reverseRecOn with
  | nil => simp [Terminated]
  | append_singleton ls l =>
    rw [List.flatMap_append, List.flatMap_singleton]
    exact Terminated.append_line _ l

theorem unfinished_flatMap {n : ℕ} {ls : List CStr} (hn : n ≠ 0)
    (hls : ∀ l ∈ ls, '\n' ∉ l ∧ l.length < n) : unfinished n (ls.flatMap (· ++ ['\n'])) = [] := by
  induction ls with
  | nil => rw [List.flatMap_nil, unfinished, dif_neg (by simp [Full, hn])]
  | cons l ls ih =>
    obtain ⟨hl, hls⟩ := List.forall_mem_cons.mp hls
    rw [List.flatMap_cons, List.append_assoc, List.singleton_append,
      unfinished_line_append hl.1 hl.2, ih hls]

/-- A line that is appended to an unfinished one is read in one piece or in two. -/
theorem readLines_line {n : ℕ} {s : CStr} (hn : n ≠ 0) (hs : '\n' ∉ s) (hlen : s.length < 2 * n) :
    readLines n (s ++ ['\n']) =
      if s.length < n then [s ++ ['\n']] else [s.take n, s.drop n ++ ['\n']] := by
  rw [readLines_cons hn (by simp), fgets_line hs]
  split_ifs with h
  · rw [readLines_nil]
  · have hd : '\n' ∉ s.drop n := fun hm => hs (List.mem_of_mem_drop hm)
    rw [readLines_cons hn (by simp), fgets_line hd, if_pos (by simp; omega), readLines_nil]

/-- The loop `while ((n = getline(&line, &line_len, file)) >= 0)`: the lines, of any length. -/
def getlines : CStr → List CStr
  | [] => []
  | c :: s =>
    if c = '\n' then [c] :: getlines s
    else
      match getlines s with
      | [] => [[c]]
      | line :: lines => (c :: line) :: lines

theorem getlines_line {s : CStr} (hs : '\n' ∉ s) (t : CStr) :
    getlines (s ++ '\n' :: t) = (s ++ ['\n']) :: getlines t := by
  induction s with
  | nil => rfl
  | cons c s ih =>
    obtain ⟨hc, hs⟩ := not_or.mp (List.mem_cons.not.mp hs)
    rw [List.cons_append, getlines, if_neg (Ne.symm hc), ih hs]
    rfl

theorem getlines_flatMap {ls : List CStr} (h : ∀ l ∈ ls, '\n' ∉ l) (t : CStr) :
    getlines (ls.flatMap (· ++ ['\n']) ++ t) = ls.map (· ++ ['\n']) ++ getlines t := by
  induction ls with
  | nil => rfl
  | cons l ls ih =>
    rw [List.flatMap_cons, List.append_assoc, List.append_assoc, List.singleton_append,
      getlines_line (h l List.mem_cons_self), ih fun l hl => h l (List.mem_cons_of_mem _ hl)]
    rfl

/-- The last line, without a line break. -/
theorem getlines_last {s : CStr} (hne : s ≠ []) (hs : '\n' ∉ s) : getlines s = [s] := by
  induction s with
  | nil => exact absurd rfl hne
  | cons c s ih =>
    obtain ⟨hc, hs⟩ := not_or.mp (List.mem_cons.not.mp hs)
    rw [getlines, if_neg (Ne.symm hc)]
    cases s with
    | nil => rfl
    | cons d s => rw [ih (by simp) hs]

@[simp] theorem flatten_getlines (s : CStr) : (getlines s).flatten = s := by
  fun_induction getlines s with
  | case1 => rfl
  | case2 s ih => simp [ih]
  | case3 c s hc hnil ih =>
    rw [hnil] at ih
    simp [← ih]
  | case4 c s hc line lines hcons ih =>
    rw [hcons] at ih
    simp [← ih]

/-- A line has its line break at the end, if it has one. -/
theorem line_of_mem_getlines {s l : CStr} (h : l ∈ getlines s) :
    ∃ a, '\n' ∉ a ∧ (l = a ∨ l = a ++ ['\n']) := by
  fun_induction getlines s generalizing l with
  | case1 => cases h
  | case2 s ih =>
    obtain rfl | h := List.mem_cons.mp h
    · exact ⟨[], List.not_mem_nil, .inr rfl⟩
    · exact ih h
  | case3 c s hc hnil ih =>
    rw [List.mem_singleton.mp h]
    exact ⟨[c], by simpa using Ne.symm hc, .inl rfl⟩
  | case4 c s hc line lines hcons ih =>
    rw [hcons] at ih
    obtain rfl | h := List.mem_cons.mp h
    · obtain ⟨a, ha, hl⟩ := ih List.mem_cons_self
      refine ⟨c :: a, ?_, hl.imp (congrArg (c :: ·)) (congrArg (c :: ·))⟩
      simpa [Ne.symm hc] using ha
    · exact ih (List.mem_cons_of_mem _ h)

/-- The part of a line without its line break. -/
def lineBody (l : CStr) : CStr := l.takeWhile (· ≠ '\n')

theorem lineBody_of_not_mem {s : CStr} (hs : '\n' ∉ s) (t : CStr) :
    lineBody s = s ∧ lineBody (s ++ '\n' :: t) = s := by
  have hall : ∀ c ∈ s, decide (c ≠ '\n') = true := fun c hc =>
    decide_eq_true fun he => hs (he ▸ hc)
  constructor
  · exact List.takeWhile_eq_self_iff.mpr hall
  · rw [lineBody, List.takeWhile_append_of_pos hall, List.takeWhile_cons_of_neg (by simp),
      List.append_nil]

/-- A text is empty, or its last line, or a line and more. -/
theorem text_cases (s : CStr) : s = [] ∨ (s ≠ [] ∧ '\n' ∉ s) ∨
    ∃ a t, s = a ++ '\n' :: t ∧ '\n' ∉ a := by
  by_cases hmem : '\n' ∈ s
  · exact .inr (.inr (List.eq_append_cons_of_mem hmem))
  · by_cases hnil : s = []
    · exact .inl hnil
    · exact .inr (.inl ⟨hnil, hmem⟩)

theorem fgets_last {n : ℕ} {s : CStr} (hs : '\n' ∉ s) (hlen : s.length ≤ n) :
    fgets n s = (s, []) := by
  induction s generalizing n with
  | nil => cases n <;> rfl
  | cons c s ih =>
    obtain ⟨hc, hs⟩ := not_or.mp (List.mem_cons.not.mp hs)
    obtain ⟨n, rfl⟩ := Nat.exists_eq_succ_of_ne_zero (by simp at hlen; omega : n ≠ 0)
    rw [fgets, if_neg (Ne.symm hc), ih hs (by simpa using hlen)]

end MultipathTools
