import MultipathTools.Base.Lines

/-! Searching a file chunk by chunk: a chunk without a hit is followed by the chunk that starts
after its last line break. -/
namespace MultipathTools

/-- A text of whole lines. -/
def unlines (ls : List CStr) : CStr := ls.flatMap (· ++ ['\n'])

@[simp] theorem unlines_nil : unlines [] = [] := rfl

@[simp] theorem unlines_cons (l : CStr) (ls : List CStr) :
    unlines (l :: ls) = l ++ '\n' :: unlines ls := by
  simp [unlines]

@[simp] theorem unlines_append (ls ms : List CStr) :
    unlines (ls ++ ms) = unlines ls ++ unlines ms := List.flatMap_append

theorem strrchr_length {c : Char} {s a b : CStr} (h : strrchr c s = some (a, b)) :
    a.length < s.length := by
  induction s generalizing a b with
  | nil => cases h
  | cons d s ih =>
    unfold strrchr at h
    split at h
    · rename_i before after hr
      cases h
      simpa using ih hr
    · split at h <;> cases h
      simp

/-- The loop over the chunks. `find` looks for the hit in a chunk; the result is the position of
the chunk with the hit and the position in the chunk. -/
def chunkSearch (size : ℕ) (find : CStr → Option ℕ) (content : CStr) (start : ℕ) :
    Option (ℕ × ℕ) :=
  if _ : (content.drop start).take size = [] then none
  else
    match find ((content.drop start).take size) with
    | some i => some (start, i)
    | none =>
      match _h : strrchr '\n' ((content.drop start).take size) with
      | none => none
      | some r => chunkSearch size find content (start + r.1.length + 1)
termination_by content.length - start
decreasing_by
  have := strrchr_length _h
  simp only [List.length_take, List.length_drop] at this
  omega

/-- The position of `n` in the text, for the first line that ends with `n`. -/
def lineOffset (n : CStr) : List CStr → Option ℕ
  | [] => none
  | l :: ls =>
    if n <:+ l then some (l.length - n.length) else (lineOffset n ls).map (l.length + 1 + ·)

theorem lineOffset_eq_none_iff {n : CStr} {ls : List CStr} :
    lineOffset n ls = none ↔ ∀ l ∈ ls, ¬ n <:+ l := by
  induction ls with
  | nil => simp [lineOffset]
  | cons l ls ih => by_cases h : n <:+ l <;> simp [lineOffset, h, ih]

theorem lineOffset_append {n : CStr} {ls ms : List CStr} (h : lineOffset n ls = none) :
    lineOffset n (ls ++ ms) = (lineOffset n ms).map ((unlines ls).length + ·) := by
  induction ls with
  | nil => simp
  | cons l ls ih =>
    have hl : ¬ n <:+ l := lineOffset_eq_none_iff.mp h l List.mem_cons_self
    have hls : lineOffset n ls = none :=
      lineOffset_eq_none_iff.mpr fun m hm => lineOffset_eq_none_iff.mp h m (List.mem_cons_of_mem l hm)
    simp only [List.cons_append, lineOffset, hl, if_false, ih hls, Option.map_map,
      unlines_cons, List.length_append, List.length_cons]
    congr 1
    funext i
    simp only [Function.comp]
    omega

theorem lineOffset_append_of_some {n : CStr} {ls ms : List CStr} {i : ℕ}
    (h : lineOffset n ls = some i) : lineOffset n (ls ++ ms) = some i := by
  induction ls generalizing i with
  | nil => cases h
  | cons l ls ih =>
    simp only [List.cons_append, lineOffset] at h ⊢
    split
    · rename_i hl
      rwa [if_pos hl] at h
    · rename_i hl
      rw [if_neg hl] at h
      obtain ⟨j, hj, rfl⟩ := Option.map_eq_some_iff.mp h
      rw [ih hj, Option.map_some]

/-- Text that ends with a line break and contains no other one begins a line iff it is the line. -/
theorem line_prefix_iff {n l t : CStr} (hn : '\n' ∉ n) (hl : '\n' ∉ l) :
    n ++ ['\n'] <+: l ++ '\n' :: t ↔ n = l := by
  induction n generalizing l with
  | nil =>
    cases l with
    | nil => simp
    | cons d l =>
      have hd : '\n' ≠ d := fun h => hl (h ▸ List.mem_cons_self)
      simp [hd]
  | cons c n ih =>
    have hc : '\n' ≠ c := fun h => hn (h ▸ List.mem_cons_self)
    have hn' : '\n' ∉ n := fun h => hn (List.mem_cons_of_mem c h)
    cases l with
    | nil => simp [Ne.symm hc]
    | cons d l =>
      have hl' : '\n' ∉ l := fun h => hl (List.mem_cons_of_mem d h)
      simp only [List.cons_append, List.cons_prefix_cons, ih hn' hl', List.cons.injEq]

/-- `strstr` of a text with a line break at its end, line by line. -/
theorem strstr_line {n l : CStr} (hn : '\n' ∉ n) (hl : '\n' ∉ l) (t : CStr) :
    (strstr (n ++ ['\n']) (l ++ '\n' :: t)).map (·.1.length) =
      if n <:+ l then some (l.length - n.length)
      else ((strstr (n ++ ['\n']) t).map (·.1.length)).map (l.length + 1 + ·) := by
  induction l with
  | nil =>
    have hp := line_prefix_iff (t := t) hn hl
    rw [List.nil_append] at hp ⊢
    by_cases h : n = []
    · rw [strstr, if_pos (hp.mpr h), if_pos (by simp [h]), Option.map_some, List.length_nil,
        Nat.zero_sub]
    · have hs : ¬ n <:+ [] := by simpa using h
      simp only [strstr, if_neg (mt hp.mp h), if_neg hs, Option.map_map, List.length_nil]
      congr 1
      funext r
      simp only [Function.comp, List.length_cons]
      omega
  | cons c l ih =>
    have hp := line_prefix_iff (t := t) hn hl
    have hl' : '\n' ∉ l := fun h => hl (List.mem_cons_of_mem c h)
    rw [List.cons_append] at hp ⊢
    by_cases h : n = c :: l
    · have hs : n <:+ c :: l := by rw [h]
      rw [strstr, if_pos (hp.mpr h), if_pos hs, Option.map_some, h, Nat.sub_self]
      rfl
    · have hs : n <:+ c :: l ↔ n <:+ l := by
        rw [List.suffix_cons_iff]
        exact or_iff_right h
      simp only [strstr, if_neg (mt hp.mp h), hs, Option.map_map]
      have hcons : (fun r : CStr × CStr => r.1.length) ∘ (fun r => (c :: r.1, r.2)) =
          (· + 1) ∘ fun r : CStr × CStr => r.1.length := rfl
      rw [hcons, ← Option.map_map, ih hl']
      split
      · rename_i hle
        have := hle.length_le
        simp only [Option.map_some, List.length_cons]
        congr 1
        omega
      · simp only [Option.map_map, List.length_cons]
        congr 1
        funext r
        simp only [Function.comp]
        omega

/-- `strstr` of a text with a line break at its end finds the first line that ends like it. -/
theorem strstr_unlines {n part : CStr} {ls : List CStr} (hn : '\n' ∉ n)
    (hls : ∀ l ∈ ls, '\n' ∉ l) (hpart : '\n' ∉ part) :
    (strstr (n ++ ['\n']) (unlines ls ++ part)).map (·.1.length) = lineOffset n ls := by
  induction ls with
  | nil =>
    have hno : ¬ n ++ ['\n'] <:+: [] ++ part := fun h => hpart (h.subset (by simp))
    rw [unlines_nil, strstr_eq_none_iff.mpr hno]
    rfl
  | cons l ls ih =>
    obtain ⟨hl, hls⟩ := List.forall_mem_cons.mp hls
    rw [unlines_cons, List.append_assoc, List.cons_append, strstr_line hn hl, ih hls]
    rfl

/-- A chunk of a text of lines, from the start of a line, has whole lines and the beginning of the
next one. -/
theorem take_unlines (size : ℕ) {ls : List CStr} (hls : ∀ l ∈ ls, '\n' ∉ l) :
    ∃ now later part, ls = now ++ later ∧ (unlines ls).take size = unlines now ++ part ∧
      '\n' ∉ part ∧ ∀ l ∈ ls.head?, l.length < size → now ≠ [] := by
  induction ls generalizing size with
  | nil => exact ⟨[], [], [], rfl, by simp, by simp, by simp⟩
  | cons l ls ih =>
    obtain ⟨hl, hls⟩ := List.forall_mem_cons.mp hls
    by_cases hsize : l.length < size
    · obtain ⟨now, later, part, rfl, htake, hpart, -⟩ := ih (size - (l.length + 1)) hls
      refine ⟨l :: now, later, part, rfl, ?_, hpart, fun _ _ _ => by simp⟩
      rw [unlines_cons, ← List.singleton_append, ← List.append_assoc, List.take_append,
        List.take_of_length_le (by simp; omega), List.length_append, List.length_singleton, htake,
        unlines_cons, List.append_assoc, List.append_assoc]
      rfl
    · refine ⟨[], l :: ls, l.take size, rfl, ?_, fun h => hl (List.mem_of_mem_take h), ?_⟩
      · rw [unlines_cons, List.take_append_of_le_length (by omega)]
        rfl
      · intro m hm hlt
        obtain rfl : l = m := by simpa using hm
        exact absurd hlt hsize

/-- The chunks are searched as the whole text is: a hit is in the first line that ends like the
text sought, and its chunk starts with a line that does not come after that line. -/
theorem chunkSearch_unlines {size k : ℕ} {find : CStr → Option ℕ} {n : CStr} (hn : '\n' ∉ n)
    (hfind : ∀ buf, find buf = (strstr (n ++ ['\n']) buf).map fun r => r.1.length + k)
    {ls : List CStr} (hls : ∀ l ∈ ls, '\n' ∉ l ∧ l.length < size) :
    (lineOffset n ls = none ∧ chunkSearch size find (unlines ls) 0 = none) ∨
      ∃ done rest i, ls = done ++ rest ∧ lineOffset n done = none ∧ lineOffset n rest = some i ∧
        chunkSearch size find (unlines ls) 0 = some ((unlines done).length, i + k) := by
  suffices h : ∀ m (done rest : List CStr), rest.length = m → ls = done ++ rest →
      lineOffset n done = none →
      (lineOffset n rest = none ∧
        chunkSearch size find (unlines ls) (unlines done).length = none) ∨
      ∃ done' rest' i, ls = done' ++ rest' ∧ lineOffset n done' = none ∧
        lineOffset n rest' = some i ∧
        chunkSearch size find (unlines ls) (unlines done).length =
          some ((unlines done').length, i + k) by
    simpa using h ls.length [] ls rfl rfl rfl
  intro m
  induction m using Nat.strong_induction_on with
  | _ m ih =>
    intro done rest hm hsplit hdone
    have hdrop : (unlines ls).drop (unlines done).length = unlines rest := by
      rw [hsplit, unlines_append, List.drop_left]
    rw [chunkSearch, hdrop]
    cases rest with
    | nil => exact .inl ⟨rfl, by simp⟩
    | cons l rest =>
      have hrest : ∀ x ∈ l :: rest, '\n' ∉ x ∧ x.length < size := fun x hx =>
        hls x (by rw [hsplit]; exact List.mem_append_right done hx)
      obtain ⟨now, later, part, hnl, htake, hpart, hne⟩ :=
        take_unlines size fun x hx => (hrest x hx).1
      have hnow : now ≠ [] := hne l rfl (hrest l List.mem_cons_self).2
      have hnowl : ∀ x ∈ now, '\n' ∉ x := fun x hx =>
        (hrest x (by rw [hnl]; exact List.mem_append_left later hx)).1
      have hfound : find (unlines now ++ part) = (lineOffset n now).map (· + k) := by
        rw [hfind, ← strstr_unlines hn hnowl hpart, Option.map_map]
        rfl
      rw [htake, dif_neg (by cases now <;> simp_all), hfound]
      cases hoff : lineOffset n now with
      | some i =>
        right
        refine ⟨done, l :: rest, i, hsplit, hdone, ?_, rfl⟩
        rw [hnl, lineOffset_append_of_some hoff]
      | none =>
        obtain ⟨init, last, rfl⟩ := List.eq_nil_or_concat' now |>.resolve_left hnow
        have hbreak : strrchr '\n' (unlines (init ++ [last]) ++ part) =
            some (unlines init ++ last, part) := by
          rw [unlines_append, unlines_cons, unlines_nil, List.append_assoc, List.append_assoc,
            List.cons_append, List.nil_append, ← List.append_assoc, strrchr_append hpart]
        have hstart : (unlines done).length + (unlines init ++ last).length + 1 =
            (unlines (done ++ (init ++ [last]))).length := by
          simp only [unlines_append, unlines_cons, unlines_nil, List.length_append,
            List.length_cons, List.length_nil]
          omega
        have hsplit' : ls = (done ++ (init ++ [last])) ++ later := by
          rw [hsplit, hnl]
          simp only [List.append_assoc]
        have hdone' : lineOffset n (done ++ (init ++ [last])) = none := by
          rw [lineOffset_append hdone, hoff, Option.map_none]
        have hshort : later.length < m := by
          rw [← hm, hnl]
          simp only [List.length_append, List.length_singleton]
          omega
        have hlater : lineOffset n (l :: rest) = none ↔ lineOffset n later = none := by
          rw [hnl, lineOffset_append hoff, Option.map_eq_none_iff]
        rw [hlater]
        dsimp only [Option.map_none]
        split
        · rename_i h
          rw [hbreak] at h
          cases h
        · rename_i r h
          rw [hbreak] at h
          cases h
          rw [hstart]
          exact ih later.length hshort _ later rfl hsplit' hdone'

theorem chunkSearch_position {size k : ℕ} {find : CStr → Option ℕ} {n : CStr} (hn : '\n' ∉ n)
    (hfind : ∀ buf, find buf = (strstr (n ++ ['\n']) buf).map fun r => r.1.length + k)
    {ls : List CStr} (hls : ∀ l ∈ ls, '\n' ∉ l ∧ l.length < size) :
    (chunkSearch size find (unlines ls) 0).map (fun r => r.1 + r.2) =
      (lineOffset n ls).map (· + k) := by
  obtain ⟨hno, hsearch⟩ | ⟨done, rest, i, rfl, hdone, hrest, hsearch⟩ :=
    chunkSearch_unlines hn hfind hls
  · rw [hno, hsearch]
    rfl
  · rw [hsearch, lineOffset_append hdone, hrest, Option.map_some, Option.map_some, Option.map_some,
      Nat.add_assoc]

/-- The first line that ends with `n` is the one after lines that do not. -/
theorem lineOffset_line {n l : CStr} {ls ms : List CStr} (hls : ∀ m ∈ ls, ¬ n <:+ m) (hl : n <:+ l) :
    lineOffset n (ls ++ l :: ms) = some ((unlines ls).length + (l.length - n.length)) := by
  rw [lineOffset_append (lineOffset_eq_none_iff.mpr hls), lineOffset, if_pos hl, Option.map_some]

/-- The chunk with the hit starts with a line that is not after the line of the hit. -/
theorem chunkSearch_line {size k : ℕ} {find : CStr → Option ℕ} {n l : CStr} (hn : '\n' ∉ n)
    (hfind : ∀ buf, find buf = (strstr (n ++ ['\n']) buf).map fun r => r.1.length + k)
    {ls ms : List CStr} (hls : ∀ m ∈ ls ++ l :: ms, '\n' ∉ m ∧ m.length < size)
    (hno : ∀ m ∈ ls, ¬ n <:+ m) (hl : n <:+ l) :
    ∃ done now, ls = done ++ now ∧ chunkSearch size find (unlines (ls ++ l :: ms)) 0 =
      some ((unlines done).length, (unlines now).length + (l.length - n.length) + k) := by
  obtain ⟨hnone, -⟩ | ⟨done, rest, i, hsplit, hdone, hrest, hsearch⟩ :=
    chunkSearch_unlines hn hfind hls
  · exact absurd hl (lineOffset_eq_none_iff.mp hnone l (by simp))
  · have hnow : ∃ now, ls = done ++ now ∧ rest = now ++ l :: ms := by
      obtain ⟨now, hnow, h⟩ | ⟨us, hus, h⟩ := List.append_eq_append_iff.mp hsplit
      · cases now with
        | nil => exact ⟨[], by simpa using hnow.symm, by simpa using h.symm⟩
        | cons x now =>
          obtain rfl : l = x := (List.cons.inj h).1
          exact absurd hl (lineOffset_eq_none_iff.mp hdone l (by simp [hnow]))
      · exact ⟨us, hus, h⟩
    obtain ⟨now, rfl, rfl⟩ := hnow
    have hi : lineOffset n (now ++ l :: ms) = _ :=
      lineOffset_line (fun m hm => hno m (List.mem_append_right _ hm)) hl
    rw [hi, Option.some.injEq] at hrest
    exact ⟨done, now, rfl, by rw [hsearch, hrest]⟩

theorem chunkSearch_find {size : ℕ} {find : CStr → Option ℕ} {content : CStr} {start : ℕ}
    {r : ℕ × ℕ} (h : chunkSearch size find content start = some r) :
    find ((content.drop r.1).take size) = some r.2 := by
  fun_induction chunkSearch size find content start with
  | case1 => cases h
  | case2 start _ i hi =>
    cases h
    exact hi
  | case3 => cases h
  | case4 start _ _ _ _ ih => exact ih h

end MultipathTools
