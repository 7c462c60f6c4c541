import MultipathTools.Alias.LineWords

/-! What the lookups find in a bindings file after a line has been appended to it. -/
namespace MultipathTools.Alias

/-- The ids of the aliases in the lines. -/
def lineIds (pre : Option CStr) (ls : List CStr) : List ℤ :=
  ls.filterMap fun buf => (lineWords buf).map fun w => scanDevname w.1 pre

theorem Ids.result_of_not_pos {s : Ids} (h : s.free < 0) : s.result = .error := if_pos h

theorem Ids.result_eq_free {s : Ids} {id : ℤ} (h : s.result = .free id) : s.free = id := by
  unfold Ids.result at h
  split_ifs at h
  exact Lookup.free.inj h

theorem Ids.result_ne_bound (s : Ids) (aliasName : CStr) : s.result ≠ .bound aliasName := by
  unfold Ids.result
  split_ifs <;> simp

theorem lookupLine_of_blank {wwid : CStr} {pre : Option CStr} {buf : CStr}
    (h : lineWords buf = none) (s : Ids) : lookupLine wwid pre s buf = .ok s := by
  rw [lookupLine, h]

theorem foldlM_of_blank {wwid : CStr} {pre : Option CStr} {ls : List CStr}
    (h : ∀ l ∈ ls, lineWords l = none) (s : Ids) :
    ls.foldlM (lookupLine wwid pre) s = .ok s := by
  induction ls with
  | nil => rfl
  | cons l ls ih =>
    obtain ⟨hl, h⟩ := List.forall_mem_cons.mp h
    rw [List.foldlM_cons, lookupLine_of_blank hl]
    exact ih h

theorem lookupLine_ok {wwid : CStr} {pre : Option CStr} {s t : Ids} {buf : CStr}
    (h : lookupLine wwid pre s buf = .ok t) : t = (lineIds pre [buf]).foldl Ids.note s := by
  unfold lookupLine at h
  cases hw : lineWords buf with
  | none =>
    rw [hw] at h
    simpa [lineIds, hw] using (Except.ok.inj h).symm
  | some w =>
    rw [hw] at h
    dsimp only at h
    split_ifs at h
    simpa [lineIds, hw] using (Except.ok.inj h).symm

theorem lookupLine_error {wwid : CStr} {pre : Option CStr} {s : Ids} {buf : CStr} {e : Lookup}
    (hs : 0 < s.smallestBigger) (h : lookupLine wwid pre s buf = .error e) :
    e = .error ∨ ∃ aliasName, e = .bound aliasName ∧ lineWords buf = some (aliasName, some wwid) := by
  unfold lookupLine at h
  cases hw : lineWords buf with
  | none => rw [hw] at h; cases h
  | some w =>
    rw [hw] at h
    dsimp only at h
    split_ifs at h with hbreak hfound
    · refine .inl ((Except.error.inj h).symm.trans (Ids.result_of_not_pos ?_))
      rw [Ids.free, if_neg (by simp; omega)]
      exact (by decide : (-1 : ℤ) < 0)
    · exact .inr ⟨w.1, (Except.error.inj h).symm, by rw [← hfound]⟩

theorem lineIds_cons (pre : Option CStr) (l : CStr) (ls : List CStr) :
    lineIds pre (l :: ls) = lineIds pre [l] ++ lineIds pre ls := by
  simp [lineIds, List.filterMap_cons]
  cases lineWords l <;> simp

theorem lineIds_le (pre : Option CStr) (ls : List CStr) : ∀ x ∈ lineIds pre ls, x ≤ intMax := by
  intro x hx
  obtain ⟨l, -, hl⟩ := List.mem_filterMap.mp hx
  obtain ⟨w, -, rfl⟩ := Option.map_eq_some_iff.mp hl
  exact scanDevname_le w.1 pre

theorem foldlM_ok {wwid : CStr} {pre : Option CStr} {s t : Ids} {ls : List CStr}
    (h : ls.foldlM (lookupLine wwid pre) s = .ok t) : t = (lineIds pre ls).foldl Ids.note s := by
  induction ls generalizing s with
  | nil => exact (Except.ok.inj h).symm
  | cons l ls ih =>
    rw [List.foldlM_cons] at h
    cases hl : lookupLine wwid pre s l with
    | error e => rw [hl] at h; cases h
    | ok s' =>
      rw [hl] at h
      rw [lineIds_cons, List.foldl_append, ← lookupLine_ok hl]
      exact ih h

/-- The loop is left before its end in failure or with the alias of a line for this WWID. -/
theorem foldlM_error {wwid : CStr} {pre : Option CStr} {s : Ids} {seen : List ℤ}
    {ls : List CStr} {e : Lookup} (hs : Scanned s seen)
    (h : ls.foldlM (lookupLine wwid pre) s = .error e) :
    e = .error ∨ ∃ aliasName, e = .bound aliasName ∧
      ∃ l ∈ ls, lineWords l = some (aliasName, some wwid) := by
  induction ls generalizing s seen with
  | nil => cases h
  | cons l ls ih =>
    rw [List.foldlM_cons] at h
    cases hl : lookupLine wwid pre s l with
    | error e' =>
      rw [hl] at h
      cases h
      obtain he | ⟨aliasName, he, hw⟩ := lookupLine_error hs.smallest_pos hl
      · exact .inl he
      · exact .inr ⟨aliasName, he, l, List.mem_cons_self, hw⟩
    | ok s' =>
      rw [hl] at h
      have hs' := hs.foldl (lineIds_le pre [l])
      rw [← lookupLine_ok hl] at hs'
      obtain he | ⟨aliasName, he, l', hm, hw⟩ := ih hs' h
      · exact .inl he
      · exact .inr ⟨aliasName, he, l', List.mem_cons_of_mem l hm, hw⟩

/-- A lookup that gives a free id has read the whole file. -/
theorem lookupBinding_free {content wwid : CStr} {pre : Option CStr} {id : ℤ}
    (h : lookupBinding content wwid pre = .free id) :
    ∃ s, (fileLines content).foldlM (lookupLine wwid pre) {} = .ok s ∧ s.free = id ∧
      s = (lineIds pre (fileLines content)).foldl Ids.note {} ∧
      Scanned s (lineIds pre (fileLines content)) := by
  unfold lookupBinding at h
  cases hf : (fileLines content).foldlM (lookupLine wwid pre) {} with
  | error e =>
    rw [hf] at h
    obtain he | ⟨aliasName, he, -⟩ := foldlM_error scanned_init hf <;> simp [he] at h
  | ok s =>
    rw [hf] at h
    have hs := foldlM_ok hf
    refine ⟨s, rfl, Ids.result_eq_free h, hs, ?_⟩
    simpa [← hs] using scanned_init.foldl (lineIds_le pre (fileLines content))

/-- The name of a free id is no alias of the file. -/
theorem name_fresh {content wwid pre name : CStr} {id : ℤ} {len : ℕ}
    (h : lookupBinding content wwid (some pre) = .free id)
    (hn : formatDevname id len pre = some name) :
    ∀ l ∈ fileLines content, ∀ w, lineWords l ≠ some (name, w) := by
  obtain ⟨s, -, rfl, -, hs⟩ := lookupBinding_free h
  obtain ⟨hpos, hscan, -⟩ := formatDevname_spec hn hs.free_le
  intro l hl w hw
  refine hs.free_not_mem hpos (List.mem_filterMap.mpr ⟨l, hl, ?_⟩)
  rw [hw, Option.map_some, hscan]

end MultipathTools.Alias

/-! When a binding that `get_user_friendly_alias` allocates is found again in the file. -/
namespace MultipathTools.Alias

theorem newline_not_mem {s : CStr} (h : IsField s) : '\n' ∉ s := fun hm =>
  absurd (h.2 _ hm) (by decide)

theorem newline_not_mem_binding {r name wwid : CStr} (hr : '\n' ∉ r) (hn : IsField name)
    (hw : IsField wwid) : '\n' ∉ r ++ (name ++ ' ' :: wwid) := by
  simp [hr, newline_not_mem hn, newline_not_mem hw]

/-- After blanks a binding that fits into the buffer is read in one piece. -/
theorem readLines_binding {n : ℕ} {r name wwid : CStr} (hr : Blank r) (hn : IsField name)
    (hw : IsField wwid) (hlen : r.length + name.length + 1 + wwid.length ≤ n) :
    ∃ l ls, readLines n (r ++ (name ++ ' ' :: (wwid ++ ['\n']))) = l :: ls ∧
      lineWords l = some (name, some wwid) := by
  have hnl : '\n' ∉ r := fun hm => absurd (hr _ hm) (by decide)
  have hs := newline_not_mem_binding hnl hn hw
  have hl : (r ++ (name ++ ' ' :: wwid)).length ≤ n := by
    simp only [List.length_append, List.length_cons]
    omega
  rw [show r ++ (name ++ ' ' :: (wwid ++ ['\n'])) = r ++ (name ++ ' ' :: wwid) ++ ['\n'] by simp,
    readLines_line (by omega) hs (by omega)]
  split_ifs with hlt
  · exact ⟨_, _, rfl, lineWords_binding hr hn hw (.inr rfl)⟩
  · refine ⟨_, _, rfl, ?_⟩
    rw [List.take_of_length_le hl]
    simpa using lineWords_binding hr hn hw (e := []) (.inl rfl)

/-- A binding under a fresh name is found only if blanks are before it and it fits. -/
theorem blank_of_mem_readLines {n : ℕ} {r name wwid l : CStr} (hr : ¬ Full n r)
    (hw : IsField wwid) (hlen : name.length + wwid.length + 1 < n)
    (hfresh : ∀ w, lineWords r ≠ some (name, w))
    (hl : l ∈ readLines n (r ++ (name ++ ' ' :: (wwid ++ ['\n']))))
    (h : lineWords l = some (name, some wwid)) :
    Blank r ∧ r.length + name.length + 1 + wwid.length ≤ n := by
  obtain ⟨hrlen, hnl⟩ := not_or.mp hr
  have hs := newline_not_mem_binding hnl (lineWords_alias h) hw
  have hsl : (r ++ (name ++ ' ' :: wwid)).length = r.length + name.length + 1 + wwid.length := by
    simp only [List.length_append, List.length_cons]
    omega
  rw [show r ++ (name ++ ' ' :: (wwid ++ ['\n'])) = r ++ (name ++ ' ' :: wwid) ++ ['\n'] by simp,
    readLines_line (by omega) hs (by omega)] at hl
  have hwords := lineWords_length h
  split_ifs at hl with hlt
  · obtain rfl := List.mem_singleton.mp hl
    rw [List.append_assoc] at h
    have hpre : name ++ ' ' :: wwid ++ ['\n'] <+: name ++ (' ' :: wwid ++ ['\n']) := by simp
    exact ⟨blank_of_lineWords_append hpre h hfresh, by omega⟩
  · simp only [List.mem_cons, List.not_mem_nil, or_false] at hl
    obtain rfl | rfl := hl
    · rw [List.take_append, List.take_of_length_le (by omega)] at h hwords
      have hb := blank_of_lineWords_append (List.take_prefix _ _) h hfresh
      refine ⟨hb, ?_⟩
      -- the words stand in what the buffer has of the binding
      rw [lineWords_blank_append hb] at h
      have hle := (lineWords_length h).trans (List.takeWhile_prefix _).length_le
      rw [List.length_take] at hle
      omega
    · -- the end of the line is too short for both words
      have hle := hwords.trans (lineText_newline_length _)
      rw [List.length_drop] at hle
      omega

/-- `strchr(buf, ' ')` finds the blank after the name, or one in the prefix. -/
theorem takeWhile_name (name t : CStr) :
    (name ++ ' ' :: t).takeWhile (· ≠ ' ') = name.takeWhile (· ≠ ' ') := by
  induction name with
  | nil => simp
  | cons c name ih => by_cases hc : c = ' ' <;> simp_all

theorem allocateBinding_spec {io : Io} {content wwid pre a content' : CStr} {id : ℤ}
    (h : allocateBinding io content wwid id pre = (some a, content')) :
    ∃ name, formatDevname id lineMax pre = some name ∧ name.length + wwid.length + 2 < lineMax ∧
      a = name.takeWhile (· ≠ ' ') ∧ content' = content ++ (name ++ ' ' :: (wwid ++ ['\n'])) := by
  unfold allocateBinding bindingLine at h
  by_cases hid : id ≤ 0
  · simp [hid] at h
  cases hn : formatDevname id lineMax pre with
  | none => simp [hid, hn] at h
  | some name =>
    by_cases hlen : lineMax - name.length ≤ wwid.length + 2
    · simp [hid, hn, hlen] at h
    by_cases hw : (name ++ ' ' :: (wwid ++ ['\n'])).length ≤ io.room
    · simp only [hid, hn, hlen, Io.append, if_pos hw, if_false, if_true, takeWhile_name] at h
      obtain ⟨ha, rfl⟩ := Prod.mk.inj h
      exact ⟨name, rfl, by omega, (Option.some.inj ha).symm, rfl⟩
    · simp only [hid, hn, hlen, Io.append, if_neg hw, if_false] at h
      cases h

/-- What has happened when `get_user_friendly_alias` returns an alias for a WWID that was
not bound. -/
theorem getUserFriendlyAlias_allocates {io : Io} {content wwid pre a content' : CStr}
    {bindingsReadOnly : Bool}
    (h : getUserFriendlyAlias io content wwid pre bindingsReadOnly = (some a, content'))
    (hnew : ∀ b, lookupBinding (openFile io content bindingsFileHeader).2 wwid (some pre) ≠ .bound b) :
    (openFile io content bindingsFileHeader).1 = true ∧
    ∃ id, lookupBinding (openFile io content bindingsFileHeader).2 wwid (some pre) = .free id ∧
      allocateBinding io (openFile io content bindingsFileHeader).2 wwid id pre =
        (some a, content') := by
  unfold getUserFriendlyAlias at h
  by_cases hw : wwid = []
  · simp [hw] at h
  cases ho : (openFile io content bindingsFileHeader).1 with
  | false => simp [hw, ho] at h
  | true =>
    rw [if_neg hw] at h
    simp only [ho, Bool.not_true, Bool.false_eq_true, if_false] at h
    cases hl : lookupBinding (openFile io content bindingsFileHeader).2 wwid (some pre) with
    | error => simp [hl] at h
    | bound b => exact absurd hl (hnew b)
    | free id =>
      simp only [hl] at h
      by_cases hc : (io.canWrite && !bindingsReadOnly) = true
      · rw [if_pos hc] at h
        exact ⟨rfl, id, rfl, h⟩
      · rw [if_neg hc] at h
        cases h

end MultipathTools.Alias
