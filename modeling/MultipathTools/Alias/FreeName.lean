import MultipathTools.Alias.Append
import MultipathTools.Alias.Codec

/-! The name of the free id that `lookup_binding` finds is not in the file, and there is none only
if the last name of all is in it. -/
namespace MultipathTools.Alias

/-- The first word of a line, up to a comment: its alias. -/
def firstWord (buf : CStr) : Option CStr := (lineWords buf).map Prod.fst

theorem lineWords_newline (s : CStr) : lineWords (s ++ ['\n']) = lineWords s := by
  have htext : lineText (s ++ ['\n']) = lineText s := by
    by_cases hend : ∀ c ∈ s, isLineEnd c = false
    · rw [lineText_append hend, lineText_eq_self hend]
      simp [lineText, isLineEnd]
    · push Not at hend
      obtain ⟨c, hc, he⟩ := hend
      exact lineText_append_of_mem hc (by simpa using he) _
  rw [lineWords, lineWords, htext]

/-- A line that fits into the buffer without its line break has its words read in one piece. -/
theorem readLines_words {n : ℕ} (hn : n ≠ 0) (content : CStr)
    (hlines : ∀ l ∈ getlines content, (lineBody l).length ≤ n) :
    (readLines n content).filterMap lineWords = (getlines content).filterMap lineWords := by
  induction hk : content.length using Nat.strong_induction_on generalizing content with
  | _ k ih =>
    obtain rfl | ⟨hne, hs⟩ | ⟨a, t, rfl, ha⟩ := text_cases content
    · rw [readLines_nil]
      rfl
    · rw [getlines_last hne hs] at hlines ⊢
      have hlen := hlines content (List.mem_singleton_self content)
      rw [(lineBody_of_not_mem hs []).1] at hlen
      rw [readLines_cons hn hne, fgets_last hs hlen, readLines_nil]
    · rw [getlines_line ha] at hlines ⊢
      obtain ⟨hlen, hrest⟩ := List.forall_mem_cons.mp hlines
      rw [(lineBody_of_not_mem ha []).2] at hlen
      have ht : (readLines n t).filterMap lineWords = (getlines t).filterMap lineWords :=
        ih t.length (by rw [← hk, List.length_append, List.length_cons]; omega) t hrest rfl
      obtain hlt | heq := Nat.lt_or_eq_of_le hlen
      · rw [readLines_line_append ha hlt, List.filterMap_cons, List.filterMap_cons, ht]
      · -- the line break alone is read as a blank line
        have hbreak : lineWords ([] ++ ['\n']) = none := rfl
        have hread : readLines n (a ++ '\n' :: t) = a :: ([] ++ ['\n']) :: readLines n t := by
          rw [readLines_cons hn (by simp), fgets_line ha, if_neg (by omega), ← heq, List.take_length,
            List.drop_length, heq, readLines_line_append (by simp) (Nat.pos_of_ne_zero hn)]
        rw [hread, List.filterMap_cons, List.filterMap_cons, List.filterMap_cons, lineWords_newline a,
          hbreak, ht]

/-- The aliases of the file. -/
theorem mem_fileLines_firstWord {content : CStr}
    (hlines : ∀ l ∈ getlines content, (lineBody l).length < lineMax) (name : CStr) :
    (∃ l ∈ fileLines content, firstWord l = some name) ↔
      ∃ l ∈ getlines content, firstWord l = some name := by
  have hwords : (fileLines content).filterMap lineWords = (getlines content).filterMap lineWords :=
    readLines_words (by decide) content fun l hl => Nat.le_pred_of_lt (hlines l hl)
  have hmem : ∀ ls : List CStr, (∃ l ∈ ls, firstWord l = some name) ↔
      ∃ w ∈ ls.filterMap lineWords, w.1 = name := by
    intro ls
    simp only [List.mem_filterMap, firstWord, Option.map_eq_some_iff]
    constructor
    · rintro ⟨l, hl, w, hw, rfl⟩
      exact ⟨w, ⟨l, hl, hw⟩, rfl⟩
    · rintro ⟨w, ⟨l, hl, hw⟩, rfl⟩
      exact ⟨l, hl, w, hw, rfl⟩
  rw [hmem, hmem, hwords]

theorem firstWord_token {buf name : CStr} (h : firstWord buf = some name) : IsToken name := by
  obtain ⟨⟨a, w⟩, hw, rfl⟩ := Option.map_eq_some_iff.mp h
  exact (lineWords_alias hw).1

/-- An alias of a line with a positive id is the name of this id. -/
theorem firstWord_name {buf a pre : CStr} {len : ℕ} (ha : firstWord buf = some a)
    (hid : 0 < scanDevname a (some pre)) (hlen : a.length < len) :
    formatDevname (scanDevname a (some pre)) len pre = some a := by
  obtain ⟨s, rfl, hname⟩ := scanDevname_name hid
  have hs : s.takeWhile (!isDelim ·) = s := List.takeWhile_eq_self_iff.mpr fun c hc => by
    simp [(firstWord_token ha).2 c (List.mem_append_right pre hc)]
  rw [hs] at hname
  exact hname len hlen

/-- The greatest id seen is one of a line, or the 1 from the start. -/
theorem foldl_note_biggest (seen : List ℤ) (s : Ids) :
    (seen.foldl Ids.note s).biggest = s.biggest ∨ (seen.foldl Ids.note s).biggest ∈ seen := by
  induction seen generalizing s with
  | nil => exact .inl rfl
  | cons x seen ih =>
    rw [List.foldl_cons]
    obtain h | h := ih (s.note x)
    · rw [h]
      by_cases hx : s.biggest < x
      · exact .inr (by simp [Ids.note, hx])
      · exact .inl (by simp [Ids.note, hx])
    · exact .inr (List.mem_cons_of_mem x h)

theorem mem_lineIds {pre : Option CStr} {ls : List CStr} {x : ℤ} :
    x ∈ lineIds pre ls ↔ ∃ l ∈ ls, ∃ a, firstWord l = some a ∧ scanDevname a pre = x := by
  simp only [lineIds, List.mem_filterMap, firstWord, Option.map_eq_some_iff]
  constructor
  · rintro ⟨l, hl, w, hw, rfl⟩
    exact ⟨l, hl, w.1, ⟨w, hw, rfl⟩, rfl⟩
  · rintro ⟨l, hl, a, ⟨w, hw, rfl⟩, rfl⟩
    exact ⟨l, hl, w, hw, rfl⟩

/-- The loop is left in failure only at the line with the last id. -/
theorem foldlM_exhausted {wwid : CStr} {pre : Option CStr} {s : Ids} {seen : List ℤ}
    {ls : List CStr} (hs : Scanned s seen)
    (h : ls.foldlM (lookupLine wwid pre) s = .error .error) : intMax ∈ lineIds pre ls := by
  induction ls generalizing s seen with
  | nil => cases h
  | cons l ls ih =>
    rw [List.foldlM_cons] at h
    rw [lineIds_cons, List.mem_append]
    cases hl : lookupLine wwid pre s l with
    | error e =>
      rw [hl] at h
      obtain rfl := Except.error.inj h
      left
      unfold lookupLine at hl
      cases hw : lineWords l with
      | none => rw [hw] at hl; cases hl
      | some w =>
        rw [hw] at hl
        dsimp only at hl
        have hle := scanDevname_le w.1 pre
        split_ifs at hl with hbreak hfound
        · have hfirst : firstWord l = some w.1 := by rw [firstWord, hw, Option.map_some]
          exact mem_lineIds.mpr ⟨l, List.mem_singleton_self l, w.1, hfirst, by omega⟩
        · cases hl
    | ok s' =>
      rw [hl] at h
      have hs' := hs.foldl (lineIds_le pre [l])
      rw [← lookupLine_ok hl] at hs'
      exact .inr (ih hs' h)

theorem Scanned.free_pos {s : Ids} {seen : List ℤ} (h : Scanned s seen) (hf : 0 ≤ s.free) :
    0 < s.free := by
  have hid := h.id_pos
  have hle := h.id_le
  unfold Ids.free at *
  split_ifs at * <;> omega

theorem lookupBinding_error {content wwid : CStr} {pre : Option CStr}
    (h : lookupBinding content wwid pre = .error) : intMax ∈ lineIds pre (fileLines content) := by
  unfold lookupBinding at h
  cases hf : (fileLines content).foldlM (lookupLine wwid pre) {} with
  | error e =>
    rw [hf] at h
    obtain rfl : e = .error := h
    exact foldlM_exhausted scanned_init hf
  | ok s =>
    rw [hf] at h
    have hs := foldlM_ok hf
    have hscan : Scanned s (lineIds pre (fileLines content)) := by
      simpa [← hs] using scanned_init.foldl (lineIds_le pre (fileLines content))
    have hfree : s.free < 0 := by
      by_contra hpos
      simp [Ids.result, hpos] at h
    have hbig : s.biggest = intMax := by
      have hle := hscan.biggest_le
      have hid := hscan.id_pos
      have hlow := hscan.id_le
      unfold Ids.free at hfree
      split_ifs at hfree <;> omega
    obtain hone | hmem := foldl_note_biggest (lineIds pre (fileLines content)) {}
    · rw [← hs, hbig] at hone
      exact absurd hone (by decide)
    · rwa [← hs, hbig] at hmem

/-- A free id is positive and its name is the alias of no line; without one the name of the last
id is the alias of a line. -/
theorem lookupBinding_name (content wwid pre : CStr)
    (hlines : ∀ l ∈ getlines content, (lineBody l).length < lineMax) :
    (∀ id, lookupBinding content wwid (some pre) = .free id →
      0 < id ∧ id ≤ intMax ∧ ∃ name,
        (∀ len, name.length < len → formatDevname id len pre = some name) ∧
          ∀ l ∈ getlines content, firstWord l ≠ some name) ∧
    (lookupBinding content wwid (some pre) = .error →
      ∃ name, (∀ len, name.length < len → formatDevname intMax len pre = some name) ∧
        ∃ l ∈ getlines content, firstWord l = some name) := by
  constructor
  · intro id hfree
    obtain ⟨s, hread, rfl, -, hs⟩ := lookupBinding_free hfree
    have hpos : 0 < s.free := by
      apply hs.free_pos
      by_contra hneg
      simp [lookupBinding, hread, Ids.result, Int.not_le.mp hneg] at hfree
    obtain ⟨name, hname, -, hscan⟩ := exists_name hpos hs.free_le pre
    refine ⟨hpos, hs.free_le, name, hname, fun l hl hfirst => ?_⟩
    obtain ⟨l', hl', hfirst'⟩ := (mem_fileLines_firstWord hlines name).mpr ⟨l, hl, hfirst⟩
    exact hs.free_not_mem hpos (mem_lineIds.mpr ⟨l', hl', name, hfirst', hscan⟩)
  · intro herr
    obtain ⟨l, hl, a, ha, hscan⟩ := mem_lineIds.mp (lookupBinding_error herr)
    refine ⟨a, fun len hlen => ?_, ?_⟩
    · rw [← hscan]
      exact firstWord_name ha (by rw [hscan]; decide) hlen
    · exact (mem_fileLines_firstWord hlines a).mp ⟨l, hl, ha⟩

/-- A file out of order, with a comment, a blank and a malformed line. -/
def unorderedFile : CStr := "mpathc W3\n# mpathb W2\n\nmpatha\nyellow W4\n".toList

theorem lookupBinding_name_unordered :
    lookupBinding unorderedFile "W9".toList (some "mpath".toList) = .free 2 ∧
      ∀ id, lookupBinding unorderedFile "W9".toList (some "mpath".toList) = .free id → 0 < id := by
  constructor
  · decide +kernel
  · intro id h
    exact ((lookupBinding_name unorderedFile "W9".toList "mpath".toList (by decide +kernel)).1
      id h).1

end MultipathTools.Alias
