import MultipathTools.Wwids.File

/-! The file of the known WWIDs as a list of entries, and what the functions make of it. -/
namespace MultipathTools.Wwids
open Alias (Io openFile lineMax)

/-- A WWID as it may be written to the file. -/
structure IsWwid (w : CStr) : Prop where
  ne_nil : w ≠ []
  slash_not_mem : '/' ∉ w
  newline_not_mem : '\n' ∉ w
  length_lt : w.length < Alias.wwidSize

/-- A line after the header. -/
structure Entry where
  wwid : CStr
  active : Bool
  deriving DecidableEq, Repr

def Entry.line (e : Entry) : CStr := (if e.active then '/' else '#') :: (e.wwid ++ ['/'])

/-- The file with these entries. -/
def fileOf (es : List Entry) : CStr := unlines (headerLines ++ es.map Entry.line)

/-- The text between two slashes that a WWID is found by. -/
def activeText (w : CStr) : CStr := '/' :: (w ++ ['/'])

theorem headerLines_plain : ∀ l ∈ headerLines,
    '\n' ∉ l ∧ '/' ∉ l ∧ l.length < 131 ∧ l.head? = some '#' := by
  decide

theorem unsigned_nil : Unsigned [] := List.forall_mem_nil _

theorem unsigned_cons {c : Char} {s : CStr} :
    Unsigned (c :: s) ↔ charInt c = c.toNat ∧ Unsigned s := List.forall_mem_cons

/-- The comparison comes to the second slash with the whole WWID only on its own line, and only
if no character is negative; else it stops inside the line. -/
theorem compareWwid_line {w v : CStr} (hw : w.length < Alias.wwidSize) (hv : '/' ∉ v) {count : ℕ}
    (hcount : count ≤ w.length) (r : CStr) :
    ((v = w.drop count ∧ Unsigned v) ∧ compareWwid w count (v ++ '/' :: r) = .slash w.length r) ∨
      ¬ (v = w.drop count ∧ Unsigned v) ∧
        ((∃ k, k ≠ w.length ∧ compareWwid w count (v ++ '/' :: r) = .slash k r) ∨
          ∃ u, u <:+ v ∧ compareWwid w count (v ++ '/' :: r) = .next (u ++ '/' :: r)) := by
  induction v generalizing count with
  | nil =>
    have hdrop : ([] = w.drop count ∧ Unsigned []) ↔ count = w.length := by
      rw [and_iff_left unsigned_nil, eq_comm, List.drop_eq_nil_iff]
      omega
    by_cases h : count = w.length
    · exact .inl ⟨hdrop.mpr h, by simp [compareWwid, h]⟩
    · exact .inr ⟨mt hdrop.mp h, .inl ⟨count, h, by simp [compareWwid]⟩⟩
  | cons c v ih =>
    have hc : c ≠ '/' := fun h => hv (h ▸ List.mem_cons_self)
    have hv' : '/' ∉ v := fun h => hv (List.mem_cons_of_mem c h)
    have hstop : v <:+ c :: v := List.suffix_cons c v
    rw [List.cons_append, compareWwid, if_neg hc]
    by_cases hlong : Alias.wwidSize - 1 ≤ count
    · rw [if_pos hlong]
      refine .inr ⟨?_, .inr ⟨v, hstop, rfl⟩⟩
      rw [List.drop_eq_nil_of_le (by omega)]
      exact fun h => List.cons_ne_nil c v h.1
    · rw [if_neg hlong]
      by_cases hlt : count < w.length
      · rw [List.getElem?_eq_getElem hlt, List.drop_eq_getElem_cons hlt, List.cons.injEq,
          unsigned_cons]
        dsimp only
        by_cases hd : (c.toNat : ℤ) = charInt w[count]
        · obtain ⟨hcw, hpos⟩ := toNat_eq_charInt_iff.mp hd
          rw [if_neg (not_not.mpr hd)]
          obtain ⟨heq, hcmp⟩ | ⟨hne, hcmp⟩ := ih hv' hlt
          · exact .inl ⟨⟨⟨hcw, heq.1⟩, hcw ▸ hpos, heq.2⟩, hcmp⟩
          · refine .inr ⟨fun h => hne ⟨h.1.2, h.2.2⟩, ?_⟩
            obtain hk | ⟨u, hu, hcmp⟩ := hcmp
            · exact .inl hk
            · exact .inr ⟨u, hu.trans hstop, hcmp⟩
        · rw [if_pos hd]
          refine .inr ⟨fun h => hd ?_, .inr ⟨v, hstop, rfl⟩⟩
          rw [← h.1.1, h.2.1]
      · rw [List.getElem?_eq_none (by omega), List.drop_eq_nil_of_le (by omega)]
        exact .inr ⟨fun h => List.cons_ne_nil c v h.1, .inr ⟨v, hstop, rfl⟩⟩

/-- A line that does not begin with a slash is skipped. -/
theorem lookupWwid_other {w l : CStr} {c : Char} (hc : c ≠ '/') (hl : '\n' ∉ l)
    (hlen : l.length < lineMax - 1) (t : CStr) :
    lookupWwid w (c :: (l ++ '\n' :: t)) = lookupWwid w t := by
  rw [lookupWwid, if_pos hc, if_neg (by simp), fgets_line hl, if_pos hlen]

/-- A line that begins with a slash, without the proof of termination. -/
theorem lookupWwid_slash (w s : CStr) : lookupWwid w ('/' :: s) =
    match compareWwid w 0 s with
    | .eof => false
    | .slash count t =>
      if w.length = count then true
      else if t = [] then false else lookupWwid w (fgets (lineMax - 1) t).2
    | .next t => if t = [] then false else lookupWwid w (fgets (lineMax - 1) t).2 := by
  rw [lookupWwid, if_neg (by simp)]
  cases compareWwid w 0 s <;> rfl

/-- A line with a WWID between slashes. -/
theorem lookupWwid_active {w v : CStr} (hw : w.length < Alias.wwidSize) (hv : IsWwid v) (t : CStr) :
    lookupWwid w (activeText v ++ '\n' :: t) =
      if v = w ∧ Unsigned w then true else lookupWwid w t := by
  have hrest : ∀ u, u <:+ v → (fgets (lineMax - 1) (u ++ '/' :: '\n' :: t)).2 = t := by
    intro u hu
    have hno : '\n' ∉ u ++ ['/'] := by
      intro h
      obtain h | h := List.mem_append.mp h
      · exact hv.newline_not_mem (hu.subset h)
      · simp at h
    have hlen := hv.length_lt
    have hle := hu.length_le
    have hline := fgets_line (n := lineMax - 1) hno t
    rw [if_pos (by simp [lineMax, Alias.wwidSize] at *; omega)] at hline
    rw [List.append_assoc] at hline
    exact congrArg Prod.snd hline
  have hsplit : activeText v ++ '\n' :: t = '/' :: (v ++ '/' :: '\n' :: t) := by
    simp [activeText]
  rw [hsplit, lookupWwid_slash]
  obtain ⟨heq, hcmp⟩ | ⟨hne, ⟨k, hk, hcmp⟩ | ⟨u, hu, hcmp⟩⟩ :=
    compareWwid_line hw hv.slash_not_mem (Nat.zero_le w.length) ('\n' :: t)
  · rw [List.drop_zero] at heq
    rw [hcmp, if_pos ⟨heq.1, heq.1 ▸ heq.2⟩]
    exact if_pos rfl
  · rw [List.drop_zero] at hne
    have hne' : ¬ (v = w ∧ Unsigned w) := fun h => hne ⟨h.1, h.1 ▸ h.2⟩
    rw [hcmp, if_neg hne']
    dsimp only
    rw [if_neg hk.symm, if_neg (List.cons_ne_nil _ _)]
    exact congrArg (lookupWwid w) (by simp [fgets, lineMax])
  · rw [List.drop_zero] at hne
    have hne' : ¬ (v = w ∧ Unsigned w) := fun h => hne ⟨h.1, h.1 ▸ h.2⟩
    rw [hcmp, if_neg hne']
    dsimp only
    rw [if_neg (by simp), hrest u hu]

theorem Entry.line_active {e : Entry} (h : e.active = true) : e.line = activeText e.wwid := by
  simp [Entry.line, activeText, h]

theorem Entry.newline_not_mem {e : Entry} (h : IsWwid e.wwid) : '\n' ∉ e.line := by
  have hw := h.newline_not_mem
  unfold Entry.line
  split <;> simp [hw]

theorem Entry.length_line (e : Entry) : e.line.length = e.wwid.length + 2 := by
  simp [Entry.line]

/-- Lines without a slash at their begin are skipped. -/
theorem lookupWwid_skip (w : CStr) {ls : List CStr}
    (hls : ∀ l ∈ ls, '\n' ∉ l ∧ l.length < lineMax ∧ ∃ c l', l = c :: l' ∧ c ≠ '/') (t : CStr) :
    lookupWwid w (unlines ls ++ t) = lookupWwid w t := by
  induction ls with
  | nil => rfl
  | cons l ls ih =>
    obtain ⟨⟨hn, hlen, c, l', rfl, hc⟩, hls'⟩ := List.forall_mem_cons.mp hls
    have hlt : l'.length < lineMax - 1 := by
      simp only [List.length_cons] at hlen
      omega
    rw [unlines_cons, List.append_assoc, List.cons_append, List.cons_append,
      lookupWwid_other hc (fun h => hn (List.mem_cons_of_mem _ h)) hlt, ih hls']

theorem lookupWwid_header (w t : CStr) :
    lookupWwid w (unlines headerLines ++ t) = lookupWwid w t := by
  apply lookupWwid_skip
  intro l hl
  obtain ⟨hn, -, hlen, hhead⟩ := headerLines_plain l hl
  obtain ⟨l', rfl⟩ := List.head?_eq_some_iff.mp hhead
  refine ⟨hn, ?_, '#', l', rfl, by decide⟩
  unfold lineMax
  omega

/-- `lookup_wwid` finds the WWIDs of the active entries, but for those with a negative
character. -/
theorem lookupWwid_fileOf {w : CStr} (hw : w.length < Alias.wwidSize) {es : List Entry}
    (hes : ∀ e ∈ es, IsWwid e.wwid) :
    lookupWwid w (fileOf es) = true ↔ Unsigned w ∧ (⟨w, true⟩ : Entry) ∈ es := by
  rw [fileOf, unlines_append, lookupWwid_header]
  induction es with
  | nil => simp [lookupWwid]
  | cons e es ih =>
    obtain ⟨he, hes'⟩ := List.forall_mem_cons.mp hes
    obtain ⟨v, active⟩ := e
    rw [List.map_cons, unlines_cons, List.mem_cons]
    cases active with
    | true =>
      rw [Entry.line_active rfl, lookupWwid_active hw he]
      by_cases hv : v = w
      · by_cases hu : Unsigned w
        · simp [hv, hu]
        · simp [hu, ih hes']
      · simp [hv, Ne.symm hv, ih hes']
    | false =>
      have hlt : (v ++ ['/']).length < lineMax - 1 := by
        have := he.length_lt
        simp [lineMax, Alias.wwidSize] at *
        omega
      have hn : '\n' ∉ v ++ ['/'] := by
        have := he.newline_not_mem
        simp [this]
      have hskip := lookupWwid_other (w := w) (c := '#') (by decide) hn hlt
        (unlines (es.map Entry.line))
      simp only [Entry.line, Bool.false_eq_true, if_false, List.cons_append, hskip, ih hes']
      simp

theorem concat_suffix_concat {s t : CStr} {c : Char} : s ++ [c] <:+ t ++ [c] ↔ s <:+ t := by
  rw [← List.reverse_prefix, ← @List.reverse_prefix _ s]
  simp [List.cons_prefix_cons]

/-- A line ends with a WWID between slashes only if it is the active entry of that WWID. -/
theorem activeText_suffix_line {w : CStr} {e : Entry} (he : '/' ∉ e.wwid) :
    activeText w <:+ e.line ↔ e = ⟨w, true⟩ := by
  obtain ⟨v, active⟩ := e
  have hno : ¬ '/' :: w <:+ v := fun h => he (h.subset List.mem_cons_self)
  have hline : activeText w <:+ Entry.line ⟨v, active⟩ ↔
      '/' :: w = (if active then '/' else '#') :: v := by
    rw [activeText, Entry.line, ← List.cons_append, ← List.cons_append, concat_suffix_concat,
      List.suffix_cons_iff]
    exact or_iff_left hno
  rw [hline]
  cases active <;> simp [eq_comm]

theorem activeText_suffix_header (w : CStr) : ∀ l ∈ headerLines, ¬ activeText w <:+ l := by
  intro l hl h
  exact (headerLines_plain l hl).2.1 (h.subset (by simp [activeText]))

/-- The lines of the file are shorter than a chunk. -/
theorem line_fits {es : List Entry} (hes : ∀ e ∈ es, IsWwid e.wwid) :
    ∀ l ∈ headerLines ++ es.map Entry.line, '\n' ∉ l ∧ l.length < 4096 := by
  intro l hl
  obtain hl | hl := List.mem_append.mp hl
  · obtain ⟨hn, -, hlen, -⟩ := headerLines_plain l hl
    exact ⟨hn, by omega⟩
  · obtain ⟨e, he, rfl⟩ := List.mem_map.mp hl
    have := (hes e he).length_lt
    unfold Alias.wwidSize at this
    exact ⟨Entry.newline_not_mem (hes e he), by rw [e.length_line]; omega⟩

/-- Where `do_remove_wwid` writes. -/
theorem removeSearch {w : CStr} {es : List Entry} (hw : IsWwid w) (hes : ∀ e ∈ es, IsWwid e.wwid) :
    (chunkSearch 4096 (fun buf => (strstr ('/' :: (w ++ ['/', '\n'])) buf).map (·.1.length))
        (fileOf es) 0).map (fun r => r.1 + r.2) =
      lineOffset (activeText w) (headerLines ++ es.map Entry.line) := by
  have hn : '\n' ∉ activeText w := by simp [activeText, hw.newline_not_mem]
  have hstr : '/' :: (w ++ ['/', '\n']) = activeText w ++ ['\n'] := by simp [activeText]
  rw [fileOf, hstr]
  exact (chunkSearch_position (k := 0) hn (fun _ => rfl) (line_fits hes)).trans (by simp)

/-- `remove_wwid` deactivates the first active entry of the WWID. -/
theorem doRemoveWwid_fileOf {w : CStr} {es fs : List Entry} (hw : IsWwid w)
    (hes : ∀ e ∈ es ++ ⟨w, true⟩ :: fs, IsWwid e.wwid) (hfirst : (⟨w, true⟩ : Entry) ∉ es) :
    doRemoveWwid (fileOf (es ++ ⟨w, true⟩ :: fs)) ('/' :: (w ++ ['/', '\n'])) =
      (0, fileOf (es ++ ⟨w, false⟩ :: fs)) := by
  have hno : ∀ l ∈ headerLines ++ es.map Entry.line, ¬ activeText w <:+ l := by
    intro l hl
    obtain hl | hl := List.mem_append.mp hl
    · exact activeText_suffix_header w l hl
    · obtain ⟨e, he, rfl⟩ := List.mem_map.mp hl
      rw [activeText_suffix_line (hes e (List.mem_append_left _ he)).slash_not_mem]
      intro heq
      exact hfirst (heq ▸ he)
  have hline : Entry.line ⟨w, true⟩ = activeText w := Entry.line_active rfl
  have hpos := removeSearch hw hes
  rw [List.map_append, List.map_cons, ← List.append_assoc,
    lineOffset_line hno (by rw [hline]), hline, Nat.sub_self, Nat.add_zero] at hpos
  obtain ⟨⟨start, i⟩, hsearch, hsum⟩ := Option.map_eq_some_iff.mp hpos
  rw [doRemoveWwid, hsearch]
  dsimp only at hsum ⊢
  rw [hsum]
  have hset : ∀ (t u : CStr) (c d : Char), (t ++ c :: u).set t.length d = t ++ d :: u := by
    intro t u c d
    simp [List.set_append_right]
  have hfile : ∀ active, fileOf (es ++ ⟨w, active⟩ :: fs) =
      unlines (headerLines ++ es.map Entry.line) ++ (if active then '/' else '#') ::
        (w ++ ['/'] ++ '\n' :: unlines (fs.map Entry.line)) := by
    intro active
    simp [fileOf, Entry.line]
  rw [hfile, hfile, hset]
  rfl

theorem doRemoveWwid_none {w : CStr} {es : List Entry} (hw : IsWwid w)
    (hes : ∀ e ∈ es, IsWwid e.wwid) (hno : (⟨w, true⟩ : Entry) ∉ es) :
    doRemoveWwid (fileOf es) ('/' :: (w ++ ['/', '\n'])) = (1, fileOf es) := by
  have hnone : lineOffset (activeText w) (headerLines ++ es.map Entry.line) = none := by
    rw [lineOffset_eq_none_iff]
    intro l hl
    obtain hl | hl := List.mem_append.mp hl
    · exact activeText_suffix_header w l hl
    · obtain ⟨e, he, rfl⟩ := List.mem_map.mp hl
      rw [activeText_suffix_line (hes e he).slash_not_mem]
      intro heq
      exact hno (heq ▸ he)
  have hpos := removeSearch hw hes
  rw [hnone, Option.map_eq_none_iff] at hpos
  rw [doRemoveWwid, hpos]

end MultipathTools.Wwids
