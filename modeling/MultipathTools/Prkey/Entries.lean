import MultipathTools.Prkey.File

/-! The file of the reservation keys as a list of entries, and what `do_prkey` makes of it. -/
namespace MultipathTools.Prkey
open Alias (Io openFile wwidSize)

/-- A WWID as it may be written to the file. Of the words of the header only those at the end of a
line could be taken for a WWID. -/
structure IsWwid (w : CStr) : Prop where
  ne_nil : w ≠ []
  blank_not_mem : ' ' ∉ w
  newline_not_mem : '\n' ∉ w
  length_lt : w.length < wwidSize
  not_header : ∀ l ∈ headerLines, ¬ entryText w <:+ l

/-- A line after the header. A deleted entry keeps its WWID and most of its key. -/
structure Entry where
  wwid : CStr
  key : BitVec 64
  aptpl : Bool
  live : Bool
  deriving DecidableEq, Repr

def Entry.saFlags (e : Entry) : BitVec 8 := if e.aptpl then aptplMask else 0

def Entry.keystr (e : Entry) : CStr := formatPrkey e.key e.saFlags

/-- The first part of the line. -/
def Entry.text (e : Entry) : CStr := if e.live then e.keystr else '#' :: e.keystr.tail

def Entry.line (e : Entry) : CStr := e.text ++ entryText e.wwid

/-- The file with these entries. -/
def fileOf (es : List Entry) : CStr := unlines (headerLines ++ es.map Entry.line)

theorem headerLines_plain : ∀ l ∈ headerLines, '\n' ∉ l ∧ l.length < 4096 := by
  decide

theorem length_formatPrkey (prkey : BitVec 64) (saFlags : BitVec 8) :
    (formatPrkey prkey saFlags).length = prkeySize - 1 := by
  simp [formatPrkey, prkeySize]

theorem Entry.length_text (e : Entry) : e.text.length = prkeySize - 1 := by
  have h : e.keystr.length = prkeySize - 1 := length_formatPrkey e.key e.saFlags
  unfold Entry.text
  split
  · exact h
  · rw [List.length_cons, List.length_tail, h]
    rfl

theorem newline_not_mem_formatPrkey (prkey : BitVec 64) (saFlags : BitVec 8) :
    '\n' ∉ formatPrkey prkey saFlags := by
  have hx : '\n' ≠ (if saFlags ≠ 0 then 'X' else 'x') := by split <;> decide
  have hhex : '\n' ∉ toHex 16 prkey.toNat := fun h => absurd (isxdigit_toHex _ h) (by decide)
  unfold formatPrkey
  intro h
  obtain h | h := List.mem_cons.mp h
  · exact absurd h (by decide)
  · obtain h | h := List.mem_cons.mp h
    · exact hx h
    · exact hhex h

theorem Entry.newline_not_mem {e : Entry} (h : IsWwid e.wwid) : '\n' ∉ e.line := by
  have hkey : '\n' ∉ e.keystr := newline_not_mem_formatPrkey e.key e.saFlags
  have htext : '\n' ∉ e.text := by
    unfold Entry.text
    split
    · exact hkey
    · intro h
      obtain h | h := List.mem_cons.mp h
      · exact absurd h (by decide)
      · exact hkey (List.mem_of_mem_tail h)
  simp [Entry.line, entryText, htext, h.newline_not_mem]

theorem Entry.length_line (e : Entry) : e.line.length = prkeySize + e.wwid.length := by
  have := e.length_text
  simp only [Entry.line, entryText, List.length_append, List.length_cons, this]
  unfold prkeySize
  omega

/-- The lines of the file are shorter than a chunk. -/
theorem line_fits {es : List Entry} (hes : ∀ e ∈ es, IsWwid e.wwid) :
    ∀ l ∈ headerLines ++ es.map Entry.line, '\n' ∉ l ∧ l.length < 4096 := by
  intro l hl
  obtain hl | hl := List.mem_append.mp hl
  · exact headerLines_plain l hl
  · obtain ⟨e, he, rfl⟩ := List.mem_map.mp hl
    have := (hes e he).length_lt
    unfold wwidSize at this
    exact ⟨Entry.newline_not_mem (hes e he), by rw [e.length_line]; unfold prkeySize; omega⟩

/-- A line ends with a WWID after a blank only if it is the entry of that WWID. -/
theorem entryText_suffix_line {w : CStr} {e : Entry} (hw : ' ' ∉ w) (he : ' ' ∉ e.wwid) :
    entryText w <:+ e.line ↔ e.wwid = w := by
  have hself : entryText e.wwid <:+ e.line := List.suffix_append _ _
  have heq : ∀ {u v : CStr}, ' ' ∉ v → entryText u <:+ entryText v → v = u := by
    intro u v hv h
    obtain h | h := List.suffix_cons_iff.mp h
    · exact (List.cons.inj h).2.symm
    · exact absurd (h.subset List.mem_cons_self) hv
  constructor
  · intro h
    obtain h | h := List.suffix_or_suffix_of_suffix h hself
    · exact heq he h
    · exact (heq hw h).symm
  · intro h
    rwa [← h]

theorem entryText_not_suffix {w : CStr} (hw : IsWwid w) {es : List Entry}
    (hes : ∀ e ∈ es, IsWwid e.wwid) (hno : ∀ e ∈ es, e.wwid ≠ w) :
    ∀ l ∈ headerLines ++ es.map Entry.line, ¬ entryText w <:+ l := by
  intro l hl
  obtain hl | hl := List.mem_append.mp hl
  · exact hw.not_header l hl
  · obtain ⟨e, he, rfl⟩ := List.mem_map.mp hl
    rw [entryText_suffix_line hw.blank_not_mem (hes e he).blank_not_mem]
    exact hno e he

theorem newline_not_mem_entryText {w : CStr} (hw : IsWwid w) : '\n' ∉ entryText w := by
  simp [entryText, hw.newline_not_mem]

theorem findWwid_zero {w : CStr} (hw : IsWwid w) (buf : CStr) :
    findWwid w buf 0 = (strstr (entryText w ++ ['\n']) buf).map fun r => r.1.length + 1 :=
  findWwid_eq hw.ne_nil hw.blank_not_mem fun j hj => absurd hj (by omega)

theorem locate_absent {w : CStr} (hw : IsWwid w) {es : List Entry}
    (hes : ∀ e ∈ es, IsWwid e.wwid) (hno : ∀ e ∈ es, e.wwid ≠ w) :
    locate (fileOf es) w = .absent := by
  have hnone := lineOffset_eq_none_iff.mpr (entryText_not_suffix hw hes hno)
  have hpos := chunkSearch_position (newline_not_mem_entryText hw) (findWwid_zero hw) (line_fits hes)
  rw [hnone, Option.map_none, Option.map_eq_none_iff] at hpos
  rw [locate, fileOf, hpos]

theorem findWwid_fits {w buf : CStr} (hw : IsWwid w) {ptr : ℕ} (h : findWwid w buf 0 = some ptr) :
    ptr < buf.length := by
  rw [findWwid_zero hw] at h
  obtain ⟨r, hr, rfl⟩ := Option.map_eq_some_iff.mp h
  obtain ⟨hsplit, hpre⟩ := strstr_append hr
  have hlen := congrArg List.length hsplit
  have hle := hpre.length_le
  simp only [List.length_append, entryText, List.length_cons, List.length_nil] at hlen hle
  omega

theorem getElem?_unlines_last {ls : List CStr} (hls : unlines ls ≠ []) (t : CStr) :
    (unlines ls ++ t)[(unlines ls).length - 1]? = some '\n' := by
  obtain rfl | ⟨init, last, rfl⟩ := List.eq_nil_or_concat' ls
  · exact absurd rfl hls
  · have hsplit : unlines (init ++ [last]) = (unlines init ++ last) ++ ['\n'] := by simp
    rw [hsplit, List.length_append, List.length_singleton, Nat.add_sub_cancel, List.append_assoc,
      List.getElem?_append_right le_rfl, Nat.sub_self]
    rfl

/-- The entry of a WWID is found with the text of its key, in whatever chunk it is. -/
theorem locate_found {es fs : List Entry} {e : Entry}
    (hes : ∀ d ∈ es ++ e :: fs, IsWwid d.wwid) (hno : ∀ d ∈ es, d.wwid ≠ e.wwid) :
    ∃ ptr, locate (fileOf (es ++ e :: fs)) e.wwid =
      .found (unlines (headerLines ++ es.map Entry.line)).length ptr ∧
        ptr.take (prkeySize - 1) = e.text := by
  have hw : IsWwid e.wwid := hes e (by simp)
  have hbefore := entryText_not_suffix hw (fun d hd => hes d (List.mem_append_left _ hd)) hno
  have hline : entryText e.wwid <:+ e.line := List.suffix_append _ _
  have hkey : e.line.length - (entryText e.wwid).length = prkeySize - 1 := by
    rw [Entry.line, List.length_append, e.length_text, Nat.add_sub_cancel]
  have hfits := line_fits hes
  have hfile : headerLines ++ (es ++ e :: fs).map Entry.line =
      (headerLines ++ es.map Entry.line) ++ e.line :: fs.map Entry.line := by simp
  rw [hfile] at hfits
  obtain ⟨done, now, hsplit, hsearch⟩ :=
    chunkSearch_line (newline_not_mem_entryText hw) (findWwid_zero hw) hfits hbefore hline
  have hin := findWwid_fits hw (chunkSearch_find hsearch)
  -- the chunk, from its start
  have hchunk : (unlines (headerLines ++ es.map Entry.line ++ e.line :: fs.map Entry.line)).drop
      (unlines done).length = unlines now ++ (e.text ++ (entryText e.wwid ++ '\n' ::
        unlines (fs.map Entry.line))) := by
    rw [hsplit, List.append_assoc, unlines_append, List.drop_left, unlines_append, unlines_cons,
      Entry.line, List.append_assoc]
  have hptr : (unlines now).length + (e.line.length - (entryText e.wwid).length) + 1 =
      (unlines now).length + prkeySize := by
    rw [hkey]
    rfl
  rw [hptr] at hsearch hin
  simp only [hchunk, List.length_take, Nat.lt_min] at hin
  have hroom : prkeySize - 1 ≤ 4096 - (unlines now).length := by
    have := hin.1
    omega
  have hbreak : ¬ ((unlines now).length + prkeySize < prkeySize ∨
      (unlines now).length + prkeySize ≠ prkeySize ∧
        ((unlines now ++ (e.text ++ (entryText e.wwid ++ '\n' ::
          unlines (fs.map Entry.line)))).take 4096)[(unlines now).length + prkeySize - prkeySize - 1]? ≠
            some '\n') := by
    rintro (h | ⟨hne, hlast⟩)
    · omega
    · apply hlast
      have hnow : unlines now ≠ [] := fun h => hne (by simp [h])
      have := List.length_pos_iff.mpr hnow
      rw [Nat.add_sub_cancel, List.getElem?_take_of_lt (by omega)]
      exact getElem?_unlines_last hnow _
  refine ⟨((e.text ++ (entryText e.wwid ++ '\n' :: unlines (fs.map Entry.line)))).take
    (4096 - (unlines now).length), ?_, ?_⟩
  · rw [locate, fileOf, hfile, hsearch]
    dsimp only
    rw [hchunk, if_neg hbreak, Nat.add_sub_cancel, hsplit, unlines_append, List.length_append,
      List.drop_take, List.drop_left]
  · rw [List.take_take, Nat.min_eq_left hroom, ← e.length_text, List.take_left]

end MultipathTools.Prkey
