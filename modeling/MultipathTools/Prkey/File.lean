import MultipathTools.Alias.Bindings
import MultipathTools.Base.Chunks
import MultipathTools.Base.Numeral

/-! The file of the persistent reservation keys (`prkey.c`). -/
namespace MultipathTools.Prkey
open Alias (Io openFile)

/-- The lines of `PRKEYS_FILE_HEADER`. -/
def headerLines : List CStr :=
  ["# Multipath persistent reservation keys, Version : 1.0".toList,
    "# NOTE: this file is automatically maintained by the multipathd program.".toList,
    "# You should not need to edit this file in normal circumstances.".toList,
    "#".toList,
    "# Format:".toList,
    "# prkey wwid".toList,
    "#".toList]

/-- `PRKEYS_FILE_HEADER`. -/
def prkeysFileHeader : CStr := unlines headerLines

/-- `PRKEY_SIZE`. -/
def prkeySize : ℕ := 19

/-- `MPATH_F_APTPL_MASK`. -/
def aptplMask : BitVec 8 := 0x01

/-- The search for the WWID in a chunk, from a position on. The callers do not come here with an
empty WWID. -/
def findWwid (wwid buf : CStr) (pos : ℕ) : Option ℕ :=
  if _hw : wwid = [] then none
  else
    match _h : strstr wwid (buf.drop pos) with
    | none => none
    | some r =>
      let ptr := pos + r.1.length
      if ptr = 0 ∨ buf[ptr - 1]? ≠ some ' ' ∨ buf[ptr + wwid.length]? ≠ some '\n' then
        findWwid wwid buf (ptr + wwid.length)
      else some ptr
termination_by buf.length - pos
decreasing_by
  obtain ⟨hsplit, hpre⟩ := strstr_append _h
  have hlen := congrArg List.length hsplit
  have hle := hpre.length_le
  have := List.length_pos_iff.mpr _hw
  simp only [List.length_append, List.length_drop] at hlen
  omega

/-- What the search in `do_prkey` ends with. -/
inductive Located where
  | malformed
  | absent
  /-- The position of the line in the file, and the chunk from there on. -/
  | found (pos : ℕ) (ptr : CStr)
  deriving DecidableEq, Repr

/-- The search in `do_prkey`. -/
def locate (content wwid : CStr) : Located :=
  match chunkSearch 4096 (fun buf => findWwid wwid buf 0) content 0 with
  | none => .absent
  | some (start, ptr) =>
    let buf := (content.drop start).take 4096
    if ptr < prkeySize ∨ ptr ≠ prkeySize ∧ buf[ptr - prkeySize - 1]? ≠ some '\n' then .malformed
    else .found (start + (ptr - prkeySize)) (buf.drop (ptr - prkeySize))

/-- `do_prkey` with `PRKEY_READ`: the key's text. -/
def readPrkey (content wwid : CStr) : Option CStr :=
  match locate content wwid with
  | .found _ ptr => if ptr.head? = some '#' then none else some (ptr.take (prkeySize - 1))
  | _ => none

/-- `safe_write` at a position. -/
def safeWrite (io : Io) (content : CStr) (pos : ℕ) (buf : CStr) : Bool × CStr :=
  let written := buf.take io.room
  (buf.length ≤ io.room, content.take pos ++ written ++ content.drop (pos + written.length))

/-- `do_prkey` with `PRKEY_WRITE`: the return value, and the file. -/
def writePrkey (io : Io) (content wwid : CStr) (keystr : Option CStr) : ℤ × CStr :=
  let write (pos : ℕ) (buf : CStr) : ℤ × CStr :=
    let r := safeWrite io content pos buf
    (if r.1 then 0 else 1, r.2)
  match locate content wwid, keystr with
  | .malformed, _ => (1, content)
  | .absent, none => (0, content)
  | .found pos _, none => write pos ['#']
  | .absent, some key => write content.length (key ++ ' ' :: (wwid ++ ['\n']))
  | .found pos _, some key => write pos (key ++ ' ' :: (wwid ++ ['\n']))

/-- `parse_prkey`. -/
def parsePrkey (ptr : CStr) : Option (BitVec 64) :=
  let ptr := if ptr.head? = some '0' then ptr.tail else ptr
  let ptr := if ptr.head? = some 'x' ∨ ptr.head? = some 'X' then ptr.tail else ptr
  if ptr = [] ∨ 16 < ptr.length then none
  else if ptr.length ≠ (ptr.takeWhile isxdigit).length then none
  else some (BitVec.ofNat 64 (ofHex ptr))

/-- The text of a key. The case of the x says whether the APTPL flag is set. -/
def formatPrkey (prkey : BitVec 64) (saFlags : BitVec 8) : CStr :=
  '0' :: (if saFlags ≠ 0 then 'X' else 'x') :: toHex 16 prkey.toNat

/-- `get_prkey`: the key and the flags, and the file. -/
def getPrkey (io : Io) (content wwid : CStr) : Option (BitVec 64 × BitVec 8) × CStr :=
  if wwid = [] then (none, content)
  else
    let f := openFile io content prkeysFileHeader
    if !f.1 then (none, f.2)
    else
      match readPrkey f.2 wwid with
      | none => (none, f.2)
      | some keystr =>
        let saFlags := if 'X' ∈ keystr then aptplMask else 0
        ((parsePrkey keystr).map (·, saFlags), f.2)

/-- `set_prkey`: what `do_prkey` returns, and the file. The key that is then selected for the map
is not modelled. -/
def setPrkey (io : Io) (content wwid : CStr) (prkey : BitVec 64) (saFlags : BitVec 8) :
    ℤ × CStr :=
  if wwid = [] then (1, content)
  else
    let saFlags := saFlags &&& aptplMask
    let f := openFile io content prkeysFileHeader
    if !f.1 then (1, f.2)
    else if !io.canWrite then (1, f.2)
    else writePrkey io f.2 wwid (if prkey ≠ 0 then some (formatPrkey prkey saFlags) else none)

end MultipathTools.Prkey

/-! The search in `do_prkey`: it ends at the first line that ends with a blank and the WWID. -/
namespace MultipathTools.Prkey

/-- The WWID in the line of its key. -/
def entryText (wwid : CStr) : CStr := ' ' :: wwid

theorem entryText_prefix_iff {wwid buf : CStr} {j : ℕ} :
    entryText wwid ++ ['\n'] <+: buf.drop j ↔
      buf[j]? = some ' ' ∧ wwid <+: buf.drop (j + 1) ∧ buf[j + 1 + wwid.length]? = some '\n' := by
  rw [entryText, List.cons_append, cons_prefix_drop_iff, concat_prefix_iff, List.getElem?_drop]

/-- Where a WWID without a blank is found, none of its characters is the blank before a line's
WWID. -/
theorem not_entryText_inside {wwid buf : CStr} {ptr j : ℕ} (hw : ' ' ∉ wwid)
    (hptr : wwid <+: buf.drop ptr) (hle : ptr ≤ j) (hlt : j < ptr + wwid.length) :
    ¬ entryText wwid ++ ['\n'] <+: buf.drop j := by
  intro h
  have hblank := (entryText_prefix_iff.mp h).1
  obtain ⟨t, ht⟩ := hptr
  have hget : wwid[j - ptr]? = some ' ' := by
    rw [← hblank, ← @List.getElem?_append_left _ _ t _ (by omega), ht, List.getElem?_drop]
    congr 1
    omega
  exact hw (List.mem_of_getElem? hget)

/-- The first place of the WWID from a position on. -/
theorem strstr_first {wwid buf : CStr} {pos : ℕ} {r : CStr × CStr}
    (h : strstr wwid (buf.drop pos) = some r) :
    wwid <+: buf.drop (pos + r.1.length) ∧
      ∀ j, pos ≤ j → j < pos + r.1.length → ¬ wwid <+: buf.drop j := by
  have hmap : (strstr wwid (buf.drop pos)).map (·.1.length) = some r.1.length := by rw [h]; rfl
  obtain ⟨hptr, hfirst⟩ := strstr_position_iff.mp hmap
  rw [List.drop_drop] at hptr
  refine ⟨hptr, ?_⟩
  intro j hle hlt hj
  apply hfirst (j - pos) (by omega)
  rwa [List.drop_drop, Nat.add_sub_cancel' hle]

/-- No line's WWID is skipped by the search for the bare WWID. -/
theorem findWwid_eq {wwid buf : CStr} (hne : wwid ≠ []) (hw : ' ' ∉ wwid) {pos : ℕ}
    (hpos : ∀ j, j + 1 < pos → ¬ entryText wwid ++ ['\n'] <+: buf.drop j) :
    findWwid wwid buf pos =
      (strstr (entryText wwid ++ ['\n']) buf).map fun r => r.1.length + 1 := by
  fun_induction findWwid wwid buf pos with
  | case1 pos hnil => exact absurd hnil hne
  | case2 pos _ hnone =>
    have hno : ¬ entryText wwid ++ ['\n'] <:+: buf := by
      rintro ⟨s, t, hst⟩
      have hocc : entryText wwid ++ ['\n'] <+: buf.drop s.length := by
        rw [← hst, List.append_assoc, List.drop_left]
        exact List.prefix_append _ t
      have hle : pos ≤ s.length + 1 := by
        by_contra hlt
        exact hpos s.length (by omega) hocc
      have hwwid := (entryText_prefix_iff.mp hocc).2.1
      rw [← Nat.sub_add_cancel hle, Nat.add_comm, ← List.drop_drop] at hwwid
      exact strstr_eq_none_iff.mp hnone (hwwid.isInfix.trans (List.drop_suffix _ _).isInfix)
    rw [strstr_eq_none_iff.mpr hno]
    rfl
  | case3 pos _ r hr ptr hskip ih =>
    obtain ⟨hptr, hfirst⟩ := strstr_first hr
    apply ih
    intro j hj hocc
    obtain ⟨hblank, hwwid, hbreak⟩ := entryText_prefix_iff.mp hocc
    obtain hlt | heq | hgt := Nat.lt_trichotomy (j + 1) ptr
    · by_cases hold : j + 1 < pos
      · exact hpos j hold hocc
      · exact hfirst (j + 1) (by omega) hlt hwwid
    · rw [← heq, Nat.add_sub_cancel] at hskip
      obtain h | h | h := hskip
      · omega
      · exact h hblank
      · exact h hbreak
    · exact not_entryText_inside hw hptr (Nat.lt_succ_iff.mp hgt) (by omega) hocc
  | case4 pos _ r hr ptr hfound =>
    obtain ⟨hptr, hfirst⟩ := strstr_first hr
    obtain ⟨hzero, hblank, hbreak⟩ : ptr ≠ 0 ∧ buf[ptr - 1]? = some ' ' ∧
        buf[ptr + wwid.length]? = some '\n' := by
      simpa only [not_or, not_not, ne_eq] using hfound
    have hsucc : ptr - 1 + 1 = ptr := Nat.succ_pred_eq_of_ne_zero hzero
    have hat : (strstr (entryText wwid ++ ['\n']) buf).map (·.1.length) = some (ptr - 1) := by
      rw [strstr_position_iff, entryText_prefix_iff, hsucc]
      refine ⟨⟨hblank, hptr, hbreak⟩, ?_⟩
      intro j hj hocc
      by_cases hold : j + 1 < pos
      · exact hpos j hold hocc
      · exact hfirst (j + 1) (by omega) (by omega) (entryText_prefix_iff.mp hocc).2.1
    obtain ⟨r', hr', hlen⟩ := Option.map_eq_some_iff.mp hat
    rw [hr', Option.map_some, hlen, hsucc]

end MultipathTools.Prkey
