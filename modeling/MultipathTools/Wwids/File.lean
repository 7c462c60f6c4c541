import MultipathTools.Alias.Bindings
import MultipathTools.Base.Chunks

/-! The file of the known WWIDs (`wwids.c`). -/
namespace MultipathTools.Wwids
open Alias (Io openFile lineMax)

/-- The lines of `WWIDS_FILE_HEADER`. -/
def headerLines : List CStr :=
  ["# Multipath wwids, Version : 1.0".toList,
    "# NOTE: This file is automatically maintained by multipath and multipathd.".toList,
    "# You should not need to edit this file in normal circumstances.".toList,
    "#".toList,
    "# Valid WWIDs:".toList]

/-- `WWIDS_FILE_HEADER`. -/
def wwidsFileHeader : CStr := unlines headerLines

/-- How the comparison of a line with the WWID ends: at the end of the file, at the second slash
after `count` characters, or somewhere else (`next`); with the rest of the stream. -/
inductive Compared where
  | eof
  | slash (count : ℕ) (rest : CStr)
  | next (rest : CStr)
  deriving DecidableEq, Repr

/-- A `char` as an `int`, where `char` is signed: a byte from `0x80` on is negative. -/
def charInt (c : Char) : ℤ :=
  if 0x80 ≤ c.toNat ∧ c.toNat < 0x100 then (c.toNat : ℤ) - 0x100 else c.toNat

/-- The inner loop of `lookup_wwid`. What `fgetc` returns is not negative. -/
def compareWwid (wwid : CStr) : ℕ → CStr → Compared
  | _, [] => .eof
  | count, c :: s =>
    if c = '/' then .slash count s
    else if Alias.wwidSize - 1 ≤ count then .next s
    else
      match wwid[count]? with
      | none => .next s
      | some d => if (c.toNat : ℤ) ≠ charInt d then .next s else compareWwid wwid (count + 1) s

/-- No character is negative as a `char`. -/
def Unsigned (w : CStr) : Prop := ∀ c ∈ w, charInt c = c.toNat

instance (w : CStr) : Decidable (Unsigned w) := inferInstanceAs (Decidable (∀ c ∈ w, _))

/-- The comparison takes a character of the file for one of the WWID. -/
theorem toNat_eq_charInt_iff {c d : Char} :
    (c.toNat : ℤ) = charInt d ↔ c = d ∧ charInt d = d.toNat := by
  by_cases hd : charInt d = d.toNat
  · rw [hd, Nat.cast_inj, Char.toNat_inj, and_iff_left rfl]
  · have hneg : charInt d < 0 := by
      unfold charInt at hd ⊢
      split_ifs at hd ⊢ with h
      · omega
      · exact absurd rfl hd
    exact iff_of_false (by omega) fun h => hd h.2

/-- What is left of the stream after the comparison. -/
def Compared.rest : Compared → CStr
  | .eof => []
  | .slash _ rest => rest
  | .next rest => rest

theorem compareWwid_rest (wwid : CStr) (count : ℕ) (s : CStr) :
    (compareWwid wwid count s).rest.length ≤ s.length := by
  fun_induction compareWwid wwid count s with
  | case1 => exact le_rfl
  | case2 => exact Nat.le_succ _
  | case3 => exact Nat.le_succ _
  | case4 => exact Nat.le_succ _
  | case5 => exact Nat.le_succ _
  | case6 count c s _ _ d _ _ ih => exact ih.trans (Nat.le_succ _)

theorem fgets_rest_le (n : ℕ) (s : CStr) : (fgets n s).2.length ≤ s.length := by
  have h := congrArg List.length (fgets_append_rest n s)
  rw [List.length_append] at h
  omega

/-- `lookup_wwid`. -/
def lookupWwid (wwid : CStr) : CStr → Bool
  | [] => false
  | c :: s =>
    if c ≠ '/' then
      if s = [] then false else lookupWwid wwid (fgets (lineMax - 1) s).2
    else
      match _h : compareWwid wwid 0 s with
      | .eof => false
      | .slash count t =>
        if wwid.length = count then true
        else if t = [] then false else lookupWwid wwid (fgets (lineMax - 1) t).2
      | .next t => if t = [] then false else lookupWwid wwid (fgets (lineMax - 1) t).2
termination_by s => s.length
decreasing_by
  · have := fgets_rest_le (lineMax - 1) s
    simp only [List.length_cons]
    omega
  all_goals
    have hle := compareWwid_rest wwid 0 s
    have := fgets_rest_le (lineMax - 1) t
    rw [_h] at hle
    simp only [Compared.rest, List.length_cons] at hle ⊢
    omega

/-- `write_out_wwid`: the return value, and the file. -/
def writeOutWwid (io : Io) (content wwid : CStr) : ℤ × CStr :=
  let buf := '/' :: (wwid ++ ['/', '\n'])
  if Alias.wwidSize + 3 ≤ buf.length then (-1, content)
  else
    let r := io.append content buf
    (if r.1 then 1 else -1, r.2)

/-- The loop over the maps in `replace_wwids`. -/
def writeOutWwids (io : Io) : CStr → List CStr → ℤ × CStr
  | content, [] => (0, content)
  | content, wwid :: wwids =>
    let r := writeOutWwid io content wwid
    if r.1 < 0 then (-1, r.2) else writeOutWwids io r.2 wwids

/-- `replace_wwids` for maps with the given WWIDs. -/
def replaceWwids (io : Io) (content : CStr) (wwids : List CStr) : ℤ × CStr :=
  let f := openFile io content wwidsFileHeader
  if !f.1 then (-1, f.2)
  else if !io.canWrite then (-1, f.2)
  else if !io.truncates then (-1, f.2)
  else
    let r := io.append [] wwidsFileHeader
    if !r.1 then (-1, []) else writeOutWwids io r.2 wwids

/-- `do_remove_wwid`: the first slash of the line is overwritten. -/
def doRemoveWwid (content str : CStr) : ℤ × CStr :=
  match chunkSearch 4096 (fun buf => (strstr str buf).map (·.1.length)) content 0 with
  | none => (1, content)
  | some (start, i) => (0, content.set (start + i) '#')

/-- `remove_wwid`. -/
def removeWwid (io : Io) (content wwid : CStr) : ℤ × CStr :=
  let f := openFile io content wwidsFileHeader
  if !f.1 then (-1, f.2)
  else if !io.canWrite then (-1, f.2)
  else doRemoveWwid f.2 ('/' :: (wwid ++ ['/', '\n']))

/-- `check_wwids_file`. -/
def checkWwidsFile (io : Io) (content wwid : CStr) (writeWwid : Bool) : ℤ × CStr :=
  let f := openFile io content wwidsFileHeader
  if !f.1 then (-1, f.2)
  else if lookupWwid wwid f.2 then (0, f.2)
  else if !writeWwid then (-1, f.2)
  else if !io.canWrite then (-1, f.2)
  else writeOutWwid io f.2 wwid

/-- `remember_wwid`. -/
def rememberWwid (io : Io) (content wwid : CStr) : ℤ × CStr :=
  let r := checkWwidsFile io content wwid true
  if r.1 < 0 then (-1, r.2) else r

end MultipathTools.Wwids
