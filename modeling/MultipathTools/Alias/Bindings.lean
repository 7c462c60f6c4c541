import MultipathTools.Alias.Devname
import MultipathTools.Base.Lines

/-! The bindings file, the functions that read it and append to it, and the search of `lookup_binding`
for a free id (`alias.c`). -/
namespace MultipathTools.Alias

/-- The variables `id`, `biggest_id` and `smallest_bigger_id`. -/
structure Ids where
  id : ℤ := 1
  biggest : ℤ := 1
  smallestBigger : ℤ := intMax
  deriving DecidableEq, Repr

/-- What the loop does with the id of a line, if it does not break there. -/
def Ids.note (s : Ids) (curr : ℤ) : Ids :=
  let id := if curr = s.id then s.id + 1 else s.id
  { id := id
    biggest := if s.biggest < curr then curr else s.biggest
    smallestBigger := if id < curr ∧ curr < s.smallestBigger then curr else s.smallestBigger }

/-- The value of `id` at the end of the function. -/
def Ids.free (s : Ids) : ℤ :=
  if s.smallestBigger ≤ s.id then
    if s.biggest < intMax then s.biggest + 1 else -1
  else s.id

/-- The variables after the ids `seen`. -/
structure Scanned (s : Ids) (seen : List ℤ) : Prop where
  id_pos : 0 < s.id
  id_le : s.id ≤ s.biggest + 1
  le_biggest : ∀ x ∈ seen, x ≤ s.biggest
  biggest_le : s.biggest ≤ intMax
  smallest_pos : 0 < s.smallestBigger
  smallest_le_max : s.smallestBigger ≤ intMax
  smallest_le : ∀ x ∈ seen, s.id ≤ x → s.smallestBigger ≤ x

theorem scanned_init : Scanned {} [] := by
  constructor <;> simp [intMax]

theorem Scanned.note {s : Ids} {seen : List ℤ} (h : Scanned s seen) {curr : ℤ}
    (hc : curr ≤ intMax) : Scanned (s.note curr) (seen ++ [curr]) := by
  obtain ⟨hp, hle, hb, hbm, hsp, hsm, hs⟩ := h
  constructor
  case le_biggest =>
    simp only [List.forall_mem_append, List.forall_mem_singleton, Ids.note]
    refine ⟨fun x hx => ?_, by split_ifs <;> omega⟩
    have := hb x hx
    split_ifs <;> omega
  case smallest_le =>
    simp only [List.forall_mem_append, List.forall_mem_singleton, Ids.note]
    refine ⟨fun x hx => ?_, by split_ifs <;> omega⟩
    have := hs x hx
    split_ifs <;> omega
  all_goals
    simp only [Ids.note]
    split_ifs <;> omega

theorem Scanned.foldl {s : Ids} {seen xs : List ℤ} (h : Scanned s seen)
    (hx : ∀ x ∈ xs, x ≤ intMax) : Scanned (xs.foldl Ids.note s) (seen ++ xs) := by
  induction xs generalizing s seen with
  | nil => simpa using h
  | cons x xs ih =>
    obtain ⟨hc, hx⟩ := List.forall_mem_cons.mp hx
    simpa using ih (h.note hc) hx

/-- An id that is returned as free belongs to no alias of the file. -/
theorem Scanned.free_not_mem {s : Ids} {seen : List ℤ} (h : Scanned s seen) (hf : 0 < s.free) :
    s.free ∉ seen := by
  intro hm
  have hb := h.le_biggest _ hm
  have hs := h.smallest_le _ hm
  unfold Ids.free at *
  split_ifs at * <;> omega

theorem Scanned.free_le {s : Ids} {seen : List ℤ} (h : Scanned s seen) : s.free ≤ intMax := by
  have := h.smallest_le_max
  have : 0 < intMax := by decide
  unfold Ids.free
  split_ifs <;> omega

/-- When the counter has reached the last id, only the last id can be free. -/
theorem Scanned.free_eq_intMax {s : Ids} {seen : List ℤ} (h : Scanned s seen)
    (hid : intMax ≤ s.id) (hf : 0 < s.free) : s.free = s.id := by
  have hle := h.id_le
  have hsm := h.smallest_le_max
  unfold Ids.free at *
  split_ifs at * <;> omega

/-- The ids from `k` on, `n` of them. -/
def idsFrom (k : ℤ) : ℕ → List ℤ
  | 0 => []
  | n + 1 => k :: idsFrom (k + 1) n

theorem idsFrom_length (k : ℤ) (n : ℕ) : (idsFrom k n).length = n := by
  induction n generalizing k with
  | zero => rfl
  | succ n ih => rw [idsFrom, List.length_cons, ih]

theorem note_id (s : Ids) (curr : ℤ) :
    (s.note curr).id = if curr = s.id then s.id + 1 else s.id := rfl

/-- The counter has passed the ids from its start on exactly if they came up in this order. -/
theorem le_note_id_iff {s : Ids} {seen : List ℤ} {n : ℕ} :
    s.id + n ≤ (seen.foldl Ids.note s).id ↔ (idsFrom s.id n).Sublist seen := by
  induction seen generalizing s n with
  | nil => cases n <;> simp [idsFrom]
  | cons x seen ih =>
    rw [List.foldl_cons]
    cases n with
    | zero =>
      have hmono : (s.note x).id ≤ (seen.foldl Ids.note (s.note x)).id := by
        simpa [idsFrom] using (ih (s := s.note x) (n := 0)).mpr (List.nil_sublist _)
      rw [note_id] at hmono
      simp only [idsFrom, List.nil_sublist, iff_true]
      split_ifs at hmono <;> simp <;> omega
    | succ n =>
      rw [idsFrom, List.cons_sublist_cons']
      by_cases hx : x = s.id
      · have hid : (s.note x).id = s.id + 1 := by rw [note_id, if_pos hx]
        have hih := ih (s := s.note x) (n := n)
        rw [hid] at hih
        rw [show s.id + ((n + 1 : ℕ) : ℤ) = s.id + 1 + n by push_cast; ring, hih]
        exact ⟨fun h => .inr ⟨hx.symm, h⟩, fun h =>
          h.elim (fun h => (List.sublist_cons_self _ _).trans h) (·.2)⟩
      · have hid : (s.note x).id = s.id := by rw [note_id, if_neg hx]
        have hih := ih (s := s.note x) (n := n + 1)
        rw [hid] at hih
        rw [hih, idsFrom]
        simp [Ne.symm hx]

/-- `LINE_MAX`, the size of a line buffer. -/
def lineMax : ℕ := 2048

/-- `WWID_SIZE`. -/
def wwidSize : ℕ := 128

/-- The lines of `BINDINGS_FILE_HEADER`. -/
def headerLines : List CStr :=
  ["# Multipath bindings, Version : 1.0".toList,
    "# NOTE: this file is automatically maintained by the multipath program.".toList,
    "# You should not need to edit this file in normal circumstances.".toList,
    "#".toList,
    "# Format:".toList,
    "# alias wwid".toList,
    "#".toList]

/-- `BINDINGS_FILE_HEADER`. -/
def bindingsFileHeader : CStr := headerLines.flatMap (· ++ ['\n'])

/-- The lines that `fgets` reads from the file. -/
def fileLines (content : CStr) : List CStr := readLines (lineMax - 1) content

/-- A NUL, or one of `"#\n\r"`. -/
def isLineEnd (c : Char) : Bool := c.toNat = 0 ∨ c = '#' ∨ c = '\n' ∨ c = '\r'

/-- The string in the line buffer after `strpbrk(buf, "#\n\r")`. -/
def lineText (buf : CStr) : CStr := buf.takeWhile (!isLineEnd ·)

/-- The first and the second word of a line: the alias, and its WWID unless the line is
malformed. There is no alias in a blank line. -/
def lineWords (buf : CStr) : Option (CStr × Option CStr) :=
  (strtok (lineText buf)).map fun r => (r.1, (strtok r.2).map Prod.fst)

/-- What `lookup_binding` comes to. -/
inductive Lookup where
  | bound (aliasName : CStr)
  | free (id : ℤ)
  | error
  deriving DecidableEq, Repr

def Ids.result (s : Ids) : Lookup := if s.free < 0 then .error else .free s.free

/-- One line in `lookup_binding`: the loop is left with a result, or goes on. -/
def lookupLine (mapWwid : CStr) (pre : Option CStr) (s : Ids) (buf : CStr) :
    Except Lookup Ids :=
  match lineWords buf with
  | none => .ok s
  | some (aliasName, wwid) =>
    let curr := scanDevname aliasName pre
    if curr = s.id ∧ intMax ≤ s.id then .error ({ s with id := -1 } : Ids).result
    else if wwid = some mapWwid then .error (.bound aliasName)
    else .ok (s.note curr)

/-- `lookup_binding`. -/
def lookupBinding (content mapWwid : CStr) (pre : Option CStr) : Lookup :=
  match (fileLines content).foldlM (lookupLine mapWwid pre) {} with
  | .error r => r
  | .ok s => s.result

/-- One line in `rlookup_binding`. -/
def rlookupLine (mapAlias buf : CStr) : Option CStr :=
  match lineWords buf with
  | some (aliasName, some wwid) =>
    if wwidSize - 1 < wwid.length then none
    else if aliasName = mapAlias then some wwid else none
  | _ => none

/-- `rlookup_binding`: what is copied to `buff`. -/
def rlookupBinding (content mapAlias : CStr) : Option CStr :=
  (fileLines content).findSome? (rlookupLine mapAlias)

/-- How the system calls on the file come out. -/
structure Io where
  /-- The file is opened and locked. -/
  opens : Bool := true
  /-- `can_write`: not on a read-only file system. -/
  canWrite : Bool := true
  /-- `write` takes this many bytes. -/
  room : ℕ
  /-- `ftruncate` succeeds. -/
  truncates : Bool := true

/-- `write` at the end of the file, undone with `ftruncate` if it was cut short. -/
def Io.append (io : Io) (content buf : CStr) : Bool × CStr :=
  if buf.length ≤ io.room then (true, content ++ buf)
  else (false, if io.truncates then content else content ++ buf.take io.room)

/-- `open_file`: an empty file gets the header. -/
def openFile (io : Io) (content header : CStr) : Bool × CStr :=
  if !io.opens then (false, content)
  else if content ≠ [] then (true, content)
  else if !io.canWrite then (false, content)
  else io.append content header

/-- The line that `allocate_binding` appends, and the alias at its begin. -/
def bindingLine (wwid : CStr) (id : ℤ) (pre : CStr) : Option CStr :=
  match formatDevname id lineMax pre with
  | none => none
  | some name =>
    if lineMax - name.length ≤ wwid.length + 2 then none
    else some (name ++ ' ' :: (wwid ++ ['\n']))

/-- `allocate_binding`: the new alias, and the file. -/
def allocateBinding (io : Io) (content wwid : CStr) (id : ℤ) (pre : CStr) :
    Option CStr × CStr :=
  if id ≤ 0 then (none, content)
  else
    match bindingLine wwid id pre with
    | none => (none, content)
    | some buf =>
      let r := io.append content buf
      (if r.1 then some (buf.takeWhile (· ≠ ' ')) else none, r.2)

/-- `use_existing_alias`: the alias, and the file. -/
def useExistingAlias (io : Io) (content wwid aliasOld pre : CStr) (bindingsReadOnly : Bool) :
    Option CStr × CStr :=
  let f := openFile io content bindingsFileHeader
  if !f.1 then (none, f.2)
  else
    match rlookupBinding f.2 aliasOld with
    | some buff => (if buff = wwid then some aliasOld else none, f.2)
    | none =>
      match lookupBinding f.2 wwid none with
      | .bound aliasName => (some aliasName, f.2)
      -- the id found is not used, the one of the old alias is
      | _ =>
        let id := scanDevname aliasOld (some pre)
        if id ≤ 0 then (none, f.2)
        else if io.canWrite && !bindingsReadOnly then allocateBinding io f.2 wwid id pre
        else (none, f.2)

/-- `get_user_friendly_alias`: the alias, and the file. -/
def getUserFriendlyAlias (io : Io) (content wwid pre : CStr) (bindingsReadOnly : Bool) :
    Option CStr × CStr :=
  if wwid = [] then (none, content)
  else
    let f := openFile io content bindingsFileHeader
    if !f.1 then (none, f.2)
    else
      match lookupBinding f.2 wwid (some pre) with
      | .error => (none, f.2)
      | .bound aliasName => (some aliasName, f.2)
      | .free id =>
        if io.canWrite && !bindingsReadOnly then allocateBinding io f.2 wwid id pre
        else (none, f.2)

/-- `get_user_friendly_wwid`, on the file that `open_file` leaves. -/
def getUserFriendlyWwid (io : Io) (content aliasName : CStr) : Option CStr × CStr :=
  if aliasName = [] then (none, content)
  else
    let f := openFile io content bindingsFileHeader
    if !f.1 then (none, f.2) else (rlookupBinding f.2 aliasName, f.2)

end MultipathTools.Alias
