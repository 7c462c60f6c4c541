import MultipathTools.Features.Edit
import MultipathTools.Structs

/-! The writer and the reader of the device-mapper table of a map (`assemble_map` and
`disassemble_map` of `dmparser.c`), with the word scanner of `util.c`. -/
namespace MultipathTools.Dmparser

section Assemble
open MultipathTools.Features

/-- `KERNEL_VERSION`. -/
def kernelVersion (maj min ptc : ℕ) : ℕ := (maj * 256 + min) * 256 + ptc

/-- The `%s` conversion of a pointer. -/
def printStr (s : Option CStr) : CStr := s.getD "(null)".toList

/-- `APPEND`: the text with its NUL must fit into the buffer. -/
def append (len : ℕ) (params text : CStr) : Option CStr :=
  if len ≤ (params ++ text).length then none else some (params ++ text)

/-- The repeat count written for a path. -/
def tmpMinio (mp : Multipath) (pp : Path) : ℤ :=
  if mp.rrWeight = .prio ∧ 0 < pp.priority then toInt (mp.minio * pp.priority) else mp.minio

def appendPath (mp : Multipath) (len : ℕ) (params : CStr) (pp : Path) : Option CStr :=
  if pp.devT = [] then none
  else append len params (' ' :: pp.devT ++ ' ' :: itoa (tmpMinio mp pp))

def appendPathgroup (mp : Multipath) (len : ℕ) (params : CStr) (pgp : Pathgroup) : Option CStr :=
  (append len params
    (' ' :: printStr mp.selector ++ ' ' :: itoa pgp.paths.length ++ " 1".toList)).bind fun params =>
      pgp.paths.foldlM (appendPath mp len) params

/-- The features that `assemble_map` adds to those of the map. -/
def addMapFeatures (mp : Multipath) (linuxVersionCode : ℕ) : Multipath :=
  let mp :=
    if mp.noPathRetry ≠ noPathRetryUndef ∧ mp.noPathRetry ≠ noPathRetryFail then
      { mp with features := (addFeature mp.features queueIfNoPath).1 }
    else mp
  if mp.retainHwhandler = .on ∧ linuxVersionCode < kernelVersion 4 3 0 then
    { mp with features := (addFeature mp.features retainAttachedHwHandler).1 }
  else mp

/-- What stands before the path groups. -/
def tableHeader (mp : Multipath) : CStr :=
  let nrPriorityGroups := (mp.pg.getD []).length
  let initialPgNr := if nrPriorityGroups ≠ 0 then mp.bestpg else 0
  printStr mp.features ++ ' ' :: printStr mp.hwhandler ++ ' ' :: itoa nrPriorityGroups ++
    ' ' :: itoa initialPgNr

/-- `assemble_map`: the map, whose features it may extend, and the table if it fits. -/
def assembleMap (mp : Multipath) (len : ℕ) (linuxVersionCode : ℕ) : Multipath × Option CStr :=
  let mp := addMapFeatures mp linuxVersionCode
  (mp, (append len [] (tableHeader mp)).bind fun params =>
    (mp.pg.getD []).foldlM (appendPathgroup mp len) params)

theorem isFeature_queue : IsFeature queueIfNoPath := by
  refine ⟨by decide, by decide, ⟨'q', by decide, by decide⟩⟩

theorem isFeature_retain : IsFeature retainAttachedHwHandler := by
  refine ⟨by decide, by decide, ⟨'r', by decide, by decide⟩⟩

@[simp] theorem printStr_some (s : CStr) : printStr (some s) = s := rfl

theorem append_eq_some {len : ℕ} {params text p : CStr} (h : append len params text = some p) :
    p = params ++ text ∧ p.length < len := by
  unfold append at h
  split_ifs at h with hl
  cases h
  exact ⟨rfl, not_le.mp hl⟩

theorem appendPath_prefix {mp : Multipath} {len : ℕ} {params p : CStr} {pp : Path}
    (h : appendPath mp len params pp = some p) : params <+: p := by
  unfold appendPath at h
  split_ifs at h
  obtain ⟨rfl, -⟩ := append_eq_some h
  exact List.prefix_append _ _

theorem foldlM_isPrefix {α : Type} {f : CStr → α → Option CStr}
    (hf : ∀ params a p, f params a = some p → params <+: p) {as : List α} {params p : CStr}
    (h : as.foldlM f params = some p) : params <+: p := by
  induction as generalizing params with
  | nil => exact Option.some.inj h ▸ List.prefix_rfl
  | cons a as ih =>
    rw [List.foldlM_cons] at h
    obtain ⟨q, hq, h⟩ := Option.bind_eq_some_iff.mp h
    exact (hf params a q hq).trans (ih h)

theorem appendPathgroup_prefix {mp : Multipath} {len : ℕ} {params p : CStr} {pgp : Pathgroup}
    (h : appendPathgroup mp len params pgp = some p) : params <+: p := by
  obtain ⟨q, hq, h⟩ := Option.bind_eq_some_iff.mp h
  obtain ⟨rfl, -⟩ := append_eq_some hq
  exact (List.prefix_append _ _).trans (foldlM_isPrefix (fun _ _ _ => appendPath_prefix) h)

/-- The table begins with the map's features and a blank. -/
theorem assembleMap_features {mp mp' : Multipath} {len ver : ℕ} {table : CStr}
    (h : assembleMap mp len ver = (mp', some table)) :
    mp' = addMapFeatures mp ver ∧ printStr mp'.features ++ [' '] <+: table := by
  simp only [assembleMap, Prod.mk.injEq] at h
  obtain ⟨rfl, ht⟩ := h
  refine ⟨rfl, ?_⟩
  obtain ⟨q, hq, h⟩ := Option.bind_eq_some_iff.mp ht
  obtain ⟨rfl, -⟩ := append_eq_some hq
  refine List.IsPrefix.trans ?_ (foldlM_isPrefix (fun _ _ _ => appendPathgroup_prefix) h)
  simp [tableHeader]

end Assemble

def blkDevSize : ℕ := 33
def prioUndef : ℤ := -1

/-- `strchop`: white space at the end is cut. -/
def strchop (s : CStr) : CStr := s.rdropWhile isspace

/-- `get_word`: the word, if there is one, and the text for the next read. A word at the end of
the text is not passed over. -/
def getWord (s : CStr) : Option CStr × CStr :=
  let t := s.dropWhile (· = ' ')
  if t = [] then (none, s)
  else
    let p := t.dropWhile (· ≠ ' ')
    (some (strchop (t.takeWhile (· ≠ ' '))), if p = [] then s else p)

/-- `get_word` with a NULL pointer for the word. -/
def skipWord (s : CStr) : CStr :=
  let t := s.dropWhile (· = ' ')
  if t = [] then s else t.dropWhile (· ≠ ' ')

def skipWords : ℕ → CStr → CStr
  | 0, p => p
  | n + 1, p => skipWords n (skipWord p)

/-- `merge_words`. -/
def mergeWords (dst word : CStr) : CStr := dst ++ ' ' :: word

/-- The loop that merges `n` words: the merged text, and the rest unless a word is missing. -/
def mergeArgs : ℕ → CStr → CStr → CStr × Option CStr
  | 0, p, dst => (dst, some p)
  | n + 1, p, dst =>
    match getWord p with
    | (none, _) => (dst, none)
    | (some word, p) => mergeArgs n p (mergeWords dst word)

/-- A count with that many words, as for the features and the hardware handler. -/
def readArgs (p : CStr) : Option CStr × Option CStr :=
  match getWord p with
  | (none, _) => (none, none)
  | (some word, p) =>
    let r := mergeArgs (atoi word).toNat p word
    (some r.1, r.2)

/-- `find_path_by_devt`. -/
def findPathByDevt (pathvec : List Path) (devT : CStr) : Option Path :=
  pathvec.find? fun pp => pp.devT = devT

/-- A path that is not in the path vector; `alloc` gives the address of `alloc_path`. -/
def unknownPath (alloc : CStr → BitVec 64) (word : CStr) : Path :=
  { addr := alloc word, devT := word.take (blkDevSize - 1), priority := prioUndef }

/-- `store_path` refuses a path that has neither a device number nor a name. -/
def storeFails (pp : Path) : Bool := pp.devT = [] ∧ pp.dev = []

/-- The repeat count of a path, from the number in the table. -/
def defMinio (mpp : Multipath) (pp : Path) (word : CStr) : ℤ :=
  if strncmpEq (printStr mpp.selector) "round-robin".toList 11 ∧ mpp.rrWeight = .prio ∧
      0 < pp.priority then
    (atoi word).tdiv pp.priority
  else atoi word

/-- The arguments of a path. If the first is missing, the reading ends here: `atoi` of the NULL
pointer is not defined. -/
def readPathArgs (mpp : Multipath) (pp : Path) : ℕ → CStr → Multipath × Option CStr
  | 0, p => (mpp, some p)
  | n + 1, p =>
    match getWord p with
    | (none, _) => (mpp, none)
    | (some word, p) => ({ mpp with minio := defMinio mpp pp word }, some (skipWords n p))

/-- `num_paths` paths of group number `i`; here and below the rest of the text is missing where
the reading ended early. -/
def readPaths (alloc : CStr → BitVec 64) (pathvec : List Path) (i numPathsArgs : ℕ) :
    ℕ → Multipath → Pathgroup → CStr → Multipath × Option (Pathgroup × CStr)
  | 0, mpp, pgp, p => (mpp, some (pgp, p))
  | n + 1, mpp, pgp, p =>
    match getWord p with
    | (none, _) => (mpp, none)
    | (some word, p) =>
      let pp := (findPathByDevt pathvec word).getD (unknownPath alloc word)
      if storeFails pp then (mpp, none)
      else
        let pgp :=
          { id := pgp.id ^^^ pp.addr, paths := pgp.paths ++ [{ pp with pgindex := i + 1 }] }
        match readPathArgs mpp pp numPathsArgs p with
        | (mpp, none) => (mpp, none)
        | (mpp, some p) => readPaths alloc pathvec i numPathsArgs n mpp pgp p

/-- The selector of a group and its number of arguments; it is stored for the first one only. -/
def readSelector (mpp : Multipath) (numPgArgs : ℤ) (p : CStr) : Multipath × Option (ℤ × CStr) :=
  match mpp.selector with
  | none =>
    match getWord p with
    | (none, _) => (mpp, none)
    | (some selector, p) =>
      match getWord p with
      | (none, _) => ({ mpp with selector := some selector }, none)
      | (some word, p) =>
        ({ mpp with selector := some (mergeWords selector word) }, some (atoi word, p))
  | some _ => (mpp, some (numPgArgs, skipWord (skipWord p)))

/-- One path group. -/
def readPathgroup (alloc : CStr → BitVec 64) (pathvec : List Path) (i : ℕ) (mpp : Multipath)
    (numPgArgs : ℤ) (p : CStr) : Multipath × Option (ℤ × CStr) :=
  match readSelector mpp numPgArgs p with
  | (mpp, none) => (mpp, none)
  | (mpp, some (numPgArgs, p)) =>
    match getWord (skipWords numPgArgs.toNat p) with
    | (none, _) => (mpp, none)
    | (some numPaths, p) =>
      match getWord p with
      | (none, _) => (mpp, none)
      | (some numPathsArgs, p) =>
        match readPaths alloc pathvec i (atoi numPathsArgs).toNat (atoi numPaths).toNat mpp {} p with
        | (mpp, none) => (mpp, none)
        | (mpp, some (pgp, p)) =>
          ({ mpp with pg := some (mpp.pg.getD [] ++ [pgp]) }, some (numPgArgs, p))

/-- The path groups from number `i` on: the map, and whether all were read. -/
def readPathgroups (alloc : CStr → BitVec 64) (pathvec : List Path) :
    ℕ → ℕ → Multipath → ℤ → CStr → Multipath × Bool
  | 0, _, mpp, _, _ => (mpp, true)
  | n + 1, i, mpp, numPgArgs, p =>
    match readPathgroup alloc pathvec i mpp numPgArgs p with
    | (mpp, none) => (mpp, false)
    | (mpp, some (numPgArgs, p)) => readPathgroups alloc pathvec n (i + 1) mpp numPgArgs p

/-- What follows the hardware handler in a table. -/
def readGroups (alloc : CStr → BitVec 64) (pathvec : List Path) (p : CStr) (mpp : Multipath) :
    Multipath × ℤ :=
  match getWord p with
  | (none, _) => (mpp, 1)
  | (some numPg, p) =>
    let mpp := { mpp with pg := if 0 < atoi numPg then some (mpp.pg.getD []) else none }
    match getWord p with
    | (none, _) => ({ mpp with pg := none }, 1)
    | (some nextpg, p) =>
      let mpp := { mpp with nextpg := atoi nextpg }
      match readPathgroups alloc pathvec (atoi numPg).toNat 0 mpp 0 p with
      | (mpp, false) => ({ mpp with pg := none }, 1)
      | (mpp, true) => (mpp, 0)

/-- `disassemble_map`: the map with what was read, and the return code. -/
def disassembleMap (alloc : CStr → BitVec 64) (pathvec : List Path) (params : CStr)
    (mpp : Multipath) : Multipath × ℤ :=
  let features := readArgs params
  let mpp := { mpp with features := features.1 }
  match features.2 with
  | none => (mpp, 1)
  | some p =>
    let hwhandler := readArgs p
    let mpp := { mpp with hwhandler := hwhandler.1 }
    match hwhandler.2 with
    | none => (mpp, 1)
    | some p => readGroups alloc pathvec p mpp

end MultipathTools.Dmparser
