import MultipathTools.Base.Numeral
import MultipathTools.Dmparser.Checked

/-! The reader of the device-mapper status of a map (`disassemble_status` of `dmparser.c`), with
every pointer checked that it uses. -/
namespace MultipathTools.Dmparser

/-- `dmstate` of a path. -/
inductive PState where
  | undef | failed | active
  deriving DecidableEq, Repr

/-- `status` of a path group. -/
inductive PgState where
  | undef | enabled | disabled | active
  deriving DecidableEq, Repr

/-- What the status says of a path. -/
structure StatusPath where
  dmstate : PState := .undef
  failcount : ℤ := 0
  deriving DecidableEq, Repr

structure StatusPathgroup where
  status : PgState := .undef
  paths : List StatusPath := []
  deriving DecidableEq, Repr

/-- The part of `struct multipath` that `disassemble_status` reads and writes. -/
structure StatusMultipath where
  pg : Option (List StatusPathgroup) := none
  selector : Option CStr := none
  minio : ℤ := 0
  queuedio : ℤ := 0
  deriving DecidableEq, Repr

/-- The path status of a word; another letter leaves it. -/
def pathStatus (word : CStr) (dmstate : PState) : PState :=
  if word.head? = some 'F' then .failed
  else if word.head? = some 'A' then .active
  else dmstate

/-- The group status of a word, by its first letter. -/
def pgStatus (word : CStr) : PgState :=
  if word.head? = some 'D' then .disabled
  else if word.head? = some 'A' then .active
  else if word.head? = some 'E' then .enabled
  else .undef

def isLeastPending (selector : CStr) : Bool := strncmpEq selector "least-pending".toList 13

/-- The arguments of the features from number `i` on; the second is `queuedio`. -/
def readFeatureArgs : ℕ → ℕ → ℤ → CStr → ℤ × Option CStr
  | 0, _, queuedio, p => (queuedio, some p)
  | n + 1, i, queuedio, p =>
    if i = 1 then
      match getWord p with
      | (none, _) => (queuedio, none)
      | (some word, p) => readFeatureArgs n (i + 1) (atoi word) p
    else readFeatureArgs n (i + 1) queuedio (skipWord p)

/-- The selector arguments of a path. Here is no test for a missing word. -/
def readSelectorArgs (selector : Option CStr) : ℕ → ℤ → CStr → Except Fault (ℤ × CStr)
  | 0, minio, p => .ok (minio, p)
  | n + 1, minio, p =>
    (checkedSelector selector).bind fun sel =>
      if isLeastPending sel then
        (checkedWord (getWord p).1).bind fun word =>
          readSelectorArgs selector n ((sscanfInt word).getD minio) (getWord p).2
      else readSelectorArgs selector n minio (skipWord p)

/-- `num_paths` paths, in the slots that are left; here and below the rest of the text is missing
where the reading ended early. -/
def readStatusPaths (selector : Option CStr) (numPgArgs : ℕ) :
    ℕ → List StatusPath → ℤ → CStr → Except Fault (List StatusPath × ℤ × Option CStr)
  | 0, slots, minio, p => .ok (slots, minio, some p)
  | _ + 1, [], _, _ => .error .noPath
  | n + 1, pp :: slots, minio, p =>
    match getWord (skipWord p) with
    | (none, _) => .ok (pp :: slots, minio, none)
    | (some word, p) =>
      let pp := { pp with dmstate := pathStatus word pp.dmstate }
      match getWord p with
      | (none, _) => .ok (pp :: slots, minio, none)
      | (some word, p) =>
        let pp := { pp with failcount := atoi word }
        (readSelectorArgs selector numPgArgs minio p).bind fun r =>
          (readStatusPaths selector numPgArgs n slots r.1 r.2).bind fun s => .ok (pp :: s.1, s.2)

/-- One path group. -/
def readStatusPathgroup (selector : Option CStr) (pgp : StatusPathgroup) (minio : ℤ) (p : CStr) :
    Except Fault (StatusPathgroup × ℤ × Option CStr) :=
  match getWord p with
  | (none, _) => .ok (pgp, minio, none)
  | (some word, p) =>
    let pgp := { pgp with status := pgStatus word }
    match getWord (skipWord p) with
    | (none, _) => .ok (pgp, minio, none)
    | (some numPaths, p) =>
      match getWord p with
      | (none, _) => .ok (pgp, minio, none)
      | (some numPgArgs, p) =>
        if (pgp.paths.length : ℤ) < atoi numPaths then .ok (pgp, minio, none)
        else
          (readStatusPaths selector (atoi numPgArgs).toNat (atoi numPaths).toNat pgp.paths minio
            p).bind fun r => .ok ({ pgp with paths := r.1 }, r.2)

/-- The path groups in the slots that are left: the slots, the repeat count, and whether all were
read. -/
def readStatusPathgroups (selector : Option CStr) :
    ℕ → List StatusPathgroup → ℤ → CStr → Except Fault (List StatusPathgroup × ℤ × Bool)
  | 0, slots, minio, _ => .ok (slots, minio, true)
  | _ + 1, [], _, _ => .error .noPathgroup
  | n + 1, pgp :: slots, minio, p =>
    (readStatusPathgroup selector pgp minio p).bind fun r =>
      match r.2.2 with
      | none => .ok (r.1 :: slots, r.2.1, false)
      | some p =>
        (readStatusPathgroups selector n slots r.2.1 p).bind fun s => .ok (r.1 :: s.1, s.2)

/-- What follows the hardware handler in a status. -/
def readStatusGroups (p : CStr) (mpp : StatusMultipath) : Except Fault (StatusMultipath × ℤ) :=
  match getWord p with
  | (none, _) => .ok (mpp, 1)
  | (some numPg, p) =>
    if atoi numPg = 0 then .ok (mpp, 0)
    else if ((mpp.pg.getD []).length : ℤ) < atoi numPg then .ok (mpp, 1)
    else
      (readStatusPathgroups mpp.selector (atoi numPg).toNat (mpp.pg.getD []) mpp.minio
        (skipWord p)).bind fun r =>
          .ok ({ mpp with pg := mpp.pg.map fun _ => r.1, minio := r.2.1 }, if r.2.2 then 0 else 1)

/-- `disassemble_status`: the map with what was read, and the return code. -/
def disassembleStatus (params : CStr) (mpp : StatusMultipath) :
    Except Fault (StatusMultipath × ℤ) :=
  match getWord params with
  | (none, _) => .ok (mpp, 1)
  | (some word, p) =>
    let r := readFeatureArgs (atoi word).toNat 0 mpp.queuedio p
    let mpp := { mpp with queuedio := r.1 }
    match r.2 with
    | none => .ok (mpp, 1)
    | some p =>
      match getWord p with
      | (none, _) => .ok (mpp, 1)
      | (some word, p) => readStatusGroups (skipWords (atoi word).toNat p) mpp

end MultipathTools.Dmparser
