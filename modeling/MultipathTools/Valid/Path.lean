import MultipathTools.Base.CString
import MultipathTools.Configure.Coalesce

/-! Whether a path belongs to multipath: `is_path_valid` (`valid.c`) and what `multipath -u` and
`multipath -c` make of it (`check_path_valid` in `multipath/main.c`). Times are nanoseconds. -/
namespace MultipathTools.Valid

open MultipathTools.Configure (FindMultipaths)

/-- `enum is_path_valid_result` without its bound. -/
inductive PathValid where
  | error | notValid | valid
  /-- To be claimed although the path has been released. -/
  | validNoCheck
  | maybeValid
  deriving DecidableEq, Repr

/-- `__mpath_connect(1)`. -/
inductive Connect where
  | connected | again | refused
  deriving DecidableEq, Repr

/-- `pathinfo`, with the WWID that it finds. -/
inductive Pathinfo where
  | ok (wwid : CStr)
  | skipped | failed
  deriving DecidableEq, Repr

/-- `is_failed_wwid`. -/
inductive FailedWwid where
  | notFailed | failed | error
  deriving DecidableEq, Repr

/-- What the system and the configuration say about a path. -/
structure PathEnv where
  findMultipaths : FindMultipaths
  /-- The name fits into `pp->dev`. -/
  nameFits : Bool := true
  /-- `sysfs_is_multipathed`, with the WWID of the map that holds the path. -/
  holder : Option CStr := none
  connect : Connect := .connected
  /-- `systemd_service_enabled`. -/
  serviceEnabled : Bool := true
  /-- `udev_device_new_from_subsystem_sysname`. -/
  hasUdev : Bool := true
  pathinfo : Pathinfo
  /-- `filter_property(conf, pp->udev, 3, pp->uid_attribute) > 0`. -/
  propertyFiltered : Bool := false
  failedWwid : FailedWwid := .notFailed
  /-- `check_wwids_file(pp->wwid, 0) == 0`. -/
  inWwidsFile : Bool := false
  /-- `dm_map_present_by_uuid(pp->wwid) == 1`. -/
  mapPresent : Bool := false
  deriving DecidableEq, Repr

/-- `is_path_valid` from the reading of the WWID on. -/
def isWwidValid (env : PathEnv) (wwid : CStr) : PathValid :=
  if wwid = [] then .notValid
  else if env.propertyFiltered then .notValid
  else
    match env.failedWwid with
    | .failed => .notValid
    | .error => .error
    | .notFailed =>
      if env.findMultipaths = .greedy then .valid
      else if env.inWwidsFile then .validNoCheck
      else if env.mapPresent then .valid
      else if env.findMultipaths ≠ .smart then .notValid
      else .maybeValid

/-- `is_path_valid`, with `pp->wwid`. -/
def isPathValid (env : PathEnv) (checkMultipathd : Bool) : PathValid × CStr :=
  if env.findMultipaths = .undef then (.error, [])
  else if !env.nameFits then (.error, [])
  else
    match env.holder with
    | some wwid => (if wwid = [] then .error else .validNoCheck, wwid)
    | none =>
      if checkMultipathd ∧ env.connect = .refused ∧ !env.serviceEnabled then (.notValid, [])
      else if !env.hasUdev then (.error, [])
      else
        match env.pathinfo with
        | .skipped => (.notValid, [])
        | .failed => (.error, [])
        | .ok wwid => (isWwidValid env wwid, wwid)

/-- A second. -/
def second : ℤ := 10 ^ 9

/-- `tv_sec` of a difference of two times. -/
def tvSec (t : ℤ) : ℤ := t / second

/-- What happens to the file of a path under `shm_find_mp_dir`. -/
structure FileEnv where
  /-- The path name fits, and the directory is there. -/
  directory : Bool := true
  /-- `open` fails for another reason than `ENOENT`. -/
  openFails : Bool := false
  /-- Another process creates the file in between, with this time. -/
  raced : Option ℤ := none
  /-- `open` with `O_CREAT` fails for another reason than `EEXIST`. -/
  createFails : Bool := false
  futimens : Bool := true
  fstat : Bool := true
  deriving DecidableEq, Repr

/-- What `find_multipaths_check_timeout` returns, with `until`. -/
inductive Wait where
  | waitDone
  | waiting (remaining : ℤ)
  | error
  /-- There is no file, and none is created. -/
  | never
  deriving DecidableEq, Repr

/-- `find_multipaths_check_timeout` from `fstat` on, for a file with this `st_mtim`. -/
def waitUntil (env : FileEnv) (now mtime : ℤ) : Wait :=
  if !env.fstat then .error
  else if tvSec (mtime - now) ≤ 0 then .waitDone
  else .waiting (mtime - now)

/-- `find_multipaths_check_timeout`. The file is its `st_mtim`. -/
def findMultipathsCheckTimeout (env : FileEnv) (now tmo : ℤ) (file : Option ℤ) : Wait × Option ℤ :=
  if !env.directory then (.error, file)
  else
    match file with
    | some mtime =>
      if env.openFails then (if tmo > 0 then .error else .never, file)
      else (waitUntil env now mtime, file)
    | none =>
      if tmo ≤ 0 then (.never, none)
      else if env.openFails then (.error, none)
      else
        match env.raced with
        | some mtime => (waitUntil env now mtime, some mtime)
        | none =>
          if env.createFails then (.error, none)
          else
            -- a file that has just been created has the time of its creation
            let mtime := if env.futimens then now + tmo * second else now
            (waitUntil env now mtime, some mtime)

def defaultFindMultipathsTimeout : ℤ := -10
def defaultUnknownFindMultipathsTimeout : ℤ := 1

/-- `select_find_multipaths_timeout`; `hwe` tells whether the hardware is known. -/
def selectFindMultipathsTimeout (conf : ℤ) (hwe : Bool) : ℤ :=
  let tmo := if conf ≠ 0 then conf else defaultFindMultipathsTimeout
  if tmo < 0 then (if hwe then -tmo else defaultUnknownFindMultipathsTimeout) else tmo

/-- What `multipath -u` prints: `FIND_MULTIPATHS_WAIT_UNTIL`, which is 0 if the wait is over, and
`DM_MULTIPATH_DEVICE_PATH`. -/
structure Printed where
  waitUntil : Option ℤ := none
  devicePath : ℕ
  deriving DecidableEq, Repr

/-- `FIND_MULTIPATHS_WAIT_UNTIL`, in microseconds. -/
def Wait.printed : Wait → Option ℤ
  | .waiting remaining => some (remaining / 1000)
  | .waitDone => some 0
  | .error | .never => none

/-- The other answers to `check_path_valid`. -/
structure CheckEnv extends PathEnv where
  file : FileEnv := {}
  now : ℤ
  /-- `conf->find_multipaths_timeout`. -/
  timeout : ℤ := 0
  hwe : Bool := true
  /-- The device has a number, which takes a `udev` device. -/
  hasDevt : Bool := true
  /-- `open` with `O_EXCL` succeeds. -/
  exclusive : Bool := true
  /-- `sysfs_is_multipathed` afterwards. -/
  racedHolder : Bool := false
  /-- The WWIDs of the other paths that `path_discovery` finds, unless it fails. -/
  discovered : Option (List CStr) := some []
  deriving DecidableEq, Repr

/-- `print_cmd_valid`; `inPathvec` tells whether `pathvec` holds the path. The result is
`PATH_IS_NOT_VALID` or not. -/
def printCmdValid (k : PathValid) (inPathvec : Bool) (env : CheckEnv) (file : Option ℤ) :
    Option Printed × Bool × Option ℤ :=
  match k with
  | .error | .validNoCheck => (none, false, file)
  | .maybeValid =>
    let (wait, file) := findMultipathsCheckTimeout env.file env.now
      (selectFindMultipathsTimeout env.timeout env.hwe) file
    match wait with
    | .waiting _ => (some ⟨wait.printed, 2⟩, true, file)
    | _ => (some ⟨wait.printed, 0⟩, false, file)
  | .valid | .notValid =>
    let (wait, file) :=
      if inPathvec then findMultipathsCheckTimeout env.file env.now 0 file else (.never, file)
    (some ⟨wait.printed, if k = .valid then 1 else 0⟩, k = .valid, file)

/-- What `check_path_valid` makes of the result for a path that has been released to systemd or not. -/
def afterRelease (released : Bool) (r : PathValid) : PathValid :=
  let r := if (r = .valid ∨ r = .maybeValid) ∧ released then .notValid else r
  if r = .validNoCheck then .valid else r

/-- `check_path_valid` until `print_cmd_valid`: the result, and whether `pathvec` holds the path. -/
def classify (env : CheckEnv) (isUevent released : Bool) : Option (PathValid × Bool) :=
  let (r, wwid) := isPathValid env.toPathEnv isUevent
  if r = .error then none
  else if !env.hasDevt then none
  else if afterRelease released r ≠ .maybeValid then some (afterRelease released r, false)
  else if !env.exclusive then some (if env.racedHolder then .valid else .notValid, false)
  else
    -- the path itself stays the first of its WWID
    env.discovered.map fun others => (if wwid ∈ others then .valid else .maybeValid, true)

/-- `check_path_valid`, where `released` is the result of `released_to_systemd`: what is printed, whether
it returns `RTVL_OK`, and the file afterwards. -/
def checkPathValid (env : CheckEnv) (isUevent released : Bool) (file : Option ℤ) :
    Option Printed × Bool × Option ℤ :=
  match classify env isUevent released with
  | none => (none, false, file)
  | some (r, inPathvec) =>
    let (printed, valid, file) := printCmdValid r inPathvec env file
    (printed, isUevent || valid, file)

section Timeout
variable {env : FileEnv} {now tmo : ℤ} {file : Option ℤ}

theorem selectFindMultipathsTimeout_pos (conf : ℤ) (hwe : Bool) :
    0 < selectFindMultipathsTimeout conf hwe := by
  unfold selectFindMultipathsTimeout defaultFindMultipathsTimeout defaultUnknownFindMultipathsTimeout
  dsimp only
  split_ifs <;> omega

theorem tvSec_pos_iff (t : ℤ) : 0 < tvSec t ↔ second ≤ t := by
  unfold tvSec second
  omega

theorem waitUntil_waiting {mtime remaining : ℤ} (h : waitUntil env now mtime = .waiting remaining) :
    remaining = mtime - now ∧ second ≤ mtime - now := by
  unfold waitUntil at h
  split_ifs at h with hfstat hdone
  cases h
  exact ⟨rfl, (tvSec_pos_iff _).mp (not_le.mp hdone)⟩

/-- A file that is there stays as it is. -/
theorem findMultipathsCheckTimeout_some {mtime : ℤ} :
    (findMultipathsCheckTimeout env now tmo (some mtime)).2 = some mtime := by
  unfold findMultipathsCheckTimeout
  split_ifs <;> rfl

/-- Who waits knows until when: there is a file with a time to come. -/
theorem findMultipathsCheckTimeout_waiting {remaining : ℤ}
    (h : (findMultipathsCheckTimeout env now tmo file).1 = .waiting remaining) :
    ∃ mtime, (findMultipathsCheckTimeout env now tmo file).2 = some mtime ∧
      remaining = mtime - now ∧ second ≤ mtime - now := by
  unfold findMultipathsCheckTimeout at h ⊢
  by_cases hdir : (!env.directory) = true
  · rw [if_pos hdir] at h
    cases h
  rw [if_neg hdir] at h ⊢
  cases file with
  | some mtime =>
    dsimp only at h ⊢
    by_cases hopen : env.openFails = true
    · rw [if_pos hopen] at h
      dsimp only at h
      split_ifs at h
    · rw [if_neg hopen] at h ⊢
      exact ⟨mtime, rfl, waitUntil_waiting h⟩
  | none =>
    dsimp only at h ⊢
    by_cases htmo : tmo ≤ 0
    · rw [if_pos htmo] at h
      cases h
    by_cases hopen : env.openFails = true
    · rw [if_neg htmo, if_pos hopen] at h
      cases h
    rw [if_neg htmo, if_neg hopen] at h ⊢
    cases hrace : env.raced with
    | some mtime =>
      rw [hrace] at h
      exact ⟨mtime, rfl, waitUntil_waiting h⟩
    | none =>
      rw [hrace] at h
      dsimp only at h ⊢
      by_cases hcreate : env.createFails = true
      · rw [if_pos hcreate] at h
        cases h
      · rw [if_neg hcreate] at h ⊢
        exact ⟨_, rfl, waitUntil_waiting h⟩

end Timeout

end MultipathTools.Valid
