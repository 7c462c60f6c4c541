import Mathlib.Data.BitVec
import MultipathTools.Base.Numeral
import MultipathTools.Base.CString

/-! The data model of `structs.h`: paths, path groups and multipath maps. Fields that no
modelled function reads are left out. -/
namespace MultipathTools

def wwidSize : ℕ := 128
def paramsSize : ℕ := 4096

/-- Checker states of a path (`PATH_UP` and so on). -/
inductive PathState where
  | wild | unchecked | down | up | shaky | ghost | pending | timeout | removed | delayed
  deriving DecidableEq, Repr

/-- `enum initialized_states`. -/
inductive InitState where
  | new | failed | missingUdev | requestedUdev | ok | removed
  deriving DecidableEq, Repr

inductive RrWeight where
  | undef | none | prio
  deriving DecidableEq, Repr

inductive RetainHwhandler where
  | undef | off | on
  deriving DecidableEq, Repr

inductive Action where
  | undef | nothing | reject | reload | switchpg | rename | create | resize | forcerename
  | dryRun | impossible
  deriving DecidableEq, Repr

def noPathRetryUndef : ℤ := 0
def noPathRetryFail : ℤ := -1
def noPathRetryQueue : ℤ := -2

/-- `struct path`. `addr` is the address of the struct, the value of `(long)pp`; `mpp` tells the
owning map, by its `addr`. -/
structure Path where
  addr : BitVec 64 := 0
  dev : CStr := []
  devT : CStr := []
  wwid : CStr := []
  size : ℕ := 0
  state : PathState := .wild
  initialized : InitState := .new
  priority : ℤ := 0
  pgindex : ℕ := 0
  mpp : Option ℕ := none
  /-- `sg_id.host_no`, `-1` if it is not known. -/
  hostNo : ℤ := -1
  deriving DecidableEq, Repr

structure Pathgroup where
  id : BitVec 64 := 0
  paths : List Path := []
  deriving DecidableEq, Repr

/-- `struct multipath`. `addr` tells one allocated map from another; an `Option` field is a
pointer that may be NULL. -/
structure Multipath where
  addr : ℕ := 0
  wwid : CStr := []
  aliasName : CStr := []
  aliasOld : CStr := []
  nextpg : ℤ := 0
  bestpg : ℤ := 1
  action : Action := .undef
  rrWeight : RrWeight := .undef
  noPathRetry : ℤ := noPathRetryUndef
  retryTick : ℤ := 0
  minio : ℤ := 0
  retainHwhandler : RetainHwhandler := .undef
  inRecovery : Bool := false
  forceUdevReload : Bool := false
  size : ℕ := 0
  paths : Option (List Path) := none
  pg : Option (List Pathgroup) := none
  selector : Option CStr := none
  features : Option CStr := none
  hwhandler : Option CStr := none
  statTotalQueueingTime : ℕ := 0
  statQueueingTimeouts : ℕ := 0
  statMapFailures : ℕ := 0
  deriving DecidableEq, Repr

/-- The feature word that makes the kernel queue when no path is left. -/
def queueIfNoPath : CStr := "queue_if_no_path".toList

def retainAttachedHwHandler : CStr := "retain_attached_hw_handler".toList

/-- `alloc_multipath`: the defaults above. -/
def allocMultipath : Multipath := {}

/-- `find_mp_by_wwid`. -/
def findMpByWwid (mpvec : List Multipath) (wwid : CStr) : Option Multipath :=
  mpvec.find? fun mpp => strncmpEq mpp.wwid wwid wwidSize

/-- `find_mp_by_alias`. -/
def findMpByAlias (mpvec : List Multipath) (aliasName : CStr) : Option Multipath :=
  if aliasName = [] then none else mpvec.find? fun mpp => mpp.aliasName = aliasName

def Path.isActive (pp : Path) : Bool := pp.state = .up ∨ pp.state = .ghost

def countActivePaths (mpp : Multipath) : ℕ :=
  ((mpp.pg.getD []).map fun pgp => pgp.paths.countP Path.isActive).sum

end MultipathTools
