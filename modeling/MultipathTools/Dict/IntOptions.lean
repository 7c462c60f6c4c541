import MultipathTools.Base.Numeral
import MultipathTools.Parser.PrintedLine
import MultipathTools.Structs

/-! The options of type `int`: their handlers and print functions (`dict.c`). -/
namespace MultipathTools.Dict
open MultipathTools.Parser

/-- What a handler does: the value that it stores, if it stores one, its return value, and what it
logs. -/
structure Handled (α : Type) where
  stored : Option α := none
  rc : ℤ := 0
  log : List Message := []
  deriving DecidableEq, Repr

def Handled.stores {α : Type} (v : α) : Handled α := { stored := some v }

/-- How most handlers begin: without a value they return 1. -/
def withValue {α : Type} (strvec : List Token) (f : CStr → Handled α) : Handled α :=
  match setValue strvec with
  | .error message => { rc := 1, log := [message] }
  | .ok buff => f buff

/-- A word between quotes, as the format `\"%s\"` prints it. -/
def inQuotes (s : CStr) : CStr := '"' :: (s ++ ['"'])

def ynNo : ℤ := 0
def ynYes : ℤ := 1
def ynuUndef : ℤ := 0
def ynuNo : ℤ := 1
def ynuYes : ℤ := 2
def nuNo : ℤ := -1
def nuUndef : ℤ := 0

/-- `set_int`. -/
def setInt (strvec : List Token) : Handled ℤ :=
  withValue strvec fun buff =>
    let r := strtol buff
    let eptr := if r.2.length < buff.length then r.2.dropWhile isspace else r.2
    if buff = [] ∨ eptr ≠ [] ∨ intMax < r.1 ∨ r.1 < intMin then
      { rc := 1, log := [.invalidValue (optionName strvec) buff] }
    else .stores r.1

/-- `print_int`. -/
def printInt (v : ℤ) : Option CStr := some (itoa v)

/-- `print_nonzero`. -/
def printNonzero (v : ℤ) : Option CStr := if v = 0 then none else some (itoa v)

/-- `set_yes_no`. -/
def setYesNo (strvec : List Token) : Handled ℤ :=
  withValue strvec fun buff =>
    if buff = "yes".toList ∨ buff = "1".toList then .stores ynYes else .stores ynNo

/-- `print_yes_no`. -/
def printYesNo (v : ℤ) : Option CStr :=
  some (inQuotes (if v = ynNo then "no".toList else "yes".toList))

/-- `set_yes_no_undef`. -/
def setYesNoUndef (strvec : List Token) : Handled ℤ :=
  withValue strvec fun buff =>
    if buff = "no".toList ∨ buff = "0".toList then .stores ynuNo
    else if buff = "yes".toList ∨ buff = "1".toList then .stores ynuYes
    else .stores ynuUndef

/-- `print_yes_no_undef`. -/
def printYesNoUndef (v : ℤ) : Option CStr :=
  if v = 0 then none else some (inQuotes (if v = ynuNo then "no".toList else "yes".toList))

/-- The values of `enum queue_without_daemon_states`. -/
def queNoDaemonOff : ℤ := ynNo
def queNoDaemonOn : ℤ := ynYes
def queNoDaemonForce : ℤ := 2

/-- `snprint_def_queue_without_daemon`. -/
def printQueueWithoutDaemon (v : ℤ) : Option CStr :=
  if v = queNoDaemonOff then some (inQuotes "no".toList)
  else if v = queNoDaemonOn then some (inQuotes "yes".toList)
  else if v = queNoDaemonForce then some (inQuotes "forced".toList)
  else none

/-- `find_multipaths_optvals`, with the values of `enum find_multipaths_states`. -/
def findMultipathsOptvals : List (ℤ × CStr) :=
  [(ynuNo, "off".toList), (ynuYes, "on".toList), (3, "greedy".toList), (4, "smart".toList),
    (5, "strict".toList)]

/-- `DEFAULT_FIND_MULTIPATHS`. -/
def defaultFindMultipaths : ℤ := 5

/-- `def_find_multipaths_handler`. -/
def findMultipathsHandler (strvec : List Token) : Handled ℤ :=
  let r := setYesNoUndef strvec
  if r.rc = 0 ∧ r.stored ≠ some ynuUndef then r
  else
    let q := withValue strvec fun buff =>
      match findMultipathsOptvals.find? fun opt => opt.2 = buff with
      | some opt => .stores opt.1
      | none => { stored := some defaultFindMultipaths, log := [.illegalFindMultipaths buff] }
    { q with log := r.log ++ q.log }

/-- `snprint_def_find_multipaths`. -/
def printFindMultipaths (v : ℤ) : Option CStr :=
  printStr ((findMultipathsOptvals.find? fun opt => opt.1 = v).map (·.2))

def fastIoFailUnset : ℤ := 0
def fastIoFailOff : ℤ := -1
def fastIoFailZero : ℤ := -2

/-- `set_fast_io_fail`. -/
def setFastIoFail (strvec : List Token) : Handled ℤ :=
  withValue strvec fun buff =>
    if buff = "off".toList then .stores fastIoFailOff
    else
      match sscanfInt buff with
      | none => .stores fastIoFailUnset
      | some v =>
        if v < fastIoFailZero then .stores fastIoFailUnset
        else if v = 0 then .stores fastIoFailZero
        else .stores v

/-- `print_fast_io_fail`. -/
def printFastIoFail (v : ℤ) : Option CStr :=
  if v = fastIoFailUnset then none
  else if v = fastIoFailOff then some (inQuotes "off".toList)
  else if v = fastIoFailZero then some "0".toList
  else some (itoa v)

/-- The values of `enum iopolicies`, with their names. -/
def pgpolicies : List (ℤ × CStr) :=
  [(1, "failover".toList), (2, "multibus".toList), (3, "group_by_serial".toList),
    (4, "group_by_prio".toList), (5, "group_by_node_name".toList)]

/-- `get_pgpolicy_id`: a text that starts with the name will do. -/
def getPgpolicyId (str : CStr) : ℤ :=
  ((pgpolicies.find? fun policy => strncmpEq str policy.2 policy.2.length).map (·.1)).getD 0

/-- `get_pgpolicy_name`. -/
def getPgpolicyName (id : ℤ) : CStr :=
  ((pgpolicies.find? fun policy => policy.1 = id).map (·.2)).getD "undefined".toList

/-- `set_pgpolicy`. -/
def setPgpolicy (strvec : List Token) : Handled ℤ :=
  withValue strvec fun buff => .stores (getPgpolicyId buff)

/-- `print_pgpolicy`. -/
def printPgpolicy (v : ℤ) : Option CStr :=
  if v = 0 then none else some (inQuotes (getPgpolicyName v))

def rrWeightNone : ℤ := 1
def rrWeightPrio : ℤ := 2

/-- `set_rr_weight`: other words are ignored. -/
def setRrWeight (strvec : List Token) : Handled ℤ :=
  withValue strvec fun buff =>
    if buff = "priorities".toList then .stores rrWeightPrio
    else if buff = "uniform".toList then .stores rrWeightNone
    else {}

/-- `print_rr_weight`. -/
def printRrWeight (v : ℤ) : Option CStr :=
  if v = 0 then none
  else if v = rrWeightPrio then some (inQuotes "priorities".toList)
  else if v = rrWeightNone then some (inQuotes "uniform".toList)
  else none

def failbackUndef : ℤ := 0
def failbackManual : ℤ := 1
def failbackImmediate : ℤ := 2
def failbackFollowover : ℤ := 3

/-- `set_pgfailback`. -/
def setPgfailback (strvec : List Token) : Handled ℤ :=
  withValue strvec fun buff =>
    if buff = "manual".toList then .stores (-failbackManual)
    else if buff = "immediate".toList then .stores (-failbackImmediate)
    else if buff = "followover".toList then .stores (-failbackFollowover)
    else .stores (atoi buff)

/-- `print_pgfailback`. -/
def printPgfailback (v : ℤ) : Option CStr :=
  if v = failbackUndef then none
  else if v = -failbackManual then some (inQuotes "manual".toList)
  else if v = -failbackImmediate then some (inQuotes "immediate".toList)
  else if v = -failbackFollowover then some (inQuotes "followover".toList)
  else some (itoa v)

/-- The last branches of `no_path_retry_helper` and `set_off_int_undef`: the option is undefined
unless the number is positive. -/
def atoiOrUndef (buff : CStr) : Handled ℤ :=
  if atoi buff < 1 then .stores nuUndef else .stores (atoi buff)

/-- `no_path_retry_helper`. -/
def noPathRetryHelper (strvec : List Token) : Handled ℤ :=
  withValue strvec fun buff =>
    if buff = "fail".toList ∨ buff = "0".toList then .stores noPathRetryFail
    else if buff = "queue".toList then .stores noPathRetryQueue
    else atoiOrUndef buff

/-- `print_no_path_retry`. -/
def printNoPathRetry (v : ℤ) : Option CStr :=
  if v = noPathRetryUndef then none
  else if v = noPathRetryFail then some (inQuotes "fail".toList)
  else if v = noPathRetryQueue then some (inQuotes "queue".toList)
  else some (itoa v)

/-- `set_off_int_undef`. -/
def setOffIntUndef (strvec : List Token) : Handled ℤ :=
  withValue strvec fun buff =>
    if buff = "no".toList ∨ buff = "0".toList then .stores nuNo else atoiOrUndef buff

/-- `print_off_int_undef`. -/
def printOffIntUndef (v : ℤ) : Option CStr :=
  if v = nuUndef then none
  else if v = nuNo then some (inQuotes "no".toList)
  else some (itoa v)

def logChkrErrAlways : ℤ := 0
def logChkrErrOnce : ℤ := 1

/-- `def_log_checker_err_handler`: other words are ignored. -/
def logCheckerErrHandler (strvec : List Token) : Handled ℤ :=
  withValue strvec fun buff =>
    if buff = "once".toList then .stores logChkrErrOnce
    else if buff = "always".toList then .stores logChkrErrAlways
    else {}

/-- `snprint_def_log_checker_err`. -/
def printLogCheckerErr (v : ℤ) : Option CStr :=
  some (if v = logChkrErrOnce then "once".toList else "always".toList)

/-- The names in `vpd_vendor_pages`. -/
def vpdVendorPages : List (ℤ × CStr) := [(0, "undef".toList), (1, "hp3par".toList)]

/-- `hw_vpd_vendor_handler`. -/
def vpdVendorHandler (strvec : List Token) : Handled ℤ :=
  withValue strvec fun buff =>
    .stores (((vpdVendorPages.find? fun page => page.2 = buff).map (·.1)).getD 0)

/-- `snprint_hw_vpd_vendor`. -/
def printVpdVendor (v : ℤ) : Option CStr :=
  if 0 < v then (vpdVendorPages.find? fun page => page.1 = v).map (·.2) else none

/-- The pairs of a handler and a print function that options are declared with. -/
inductive IntKind where
  | int | nonzero | yesNo | yesNoUndef | queueWithoutDaemon | findMultipaths | fastIoFail
  | pgpolicy | rrWeight | pgfailback | noPathRetry | offIntUndef | logCheckerErr | vpdVendor
  deriving DecidableEq, Repr

def IntKind.handler : IntKind → List Token → Handled ℤ
  | .int => setInt
  | .nonzero => setInt
  | .yesNo => setYesNo
  | .yesNoUndef => setYesNoUndef
  | .queueWithoutDaemon => setYesNo
  | .findMultipaths => findMultipathsHandler
  | .fastIoFail => setFastIoFail
  | .pgpolicy => setPgpolicy
  | .rrWeight => setRrWeight
  | .pgfailback => setPgfailback
  | .noPathRetry => noPathRetryHelper
  | .offIntUndef => setOffIntUndef
  | .logCheckerErr => logCheckerErrHandler
  | .vpdVendor => vpdVendorHandler

def IntKind.print : IntKind → ℤ → Option CStr
  | .int => printInt
  | .nonzero => printNonzero
  | .yesNo => printYesNo
  | .yesNoUndef => printYesNoUndef
  | .queueWithoutDaemon => printQueueWithoutDaemon
  | .findMultipaths => printFindMultipaths
  | .fastIoFail => printFastIoFail
  | .pgpolicy => printPgpolicy
  | .rrWeight => printRrWeight
  | .pgfailback => printPgfailback
  | .noPathRetry => printNoPathRetry
  | .offIntUndef => printOffIntUndef
  | .logCheckerErr => printLogCheckerErr
  | .vpdVendor => printVpdVendor

/-- The values that a handler can store. -/
def IntKind.range : IntKind → ℤ × ℤ
  | .int => (intMin, intMax)
  | .nonzero => (intMin, intMax)
  | .yesNo => (0, 1)
  | .yesNoUndef => (0, 2)
  | .queueWithoutDaemon => (0, 1)
  | .findMultipaths => (1, 5)
  | .fastIoFail => (-2, intMax)
  | .pgpolicy => (0, 5)
  | .rrWeight => (1, 2)
  | .pgfailback => (intMin, intMax)
  | .noPathRetry => (-2, intMax)
  | .offIntUndef => (-1, intMax)
  | .logCheckerErr => (0, 1)
  | .vpdVendor => (0, 1)

def IntKind.Valid (kind : IntKind) (v : ℤ) : Prop := kind.range.1 ≤ v ∧ v ≤ kind.range.2

instance (kind : IntKind) (v : ℤ) : Decidable (kind.Valid v) :=
  inferInstanceAs (Decidable (_ ∧ _))

end MultipathTools.Dict
