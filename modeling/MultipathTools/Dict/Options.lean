import MultipathTools.Dict.IntOptions
import MultipathTools.Dmparser.Disassemble
import MultipathTools.Prkey.File

/-! The other options: their handlers and print functions (`dict.c`). -/
namespace MultipathTools.Dict
open MultipathTools.Parser

/-- What the handlers ask the system, and whether the main configuration file has been read. -/
structure Env where
  /-- `getpwnam_r`: the user's id and group id. -/
  getpwnam : CStr → Option (BitVec 32 × BitVec 32)
  /-- `get_sys_max_fds`, unless `/proc/sys/fs/nr_open` cannot be read. -/
  sysMaxFds : Option {n : ℤ // IsInt n}
  /-- `regcomp`, whether it takes the expression. -/
  regcomp : CStr → Bool
  processedMainConfig : Bool := false

/-- `set_uint`. -/
def setUint (strvec : List Token) : Handled (BitVec 32) :=
  withValue strvec fun buff =>
    let p := buff.dropWhile isspace
    let r := strtoul p
    let eptr := if r.2.length < buff.length then r.2.dropWhile isspace else r.2
    if buff = [] ∨ eptr ≠ [] ∨ ¬ (p.head?.any Char.isDigit = true) ∨ 2 ^ 32 - 1 < r.1 then
      { rc := 1, log := [.invalidValue (optionName strvec) buff] }
    else .stores (BitVec.ofNat 32 r.1)

/-- `print_int`, for an `unsigned int`. -/
def printUint (v : BitVec 32) : Option CStr := some (utoa 10 v)

/-- `CHECKINT_UNDEF`. -/
def checkintUndef : BitVec 32 := BitVec.allOnes 32

/-- `checkint_handler`. -/
def checkintHandler (strvec : List Token) : Handled (BitVec 32) :=
  let r := setUint strvec
  if r.rc ≠ 0 then r
  else { r with stored := r.stored.map fun v => if v = checkintUndef then v - 1 else v }

/-- `DEV_LOSS_TMO_UNSET` and `MAX_DEV_LOSS_TMO`. -/
def devLossTmoUnset : BitVec 32 := 0
def maxDevLossTmo : BitVec 32 := BitVec.allOnes 32

/-- `set_dev_loss`. -/
def setDevLoss (strvec : List Token) : Handled (BitVec 32) :=
  withValue strvec fun buff =>
    if buff = "infinity".toList then .stores maxDevLossTmo
    else .stores ((sscanfUint 10 buff).getD devLossTmoUnset)

/-- `print_dev_loss`. -/
def printDevLoss (v : BitVec 32) : Option CStr :=
  if v = devLossTmoUnset then none
  else if maxDevLossTmo ≤ v then some (inQuotes "infinity".toList)
  else some (utoa 10 v)

/-- `DEFAULT_REPLY_TIMEOUT`. -/
def defaultReplyTimeout : BitVec 32 := 4000

/-- `def_uxsock_timeout_handler`. -/
def uxsockTimeoutHandler (strvec : List Token) : Handled (BitVec 32) :=
  withValue strvec fun buff =>
    match sscanfUint 10 buff with
    | some v => if defaultReplyTimeout < v then .stores v else .stores defaultReplyTimeout
    | none => .stores defaultReplyTimeout

/-- The pairs of a handler and a print function of options of type `unsigned int`. The print
function of `uxsock_timeout` prints like `print_int`. -/
inductive UintKind where
  | checkint | uint | devLoss | uxsockTimeout
  deriving DecidableEq, Repr

def UintKind.handler : UintKind → List Token → Handled (BitVec 32)
  | .checkint => checkintHandler
  | .uint => setUint
  | .devLoss => setDevLoss
  | .uxsockTimeout => uxsockTimeoutHandler

def UintKind.print : UintKind → BitVec 32 → Option CStr
  | .checkint => printUint
  | .uint => printUint
  | .devLoss => printDevLoss
  | .uxsockTimeout => printUint

/-- `set_str`: without a value the string is NULL. -/
def setStr (strvec : List Token) : Handled (Option CStr) :=
  match setValue strvec with
  | .error message => { stored := some none, rc := 1, log := [message] }
  | .ok buff => .stores (some buff)

/-- `default_partition_delim`, and `UNSET_PARTITION_DELIM`. -/
def defaultPartitionDelim : Option CStr := none
def unsetPartitionDelim : CStr := "/UNSET/".toList

/-- `def_partition_delim_handler`. -/
def partitionDelimHandler (strvec : List Token) : Handled (Option CStr) :=
  let r := setStr strvec
  if r.rc ≠ 0 then r
  else if r.stored = some (some unsetPartitionDelim) then .stores none
  else r

/-- `snprint_def_partition_delim`. -/
def printPartitionDelim (v : Option CStr) : Option CStr :=
  if defaultPartitionDelim = none ∨ v ≠ none then printStr v
  else printStr (some unsetPartitionDelim)

/-- `def_config_dir_handler`: the option is only valid in the main configuration file. -/
def configDirHandler (env : Env) (strvec : List Token) : Handled (Option CStr) :=
  if env.processedMainConfig then {} else setStr strvec

theorem getWord_length {s record p : CStr} (h : Dmparser.getWord s = (some record, p)) :
    p = s ∨ p.length < s.length := by
  unfold Dmparser.getWord at h
  dsimp only at h
  split at h
  · cases h
  · next hne =>
    split at h <;> cases h
    · exact .inl rfl
    · right
      obtain ⟨c, t, ht⟩ := List.exists_cons_of_ne_nil hne
      have hc : c ≠ ' ' := by
        have hhead := List.head_dropWhile_not (fun c => decide (c = ' ')) hne
        simpa [ht] using hhead
      have hle : (s.dropWhile fun c => decide (c = ' ')).length ≤ s.length :=
        (List.dropWhile_suffix _).length_le
      have hdrop : (t.dropWhile fun c => decide (c ≠ ' ')).length ≤ t.length :=
        (List.dropWhile_suffix _).length_le
      rw [ht, List.dropWhile_cons_of_pos (by simpa using hc)]
      rw [ht, List.length_cons] at hle
      omega

/-- A record is kept if there is a colon in it. -/
def uidAttrRecord (record : CStr) : List CStr × List Message :=
  if ':' ∈ record then ([record], []) else ([], [.invalidRecord record])

/-- `parse_uid_attrs`: the records, and the messages about those that are none. -/
def parseUidAttrs (uidAttrs : CStr) : List CStr × List Message :=
  match _h : Dmparser.getWord uidAttrs with
  | (none, _) => ([], [])
  | (some record, p) =>
    let r := uidAttrRecord record
    if _hp : p = uidAttrs then r
    else
      let rest := parseUidAttrs p
      (r.1 ++ rest.1, r.2 ++ rest.2)
termination_by uidAttrs.length
decreasing_by
  obtain hp | hlt := getWord_length _h
  · exact absurd hp _hp
  · exact hlt

/-- `uid_attrs_handler`: the list is reset first. -/
def uidAttrsHandler (strvec : List Token) : Handled (List CStr) :=
  match setValue strvec with
  | .error message => { stored := some [], rc := 1, log := [message] }
  | .ok val =>
    let r := parseUidAttrs val
    { stored := some r.1, log := if r.2 = [] then [] else r.2 ++ [.errorParsingUidAttrs val] }

/-- `snprint_uid_attrs`. -/
def printUidAttrs (attrs : List CStr) : Option CStr :=
  let text := [' '].intercalate attrs
  if text = [] then none else some text

/-- `set_mode`. The value of an attribute is `none` if its flag is not set. -/
def setMode (strvec : List Token) : Handled (Option (BitVec 32)) :=
  withValue strvec fun buff =>
    match sscanfUint 8 buff with
    | some mode => if mode ≤ 0o777 then .stores (some mode) else {}
    | none => {}

/-- `set_uid`. -/
def setUid (env : Env) (strvec : List Token) : Handled (Option (BitVec 32)) :=
  withValue strvec fun buff =>
    match env.getpwnam buff with
    | some info => .stores (some info.1)
    | none =>
      match sscanfUint 10 buff with
      | some uid => .stores (some uid)
      | none => {}

/-- `set_gid`: the group of the user. -/
def setGid (env : Env) (strvec : List Token) : Handled (Option (BitVec 32)) :=
  withValue strvec fun buff =>
    match env.getpwnam buff with
    | some info => .stores (some info.2)
    | none =>
      match sscanfUint 10 buff with
      | some gid => .stores (some gid)
      | none => {}

/-- `print_mode`, `print_uid` and `print_gid`. -/
def printAttr (v : Option (BitVec 32)) : Option CStr := v.map fun v => '0' :: utoa 8 v

/-- `max_fds_handler`. -/
def maxFdsHandler (env : Env) (strvec : List Token) : Handled ℤ :=
  withValue strvec fun buff =>
    let maxFds : ℤ := (env.sysMaxFds.map (·.1)).getD 4096
    let v := if buff = "max".toList then maxFds else atoi buff
    { stored := some (if maxFds < v then maxFds else v),
      rc := if env.sysMaxFds = none then 1 else 0 }

/-- `snprint_max_fds`. -/
def printMaxFds (env : Env) (v : ℤ) : Option CStr :=
  if v = 0 then none
  else
    match env.sysMaxFds with
    | some maxFds => if maxFds.1 ≤ v then some (inQuotes "max".toList) else some (itoa v)
    | none => some (itoa v)

/-- `enum prkey_sources`. -/
inductive PrkeySource where
  | none | conf | file
  deriving DecidableEq, Repr

/-- The fields that `reservation_key` sets. -/
structure ReservationKey where
  source : PrkeySource := .none
  key : BitVec 64 := 0
  flags : BitVec 8 := 0
  deriving DecidableEq, Repr

/-- `parse_prkey_flags`. -/
def parsePrkeyFlags (ptr : CStr) : Option (BitVec 64 × BitVec 8) :=
  let flagstr := ptr.dropWhile (· ≠ ':')
  let flags := if flagstr = ":aptpl".toList then Prkey.aptplMask else 0
  (Prkey.parsePrkey (ptr.takeWhile (· ≠ ':'))).map (·, flags)

/-- `set_reservation_key`. -/
def setReservationKey (strvec : List Token) : Handled ReservationKey :=
  withValue strvec fun buff =>
    if buff = "file".toList then .stores { source := .file }
    else
      match parsePrkeyFlags buff with
      | none => { rc := 1 }
      | some (prkey, saFlags) => .stores ⟨.conf, prkey, saFlags⟩

/-- `print_reservation_key`. -/
def printReservationKey (v : ReservationKey) : Option CStr :=
  match v.source with
  | .none => none
  | .file => some "file".toList
  | .conf =>
    let flagstr := if v.flags &&& Prkey.aptplMask ≠ 0 then ":aptpl".toList else []
    some ('0' :: 'x' :: (Nat.toDigits 16 v.key.toNat ++ flagstr))

/-- `struct blentry`, without the compiled expression. -/
structure Blentry where
  str : CStr
  invert : Bool
  deriving DecidableEq, Repr

/-- `check_invert`: the expression, and whether it is inverted. -/
def checkInvert (str : CStr) : CStr × Bool :=
  match str with
  | '!' :: s => (s, true)
  | '\\' :: '!' :: s => ('!' :: s, false)
  | s => (s, false)

/-- `store_ble`; `set_ble_device` does the same for the vendor or the product. -/
def storeBle (env : Env) (str : CStr) : Handled Blentry :=
  let r := checkInvert str
  if env.regcomp r.1 then .stores ⟨str, r.2⟩ else { rc := 1 }

/-- The handlers of the blacklist, whose entry is given back. -/
def bleHandler (env : Env) (strvec : List Token) : Handled Blentry :=
  withValue strvec (storeBle env)

/-- `snprint_ble_simple`, and likewise `snprint_bled_vendor` and `snprint_bled_product`. -/
def printBle (ble : Blentry) : Option CStr := some (inQuotes ble.str)

/-- `deprecated_handler`. -/
def deprecatedHandler (strvec : List Token) : Handled Unit := withValue strvec fun _ => {}

end MultipathTools.Dict
