import Mathlib.Algebra.Ring.Nat
import MultipathTools.Parser.Strvec

/-! The keywords of the client commands and how a command is read (`cli.c`). -/
namespace MultipathTools.Cli

open MultipathTools.Parser

inductive Keyword where
  | list | add | del | switch | suspend | resume | reinstate | fail | resize | reset | reload
  | forceq | disableq | restoreq | paths | maps | path | map | group | reconfigure | daemon
  | status | stats | topology | config | blacklist | devices | raw | wildcards | quit | shutdown
  | getprstatus | setprstatus | unsetprstatus | fmt | json | getprkey | setprkey | unsetprkey
  | key | localConf | setmarginal | unsetmarginal
  deriving DecidableEq, Repr

/-- The enumeration constant that the keyword's code is a power of. -/
abbrev Keyword.bit (kw : Keyword) : ℕ := kw.ctorIdx

/-- `1ULL << kw`. -/
def Keyword.code (kw : Keyword) : UInt64 := UInt64.ofNat (2 ^ kw.bit)

/-- A row of the table of `load_keys`. -/
structure Key where
  str : CStr
  code : Keyword
  hasParam : Bool
  deriving DecidableEq, Repr

/-- A keyword of a command, with its argument. -/
structure CmdKey where
  code : Keyword
  hasParam : Bool
  param : Option CStr := none
  deriving DecidableEq, Repr

def key (str : String) (code : Keyword) (hasParam : Bool) : Key := ⟨str.toList, code, hasParam⟩

/-- `load_keys`. -/
def keys : List Key := [
    key "list" .list false, key "show" .list false, key "add" .add false,
    key "remove" .del false, key "del" .del false, key "switch" .switch false,
    key "switchgroup" .switch false, key "suspend" .suspend false, key "resume" .resume false,
    key "reinstate" .reinstate false, key "fail" .fail false, key "resize" .resize false,
    key "reset" .reset false, key "reload" .reload false, key "forcequeueing" .forceq false,
    key "disablequeueing" .disableq false, key "restorequeueing" .restoreq false,
    key "paths" .paths false, key "maps" .maps false, key "multipaths" .maps false,
    key "path" .path true, key "map" .map true, key "multipath" .map true,
    key "group" .group true, key "reconfigure" .reconfigure false, key "daemon" .daemon false,
    key "status" .status false, key "stats" .stats false, key "topology" .topology false,
    key "config" .config false, key "blacklist" .blacklist false, key "devices" .devices false,
    key "raw" .raw false, key "wildcards" .wildcards false, key "quit" .quit false,
    key "exit" .quit false, key "shutdown" .shutdown false, key "getprstatus" .getprstatus false,
    key "setprstatus" .setprstatus false, key "unsetprstatus" .unsetprstatus false,
    key "format" .fmt true, key "json" .json false, key "getprkey" .getprkey false,
    key "setprkey" .setprkey false, key "unsetprkey" .unsetprkey false, key "key" .key true,
    key "local" .localConf false, key "setmarginal" .setmarginal false,
    key "unsetmarginal" .unsetmarginal false]

/-- The loop of `find_key`; `foundkw` is the shortcut match so far. -/
def findKeyLoop (str : CStr) (foundkw : Option Key) : List Key → Option Key
  | [] => foundkw
  | kw :: keys =>
    if !strncmpEq kw.str str str.length then findKeyLoop str foundkw keys
    else if str.length = kw.str.length then some kw
    else if str.length < kw.str.length then
      match foundkw with
      | none => findKeyLoop str (some kw) keys
      | some _ => none
    else findKeyLoop str foundkw keys

def findKey (str : CStr) : Option Key := findKeyLoop str none keys

inductive CmdError where
  | enomem | eagain | einval
  deriving DecidableEq, Repr

/-- The loop of `get_cmdvec`; `cmdkw` is the keyword that waits for its argument. -/
def cmdvecLoop : List Token → Option CmdKey → Except CmdError (List CmdKey)
  | [], none => .ok []
  | [], some _ => .error .einval
  | .quoteMarker :: strvec, cmdkw => cmdvecLoop strvec cmdkw
  | .word buff :: strvec, some cmdkw =>
    (cmdvecLoop strvec none).map ({ cmdkw with param := some buff } :: ·)
  | .word buff :: strvec, none =>
    match findKey buff with
    | none => .error .eagain
    | some kw =>
      let cmdkw : CmdKey := { code := kw.code, hasParam := kw.hasParam }
      if kw.hasParam then cmdvecLoop strvec (some cmdkw)
      else (cmdvecLoop strvec none).map (cmdkw :: ·)

def getCmdvec (cmd : CStr) : Except CmdError (List CmdKey) :=
  match allocStrvec cmd with
  | none => .error .enomem
  | some strvec => cmdvecLoop strvec none

end MultipathTools.Cli

/-! The command handlers of the daemon and their dispatch (`cli.c`, `uxlsnrloop` and
`uxsock_trigger` of `main.c`). -/
namespace MultipathTools.Cli

/-- The functions that execute a command. -/
inductive CliFn where
  | cliListPaths | cliListPathsFmt | cliListPathsRaw | cliListPath | cliListMaps | cliListStatus
  | cliListDaemon | cliListMapsStatus | cliListMapsStats | cliListMapsFmt | cliListMapsRaw
  | cliListMapsTopology | cliListMapsJson | cliListMapTopology | cliListMapFmt | cliListMapJson
  | cliListConfigLocal | cliListConfig | cliListBlacklist | cliListDevices | cliListWildcards
  | cliResetMapsStats | cliResetMapStats | cliAddPath | cliDelPath | cliAddMap | cliDelMap
  | cliDelMaps | cliSwitchGroup | cliReconfigure | cliSuspend | cliResume | cliResize | cliReload
  | cliReassign | cliReinstate | cliFail | cliDisableQueueing | cliRestoreQueueing
  | cliDisableAllQueueing | cliRestoreAllQueueing | cliQuit | cliShutdown | cliGetprstatus
  | cliSetprstatus | cliUnsetprstatus | cliForceNoDaemonQ | cliRestoreNoDaemonQ | cliGetprkey
  | cliSetprkey | cliUnsetprkey | cliSetMarginal | cliUnsetMarginal | cliUnsetAllMarginal
  deriving DecidableEq, Repr

/-- `keywords` are the terms of the sum that the handler was registered with; the code keeps
only the sum. -/
structure Handler where
  keywords : List Keyword
  fingerprint : UInt64
  locked : Bool := false
  fn : Option CliFn := none
  deriving DecidableEq, Repr

/-- `fingerprint`: the codes of the keywords are added up. -/
def fingerprint : List Keyword → UInt64
  | [] => 0
  | kw :: vec => kw.code + fingerprint vec

def addHandler (handlers : List Handler) (keywords : List Keyword) : List Handler :=
  handlers ++ [{ keywords := keywords, fingerprint := fingerprint keywords }]

def findHandler (handlers : List Handler) (fp : UInt64) : Option Handler :=
  handlers.find? fun h => h.fingerprint = fp

/-- `set_handler_callback`, and `set_unlocked_handler_callback` for `locked` false. -/
def setHandlerCallback (fp : UInt64) (locked : Bool) (fn : CliFn) : List Handler → List Handler
  | [] => []
  | h :: handlers =>
    if h.fingerprint = fp then { h with fn := some fn, locked := locked } :: handlers
    else h :: setHandlerCallback fp locked fn handlers

/-- `cli_init`. -/
def cliInit : List Handler := List.foldl addHandler [] [
   [.list, .paths], [.list, .paths, .fmt], [.list, .paths, .raw, .fmt], [.list, .path],
   [.list, .status], [.list, .daemon], [.list, .maps], [.list, .maps, .status],
   [.list, .maps, .stats], [.list, .maps, .fmt], [.list, .maps, .raw, .fmt],
   [.list, .maps, .topology], [.list, .maps, .json], [.list, .topology],
   [.list, .map, .topology], [.list, .map, .json], [.list, .map, .fmt],
   [.list, .map, .raw, .fmt], [.list, .config], [.list, .config, .localConf],
   [.list, .blacklist], [.list, .devices], [.list, .wildcards], [.reset, .maps, .stats],
   [.reset, .map, .stats], [.add, .path], [.del, .path], [.add, .map], [.del, .map],
   [.del, .maps], [.switch, .map, .group], [.reconfigure], [.suspend, .map], [.resume, .map],
   [.resize, .map], [.reset, .map], [.reload, .map], [.disableq, .map], [.restoreq, .map],
   [.disableq, .maps], [.restoreq, .maps], [.reinstate, .path], [.fail, .path], [.quit],
   [.shutdown], [.getprstatus, .map], [.setprstatus, .map], [.unsetprstatus, .map],
   [.getprkey, .map], [.setprkey, .map, .key], [.unsetprkey, .map], [.forceq, .daemon],
   [.restoreq, .daemon], [.setmarginal, .path], [.unsetmarginal, .path], [.unsetmarginal, .map]]

/-- The callbacks that `uxlsnrloop` sets. -/
def callbacks : List (List Keyword × Bool × CliFn) := [
   ([.list, .paths], true, .cliListPaths), ([.list, .paths, .fmt], true, .cliListPathsFmt),
   ([.list, .paths, .raw, .fmt], true, .cliListPathsRaw), ([.list, .path], true, .cliListPath),
   ([.list, .maps], true, .cliListMaps), ([.list, .status], true, .cliListStatus),
   ([.list, .daemon], false, .cliListDaemon),
   ([.list, .maps, .status], true, .cliListMapsStatus),
   ([.list, .maps, .stats], true, .cliListMapsStats),
   ([.list, .maps, .fmt], true, .cliListMapsFmt),
   ([.list, .maps, .raw, .fmt], true, .cliListMapsRaw),
   ([.list, .maps, .topology], true, .cliListMapsTopology),
   ([.list, .topology], true, .cliListMapsTopology),
   ([.list, .maps, .json], true, .cliListMapsJson),
   ([.list, .map, .topology], true, .cliListMapTopology),
   ([.list, .map, .fmt], true, .cliListMapFmt),
   ([.list, .map, .raw, .fmt], true, .cliListMapFmt),
   ([.list, .map, .json], true, .cliListMapJson),
   ([.list, .config, .localConf], true, .cliListConfigLocal),
   ([.list, .config], true, .cliListConfig), ([.list, .blacklist], true, .cliListBlacklist),
   ([.list, .devices], true, .cliListDevices), ([.list, .wildcards], true, .cliListWildcards),
   ([.reset, .maps, .stats], true, .cliResetMapsStats),
   ([.reset, .map, .stats], true, .cliResetMapStats), ([.add, .path], true, .cliAddPath),
   ([.del, .path], true, .cliDelPath), ([.add, .map], true, .cliAddMap),
   ([.del, .map], true, .cliDelMap), ([.del, .maps], true, .cliDelMaps),
   ([.switch, .map, .group], true, .cliSwitchGroup), ([.reconfigure], false, .cliReconfigure),
   ([.suspend, .map], true, .cliSuspend), ([.resume, .map], true, .cliResume),
   ([.resize, .map], true, .cliResize), ([.reload, .map], true, .cliReload),
   ([.reset, .map], true, .cliReassign), ([.reinstate, .path], true, .cliReinstate),
   ([.fail, .path], true, .cliFail), ([.disableq, .map], true, .cliDisableQueueing),
   ([.restoreq, .map], true, .cliRestoreQueueing),
   ([.disableq, .maps], true, .cliDisableAllQueueing),
   ([.restoreq, .maps], true, .cliRestoreAllQueueing), ([.quit], false, .cliQuit),
   ([.shutdown], false, .cliShutdown), ([.getprstatus, .map], true, .cliGetprstatus),
   ([.setprstatus, .map], true, .cliSetprstatus),
   ([.unsetprstatus, .map], true, .cliUnsetprstatus),
   ([.forceq, .daemon], true, .cliForceNoDaemonQ),
   ([.restoreq, .daemon], true, .cliRestoreNoDaemonQ), ([.getprkey, .map], true, .cliGetprkey),
   ([.setprkey, .map, .key], true, .cliSetprkey), ([.unsetprkey, .map], true, .cliUnsetprkey),
   ([.setmarginal, .path], true, .cliSetMarginal),
   ([.unsetmarginal, .path], true, .cliUnsetMarginal),
   ([.unsetmarginal, .map], true, .cliUnsetAllMarginal)]

/-- The handlers that the daemon serves its clients with. -/
def handlers : List Handler :=
  callbacks.foldl (fun hs c => setHandlerCallback (fingerprint c.1) c.2.1 c.2.2 hs) cliInit

/-- What `parse_cmd` does with a command: it replies with the help text for an error, or it
executes a handler. -/
inductive CmdResult where
  | genhelp (error : CmdError)
  | exec (h : Handler) (fn : CliFn) (cmdvec : List CmdKey)
  deriving DecidableEq, Repr

def parseCmd (cmd : CStr) : CmdResult :=
  match getCmdvec cmd with
  | .error r => .genhelp r
  | .ok cmdvec =>
    match findHandler handlers (fingerprint (cmdvec.map CmdKey.code)) with
    | none => .genhelp .einval
    | some h =>
      match h.fn with
      | none => .genhelp .einval
      | some fn => .exec h fn cmdvec

/-- `_MAX_CMD_LEN`: a client's packet is not longer, and its last byte is set to NUL. -/
def maxCmdLen : ℕ := 512

inductive TriggerResult where
  | deny (reply : CStr)
  | cmd (result : CmdResult)
  deriving DecidableEq, Repr

def uxsockTrigger (str : CStr) (isRoot : Bool) : TriggerResult :=
  if isRoot = false ∧ !strncmpEq str "list".toList 4 ∧ !strncmpEq str "show".toList 4 then
    .deny "permission deny: need to be root".toList
  else .cmd (parseCmd str)

end MultipathTools.Cli
