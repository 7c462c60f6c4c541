import Mathlib.Data.List.FinRange
import Mathlib.Logic.Function.Basic
import MultipathTools.Dict.Keywords
import MultipathTools.Parser.Stream

/-! The configuration as a whole: the keywords of all sections with their handlers (`init_keywords` of
`dict.c`), and how it is printed (`snprint_config` of `print.c`, with buffers that are large enough). -/
namespace MultipathTools.Dict
open MultipathTools.Parser

/-- The values of the options of a section. -/
def Options (ks : List Keyword) : Type := (i : Fin ks.length) → (ks.get i).family.Val

/-- The value of an option in memory that is filled with zeros. -/
def Family.unset : (f : Family) → f.Val
  | .int _ _ => (0 : ℤ)
  | .uint _ => (0 : BitVec 32)
  | .str _ => (none : Option CStr)
  | .partitionDelim => (none : Option CStr)
  | .configDir => (none : Option CStr)
  | .uidAttrs => ([] : List CStr)
  | .mode => (none : Option (BitVec 32))
  | .uid => (none : Option (BitVec 32))
  | .gid => (none : Option (BitVec 32))
  | .maxFds => (0 : ℤ)
  | .reservationKey => ({} : ReservationKey)
  | .ble => (⟨[], false⟩ : Blentry)
  | .disableChangedWwids => ()
  | .deprecated => ()

namespace Options
variable {ks : List Keyword}

/-- `alloc_hwe` and `alloc_mpe` -/
def unset : Options ks := fun i => (ks.get i).family.unset

/-- What a handler stores, if it stores something. -/
def store (i : Fin ks.length) (v : Option (ks.get i).family.Val) (o : Options ks) : Options ks :=
  match v with
  | none => o
  | some v => Function.update o i v

end Options

/-- `struct blentry_device`, without the compiled expressions. -/
structure BlentryDevice where
  vendor : Option Blentry := none
  product : Option Blentry := none

/-- The entries of `blacklist`, or those of `blacklist_exceptions`. -/
structure Rules where
  devnode : List Blentry := []
  wwid : List Blentry := []
  property : List Blentry := []
  protocol : List Blentry := []
  device : List BlentryDevice := []

/-- `struct config`, as far as it is read from a file and printed. -/
structure Configuration where
  defaults : Options defaultsKeywords
  blacklist : Rules := {}
  exceptions : Rules := {}
  hwtable : List (Options deviceKeywords) := []
  overrides : Option (Options overridesKeywords) := none
  mptable : List (Options multipathKeywords) := []

/-- The record that the options of a section are written to, if there is one. -/
structure Record (ks : List Keyword) where
  get : Configuration → Option (Options ks)
  set : Options ks → Configuration → Configuration
  get_set : ∀ o c, get (set o c) = some o
  set_set : ∀ o o' c, set o (set o' c) = set o c
  set_get : ∀ o c, get c = some o → set o c = c

namespace Record

def defaults : Record defaultsKeywords where
  get c := some c.defaults
  set o c := { c with defaults := o }
  get_set _ _ := rfl
  set_set _ _ _ := rfl
  set_get _ _ h := by cases h; rfl

/-- `VECTOR_LAST_SLOT(conf->hwtable)` -/
def hwentry : Record deviceKeywords where
  get c := c.hwtable.getLast?
  set o c := { c with hwtable := c.hwtable.dropLast ++ [o] }
  get_set _ _ := List.getLast?_concat
  set_set _ _ _ := by simp
  set_get _ c h := by rw [List.dropLast_append_getLast? _ h]

def overrides : Record overridesKeywords where
  get c := c.overrides
  set o c := { c with overrides := some o }
  get_set _ _ := rfl
  set_set _ _ _ := rfl
  set_get _ _ h := by rw [← h]

/-- `VECTOR_LAST_SLOT(conf->mptable)` -/
def mpentry : Record multipathKeywords where
  get c := c.mptable.getLast?
  set o c := { c with mptable := c.mptable.dropLast ++ [o] }
  get_set _ _ := List.getLast?_concat
  set_set _ _ _ := by simp
  set_get _ c h := by rw [List.dropLast_append_getLast? _ h]

end Record

section Handlers
variable (env : Env)

/-- The handlers that `declare_def_handler`, `declare_hw_handler`, `declare_ovr_handler` and
`declare_mp_handler` declare. -/
def optionKeyword {ks : List Keyword} (record : Record ks) (i : Fin ks.length) :
    KeywordTree Configuration where
  string := (ks.get i).string
  unique := true
  handler := some fun strvec conf =>
    match record.get conf with
    | none => (1, conf, [])
    | some o =>
      let r := (ks.get i).family.handler env strvec
      (r.rc, record.set (o.store i r.stored) conf, r.log)
  sub := none

/-- The keywords of a section. Those that set the option of another keyword are not printed. -/
def sectionKeywords {ks : List Keyword} (record : Record ks) (others : List (CStr × CStr)) :
    List (KeywordTree Configuration) :=
  (List.finRange ks.length).map (optionKeyword env record) ++
    others.filterMap fun other =>
      ((List.finRange ks.length).find? fun i => decide ((ks.get i).string = other.2)).map fun i =>
        { optionKeyword env record i with string := other.1 }

/-- Where the entries of a blacklist are. -/
structure RulesAt where
  get : Configuration → Rules
  set : Rules → Configuration → Configuration
  get_set : ∀ rules c, get (set rules c) = rules
  set_set : ∀ rules rules' c, set rules (set rules' c) = set rules c
  set_get : ∀ c, set (get c) c = c

def RulesAt.blacklist : RulesAt where
  get c := c.blacklist
  set rules c := { c with blacklist := rules }
  get_set _ _ := rfl
  set_set _ _ _ := rfl
  set_get _ := rfl

def RulesAt.exceptions : RulesAt where
  get c := c.exceptions
  set rules c := { c with exceptions := rules }
  get_set _ _ := rfl
  set_set _ _ _ := rfl
  set_get _ := rfl

def RulesAt.modify (place : RulesAt) (f : Rules → Rules) (c : Configuration) : Configuration :=
  place.set (f (place.get c)) c

/-- The handlers that `declare_ble_handler` declares. `add` appends an entry. -/
def bleKeyword (place : RulesAt) (string : CStr) (add : Blentry → Rules → Rules) :
    KeywordTree Configuration where
  string := string
  unique := false
  handler := some fun strvec conf =>
    let r := bleHandler env strvec
    (r.rc, (r.stored.map fun ble => place.modify (add ble) conf).getD conf, r.log)
  sub := none

/-- The handlers that `declare_ble_device_handler` declares. `change` sets the vendor or the product. -/
def bleDeviceKeyword (place : RulesAt) (string : CStr)
    (change : Blentry → BlentryDevice → BlentryDevice) : KeywordTree Configuration where
  string := string
  unique := true
  handler := some fun strvec conf =>
    match setValue strvec with
    | .error message => (1, conf, [message])
    | .ok buff =>
      match (place.get conf).device.getLast? with
      | none => (1, conf, [])
      | some ble =>
        let r := storeBle env buff
        (r.rc, (r.stored.map fun b => place.modify (fun rules =>
          { rules with device := rules.device.dropLast ++ [change b ble] }) conf).getD conf, r.log)
  sub := none

/-- The keywords of `blacklist`, or those of `blacklist_exceptions`. -/
def rulesKeywords (place : RulesAt) : List (KeywordTree Configuration) :=
  [bleKeyword env place "devnode".toList fun ble r => { r with devnode := r.devnode ++ [ble] },
    bleKeyword env place "wwid".toList fun ble r => { r with wwid := r.wwid ++ [ble] },
    bleKeyword env place "property".toList fun ble r => { r with property := r.property ++ [ble] },
    bleKeyword env place "protocol".toList fun ble r => { r with protocol := r.protocol ++ [ble] },
    { string := "device".toList
      unique := false
      handler := some fun _ conf =>
        (0, place.modify (fun r => { r with device := r.device ++ [{}] }) conf, [])
      sub := some
        [bleDeviceKeyword env place "vendor".toList fun b ble => { ble with vendor := some b },
          bleDeviceKeyword env place "product".toList fun b ble => { ble with product := some b }] }]

/-- `overrides_handler` -/
def overridesHandler (conf : Configuration) : Configuration :=
  { conf with overrides := some (conf.overrides.getD .unset) }

/-- `device_handler` -/
def deviceHandler (conf : Configuration) : Configuration :=
  { conf with hwtable := conf.hwtable ++ [.unset] }

/-- `multipath_handler` -/
def multipathHandler (conf : Configuration) : Configuration :=
  { conf with mptable := conf.mptable ++ [.unset] }

/-- A keyword that begins a section. -/
def sectionKeyword (string : String) (unique : Bool) (change : Configuration → Configuration)
    (sub : List (KeywordTree Configuration)) : KeywordTree Configuration where
  string := string.toList
  unique := unique
  handler := some fun _ conf => (0, change conf, [])
  sub := some sub

/-- The handlers of the sections that only allocate their vectors, which the lists here do not need. -/
def allocHandler (conf : Configuration) : Configuration := conf

/-- The keywords that set what `path_checker` sets. -/
def checkerKeywords : List (CStr × CStr) := [("checker".toList, "path_checker".toList)]

/-- The deprecated keywords of `defaults`. -/
def defaultKeywords : List (CStr × CStr) :=
  [("default_selector".toList, "path_selector".toList),
    ("default_path_grouping_policy".toList, "path_grouping_policy".toList),
    ("default_uid_attribute".toList, "uid_attribute".toList),
    ("default_getuid_callout".toList, "getuid_callout".toList),
    ("default_features".toList, "features".toList),
    ("default_path_checker".toList, "path_checker".toList)]

/-- `init_keywords` -/
def initKeywords : List (KeywordTree Configuration) :=
  [{ string := "defaults".toList
     unique := true
     handler := none
     sub := some (sectionKeywords env .defaults (checkerKeywords ++ defaultKeywords)) },
    sectionKeyword "blacklist" true allocHandler (rulesKeywords env .blacklist),
    sectionKeyword "blacklist_exceptions" true allocHandler (rulesKeywords env .exceptions),
    sectionKeyword "devices" true allocHandler
      [sectionKeyword "device" false deviceHandler (sectionKeywords env .hwentry checkerKeywords)],
    sectionKeyword "overrides" true overridesHandler (sectionKeywords env .overrides checkerKeywords),
    sectionKeyword "multipaths" true allocHandler
      [sectionKeyword "multipath" false multipathHandler (sectionKeywords env .mpentry [])]]

end Handlers

section Print
variable (env : Env)

/-- The lines of the options of a section, without the line breaks. -/
def optionLines {ks : List Keyword} (level : ℕ) (o : Options ks) : List CStr :=
  (List.finRange ks.length).filterMap fun i =>
    (((ks.get i).family.print env (o i)).map fun text =>
      List.replicate level '\t' ++ ((ks.get i).string ++ ' ' :: text))

/-- A section: `name {`, its lines, and `}`. -/
def sectionLines (level : ℕ) (name : String) (body : List CStr) : List CStr :=
  (List.replicate level '\t' ++ (name.toList ++ " \x7b".toList)) ::
    (body ++ [List.replicate level '\t' ++ ['}']])

/-- `snprint_defaults` -/
def snprintDefaults (conf : Configuration) : List CStr :=
  sectionLines 0 "defaults" (optionLines env 1 conf.defaults)

def bleLine (level : ℕ) (string : String) (ble : Blentry) : CStr :=
  List.replicate level '\t' ++ (string.toList ++ ' ' :: inQuotes ble.str)

/-- A string that is NULL is printed as `(null)`. -/
def printedStr (ble : Option Blentry) : Blentry := ble.getD ⟨"(null)".toList, false⟩

/-- `snprint_blacklist` and `snprint_blacklist_except` -/
def snprintBlacklist (name : String) (rules : Rules) : List CStr :=
  sectionLines 0 name <|
    rules.devnode.map (bleLine 1 "devnode") ++ rules.wwid.map (bleLine 1 "wwid") ++
    rules.property.map (bleLine 1 "property") ++ rules.protocol.map (bleLine 1 "protocol") ++
    rules.device.flatMap fun bled => sectionLines 1 "device"
      [bleLine 2 "vendor" (printedStr bled.vendor), bleLine 2 "product" (printedStr bled.product)]

/-- `snprint_hwtable` -/
def snprintHwtable (hwtable : List (Options deviceKeywords)) : List CStr :=
  sectionLines 0 "devices" (hwtable.flatMap fun hwe => sectionLines 1 "device" (optionLines env 2 hwe))

/-- `snprint_overrides` -/
def snprintOverrides (overrides : Option (Options overridesKeywords)) : List CStr :=
  sectionLines 0 "overrides" ((overrides.map (optionLines env 1)).getD [])

/-- The WWID and the alias of a map. -/
structure Mpp where
  wwid : CStr
  aliasName : CStr

/-- `WWID_SIZE` -/
def wwidSize : ℕ := 128

/-- `mpe->wwid` -/
def mpeWwid (mpe : Options multipathKeywords) : Option CStr :=
  mpe (⟨0, by decide⟩ : Fin multipathKeywords.length)

/-- `find_mp_by_wwid`. Each entry of the table has a WWID. -/
def findMpByWwid (mpvec : List Mpp) (wwid : Option CStr) : Option Mpp :=
  mpvec.find? fun mpp => strncmpEq mpp.wwid (wwid.getD []) wwidSize

/-- `find_mpe` -/
def findMpe (mptable : List (Options multipathKeywords)) (wwid : CStr) :
    Option (Options multipathKeywords) :=
  mptable.find? fun mpe => decide (mpeWwid mpe = some wwid)

/-- The alias of a map, as a comment. -/
def aliasComment (mpp : Mpp) : List CStr :=
  if mpp.aliasName ≠ mpp.wwid then ["\t\t# alias ".toList ++ inQuotes mpp.aliasName] else []

/-- `snprint_mpentry` -/
def snprintMpentry (mpe : Options multipathKeywords) (mpvec : Option (List Mpp)) : List CStr :=
  match mpvec with
  | none => sectionLines 1 "multipath" (optionLines env 2 mpe)
  | some mpvec =>
    match findMpByWwid mpvec (mpeWwid mpe) with
    | none => []
    | some mpp => sectionLines 1 "multipath" (optionLines env 2 mpe ++ aliasComment mpp)

/-- A map in `snprint_mptable` that is not in the table. -/
def snprintMpp (mptable : List (Options multipathKeywords)) (mpp : Mpp) : List CStr :=
  if (findMpe mptable mpp.wwid).isSome then []
  else sectionLines 1 "multipath" (("\t\twwid ".toList ++ inQuotes mpp.wwid) :: aliasComment mpp)

/-- `snprint_mptable` -/
def snprintMptable (mptable : List (Options multipathKeywords)) (mpvec : Option (List Mpp)) :
    List CStr :=
  sectionLines 0 "multipaths" <|
    (mptable.flatMap fun mpe => snprintMpentry env mpe mpvec) ++
      (mpvec.getD []).flatMap (snprintMpp mptable)

/-- The lines of `snprint_config`. -/
def configLines (conf : Configuration) (hwtable : Option (List (Options deviceKeywords)))
    (mpvec : Option (List Mpp)) : List CStr :=
  snprintDefaults env conf ++ snprintBlacklist "blacklist" conf.blacklist ++
    snprintBlacklist "blacklist_exceptions" conf.exceptions ++
    snprintHwtable env (hwtable.getD conf.hwtable) ++ snprintOverrides env conf.overrides ++
    if conf.mptable ≠ [] ∨ mpvec.getD [] ≠ [] then snprintMptable env conf.mptable mpvec else []

/-- `snprint_config` -/
def snprintConfig (conf : Configuration) (hwtable : Option (List (Options deviceKeywords)))
    (mpvec : Option (List Mpp)) : CStr :=
  (configLines env conf hwtable mpvec).flatMap (· ++ ['\n'])

end Print

end MultipathTools.Dict
