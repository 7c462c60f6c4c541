import MultipathTools.Base.Json
import MultipathTools.Dmparser.Status
import MultipathTools.Print.Blacklist
import MultipathTools.Print.Format
import MultipathTools.Print.Progress
import MultipathTools.Structs

/-! The JSON output of the topology (`print.c`, `print.h`). -/
namespace MultipathTools.Print
open Dmparser (PState PgState)
open Json (IsPlain IsNumber)

section Records

/-- The members of `struct path` that the JSON output prints, and what sysfs says of the path. -/
structure JsonPath where
  dev : CStr := []
  devT : CStr := []
  vendorId : CStr := []
  productId : CStr := []
  rev : CStr := []
  tgtNodeName : CStr := []
  /-- `mpp` is not NULL. -/
  hasMpp : Bool := true
  offline : Bool := false
  state : PathState := .wild
  dmstate : PState := .undef
  checkerName : Option CStr := none
  priority : BitVec 32 := 0
  /-- `sg_id.proto_id` is `SCSI_PROTOCOL_FCP`. -/
  fcp : Bool := false
  hostNodeName : Option CStr := none
  hostPortName : Option CStr := none
  rportPortName : Option CStr := none
  hostAdapter : Option CStr := none
  marginal : Bool := false
  /-- What is printed for the wildcards that the output does not use. -/
  other : Char → CStr := fun _ => []

structure JsonPathgroup where
  /-- `mpp->selector` -/
  selector : Option CStr := none
  priority : BitVec 32 := 0
  status : PgState := .undef
  marginal : Bool := false
  paths : List JsonPath := []

structure DmInfo where
  minor : BitVec 32
  readOnly : Bool
  suspended : Bool

/-- The members of `struct multipath` that the JSON output prints. The counter for a failback starts
one above the configured time. -/
structure JsonMultipath where
  aliasName : Option CStr := none
  wwid : CStr := []
  dmi : Option DmInfo := none
  pgfailback : BitVec 32 := 0
  failbackTick : BitVec 32 := 0
  failback_le : 0 < pgfailback.toInt →
    0 ≤ failbackTick.toInt ∧ failbackTick.toInt ≤ pgfailback.toInt + 1 := by decide
  noPathRetry : BitVec 32 := 0
  retryTick : BitVec 32 := 0
  features : Option CStr := none
  hwhandler : Option CStr := none
  action : Action := .undef
  statPathFailures : BitVec 32 := 0
  statSwitchgroup : BitVec 32 := 0
  statMapLoads : BitVec 32 := 0
  statTotalQueueingTime : BitVec 32 := 0
  statQueueingTimeouts : BitVec 32 := 0
  pg : List JsonPathgroup := []
  other : Char → CStr := fun _ => []

end Records

section Fields

def snprintInt (val : BitVec 32) : CStr := itoa val.toInt

def snprintUint (val : BitVec 32) : CStr := utoa 10 val

variable (mpp : JsonMultipath)

def snprintName : CStr := mpp.aliasName.getD mpp.wwid

def snprintSysfs : CStr :=
  match mpp.dmi with
  | some dmi => "dm-".toList ++ snprintInt dmi.minor
  | none => "undef".toList

def snprintRo : CStr :=
  match mpp.dmi with
  | some dmi => if dmi.readOnly then "ro".toList else "rw".toList
  | none => "undef".toList

/-- The bar of `snprint_progress`. -/
def barText (cur total : ℤ) : CStr :=
  if total > 0 then
    List.replicate (progressDone cur total).toNat 'X' ++
      List.replicate (progressLeft cur total).toNat '.'
  else []

/-- What `snprint_progress` prints. -/
def progressLine (cur total : ℤ) : CStr := barText cur total ++ progressText cur total

def failbackImmediate : ℤ := 2
def failbackFollowover : ℤ := 3

def snprintFailback : CStr :=
  if mpp.pgfailback.toInt = -failbackImmediate then "immediate".toList
  else if mpp.pgfailback.toInt = -failbackFollowover then "followover".toList
  else if mpp.failbackTick = 0 then "-".toList
  else progressLine mpp.failbackTick.toInt mpp.pgfailback.toInt

/-- `count_active_paths` -/
def countActivePaths : BitVec 32 :=
  BitVec.ofNat 32 ((mpp.pg.flatMap (·.paths)).countP fun pp => pp.state = .up ∨ pp.state = .ghost)

/-- `snprint_queueing`. For other negative values nothing is printed. -/
def snprintQueueing : CStr :=
  if mpp.noPathRetry.toInt = noPathRetryFail then "off".toList
  else if mpp.noPathRetry.toInt = noPathRetryQueue then "on".toList
  else if mpp.noPathRetry.toInt = noPathRetryUndef then "-".toList
  else if mpp.noPathRetry.toInt > 0 then
    if mpp.retryTick.toInt > 0 then snprintInt mpp.retryTick ++ " sec".toList
    else if mpp.retryTick = 0 ∧ (countActivePaths mpp).toInt > 0 then
      snprintInt mpp.noPathRetry ++ " chk".toList
    else "off".toList
  else []

def snprintNbPaths : CStr := snprintInt (countActivePaths mpp)

def snprintDmMapState : CStr :=
  if mpp.dmi.any (·.suspended) then "suspend".toList else "active".toList

/-- The first of the paths of a map for which a member is not empty. -/
def firstOf (member : JsonPath → CStr) : CStr :=
  ((mpp.pg.flatMap (·.paths)).find? (member · ≠ [])).elim "##".toList member

def snprintMultipathVend : CStr := firstOf mpp (·.vendorId)

def snprintMultipathProd : CStr := firstOf mpp (·.productId)

def snprintMultipathRev : CStr := firstOf mpp (·.rev)

/-- `snprint_action`. For other actions nothing is printed. -/
def snprintAction : CStr :=
  match mpp.action with
  | .reject => "reject".toList
  | .rename => "rename".toList
  | .reload => "reload".toList
  | .create => "create".toList
  | .switchpg => "switchpg".toList
  | _ => []

/-- What the print functions of `mpd` print. -/
def JsonMultipath.fields : List (Char × CStr) :=
  [('n', snprintName mpp), ('w', mpp.wwid), ('d', snprintSysfs mpp), ('F', snprintFailback mpp),
    ('Q', snprintQueueing mpp), ('N', snprintNbPaths mpp), ('r', snprintRo mpp),
    ('t', snprintDmMapState mpp), ('f', formatStr mpp.features), ('h', formatStr mpp.hwhandler),
    ('A', snprintAction mpp),
    ('0', snprintUint mpp.statPathFailures), ('1', snprintUint mpp.statSwitchgroup),
    ('2', snprintUint mpp.statMapLoads), ('3', snprintUint mpp.statTotalQueueingTime),
    ('4', snprintUint mpp.statQueueingTimeouts), ('v', snprintMultipathVend mpp),
    ('p', snprintMultipathProd mpp), ('e', snprintMultipathRev mpp)]

def JsonMultipath.field (wildcard : Char) : CStr :=
  (mpp.fields.lookup wildcard).getD (mpp.other wildcard)

variable (pgp : JsonPathgroup)

def snprintPgState : CStr :=
  match pgp.status with
  | .enabled => "enabled".toList
  | .disabled => "disabled".toList
  | .active => "active".toList
  | .undef => "undef".toList

def snprintMarginal (marginal : Bool) : CStr :=
  if marginal then "marginal".toList else "normal".toList

/-- What the print functions of `pgd` print. -/
def JsonPathgroup.fields : List (Char × CStr) :=
  [('s', pgp.selector.getD []), ('p', snprintInt pgp.priority), ('t', snprintPgState pgp),
    ('M', snprintMarginal pgp.marginal)]

def JsonPathgroup.field (wildcard : Char) : CStr := (pgp.fields.lookup wildcard).getD []

variable (pp : JsonPath)

def snprintDev : CStr := if pp.dev = [] then "-".toList else pp.dev

def snprintDevT : CStr := if pp.dev = [] then "#:#".toList else pp.devT

def snprintOffline : CStr :=
  if ¬ pp.hasMpp then "unknown".toList
  else if pp.offline then "offline".toList
  else "running".toList

def snprintChkState : CStr :=
  if ¬ pp.hasMpp then "undef".toList
  else
    match pp.state with
    | .up => "ready".toList
    | .down => "faulty".toList
    | .shaky => "shaky".toList
    | .ghost => "ghost".toList
    | .pending => "i/o pending".toList
    | .timeout => "i/o timeout".toList
    | .delayed => "delayed".toList
    | _ => "undef".toList

def snprintDmPathState : CStr :=
  match pp.dmstate with
  | .active => "active".toList
  | .failed => "failed".toList
  | .undef => "undef".toList

/-- `snprint_host_attr` and `snprint_tgt_wwpn`, for the value of an attribute. -/
def snprintFcAttr (value : Option CStr) : CStr :=
  if pp.fcp then value.getD "[unknown]".toList else "[undef]".toList

def snprintTgtWwnn : CStr := if pp.tgtNodeName = [] then "[undef]".toList else pp.tgtNodeName

/-- What the print functions of `pd` print. -/
def JsonPath.fields : List (Char × CStr) :=
  [('d', snprintDev pp), ('D', snprintDevT pp), ('t', snprintDmPathState pp), ('o', snprintOffline pp),
    ('T', snprintChkState pp), ('c', formatStr pp.checkerName), ('p', snprintInt pp.priority),
    ('N', snprintFcAttr pp pp.hostNodeName), ('n', snprintTgtWwnn pp),
    ('R', snprintFcAttr pp pp.hostPortName), ('r', snprintFcAttr pp pp.rportPortName),
    ('a', pp.hostAdapter.getD "[undef]".toList),
    ('M', snprintMarginal pp.marginal)]

def JsonPath.field (wildcard : Char) : CStr := (pp.fields.lookup wildcard).getD (pp.other wildcard)

end Fields

section Formats

/-- `mpd` -/
def mpd : List PathData :=
  [⟨'n', "name".toList, 0⟩, ⟨'w', "uuid".toList, 0⟩, ⟨'d', "sysfs".toList, 0⟩,
    ⟨'F', "failback".toList, 0⟩, ⟨'Q', "queueing".toList, 0⟩, ⟨'N', "paths".toList, 0⟩,
    ⟨'r', "write_prot".toList, 0⟩, ⟨'t', "dm-st".toList, 0⟩, ⟨'S', "size".toList, 0⟩,
    ⟨'f', "features".toList, 0⟩, ⟨'x', "failures".toList, 0⟩, ⟨'h', "hwhandler".toList, 0⟩,
    ⟨'A', "action".toList, 0⟩, ⟨'0', "path_faults".toList, 0⟩, ⟨'1', "switch_grp".toList, 0⟩,
    ⟨'2', "map_loads".toList, 0⟩, ⟨'3', "total_q_time".toList, 0⟩, ⟨'4', "q_timeouts".toList, 0⟩,
    ⟨'s', "vend/prod/rev".toList, 0⟩, ⟨'v', "vend".toList, 0⟩, ⟨'p', "prod".toList, 0⟩,
    ⟨'e', "rev".toList, 0⟩, ⟨'G', "foreign".toList, 0⟩, ⟨'g', "vpd page data".toList, 0⟩]

/-- `pgd`. The widths are never set. -/
def pgd : List PathData :=
  [⟨'s', "selector".toList, 0⟩, ⟨'p', "pri".toList, 0⟩, ⟨'t', "dm_st".toList, 0⟩,
    ⟨'M', "marginal_st".toList, 0⟩]

def printJsonStartVersion : CStr := "   \"major_version\": 0,\n   \"minor_version\": 1,\n".toList
def printJsonStartElem : CStr := "\x7b\n".toList
def printJsonStartMaps : CStr := "\"maps\": [".toList
def printJsonStartPaths : CStr := "\"paths\": [".toList
def printJsonStartGroups : CStr := "\"path_groups\": [".toList
def printJsonEndElem : CStr := "\x7d,".toList
def printJsonEndLastElem : CStr := "\x7d".toList
def printJsonEndLast : CStr := "\x7d\n".toList
def printJsonEndArray : CStr := "]\n".toList
def printJsonIndent : CStr := "   ".toList

def printJsonMap : CStr :=
  ["\x7b\n",
    "      \"name\" : \"%n\",\n",
    "      \"uuid\" : \"%w\",\n",
    "      \"sysfs\" : \"%d\",\n",
    "      \"failback\" : \"%F\",\n",
    "      \"queueing\" : \"%Q\",\n",
    "      \"paths\" : %N,\n",
    "      \"write_prot\" : \"%r\",\n",
    "      \"dm_st\" : \"%t\",\n",
    "      \"features\" : \"%f\",\n",
    "      \"hwhandler\" : \"%h\",\n",
    "      \"action\" : \"%A\",\n",
    "      \"path_faults\" : %0,\n",
    "      \"vend\" : \"%v\",\n",
    "      \"prod\" : \"%p\",\n",
    "      \"rev\" : \"%e\",\n",
    "      \"switch_grp\" : %1,\n",
    "      \"map_loads\" : %2,\n",
    "      \"total_q_time\" : %3,\n",
    "      \"q_timeouts\" : %4,"].flatMap String.toList

def printJsonGroup : CStr :=
  ["\x7b\n",
    "         \"selector\" : \"%s\",\n",
    "         \"pri\" : %p,\n",
    "         \"dm_st\" : \"%t\",\n",
    "         \"marginal_st\" : \"%M\","].flatMap String.toList

/-- `PRINT_JSON_GROUP_NUM`, for a number. -/
def printJsonGroupNum (n : ℕ) : CStr := "         \"group\" : ".toList ++ itoa n ++ ",\n".toList

def printJsonPath : CStr :=
  ["\x7b\n",
    "            \"dev\" : \"%d\",\n",
    "            \"dev_t\" : \"%D\",\n",
    "            \"dm_st\" : \"%t\",\n",
    "            \"dev_st\" : \"%o\",\n",
    "            \"chk_st\" : \"%T\",\n",
    "            \"checker\" : \"%c\",\n",
    "            \"pri\" : %p,\n",
    "            \"host_wwnn\" : \"%N\",\n",
    "            \"target_wwnn\" : \"%n\",\n",
    "            \"host_wwpn\" : \"%R\",\n",
    "            \"target_wwpn\" : \"%r\",\n",
    "            \"host_adapter\" : \"%a\",\n",
    "            \"marginal_st\" : \"%M\""].flatMap String.toList

end Formats

section Steps

/-- A statement that prints from the position `fwd` on, and sets the next one. -/
abbrev Step := List Char → ℕ → Outcome (List Char × ℕ)

variable (len : ℕ)

/-- `fwd += ...; if (fwd >= len) return fwd;` for each of these statements. -/
def inOrder : List Step → Step
  | [], buff, fwd => .done (buff, fwd)
  | s :: ss, buff, fwd =>
    (s buff fwd).bind fun (buff, fwd) =>
      if len ≤ fwd then .done (buff, fwd) else inOrder ss buff fwd

/-- `fwd += snprintf(buff + fwd, len - fwd, ...)` -/
def printText (text : CStr) : Step := fun buff fwd => printAt len buff fwd text

/-- A field in its buffer of `MAX_FIELD_LEN` bytes. -/
def fieldText (field : Char → CStr) (data : PathData) : CStr :=
  (field data.wildcard).take (maxFieldLen - 1)

/-- A line by a format. -/
def printLine (layout : List PathData) (field : Char → CStr) (pad : Bool) (format : CStr) : Step :=
  fun buff fwd =>
    (snprintFormat layout (fieldText field) pad fwd (len - fwd) format buff).bind fun (buff, n) =>
      .done (buff, fwd + n)

def snprintMultipath (format : CStr) (mpp : JsonMultipath) : Step :=
  printLine len mpd mpp.field false format

def snprintPathgroup (format : CStr) (pgp : JsonPathgroup) : Step :=
  printLine len pgd pgp.field true format

def snprintJsonPath (format : CStr) (pp : JsonPath) : Step := printLine len pd pp.field false format

def snprintJson (indent : ℕ) (jsonStr : CStr) : Step :=
  inOrder len (List.replicate indent (printText len printJsonIndent) ++ [printText len jsonStr])

def snprintJsonHeader : Step :=
  inOrder len [snprintJson len 0 printJsonStartElem, printText len printJsonStartVersion]

def snprintJsonElemFooter (indent : ℕ) (last : Bool) : Step :=
  inOrder len (List.replicate indent (printText len printJsonIndent) ++
    [printText len (if last then printJsonEndLastElem else printJsonEndElem)])

/-- The statements for the paths of a group. -/
def pathSteps : List JsonPath → List Step
  | [] => []
  | pp :: paths =>
    [snprintJsonPath len printJsonPath pp, snprintJsonElemFooter len 3 paths.isEmpty] ++
      pathSteps paths

/-- The statements for the groups of a map, from the `i`-th on. -/
def groupSteps : ℕ → List JsonPathgroup → List Step
  | _, [] => []
  | i, pgp :: pg =>
    [snprintPathgroup len printJsonGroup pgp, printText len (printJsonGroupNum (i + 1)),
      snprintJson len 3 printJsonStartPaths] ++ pathSteps len pgp.paths ++
    [snprintJson len 0 printJsonEndArray, snprintJsonElemFooter len 2 pg.isEmpty] ++
    groupSteps (i + 1) pg

def snprintMultipathFieldsJson (mpp : JsonMultipath) (last : Bool) : Step :=
  inOrder len ([snprintMultipath len printJsonMap mpp, snprintJson len 2 printJsonStartGroups] ++
    groupSteps len 0 mpp.pg ++
    [snprintJson len 0 printJsonEndArray, snprintJsonElemFooter len 1 last])

/-- The statements for the maps. -/
def mapSteps : List JsonMultipath → List Step
  | [] => []
  | mpp :: mpvec => snprintMultipathFieldsJson len mpp mpvec.isEmpty :: mapSteps mpvec

/-- `snprint_multipath_topology_json`: the buffer, and what is returned. -/
def snprintMultipathTopologyJson (mpvec : List JsonMultipath) (buff : List Char) :
    Outcome (List Char × ℕ) :=
  (inOrder len ([snprintJsonHeader len, snprintJson len 1 printJsonStartMaps] ++ mapSteps len mpvec ++
    [snprintJson len 0 printJsonEndArray, snprintJson len 0 printJsonEndLast]) buff 0).bind
      fun (buff, fwd) => .done (buff, if len ≤ fwd then len else fwd)

end Steps

section Progress

variable {buff out : List Char} {i : ℕ} {ch : Char} {cur total : ℤ}

theorem progressLoop_writes (hout : out <+: buff) (hroom : out.length + i + 2 ≤ buff.length) :
    ∃ buff', progressLoop buff.length ch i buff out.length = .done (buff', out.length + i, true) ∧
      buff'.length = buff.length ∧ out ++ List.replicate i ch <+: buff' := by
  induction i generalizing buff out with
  | zero => exact ⟨buff, rfl, rfl, by rwa [List.replicate_zero, List.append_nil]⟩
  | succ i ih =>
    obtain ⟨buff', hprint, hlen, hout'⟩ := @snprintf_behind buff out (buff.length - out.length) [ch]
      hout (by omega) (by omega)
    have hone : [ch].take (buff.length - out.length - 1) = [ch] :=
      List.take_of_length_le (by rw [List.length_singleton]; omega)
    rw [hone] at hout'
    have hpos : out.length + [ch].length = (out ++ [ch]).length := by simp
    obtain ⟨buff'', hrest, hlen', hout''⟩ := ih ((List.prefix_append _ _).trans hout')
      (by rw [← hpos, hlen, List.length_singleton]; omega)
    rw [progressLoop, hprint, Outcome.bind_done]
    dsimp only
    rw [if_neg (by rw [List.length_singleton]; omega), hpos, ← hlen, hrest]
    refine ⟨buff'', ?_, hlen', ?_⟩
    · rw [List.length_append, List.length_singleton, Nat.add_assoc, Nat.add_comm 1 i]
    · rwa [List.append_assoc, List.singleton_append, ← List.replicate_succ] at hout''

theorem length_barText (cur total : ℤ) : (barText cur total).length = barLength cur total := by
  unfold barText barLength
  split_ifs
  · rw [List.length_append, List.length_replicate, List.length_replicate]
  · rfl

theorem progressBar_writes (hroom : (barText cur total).length + 2 ≤ buff.length) :
    ∃ buff', progressBar buff.length cur total buff = .done (buff', (barText cur total).length, true) ∧
      buff'.length = buff.length ∧ barText cur total <+: buff' := by
  unfold progressBar barText at *
  split_ifs at hroom ⊢ with hpos
  · rw [List.length_append, List.length_replicate, List.length_replicate] at *
    obtain ⟨buff1, hdone, hlen1, hout1⟩ := @progressLoop_writes buff []
      (progressDone cur total).toNat 'X' List.nil_prefix (by rw [List.length_nil]; omega)
    rw [List.length_nil, Nat.zero_add] at hdone
    obtain ⟨buff2, hleft, hlen2, hout2⟩ := @progressLoop_writes buff1 _
      (progressLeft cur total).toNat '.' hout1 (by rw [List.nil_append, List.length_replicate]; omega)
    rw [List.nil_append, List.length_replicate, hlen1] at hleft
    refine ⟨buff2, ?_, hlen2.trans hlen1, hout2⟩
    rw [hdone, Outcome.bind_done]
    exact hleft
  · exact ⟨buff, rfl, rfl, List.nil_prefix⟩

/-- The line is in a buffer that has room for it and two bytes more. -/
theorem snprintProgress_line (hroom : (progressLine cur total).length + 2 ≤ buff.length) :
    ∃ buff', snprintProgress buff cur total = .done (buff', (progressLine cur total).length + 1) ∧
      progressLine cur total ++ [nul] <+: buff' := by
  unfold progressLine at *
  rw [List.length_append] at *
  obtain ⟨buff1, hbar, hlen1, hout1⟩ := @progressBar_writes buff cur total (by omega)
  obtain ⟨buff2, hprint, hlen2, hout2⟩ := @snprintf_behind buff1 _
    (buff.length - (barText cur total).length) (progressText cur total) hout1 (by omega) (by omega)
  have htext : (progressText cur total).take (buff.length - (barText cur total).length - 1) =
      progressText cur total := List.take_of_length_le (by omega)
  rw [htext] at hout2
  -- the second NUL goes behind the first one
  have hpos : (barText cur total ++ progressText cur total ++ [nul]).length =
      (barText cur total).length + (progressText cur total).length + 1 := by
    simp only [List.length_append, List.length_singleton]
  obtain ⟨buff3, hnul, hlen3, hout3⟩ := writeAt_behind [nul] hout2
    (by rw [hpos, List.length_singleton]; omega)
  rw [hpos] at hnul
  refine ⟨buff3, ?_, (List.prefix_append _ _).trans hout3⟩
  unfold snprintProgress
  dsimp only
  rw [hbar, Outcome.bind_done]
  dsimp only
  rw [if_pos rfl, hprint, Outcome.bind_done, Outcome.bind_done]
  dsimp only
  rw [hnul, Outcome.bind_done]

end Progress
section Printable

variable {text t u : CStr}

/-- The text of a field fits in its buffer, and stands for itself in a string. -/
def IsPrintable (text : CStr) : Prop := text.length < maxFieldLen ∧ ∀ c ∈ text, IsPlain c

instance (text : CStr) : Decidable (IsPrintable text) := inferInstanceAs (Decidable (_ ∧ _))

theorem isInt_val (val : BitVec 32) : IsInt val.toInt := by
  have hlow := BitVec.le_toInt val
  have hhigh := @BitVec.toInt_lt _ val
  unfold IsInt intMin intMax
  omega

theorem length_snprintInt_le (val : BitVec 32) : (snprintInt val).length ≤ 11 :=
  length_itoa_le (isInt_val val)

theorem isPlain_snprintInt (val : BitVec 32) : ∀ c ∈ snprintInt val, IsPlain c := Json.isPlain_itoa

theorem isPlain_append (ht : ∀ c ∈ t, IsPlain c) (hu : ∀ c ∈ u, IsPlain c) : ∀ c ∈ t ++ u, IsPlain c :=
  fun c hc => (List.mem_append.1 hc).elim (ht c) (hu c)

/-- The text of a number, which fits in the buffer of a field. -/
def IsShortNumber (text : CStr) : Prop := IsNumber text ∧ text.length < maxFieldLen

theorem isShortNumber_itoa {x : ℤ} (hx : IsInt x) : IsShortNumber (itoa x) :=
  ⟨Json.isNumber_itoa x, (length_itoa_le hx).trans_lt (by decide)⟩

theorem isShortNumber_snprintInt (val : BitVec 32) : IsShortNumber (snprintInt val) :=
  isShortNumber_itoa (isInt_val val)

theorem isShortNumber_snprintUint (val : BitVec 32) : IsShortNumber (snprintUint val) :=
  ⟨Json.isNumber_toDigits val.toNat, (length_toDigits_le val.isLt).trans_lt (by decide)⟩

/-- The bar is not much longer than its ten characters. -/
theorem barLength_le {cur total : ℤ} (h0 : 0 ≤ cur) (hle : cur ≤ total + 1) (ht : 0 < total) :
    barLength cur total ≤ 30 := by
  have hwrapped : (toInt (progressLen * cur)).natAbs ≤ total.natAbs * 20 := by
    by_cases hint : progressLen * cur ≤ intMax
    · have hnowrap : toInt (progressLen * cur) = progressLen * cur := by
        refine toInt_of_isInt ⟨?_, hint⟩
        unfold intMin progressLen
        omega
      rw [hnowrap]
      unfold progressLen
      omega
    · obtain ⟨hlow, hhigh⟩ := toInt_isInt (progressLen * cur)
      unfold progressLen intMax intMin at *
      omega
  have hdone : (progressDone cur total).natAbs ≤ 20 := by
    rw [progressDone, Int.natAbs_tdiv]
    exact Nat.div_le_of_le_mul hwrapped
  have hleft : progressLeft cur total = 10 - progressDone cur total := by
    refine toInt_of_isInt ⟨?_, ?_⟩
    · unfold intMin progressLen
      omega
    · unfold intMax progressLen
      omega
  rw [barLength, if_pos ht, hleft]
  omega

theorem isPlain_barText {cur total : ℤ} : ∀ c ∈ barText cur total, IsPlain c := by
  intro c hc
  unfold barText at hc
  split_ifs at hc
  · obtain hx | hdot := List.mem_append.1 hc
    · rw [List.eq_of_mem_replicate hx]
      decide
    · rw [List.eq_of_mem_replicate hdot]
      decide
  · cases hc

theorem length_progressLine_le (mpp : JsonMultipath) :
    (progressLine mpp.failbackTick.toInt mpp.pgfailback.toInt).length ≤ 54 := by
  have hcur := length_snprintInt_le mpp.failbackTick
  have htotal := length_snprintInt_le mpp.pgfailback
  have htext : (progressText mpp.failbackTick.toInt mpp.pgfailback.toInt).length ≤ 24 := by
    unfold snprintInt at hcur htotal
    unfold progressText
    simp only [List.length_append, List.length_singleton]
    omega
  have hbar : (barText mpp.failbackTick.toInt mpp.pgfailback.toInt).length ≤ 30 := by
    rw [length_barText]
    by_cases hpos : 0 < mpp.pgfailback.toInt
    · obtain ⟨h0, hle⟩ := mpp.failback_le hpos
      exact barLength_le h0 hle hpos
    · rw [barLength, if_neg hpos]
      exact Nat.zero_le _
  rw [progressLine, List.length_append]
  omega

theorem isPrintable_progressLine (mpp : JsonMultipath) :
    IsPrintable (progressLine mpp.failbackTick.toInt mpp.pgfailback.toInt) := by
  have hlength := length_progressLine_le mpp
  have hplain : ∀ c ∈ progressText mpp.failbackTick.toInt mpp.pgfailback.toInt, IsPlain c :=
    isPlain_append (isPlain_append (isPlain_append (by decide) Json.isPlain_itoa) (by decide))
      Json.isPlain_itoa
  refine ⟨?_, isPlain_append isPlain_barText hplain⟩
  unfold maxFieldLen
  omega

/-- In the buffer of a field, `snprint_progress` prints the whole line of a map that waits for its
failback. -/
theorem snprintProgress_failback (mpp : JsonMultipath) {buff : List Char}
    (hbuff : buff.length = maxFieldLen) :
    ∃ buff', snprintProgress buff mpp.failbackTick.toInt mpp.pgfailback.toInt = .done
        (buff', (progressLine mpp.failbackTick.toInt mpp.pgfailback.toInt).length + 1) ∧
      progressLine mpp.failbackTick.toInt mpp.pgfailback.toInt ++ [nul] <+: buff' := by
  have hlength := length_progressLine_le mpp
  apply snprintProgress_line
  rw [hbuff]
  unfold maxFieldLen
  omega

variable (mpp : JsonMultipath) (pgp : JsonPathgroup) (pp : JsonPath)

theorem isPrintable_snprintFailback : IsPrintable (snprintFailback mpp) := by
  unfold snprintFailback
  split_ifs
  · decide
  · decide
  · decide
  · exact isPrintable_progressLine mpp

/-- A number with a short text. -/
theorem isPrintable_snprintInt (val : BitVec 32) (ht : t.length ≤ 100 ∧ ∀ c ∈ t, IsPlain c) :
    IsPrintable (snprintInt val ++ t) ∧ IsPrintable (t ++ snprintInt val) := by
  have hlength := length_snprintInt_le val
  have hplain := isPlain_snprintInt val
  refine ⟨⟨?_, isPlain_append hplain ht.2⟩, ⟨?_, isPlain_append ht.2 hplain⟩⟩ <;>
    · rw [List.length_append]
      unfold maxFieldLen
      omega

theorem isPrintable_snprintSysfs : IsPrintable (snprintSysfs mpp) := by
  unfold snprintSysfs
  split
  · exact (isPrintable_snprintInt _ (by decide)).2
  · decide

theorem isPrintable_snprintQueueing : IsPrintable (snprintQueueing mpp) := by
  unfold snprintQueueing
  split_ifs
  · decide
  · decide
  · decide
  · exact (isPrintable_snprintInt _ (by decide)).1
  · exact (isPrintable_snprintInt _ (by decide)).1
  · decide
  · decide

theorem isPrintable_snprintRo : IsPrintable (snprintRo mpp) := by
  unfold snprintRo
  split
  · split_ifs <;> decide
  · decide

theorem isPrintable_snprintDmMapState : IsPrintable (snprintDmMapState mpp) := by
  unfold snprintDmMapState
  split_ifs <;> decide

theorem isPrintable_snprintAction : IsPrintable (snprintAction mpp) := by
  unfold snprintAction
  split <;> decide

theorem isPrintable_snprintPgState : IsPrintable (snprintPgState pgp) := by
  unfold snprintPgState
  split <;> decide

theorem isPrintable_snprintMarginal (marginal : Bool) : IsPrintable (snprintMarginal marginal) := by
  cases marginal <;> decide

theorem isPrintable_snprintOffline : IsPrintable (snprintOffline pp) := by
  unfold snprintOffline
  split_ifs <;> decide

theorem isPrintable_snprintChkState : IsPrintable (snprintChkState pp) := by
  unfold snprintChkState
  split_ifs
  · split <;> decide
  · decide

theorem isPrintable_snprintDmPathState : IsPrintable (snprintDmPathState pp) := by
  unfold snprintDmPathState
  split <;> decide

end Printable
end MultipathTools.Print
