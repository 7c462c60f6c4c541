import MultipathTools.Base.CString

/-! The uevent queue (`uevent.c`): what is filtered and merged before the events are serviced.
The queue is walked from its tail, so a list here has the last received event first. -/
namespace MultipathTools.Uevents

/-- A uevent. `arrival` is the place at which it was received and is read by no function. -/
structure Uevent where
  arrival : ℕ := 0
  action : CStr
  kernel : CStr
  wwid : Option CStr := none
  envp : List CStr := []
  deriving DecidableEq, Repr

/-- What the queue reads of the configuration: `uid_attrs`, and `filter_devnode` on the
blacklist and the exceptions, which is positive for a blacklisted device. -/
structure UeventConfig where
  uidAttrs : List CStr
  filterDevnode : CStr → ℤ

/-- A queued uevent with its `merge_node` list, from the head. -/
structure Node where
  uev : Uevent
  mergeNode : List Uevent
  deriving DecidableEq, Repr

/-- `!strncmp(kernel, "dm-", 3)`. -/
def isDm (kernel : CStr) : Bool := strncmpEq kernel "dm-".toList 3

def ueventGetEnvVar (uev : Uevent) (attr : CStr) : Option CStr :=
  if attr = [] then none
  else (uev.envp.find? fun var => attr ++ ['='] <+: var).map fun var =>
    var.drop (attr.length + 1)

/-- `get_uid_attribute_by_attrs`. -/
def getUidAttributeByAttrs (pathDev : CStr) : List CStr → Option CStr
  | [] => none
  | att :: attrs =>
    match strrchr ':' att with
    | none => getUidAttributeByAttrs pathDev attrs
    | some (dev, uid) =>
      if strncmpEq pathDev att dev.length then some uid else getUidAttributeByAttrs pathDev attrs

def ueventGetWwid (conf : UeventConfig) (uev : Uevent) : Uevent :=
  match (getUidAttributeByAttrs uev.kernel conf.uidAttrs).bind (ueventGetEnvVar uev) with
  | some val => { uev with wwid := some val }
  | none => uev

def ueventNeedMerge (conf : UeventConfig) : Bool := conf.uidAttrs ≠ []

def ueventCanDiscard (conf : UeventConfig) (uev : Uevent) : Bool :=
  if isDm uev.kernel then false else conf.filterDevnode uev.kernel > 0

def ueventCanFilter (earlier later : Uevent) : Bool :=
  if earlier.kernel = later.kernel ∧ later.action = "remove".toList ∧ !isDm later.kernel then true
  else earlier.kernel = later.kernel ∧ earlier.action = "change".toList ∧
    later.action = "add".toList ∧ !isDm later.kernel

def mergeNeedStop (earlier later : Uevent) : Bool :=
  if isDm later.kernel then true
  else if earlier.wwid = none ∨ later.wwid = none then true
  else earlier.wwid = later.wwid ∧ earlier.action ≠ later.action ∧
    earlier.action ≠ "change".toList ∧ later.action ≠ "change".toList

def ueventCanMerge (earlier later : Uevent) : Bool :=
  earlier.wwid ≠ none ∧ later.wwid ≠ none ∧ earlier.wwid = later.wwid ∧
    earlier.action = later.action ∧ !strncmpEq earlier.action "change".toList 6 ∧
    !isDm earlier.kernel

def ueventPrepare (conf : UeventConfig) (tmpq : List Uevent) : List Uevent :=
  (tmpq.filter fun uev => !ueventCanDiscard conf uev).map fun uev =>
    if !isDm uev.kernel ∧ ueventNeedMerge conf then ueventGetWwid conf uev else uev

/-- `uevent_filter` on the events received before `later`. -/
def ueventFilter (later : Uevent) (tmpq : List Uevent) : List Uevent :=
  tmpq.filter fun earlier => !ueventCanFilter earlier later

/-- `uevent_merge` on the events received before `later`: the merged ones, each moved to the
head of `later`'s list, and those that stay in the queue. -/
def ueventMerge (later : Uevent) : List Uevent → List Uevent → List Uevent × List Uevent
  | [], mergeNode => (mergeNode, [])
  | earlier :: tmpq, mergeNode =>
    if mergeNeedStop earlier later then (mergeNode, earlier :: tmpq)
    else if ueventCanMerge earlier later then ueventMerge later tmpq (earlier :: mergeNode)
    else
      let r := ueventMerge later tmpq mergeNode
      (r.1, earlier :: r.2)

theorem ueventMerge_length (later : Uevent) (tmpq mergeNode : List Uevent) :
    (ueventMerge later tmpq mergeNode).2.length ≤ tmpq.length := by
  induction tmpq generalizing mergeNode with
  | nil => simp [ueventMerge]
  | cons earlier tmpq ih =>
    unfold ueventMerge
    split_ifs
    · simp
    · exact (ih _).trans (Nat.le_succ _)
    · simpa using ih mergeNode

/-- What `later` does to the events received before it. -/
def filterMerge (conf : UeventConfig) (later : Uevent) (tmpq : List Uevent) :
    List Uevent × List Uevent :=
  if ueventNeedMerge conf then ueventMerge later (ueventFilter later tmpq) []
  else ([], ueventFilter later tmpq)

theorem filterMerge_length (conf : UeventConfig) (later : Uevent) (tmpq : List Uevent) :
    (filterMerge conf later tmpq).2.length ≤ tmpq.length := by
  have hf : (ueventFilter later tmpq).length ≤ tmpq.length := List.length_filter_le _ _
  unfold filterMerge
  split_ifs
  · exact (ueventMerge_length _ _ _).trans hf
  · exact hf

/-- The loop of `merge_uevq` from one event towards the head of the queue. -/
def mergeLoop (conf : UeventConfig) : List Uevent → List Node
  | [] => []
  | later :: tmpq =>
    ⟨later, (filterMerge conf later tmpq).1⟩ :: mergeLoop conf (filterMerge conf later tmpq).2
termination_by tmpq => tmpq.length
decreasing_by exact Nat.lt_succ_of_le (filterMerge_length conf later tmpq)

def mergeUevq (conf : UeventConfig) (tmpq : List Uevent) : List Node :=
  mergeLoop conf (ueventPrepare conf tmpq)

/-- The order in which `uev_trigger` handles one entry: a device map event alone, else the
merged events and then the entry itself. -/
def uevTrigger (node : Node) : List Uevent :=
  if isDm node.uev.kernel then [node.uev] else node.mergeNode ++ [node.uev]

/-- `service_uevq`, which starts at the head of the queue, that is with the first received. -/
def serviceUevq (tmpq : List Node) : List Uevent :=
  tmpq.reverse.flatMap uevTrigger

/-- `uevent_listen` puts each event at the tail of the queue. -/
def receive (uevs : List Uevent) : List Uevent :=
  (uevs.zipIdx.map fun p => { p.1 with arrival := p.2 }).reverse

/-- The events in the order of service, from the events in the order of reception. -/
def serviceOrder (conf : UeventConfig) (uevs : List Uevent) : List Uevent :=
  serviceUevq (mergeUevq conf (receive uevs))

end MultipathTools.Uevents
