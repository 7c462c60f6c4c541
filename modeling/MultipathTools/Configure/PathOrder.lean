import MultipathTools.Base.Outcome
import MultipathTools.Structs

/-! The order of the paths of a group for round robin: the paths are grouped by adapter and host, and
put back alternating between these (`configure.c`). -/
namespace MultipathTools.Configure

/-- `enum scsi_protocol`. -/
inductive ScsiProtocol where
  | fcp | spi | ssa | sbp | srp | iscsi | sas | adt | ata | usb | unspec
  deriving DecidableEq, Repr

/-- `struct path` with `sg_id.proto_id`. -/
structure SgPath extends Path where
  protoId : ScsiProtocol := .fcp
  deriving DecidableEq, Repr

/-- What sysfs has for a host number, which may be another text at each call. -/
structure SysfsHosts where
  iscsiIpAddress : ℕ → ℤ → Option CStr
  hostPciName : ℕ → ℤ → Option CStr

/-- `SLOT_NAME_SIZE`. -/
def slotNameSize : ℕ := 40

structure HostGroup where
  hostNo : ℤ := 0
  numPaths : ℕ := 0
  paths : List SgPath := []
  deriving DecidableEq, Repr

structure AdapterGroup where
  adapterName : CStr := []
  numHosts : ℕ := 0
  hostGroups : List HostGroup := []
  nextHostIndex : ℕ := 0
  deriving DecidableEq, Repr

/-- `store_path`. -/
def storeSgPath (pathvec : List SgPath) (pp : SgPath) : Option (List SgPath) :=
  if pp.devT = [] ∧ pp.dev = [] then none else some (pathvec ++ [pp])

/-- The protocols whose paths have an adapter. -/
def ScsiProtocol.hasAdapter (p : ScsiProtocol) : Bool :=
  p = .fcp ∨ p = .sas ∨ p = .iscsi ∨ p = .srp

/-- `sysfs_get_host_adapter_name`, as the call with this number. -/
def sysfsGetHostAdapterName (sysfs : SysfsHosts) (call : ℕ) (pp : SgPath) : Option CStr :=
  if pp.protoId.hasAdapter then
    if pp.protoId = .iscsi then sysfs.iscsiIpAddress call pp.hostNo
    else sysfs.hostPciName call pp.hostNo
  else none

/-- A new host group for the path; whether `store_path` has taken it. -/
def newHostGroup (agp : AdapterGroup) (pp : SgPath) : Bool × AdapterGroup :=
  match storeSgPath [] pp with
  | none =>
    (false, { agp with
      numHosts := agp.numHosts + 1, hostGroups := agp.hostGroups ++ [{ hostNo := pp.hostNo }] })
  | some paths =>
    (true, { agp with
      numHosts := agp.numHosts + 1
      hostGroups := agp.hostGroups ++ [{ hostNo := pp.hostNo, numPaths := 1, paths := paths }] })

/-- The loop over the host groups of an adapter. There is no result if none has the number of the
host, and `none` is the result if `store_path` does not take the path. -/
def addToHost (pp : SgPath) : List HostGroup → Option (Option (List HostGroup))
  | [] => none
  | hgp :: hgps =>
    if hgp.hostNo = pp.hostNo then
      some ((storeSgPath hgp.paths pp).map fun paths =>
        { hgp with numPaths := hgp.numPaths + 1, paths := paths } :: hgps)
    else (addToHost pp hgps).map (Option.map (hgp :: ·))

/-- A path of the adapter is added to the group of its host. -/
def addToAdapter (agp : AdapterGroup) (pp : SgPath) : Bool × AdapterGroup :=
  match addToHost pp agp.hostGroups with
  | some (some hgps) => (true, { agp with hostGroups := hgps })
  | some none => (false, agp)
  | none => newHostGroup agp pp

/-- What the inner loop of `group_by_host_adapter` leaves: whether it has come to its end, the number
of the next call, the paths of the path group and the adapter group. -/
structure Gathered where
  ok : Bool
  call : ℕ
  paths : List SgPath
  agp : AdapterGroup

/-- The inner loop of `group_by_host_adapter`, from slot `i` on. -/
def gather (sysfs : SysfsHosts) (adapterName1 : CStr) (i call : ℕ) (paths : List SgPath)
    (agp : AdapterGroup) : Gathered :=
  if h : i < paths.length then
    match sysfsGetHostAdapterName sysfs call paths[i] with
    | none => ⟨false, call + 1, paths, agp⟩
    | some adapterName2 =>
      if adapterName1 = adapterName2 then
        let r := addToAdapter agp paths[i]
        if r.1 then gather sysfs adapterName1 i (call + 1) (paths.eraseIdx i) r.2
        else ⟨false, call + 1, paths, r.2⟩
      else gather sysfs adapterName1 (i + 1) (call + 1) paths agp
  else ⟨true, call, paths, agp⟩
termination_by paths.length - i
decreasing_by
  · rw [List.length_eraseIdx_of_lt h]
    omega
  · omega

theorem length_gather_le (sysfs : SysfsHosts) (adapterName1 : CStr) (i call : ℕ)
    (paths : List SgPath) (agp : AdapterGroup) :
    (gather sysfs adapterName1 i call paths agp).paths.length ≤ paths.length := by
  fun_induction gather sysfs adapterName1 i call paths agp with
  | case1 => exact Nat.le_refl _
  | case2 i call paths agp h _ _ _ ih =>
    rw [List.length_eraseIdx_of_lt h] at ih
    omega
  | case3 => exact Nat.le_refl _
  | case4 i call paths agp h _ _ _ ih => exact ih
  | case5 => exact Nat.le_refl _

/-- The outer loop of `group_by_host_adapter`: whether it has come to its end, the paths of the path
group and the adapters. -/
def groupLoop (sysfs : SysfsHosts) (call : ℕ) (paths : List SgPath) (adapters : List AdapterGroup) :
    Bool × List SgPath × List AdapterGroup :=
  match paths with
  | [] => (true, [], adapters)
  | pp :: rest =>
    match sysfsGetHostAdapterName sysfs call pp with
    | none => (false, pp :: rest, adapters)
    | some adapterName1 =>
      let r := newHostGroup { adapterName := adapterName1.take (slotNameSize - 1) } pp
      if r.1 then
        let g := gather sysfs adapterName1 0 (call + 1) rest r.2
        if g.ok then groupLoop sysfs g.call g.paths (adapters ++ [g.agp])
        else (false, g.paths, adapters ++ [g.agp])
      else (false, pp :: rest, adapters ++ [r.2])
termination_by paths.length
decreasing_by exact Nat.lt_succ_of_le (length_gather_le _ _ _ _ _ _)

/-- The paths that are in the groups of an adapter. -/
def AdapterGroup.members (agp : AdapterGroup) : List SgPath := agp.hostGroups.flatMap (·.paths)

/-- The paths of all adapters are added back. One that `store_path` does not take is lost. -/
def restore (paths : List SgPath) (adapters : List AdapterGroup) : List SgPath :=
  (adapters.flatMap (·.members)).foldl (fun v pp => (storeSgPath v pp).getD v) paths

/-- `group_by_host_adapter`: its code, the paths of the path group and the adapters. -/
def groupByHostAdapter (sysfs : SysfsHosts) (paths : List SgPath) :
    ℤ × List SgPath × List AdapterGroup :=
  let r := groupLoop sysfs 0 paths []
  if r.1 then (0, r.2) else (1, restore r.2.1 r.2.2, [])

/-- `order_paths_in_pg_by_alt_adapters`, for at most `fuel` turns: its code and the paths of the path
group. -/
def orderPathsInPgByAltAdapters : ℕ → List SgPath → List AdapterGroup → ℕ → ℕ →
    Outcome (ℤ × List SgPath)
  | _, pgPaths, _, 0, _ => .done (0, pgPaths)
  | 0, _, _, _ + 1, _ => .unfinished
  | fuel + 1, pgPaths, adapters, totalPaths + 1, nextAdapterIndex =>
    match adapters[nextAdapterIndex]? with
    | none => .done (1, pgPaths)
    | some agp =>
      match agp.hostGroups[agp.nextHostIndex]? with
      | none => .done (1, pgPaths)
      | some hgp =>
        let agp' := { agp with nextHostIndex := (agp.nextHostIndex + 1) % agp.numHosts }
        let next := (nextAdapterIndex + 1) % adapters.length
        if hgp.numPaths = 0 then
          orderPathsInPgByAltAdapters fuel pgPaths (adapters.set nextAdapterIndex agp')
            (totalPaths + 1) next
        else
          match hgp.paths with
          -- VECTOR_SLOT gives NULL, and store_path reads from there
          | [] => .outside
          | pp :: paths =>
            match storeSgPath pgPaths pp with
            | none => .done (1, pgPaths)
            | some pgPaths =>
              let hgp' := { hgp with numPaths := hgp.numPaths - 1, paths := paths }
              let hgps := agp.hostGroups.set agp.nextHostIndex hgp'
              orderPathsInPgByAltAdapters fuel pgPaths
                (adapters.set nextAdapterIndex { agp' with hostGroups := hgps }) totalPaths next

/-- `rr_optimize_path_order`: its code and the paths of the path group. -/
def rrOptimizePathOrder (sysfs : SysfsHosts) (fuel : ℕ) (paths : List SgPath) :
    Outcome (ℤ × List SgPath) :=
  if paths.any fun pp => !pp.protoId.hasAdapter then .done (0, paths)
  else
    let r := groupByHostAdapter sysfs paths
    if r.1 ≠ 0 then .done (0, r.2.1)
    else
      (orderPathsInPgByAltAdapters fuel r.2.1 r.2.2 paths.length 0).bind fun o =>
        .done (if o.1 ≠ 0 then 1 else 0, o.2)

end MultipathTools.Configure
