import MultipathTools.Configure.SelectAction

/-! `coalesce_paths` as `configure` of the daemon calls it, the one caller that passes a vector
for the new maps: with `CMD_NONE`, for every WWID, and with a reload of the maps that changed
(`FORCE_RELOAD_WEAK`) or of all. -/
namespace MultipathTools.Configure

inductive FindMultipaths where
  | undef | off | on | greedy | smart | strict
  deriving DecidableEq, Repr

/-- The configuration, and what sysfs, udev and device-mapper answer. -/
structure CoalesceEnv extends ActionEnv where
  findMultipaths : FindMultipaths
  /-- `dm_get_uuid`, by the alias of a map. -/
  dmGetUuid : CStr → Option CStr
  /-- `check_wwids_file(wwid, 0) >= 0`. -/
  inWwidsFile : CStr → Bool
  /-- `filter_path(conf, pp) > 0`, by device name and WWID. -/
  filterPath : CStr → CStr → Bool
  /-- `pathinfo` with `DI_PRIO | DI_CHECKER`: the state and the priority of a device. -/
  pathinfo : CStr → Option (PathState × ℤ)
  /-- The device has an attribute `dev` in sysfs. -/
  inSysfs : CStr → Bool
  /-- `find_existing_alias` and `select_alias`. -/
  selectAlias : Multipath → CStr
  /-- `setup_map` after its first check: the properties and the path groups. -/
  setupPathgroups : Multipath → Option Multipath
  dmMapPresent : Multipath → Bool
  /-- The uuid of the map that has the alias of this one. -/
  dmAliasUuid : Multipath → Option CStr
  /-- The lock and the ioctl of `domap`. -/
  dmLoad : Multipath → Bool

/-- `vecs->pathvec`, the positions that are set in `size_mismatch_seen`, and `newmp`. -/
structure CoalesceState where
  pathvec : List Path
  sizeMismatchSeen : List ℕ
  newmp : List Multipath
  deriving DecidableEq, Repr

variable (env : CoalesceEnv)

/-- `orphan_path`. -/
def orphanPath (pp : Path) : Path := { pp with mpp := none }

/-- `orphan_paths`, which is what `remove_map` with `KEEP_VEC` does. -/
def orphanPaths (mpp : Multipath) (pathvec : List Path) : List Path :=
  pathvec.filterMap fun pp =>
    if pp.mpp = some mpp.addr then
      if pp.initialized = .removed then none else some (orphanPath pp)
    else some pp

/-- The WWID has a map already, and device-mapper knows it by this WWID. -/
def alreadyMultipathed (curmp : List Multipath) (wwid : CStr) : Bool :=
  match findMpByWwid curmp wwid with
  | none => false
  | some mp =>
    match env.dmGetUuid mp.aliasName with
    | none => false
    | some tmpWwid => strncmpEq tmpWwid wwid wwidSize

/-- `should_multipath` for the path at position `k`. -/
def shouldMultipath (k : ℕ) (pp1 : Path) (pathvec : List Path) (curmp : List Multipath) : Bool :=
  if env.findMultipaths = .off ∨ env.findMultipaths = .greedy then true
  else if env.findMultipaths ≠ .strict ∧ (alreadyMultipathed env curmp pp1.wwid ∨
      (pathvec.eraseIdx k).any fun pp2 => strncmpEq pp1.wwid pp2.wwid wwidSize) then true
  else env.inWwidsFile pp1.wwid

def sizeMismatch (mpp : Multipath) (pp : Path) : Bool :=
  pp.size ≠ 0 ∧ mpp.size ≠ 0 ∧ pp.size ≠ mpp.size

/-- `adopt_paths` for a map without path groups. -/
def adoptPaths : List Path → Multipath → Multipath × List Path
  | [], mpp => (mpp, [])
  | pp :: pathvec, mpp =>
    if !strncmpEq mpp.wwid pp.wwid wwidSize ∨ sizeMismatch mpp pp ∨ pp.initialized = .removed then
      let r := adoptPaths pathvec mpp
      (r.1, pp :: r.2)
    else
      let paths := mpp.paths.getD []
      match env.pathinfo pp.dev with
      | none =>
        let r := adoptPaths pathvec { mpp with paths := some paths }
        (r.1, pp :: r.2)
      | some info =>
        let pp := { pp with state := info.1, priority := info.2, mpp := some mpp.addr }
        let paths := if paths.any fun p => p.devT = pp.devT then paths else paths ++ [pp]
        let r := adoptPaths pathvec { mpp with paths := some paths }
        (r.1, pp :: r.2)

/-- The map of `add_map_with_path` before `adopt_paths`; its address is the position `k`. -/
def newMap (k : ℕ) (pp : Path) : Multipath :=
  let mpp := { allocMultipath with addr := k, wwid := pp.wwid }
  { mpp with aliasName := env.selectAlias mpp, size := pp.size }

/-- `add_map_with_path`. -/
def addMapWithPath (k : ℕ) (pp : Path) (pathvec : List Path) : Multipath × List Path :=
  adoptPaths env pathvec (newMap env k pp)

/-- The loop over the paths after `pp1`, which have the positions from `i` on: the map, and the
bits that are set. -/
def scanSizes (pp1 : Path) : List Path → ℕ → Multipath → Multipath × List ℕ
  | [], _, mpp => (mpp, [])
  | pp2 :: later, i, mpp =>
    if pp1.wwid ≠ pp2.wwid then scanSizes pp1 later (i + 1) mpp
    else
      let mpp := if mpp.size = 0 ∧ pp2.size ≠ 0 then { mpp with size := pp2.size } else mpp
      if sizeMismatch mpp pp2 then
        let r := scanSizes pp1 later (i + 1) { mpp with action := .reject }
        (r.1, i :: r.2)
      else scanSizes pp1 later (i + 1) mpp

/-- `verify_paths`: paths that are not in sysfs leave the map and get `INIT_REMOVED`. -/
def verifyPaths (mpp : Multipath) (pathvec : List Path) : Multipath × List Path :=
  ({ mpp with paths := mpp.paths.map fun paths => paths.filter fun pp => env.inSysfs pp.dev },
    pathvec.map fun pp =>
      if (mpp.paths.getD []).any (fun p => p.addr = pp.addr) ∧ !env.inSysfs pp.dev then
        { pp with initialized := .removed }
      else pp)

/-- `setup_map`. -/
def setupMap (mpp : Multipath) : Option Multipath :=
  if mpp.size = 0 then none else env.setupPathgroups mpp

/-- The check at the start of `domap` for a map that has the alias already. -/
def checkMapPresent (mpp : Multipath) : Multipath :=
  if mpp.action = .create ∧ env.dmMapPresent mpp then
    match env.dmAliasUuid mpp with
    | none => mpp
    | some wwid =>
      if strncmpEq mpp.wwid wwid wwidSize then { mpp with action := .reload }
      else { mpp with action := .reject }
  else mpp

/-- `domap` in the daemon: the map, unless it failed. -/
def domap (mpp : Multipath) : Option Multipath :=
  let mpp := checkMapPresent env mpp
  match mpp.action with
  | .reject | .nothing | .impossible | .switchpg => some mpp
  | .undef | .dryRun => none
  | .create => if env.dmLoad mpp then some { mpp with forceUdevReload := false } else none
  | .reload | .resize | .rename | .forcerename =>
    if env.dmLoad mpp then some { mpp with forceUdevReload := false, action := .nothing }
    else none

/-- `deadmap`: no path of the map has a device name. -/
def deadmap (mpp : Multipath) : Bool :=
  (mpp.pg.getD []).all fun pgp => pgp.paths.all fun pp => pp.dev = []

variable (curmp : List Multipath) (forceReload : Bool)

/-- The rest of an iteration, once there is a map with all its paths. -/
def setupAndLoad (mpp : Multipath) (st : CoalesceState) : CoalesceState :=
  match setupMap env mpp with
  | none => { st with pathvec := orphanPaths mpp st.pathvec }
  | some mpp =>
    let mpp := if mpp.action = .undef then selectAction env.toActionEnv mpp curmp forceReload
      else mpp
    match domap env mpp with
    | none => { st with pathvec := orphanPaths mpp st.pathvec }
    | some mpp =>
      if mpp.action ≠ .reject then { st with newmp := st.newmp ++ [mpp] }
      else { st with pathvec := orphanPaths mpp st.pathvec }

/-- What an iteration does for a path that gets a new map. -/
def coalesceMap (k : ℕ) (pp1 : Path) (st : CoalesceState) : CoalesceState :=
  let r := addMapWithPath env k pp1 st.pathvec
  if r.1.paths = none then { st with pathvec := orphanPaths r.1 r.2 }
  else
    let s := scanSizes pp1 (r.2.drop (k + 1)) (k + 1) r.1
    let v := verifyPaths env s.1 r.2
    setupAndLoad env curmp forceReload v.1
      { st with pathvec := v.2, sizeMismatchSeen := st.sizeMismatchSeen ++ s.2 }

/-- An iteration of `coalesce_paths`. -/
def coalesceStep (k : ℕ) (st : CoalesceState) : CoalesceState :=
  match st.pathvec[k]? with
  | none => st
  | some pp1 =>
    let orphaned := { st with pathvec := st.pathvec.set k (orphanPath pp1) }
    if pp1.wwid = [] then orphaned
    else if env.filterPath pp1.dev pp1.wwid then orphaned
    else if pp1.mpp.isSome ∨ k ∈ st.sizeMismatchSeen then st
    else if pp1.state = .removed then orphaned
    else if !shouldMultipath env k pp1 st.pathvec curmp then orphaned
    else coalesceMap env curmp forceReload k pp1 st

/-- The first `n` iterations of the loop of `coalesce_paths`. -/
def coalesceLoop (pathvec : List Path) : ℕ → CoalesceState
  | 0 => ⟨pathvec.map fun pp => { pp with mpp := none }, [], []⟩
  | k + 1 => coalesceStep env curmp forceReload k (coalesceLoop pathvec k)

/-- `coalesce_paths`: after the loop, maps with only dead paths are removed. -/
def coalescePaths (pathvec : List Path) : CoalesceState :=
  let st := coalesceLoop env curmp forceReload pathvec pathvec.length
  { st with
    newmp := st.newmp.filter fun mpp => !deadmap mpp
    pathvec := (st.newmp.filter deadmap).foldl (fun pathvec mpp => orphanPaths mpp pathvec)
      st.pathvec }

end MultipathTools.Configure
