import MultipathTools.Dmparser.Disassemble

/-! What to do with a map that is to be loaded, from a comparison with the maps of the kernel
(`select_action` of `configure.c`). -/
namespace MultipathTools.Configure

open MultipathTools.Features MultipathTools.Dmparser

/-- What `select_action` asks the system: the kernel's version, and the udev device of a map with
its property `MPATH_DEVICE_READY`. -/
structure ActionEnv where
  linuxVersionCode : ℕ
  isMppKnownToUdev : Multipath → Bool
  mpathDeviceReady : Multipath → Option CStr

/-- `compute_pgid`: the addresses of the paths are added to the id by xor. -/
def computePgid (pgp : Pathgroup) : Pathgroup :=
  { pgp with id := pgp.paths.foldl (fun id pp => id ^^^ pp.addr) pgp.id }

/-- `pathcmp`: how many paths of the first group the second does not have. -/
def pathcmp (pgp cpgp : Pathgroup) : ℤ :=
  pgp.paths.length - (pgp.paths.countP fun pp => cpgp.paths.any fun cpp => pp.addr = cpp.addr)

/-- The inner loop of `pgcmp`. -/
def pgcmpGroup (pgp : Pathgroup) : List Pathgroup → ℕ → ℕ
  | [], r => r
  | cpgp :: cpg, r =>
    if pgp.id = cpgp.id ∧ pathcmp pgp cpgp = 0 then 0 else pgcmpGroup pgp cpg (r + 1)

/-- `pgcmp`: the result, and the groups with the ids that were computed. -/
def pgcmp (cpg : List Pathgroup) : List Pathgroup → ℕ × List Pathgroup
  | [] => (0, [])
  | pgp :: pg =>
    let pgp := computePgid pgp
    let r := pgcmpGroup pgp cpg 0
    if r ≠ 0 then (r, pgp :: pg)
    else ((pgcmp cpg pg).1, pgp :: (pgcmp cpg pg).2)

/-- `select_reload_action`. -/
def selectReloadAction (env : ActionEnv) (mpp cmpp : Multipath) : Multipath :=
  { mpp with
    forceUdevReload :=
      if env.mpathDeviceReady cmpp ≠ some "1".toList ∧ 0 < countActivePaths mpp then true
      else mpp.forceUdevReload
    action := .reload }

/-- `!!strstr(mpp->features, n) != !!strstr(cmpp->features, n)`. -/
def featureDiffers (mpp cmpp : Multipath) (n : CStr) : Bool :=
  hasSubstr (printStr mpp.features) n ≠ hasSubstr (printStr cmpp.features) n

/-- The features without those that depend on other options. -/
def otherFeatures (mpp : Multipath) : CStr :=
  printStr (removeFeature (removeFeature mpp.features queueIfNoPath).1 retainAttachedHwHandler).1

/-- The comparison of two handlers in `select_action`. -/
def hwhandlerDiffers (mpp cmpp : Multipath) : Bool :=
  (printStr cmpp.hwhandler).length ≠ (printStr mpp.hwhandler).length ∨
    !strncmpEq (printStr cmpp.hwhandler) (printStr mpp.hwhandler) (printStr mpp.hwhandler).length

/-- The settings that make `select_action` reload a map, in the order of the code. -/
def settingsDiffer (env : ActionEnv) (mpp cmpp : Multipath) : Bool :=
  (mpp.noPathRetry ≠ noPathRetryUndef ∧ featureDiffers mpp cmpp queueIfNoPath) ∨
  ((mpp.retainHwhandler ≠ .on ∨ printStr cmpp.hwhandler = "0".toList) ∧
    hwhandlerDiffers mpp cmpp) ∨
  (mpp.retainHwhandler ≠ .undef ∧ featureDiffers mpp cmpp retainAttachedHwHandler ∧
    env.linuxVersionCode < kernelVersion 4 3 0) ∨
  !strncmpEq (otherFeatures mpp) (otherFeatures cmpp) paramsSize ∨
  (cmpp.selector = none ∨
    !strncmpEq (printStr cmpp.selector) (printStr mpp.selector) (printStr mpp.selector).length) ∨
  cmpp.minio ≠ mpp.minio

/-- The comparison of a map with the kernel's map of the same WWID and alias. -/
def selectTableAction (env : ActionEnv) (mpp cmpp : Multipath) : Multipath :=
  if cmpp.size ≠ mpp.size then { mpp with forceUdevReload := true, action := .resize }
  else if settingsDiffer env mpp cmpp then selectReloadAction env mpp cmpp
  else if cmpp.pg = none ∨ (cmpp.pg.getD []).length ≠ (mpp.pg.getD []).length then
    selectReloadAction env mpp cmpp
  else
    let r := pgcmp (cmpp.pg.getD []) (mpp.pg.getD [])
    let mpp := { mpp with pg := mpp.pg.map fun _ => r.2 }
    if r.1 ≠ 0 then selectReloadAction env mpp cmpp
    else if cmpp.nextpg ≠ mpp.bestpg then { mpp with action := .switchpg }
    else if !env.isMppKnownToUdev cmpp then { mpp with action := .reload }
    else { mpp with action := .nothing }

/-- `select_action`. -/
def selectAction (env : ActionEnv) (mpp : Multipath) (curmp : List Multipath)
    (forceReload : Bool) : Multipath :=
  match findMpByWwid curmp mpp.wwid, findMpByAlias curmp mpp.aliasName with
  | some cmpp, none =>
    let mpp := { mpp with aliasOld := cmpp.aliasName.take (wwidSize - 1) }
    if forceReload then { mpp with forceUdevReload := true, action := .forcerename }
    else { mpp with action := .rename }
  | none, none => { mpp with action := .create }
  | none, some _ => { mpp with aliasName := mpp.wwid, action := .create }
  | some cmpp, some cmppByName =>
    if cmpp.addr ≠ cmppByName.addr then
      { mpp with aliasName := cmpp.aliasName, action := .impossible }
    else if forceReload then { mpp with forceUdevReload := true, action := .reload }
    else selectTableAction env mpp cmpp

/-- The ids that `pgcmp` computes leave the paths of the groups as they are. -/
theorem pgcmp_paths (cpg pg : List Pathgroup) :
    (pgcmp cpg pg).2.map Pathgroup.paths = pg.map Pathgroup.paths := by
  induction pg with
  | nil => rfl
  | cons pgp pg ih =>
    unfold pgcmp
    dsimp only
    split_ifs
    · rfl
    · rw [List.map_cons, ih]
      rfl

/-- What `select_action` may do to a map. -/
structure Selected (mpp mpp' : Multipath) : Prop where
  addr : mpp'.addr = mpp.addr
  wwid : mpp'.wwid = mpp.wwid
  paths : (mpp'.pg.getD []).map Pathgroup.paths = (mpp.pg.getD []).map Pathgroup.paths
  action : mpp'.action ≠ .undef ∧ mpp'.action ≠ .reject ∧ mpp'.action ≠ .dryRun

theorem selectTableAction_selected (env : ActionEnv) (mpp cmpp : Multipath) :
    Selected mpp (selectTableAction env mpp cmpp) := by
  have hpaths : ((mpp.pg.map fun _ => (pgcmp (cmpp.pg.getD []) (mpp.pg.getD [])).2).getD []).map
      Pathgroup.paths = (mpp.pg.getD []).map Pathgroup.paths := by
    cases hpg : mpp.pg with
    | none => rfl
    | some pg => exact pgcmp_paths _ _
  unfold selectTableAction selectReloadAction
  dsimp only
  split_ifs <;> first
    | exact ⟨rfl, rfl, rfl, by simp⟩
    | exact ⟨rfl, rfl, hpaths, by simp⟩

/-- `select_action` decides on an action, and never rejects a map. -/
theorem selectAction_selected (env : ActionEnv) (mpp : Multipath) (curmp : List Multipath)
    (forceReload : Bool) : Selected mpp (selectAction env mpp curmp forceReload) := by
  unfold selectAction
  dsimp only
  split
  · split_ifs <;> exact ⟨rfl, rfl, rfl, by simp⟩
  · exact ⟨rfl, rfl, rfl, by simp⟩
  · exact ⟨rfl, rfl, rfl, by simp⟩
  · split_ifs
    · exact ⟨rfl, rfl, rfl, by simp⟩
    · exact ⟨rfl, rfl, rfl, by simp⟩
    · exact selectTableAction_selected env mpp _

end MultipathTools.Configure
