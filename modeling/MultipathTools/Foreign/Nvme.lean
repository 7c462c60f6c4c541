import MultipathTools.Base.CString
import MultipathTools.Base.Keyed

/-! The controllers of a native NVMe multipath map (`foreign/nvme.c`). -/
namespace MultipathTools.Nvme

/-- What udev tells of a device: `nvmeParent` is the syspath of its parent with subsystem `nvme`. -/
structure UdevDevice where
  syspath : CStr
  devtype : Option CStr := none
  nvmeParent : Option CStr := none
  deriving DecidableEq, Repr

structure Dirent where
  name : CStr
  /-- `d_type` is `DT_LNK`. -/
  isLink : Bool := true
  deriving DecidableEq, Repr

/-- The system during one call. -/
structure System where
  /-- The syspath of the map's parent with subsystem `nvme-subsystem`. -/
  subsys : Option CStr
  /-- The entries of a directory in the order of `alphasort`. There are none for an error. -/
  directory : CStr → Option (List Dirent)
  realpath : CStr → Option CStr
  newFromSyspath : CStr → Option UdevDevice
  /-- The children with subsystem `block`. There are none if they cannot be enumerated. -/
  blockChildren : CStr → Option (List CStr)
  /-- The attribute `state`, if it can be read and is not empty. -/
  state : CStr → Option CStr

/-- `struct nvme_path`, which is the only one of its path group. -/
structure NvmePath where
  syspath : CStr
  ctl : CStr
  seen : Bool
  deriving DecidableEq, Repr

structure NvmeMap where
  pgvec : List NvmePath := []
  nrLive : ℕ := 0
  deriving DecidableEq, Repr

/-- `_dirent_controller` -/
def direntController (di : Dirent) : Bool :=
  di.isLink ∧ di.name.take 4 = "nvme".toList ∧ di.name.drop 4 ≠ [] ∧
    (di.name.drop 4).all Char.isDigit

/-- `get_ctrl_blkdev` -/
def getCtrlBlkdev (sys : System) (ctrl : UdevDevice) : Option UdevDevice :=
  (sys.blockChildren ctrl.syspath).bind fun children =>
    (children.filterMap sys.newFromSyspath).find? fun tmp => tmp.devtype = some "disk".toList

/-- `PATH_MAX` -/
def pathMax : ℕ := 4096

/-- The block device of a controller: the turn of the loop over the directory up to the `continue`
for `udev == NULL`. -/
def controllerBlkdev (sys : System) (subsys : CStr) (di : Dirent) : Option UdevDevice :=
  let pathbuf := subsys ++ '/' :: di.name
  if pathMax ≤ pathbuf.length then none
  else
    (sys.realpath pathbuf).bind fun realbuf =>
      (sys.newFromSyspath realbuf).bind (getCtrlBlkdev sys)

/-- `_find_path_by_syspath`, for the resolved syspath; the path that is found has been seen. -/
def markSeen (ppath : CStr) : List NvmePath → Option (List NvmePath)
  | [] => none
  | path :: pgvec =>
    if path.syspath = ppath then some ({ path with seen := true } :: pgvec)
    else (markSeen ppath pgvec).map (path :: ·)

/-- The rest of the turn: the block device is one of a known path, or a path is added. -/
def addPath (sys : System) (pgvec : List NvmePath) (udev : UdevDevice) : List NvmePath :=
  match markSeen ((sys.realpath udev.syspath).getD udev.syspath) pgvec with
  | some pgvec => pgvec
  | none =>
    match udev.nvmeParent with
    | none => pgvec
    | some ctl => pgvec ++ [⟨udev.syspath, ctl, true⟩]

/-- `state` begins with "live". -/
def isLive (sys : System) (path : NvmePath) : Bool :=
  (sys.state path.ctl).any fun state => state.take 4 = "live".toList

/-- The last loop, from the end of the vector: the paths that have been seen, and how many of them
are live. -/
def dropUnseen (sys : System) : List NvmePath → List NvmePath × ℕ
  | [] => ([], 0)
  | path :: pgvec =>
    let r := dropUnseen sys pgvec
    if path.seen then (path :: r.1, if isLive sys path then r.2 + 1 else r.2) else r

/-- `_find_controllers` -/
def findControllers (sys : System) (map : NvmeMap) : NvmeMap :=
  let unseen := map.pgvec.map fun path => { path with seen := false }
  match sys.subsys with
  | none => { map with pgvec := unseen }
  | some subsys =>
    match sys.directory subsys with
    | none => { map with pgvec := unseen }
    | some di =>
      let di := di.filter direntController
      if di = [] then { map with pgvec := unseen }
      else
        let r := dropUnseen sys
          ((di.filterMap (controllerBlkdev sys subsys)).foldl (addPath sys) unseen)
        ⟨r.1, r.2⟩

/-- A new map after a call from `_add_map` and calls from `_check`. -/
def follow (calls : List System) : NvmeMap := calls.foldl (fun map sys => findControllers sys map) {}

end MultipathTools.Nvme

/-! When a native NVMe multipath map follows its controllers (`foreign/nvme.c`). -/
namespace MultipathTools.Nvme

variable {sys : System} {map : NvmeMap} {pgvec pgvec' : List NvmePath} {b : UdevDevice}

/-- The controllers in the directory of the subsystem. Where `scandir` reports an error, none are
known. -/
def System.controllers (sys : System) : List Dirent :=
  ((sys.subsys.bind sys.directory).getD []).filter direntController

/-- `scandir` reports an error. -/
def System.ScanFails (sys : System) : Prop :=
  ∃ subsys, sys.subsys = some subsys ∧ sys.directory subsys = none

def System.blkdev (sys : System) (di : Dirent) : Option UdevDevice :=
  sys.subsys.bind fun subsys => controllerBlkdev sys subsys di

/-- The block devices that are found for the controllers. -/
def System.blkdevs (sys : System) : List UdevDevice := sys.controllers.filterMap sys.blkdev

/-- The syspath of a udev device is resolved. -/
def System.Canonical (sys : System) : Prop :=
  ∀ b ∈ sys.blkdevs, ∀ real, sys.realpath b.syspath = some real → real = b.syspath

def syspaths (pgvec : List NvmePath) : List CStr := pgvec.map (·.syspath)

/-- One path group for the block device of each controller and no other ones, and the number of
those that are live. -/
structure Follows (sys : System) (map : NvmeMap) : Prop where
  controller : ∀ di ∈ sys.controllers, ∀ b, sys.blkdev di = some b →
    (syspaths map.pgvec).count b.syspath = 1
  path : ∀ path ∈ map.pgvec, ∃ di ∈ sys.controllers, ∃ b, sys.blkdev di = some b ∧
    b.syspath = path.syspath
  live : map.nrLive = map.pgvec.countP (isLive sys)

/-- There is a controller, or there was none before, and every new block device has its controller as
a parent. -/
structure CanFollow (sys : System) (map : NvmeMap) : Prop where
  controller : sys.controllers = [] → map.pgvec = []
  parent : ∀ b ∈ sys.blkdevs, b.syspath ∈ syspaths map.pgvec ∨
    ∃ b' ∈ sys.blkdevs, b'.syspath = b.syspath ∧ b'.nvmeParent.isSome

/-- What holds between the calls. -/
structure NvmeMap.Sound (map : NvmeMap) : Prop where
  nodup : (syspaths map.pgvec).Nodup
  live : map.nrLive ≤ map.pgvec.length

section Turns

variable {s : CStr} {known : List CStr} {done : List UdevDevice}

theorem markSeen_of_not_mem (h : s ∉ syspaths pgvec) : markSeen s pgvec = none := by
  induction pgvec with
  | nil => rfl
  | cons path pgvec ih =>
    rw [syspaths, List.map_cons, List.mem_cons, not_or] at h
    rw [markSeen, if_neg (Ne.symm h.1), ih h.2]
    rfl

theorem markSeen_of_mem (hnodup : (syspaths pgvec).Nodup) (h : s ∈ syspaths pgvec) :
    markSeen s pgvec =
      some (updateKey (fun path : NvmePath => path.syspath) s
        (fun path => { path with seen := true }) pgvec) := by
  induction pgvec with
  | nil => cases h
  | cons path pgvec ih =>
    rw [syspaths, List.map_cons, List.nodup_cons] at hnodup
    rw [updateKey, List.map_cons, markSeen]
    split_ifs with heq
    · have hrest := @updateKey_of_not_mem _ _ _ (fun path : NvmePath => path.syspath) _ _
        (fun path => { path with seen := true }) (heq ▸ hnodup.1)
      rw [updateKey] at hrest
      rw [hrest]
    · have hmem : s ∈ syspaths pgvec := by
        rw [syspaths, List.map_cons] at h
        exact List.mem_of_ne_of_mem (Ne.symm heq) h
      rw [ih hnodup.2 hmem]
      rfl

/-- What holds in the loop over the directory: no path is there twice, the paths are those from
before and the new ones, and those of the block devices that have been met are seen. -/
structure Marked (known : List CStr) (done : List UdevDevice) (pgvec : List NvmePath) : Prop where
  nodup : (syspaths pgvec).Nodup
  mem : ∀ s, s ∈ syspaths pgvec ↔
    s ∈ known ∨ ∃ b ∈ done, b.syspath = s ∧ b.nvmeParent.isSome
  seen : ∀ path ∈ pgvec, path.seen = true ↔ ∃ b ∈ done, b.syspath = path.syspath

theorem addPath_marked (h : Marked known done pgvec)
    (hreal : (sys.realpath b.syspath).getD b.syspath = b.syspath) :
    Marked known (done ++ [b]) (addPath sys pgvec b) := by
  unfold addPath
  rw [hreal]
  by_cases hmem : b.syspath ∈ syspaths pgvec
  · rw [markSeen_of_mem h.nodup hmem]
    have hkeys : syspaths (updateKey (fun path : NvmePath => path.syspath) b.syspath
        (fun path => { path with seen := true }) pgvec) = syspaths pgvec :=
      map_key_updateKey fun _ => rfl
    refine ⟨hkeys ▸ h.nodup, fun s => ?_, fun path hpath => ?_⟩
    · rw [hkeys, h.mem]
      constructor
      · rintro (hs | ⟨c, hc, hs⟩)
        · exact .inl hs
        · exact .inr ⟨c, List.mem_append_left _ hc, hs⟩
      · rintro (hs | ⟨c, hc, hs, hparent⟩)
        · exact .inl hs
        · rcases List.mem_append.mp hc with hc | hc
          · exact .inr ⟨c, hc, hs, hparent⟩
          · obtain rfl := List.mem_singleton.mp hc
            exact (h.mem s).mp (hs ▸ hmem)
    · obtain ⟨old, hold, rfl⟩ := List.mem_map.mp hpath
      have hseen := h.seen old hold
      split_ifs with heq
      · simp [heq]
      · rw [hseen]
        simp [Ne.symm heq]
  · rw [markSeen_of_not_mem hmem]
    dsimp only
    cases hparent : b.nvmeParent with
    | none =>
      refine ⟨h.nodup, fun s => ?_, fun path hpath => ?_⟩
      · rw [h.mem]
        simp [or_and_right, exists_or, hparent]
      · have hne : b.syspath ≠ path.syspath := fun heq => hmem (heq ▸ List.mem_map_of_mem hpath)
        rw [h.seen path hpath]
        simp [hne]
    | some ctl =>
      refine ⟨?_, fun s => ?_, fun path hpath => ?_⟩
      · rw [syspaths, List.map_append]
        exact List.nodup_append.mpr ⟨h.nodup, List.nodup_singleton _, by
          rintro s hs t ht rfl
          have heq : s = b.syspath := List.mem_singleton.mp ht
          exact hmem (heq ▸ hs)⟩
      · have hold := h.mem s
        simp only [syspaths, List.map_append, List.mem_append] at hold ⊢
        rw [hold]
        simp [or_and_right, exists_or, hparent, or_assoc, @eq_comm _ s]
      · rcases List.mem_append.mp hpath with hpath | hpath
        · have hne : b.syspath ≠ path.syspath := fun heq => hmem (heq ▸ List.mem_map_of_mem hpath)
          rw [h.seen path hpath]
          simp [hne]
        · obtain rfl := List.mem_singleton.mp hpath
          simp

theorem foldl_addPath_marked {udevs : List UdevDevice} (h : Marked known done pgvec)
    (hreal : ∀ b ∈ udevs, (sys.realpath b.syspath).getD b.syspath = b.syspath) :
    Marked known (done ++ udevs) (udevs.foldl (addPath sys) pgvec) := by
  induction udevs generalizing done pgvec with
  | nil =>
    rw [List.append_nil]
    exact h
  | cons b udevs ih =>
    rw [List.forall_mem_cons] at hreal
    have hrest := ih (addPath_marked h hreal.1) hreal.2
    rw [List.append_assoc] at hrest
    exact hrest

theorem dropUnseen_eq (sys : System) (pgvec : List NvmePath) :
    dropUnseen sys pgvec = (pgvec.filter (·.seen), (pgvec.filter (·.seen)).countP (isLive sys)) := by
  induction pgvec with
  | nil => rfl
  | cons path pgvec ih =>
    rw [dropUnseen, ih]
    by_cases hseen : path.seen = true
    · rw [if_pos hseen, List.filter_cons_of_pos hseen, List.countP_cons]
      split_ifs <;> rfl
    · rw [if_neg hseen, List.filter_cons_of_neg hseen]

end Turns

section Calls

variable {calls : List System}

/-- The paths before the loop over the directory. -/
def unseen (map : NvmeMap) : List NvmePath :=
  map.pgvec.map fun path => { path with seen := false }

theorem syspaths_unseen (map : NvmeMap) : syspaths (unseen map) = syspaths map.pgvec := by
  rw [syspaths, unseen, List.map_map]
  rfl

theorem unseen_marked (h : map.Sound) : Marked (syspaths map.pgvec) [] (unseen map) := by
  refine ⟨(syspaths_unseen map).symm ▸ h.nodup, fun s => ?_, fun path hpath => ?_⟩
  · rw [syspaths_unseen]
    simp
  · obtain ⟨old, -, rfl⟩ := List.mem_map.mp hpath
    simp

/-- The paths after the loop over the directory. -/
def marked (sys : System) (map : NvmeMap) : List NvmePath :=
  sys.blkdevs.foldl (addPath sys) (unseen map)

theorem findControllers_of_nil (h : sys.controllers = []) :
    findControllers sys map = { map with pgvec := unseen map } := by
  unfold System.controllers at h
  unfold findControllers
  cases hsubsys : sys.subsys with
  | none => rfl
  | some subsys =>
    cases hdir : sys.directory subsys with
    | none => simp [hdir, unseen]
    | some di =>
      rw [hsubsys, Option.bind_some, hdir, Option.getD_some] at h
      simp [hdir, h, unseen]

theorem findControllers_of_ne_nil (h : sys.controllers ≠ []) :
    findControllers sys map =
      ⟨(marked sys map).filter (·.seen), ((marked sys map).filter (·.seen)).countP (isLive sys)⟩ := by
  unfold marked System.blkdevs
  unfold System.controllers at h ⊢
  unfold findControllers
  cases hsubsys : sys.subsys with
  | none => simp [hsubsys] at h
  | some subsys =>
    cases hdir : sys.directory subsys with
    | none => simp [hsubsys, hdir] at h
    | some di =>
      rw [hsubsys, Option.bind_some, hdir, Option.getD_some] at h
      have hblkdev : sys.blkdev = controllerBlkdev sys subsys := by
        funext di
        rw [System.blkdev, hsubsys, Option.bind_some]
      simp only [hdir, if_neg h, dropUnseen_eq, Option.bind_some, Option.getD_some, hblkdev]
      rfl

theorem mem_blkdevs : b ∈ sys.blkdevs ↔ ∃ di ∈ sys.controllers, sys.blkdev di = some b :=
  List.mem_filterMap

theorem marked_marked (h : map.Sound) (hreal : sys.Canonical) :
    Marked (syspaths map.pgvec) sys.blkdevs (marked sys map) := by
  refine @foldl_addPath_marked _ _ _ [] _ (unseen_marked h) fun b hb => ?_
  cases hpath : sys.realpath b.syspath with
  | none => rfl
  | some real => exact hreal b hb real hpath

theorem findControllers_sound (h : map.Sound) (hreal : sys.Canonical) :
    (findControllers sys map).Sound := by
  by_cases hcontrollers : sys.controllers = []
  · rw [findControllers_of_nil hcontrollers]
    exact ⟨(syspaths_unseen map).symm ▸ h.nodup, by rw [unseen, List.length_map]; exact h.live⟩
  · rw [findControllers_of_ne_nil hcontrollers]
    refine ⟨?_, List.countP_le_length⟩
    exact (marked_marked h hreal).nodup.sublist (List.filter_sublist.map _)

theorem follow_sound (hreal : ∀ sys ∈ calls, sys.Canonical) : (follow calls).Sound := by
  unfold follow
  induction calls using List.reverseRecOn with
  | nil => exact ⟨List.nodup_nil, Nat.le_refl 0⟩
  | append_singleton calls sys ih =>
    rw [List.foldl_append]
    exact findControllers_sound (ih fun u hu => hreal u (List.mem_append_left _ hu))
      (hreal sys (List.mem_append_right _ (List.mem_singleton_self sys)))

theorem count_eq_one_iff {s : CStr} (h : (syspaths pgvec).Nodup) :
    (syspaths pgvec).count s = 1 ↔ s ∈ syspaths pgvec := by
  constructor
  · intro hcount
    exact List.count_pos_iff.mp (by omega)
  · exact List.count_eq_one_of_mem h

theorem follows_of_nil (h : map.Sound) (hcontrollers : sys.controllers = []) :
    Follows sys (findControllers sys map) ↔ CanFollow sys map := by
  rw [findControllers_of_nil hcontrollers]
  constructor
  · intro hfollows
    refine ⟨fun _ => ?_, fun b hb => ?_⟩
    · refine List.eq_nil_iff_forall_not_mem.mpr fun path hpath => ?_
      obtain ⟨di, hdi, -⟩ := hfollows.path _ (List.mem_map_of_mem hpath)
      rw [hcontrollers] at hdi
      cases hdi
    · obtain ⟨di, hdi, -⟩ := mem_blkdevs.mp hb
      rw [hcontrollers] at hdi
      cases hdi
  · intro hcan
    have hnil := hcan.controller hcontrollers
    have hlive := h.live
    rw [hnil] at hlive
    refine ⟨fun di hdi => ?_, fun path hpath => ?_, ?_⟩
    · rw [hcontrollers] at hdi
      cases hdi
    · dsimp only [unseen] at hpath
      rw [hnil] at hpath
      cases hpath
    · dsimp only [unseen]
      rw [hnil]
      exact Nat.le_zero.mp hlive

theorem mem_seen_iff (h : map.Sound) (hreal : sys.Canonical) {s : CStr} :
    s ∈ syspaths ((marked sys map).filter (·.seen)) ↔
      s ∈ syspaths (marked sys map) ∧ ∃ b ∈ sys.blkdevs, b.syspath = s := by
  have hmarked := marked_marked h hreal
  unfold syspaths
  constructor
  · intro hs
    obtain ⟨path, hpath, rfl⟩ := List.mem_map.mp hs
    obtain ⟨hpath, hseen⟩ := List.mem_filter.mp hpath
    exact ⟨List.mem_map_of_mem hpath, (hmarked.seen path hpath).mp hseen⟩
  · rintro ⟨hs, hb⟩
    obtain ⟨path, hpath, rfl⟩ := List.mem_map.mp hs
    exact List.mem_map_of_mem (List.mem_filter.mpr ⟨hpath, (hmarked.seen path hpath).mpr hb⟩)

theorem follows_of_ne_nil (h : map.Sound) (hreal : sys.Canonical)
    (hcontrollers : sys.controllers ≠ []) :
    Follows sys (findControllers sys map) ↔ CanFollow sys map := by
  have hmarked := marked_marked h hreal
  have hnodup : (syspaths ((marked sys map).filter (·.seen))).Nodup :=
    hmarked.nodup.sublist (List.filter_sublist.map _)
  rw [findControllers_of_ne_nil hcontrollers]
  constructor
  · intro hfollows
    refine ⟨fun hnil => absurd hnil hcontrollers, fun b hb => ?_⟩
    obtain ⟨di, hdi, hdib⟩ := mem_blkdevs.mp hb
    have hcount := hfollows.controller di hdi b hdib
    rw [count_eq_one_iff hnodup, mem_seen_iff h hreal] at hcount
    exact (hmarked.mem _).mp hcount.1
  · intro hcan
    refine ⟨fun di hdi b hdib => ?_, fun path hpath => ?_, rfl⟩
    · have hb := mem_blkdevs.mpr ⟨di, hdi, hdib⟩
      rw [count_eq_one_iff hnodup, mem_seen_iff h hreal]
      exact ⟨(hmarked.mem _).mpr (hcan.parent b hb), b, hb, rfl⟩
    · obtain ⟨hpath, hseen⟩ := List.mem_filter.mp hpath
      obtain ⟨b, hb, heq⟩ := (hmarked.seen path hpath).mp hseen
      obtain ⟨di, hdi, hdib⟩ := mem_blkdevs.mp hb
      exact ⟨di, hdi, b, hdib, heq⟩

/-- After any calls, the map follows its controllers in the next call exactly if it can. -/
theorem follow_follows_iff (hreal : ∀ u ∈ calls ++ [sys], u.Canonical) :
    Follows sys (follow (calls ++ [sys])) ↔ CanFollow sys (follow calls) := by
  have hsound := follow_sound fun u hu => hreal u (List.mem_append_left _ hu)
  have hsys := hreal sys (List.mem_append_right _ (List.mem_singleton_self sys))
  have hlast : follow (calls ++ [sys]) = findControllers sys (follow calls) := by
    rw [follow, List.foldl_append]
    rfl
  rw [hlast]
  by_cases hcontrollers : sys.controllers = []
  · exact follows_of_nil hsound hcontrollers
  · exact follows_of_ne_nil hsound hsys hcontrollers

/-- A subsystem with the controllers of these names. -/
def sampleSystem (names : List String) : System where
  subsys := some "/sys/sub".toList
  directory _ := some (names.map fun name => ⟨name.toList, true⟩)
  realpath := some
  newFromSyspath path := some ⟨path, some "disk".toList, some (path.take 14)⟩
  blockChildren ctl := some [ctl ++ "/n1".toList]
  state _ := some "live".toList

theorem sampleSystem_canonical (names : List String) : (sampleSystem names).Canonical :=
  fun _ _ _ hreal => (Option.some.inj hreal).symm

theorem follow_follows_iff_sample :
    Follows (sampleSystem ["nvme1"])
        (follow [sampleSystem ["nvme0", "nvme1"], sampleSystem ["nvme1"]]) ↔
      CanFollow (sampleSystem ["nvme1"]) (follow [sampleSystem ["nvme0", "nvme1"]]) :=
  @follow_follows_iff _ [sampleSystem ["nvme0", "nvme1"]] (by
    intro u hu
    simp only [List.cons_append, List.nil_append, List.mem_cons, List.not_mem_nil, or_false] at hu
    rcases hu with rfl | rfl <;> exact sampleSystem_canonical _)

/-- The path of the only controller stays, and counts as live, when the controller is gone. -/
theorem follow_follows_fails :
    ¬ ∀ (calls : List System) (sys : System), (∀ u ∈ calls ++ [sys], u.Canonical) →
      ¬ sys.ScanFails → Follows sys (follow (calls ++ [sys])) := by
  intro h
  have hscan : ¬ (sampleSystem []).ScanFails := by
    rintro ⟨subsys, -, hdir⟩
    cases hdir
  have hfollows := h [sampleSystem ["nvme0"]] (sampleSystem []) (by
    intro u hu
    simp only [List.cons_append, List.nil_append, List.mem_cons, List.not_mem_nil, or_false] at hu
    rcases hu with rfl | rfl <;> exact sampleSystem_canonical _) hscan
  have hpath : (follow [sampleSystem ["nvme0"], sampleSystem []]).pgvec =
      [⟨"/sys/sub/nvme0/n1".toList, "/sys/sub/nvme0".toList, false⟩] := by decide
  obtain ⟨di, hdi, -⟩ := hfollows.path _ (hpath ▸ List.mem_singleton_self _)
  cases hdi

end Calls

end MultipathTools.Nvme
