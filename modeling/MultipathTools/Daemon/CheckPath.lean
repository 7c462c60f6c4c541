import MultipathTools.Daemon.Reinstate
import MultipathTools.Dmparser.Status

/-! The whole check of a path (`check_path` of `multipathd/main.c`), with what it does to the map
of the path and to the kernel. -/
namespace MultipathTools.Daemon
open Dmparser

/-- `CHECKINT_UNDEF`. -/
def checkintUndef : ℕ := 2 ^ 32 - 1

/-- `-FAILBACK_MANUAL` and so on; a positive number of seconds is a deferred failback. -/
def failbackManual : ℤ := -1
def failbackImmediate : ℤ := -2
def failbackFollowover : ℤ := -3

/-- The fields of `struct config` that a check uses. -/
structure CheckConf where
  checkint : ℕ
  maxCheckint : ℕ
  marginalPathgroups : Bool := false
  deriving DecidableEq, Repr

/-- The fields of `struct path` that a check uses. `mapped` tells whether `mpp` is not NULL. -/
structure CheckedPath where
  err : ErrPath
  chkrstate : PathState
  dmstate : PState := .undef
  tick : ℕ := 0
  checkint : ℕ
  pgindex : ℤ := 0
  mapped : Bool := true
  initialized : InitState := .ok
  deriving DecidableEq, Repr

/-- The path in its new state. -/
def CheckedPath.found (pp : CheckedPath) (newstate : PathState) : CheckedPath :=
  { pp with chkrstate := newstate, err := { pp.err with state := newstate } }

/-- The fields of `struct multipath` that a check uses. `pg` tells whether `mpp->pg` is not NULL,
and `disabled` which groups are `PGSTATE_DISABLED`. -/
structure CheckedMap where
  settings : ErrSettings
  groupByPrio : Bool := false
  pgfailback : ℤ := failbackManual
  failbackTick : ℤ := 0
  bestpg : ℤ := 1
  nextpg : ℤ := 0
  pg : Bool := true
  disabled : ℤ → Bool := fun _ => false
  waitForUdev : Bool := false
  ghostDelay : Bool := false
  prflag : Bool := false
  statPathFailures : ℕ := 0
  statSwitchgroup : ℕ := 0

/-- What is asked of device-mapper, and the calls that this model does not go into. -/
inductive DmCall where
  | failPath (i : ℕ) | reinstatePath (i : ℕ)
  | enablegroup (pgindex : ℤ) | switchgroup (pgindex : ℤ)
  | setNoPathRetry | updateQueueModeDelPath | updateQueueModeAddPath
  | prEvent (i : ℕ)
  | reloadMap (refresh : Bool)
  deriving DecidableEq, Repr

/-- A map, its paths, and what the kernel has of each. -/
structure CheckedSystem where
  mpp : CheckedMap
  size : ℕ
  path : ℕ → CheckedPath
  kernel : ℕ → PState
  calls : List DmCall := []

/-- What the kernel says of the groups of a map. -/
structure GroupTable where
  nextpg : ℤ
  disabled : ℤ → Bool := fun _ => false
  pgindex : ℕ → ℤ := fun _ => 1

/-- What `update_multipath_strings` comes to. -/
inductive Sync where
  | notFound
  /-- The path is not in the map any more; the status of the map has been read, or not. -/
  | orphaned (table : Option GroupTable)
  | tableFailed | statusFailed
  | ok (table : GroupTable)

/-- What one check finds on its way: the states that `path_offline` and the checker give, the paths
that `pathinfo` cannot open any more, the messages about paths that get through, whether a priority
has changed, the result of `select_path_group`, and what the kernel has after a reload, unless it
fails. -/
structure Seen where
  offline : PathState := .up
  checker : PathState
  sync : Sync
  now : ℤ := 0
  needIoErrCheck : Bool := false
  implicitTpgs : Bool := false
  gone : ℕ → Bool := fun _ => false
  works : ℕ → Bool := fun _ => true
  prioChanged : Bool := false
  best : ℤ := 1
  reload : Option ((ℕ → PState) × GroupTable) := none

def PathState.good (state : PathState) : Bool := state = .up ∨ state = .ghost

variable (conf : CheckConf) (seen : Seen)

/-- The state that `check_path` goes on with. -/
def Seen.newstate : PathState :=
  let newstate := if seen.offline = .up then seen.checker else seen.offline
  if newstate = .removed then .down else newstate

namespace CheckedSystem

variable (s : CheckedSystem) (i : ℕ)

def setPath (pp : CheckedPath) : CheckedSystem := { s with path := Function.update s.path i pp }

def call (c : DmCall) : CheckedSystem := { s with calls := s.calls ++ [c] }

/-- The path is in one of the groups. -/
def inPg (j : ℕ) : Bool := s.mpp.pg && (s.path j).mapped

/-- `count_active_paths`. -/
def activePaths : ℕ :=
  (List.range s.size).countP fun j => s.inPg j && PathState.good (s.path j).err.state

/-- `dm_fail_path` and `dm_reinstate_path`. -/
def message (works : Bool) (dmstate : PState) (c : DmCall) : CheckedSystem :=
  { s.call c with kernel := if works then Function.update s.kernel i dmstate else s.kernel }

/-- `fail_path`. -/
def failPath (delActive : Bool) : CheckedSystem :=
  let s := s.message i (seen.works i) .failed (.failPath i)
  if delActive then s.call .updateQueueModeDelPath else s

/-- `reinstate_path`. -/
def reinstatePath : CheckedSystem :=
  let s := s.message i (seen.works i) .active (.reinstatePath i)
  if seen.works i then s.call .updateQueueModeAddPath else s

/-- `enable_group`. -/
def enableGroup : CheckedSystem :=
  let pgindex := (s.path i).pgindex
  if s.mpp.pg ∧ pgindex ≠ 0 ∧ s.mpp.disabled pgindex then s.call (.enablegroup pgindex) else s

/-- The end of `pathinfo` at `blank`, for the paths that are asked about. -/
def pathinfo (asked : ℕ → Bool) : CheckedSystem :=
  { s with path := fun j =>
      if asked j ∧ seen.gone j ∧ (s.path j).initialized ≠ .removed then
        { s.path j with chkrstate := .down, err := { (s.path j).err with state := .down } }
      else s.path j }

/-- `need_switch_pathgroup`, without the refresh. -/
def needSwitchPathgroup (best : ℤ) : CheckedSystem × Bool :=
  if s.mpp.pg = false ∨ s.size = 0 ∨ s.mpp.pgfailback = failbackManual then (s, false)
  else ({ s with mpp := { s.mpp with bestpg := best } }, best ≠ s.mpp.nextpg)

/-- `switch_pathgroup`. -/
def switchPathgroup : CheckedSystem :=
  { s.call (.switchgroup s.mpp.bestpg) with
    mpp := { s.mpp with statSwitchgroup := s.mpp.statSwitchgroup + 1 } }

/-- `followover_should_failback`. -/
def followoverShouldFailback : Bool :=
  let pgindex := (s.path i).pgindex
  s.mpp.pgfailback = failbackFollowover ∧ s.mpp.pg ∧ pgindex ≠ 0 ∧ pgindex = s.mpp.bestpg ∧
    (List.range s.size).all fun j =>
      j = i || !(s.path j).mapped || (s.path j).pgindex ≠ pgindex ||
        (s.path j).chkrstate = .down || (s.path j).chkrstate = .shaky

/-- The kernel's states are read. -/
def readTable (table : GroupTable) : CheckedSystem := { s with
  mpp := { s.mpp with pg := true, nextpg := table.nextpg, disabled := table.disabled }
  path := fun j => { s.path j with dmstate := s.kernel j, pgindex := table.pgindex j } }

/-- What `sync_map_state` makes of a path. -/
def syncPath (dmstate : PState) (state : PathState) : Option PState :=
  if state = .unchecked ∨ state = .wild ∨ state = .delayed then none
  else if (dmstate = .failed ∨ dmstate = .undef) ∧ (state = .up ∨ state = .ghost) then some .active
  else if (dmstate = .active ∨ dmstate = .undef) ∧ (state = .down ∨ state = .shaky) then some .failed
  else none

/-- `sync_map_state`. -/
def syncMapState : CheckedSystem :=
  let asked (j : ℕ) : Option PState :=
    if s.mpp.ghostDelay = false ∧ s.inPg j ∧ j < s.size then
      syncPath (s.path j).dmstate (s.path j).err.state
    else none
  { s with
    kernel := fun j => if seen.works j then (asked j).getD (s.kernel j) else s.kernel j
    calls := s.calls ++ (List.range s.size).filterMap fun j =>
      (asked j).map fun dmstate => if dmstate = .active then .reinstatePath j else .failPath j }

/-- `reload_and_sync_map`. A reload that fails leaves the kernel's table alone. -/
def reloadAndSyncMap (refresh : Bool) : CheckedSystem :=
  let s := if refresh then s.pathinfo seen fun j => (s.path j).mapped else s
  let s := s.call (.reloadMap refresh)
  match seen.reload with
  | none => s
  | some (kernel, table) => (readTable { s with kernel } table).syncMapState seen

/-- The end of `check_path`, from `path prio refreshing` on. -/
def refresh (newPathUp chkrNewPathUp marginalChanged : Bool) : CheckedSystem :=
  if s.mpp.waitForUdev then s
  else if marginalChanged then s.reloadAndSyncMap seen true
  else
    -- `update_prio`
    let s :=
      if newPathUp then s.pathinfo seen s.inPg
      else if (s.path i).err.state ≠ .down then s.pathinfo seen fun j => j = i
      else s
    if seen.prioChanged ∧ s.mpp.groupByPrio ∧ s.mpp.pgfailback = failbackImmediate then
      s.reloadAndSyncMap seen !newPathUp
    else
      let r := s.needSwitchPathgroup seen.best
      let s := r.1
      if r.2 then
        if 0 < s.mpp.pgfailback ∧ (newPathUp ∨ s.mpp.failbackTick ≤ 0) then
          { s with mpp := { s.mpp with failbackTick := s.mpp.pgfailback + 1 } }
        else if s.mpp.pgfailback = failbackImmediate ∨
            chkrNewPathUp ∧ s.followoverShouldFailback i then
          s.switchPathgroup
        else s
      else s

/-- What `check_path` does for a path that has become good. -/
def recover (newstate : PathState) (disableReinstate : Bool) : CheckedSystem :=
  let s := if s.mpp.prflag then s.call (.prEvent i) else s
  let s := if disableReinstate then s else s.reinstatePath seen i
  if newstate = .up then s.enableGroup i else s

/-- `check_path` for a path that is found in a new state. -/
def changed (newstate : PathState) (disableReinstate marginalChanged chkrNewPathUp : Bool) :
    CheckedSystem :=
  let pp := s.path i
  let oldstate := pp.err.state
  let s := s.setPath i { pp.found newstate with checkint := conf.checkint }
  if PathState.good newstate = false then
    let s := s.failPath seen i (PathState.good oldstate)
    { s with mpp := { s.mpp with
        failbackTick := 0
        statPathFailures := s.mpp.statPathFailures + 1 } }
  else
    (s.recover seen i newstate disableReinstate).refresh seen i true chkrNewPathUp marginalChanged

/-- The next interval for a path that stays good. -/
def nextCheckint (checkint : ℕ) : ℕ :=
  if checkint = conf.maxCheckint then checkint
  else if checkint < conf.maxCheckint / 2 then 2 * checkint
  else conf.maxCheckint

/-- `check_path` for a path that is found as it was. -/
def unchanged (newstate : PathState) (disableReinstate marginalChanged : Bool) : CheckedSystem :=
  let pp := { s.path i with chkrstate := newstate }
  let s := s.setPath i pp
  let s :=
    if PathState.good newstate then
      if (pp.dmstate = .failed ∨ pp.dmstate = .undef) ∧ disableReinstate = false then
        s.reinstatePath seen i
      else
        let checkint := nextCheckint conf pp.checkint
        s.setPath i { pp with checkint, tick := checkint }
    else if pp.dmstate = .active ∨ pp.dmstate = .undef then s.failPath seen i false
    else s
  s.refresh seen i false false marginalChanged

/-- `check_path` from `disable_reinstate` on. -/
def settle (newstate : PathState) (marginalChanged chkrNewPathUp : Bool) : CheckedSystem :=
  let disableReinstate := newstate = .ghost ∧ s.activePaths = 0 ∧ seen.implicitTpgs
  if newstate = (s.path i).err.state then
    s.unchanged conf seen i newstate disableReinstate marginalChanged
  else s.changed conf seen i newstate disableReinstate marginalChanged chkrNewPathUp

/-- What `should_skip_path` is given. -/
def errCheck (newstate : PathState) : Check :=
  { newstate
    active := s.activePaths
    now := seen.now
    needIoErrCheck := seen.needIoErrCheck
    marginalPathgroups := conf.marginalPathgroups }

/-- `check_path` behind `set_no_path_retry`. -/
def judge (newstate : PathState) (chkrNewPathUp : Bool) : CheckedSystem :=
  let settings := s.mpp.settings
  let pp := s.path i
  if PathState.good newstate ∧
      (sanPathCheckEnabled settings ∨ marginalPathCheckEnabled settings) then
    let r := shouldSkipPath settings (s.errCheck conf seen newstate) pp.err
    if r.2 then
      if conf.marginalPathgroups = false then
        s.setPath i { pp with
          err := { r.1 with state := .delayed }
          tick := if marginalPathCheckEnabled settings then 1 else pp.tick }
      else
        (s.setPath i { pp with err := { r.1 with marginal := true } }).settle conf seen i newstate
          (!pp.err.marginal) chkrNewPathUp
    else if conf.marginalPathgroups ∧ pp.err.marginal then
      (s.setPath i { pp with err := { r.1 with marginal := false } }).settle conf seen i newstate
        true chkrNewPathUp
    else (s.setPath i { pp with err := r.1 }).settle conf seen i newstate false chkrNewPathUp
  else s.settle conf seen i newstate false chkrNewPathUp

/-- The kernel's states are not known; the groups may not be either. -/
def unsynced (pg : Bool) : CheckedSystem :=
  { s with mpp := { s.mpp with pg } }.setPath i { s.path i with dmstate := .undef }

/-- `check_path` from `update_multipath_strings` on. -/
def synchronize (newstate : PathState) (chkrNewPathUp : Bool) : CheckedSystem :=
  match seen.sync with
  | .notFound => { s with mpp := { s.mpp with pg := false } }
  | .orphaned table =>
    let s := match table with
      | some table => s.readTable table
      | none => s.unsynced i true
    s.setPath i { s.path i with mapped := false }
  | .tableFailed =>
    ((s.unsynced i false).call .setNoPathRetry).judge conf seen i newstate chkrNewPathUp
  | .statusFailed =>
    ((s.unsynced i true).call .setNoPathRetry).judge conf seen i newstate chkrNewPathUp
  | .ok table =>
    ((s.readTable table).call .setNoPathRetry).judge conf seen i newstate chkrNewPathUp

/-- `check_path` provides for the next check. -/
def due : CheckedSystem :=
  let pp := s.path i
  s.setPath i { pp with
    checkint := if pp.checkint = checkintUndef then conf.checkint else pp.checkint
    tick := conf.checkint }

/-- `check_path` when the path is due. -/
def examine : CheckedSystem :=
  let pp := s.path i
  let oldchkrstate := pp.chkrstate
  let s := s.due conf i
  let newstate := seen.newstate
  if newstate = .wild ∨ newstate = .unchecked then s.pathinfo seen fun j => j = i
  else if PathState.good newstate = false ∧ pp.err.state = .delayed then
    s.setPath i { s.path i with err := { pp.err with state := newstate } }
  else if newstate = .pending then s.setPath i { s.path i with tick := 1 }
  else s.synchronize conf seen i newstate !(PathState.good oldchkrstate)

/-- The path is left alone by this round of the checker: it has no map, or is not due. -/
def skips (ticks : ℕ) : Prop :=
  (s.path i).mapped = false ∨ (s.path i).initialized = .removed ∨ ticks < (s.path i).tick

instance (ticks : ℕ) : Decidable (s.skips i ticks) := inferInstanceAs (Decidable (_ ∨ _))

/-- `check_path`, for a path that belongs to the map, or did. -/
def checkPath (ticks : ℕ) : CheckedSystem :=
  let pp := s.path i
  if pp.mapped = false ∨ pp.initialized = .removed then s
  else
    let tick := pp.tick - if ticks < pp.tick then ticks else pp.tick
    let s := s.setPath i { pp with tick }
    if tick ≠ 0 then s else s.examine conf seen i

/-- `defered_failback_tick`, for this map. -/
def deferedFailbackTick : CheckedSystem :=
  if 0 < s.mpp.pgfailback ∧ 0 < s.mpp.failbackTick then
    let s := { s with mpp := { s.mpp with failbackTick := s.mpp.failbackTick - 1 } }
    if s.mpp.failbackTick = 0 then
      let r := (s.pathinfo seen s.inPg).needSwitchPathgroup seen.best
      if r.2 then r.1.switchPathgroup else r.1
    else s
  else s

section Frame
variable {conf : CheckConf} {seen : Seen} {s t u : CheckedSystem} {i j : ℕ} {pp qq rr : CheckedPath}
  {gone : Bool}

/-- What the calls of `pathinfo` and the synchronization leave of a path: all but `dmstate` and
`chkrstate`, and its state if it is not gone. -/
structure Kept (gone : Bool) (pp qq : CheckedPath) : Prop where
  tick : qq.tick = pp.tick
  checkint : qq.checkint = pp.checkint
  mapped : qq.mapped = pp.mapped
  initialized : qq.initialized = pp.initialized
  err : qq.err = pp.err ∨ gone = true ∧ qq.err = { pp.err with state := .down }

theorem Kept.refl (gone : Bool) (pp : CheckedPath) : Kept gone pp pp :=
  ⟨rfl, rfl, rfl, rfl, .inl rfl⟩

theorem Kept.trans (h : Kept gone pp qq) (h' : Kept gone qq rr) : Kept gone pp rr := by
  refine ⟨h'.tick.trans h.tick, h'.checkint.trans h.checkint, h'.mapped.trans h.mapped,
    h'.initialized.trans h.initialized, ?_⟩
  obtain herr | ⟨hgone, herr⟩ := h'.err
  · rw [herr]
    exact h.err
  · refine .inr ⟨hgone, ?_⟩
    obtain herr' | ⟨-, herr'⟩ := h.err <;> rw [herr, herr']

/-- Unless the path is gone, its state is kept. -/
theorem Kept.state (h : Kept gone pp qq) : qq.err.state = pp.err.state ∨
    gone = true ∧ qq.err.state = .down := by
  obtain herr | ⟨hgone, herr⟩ := h.err
  · exact .inl (congrArg ErrPath.state herr)
  · exact .inr ⟨hgone, congrArg ErrPath.state herr⟩

@[simp] theorem setPath_self (pp : CheckedPath) : (s.setPath i pp).path i = pp :=
  Function.update_self _ _ _

theorem setPath_of_ne (pp : CheckedPath) (h : j ≠ i) : (s.setPath i pp).path j = s.path j :=
  Function.update_of_ne h _ _

theorem setPath_setPath (pp qq : CheckedPath) : (s.setPath i pp).setPath i qq = s.setPath i qq := by
  unfold setPath
  rw [Function.update_idem]

theorem failPath_eq (delActive : Bool) : ∃ calls, s.failPath seen i delActive = { s with
    kernel := if seen.works i then Function.update s.kernel i .failed else s.kernel
    calls := calls } := by
  unfold failPath message
  dsimp only
  split_ifs <;> exact ⟨_, rfl⟩

theorem reinstatePath_eq : ∃ calls, s.reinstatePath seen i = { s with
    kernel := if seen.works i then Function.update s.kernel i .active else s.kernel
    calls := calls } := by
  unfold reinstatePath message
  dsimp only
  split_ifs <;> exact ⟨_, rfl⟩

theorem enableGroup_eq : ∃ calls, s.enableGroup i = { s with calls := calls } := by
  unfold enableGroup
  dsimp only
  split_ifs <;> exact ⟨_, rfl⟩

theorem pathinfo_kept (asked : ℕ → Bool) (j : ℕ) :
    Kept (seen.gone j) (s.path j) ((s.pathinfo seen asked).path j) := by
  unfold pathinfo
  dsimp only
  split_ifs with hgone
  · exact ⟨rfl, rfl, rfl, rfl, .inr ⟨hgone.2.1, rfl⟩⟩
  · exact .refl _ _

/-- `refresh` changes the schedule of no path, and of the map only what the failback is about. -/
structure Refreshed (seen : Seen) (s t : CheckedSystem) : Prop where
  size : t.size = s.size
  kept : ∀ j, Kept (seen.gone j) (s.path j) (t.path j)
  settings : t.mpp.settings = s.mpp.settings
  pgfailback : t.mpp.pgfailback = s.mpp.pgfailback
  ghostDelay : t.mpp.ghostDelay = s.mpp.ghostDelay

theorem Refreshed.refl (s : CheckedSystem) : Refreshed seen s s :=
  ⟨rfl, fun _ => .refl _ _, rfl, rfl, rfl⟩

theorem Refreshed.trans (h : Refreshed seen s t) (h' : Refreshed seen t u) : Refreshed seen s u :=
  ⟨h'.size.trans h.size, fun j => (h.kept j).trans (h'.kept j), h'.settings.trans h.settings,
    h'.pgfailback.trans h.pgfailback, h'.ghostDelay.trans h.ghostDelay⟩

theorem pathinfo_refreshed (asked : ℕ → Bool) : Refreshed seen s (s.pathinfo seen asked) :=
  ⟨rfl, pathinfo_kept asked, rfl, rfl, rfl⟩

theorem reloadAndSyncMap_refreshed (refresh : Bool) :
    Refreshed seen s (s.reloadAndSyncMap seen refresh) := by
  have hinfo : Refreshed seen s (if refresh then s.pathinfo seen fun j => (s.path j).mapped else s) := by
    split_ifs
    · exact pathinfo_refreshed _
    · exact .refl _
  unfold reloadAndSyncMap
  generalize (if refresh then s.pathinfo seen fun j => (s.path j).mapped else s) = u at hinfo ⊢
  apply hinfo.trans
  dsimp only
  split
  · exact ⟨rfl, fun _ => .refl _ _, rfl, rfl, rfl⟩
  · exact ⟨rfl, fun _ => ⟨rfl, rfl, rfl, rfl, .inl rfl⟩, rfl, rfl, rfl⟩

theorem needSwitchPathgroup_refreshed (best : ℤ) :
    Refreshed seen s (s.needSwitchPathgroup best).1 := by
  unfold needSwitchPathgroup
  split_ifs <;> exact ⟨rfl, fun _ => .refl _ _, rfl, rfl, rfl⟩

theorem refresh_refreshed (newPathUp chkrNewPathUp marginalChanged : Bool) :
    Refreshed seen s (s.refresh seen i newPathUp chkrNewPathUp marginalChanged) := by
  have hprio : Refreshed seen s
      (if newPathUp then s.pathinfo seen s.inPg
      else if (s.path i).err.state ≠ .down then s.pathinfo seen fun j => j = i
      else s) := by
    split_ifs
    · exact pathinfo_refreshed _
    · exact pathinfo_refreshed _
    · exact .refl _
  unfold refresh
  generalize (if newPathUp then s.pathinfo seen s.inPg
      else if (s.path i).err.state ≠ .down then s.pathinfo seen fun j => j = i
      else s) = u at hprio ⊢
  dsimp only
  split_ifs
  · exact .refl _
  · exact reloadAndSyncMap_refreshed _
  · exact hprio.trans (reloadAndSyncMap_refreshed _)
  all_goals
    apply hprio.trans
    apply (needSwitchPathgroup_refreshed seen.best).trans
    exact ⟨rfl, fun _ => .refl _ _, rfl, rfl, rfl⟩

/-- The kernel's states after a message about the path, if it gets through. -/
def told (seen : Seen) (kernel : ℕ → PState) (i : ℕ) (dmstate : PState) : ℕ → PState :=
  if seen.works i then Function.update kernel i dmstate else kernel

/-- Of the paths only one has been changed, of the kernel's states at most its own. -/
structure Touched (u : CheckedSystem) (i : ℕ) (pp : CheckedPath) (kernel : ℕ → PState)
    (v : CheckedSystem) : Prop where
  self : v.path i = pp
  other : ∀ j, j ≠ i → v.path j = u.path j
  kernel : v.kernel = kernel
  mpp : v.mpp = u.mpp
  size : v.size = u.size

theorem touched_setPath (pp : CheckedPath) (kernel : ℕ → PState) (calls : List DmCall) :
    Touched s i pp kernel { s.setPath i pp with kernel := kernel, calls := calls } :=
  ⟨setPath_self pp, fun _ hj => setPath_of_ne pp hj, rfl, rfl, rfl⟩

/-- What `check_path` does from `disable_reinstate` on. -/
inductive Concluded (conf : CheckConf) (seen : Seen) (u : CheckedSystem) (i : ℕ)
    (newstate : PathState) : CheckedSystem → Prop where
  | failed {v : CheckedSystem} (hbad : PathState.good newstate = false)
      (hnew : newstate ≠ (u.path i).err.state)
      (hv : Touched u i { (u.path i).found newstate with checkint := conf.checkint }
        (told seen u.kernel i .failed) v) :
      Concluded conf seen u i newstate { v with mpp := { v.mpp with
        failbackTick := 0
        statPathFailures := v.mpp.statPathFailures + 1 } }
  | recovered {v : CheckedSystem} {kernel : ℕ → PState} (chkrNewPathUp marginalChanged : Bool)
      (hgood : PathState.good newstate = true) (hnew : newstate ≠ (u.path i).err.state)
      (hkernel : kernel = told seen u.kernel i .active ∨ newstate = .ghost ∧ kernel = u.kernel)
      (hv : Touched u i { (u.path i).found newstate with checkint := conf.checkint }
        kernel v) :
      Concluded conf seen u i newstate (v.refresh seen i true chkrNewPathUp marginalChanged)
  | reinstated {v : CheckedSystem} (marginalChanged : Bool)
      (hgood : PathState.good newstate = true) (hsame : newstate = (u.path i).err.state)
      (hdm : (u.path i).dmstate ≠ .active)
      (hv : Touched u i { u.path i with chkrstate := newstate } (told seen u.kernel i .active) v) :
      Concluded conf seen u i newstate (v.refresh seen i false false marginalChanged)
  | quiet {v : CheckedSystem} (marginalChanged : Bool) (hgood : PathState.good newstate = true)
      (hsame : newstate = (u.path i).err.state)
      (hdm : (u.path i).dmstate = .active ∨ newstate = .ghost)
      (hv : Touched u i { u.path i with
        chkrstate := newstate
        checkint := nextCheckint conf (u.path i).checkint
        tick := nextCheckint conf (u.path i).checkint } u.kernel v) :
      Concluded conf seen u i newstate (v.refresh seen i false false marginalChanged)
  | stillBad {v : CheckedSystem} {kernel : ℕ → PState} (marginalChanged : Bool)
      (hbad : PathState.good newstate = false) (hsame : newstate = (u.path i).err.state)
      (hkernel : kernel = told seen u.kernel i .failed ∨
        (u.path i).dmstate = .failed ∧ kernel = u.kernel)
      (hv : Touched u i { u.path i with chkrstate := newstate } kernel v) :
      Concluded conf seen u i newstate (v.refresh seen i false false marginalChanged)

theorem recover_eq (newstate : PathState) (disableReinstate : Bool)
    (hdisable : disableReinstate = true → newstate = .ghost) (s : CheckedSystem) :
    ∃ calls kernel,
      (kernel = told seen s.kernel i .active ∨ newstate = .ghost ∧ kernel = s.kernel) ∧
      s.recover seen i newstate disableReinstate = { s with kernel := kernel, calls := calls } := by
  have hcall : ∃ calls, (if s.mpp.prflag then s.call (.prEvent i) else s) = { s with calls } := by
    split_ifs <;> exact ⟨_, rfl⟩
  have henable (s : CheckedSystem) :
      ∃ calls, (if newstate = .up then s.enableGroup i else s) = { s with calls } := by
    split_ifs
    · exact enableGroup_eq
    · exact ⟨_, rfl⟩
  obtain ⟨calls, hcall⟩ := hcall
  unfold recover
  dsimp only
  rw [hcall]
  cases disableReinstate with
  | true =>
    obtain ⟨calls', henable⟩ := henable { s with calls }
    exact ⟨calls', s.kernel, .inr ⟨hdisable rfl, rfl⟩, henable⟩
  | false =>
    obtain ⟨calls', hreinstate⟩ := @reinstatePath_eq seen { s with calls } i
    obtain ⟨calls'', henable⟩ := henable (({ s with calls } : CheckedSystem).reinstatePath seen i)
    refine ⟨calls'', told seen s.kernel i .active, .inl rfl, henable.trans ?_⟩
    rw [hreinstate]
    rfl

theorem settle_cases (newstate : PathState) (marginalChanged chkrNewPathUp : Bool) :
    Concluded conf seen s i newstate
      (s.settle conf seen i newstate marginalChanged chkrNewPathUp) := by
  unfold settle
  dsimp only
  split_ifs with hsame
  · unfold unchanged
    dsimp only
    split_ifs with hgood hdm hdm
    · obtain ⟨calls, heq⟩ := @reinstatePath_eq seen
        (s.setPath i { s.path i with chkrstate := newstate }) i
      refine .reinstated marginalChanged hgood hsame ?_ (heq ▸ touched_setPath _ _ calls)
      obtain ⟨hdm | hdm, -⟩ := hdm <;> rw [hdm] <;> nofun
    · rw [setPath_setPath]
      refine .quiet marginalChanged hgood hsame ?_ (touched_setPath _ _ _)
      cases hdm' : (s.path i).dmstate <;> simp_all
    · obtain ⟨calls, heq⟩ := @failPath_eq seen
        (s.setPath i { s.path i with chkrstate := newstate }) i false
      exact .stillBad marginalChanged (Bool.eq_false_iff.mpr hgood) hsame (.inl rfl)
        (heq ▸ touched_setPath _ _ calls)
    · refine .stillBad marginalChanged (Bool.eq_false_iff.mpr hgood) hsame (.inr ⟨?_, rfl⟩)
        (touched_setPath _ _ _)
      cases hdm' : (s.path i).dmstate <;> simp_all
  · unfold changed
    dsimp only
    generalize hv : s.setPath i { (s.path i).found newstate with checkint := conf.checkint } = v
    have htouched (kernel : ℕ → PState) (calls : List DmCall) : Touched s i
        { (s.path i).found newstate with checkint := conf.checkint } kernel
        { v with kernel := kernel, calls := calls } := by
      rw [← hv]
      exact touched_setPath _ kernel calls
    have hkernel : v.kernel = s.kernel := by
      rw [← hv]
      rfl
    split_ifs with hbad
    · obtain ⟨calls, heq⟩ := @failPath_eq seen v i (PathState.good (s.path i).err.state)
      rw [hkernel] at heq
      exact .failed hbad hsame (heq ▸ htouched _ calls)
    · obtain ⟨calls, kernel, htold, heq⟩ := @recover_eq seen i newstate
        (decide (newstate = .ghost ∧ s.activePaths = 0 ∧ seen.implicitTpgs)) (by simp_all) v
      rw [hkernel] at htold
      exact .recovered chkrNewPathUp marginalChanged (by simpa using hbad) hsame htold
        (heq ▸ htouched kernel calls)

/-- What `check_path` has done before it compares the states. -/
structure Prepared (conf : CheckConf) (s : CheckedSystem) (i : ℕ) (u : CheckedSystem) : Prop where
  size : u.size = s.size
  kernel : u.kernel = s.kernel
  mpp : ∃ pg nextpg disabled, u.mpp = { s.mpp with pg, nextpg, disabled }
  other : ∀ j, j ≠ i → Kept false (s.path j) (u.path j)
  dmstate : (u.path i).dmstate = s.kernel i ∨ (u.path i).dmstate = .undef
  tick : (u.path i).tick = conf.checkint
  checkint : (u.path i).checkint = ((s.due conf i).path i).checkint
  mapped : (u.path i).mapped = (s.path i).mapped
  initialized : (u.path i).initialized = (s.path i).initialized
  state : (u.path i).err.state = (s.path i).err.state

/-- What `check_path` does with a path that is due. -/
inductive Examined (conf : CheckConf) (seen : Seen) (s : CheckedSystem) (i : ℕ) :
    CheckedSystem → Prop where
  | unusable (asked : ℕ → Bool) (h : seen.newstate = .wild ∨ seen.newstate = .unchecked) :
      Examined conf seen s i ((s.due conf i).pathinfo seen asked)
  | cancelled (hbad : PathState.good seen.newstate = false) (hstate : (s.path i).err.state = .delayed) :
      Examined conf seen s i ((s.due conf i).setPath i { (s.due conf i).path i with
        err := { (s.path i).err with state := seen.newstate } })
  | pending (h : seen.newstate = .pending) :
      Examined conf seen s i ((s.due conf i).setPath i { (s.due conf i).path i with tick := 1 })
  | notFound (h : seen.sync = .notFound) :
      Examined conf seen s i { s.due conf i with mpp := { s.mpp with pg := false } }
  | orphaned {u : CheckedSystem} (hu : Prepared conf s i u) :
      Examined conf seen s i (u.setPath i { u.path i with mapped := false })
  | delayed {u : CheckedSystem} {tick : ℕ} {err : ErrPath} (hu : Prepared conf s i u)
      (hgood : PathState.good seen.newstate = true) (htick : tick = 1 ∨ tick = conf.checkint)
      (herr : err.state = .delayed) :
      Examined conf seen s i (u.setPath i { u.path i with err, tick })
  | concluded {u t : CheckedSystem} (hu : Prepared conf s i u)
      (ht : Concluded conf seen u i seen.newstate t) : Examined conf seen s i t

theorem shouldSkipPath_state (mpp : ErrSettings) (c : Check) (pp : ErrPath) :
    (shouldSkipPath mpp c pp).1.state = pp.state := by
  have hreinstate : (checkPathReinstateState mpp c pp).1.state = pp.state := by
    unfold checkPathReinstateState ErrPath.reinstate
    dsimp only
    split_ifs <;> rfl
  unfold shouldSkipPath
  split_ifs
  · rfl
  · exact hreinstate
  · rfl

theorem shouldSkipPath_marginal (mpp : ErrSettings) (c : Check) (pp : ErrPath) :
    (shouldSkipPath mpp c pp).1.marginal = pp.marginal := by
  have hreinstate : (checkPathReinstateState mpp c pp).1.marginal = pp.marginal := by
    unfold checkPathReinstateState ErrPath.reinstate
    dsimp only
    split_ifs <;> rfl
  unfold shouldSkipPath
  split_ifs
  · rfl
  · exact hreinstate
  · rfl

theorem Prepared.call (h : Prepared conf s i u) (c : DmCall) : Prepared conf s i (u.call c) :=
  ⟨h.size, h.kernel, h.mpp, h.other, h.dmstate, h.tick, h.checkint, h.mapped, h.initialized, h.state⟩

theorem Prepared.setErr (h : Prepared conf s i u) {err : ErrPath}
    (hstate : err.state = (u.path i).err.state) :
    Prepared conf s i (u.setPath i { u.path i with err }) := by
  obtain ⟨size, kernel, mpp, other, dmstate, tick, checkint, mapped, initialized, state⟩ := h
  constructor
  case other =>
    intro j hj
    rw [setPath_of_ne _ hj]
    exact other j hj
  case state =>
    rw [setPath_self]
    exact hstate.trans state
  case size => exact size
  case kernel => exact kernel
  case mpp => exact mpp
  all_goals
    rw [setPath_self]
    assumption

theorem judge_cases (h : Prepared conf s i u) (chkrNewPathUp : Bool) :
    Examined conf seen s i (u.judge conf seen i seen.newstate chkrNewPathUp) := by
  have hstate := shouldSkipPath_state u.mpp.settings (u.errCheck conf seen seen.newstate)
    (u.path i).err
  unfold judge
  dsimp only
  split_ifs with hcheck
  · exact .delayed h hcheck.1 (.inl rfl) rfl
  · exact .delayed h hcheck.1 (.inr h.tick) rfl
  · refine .concluded (h.setErr ?_) (settle_cases _ _ _)
    exact hstate
  · refine .concluded (h.setErr ?_) (settle_cases _ _ _)
    exact hstate
  · refine .concluded (h.setErr ?_) (settle_cases _ _ _)
    exact hstate
  · exact .concluded h (settle_cases _ _ _)

theorem due_self : (s.due conf i).path i = { s.path i with
    checkint := ((s.due conf i).path i).checkint
    tick := conf.checkint } := by
  unfold due
  dsimp only
  rw [setPath_self]

theorem due_of_ne (h : j ≠ i) : (s.due conf i).path j = s.path j := setPath_of_ne _ h

theorem unsynced_self (pg : Bool) :
    (s.unsynced i pg).path i = { s.path i with dmstate := .undef } := setPath_self _

theorem prepared_unsynced (pg : Bool) :
    Prepared conf s i ((s.due conf i).unsynced i pg) := by
  have hself := @unsynced_self (s.due conf i) i pg
  rw [due_self] at hself
  constructor
  case other =>
    intro j hj
    show Kept false (s.path j) (Function.update (s.due conf i).path i _ j)
    rw [Function.update_of_ne hj, due_of_ne hj]
    exact .refl _ _
  case mpp => exact ⟨pg, s.mpp.nextpg, s.mpp.disabled, rfl⟩
  case size | kernel => rfl
  case dmstate => exact .inr (by rw [hself])
  all_goals rw [hself]

theorem prepared_readTable (table : GroupTable) :
    Prepared conf s i ((s.due conf i).readTable table) := by
  have hself : ((s.due conf i).readTable table).path i =
      { (s.due conf i).path i with dmstate := s.kernel i, pgindex := table.pgindex i } := rfl
  rw [due_self] at hself
  constructor
  case other =>
    intro j hj
    show Kept false (s.path j)
      { (s.due conf i).path j with dmstate := s.kernel j, pgindex := table.pgindex j }
    rw [due_of_ne hj]
    exact ⟨rfl, rfl, rfl, rfl, .inl rfl⟩
  case mpp => exact ⟨true, table.nextpg, table.disabled, rfl⟩
  case size | kernel => rfl
  case dmstate => exact .inl (by rw [hself])
  all_goals rw [hself]

theorem examine_cases : Examined conf seen s i (s.examine conf seen i) := by
  unfold examine
  dsimp only
  split_ifs with hunusable hcancelled hpending
  · exact .unusable _ hunusable
  · exact .cancelled hcancelled.1 hcancelled.2
  · exact .pending hpending
  · unfold synchronize
    split
    · rename_i hsync
      exact .notFound hsync
    · rename_i table _
      cases table with
      | none => exact .orphaned (prepared_unsynced true)
      | some table => exact .orphaned (prepared_readTable table)
    · exact judge_cases ((prepared_unsynced false).call _) _
    · exact judge_cases ((prepared_unsynced true).call _) _
    · exact judge_cases ((prepared_readTable _).call _) _

theorem examine_tick (tick : ℕ) :
    (s.setPath i { s.path i with tick }).examine conf seen i = s.examine conf seen i := by
  have hdue : (s.setPath i { s.path i with tick }).due conf i = s.due conf i := by
    unfold due
    dsimp only
    rw [setPath_self, setPath_setPath]
  unfold examine
  dsimp only
  rw [hdue, setPath_self]

/-- `check_path` lets the path wait, or checks it. -/
theorem checkPath_eq (ticks : ℕ) : s.checkPath conf seen i ticks =
    if (s.path i).mapped = false ∨ (s.path i).initialized = .removed then s
    else if ticks < (s.path i).tick then
      s.setPath i { s.path i with tick := (s.path i).tick - ticks }
    else s.examine conf seen i := by
  unfold checkPath
  dsimp only
  by_cases hwait : ticks < (s.path i).tick
  · have hne : (s.path i).tick - ticks ≠ 0 := by omega
    rw [if_pos hwait, if_pos hwait, if_pos hne]
  · rw [if_neg hwait, if_neg hwait, Nat.sub_self, if_neg (not_not.mpr rfl), examine_tick]

end Frame

end CheckedSystem

end MultipathTools.Daemon
