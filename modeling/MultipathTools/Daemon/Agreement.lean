import MultipathTools.Daemon.Checkerloop

/-! The kernel agrees with the checker about the state of a path. -/
namespace MultipathTools.Daemon
open Dmparser CheckedSystem

section Agreement
variable {conf : CheckConf} {seen : Seen} {s t u v : CheckedSystem} {i j ticks : ℕ}
  {e : CheckEvent} {es : List CheckEvent}

/-- The kernel uses the path if it is up, and does not if it is down or shaky. -/
def Agrees (s : CheckedSystem) (i : ℕ) : Prop :=
  (s.path i).mapped = true → ((s.path i).err.state = .up → s.kernel i = .active) ∧
    ((s.path i).err.state = .down ∨ (s.path i).err.state = .shaky → s.kernel i = .failed)

theorem Agrees.keep (h : Agrees s i) (hkept : Kept false (s.path i) (t.path i))
    (hkernel : t.kernel i = s.kernel i) : Agrees t i := by
  have hstate : (t.path i).err.state = (s.path i).err.state :=
    hkept.state.resolve_right (by simp)
  unfold Agrees
  rw [hkept.mapped, hstate, hkernel]
  exact h

theorem pathinfo_agrees (asked : ℕ → Bool) (hgone : seen.gone i = false) (h : Agrees s i) :
    Agrees (s.pathinfo seen asked) i :=
  h.keep (hgone ▸ pathinfo_kept asked i) rfl

/-- `sync_map_state` settles the state of a path that is up, down or shaky. -/
theorem syncPath_spec (dmstate : PState) (state : PathState) :
    (state = .up → (syncPath dmstate state).getD dmstate = .active) ∧
      (state = .down ∨ state = .shaky → (syncPath dmstate state).getD dmstate = .failed) := by
  constructor
  · rintro rfl
    cases dmstate <;> rfl
  · rintro (rfl | rfl) <;> cases dmstate <;> rfl

theorem syncMapState_kernel (hi : i < s.size) (hdelay : s.mpp.ghostDelay = false)
    (hpg : s.inPg i = true) (hworks : seen.works i = true) : (s.syncMapState seen).kernel i =
      (syncPath (s.path i).dmstate (s.path i).err.state).getD (s.kernel i) := by
  unfold syncMapState
  dsimp only
  rw [if_pos hworks, if_pos ⟨hdelay, hpg, hi⟩]

theorem reloadAndSyncMap_agrees (refresh : Bool) (hi : i < s.size) (hdelay : s.mpp.ghostDelay = false)
    (hworks : seen.works i = true) (hgone : seen.gone i = false) (h : Agrees s i) :
    Agrees (s.reloadAndSyncMap seen refresh) i := by
  have hinfo : Agrees (if refresh then s.pathinfo seen fun j => (s.path j).mapped else s) i ∧
      (if refresh then s.pathinfo seen fun j => (s.path j).mapped else s).size = s.size ∧
      (if refresh then s.pathinfo seen fun j => (s.path j).mapped else s).mpp = s.mpp := by
    split_ifs
    · exact ⟨pathinfo_agrees _ hgone h, rfl, rfl⟩
    · exact ⟨h, rfl, rfl⟩
  unfold reloadAndSyncMap
  generalize (if refresh then s.pathinfo seen fun j => (s.path j).mapped else s) = u at hinfo ⊢
  obtain ⟨hu, hsize, hmpp⟩ := hinfo
  dsimp only
  split
  · exact hu
  · rename_i kernel table hreload
    intro hmapped
    have hkernel := @syncMapState_kernel seen
      (readTable { u.call (.reloadMap refresh) with kernel } table) i (hsize ▸ hi)
      ((congrArg CheckedMap.ghostDelay hmpp).trans hdelay) hmapped hworks
    rw [hkernel]
    exact syncPath_spec (kernel i) (u.path i).err.state

theorem refresh_agrees (newPathUp chkrNewPathUp marginalChanged : Bool) (hi : i < s.size)
    (hdelay : s.mpp.ghostDelay = false) (hworks : seen.works i = true)
    (hgone : seen.gone i = false) (h : Agrees s i) :
    Agrees (s.refresh seen j newPathUp chkrNewPathUp marginalChanged) i := by
  have hprio : Agrees
      (if newPathUp then s.pathinfo seen s.inPg
      else if (s.path j).err.state ≠ .down then s.pathinfo seen fun k => k = j
      else s) i ∧
      (if newPathUp then s.pathinfo seen s.inPg
      else if (s.path j).err.state ≠ .down then s.pathinfo seen fun k => k = j
      else s).size = s.size ∧
      (if newPathUp then s.pathinfo seen s.inPg
      else if (s.path j).err.state ≠ .down then s.pathinfo seen fun k => k = j
      else s).mpp = s.mpp := by
    split_ifs
    · exact ⟨pathinfo_agrees _ hgone h, rfl, rfl⟩
    · exact ⟨pathinfo_agrees _ hgone h, rfl, rfl⟩
    · exact ⟨h, rfl, rfl⟩
  unfold refresh
  generalize (if newPathUp then s.pathinfo seen s.inPg
      else if (s.path j).err.state ≠ .down then s.pathinfo seen fun k => k = j
      else s) = u at hprio ⊢
  obtain ⟨hu, hsize, hmpp⟩ := hprio
  have hneed : Agrees (u.needSwitchPathgroup seen.best).1 i := by
    unfold needSwitchPathgroup
    split_ifs <;> exact hu
  dsimp only
  split_ifs
  · exact h
  · exact reloadAndSyncMap_agrees _ hi hdelay hworks hgone h
  · exact reloadAndSyncMap_agrees _ (hsize ▸ hi) (hmpp ▸ hdelay) hworks hgone hu
  all_goals exact hneed

/-- Whatever `settle` finds, the kernel agrees afterwards. -/
theorem concluded_agrees {newstate : PathState} (h : Concluded conf seen u i newstate t)
    (hi : i < u.size) (hdelay : u.mpp.ghostDelay = false) (hworks : seen.works i = true)
    (hgone : seen.gone i = false)
    (hdm : (u.path i).dmstate = u.kernel i ∨ (u.path i).dmstate = .undef) : Agrees t i := by
  have htold (dmstate : PState) : told seen u.kernel i dmstate i = dmstate := by
    rw [told, if_pos hworks]
    exact Function.update_self _ _ _
  have hset {v : CheckedSystem} {pp : CheckedPath} {kernel : ℕ → PState}
      {newPathUp chkrNewPathUp marginalChanged : Bool} (hv : Touched u i pp kernel v) (hv' : Agrees v i) :
      Agrees (v.refresh seen i newPathUp chkrNewPathUp marginalChanged) i :=
    refresh_agrees _ _ _ (hv.size ▸ hi) (hv.mpp ▸ hdelay) hworks hgone hv'
  cases h with
  | failed hbad hnew hv =>
    unfold Agrees
    dsimp only
    rw [hv.self, hv.kernel, htold]
    refine fun _ => ⟨fun hup => ?_, fun _ => rfl⟩
    rw [show newstate = .up from hup] at hbad
    cases hbad
  | recovered chkrNewPathUp marginalChanged hgood hnew hkernel hv =>
    apply hset hv
    unfold Agrees
    rw [hv.self, hv.kernel]
    refine fun _ => ⟨fun hup => ?_, fun hdown => ?_⟩
    · have hup : newstate = .up := hup
      obtain rfl | ⟨hghost, -⟩ := hkernel
      · exact htold _
      · rw [hup] at hghost
        cases hghost
    · have hdown : newstate = .down ∨ newstate = .shaky := hdown
      obtain rfl | rfl := hdown <;> cases hgood
  | reinstated marginalChanged hgood hsame hdm' hv =>
    apply hset hv
    unfold Agrees
    rw [hv.self, hv.kernel, htold]
    refine fun _ => ⟨fun _ => rfl, fun hdown => ?_⟩
    dsimp only at hdown
    rw [← hsame] at hdown
    obtain rfl | rfl := hdown <;> cases hgood
  | quiet marginalChanged hgood hsame hdm' hv =>
    apply hset hv
    unfold Agrees
    rw [hv.self, hv.kernel]
    dsimp only
    rw [← hsame]
    refine fun _ => ⟨fun hup => ?_, fun hdown => ?_⟩
    · have hactive := hdm'.resolve_right (by rw [hup]; nofun)
      rw [hactive] at hdm
      exact (hdm.resolve_right nofun).symm
    · obtain rfl | rfl := hdown <;> cases hgood
  | stillBad marginalChanged hbad hsame hkernel hv =>
    apply hset hv
    unfold Agrees
    rw [hv.self, hv.kernel]
    dsimp only
    rw [← hsame]
    refine fun _ => ⟨fun hup => ?_, fun _ => ?_⟩
    · rw [hup] at hbad
      cases hbad
    · obtain rfl | ⟨hfailed, rfl⟩ := hkernel
      · exact htold _
      · rw [hfailed] at hdm
        exact (hdm.resolve_right nofun).symm

/-- What a check does to the kernel's states of the other paths, and to those of a path that it
does not come to a result about. -/
theorem concluded_agrees_other {newstate : PathState} (h : Concluded conf seen u j newstate t)
    (hi : i < u.size) (hdelay : u.mpp.ghostDelay = false) (hworks : seen.works i = true)
    (hgone : seen.gone i = false) (hij : i ≠ j) (hu : Agrees u i) : Agrees t i := by
  have htold (dmstate : PState) : told seen u.kernel j dmstate i = u.kernel i := by
    unfold told
    split_ifs
    · exact Function.update_of_ne hij _ _
    · rfl
  have htouched {v : CheckedSystem} {pp : CheckedPath} {kernel : ℕ → PState}
      (hv : Touched u j pp kernel v) (hkernel : kernel i = u.kernel i) : Agrees v i := by
    refine hu.keep ?_ ?_
    · rw [hv.other i hij]
      exact .refl _ _
    · rw [hv.kernel, hkernel]
  have hset {v : CheckedSystem} {pp : CheckedPath} {kernel : ℕ → PState}
      {newPathUp chkrNewPathUp marginalChanged : Bool} (hv : Touched u j pp kernel v)
      (hkernel : kernel i = u.kernel i) :
      Agrees (v.refresh seen j newPathUp chkrNewPathUp marginalChanged) i :=
    refresh_agrees _ _ _ (hv.size ▸ hi) (hv.mpp ▸ hdelay) hworks hgone (htouched hv hkernel)
  cases h with
  | failed hbad hnew hv =>
    have hv' := htouched hv (htold _)
    exact hv'
  | recovered chkrNewPathUp marginalChanged hgood hnew hkernel hv =>
    refine hset hv ?_
    obtain rfl | ⟨-, rfl⟩ := hkernel
    · exact htold _
    · rfl
  | reinstated marginalChanged hgood hsame hdm hv => exact hset hv (htold _)
  | quiet marginalChanged hgood hsame hdm hv => exact hset hv rfl
  | stillBad marginalChanged hbad hsame hkernel hv =>
    refine hset hv ?_
    obtain rfl | ⟨-, rfl⟩ := hkernel
    · exact htold _
    · rfl

/-- The check comes to a result about the path, or finds that it has left the map. -/
def Seen.result (seen : Seen) : Prop :=
  seen.newstate ≠ .wild ∧ seen.newstate ≠ .unchecked ∧ seen.newstate ≠ .pending ∧
    seen.sync ≠ .notFound

/-- After a result the kernel agrees, and without one it does if it did, unless the check ends a
delay. -/
theorem examined_agrees (h : Examined conf seen s i t) (hi : i < s.size)
    (hdelay : s.mpp.ghostDelay = false) (hworks : seen.works i = true)
    (hgone : seen.gone i = false)
    (hstate : PathState.good seen.newstate = true ∨ (s.path i).err.state ≠ .delayed)
    (hs : seen.result ∨ Agrees s i) : Agrees t i := by
  have hdue (hs : Agrees s i) : Agrees (s.due conf i) i := by
    unfold Agrees
    rw [due_self]
    exact hs
  cases h with
  | unusable asked hnone =>
    have hs := hs.resolve_left fun hr => hnone.elim hr.1 hr.2.1
    exact pathinfo_agrees asked hgone (hdue hs)
  | cancelled hbad hdelayed => exact absurd hstate (by simp [hbad, hdelayed])
  | pending hnone =>
    have hs := hdue (hs.resolve_left fun hr => hr.2.2.1 hnone)
    unfold Agrees
    rw [setPath_self]
    exact hs
  | notFound hnone => exact hdue (hs.resolve_left fun hr => hr.2.2.2 hnone)
  | orphaned hu =>
    intro hmapped
    rw [setPath_self] at hmapped
    cases hmapped
  | delayed hu hgood htick herr =>
    intro _
    rw [setPath_self]
    dsimp only
    rw [herr]
    exact ⟨nofun, fun h => h.elim nofun nofun⟩
  | concluded hu ht =>
    refine concluded_agrees ht (hu.size ▸ hi) ((prepared_sameMap hu).2.1.trans hdelay) hworks hgone ?_
    rw [hu.kernel]
    exact hu.dmstate

theorem examined_agrees_other (h : Examined conf seen s j t) (hi : i < s.size)
    (hdelay : s.mpp.ghostDelay = false) (hworks : seen.works i = true)
    (hgone : seen.gone i = false) (hij : i ≠ j) (hs : Agrees s i) : Agrees t i := by
  have hkept := examined_other h hij
  rw [hgone] at hkept
  cases h with
  | concluded hu ht =>
    refine concluded_agrees_other ht (hu.size ▸ hi) ((prepared_sameMap hu).2.1.trans hdelay) hworks hgone
      hij (hs.keep (hu.other i hij) ?_)
    rw [hu.kernel]
  | delayed hu | orphaned hu =>
    refine hs.keep hkept ?_
    exact congrFun hu.kernel i
  | unusable | cancelled | pending | notFound => exact hs.keep hkept rfl

/-- Nobody but the checker changes the kernel's state of the path, its messages get through, the
path is not gone, and no delay of it is ended by a failure. -/
def Undisturbed (i : ℕ) (s : CheckedSystem) : CheckEvent → CheckedSystem → Prop
  | .check j _ seen, _ => seen.works i = true ∧ seen.gone i = false ∧
      (j = i → PathState.good seen.newstate = true ∨ (s.path i).err.state ≠ .delayed)
  | .failbackTick seen, _ => seen.gone i = false
  | .kernel j _, _ => j ≠ i
  | .update _, _ | .soon _, _ => True

theorem checkPath_agrees (hi : i < s.size) (hdelay : s.mpp.ghostDelay = false)
    (hu : Undisturbed i s (.check j ticks seen) t)
    (hs : j = i ∧ ¬ s.skips i ticks ∧ seen.result ∨ Agrees s i) :
    Agrees (s.checkPath conf seen j ticks) i := by
  obtain ⟨hworks, hgone, hstate⟩ := hu
  rw [checkPath_eq]
  by_cases hij : i = j
  · subst hij
    split_ifs with hmapped hwait
    · exact hs.resolve_left fun h => h.2.1 (hmapped.imp_right .inl)
    · have hs := hs.resolve_left fun h => h.2.1 (.inr (.inr hwait))
      unfold Agrees
      rw [setPath_self]
      exact hs
    · refine examined_agrees examine_cases hi hdelay hworks hgone (hstate rfl) ?_
      exact hs.imp_left fun h => h.2.2
  · have hs := hs.resolve_left fun h => hij h.1.symm
    split_ifs
    · exact hs
    · unfold Agrees
      rw [setPath_of_ne _ hij]
      exact hs
    · exact examined_agrees_other examine_cases hi hdelay hworks hgone hij hs

theorem deferedFailbackTick_kernel : (s.deferedFailbackTick seen).kernel = s.kernel := by
  unfold deferedFailbackTick needSwitchPathgroup
  dsimp only
  split_ifs <;> rfl

/-- A path that the kernel has failed is taken for one that is down. -/
theorem updateMultipath_agrees (table : GroupTable) (hs : Agrees s i) :
    Agrees (updateMultipath conf s table) i := by
  have hpath : (updateMultipath conf s table).path i =
      markFailed conf ((s.readTable table).path i) := rfl
  have hkernel : (updateMultipath conf s table).kernel = s.kernel := rfl
  unfold Agrees
  rw [hpath, hkernel]
  unfold markFailed
  split_ifs with hmark
  · exact fun _ => ⟨nofun, fun _ => hmark.2.1⟩
  · exact hs

theorem checkStep_agrees (h : checkStep conf s e = some t) (hi : i < s.size)
    (hdelay : s.mpp.ghostDelay = false) (hu : Undisturbed i s e t) (hs : Agrees s i) :
    Agrees t i := by
  cases e with
  | check j ticks seen =>
    obtain ⟨-, h⟩ := Option.ite_none_right_eq_some.mp h
    obtain rfl := Option.some.inj h
    exact checkPath_agrees hi hdelay hu (.inr hs)
  | failbackTick seen =>
    cases h
    refine hs.keep ?_ (congrFun deferedFailbackTick_kernel i)
    have hkept := (@deferedFailbackTick_refreshed seen s).kept i
    rwa [hu] at hkept
  | kernel j dmstate =>
    cases h
    exact hs.keep (.refl _ _) (Function.update_of_ne (Ne.symm hu) _ _)
  | update table =>
    cases h
    exact updateMultipath_agrees table hs
  | soon j =>
    cases h
    unfold Agrees
    by_cases hij : i = j
    · subst hij
      rw [setPath_self]
      exact hs
    · rw [setPath_of_ne _ hij]
      exact hs

/-- Whatever the state is: once a check has come to a result about a path, the kernel agrees with
the daemon about it, as long as nobody else changes the kernel's state and the messages get
through. -/
theorem run_agrees (hi : i < s.size) (hdelay : s.mpp.ghostDelay = false)
    (hdue : ¬ s.skips i ticks) (hresult : seen.result)
    (hstep : checkStep conf s (.check i ticks seen) = some t)
    (hu : Undisturbed i s (.check i ticks seen) t) (h : run (checkStep conf) t es = some u)
    (ha : Along (checkStep conf) (Undisturbed i) t es) : Agrees u i := by
  obtain ⟨hsize, hghost, -⟩ := checkStep_sameMap hstep
  have ht : Agrees t i := by
    obtain ⟨-, hstep⟩ := Option.ite_none_right_eq_some.mp hstep
    obtain rfl := Option.some.inj hstep
    exact checkPath_agrees hi hdelay hu (.inl ⟨rfl, hdue, hresult⟩)
  have hinv : i < u.size ∧ u.mpp.ghostDelay = false ∧ Agrees u i := by
    refine run_invariant (fun s => i < s.size ∧ s.mpp.ghostDelay = false ∧ Agrees s i) ?_
      ⟨hsize ▸ hi, hghost.trans hdelay, ht⟩ ha h
    rintro s e t hstep hu ⟨hi, hdelay, hs⟩
    obtain ⟨hsize, hghost, -⟩ := checkStep_sameMap hstep
    exact ⟨hsize ▸ hi, hghost.trans hdelay, checkStep_agrees hstep hi hdelay hu hs⟩
  exact hinv.2.2

theorem run_agrees_sample : ∃ t, run (checkStep sampleConf)
    { sampleSystem with kernel := fun _ => .failed } [.check 0 1 sampleSeen, .soon 0] = some t ∧
      t.kernel 0 = .active := by
  have hagrees := @run_agrees sampleConf sampleSeen { sampleSystem with kernel := fun _ => .failed }
    _ _ 0 1 [.soon 0] (by decide) rfl (by decide)
    ⟨by decide, by decide, by decide, nofun⟩ rfl ⟨rfl, rfl, fun _ => .inl rfl⟩ rfl
    fun _ _ => ⟨trivial, trivial⟩
  exact ⟨_, rfl, (hagrees rfl).1 rfl⟩

end Agreement

end MultipathTools.Daemon
