import MultipathTools.Daemon.Checkerloop

/-! When the checker loop switches the path group of a map with a deferred failback. -/
namespace MultipathTools.Daemon
open Dmparser CheckedSystem

section Failback
variable {conf : CheckConf} {seen : Seen} {s t u v w : CheckedSystem} {i : ℕ} {e : CheckEvent}
  {es before after : List CheckEvent}

/-- The failback is due `pgfailback` seconds from now, as another group is the best one. -/
def Arms (seen : Seen) (t : CheckedSystem) : Prop :=
  t.mpp.failbackTick = t.mpp.pgfailback + 1 ∧ seen.best ≠ t.mpp.nextpg

/-- What is counted for a map, apart from the time to its failback. -/
def SameCounts (s t : CheckedSystem) : Prop :=
  t.mpp.statSwitchgroup = s.mpp.statSwitchgroup ∧ t.mpp.statPathFailures = s.mpp.statPathFailures

theorem SameCounts.trans (h : SameCounts s t) (h' : SameCounts t u) : SameCounts s u :=
  ⟨h'.1.trans h.1, h'.2.trans h.2⟩

theorem needSwitchPathgroup_counts (best : ℤ) : SameCounts s (s.needSwitchPathgroup best).1 ∧
    (s.needSwitchPathgroup best).1.mpp.failbackTick = s.mpp.failbackTick := by
  unfold needSwitchPathgroup
  split_ifs <;> exact ⟨⟨rfl, rfl⟩, rfl⟩

theorem needSwitchPathgroup_best (best : ℤ) (h : (s.needSwitchPathgroup best).2 = true) :
    best ≠ (s.needSwitchPathgroup best).1.mpp.nextpg := by
  unfold needSwitchPathgroup at h ⊢
  split_ifs at h ⊢
  exact of_decide_eq_true h

theorem reloadAndSyncMap_counts (refresh : Bool) :
    SameCounts s (s.reloadAndSyncMap seen refresh) ∧
      (s.reloadAndSyncMap seen refresh).mpp.failbackTick = s.mpp.failbackTick := by
  have hinfo : (if refresh then s.pathinfo seen fun j => (s.path j).mapped else s).mpp = s.mpp := by
    split_ifs <;> rfl
  unfold SameCounts reloadAndSyncMap
  generalize (if refresh then s.pathinfo seen fun j => (s.path j).mapped else s) = u at hinfo ⊢
  rw [← hinfo]
  dsimp only
  split <;> exact ⟨⟨rfl, rfl⟩, rfl⟩

theorem not_followoverShouldFailback (hpg : 0 < s.mpp.pgfailback) :
    s.followoverShouldFailback i = false := by
  unfold followoverShouldFailback
  have hne : s.mpp.pgfailback ≠ failbackFollowover := by
    rw [failbackFollowover]
    omega
  simp [hne]

/-- With a deferred failback the end of `check_path` switches no group. -/
theorem refresh_failback (hpg : 0 < s.mpp.pgfailback)
    (newPathUp chkrNewPathUp marginalChanged : Bool) :
    SameCounts s (s.refresh seen i newPathUp chkrNewPathUp marginalChanged) ∧
    ((s.refresh seen i newPathUp chkrNewPathUp marginalChanged).mpp.failbackTick =
        s.mpp.failbackTick ∨
      Arms seen (s.refresh seen i newPathUp chkrNewPathUp marginalChanged)) := by
  have hprio : (if newPathUp then s.pathinfo seen s.inPg
      else if (s.path i).err.state ≠ .down then s.pathinfo seen fun k => k = i
      else s).mpp = s.mpp := by
    split_ifs <;> rfl
  unfold refresh
  generalize (if newPathUp then s.pathinfo seen s.inPg
      else if (s.path i).err.state ≠ .down then s.pathinfo seen fun k => k = i
      else s) = u at hprio ⊢
  have hsame : SameCounts s u := ⟨by rw [hprio], by rw [hprio]⟩
  have htick : u.mpp.failbackTick = s.mpp.failbackTick := by rw [hprio]
  have hneed := @needSwitchPathgroup_counts u seen.best
  have hfailback : 0 < (u.needSwitchPathgroup seen.best).1.mpp.pgfailback := by
    rwa [(@needSwitchPathgroup_refreshed seen u seen.best).pgfailback, hprio]
  dsimp only
  split_ifs with hwait hmarginal hreload hswitch harm himmediate
  · exact ⟨⟨rfl, rfl⟩, .inl rfl⟩
  · exact ⟨(reloadAndSyncMap_counts true).1, .inl (reloadAndSyncMap_counts true).2⟩
  · have hload := @reloadAndSyncMap_counts seen u (!newPathUp)
    exact ⟨hsame.trans hload.1, .inl (hload.2.trans htick)⟩
  · exact ⟨hsame.trans hneed.1, .inr ⟨rfl, needSwitchPathgroup_best _ hswitch⟩⟩
  · obtain himmediate | himmediate := himmediate
    · rw [himmediate] at hfailback
      exact absurd hfailback (by decide)
    · rw [not_followoverShouldFailback hfailback] at himmediate
      exact absurd himmediate.2 (by decide)
  all_goals exact ⟨hsame.trans hneed.1, .inl (hneed.2.trans htick)⟩

/-- The event is a call of `defered_failback_tick`. -/
def CheckEvent.ticks : CheckEvent → Bool
  | .failbackTick _ => true
  | _ => false

/-- The event is a check that finds a path failed. -/
def FindsFailed (s : CheckedSystem) : CheckEvent → CheckedSystem → Prop
  | .check _ _ _, t => t.mpp.statPathFailures ≠ s.mpp.statPathFailures
  | _, _ => False

/-- How an event changes what a deferred failback depends on. -/
inductive Failbacks (s : CheckedSystem) : CheckEvent → CheckedSystem → Prop where
  | kept {e : CheckEvent} {t : CheckedSystem} (hidle : e.ticks = false ∨ s.mpp.failbackTick ≤ 0)
      (hfound : ¬ FindsFailed s e t)
      (hswitch : t.mpp.statSwitchgroup = s.mpp.statSwitchgroup)
      (htick : t.mpp.failbackTick = s.mpp.failbackTick) : Failbacks s e t
  | failed {i ticks : ℕ} {seen : Seen} {t : CheckedSystem}
      (hswitch : t.mpp.statSwitchgroup = s.mpp.statSwitchgroup)
      (htick : t.mpp.failbackTick = 0) : Failbacks s (.check i ticks seen) t
  | armed {i ticks : ℕ} {seen : Seen} {t : CheckedSystem} (hsame : SameCounts s t)
      (harms : Arms seen t) : Failbacks s (.check i ticks seen) t
  | ticked {seen : Seen} {t : CheckedSystem} (hdue : 0 < s.mpp.failbackTick)
      (htick : t.mpp.failbackTick = s.mpp.failbackTick - 1)
      (hswitch : t.mpp.statSwitchgroup = s.mpp.statSwitchgroup ∨
        s.mpp.failbackTick = 1 ∧ seen.best ≠ t.mpp.nextpg) :
      Failbacks s (.failbackTick seen) t

theorem examined_failbacks (ticks : ℕ) (h : Examined conf seen s i t)
    (hpg : 0 < s.mpp.pgfailback) : Failbacks s (.check i ticks seen) t := by
  have hkept {t : CheckedSystem} (hsame : SameCounts s t)
      (htick : t.mpp.failbackTick = s.mpp.failbackTick) : Failbacks s (.check i ticks seen) t :=
    .kept (.inl rfl) (fun hfound => hfound hsame.2) hsame.1 htick
  have hprepared {u : CheckedSystem} (hu : Prepared conf s i u) : SameCounts s u ∧
      u.mpp.failbackTick = s.mpp.failbackTick ∧ 0 < u.mpp.pgfailback := by
    obtain ⟨pg, nextpg, disabled, heq⟩ := hu.mpp
    rw [SameCounts, heq]
    exact ⟨⟨rfl, rfl⟩, rfl, hpg⟩
  cases h with
  | unusable | cancelled | pending | notFound => exact hkept ⟨rfl, rfl⟩ rfl
  | delayed hu | orphaned hu =>
    obtain ⟨hsame, htick, -⟩ := hprepared hu
    exact hkept hsame htick
  | @concluded u _ hu ht =>
    obtain ⟨hsame, htick, hfailback⟩ := hprepared hu
    have hrefresh {v : CheckedSystem} {pp : CheckedPath} {kernel : ℕ → PState}
        {newPathUp chkrNewPathUp marginalChanged : Bool} (hv : Touched u i pp kernel v) :
        Failbacks s (.check i ticks seen)
          (v.refresh seen i newPathUp chkrNewPathUp marginalChanged) := by
      rw [← hv.mpp] at hfailback htick
      have hv' : SameCounts u v := ⟨by rw [hv.mpp], by rw [hv.mpp]⟩
      obtain ⟨hcounts, hlast | harms⟩ :=
        @refresh_failback seen v i hfailback newPathUp chkrNewPathUp marginalChanged
      · exact hkept (hsame.trans (hv'.trans hcounts)) (hlast.trans htick)
      · exact .armed (hsame.trans (hv'.trans hcounts)) harms
    cases ht with
    | failed hbad hnew hv =>
      refine .failed ?_ rfl
      show CheckedMap.statSwitchgroup _ = _
      rw [hv.mpp]
      exact hsame.1
    | recovered chkrNewPathUp marginalChanged hgood hnew hkernel hv => exact hrefresh hv
    | reinstated marginalChanged hgood hsame hdm hv => exact hrefresh hv
    | quiet marginalChanged hgood hsame hdm hv => exact hrefresh hv
    | stillBad marginalChanged hbad hsame hkernel hv => exact hrefresh hv

theorem checkStep_failbacks (h : checkStep conf s e = some t) (hpg : 0 < s.mpp.pgfailback) :
    Failbacks s e t := by
  cases e with
  | check i ticks seen =>
    obtain ⟨-, h⟩ := Option.ite_none_right_eq_some.mp h
    obtain rfl := Option.some.inj h
    rw [checkPath_eq]
    split_ifs
    · exact .kept (.inl rfl) (fun hfound => hfound rfl) rfl rfl
    · exact .kept (.inl rfl) (fun hfound => hfound rfl) rfl rfl
    · exact examined_failbacks ticks examine_cases hpg
  | failbackTick seen =>
    cases h
    unfold deferedFailbackTick
    dsimp only
    split_ifs with hdue hlast hswitch
    · refine .ticked hdue.2 (needSwitchPathgroup_counts seen.best).2 (.inr ⟨by omega, ?_⟩)
      exact needSwitchPathgroup_best _ hswitch
    · have hneed := @needSwitchPathgroup_counts
        (({ s with mpp := { s.mpp with failbackTick := s.mpp.failbackTick - 1 } } :
          CheckedSystem).pathinfo seen s.inPg) seen.best
      exact .ticked hdue.2 hneed.2 (.inl hneed.1.1)
    · exact .ticked hdue.2 rfl (.inl rfl)
    · exact .kept (.inr (by omega)) id rfl rfl
  | kernel i dmstate =>
    cases h
    exact .kept (.inl rfl) id rfl rfl
  | update table =>
    cases h
    exact .kept (.inl rfl) id rfl rfl
  | soon i =>
    cases h
    exact .kept (.inl rfl) id rfl rfl

/-- Since a check has set the time to the failback, no path has been found failed, and the time has
been counted down. -/
structure FailbackDue (conf : CheckConf) (s : CheckedSystem) (es : List CheckEvent)
    (t : CheckedSystem) : Prop where
  positive : 0 < t.mpp.failbackTick
  armed : ∃ before i ticks seen after w, es = before ++ .check i ticks seen :: after ∧
    run (checkStep conf) s (before ++ [.check i ticks seen]) = some w ∧ Arms seen w ∧
    t.mpp.failbackTick = s.mpp.pgfailback + 1 - (after.countP CheckEvent.ticks : ℤ) ∧
    run (checkStep conf) w after = some t ∧
    Along (checkStep conf) (fun s e t => ¬ FindsFailed s e t) w after

theorem FailbackDue.step (h : FailbackDue conf s es t) (hstep : checkStep conf t e = some u)
    (hfound : ¬ FindsFailed t e u) (hpositive : 0 < u.mpp.failbackTick)
    (htick : u.mpp.failbackTick = t.mpp.failbackTick - if e.ticks then 1 else 0) :
    FailbackDue conf s (es ++ [e]) u := by
  obtain ⟨-, before, i, ticks, seen, after, w, rfl, hw, harms, hcount, hrun, halong⟩ := h
  refine ⟨hpositive, before, i, ticks, seen, after ++ [e], w, by simp, hw, harms, ?_, ?_, ?_⟩
  · rw [htick, hcount, List.countP_append, List.countP_singleton]
    split_ifs <;> push_cast <;> omega
  · rw [run_append, hrun, Option.bind_some, run_cons, hstep]
    rfl
  · refine along_append.mpr ⟨halong, fun v hv => ?_⟩
    obtain rfl := Option.some.inj (hrun.symm.trans hv)
    exact along_cons hstep hfound trivial

theorem run_pgfailback (h : run (checkStep conf) s es = some t) :
    t.mpp.pgfailback = s.mpp.pgfailback := by
  refine run_invariant (fun t => t.mpp.pgfailback = s.mpp.pgfailback) ?_ rfl (along_true s es) h
  intro t e u hstep _ ht
  exact (checkStep_sameMap hstep).2.2.1.trans ht

theorem run_failbackDue (hpg : 0 < s.mpp.pgfailback) (hidle : s.mpp.failbackTick ≤ 0)
    (h : run (checkStep conf) s es = some t) :
    t.mpp.failbackTick ≤ 0 ∨ FailbackDue conf s es t := by
  induction es using List.reverseRecOn generalizing t with
  | nil =>
    obtain rfl := Option.some.inj h
    exact .inl hidle
  | append_singleton es e ih =>
    obtain ⟨u, hu, hlast⟩ := Option.bind_eq_some_iff.mp (run_append s es [e] ▸ h)
    obtain ⟨t', hstep, ht⟩ := Option.bind_eq_some_iff.mp hlast
    obtain rfl := Option.some.inj ht
    have hfailback := run_pgfailback hu
    cases checkStep_failbacks hstep (hfailback ▸ hpg) with
    | kept hstill hfound hswitch htick =>
      obtain hle | hdue := ih hu
      · exact .inl (htick.trans_le hle)
      · refine .inr (hdue.step hstep hfound (htick ▸ hdue.positive) ?_)
        have hnot : e.ticks = false := hstill.resolve_right (not_le.mpr hdue.positive)
        rw [htick, hnot]
        exact (sub_zero _).symm
    | failed hswitch htick => exact .inl htick.le
    | @armed i ticks seen _ hsame harms =>
      have hlast := harms.1
      rw [(checkStep_sameMap hstep).2.2.1, hfailback] at hlast
      refine .inr ⟨by omega, es, i, ticks, seen, [], t', rfl, h, harms, ?_, rfl, trivial⟩
      rw [hlast]
      exact (sub_zero _).symm
    | ticked hdue htick hswitch =>
      by_cases hlast : t'.mpp.failbackTick ≤ 0
      · exact .inl hlast
      · have hearlier := (ih hu).resolve_left (not_le.mpr hdue)
        exact .inr (hearlier.step hstep id (not_le.mp hlast) htick)

/-- A deferred failback takes place `pgfailback` seconds after a check that asked for it, and not if
a path has been found failed since. -/
theorem run_failback (hpg : 0 < s.mpp.pgfailback) (hidle : s.mpp.failbackTick ≤ 0)
    (h : run (checkStep conf) s es = some t) (hstep : checkStep conf t e = some u)
    (hswitch : u.mpp.statSwitchgroup ≠ t.mpp.statSwitchgroup) :
    (∃ seen, e = .failbackTick seen ∧ seen.best ≠ u.mpp.nextpg) ∧
    ∃ before i ticks seen after w, es = before ++ .check i ticks seen :: after ∧
      run (checkStep conf) s (before ++ [.check i ticks seen]) = some w ∧ Arms seen w ∧
      (after.countP CheckEvent.ticks : ℤ) = s.mpp.pgfailback ∧
      Along (checkStep conf) (fun s e t => ¬ FindsFailed s e t) w after := by
  cases checkStep_failbacks hstep (run_pgfailback h ▸ hpg) with
  | kept hstill hfound hsame htick => exact absurd hsame hswitch
  | failed hsame htick => exact absurd hsame hswitch
  | armed hsame harms => exact absurd hsame.1 hswitch
  | ticked hdue htick hlast =>
    obtain ⟨hlast, hbest⟩ := hlast.resolve_left hswitch
    obtain ⟨-, before, i, ticks, seen, after, w, hes, hw, harms, hcount, -, halong⟩ :=
      (run_failbackDue hpg hidle h).resolve_left (not_le.mpr hdue)
    exact ⟨⟨_, rfl, hbest⟩, before, i, ticks, seen, after, w, hes, hw, harms, by omega, halong⟩

/-- The best group is the second one, and the kernel uses the first. -/
def sampleBetter : Seen := { sampleSeen with best := 2 }

theorem run_failback_sample : ∃ before i ticks seen after w,
    [.check 0 1 sampleBetter, .failbackTick sampleBetter] =
      before ++ CheckEvent.check i ticks seen :: after ∧
    run (checkStep sampleConf)
      { sampleSystem with mpp := { sampleSystem.mpp with pgfailback := 1 } }
      (before ++ [.check i ticks seen]) = some w ∧ Arms seen w ∧
    (after.countP CheckEvent.ticks : ℤ) = 1 ∧
    Along (checkStep sampleConf) (fun s e t => ¬ FindsFailed s e t) w after :=
  (run_failback (e := .failbackTick sampleBetter) (by decide) le_rfl rfl rfl (by decide)).2

end Failback

end MultipathTools.Daemon
