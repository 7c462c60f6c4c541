import MultipathTools.Daemon.CheckPath

/-! The rounds of `checkerloop` for a map and its paths, and when a path is checked. -/
namespace MultipathTools.Daemon
open Dmparser CheckedSystem

/-- What happens to a map: a round of the checker comes to a path, or has come to its end; the
kernel's state of a path is changed by an I/O error or by somebody else; the map is read again after
an event; or a path is to be checked soon. -/
inductive CheckEvent where
  | check (i ticks : ℕ) (seen : Seen)
  | failbackTick (seen : Seen)
  | kernel (i : ℕ) (dmstate : PState)
  | update (table : GroupTable)
  | soon (i : ℕ)

/-- What `update_multipath` does with a path. -/
def markFailed (conf : CheckConf) (pp : CheckedPath) : CheckedPath :=
  if pp.mapped ∧ pp.dmstate = .failed ∧ pp.err.state ≠ .down then
    { pp with err := { pp.err with state := .down }, tick := min pp.tick conf.checkint }
  else pp

/-- `update_multipath`, when the map is there. -/
def updateMultipath (conf : CheckConf) (s : CheckedSystem) (table : GroupTable) : CheckedSystem :=
  let s := s.readTable table
  let marked := (List.range s.size).filter fun j => markFailed conf (s.path j) ≠ s.path j
  { s with
    path := fun j => markFailed conf (s.path j)
    mpp := { s.mpp with statPathFailures := s.mpp.statPathFailures + marked.length }
    calls := s.calls ++ marked.filterMap fun j =>
      if PathState.good (s.path j).err.state then some .updateQueueModeDelPath else none }

def checkStep (conf : CheckConf) (s : CheckedSystem) : CheckEvent → Option CheckedSystem
  | .check i ticks seen => if i < s.size then some (s.checkPath conf seen i ticks) else none
  | .failbackTick seen => some (s.deferedFailbackTick seen)
  | .kernel i dmstate => some { s with kernel := Function.update s.kernel i dmstate }
  | .update table => some (updateMultipath conf s table)
  | .soon i => some (s.setPath i { s.path i with tick := 1 })

/-- The event is a check of the path that is not put off. -/
def Examines (s : CheckedSystem) (e : CheckEvent) (i : ℕ) : Prop :=
  ∃ ticks seen, e = .check i ticks seen ∧ ¬ s.skips i ticks

section Schedule
variable {conf : CheckConf} {seen : Seen} {s t u : CheckedSystem} {i j k ticks : ℕ}
  {e : CheckEvent} {es more : List CheckEvent}

/-- The interval after a number of checks that found a path as it was, and good. -/
def interval (conf : CheckConf) : ℕ → ℕ
  | 0 => conf.checkint
  | k + 1 => nextCheckint conf (interval conf k)

theorem nextCheckint_le {checkint : ℕ} (h : checkint ≤ conf.maxCheckint) :
    nextCheckint conf checkint ≤ conf.maxCheckint := by
  unfold nextCheckint
  split_ifs <;> omega

theorem le_nextCheckint {checkint : ℕ} (h : checkint ≤ conf.maxCheckint) :
    checkint ≤ nextCheckint conf checkint := by
  unfold nextCheckint
  split_ifs <;> omega

theorem interval_le (hconf : conf.checkint ≤ conf.maxCheckint) (k : ℕ) :
    interval conf k ≤ conf.maxCheckint := by
  induction k with
  | zero => exact hconf
  | succ k ih => exact nextCheckint_le ih

theorem le_interval (hconf : conf.checkint ≤ conf.maxCheckint) (k : ℕ) :
    conf.checkint ≤ interval conf k := by
  induction k with
  | zero => exact le_rfl
  | succ k ih => exact ih.trans (le_nextCheckint (interval_le hconf k))

/-- The interval doubles until it is the longest one. -/
theorem interval_eq (hconf : conf.checkint ≤ conf.maxCheckint) (k : ℕ) :
    interval conf k = conf.checkint * 2 ^ k ∨
      interval conf k = conf.maxCheckint ∧ conf.maxCheckint ≤ conf.checkint * 2 ^ k + 1 := by
  induction k with
  | zero => exact .inl (Nat.mul_one _).symm
  | succ k ih =>
    have hle := interval_le hconf k
    have hpow : conf.checkint * 2 ^ (k + 1) = 2 * (conf.checkint * 2 ^ k) := by
      rw [pow_succ, ← mul_assoc, mul_comm]
    rw [interval, nextCheckint, hpow]
    generalize conf.checkint * 2 ^ k = n at ih
    split_ifs <;> omega

/-- The interval of a path, and how long it may have to wait. -/
def Scheduled (conf : CheckConf) (pp : CheckedPath) : Prop :=
  ∃ k, pp.checkint = interval conf k ∧ pp.tick ≤ max 1 (interval conf k)

theorem Scheduled.kept {gone : Bool} {pp qq : CheckedPath} (h : Scheduled conf pp)
    (hkept : Kept gone pp qq) : Scheduled conf qq := by
  unfold Scheduled
  rw [hkept.checkint, hkept.tick]
  exact h

/-- What `settle` makes of the path, apart from its state. -/
theorem concluded_schedule {newstate : PathState} (h : Concluded conf seen u i newstate t) :
    ((t.path i).tick = (u.path i).tick ∧
      ((t.path i).checkint = (u.path i).checkint ∨ (t.path i).checkint = conf.checkint)) ∨
    PathState.good newstate = true ∧ (t.path i).tick = nextCheckint conf (u.path i).checkint ∧
      (t.path i).checkint = nextCheckint conf (u.path i).checkint := by
  have hrefresh {v : CheckedSystem} {pp : CheckedPath} {kernel : ℕ → PState}
      {newPathUp chkrNewPathUp marginalChanged : Bool} (hv : Touched u i pp kernel v) :
      ((v.refresh seen i newPathUp chkrNewPathUp marginalChanged).path i).tick = pp.tick ∧
      ((v.refresh seen i newPathUp chkrNewPathUp marginalChanged).path i).checkint = pp.checkint := by
    have hkept := (@refresh_refreshed seen v i newPathUp chkrNewPathUp marginalChanged).kept i
    rw [hkept.tick, hkept.checkint, hv.self]
    exact ⟨rfl, rfl⟩
  cases h with
  | failed hbad hnew hv =>
    dsimp only
    rw [hv.self]
    exact .inl ⟨rfl, .inr rfl⟩
  | recovered chkrNewPathUp marginalChanged hgood hnew hkernel hv =>
    obtain ⟨htick, hcheckint⟩ := hrefresh hv
    exact .inl ⟨htick, .inr hcheckint⟩
  | reinstated marginalChanged hgood hsame hdm hv =>
    obtain ⟨htick, hcheckint⟩ := hrefresh hv
    exact .inl ⟨htick, .inl hcheckint⟩
  | quiet marginalChanged hgood hsame hdm hv =>
    obtain ⟨htick, hcheckint⟩ := hrefresh hv
    exact .inr ⟨hgood, htick, hcheckint⟩
  | stillBad marginalChanged hbad hsame hkernel hv =>
    obtain ⟨htick, hcheckint⟩ := hrefresh hv
    exact .inl ⟨htick, .inl hcheckint⟩

/-- What a check leaves of the path: its interval is as before, the shortest, or the next one; and
unless the path was found good, it waits for the shortest one at most. -/
theorem examined_schedule (h : Examined conf seen s i t) :
    (((t.path i).tick = 1 ∨ (t.path i).tick = conf.checkint) ∧
      ((t.path i).checkint = ((s.due conf i).path i).checkint ∨
        (t.path i).checkint = conf.checkint)) ∨
    PathState.good seen.newstate = true ∧
      (t.path i).tick = nextCheckint conf ((s.due conf i).path i).checkint ∧
      (t.path i).checkint = nextCheckint conf ((s.due conf i).path i).checkint := by
  have htick : ((s.due conf i).path i).tick = conf.checkint := by rw [due_self]
  cases h with
  | unusable asked hstate =>
    have hkept := @pathinfo_kept seen (s.due conf i) asked i
    rw [hkept.tick, hkept.checkint]
    exact .inl ⟨.inr htick, .inl rfl⟩
  | cancelled hbad hstate =>
    rw [setPath_self]
    exact .inl ⟨.inr htick, .inl rfl⟩
  | pending hstate =>
    rw [setPath_self]
    exact .inl ⟨.inl rfl, .inl rfl⟩
  | notFound hsync => exact .inl ⟨.inr htick, .inl rfl⟩
  | orphaned hu =>
    rw [setPath_self]
    exact .inl ⟨.inr hu.tick, .inl hu.checkint⟩
  | delayed hu hgood hwait herr =>
    rw [setPath_self]
    exact .inl ⟨hwait, .inl hu.checkint⟩
  | concluded hu ht =>
    obtain ⟨hwait, hcheckint⟩ | ⟨hgood, hwait, hcheckint⟩ := concluded_schedule ht
    · rw [hu.tick] at hwait
      rw [hu.checkint] at hcheckint
      exact .inl ⟨.inr hwait, hcheckint⟩
    · rw [hu.checkint] at hwait hcheckint
      exact .inr ⟨hgood, hwait, hcheckint⟩

/-- A check leaves the other paths alone. -/
theorem examined_other (h : Examined conf seen s i t) (hj : j ≠ i) :
    Kept (seen.gone j) (s.path j) (t.path j) := by
  have hdue : (s.due conf i).path j = s.path j := due_of_ne hj
  have hweaken {u : CheckedSystem} (hu : Prepared conf s i u) :
      Kept (seen.gone j) (s.path j) (u.path j) := by
    have hkept := hu.other j hj
    refine ⟨hkept.tick, hkept.checkint, hkept.mapped, hkept.initialized, .inl ?_⟩
    exact hkept.err.resolve_right (by simp)
  cases h with
  | unusable asked hstate =>
    have hkept := @pathinfo_kept seen (s.due conf i) asked j
    rwa [hdue] at hkept
  | cancelled | pending =>
    rw [setPath_of_ne _ hj, hdue]
    exact .refl _ _
  | notFound hsync =>
    rw [hdue]
    exact .refl _ _
  | orphaned hu =>
    rw [setPath_of_ne _ hj]
    exact hweaken hu
  | delayed hu hgood hwait herr =>
    rw [setPath_of_ne _ hj]
    exact hweaken hu
  | @concluded u _ hu ht =>
    apply (hweaken hu).trans
    have hrefresh {v : CheckedSystem} {pp : CheckedPath} {kernel : ℕ → PState}
        {newPathUp chkrNewPathUp marginalChanged : Bool} (hv : Touched u i pp kernel v) :
        Kept (seen.gone j) (u.path j)
          ((v.refresh seen i newPathUp chkrNewPathUp marginalChanged).path j) :=
      hv.other j hj ▸ (refresh_refreshed newPathUp chkrNewPathUp marginalChanged).kept j
    cases ht with
    | failed hbad hnew hv =>
      dsimp only
      rw [hv.other j hj]
      exact .refl _ _
    | recovered chkrNewPathUp marginalChanged hgood hnew hkernel hv => exact hrefresh hv
    | reinstated marginalChanged hgood hsame hdm hv => exact hrefresh hv
    | quiet marginalChanged hgood hsame hdm hv => exact hrefresh hv
    | stillBad marginalChanged hbad hsame hkernel hv => exact hrefresh hv

theorem Scheduled.examined (hconf : conf.checkint ≤ conf.maxCheckint)
    (h : Examined conf seen s i t) (hs : Scheduled conf (s.path i)) : Scheduled conf (t.path i) := by
  have hdue : ∃ k, ((s.due conf i).path i).checkint = interval conf k := by
    obtain ⟨k, hk, -⟩ := hs
    unfold due
    dsimp only
    rw [setPath_self]
    dsimp only
    split_ifs
    · exact ⟨0, rfl⟩
    · exact ⟨k, hk⟩
  obtain ⟨k, hk⟩ := hdue
  obtain ⟨hwait, hcheckint⟩ | ⟨-, hwait, hcheckint⟩ := examined_schedule h
  · have hle := le_interval hconf
    obtain hcheckint | hcheckint := hcheckint
    · refine ⟨k, hcheckint.trans hk, ?_⟩
      have := hle k
      omega
    · refine ⟨0, hcheckint, ?_⟩
      have := hle 0
      omega
  · rw [hk] at hwait hcheckint
    refine ⟨k + 1, hcheckint, ?_⟩
    rw [hwait]
    exact le_max_right _ _

/-- What an event does with one path. -/
inductive PathStep (conf : CheckConf) (s : CheckedSystem) (j : ℕ) :
    CheckEvent → CheckedSystem → Prop where
  | examined {ticks : ℕ} {seen : Seen} {t : CheckedSystem} (hdue : ¬ s.skips j ticks)
      (ht : Examined conf seen s j t) : PathStep conf s j (.check j ticks seen) t
  | waits {ticks : ℕ} {seen : Seen} {t : CheckedSystem} (hwait : ticks < (s.path j).tick)
      (ht : t.path j = { s.path j with tick := (s.path j).tick - ticks }) :
      PathStep conf s j (.check j ticks seen) t
  | unmapped {ticks : ℕ} {seen : Seen} {t : CheckedSystem}
      (h : (s.path j).mapped = false ∨ (s.path j).initialized = .removed)
      (ht : t.path j = s.path j) : PathStep conf s j (.check j ticks seen) t
  | other {i ticks : ℕ} {seen : Seen} {t : CheckedSystem} (hne : i ≠ j)
      (ht : Kept (seen.gone j) (s.path j) (t.path j)) : PathStep conf s j (.check i ticks seen) t
  | failbackTick {seen : Seen} {t : CheckedSystem}
      (ht : Kept (seen.gone j) (s.path j) (t.path j)) : PathStep conf s j (.failbackTick seen) t
  | kernel {i : ℕ} {dmstate : PState} {t : CheckedSystem} (ht : t.path j = s.path j) :
      PathStep conf s j (.kernel i dmstate) t
  | update {table : GroupTable} {t : CheckedSystem}
      (ht : t.path j = markFailed conf ((s.readTable table).path j)) :
      PathStep conf s j (.update table) t
  | soon {t : CheckedSystem} (ht : t.path j = { s.path j with tick := 1 }) :
      PathStep conf s j (.soon j) t
  | otherSoon {i : ℕ} {t : CheckedSystem} (hne : i ≠ j) (ht : t.path j = s.path j) :
      PathStep conf s j (.soon i) t

theorem deferedFailbackTick_refreshed : Refreshed seen s (s.deferedFailbackTick seen) := by
  unfold deferedFailbackTick
  dsimp only
  have hdown : Refreshed seen s
      { s with mpp := { s.mpp with failbackTick := s.mpp.failbackTick - 1 } } :=
    ⟨rfl, fun _ => .refl _ _, rfl, rfl, rfl⟩
  have hneed (asked : ℕ → Bool) :=
    (hdown.trans (pathinfo_refreshed asked)).trans (needSwitchPathgroup_refreshed seen.best)
  split_ifs
  · exact (hneed _).trans ⟨rfl, fun _ => .refl _ _, rfl, rfl, rfl⟩
  · exact hneed _
  · exact hdown
  · exact .refl _

theorem checkStep_path (h : checkStep conf s e = some t) (j : ℕ) : PathStep conf s j e t := by
  cases e with
  | check i ticks seen =>
    obtain ⟨-, h⟩ := Option.ite_none_right_eq_some.mp h
    obtain rfl := Option.some.inj h
    rw [checkPath_eq]
    by_cases hij : i = j
    · subst hij
      split_ifs with hmapped hwait
      · exact .unmapped hmapped rfl
      · exact .waits hwait (setPath_self _)
      · refine .examined ?_ examine_cases
        rw [skips]
        tauto
    · have hji : j ≠ i := fun heq => hij heq.symm
      refine .other hij ?_
      split_ifs
      · exact .refl _ _
      · rw [setPath_of_ne _ hji]
        exact .refl _ _
      · exact examined_other examine_cases hji
  | failbackTick seen =>
    cases h
    exact .failbackTick (deferedFailbackTick_refreshed.kept j)
  | kernel i dmstate =>
    cases h
    exact .kernel rfl
  | update table =>
    cases h
    exact .update rfl
  | soon i =>
    cases h
    by_cases hij : i = j
    · subst hij
      exact .soon (setPath_self _)
    · exact .otherSoon hij (setPath_of_ne _ fun heq => hij heq.symm)

theorem markFailed_tick_le (pp : CheckedPath) : (markFailed conf pp).tick ≤ pp.tick := by
  unfold markFailed
  split_ifs
  · exact min_le_left _ _
  · exact le_rfl

theorem markFailed_checkint (pp : CheckedPath) : (markFailed conf pp).checkint = pp.checkint := by
  unfold markFailed
  split_ifs <;> rfl

theorem checkStep_scheduled (hconf : conf.checkint ≤ conf.maxCheckint)
    (h : checkStep conf s e = some t) (hs : Scheduled conf (s.path j)) :
    Scheduled conf (t.path j) := by
  obtain ⟨k, hk, htick⟩ := hs
  cases checkStep_path h j with
  | examined hdue ht => exact .examined hconf ht ⟨k, hk, htick⟩
  | waits hwait ht =>
    rw [ht]
    exact ⟨k, hk, (Nat.sub_le _ _).trans htick⟩
  | other hne ht => exact .kept ⟨k, hk, htick⟩ ht
  | failbackTick ht => exact .kept ⟨k, hk, htick⟩ ht
  | update ht =>
    rw [ht]
    refine ⟨k, (markFailed_checkint _).trans hk, (markFailed_tick_le _).trans htick⟩
  | soon ht =>
    rw [ht]
    exact ⟨k, hk, le_max_left _ _⟩
  | unmapped hmapped ht | kernel ht | otherSoon hne ht =>
    rw [ht]
    exact ⟨k, hk, htick⟩

/-- The ticks that the checker has let pass for the path. -/
def elapsed (j : ℕ) (es : List CheckEvent) : ℕ :=
  (es.map fun
    | .check i ticks _ => if i = j then ticks else 0
    | _ => 0).sum

/-- No check of the path takes place, although it belongs to the map. -/
def Waiting (j : ℕ) (s : CheckedSystem) (e : CheckEvent) (_ : CheckedSystem) : Prop :=
  ¬ Examines s e j ∧ (s.path j).mapped = true ∧ (s.path j).initialized ≠ .removed

/-- While a path waits, its tick runs down. -/
theorem run_waiting (h : run (checkStep conf) s es = some t)
    (ha : Along (checkStep conf) (Waiting j) s es) :
    elapsed j es + max 1 (t.path j).tick ≤ max 1 (s.path j).tick := by
  induction es generalizing s with
  | nil =>
    cases h
    exact (Nat.zero_add _).le
  | cons e es ih =>
    obtain ⟨u, hstep, hrun⟩ := Option.bind_eq_some_iff.mp h
    obtain ⟨⟨hexamines, hmapped, hremoved⟩, ha⟩ := ha u hstep
    have hrest := ih hrun ha
    have hcons : elapsed j (e :: es) = elapsed j [e] + elapsed j es := by
      simp [elapsed]
    rw [hcons]
    suffices elapsed j [e] + max 1 (u.path j).tick ≤ max 1 (s.path j).tick by omega
    cases checkStep_path hstep j with
    | examined hdue ht => exact absurd ⟨_, _, rfl, hdue⟩ hexamines
    | waits hwait ht =>
      rw [ht]
      simp [elapsed]
      omega
    | unmapped hno ht =>
      rw [hmapped] at hno
      exact absurd hno (by simp [hremoved])
    | other hne ht =>
      rw [ht.tick]
      simp [elapsed, hne]
    | failbackTick ht =>
      rw [ht.tick]
      simp [elapsed]
    | update ht =>
      have hle : (u.path j).tick ≤ (s.path j).tick := by
        rw [ht]
        exact markFailed_tick_le _
      simp only [elapsed, List.map_cons, List.map_nil, List.sum_cons, List.sum_nil]
      omega
    | soon ht =>
      rw [ht]
      simp [elapsed]
    | kernel ht =>
      rw [ht]
      simp [elapsed]
    | otherSoon hne ht =>
      rw [ht]
      simp [elapsed]

/-- In every run: the interval of a path is the shortest one doubled a number of times, or the
longest; a path is checked before it has waited for the longest interval, and one that was not found
good before it has waited for the shortest. -/
theorem run_schedule (hconf : conf.checkint ≤ conf.maxCheckint)
    (hs : ∀ j, Scheduled conf (s.path j)) (h : run (checkStep conf) s es = some t) (j : ℕ) :
    (∃ k, (t.path j).checkint = conf.checkint * 2 ^ k ∨
      (t.path j).checkint = conf.maxCheckint ∧ conf.maxCheckint ≤ conf.checkint * 2 ^ k + 1) ∧
    (∀ more u, run (checkStep conf) t more = some u → Along (checkStep conf) (Waiting j) t more →
      elapsed j more < max 1 conf.maxCheckint) ∧
    ∀ ticks seen more u v, ¬ t.skips j ticks → PathState.good seen.newstate = false →
      checkStep conf t (.check j ticks seen) = some u → run (checkStep conf) u more = some v →
      Along (checkStep conf) (Waiting j) u more → elapsed j more < max 1 conf.checkint := by
  have ht : Scheduled conf (t.path j) :=
    run_invariant (fun s => Scheduled conf (s.path j))
      (fun _ _ _ hstep _ => checkStep_scheduled hconf hstep) (hs j) (along_true s es) h
  obtain ⟨k, hk, htick⟩ := ht
  refine ⟨⟨k, ?_⟩, fun more u hrun ha => ?_, fun ticks seen more u v hdue hbad hstep hrun ha => ?_⟩
  · rw [hk]
    exact interval_eq hconf k
  · have hwait := run_waiting hrun ha
    have hle := interval_le hconf k
    omega
  · have hwait := run_waiting hrun ha
    have hu : (u.path j).tick = 1 ∨ (u.path j).tick = conf.checkint := by
      cases checkStep_path hstep j with
      | examined _ hexamined =>
        obtain ⟨hu, -⟩ | ⟨hgood, -⟩ := examined_schedule hexamined
        · exact hu
        · rw [hbad] at hgood
          cases hgood
      | waits hlt => exact absurd (.inr (.inr hlt)) hdue
      | unmapped hno => exact absurd (hno.imp_right .inl) hdue
      | other hne => exact absurd rfl hne
    omega

def sampleConf : CheckConf := { checkint := 5, maxCheckint := 20 }

/-- A map with a path that is good. -/
def sampleSystem : CheckedSystem :=
  { mpp := { settings := ⟨0, 0, 0, -1, -1, -1, -1⟩ }
    size := 1
    path := fun _ =>
      { err := { state := .up }, chkrstate := .up, dmstate := .active, checkint := 5 }
    kernel := fun _ => .active }

def sampleSeen : Seen := { checker := .up, sync := .ok { nextpg := 1 } }

theorem run_schedule_sample : ∃ t,
    run (checkStep sampleConf) sampleSystem [.check 0 1 sampleSeen] = some t ∧
      (t.path 0).checkint = 10 ∧ elapsed 0 [.check 0 9 sampleSeen] < 20 := by
  have hscheduled (j : ℕ) : Scheduled sampleConf (sampleSystem.path j) :=
    ⟨0, rfl, Nat.zero_le _⟩
  obtain ⟨-, hwaits, -⟩ :=
    @run_schedule sampleConf sampleSystem _ [.check 0 1 sampleSeen] (by decide) hscheduled rfl 0
  refine ⟨_, rfl, rfl, hwaits [.check 0 9 sampleSeen] _ rfl fun u hu => ⟨⟨?_, rfl, nofun⟩, trivial⟩⟩
  rintro ⟨ticks, seen, ⟨⟩, hdue⟩
  exact hdue (.inr (.inr (Nat.lt_succ_self 9)))

end Schedule

section Settings
variable {conf : CheckConf} {seen : Seen} {s t u : CheckedSystem} {i : ℕ} {e : CheckEvent}

/-- It is the same map, with the same settings. -/
def SameMap (s t : CheckedSystem) : Prop :=
  t.size = s.size ∧ t.mpp.ghostDelay = s.mpp.ghostDelay ∧ t.mpp.pgfailback = s.mpp.pgfailback ∧
    t.mpp.settings = s.mpp.settings

theorem SameMap.trans (h : SameMap s t) (h' : SameMap t u) : SameMap s u :=
  ⟨h'.1.trans h.1, h'.2.1.trans h.2.1, h'.2.2.1.trans h.2.2.1, h'.2.2.2.trans h.2.2.2⟩

theorem refreshed_sameMap (h : Refreshed seen s t) : SameMap s t :=
  ⟨h.size, h.ghostDelay, h.pgfailback, h.settings⟩

theorem prepared_sameMap (h : Prepared conf s i u) : SameMap s u := by
  obtain ⟨pg, nextpg, disabled, heq⟩ := h.mpp
  refine ⟨h.size, ?_, ?_, ?_⟩ <;> rw [heq]

theorem concluded_sameMap {newstate : PathState} (h : Concluded conf seen u i newstate t) :
    SameMap u t := by
  have htouched {v : CheckedSystem} {pp : CheckedPath} {kernel : ℕ → PState}
      (hv : Touched u i pp kernel v) : SameMap u v :=
    ⟨hv.size, by rw [hv.mpp], by rw [hv.mpp], by rw [hv.mpp]⟩
  have hset {v : CheckedSystem} {pp : CheckedPath} {kernel : ℕ → PState}
      {newPathUp chkrNewPathUp marginalChanged : Bool} (hv : Touched u i pp kernel v) :
      SameMap u (v.refresh seen i newPathUp chkrNewPathUp marginalChanged) :=
    (htouched hv).trans (refreshed_sameMap (refresh_refreshed _ _ _))
  cases h with
  | failed hbad hnew hv =>
    have hv' := htouched hv
    exact hv'
  | recovered chkrNewPathUp marginalChanged hgood hnew hkernel hv => exact hset hv
  | reinstated marginalChanged hgood hsame hdm hv => exact hset hv
  | quiet marginalChanged hgood hsame hdm hv => exact hset hv
  | stillBad marginalChanged hbad hsame hkernel hv => exact hset hv

theorem examined_sameMap (h : Examined conf seen s i t) : SameMap s t := by
  cases h with
  | concluded hu ht => exact (prepared_sameMap hu).trans (concluded_sameMap ht)
  | delayed hu | orphaned hu =>
    have hu' := prepared_sameMap hu
    exact hu'
  | unusable | cancelled | pending | notFound => exact ⟨rfl, rfl, rfl, rfl⟩

theorem checkStep_sameMap (h : checkStep conf s e = some t) : SameMap s t := by
  cases e with
  | check i ticks seen =>
    obtain ⟨-, h⟩ := Option.ite_none_right_eq_some.mp h
    obtain rfl := Option.some.inj h
    rw [checkPath_eq]
    split_ifs
    · exact ⟨rfl, rfl, rfl, rfl⟩
    · exact ⟨rfl, rfl, rfl, rfl⟩
    · exact examined_sameMap examine_cases
  | failbackTick seen =>
    cases h
    exact refreshed_sameMap deferedFailbackTick_refreshed
  | kernel | update | soon =>
    cases h
    exact ⟨rfl, rfl, rfl, rfl⟩

end Settings

end MultipathTools.Daemon
