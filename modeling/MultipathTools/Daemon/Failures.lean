import MultipathTools.Daemon.Checkerloop
import MultipathTools.Daemon.ReinstateLaw

/-! The checker loop counts the failures of a path as the checks of the path do one after the
other. -/
namespace MultipathTools.Daemon
open Dmparser CheckedSystem

/-- At most the state has become another one, as `pathinfo` and `update_multipath` set it. -/
def ErrPath.KeptOrDown (pp qq : ErrPath) : Prop := qq = pp ∨ qq = { pp with state := .down }

namespace CheckedSystem

section Examine
variable {conf : CheckConf} {seen : Seen} {s t u : CheckedSystem} {i : ℕ} {gone : Bool}
  {pp qq : CheckedPath}

theorem Kept.keptOrDown (h : Kept gone pp qq) : pp.err.KeptOrDown qq.err :=
  h.err.imp_right And.right

theorem concluded_err {newstate : PathState} (h : Concluded conf seen u i newstate t) :
    ErrPath.KeptOrDown { (u.path i).err with state := newstate } (t.path i).err := by
  have hrefresh {v : CheckedSystem} {pp : CheckedPath} {kernel : ℕ → PState}
      (hv : Touched u i pp kernel v) (newPathUp chkrNewPathUp marginalChanged : Bool) :
      pp.err.KeptOrDown
        ((v.refresh seen i newPathUp chkrNewPathUp marginalChanged).path i).err := by
    have hkept := (@refresh_refreshed seen v i newPathUp chkrNewPathUp marginalChanged).kept i
    rw [hv.self] at hkept
    exact hkept.keptOrDown
  cases h with
  | failed hbad hnew hv =>
    left
    dsimp only
    rw [hv.self]
    rfl
  | recovered chkrNewPathUp marginalChanged hgood hnew hkernel hv => exact hrefresh hv _ _ _
  | reinstated marginalChanged hgood hsame hdm hv =>
    have hkept := hrefresh hv false false marginalChanged
    rw [hsame]
    exact hkept
  | quiet marginalChanged hgood hsame hdm hv =>
    have hkept := hrefresh hv false false marginalChanged
    rw [hsame]
    exact hkept
  | stillBad marginalChanged hbad hsame hkernel hv =>
    have hkept := hrefresh hv false false marginalChanged
    rw [hsame]
    exact hkept

/-- The judgement of a path counts its failures as `checkPath` does. -/
theorem judge_err (newstate : PathState) (chkrNewPathUp : Bool)
    (hremoved : newstate ≠ .removed) (hunusable : ¬ (newstate = .wild ∨ newstate = .unchecked))
    (hcancelled : ¬ (PathState.good newstate = false ∧ (u.path i).err.state = .delayed))
    (hpending : newstate ≠ .pending) :
    (Daemon.checkPath u.mpp.settings (u.errCheck conf seen newstate) (u.path i).err).KeptOrDown
      ((u.judge conf seen i newstate chkrNewPathUp).path i).err := by
  have hkept := shouldSkipPath_marginal u.mpp.settings (u.errCheck conf seen newstate) (u.path i).err
  have hset (pp : CheckedPath) (marginalChanged : Bool) :
      ErrPath.KeptOrDown { pp.err with state := newstate }
        (((u.setPath i pp).settle conf seen i newstate marginalChanged chkrNewPathUp).path i).err := by
    have hsettled := concluded_err (@settle_cases conf seen (u.setPath i pp) i newstate
      marginalChanged chkrNewPathUp)
    rwa [setPath_self] at hsettled
  have hgood : (newstate = .up ∨ newstate = .ghost) ↔ PathState.good newstate = true := by
    unfold PathState.good
    simp
  have hbad : (newstate ≠ .up ∧ newstate ≠ .ghost) ↔ PathState.good newstate = false := by
    rw [← Bool.not_eq_true, ← hgood]
    tauto
  have hnew : (u.errCheck conf seen newstate).newstate = newstate := rfl
  have hfound : (u.errCheck conf seen newstate).mapFound = true := rfl
  have hgroups : (u.errCheck conf seen newstate).marginalPathgroups = conf.marginalPathgroups := rfl
  unfold judge
  generalize u.errCheck conf seen newstate = c at hkept hnew hfound hgroups ⊢
  unfold Daemon.checkPath
  rw [hnew, hfound, hgroups, if_neg hremoved]
  simp only [hbad, hgood]
  rw [if_neg hunusable, if_neg hcancelled, if_neg hpending,
    if_neg (show ¬ true = false by decide)]
  generalize shouldSkipPath u.mpp.settings c (u.path i).err = r at hkept ⊢
  split_ifs with hcheck hskipped hnone htest hgroups hmarginal hmarginal
  · left
    rw [setPath_self]
  · left
    rw [setPath_self]
  · exact hset _ _
  · exact hset _ _
  · have hnot : r.1.marginal = false :=
      hkept.trans (Bool.eq_false_iff.mpr fun hset => hmarginal ⟨hgroups, hset⟩)
    rw [← hnot]
    exact hset _ _
  · exact absurd hmarginal.1 hgroups
  · exact hset _ _
  · exact concluded_err (settle_cases _ _ _)

/-- The check that the path is judged by, behind `update_multipath_strings`. -/
def judgement (conf : CheckConf) (seen : Seen) (s : CheckedSystem) (i : ℕ) : Check :=
  let c (u : CheckedSystem) := u.errCheck conf seen seen.newstate
  match seen.sync with
  | .notFound | .orphaned _ => { c s with mapFound := false }
  | .tableFailed => c ((s.due conf i).unsynced i false)
  | .statusFailed => c ((s.due conf i).unsynced i true)
  | .ok table => c ((s.due conf i).readTable table)

theorem judgement_newstate : (s.judgement conf seen i).newstate = seen.newstate := by
  unfold judgement
  dsimp only
  split <;> rfl

/-- A check of a path that is due counts its failures as `checkPath` does. -/
theorem examine_err :
    (Daemon.checkPath s.mpp.settings (s.judgement conf seen i) (s.path i).err).KeptOrDown
      ((s.examine conf seen i).path i).err := by
  have hdue : ((s.due conf i).path i).err = (s.path i).err := by rw [due_self]
  have hremoved : seen.newstate ≠ .removed := by
    unfold Seen.newstate
    dsimp only
    generalize (if seen.offline = .up then seen.checker else seen.offline) = newstate
    split_ifs with h
    · nofun
    · exact h
  have hnew : (s.judgement conf seen i).newstate = seen.newstate := judgement_newstate
  have hgood : ¬ (seen.newstate ≠ .up ∧ seen.newstate ≠ .ghost) ↔
      ¬ PathState.good seen.newstate = false := by
    unfold PathState.good
    simp only [Bool.decide_or, Bool.or_eq_false_iff, decide_eq_false_iff_not, ne_eq]
  unfold examine
  dsimp only
  split_ifs with hunusable hcancelled hpending
  · have hkept := @pathinfo_kept seen (s.due conf i) (fun j => j = i) i
    unfold Daemon.checkPath
    rw [hnew, if_neg hremoved, if_pos hunusable, ← hdue]
    exact hkept.keptOrDown
  · left
    rw [setPath_self]
    unfold Daemon.checkPath
    rw [hnew, if_neg hremoved, if_neg hunusable, if_pos]
    exact ⟨not_not.mp fun h => hgood.mp h hcancelled.1, hcancelled.2⟩
  · left
    rw [setPath_self, hdue]
    unfold Daemon.checkPath
    rw [hnew, if_neg hremoved, if_neg hunusable, if_neg, if_pos hpending]
    exact fun h => hcancelled ⟨not_not.mp fun hbad => hgood.mpr hbad h.1, h.2⟩
  · have hlost {c : Check} (hnew : c.newstate = seen.newstate) (hfound : c.mapFound = false) :
        Daemon.checkPath s.mpp.settings c (s.path i).err = (s.path i).err := by
      unfold Daemon.checkPath
      rw [hnew, if_neg hremoved, if_neg hunusable, if_neg, if_neg hpending, if_pos hfound]
      exact fun h => hcancelled ⟨not_not.mp fun hbad => hgood.mpr hbad h.1, h.2⟩
    have hjudge {u : CheckedSystem} (herr : (u.path i).err = (s.path i).err)
        (hsettings : u.mpp.settings = s.mpp.settings) (chkrNewPathUp : Bool) :
        (Daemon.checkPath s.mpp.settings (u.errCheck conf seen seen.newstate)
          (s.path i).err).KeptOrDown
            ((u.judge conf seen i seen.newstate chkrNewPathUp).path i).err := by
      rw [← herr, ← hsettings]
      refine judge_err _ _ hremoved hunusable ?_ hpending
      rwa [herr]
    have hunsynced (pg : Bool) :
        (((s.due conf i).unsynced i pg).path i).err = (s.path i).err := by
      rw [unsynced_self, hdue]
    unfold synchronize judgement
    cases seen.sync with
    | notFound =>
      left
      rw [hlost rfl rfl]
      exact hdue
    | orphaned table =>
      left
      rw [hlost rfl rfl, setPath_self]
      cases table with
      | none => exact hunsynced true
      | some table => exact hdue
    | tableFailed =>
      exact @hjudge (((s.due conf i).unsynced i false).call .setNoPathRetry) (hunsynced false) rfl _
    | statusFailed =>
      exact @hjudge (((s.due conf i).unsynced i true).call .setNoPathRetry) (hunsynced true) rfl _
    | ok table =>
      exact @hjudge (((s.due conf i).readTable table).call .setNoPathRetry) hdue rfl _

end Examine

end CheckedSystem

section Run
variable {conf : CheckConf} {s t : CheckedSystem} {i : ℕ} {e : CheckEvent} {es : List CheckEvent}
  {mpp : ErrSettings} {pp qq : ErrPath} {clock : ℤ} {past : Past}

/-- The check of the path that an event is, unless it is put off. -/
def checkOf (conf : CheckConf) (i : ℕ) (s : CheckedSystem) : CheckEvent → Option Check
  | .check j ticks seen =>
    if j = i ∧ ¬ s.skips i ticks then some (s.judgement conf seen i) else none
  | _ => none

/-- The checks of the path in a run, in their order. -/
def checksOf (conf : CheckConf) (i : ℕ) : CheckedSystem → List CheckEvent → List Check
  | _, [] => []
  | s, e :: es =>
    (checkOf conf i s e).toList ++ (checkStep conf s e).elim [] fun t => checksOf conf i t es

def ErrEvent.asCheck : ErrEvent → Option Check
  | .check c => some c
  | .down => none

theorem markFailed_err (pp : CheckedPath) : pp.err.KeptOrDown (markFailed conf pp).err := by
  unfold markFailed
  split_ifs
  · exact .inr rfl
  · exact .inl rfl

/-- What an event makes of the record of the path: a check that is not put off counts, and nothing
else does. -/
theorem checkStep_err (h : checkStep conf s e = some t) :
    ((checkOf conf i s e).elim (s.path i).err fun c =>
      checkPath s.mpp.settings c (s.path i).err).KeptOrDown (t.path i).err := by
  cases e with
  | check j ticks seen =>
    by_cases hdue : j = i ∧ ¬ s.skips i ticks
    · obtain ⟨rfl, hskips⟩ := hdue
      obtain ⟨-, h⟩ := Option.ite_none_right_eq_some.mp h
      obtain rfl := Option.some.inj h
      unfold skips at hskips
      rw [checkPath_eq, if_neg (by tauto), if_neg (by tauto), checkOf, if_pos ⟨rfl, hskips⟩]
      exact examine_err
    · rw [checkOf, if_neg hdue]
      cases checkStep_path h i with
      | examined hskips => exact absurd ⟨rfl, hskips⟩ hdue
      | waits hwait ht =>
        left
        rw [ht]
        rfl
      | unmapped hno ht =>
        left
        rw [ht]
        rfl
      | other hne ht => exact ht.keptOrDown
  | failbackTick seen =>
    cases checkStep_path h i with
    | failbackTick ht => exact ht.keptOrDown
  | kernel j dmstate =>
    cases checkStep_path h i with
    | kernel ht =>
      left
      rw [ht]
      rfl
  | update table =>
    cases checkStep_path h i with
    | update ht =>
      rw [ht]
      exact markFailed_err ((s.readTable table).path i)
  | soon j =>
    left
    cases checkStep_path h i with
    | soon ht | otherSoon hne ht =>
      rw [ht]
      rfl

theorem run_keptOrDown (h : pp.KeptOrDown qq) (mpp : ErrSettings) (clock : ℤ) (past : Past) :
    ∃ ds past', run (errStep mpp) ⟨pp, clock, past⟩ ds = some ⟨qq, clock, past'⟩ ∧
      ds.filterMap ErrEvent.asCheck = [] := by
  obtain rfl | rfl := h
  · exact ⟨[], past, rfl, rfl⟩
  · exact ⟨[.down], past.bad, rfl, rfl⟩

/-- Every run of the checker loop is, for the record of a path, a run of its checks. -/
theorem run_checks (h : run (checkStep conf) s es = some t)
    (hclock : (clock :: (checksOf conf i s es).map Check.now).Pairwise (· ≤ ·))
    (hnew : ∀ c ∈ checksOf conf i s es, c.newstate ≠ .delayed) :
    ∃ ds u, run (errStep s.mpp.settings) ⟨(s.path i).err, clock, past⟩ ds = some u ∧
      u.pp = (t.path i).err ∧ ds.filterMap ErrEvent.asCheck = checksOf conf i s es := by
  induction es generalizing s clock past with
  | nil =>
    cases h
    exact ⟨[], _, rfl, rfl, rfl⟩
  | cons e es ih =>
    obtain ⟨v, hstep, hrun⟩ := Option.bind_eq_some_iff.mp h
    have hchecks : checksOf conf i s (e :: es) =
        (checkOf conf i s e).toList ++ checksOf conf i v es := by
      rw [checksOf, hstep, Option.elim_some]
    have hsettings := (checkStep_sameMap hstep).2.2.2
    rw [hchecks] at hclock hnew ⊢
    -- the check itself, then what may set the state to down, then the rest of the run
    have hcheck : ∃ clock' past', run (errStep s.mpp.settings) ⟨(s.path i).err, clock, past⟩
          ((checkOf conf i s e).toList.map .check) =
            some ⟨(checkOf conf i s e).elim (s.path i).err fun c =>
              checkPath s.mpp.settings c (s.path i).err, clock', past'⟩ ∧
        (clock' :: (checksOf conf i v es).map Check.now).Pairwise (· ≤ ·) := by
      cases hc : checkOf conf i s e with
      | none =>
        rw [hc] at hclock
        exact ⟨clock, past, rfl, hclock⟩
      | some c =>
        rw [hc] at hclock hnew
        obtain ⟨hle, hrest⟩ := List.pairwise_cons.mp hclock
        have hguard : clock ≤ c.now ∧ c.newstate ≠ .delayed :=
          ⟨hle _ List.mem_cons_self, hnew _ List.mem_cons_self⟩
        have hstep : errStep s.mpp.settings ⟨(s.path i).err, clock, past⟩ (.check c) = some _ :=
          if_pos hguard
        exact ⟨c.now, _, congrArg (Option.bind · some) hstep, hrest⟩
    obtain ⟨clock', past', hfirst, hclock'⟩ := hcheck
    obtain ⟨ds, past'', hdown, hnone⟩ :=
      run_keptOrDown (@checkStep_err conf s v i e hstep) s.mpp.settings clock' past'
    obtain ⟨ds', u, hlast, hpp, hrest⟩ :=
      @ih v clock' past'' hrun hclock' fun c hc => hnew c (List.mem_append_right _ hc)
    refine ⟨(checkOf conf i s e).toList.map .check ++ ds ++ ds', u, ?_, hpp, ?_⟩
    · rw [List.append_assoc, run_append, hfirst, Option.bind_some, run_append, hdown,
        Option.bind_some, ← hsettings]
      exact hlast
    · have hasCheck : ErrEvent.asCheck ∘ .check = some := rfl
      rw [List.filterMap_append, List.filterMap_append, List.filterMap_map, hasCheck,
        List.filterMap_some, hnone, hrest, List.append_nil]

/-- In every run of the checker loop from a path on which nothing has been counted yet: what is counted
is what the checks of the path count, one after the other, but for states that are set to down in between.
So a path that is not held back has no more failures than the threshold, and only one that is held
back is delayed. -/
theorem run_held {state : PathState} (hfresh : (s.path i).err = { state })
    (hstate : state ≠ .delayed) (hsan : sanPathCheckEnabled s.mpp.settings = true)
    (hmarginal : marginalPathCheckEnabled s.mpp.settings = false)
    (hint : IsInt s.mpp.settings.sanPathErrThreshold) (h : run (checkStep conf) s es = some t)
    (hclock : (clock :: (checksOf conf i s es).map Check.now).Pairwise (· ≤ ·))
    (hnew : ∀ c ∈ checksOf conf i s es, c.newstate ≠ .delayed) :
    (∃ ds u, run (errStep s.mpp.settings) (errStart state clock) ds = some u ∧
      u.pp = (t.path i).err ∧ ds.filterMap ErrEvent.asCheck = checksOf conf i s es) ∧
    ((t.path i).err.disableReinstate = false →
      ((t.path i).err.pathFailures : ℤ) ≤ s.mpp.settings.sanPathErrThreshold ∧
        (t.path i).err.state ≠ .delayed) := by
  obtain ⟨ds, u, hrun, hpp, hchecks⟩ :=
    @run_checks conf s t i es clock { lastBad := PathBad state } h hclock hnew
  rw [hfresh] at hrun
  refine ⟨⟨ds, u, hrun, hpp, hchecks⟩, fun hfree => ?_⟩
  have hinv : ErrInv s.mpp.settings u :=
    run_invariant _ (fun _ _ _ hstep _ hs => (hs.step hsan hmarginal hint hstep).1)
      (errStart_inv hstate hsan clock) (along_true _ ds) hrun
  rw [← hpp] at hfree ⊢
  refine ⟨hinv.bound hfree, fun hdelayed => ?_⟩
  rw [hinv.delayed hdelayed] at hfree
  cases hfree

/-- A path that the kernel fails again after it has been reinstated. -/
def flakyEvents : List CheckEvent :=
  let seen (now : ℤ) : Seen := { checker := .up, sync := .ok { nextpg := 1 }, now }
  [.check 0 1 (seen 5), .kernel 0 .failed, .update { nextpg := 1 }, .check 0 9 (seen 10)]

/-- A map with a path that is down, and held back with the second failure. -/
def flakySystem : CheckedSystem := { sampleSystem with
  mpp := { settings := ⟨1, 3, 60, -1, -1, -1, -1⟩ }
  path := fun _ => { err := { state := .down }, chkrstate := .down, checkint := 5 }
  kernel := fun _ => .failed }

theorem run_held_flaky : ∃ t, run (checkStep sampleConf) flakySystem flakyEvents = some t ∧
    (t.path 0).err.state = .delayed ∧ (t.path 0).err.disableReinstate ≠ false := by
  have hstate : (run (checkStep sampleConf) flakySystem flakyEvents).map
      (fun t => (t.path 0).err.state) = some .delayed := by decide
  obtain ⟨t, ht, hdelayed⟩ := Option.map_eq_some_iff.mp hstate
  obtain ⟨-, hfree⟩ := @run_held sampleConf flakySystem t 0 flakyEvents 0 .down rfl nofun rfl rfl
    (by decide) ht (by decide) (by decide)
  exact ⟨t, ht, hdelayed, fun hheld => (hfree hheld).2 hdelayed⟩

end Run

end MultipathTools.Daemon
