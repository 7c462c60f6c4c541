import Mathlib.Tactic.Common
import MultipathTools.Base.Run
import MultipathTools.Structs

/-! How the checks of a path count its failures and delay that it is reinstated
(`check_path_reinstate_state`, `should_skip_path` and `check_path` of `multipathd/main.c`). -/
namespace MultipathTools.Daemon

/-- The settings of a map for paths that fail again and again. -/
structure ErrSettings where
  sanPathErrThreshold : ℤ
  sanPathErrForgetRate : ℤ
  sanPathErrRecoveryTime : ℤ
  marginalPathDoubleFailedTime : ℤ := -1
  marginalPathErrSampleTime : ℤ := -1
  marginalPathErrRecheckGapTime : ℤ := -1
  marginalPathErrRateThreshold : ℤ := -1
  deriving DecidableEq, Repr

def sanPathCheckEnabled (mpp : ErrSettings) : Bool :=
  0 < mpp.sanPathErrThreshold ∧ 0 < mpp.sanPathErrForgetRate ∧ 0 < mpp.sanPathErrRecoveryTime

def marginalPathCheckEnabled (mpp : ErrSettings) : Bool :=
  0 < mpp.marginalPathDoubleFailedTime ∧ 0 < mpp.marginalPathErrSampleTime ∧
    0 < mpp.marginalPathErrRecheckGapTime ∧ 0 ≤ mpp.marginalPathErrRateThreshold

/-- The fields of `struct path` that these functions use; `path_failures` is an unsigned `int`. -/
structure ErrPath where
  state : PathState
  pathFailures : ℕ := 0
  disReinstateTime : ℤ := 0
  disableReinstate : Bool := false
  sanPathErrForgetRate : ℤ := 0
  ioErrDisableReinstate : Bool := false
  marginal : Bool := false
  deriving DecidableEq, Repr

/-- What one call of `check_path` finds: the state that `path_offline` and the checker give,
whether `update_multipath_strings` finds the map with the path in it, `count_active_paths`, the
seconds of the clock, and the answer of `need_io_err_check`. -/
structure Check where
  newstate : PathState
  mapFound : Bool := true
  active : ℕ := 1
  now : ℤ
  needIoErrCheck : Bool := false
  marginalPathgroups : Bool := false
  deriving DecidableEq, Repr

/-- The end of `check_path_reinstate_state` at `reinstate_path`. -/
def ErrPath.reinstate (pp : ErrPath) : ErrPath :=
  { pp with pathFailures := 0, disableReinstate := false, sanPathErrForgetRate := 0 }

/-- `check_path_reinstate_state`; the second component is its return value. -/
def checkPathReinstateState (mpp : ErrSettings) (c : Check) (pp : ErrPath) : ErrPath × Bool :=
  if sanPathCheckEnabled mpp = false then (pp, false)
  else if pp.disableReinstate = true then
    if c.active = 0 then (pp.reinstate, false)
    else
      let pp :=
        if pp.state ≠ .up ∧ pp.state ≠ .ghost ∧ pp.state ≠ .delayed then
          { pp with sanPathErrForgetRate := mpp.sanPathErrForgetRate, disReinstateTime := c.now }
        else pp
      if mpp.sanPathErrRecoveryTime < c.now - pp.disReinstateTime then (pp.reinstate, false)
      else (pp, true)
  else if (pp.state = .up ∨ pp.state = .ghost) ∧ 0 < pp.pathFailures then
    if 0 < pp.sanPathErrForgetRate then
      ({ pp with sanPathErrForgetRate := pp.sanPathErrForgetRate - 1 }, false)
    else
      ({ pp with
          pathFailures := pp.pathFailures - 1
          sanPathErrForgetRate := mpp.sanPathErrForgetRate }, false)
  else if pp.state ≠ .down ∧ pp.state ≠ .shaky ∧ pp.state ≠ .timeout then (pp, false)
  else
    let pp :=
      { pp with
        sanPathErrForgetRate :=
          if pp.pathFailures = 0 then mpp.sanPathErrForgetRate else pp.sanPathErrForgetRate
        pathFailures := (pp.pathFailures + 1) % 2 ^ 32 }
    if mpp.sanPathErrThreshold < pp.pathFailures then
      ({ pp with disReinstateTime := c.now, disableReinstate := true }, true)
    else (pp, false)

/-- `should_skip_path`. -/
def shouldSkipPath (mpp : ErrSettings) (c : Check) (pp : ErrPath) : ErrPath × Bool :=
  if marginalPathCheckEnabled mpp then (pp, pp.ioErrDisableReinstate && c.needIoErrCheck)
  else if sanPathCheckEnabled mpp then checkPathReinstateState mpp c pp
  else (pp, false)

/-- `check_path` for a path that has a map, from the result of the checker on. -/
def checkPath (mpp : ErrSettings) (c : Check) (pp : ErrPath) : ErrPath :=
  let newstate := if c.newstate = .removed then .down else c.newstate
  if newstate = .wild ∨ newstate = .unchecked then pp
  else if (newstate ≠ .up ∧ newstate ≠ .ghost) ∧ pp.state = .delayed then
    { pp with state := newstate }
  else if newstate = .pending then pp
  else if c.mapFound = false then pp
  else if (newstate = .up ∨ newstate = .ghost) ∧
      (sanPathCheckEnabled mpp ∨ marginalPathCheckEnabled mpp) then
    let r := shouldSkipPath mpp c pp
    if r.2 then
      if c.marginalPathgroups = false then { r.1 with state := .delayed }
      else { r.1 with marginal := true, state := newstate }
    else
      { r.1 with
        marginal := if c.marginalPathgroups then false else r.1.marginal
        state := newstate }
  else { pp with state := newstate }

end MultipathTools.Daemon

/-! What one check of a path does to the count of its failures and to the delay. -/
namespace MultipathTools.Daemon

/-- What a check says about the path. -/
inductive Verdict where
  | good | bad | noResult
  deriving DecidableEq, Repr

/-- A check that is pending or that could not be done has no result, nor has one that does not
find the map. -/
def Check.verdict (c : Check) : Verdict :=
  if c.mapFound = false then .noResult
  else
    match c.newstate with
    | .up | .ghost => .good
    | .down | .shaky | .timeout | .removed => .bad
    | .wild | .unchecked | .pending | .delayed => .noResult

/-- A failure, as the state of a path records it. -/
def PathBad (state : PathState) : Prop := state = .down ∨ state = .shaky ∨ state = .timeout

instance (state : PathState) : Decidable (PathBad state) := inferInstanceAs (Decidable (_ ∨ _ ∨ _))

def PathGood (state : PathState) : Prop := state = .up ∨ state = .ghost

/-- What `check_path_reinstate_state` does with a path. -/
inductive Counted (mpp : ErrSettings) (c : Check) (pp : ErrPath) : ErrPath × Bool → Prop
  | released (hheld : pp.disableReinstate = true) (h : c.active = 0 ∨
      (PathGood pp.state ∨ pp.state = .delayed) ∧
        mpp.sanPathErrRecoveryTime < c.now - pp.disReinstateTime) :
      Counted mpp c pp (pp.reinstate, false)
  | waits (hheld : pp.disableReinstate = true) (rate : ℤ)
      (h : PathGood pp.state ∨ pp.state = .delayed) :
      Counted mpp c pp ({ pp with sanPathErrForgetRate := rate }, true)
  | restarts (hheld : pp.disableReinstate = true) (rate : ℤ) :
      Counted mpp c pp
        ({ pp with sanPathErrForgetRate := rate, disReinstateTime := c.now }, true)
  | kept (hfree : pp.disableReinstate = false) (hgood : PathGood pp.state)
      (hpos : 0 < pp.pathFailures) (hrate : 0 < pp.sanPathErrForgetRate) :
      Counted mpp c pp
        ({ pp with sanPathErrForgetRate := pp.sanPathErrForgetRate - 1 }, false)
  | forgotten (hfree : pp.disableReinstate = false) (hgood : PathGood pp.state)
      (hpos : 0 < pp.pathFailures) (hrate : pp.sanPathErrForgetRate ≤ 0) :
      Counted mpp c pp
        ({ pp with
            pathFailures := pp.pathFailures - 1
            sanPathErrForgetRate := mpp.sanPathErrForgetRate }, false)
  | idle (hfree : pp.disableReinstate = false) (hbad : ¬PathBad pp.state)
      (h : PathGood pp.state → pp.pathFailures = 0) : Counted mpp c pp (pp, false)
  | failed (hfree : pp.disableReinstate = false) (hbad : PathBad pp.state) {rate : ℤ} {n : ℕ}
      (hrate : rate =
        if pp.pathFailures = 0 then mpp.sanPathErrForgetRate else pp.sanPathErrForgetRate)
      (hn : n = (pp.pathFailures + 1) % 2 ^ 32) (hle : n ≤ mpp.sanPathErrThreshold) :
      Counted mpp c pp ({ pp with sanPathErrForgetRate := rate, pathFailures := n }, false)
  | delayed (hfree : pp.disableReinstate = false) (hbad : PathBad pp.state) {rate : ℤ} {n : ℕ}
      (hn : n = (pp.pathFailures + 1) % 2 ^ 32) (hlt : mpp.sanPathErrThreshold < n) :
      Counted mpp c pp
        ({ pp with
            sanPathErrForgetRate := rate
            pathFailures := n
            disReinstateTime := c.now
            disableReinstate := true }, true)

section Step

variable {mpp : ErrSettings} {c : Check} {pp : ErrPath}

theorem not_pathBad : ¬PathBad pp.state ↔
    pp.state ≠ .down ∧ pp.state ≠ .shaky ∧ pp.state ≠ .timeout := by
  rw [PathBad, not_or, not_or]

theorem checkPathReinstateState_cases (hsan : sanPathCheckEnabled mpp = true) :
    Counted mpp c pp (checkPathReinstateState mpp c pp) := by
  have hrecovery : 0 < mpp.sanPathErrRecoveryTime := (of_decide_eq_true hsan).2.2
  have hon : sanPathCheckEnabled mpp ≠ false := by simp [hsan]
  unfold checkPathReinstateState
  dsimp only
  rw [if_neg hon]
  by_cases hheld : pp.disableReinstate = true
  · rw [if_pos hheld]
    by_cases hother : pp.state ≠ .up ∧ pp.state ≠ .ghost ∧ pp.state ≠ .delayed
    · rw [if_pos hother]
      split_ifs with hactive htime
      · exact .released hheld (Or.inl hactive)
      · rw [sub_self] at htime
        exact absurd htime (not_lt.mpr hrecovery.le)
      · exact .restarts hheld _
    · have hgood : PathGood pp.state ∨ pp.state = .delayed := by
        rw [PathGood]
        tauto
      rw [if_neg hother]
      split_ifs with hactive htime
      · exact .released hheld (Or.inl hactive)
      · exact .released hheld (Or.inr ⟨hgood, htime⟩)
      · exact .waits hheld _ hgood
  · have hfree : pp.disableReinstate = false := Bool.eq_false_iff.mpr hheld
    rw [if_neg hheld]
    split_ifs with hgood hrate hidle hlt hzero hzero
    · exact .kept hfree hgood.1 hgood.2 hrate
    · exact .forgotten hfree hgood.1 hgood.2 (not_lt.mp hrate)
    · refine .idle hfree (not_pathBad.mpr hidle) fun hup => ?_
      exact Nat.eq_zero_of_not_pos fun hpos => hgood ⟨hup, hpos⟩
    all_goals have hbad : PathBad pp.state := not_not.mp fun h => hidle (not_pathBad.mp h)
    · exact .delayed hfree hbad rfl hlt
    · exact .delayed hfree hbad rfl hlt
    · exact .failed hfree hbad (if_pos hzero).symm rfl (not_lt.mp hlt)
    · exact .failed hfree hbad (if_neg hzero).symm rfl (not_lt.mp hlt)

/-- What a check does with a path. -/
inductive Checked (mpp : ErrSettings) (c : Check) (pp : ErrPath) : ErrPath → Prop
  | idle (hverdict : c.verdict = .noResult) : Checked mpp c pp pp
  | cancelled (hstate : pp.state = .delayed) (hverdict : c.verdict ≠ .good) {state : PathState}
      (hgood : ¬PathGood state) (hdelayed : state ≠ .delayed) :
      Checked mpp c pp { pp with state := state }
  | bad (hverdict : c.verdict = .bad) {state : PathState} (hbad : PathBad state) :
      Checked mpp c pp { pp with state := state }
  | good (hverdict : c.verdict = .good) {r : ErrPath × Bool} (hr : Counted mpp c pp r)
      {state : PathState} (marginal : Bool)
      (hstate : PathGood state ∨ r.2 = true ∧ state = .delayed) :
      Checked mpp c pp { r.1 with marginal := marginal, state := state }

/-- The state that `check_path` goes on with; a removed path is taken for one that is down. -/
theorem newstate_cases (hc : c.newstate ≠ .delayed) {state : PathState}
    (hstate : state = if c.newstate = .removed then .down else c.newstate) :
    (state = .wild ∨ state = .unchecked ∨ state = .pending) ∧ c.verdict = .noResult ∨
      PathBad state ∧ c.verdict = (if c.mapFound = false then .noResult else .bad) ∨
      PathGood state ∧ c.verdict = if c.mapFound = false then .noResult else .good := by
  unfold Check.verdict PathBad PathGood
  subst hstate
  cases hn : c.newstate with
  | delayed => exact absurd hn hc
  | _ => simp

theorem checkPath_cases (hsan : sanPathCheckEnabled mpp = true)
    (hmarginal : marginalPathCheckEnabled mpp = false) (hc : c.newstate ≠ .delayed) :
    Checked mpp c pp (checkPath mpp c pp) := by
  have hskip : shouldSkipPath mpp c pp = checkPathReinstateState mpp c pp := by
    rw [shouldSkipPath, if_neg (by simp [hmarginal]), if_pos hsan]
  have hcounted := @checkPathReinstateState_cases mpp c pp hsan
  unfold checkPath
  dsimp only
  rw [hskip]
  generalize checkPathReinstateState mpp c pp = r at hcounted ⊢
  generalize hstate : (if c.newstate = .removed then PathState.down else c.newstate) = state
  obtain ⟨hnone, hverdict⟩ | ⟨hbad, hverdict⟩ | ⟨hgood, hverdict⟩ :=
    newstate_cases hc hstate.symm
  · split_ifs with hwild hdelayed hpending hmap hgood
    · exact .idle hverdict
    · refine .cancelled hdelayed.2 (by rw [hverdict]; exact Verdict.noConfusion) ?_ ?_
      · exact fun hup => hup.elim hdelayed.1.1 hdelayed.1.2
      · rintro rfl
        simp at hnone
    · exact .idle hverdict
    all_goals
      rcases hnone with h | h | h
      · exact absurd (Or.inl h) hwild
      · exact absurd (Or.inr h) hwild
      · exact absurd h hpending
  · have hstates : ¬(state = .wild ∨ state = .unchecked) ∧ state ≠ .pending ∧ state ≠ .delayed ∧
        ¬PathGood state := by
      unfold PathGood
      rcases hbad with rfl | rfl | rfl <;> decide
    obtain ⟨hwild, hpending, hdelayed, hgood⟩ := hstates
    have hnot : ¬((state = .up ∨ state = .ghost) ∧
        (sanPathCheckEnabled mpp ∨ marginalPathCheckEnabled mpp)) := fun h => hgood h.1
    rw [if_neg hwild, if_neg hpending, if_neg hnot]
    split_ifs with hcancel hmap
    · refine .cancelled hcancel.2 ?_ hgood hdelayed
      rw [hverdict]
      split_ifs <;> decide
    · exact .idle (hverdict.trans (if_pos hmap))
    · exact .bad (hverdict.trans (if_neg hmap)) hbad
  · have hstates : ¬(state = .wild ∨ state = .unchecked) ∧ state ≠ .pending ∧
        ¬(state ≠ .up ∧ state ≠ .ghost) := by
      rcases hgood with rfl | rfl <;> decide
    obtain ⟨hwild, hpending, hup⟩ := hstates
    have hcheck : (state = .up ∨ state = .ghost) ∧
        (sanPathCheckEnabled mpp ∨ marginalPathCheckEnabled mpp) := ⟨hgood, Or.inl hsan⟩
    rw [if_neg hwild, if_neg fun h => hup h.1, if_neg hpending, if_pos hcheck]
    split_ifs with hmap hskipped hgroups hgroups
    · exact .idle (hverdict.trans (if_pos hmap))
    · exact .good (hverdict.trans (if_neg hmap)) hcounted r.1.marginal (Or.inr ⟨hskipped, rfl⟩)
    · exact .good (hverdict.trans (if_neg hmap)) hcounted true (Or.inl hgood)
    · exact .good (hverdict.trans (if_neg hmap)) hcounted false (Or.inl hgood)
    · exact .good (hverdict.trans (if_neg hmap)) hcounted r.1.marginal (Or.inl hgood)

end Step

end MultipathTools.Daemon
