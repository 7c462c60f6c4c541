import Mathlib.Algebra.Order.BigOperators.Group.List
import MultipathTools.Base.Run
import MultipathTools.Structs

/-! Recovery mode: the countdown that switches queueing off some time after the last path
has failed. `queueing` is the kernel's flag for the map and `sent` lists the messages
`dm_queue_if_no_path` has sent, the latest first. -/
namespace MultipathTools.Daemon

structure RecoveryState where
  mpp : Multipath
  queueing : Bool
  sent : List Bool := []
  deriving DecidableEq, Repr

def dmQueueIfNoPath (s : RecoveryState) (enable : Bool) : RecoveryState :=
  { s with queueing := enable, sent := enable :: s.sent }

/-- `enter_recovery_mode`. The countdown is computed in `unsigned int` and stored in an `int`. -/
def enterRecoveryMode (checkint : ℤ) (s : RecoveryState) : RecoveryState :=
  if s.mpp.inRecovery ∨ s.mpp.noPathRetry ≤ 0 then s
  else { s with mpp := { s.mpp with
    inRecovery := true
    statQueueingTimeouts := s.mpp.statQueueingTimeouts + 1
    retryTick := toInt (s.mpp.noPathRetry * checkint + 1) } }

def leaveRecoveryMode (s : RecoveryState) : RecoveryState :=
  let recovery := s.mpp.inRecovery
  let s := { s with mpp := { s.mpp with inRecovery := false, retryTick := 0 } }
  if recovery ∧ (s.mpp.noPathRetry = noPathRetryQueue ∨ s.mpp.noPathRetry > 0) then
    dmQueueIfNoPath s true
  else s

/-- `__set_no_path_retry`. -/
def setNoPathRetry (checkint : ℤ) (checkFeatures : Bool) (s : RecoveryState) : RecoveryState :=
  let checkFeatures := checkFeatures && s.mpp.features.isSome
  let isQueueing := checkFeatures && hasSubstr (s.mpp.features.getD []) queueIfNoPath
  if s.mpp.noPathRetry = noPathRetryUndef then s
  else if s.mpp.noPathRetry = noPathRetryFail then
    if !checkFeatures || isQueueing then dmQueueIfNoPath s false else s
  else if s.mpp.noPathRetry = noPathRetryQueue then
    if !checkFeatures || !isQueueing then dmQueueIfNoPath s true else s
  else if countActivePaths s.mpp > 0 then
    leaveRecoveryMode <|
      if (!checkFeatures || !isQueueing) && !s.mpp.inRecovery then dmQueueIfNoPath s true else s
  else enterRecoveryMode checkint s

def updateQueueModeDelPath (checkint : ℤ) (s : RecoveryState) : RecoveryState :=
  if countActivePaths s.mpp = 0 then
    let s := enterRecoveryMode checkint s
    if s.mpp.noPathRetry ≠ noPathRetryQueue then
      { s with mpp := { s.mpp with statMapFailures := s.mpp.statMapFailures + 1 } }
    else s
  else s

def updateQueueModeAddPath (s : RecoveryState) : RecoveryState :=
  if countActivePaths s.mpp > 0 then leaveRecoveryMode s else s

/-- `retry_count_tick`, for one map. -/
def retryCountTick (s : RecoveryState) : RecoveryState :=
  if s.mpp.retryTick > 0 then
    let s := { s with mpp := { s.mpp with
      statTotalQueueingTime := s.mpp.statTotalQueueingTime + 1
      retryTick := s.mpp.retryTick - 1 } }
    if s.mpp.retryTick = 0 then
      dmQueueIfNoPath
        { s with mpp := { s.mpp with statMapFailures := s.mpp.statMapFailures + 1 } } false
    else s
  else s

/-- The path in slot `j` of group `i`. -/
def pathAt (mpp : Multipath) (i j : ℕ) : Option Path :=
  ((mpp.pg.getD [])[i]?).bind fun pgp => pgp.paths[j]?

/-- `pp->state = state` for the path in slot `j` of group `i`. -/
def setPathState (mpp : Multipath) (i j : ℕ) (state : PathState) : Multipath :=
  { mpp with pg := mpp.pg.map fun pg =>
      pg.modify i fun pgp =>
        { pgp with paths := pgp.paths.modify j fun pp => { pp with state := state } } }

/-- What happens to a map: the checker finds a path usable or not, a second passes,
`set_no_path_retry` runs, or the features are read again from the kernel table. -/
inductive RecoveryEvent where
  | pathUp (i j : ℕ) (state : PathState)
  | pathDown (i j : ℕ) (state : PathState)
  | tick
  | setNoPathRetry (checkFeatures : Bool)
  | readFeatures (features : CStr)
  deriving DecidableEq, Repr

def PathState.isActive (st : PathState) : Bool := st = .up ∨ st = .ghost

def recoveryStep (checkint : ℤ) (s : RecoveryState) : RecoveryEvent → Option RecoveryState
  | .pathUp i j state =>
    if PathState.isActive state ∧ (pathAt s.mpp i j).isSome then
      some (updateQueueModeAddPath { s with mpp := setPathState s.mpp i j state })
    else none
  | .pathDown i j state =>
    if PathState.isActive state then none
    else (pathAt s.mpp i j).map fun pp =>
      let s := { s with mpp := setPathState s.mpp i j state }
      if pp.isActive then updateQueueModeDelPath checkint s else s
  | .tick => some (retryCountTick s)
  | .setNoPathRetry checkFeatures => some (setNoPathRetry checkint checkFeatures s)
  | .readFeatures features =>
    if hasSubstr features queueIfNoPath = s.queueing then
      some { s with mpp := { s.mpp with features := some features } }
    else none

/-- The step with a count of the ticks since a path was last active. -/
def monitorStep (checkint : ℤ) (x : RecoveryState × ℕ) (e : RecoveryEvent) :
    Option (RecoveryState × ℕ) :=
  (recoveryStep checkint x.1 e).map fun s' =>
    (s', if countActivePaths s'.mpp > 0 then 0 else if e = .tick then x.2 + 1 else x.2)

section Counting

private theorem countP_modify {l : List Path} {j : ℕ} {f : Path → Path}
    (h : ∀ pp, l[j]? = some pp → (f pp).isActive = pp.isActive) :
    (l.modify j f).countP Path.isActive = l.countP Path.isActive := by
  induction l generalizing j with
  | nil => simp
  | cons pp l ih =>
    cases j with
    | zero => simp [List.countP_cons, h pp rfl]
    | succ j => simp [List.countP_cons, ih (j := j) (fun pp hp => h pp (by simpa using hp))]

private theorem sum_modify {pg : List Pathgroup} {i : ℕ} {f : Pathgroup → Pathgroup}
    (h : ∀ pgp, pg[i]? = some pgp →
      (f pgp).paths.countP Path.isActive = pgp.paths.countP Path.isActive) :
    ((pg.modify i f).map fun pgp => pgp.paths.countP Path.isActive).sum =
      (pg.map fun pgp => pgp.paths.countP Path.isActive).sum := by
  induction pg generalizing i with
  | nil => simp
  | cons pgp pg ih =>
    cases i with
    | zero => simp [h pgp rfl]
    | succ i => simp [ih (i := i) (fun pgp hp => h pgp (by simpa using hp))]

private theorem pg_setPathState (mpp : Multipath) (i j : ℕ) (state : PathState) :
    (setPathState mpp i j state).pg.getD [] = (mpp.pg.getD []).modify i fun pgp =>
      { pgp with paths := pgp.paths.modify j fun pp => { pp with state := state } } := by
  cases h : mpp.pg <;> simp [setPathState, h]

/-- A path that stays unusable does not change the number of active paths. -/
theorem countActivePaths_setPathState {mpp : Multipath} {i j : ℕ} {state : PathState} {pp : Path}
    (hp : pathAt mpp i j = some pp) (h : PathState.isActive state = pp.isActive) :
    countActivePaths (setPathState mpp i j state) = countActivePaths mpp := by
  unfold countActivePaths
  rw [pg_setPathState]
  refine sum_modify fun pgp hg => countP_modify fun pp' hp' => ?_
  rw [pathAt, hg, Option.bind_some, hp'] at hp
  cases hp
  exact h

theorem countActivePaths_pos {mpp : Multipath} {i j : ℕ} {pp : Path}
    (hp : pathAt mpp i j = some pp) (ha : pp.isActive) : 0 < countActivePaths mpp := by
  obtain ⟨pgp, hg, hj⟩ := Option.bind_eq_some_iff.mp hp
  have hpos : 0 < pgp.paths.countP Path.isActive :=
    List.countP_pos_iff.mpr ⟨pp, List.mem_of_getElem? hj, ha⟩
  exact hpos.trans_le <| List.le_sum_of_mem <|
    List.mem_map.mpr ⟨pgp, List.mem_of_getElem? hg, rfl⟩

theorem pathAt_setPathState {mpp : Multipath} {i j : ℕ} {state : PathState} {pp : Path}
    (hp : pathAt mpp i j = some pp) :
    pathAt (setPathState mpp i j state) i j = some { pp with state := state } := by
  obtain ⟨pgp, hg, hj⟩ := Option.bind_eq_some_iff.mp hp
  simp [pathAt, pg_setPathState, hg, hj]

/-- A path that comes up is counted. -/
theorem countActivePaths_up {mpp : Multipath} {i j : ℕ} {state : PathState}
    (hs : PathState.isActive state) (hp : (pathAt mpp i j).isSome) :
    0 < countActivePaths (setPathState mpp i j state) := by
  obtain ⟨pp, hp⟩ := Option.isSome_iff_exists.mp hp
  exact countActivePaths_pos (pathAt_setPathState hp) hs

theorem countActivePaths_congr {mpp mpp' : Multipath} (h : mpp.pg = mpp'.pg) :
    countActivePaths mpp = countActivePaths mpp' := by rw [countActivePaths, h, countActivePaths]

end Counting

/-- The message that switches queueing off is sent. -/
def SwitchedOff (s s' : RecoveryState) : Prop := s'.sent = false :: s.sent

instance (s s' : RecoveryState) : Decidable (SwitchedOff s s') := inferInstanceAs (Decidable (_ = _))

private def Quiet (s s' : RecoveryState) : Prop := s'.sent = s.sent ∨ s'.sent = true :: s.sent

private theorem Quiet.not_switchedOff {s s' : RecoveryState} (h : Quiet s s') :
    ¬ SwitchedOff s s' := by
  intro ho
  rcases h with h | h <;> rw [SwitchedOff, h] at ho <;> simp at ho

@[simp] theorem leaveRecoveryMode_mpp (s : RecoveryState) : (leaveRecoveryMode s).mpp =
    { s.mpp with inRecovery := false, retryTick := 0 } := by
  unfold leaveRecoveryMode
  dsimp only
  split_ifs <;> rfl

theorem leaveRecoveryMode_queueing {s : RecoveryState} (hn : 0 < s.mpp.noPathRetry) :
    (leaveRecoveryMode s).queueing = (s.queueing || s.mpp.inRecovery) := by
  cases hr : s.mpp.inRecovery <;> simp [leaveRecoveryMode, hr, hn, dmQueueIfNoPath]

private theorem leaveRecoveryMode_quiet (s : RecoveryState) : Quiet s (leaveRecoveryMode s) := by
  unfold leaveRecoveryMode Quiet
  dsimp only
  split_ifs
  · exact .inr rfl
  · exact .inl rfl

@[simp] theorem enterRecoveryMode_pg (c : ℤ) (s : RecoveryState) :
    (enterRecoveryMode c s).mpp.pg = s.mpp.pg := by
  unfold enterRecoveryMode
  split_ifs <;> rfl

@[simp] theorem enterRecoveryMode_noPathRetry (c : ℤ) (s : RecoveryState) :
    (enterRecoveryMode c s).mpp.noPathRetry = s.mpp.noPathRetry := by
  unfold enterRecoveryMode
  split_ifs <;> rfl

@[simp] theorem enterRecoveryMode_sent (c : ℤ) (s : RecoveryState) :
    (enterRecoveryMode c s).sent = s.sent := by
  unfold enterRecoveryMode
  split_ifs <;> rfl

theorem enterRecoveryMode_of_inRecovery (c : ℤ) {s : RecoveryState} (h : s.mpp.inRecovery) :
    enterRecoveryMode c s = s := by simp [enterRecoveryMode, h]

theorem enterRecoveryMode_inRecovery (c : ℤ) {s : RecoveryState} (hn : 0 < s.mpp.noPathRetry) :
    (enterRecoveryMode c s).mpp.inRecovery = true := by
  unfold enterRecoveryMode
  split_ifs with h
  · rcases h with h | h
    · exact h
    · omega
  · rfl

theorem enterRecoveryMode_retryTick (c : ℤ) {s : RecoveryState} (hn : 0 < s.mpp.noPathRetry)
    (hr : s.mpp.inRecovery = false) :
    (enterRecoveryMode c s).mpp.retryTick = toInt (s.mpp.noPathRetry * c + 1) := by
  simp [enterRecoveryMode, hr, not_le.mpr hn]

/-- What `set_no_path_retry` does for a positive retry count. -/
theorem setNoPathRetry_of_pos (c : ℤ) (b : Bool) {s : RecoveryState}
    (hn : 0 < s.mpp.noPathRetry) :
    setNoPathRetry c b s = if countActivePaths s.mpp > 0 then
        leaveRecoveryMode (if s.mpp.inRecovery = false ∧ (b = true → ∀ f, s.mpp.features = some f →
          hasSubstr f queueIfNoPath = false) then dmQueueIfNoPath s true else s)
      else enterRecoveryMode c s := by
  have h0 : s.mpp.noPathRetry ≠ noPathRetryUndef := by unfold noPathRetryUndef; omega
  have h1 : s.mpp.noPathRetry ≠ noPathRetryFail := by unfold noPathRetryFail; omega
  have h2 : s.mpp.noPathRetry ≠ noPathRetryQueue := by unfold noPathRetryQueue; omega
  simp only [setNoPathRetry, h0, h1, h2, if_false]
  congr 2
  cases b <;> cases hf : s.mpp.features <;> simp [and_comm]

/-- What is left of a countdown from `T` after `k` ticks; it never starts from `T ≤ 0`. -/
def remaining (T : ℤ) (k : ℕ) : ℤ := if T ≤ 0 then T else max 0 (T - k)

/-- The invariant of a map with retry count `n`: recovery mode and an active path exclude
each other, and the countdown has lost one for every tick. -/
structure RecoveryInv (n c : ℤ) (x : RecoveryState × ℕ) : Prop where
  retry : x.1.mpp.noPathRetry = n
  recovery : x.1.mpp.inRecovery = true ↔ countActivePaths x.1.mpp = 0
  tick : x.1.mpp.inRecovery = true → x.1.mpp.retryTick = remaining (toInt (n * c + 1)) x.2
  normal : x.1.mpp.inRecovery = false → x.1.mpp.retryTick = 0 ∧ x.1.queueing = true
  idle : 0 < countActivePaths x.1.mpp → x.2 = 0

section Invariant

variable {n c : ℤ} {s : RecoveryState} {k : ℕ}

private theorem inv_leave (hn : 0 < n) (hr : s.mpp.noPathRetry = n)
    (ha : 0 < countActivePaths s.mpp) (hq : s.mpp.inRecovery = false → s.queueing = true) :
    RecoveryInv n c (leaveRecoveryMode s, 0) := by
  have hpg : countActivePaths (leaveRecoveryMode s).mpp = countActivePaths s.mpp :=
    countActivePaths_congr (by simp)
  refine ⟨by simpa using hr, ?_, by simp, fun _ => ⟨by simp, ?_⟩, fun _ => rfl⟩
  · exact ⟨fun h => by simp at h, fun h => absurd (hpg.symm.trans h) ha.ne'⟩
  · rw [leaveRecoveryMode_queueing (hr ▸ hn)]
    cases h : s.mpp.inRecovery <;> simp [hq, h]

private theorem inv_enter (hn : 0 < n) (hr : s.mpp.noPathRetry = n)
    (ha : countActivePaths s.mpp = 0)
    (ht : s.mpp.inRecovery = true → s.mpp.retryTick = remaining (toInt (n * c + 1)) k)
    (hk : s.mpp.inRecovery = false → k = 0) : RecoveryInv n c (enterRecoveryMode c s, k) := by
  have hpg : countActivePaths (enterRecoveryMode c s).mpp = 0 :=
    (countActivePaths_congr (by simp)).trans ha
  have hin : (enterRecoveryMode c s).mpp.inRecovery = true :=
    enterRecoveryMode_inRecovery c (hr ▸ hn)
  refine ⟨by simpa using hr, by simp [hin, hpg], fun _ => ?_, by simp [hin], by simp [hpg]⟩
  cases h : s.mpp.inRecovery with
  | true => rw [enterRecoveryMode_of_inRecovery c h]; exact ht h
  | false =>
    rw [enterRecoveryMode_retryTick c (hr ▸ hn) h, hr, hk h]
    unfold remaining
    split_ifs <;> simp; omega

/-- A step that keeps the modes, and whether any path is active, keeps the invariant. -/
private theorem RecoveryInv.congr {s' : RecoveryState} {k' : ℕ} (hx : RecoveryInv n c (s, k))
    (hr : s'.mpp.noPathRetry = s.mpp.noPathRetry) (hi : s'.mpp.inRecovery = s.mpp.inRecovery)
    (ht : s'.mpp.retryTick = s.mpp.retryTick) (hq : s'.queueing = s.queueing)
    (ha : countActivePaths s'.mpp = 0 ↔ countActivePaths s.mpp = 0)
    (hk : k' = if countActivePaths s'.mpp > 0 then 0 else k) : RecoveryInv n c (s', k') := by
  refine ⟨hr.trans hx.retry, hi ▸ hx.recovery.trans ha.symm, fun h => ?_, fun h => ?_, fun h => ?_⟩
  · have h0 : countActivePaths s'.mpp = 0 := ha.mpr (hx.recovery.mp (hi ▸ h))
    simp only [ht, hk, h0, gt_iff_lt, lt_self_iff_false, if_false]
    exact hx.tick (hi ▸ h)
  · simpa only [ht, hq] using hx.normal (hi ▸ h)
  · simp only [hk, gt_iff_lt, h, if_true]

private theorem inv_retryCountTick (hx : RecoveryInv n c (s, k)) :
    RecoveryInv n c (retryCountTick s, if countActivePaths s.mpp > 0 then 0 else k + 1) ∧
      (SwitchedOff s (retryCountTick s) ↔
        countActivePaths s.mpp = 0 ∧ (k : ℤ) + 1 = toInt (n * c + 1)) := by
  obtain ⟨hretry, hrec, htick, hnormal, -⟩ := id hx
  dsimp only at hretry hrec htick hnormal
  cases hr : s.mpp.inRecovery with
  | false =>
    have ha : 0 < countActivePaths s.mpp := by
      by_contra h
      simp [hrec.mpr (by omega : countActivePaths s.mpp = 0)] at hr
    have hs : retryCountTick s = s := by simp [retryCountTick, (hnormal hr).1]
    rw [hs]
    refine ⟨hx.congr rfl rfl rfl rfl Iff.rfl (by simp [ha]), ?_⟩
    exact iff_of_false (Quiet.not_switchedOff (.inl rfl)) fun h => ha.ne' h.1
  | true =>
    have ha : countActivePaths s.mpp = 0 := hrec.mp hr
    have ht : s.mpp.retryTick = remaining (toInt (n * c + 1)) k := htick hr
    simp only [ha, gt_iff_lt, lt_self_iff_false, if_false, true_and]
    unfold remaining at ht
    by_cases hp : 0 < s.mpp.retryTick
    · have hT : 0 < toInt (n * c + 1) ∧ s.mpp.retryTick = toInt (n * c + 1) - k := by
        split_ifs at ht <;> omega
      have hleft : s.mpp.retryTick - 1 = remaining (toInt (n * c + 1)) (k + 1) := by
        unfold remaining
        split_ifs <;> push_cast <;> omega
      -- the last tick sends the message, the others only count
      by_cases h1 : s.mpp.retryTick - 1 = 0
      · simp only [retryCountTick, gt_iff_lt, hp, if_true, h1]
        refine ⟨⟨hretry, hrec, fun _ => h1.symm.trans hleft, ?_, ?_⟩, ?_⟩
        · intro h; simp [dmQueueIfNoPath, hr] at h
        · exact fun h => absurd ha h.ne'
        · exact iff_of_true rfl (by omega)
      · simp only [retryCountTick, gt_iff_lt, hp, if_true, h1, if_false]
        refine ⟨⟨hretry, hrec, fun _ => hleft, ?_, ?_⟩, ?_⟩
        · intro h; simp [hr] at h
        · exact fun h => absurd ha h.ne'
        · exact iff_of_false (Quiet.not_switchedOff (.inl rfl)) (by omega)
    · have hs : retryCountTick s = s := by simp [retryCountTick, hp]
      have hleft : s.mpp.retryTick = remaining (toInt (n * c + 1)) (k + 1) := by
        unfold remaining
        split_ifs at ht ⊢ <;> push_cast <;> omega
      rw [hs]
      refine ⟨⟨hretry, hrec, fun _ => hleft, ?_, ?_⟩, ?_⟩
      · intro h; simp [hr] at h
      · exact fun h => absurd ha h.ne'
      · refine iff_of_false (Quiet.not_switchedOff (.inl rfl)) ?_
        split_ifs at ht <;> omega

private theorem inv_pathDown (hn : 0 < n) (hx : RecoveryInv n c (s, k)) {i j : ℕ}
    {state : PathState} {pp : Path} (hs : PathState.isActive state = false)
    (hp : pathAt s.mpp i j = some pp) {s' : RecoveryState}
    (h : s' = if pp.isActive then
        updateQueueModeDelPath c { s with mpp := setPathState s.mpp i j state }
      else { s with mpp := setPathState s.mpp i j state }) :
    RecoveryInv n c (s', if countActivePaths s'.mpp > 0 then 0 else k) ∧ Quiet s s' := by
  subst h
  cases hactive : pp.isActive with
  | false =>
    have ha : countActivePaths (setPathState s.mpp i j state) = countActivePaths s.mpp :=
      countActivePaths_setPathState hp (hs.trans hactive.symm)
    refine ⟨hx.congr rfl rfl rfl rfl ?_ rfl, .inl rfl⟩
    simp only [Bool.false_eq_true, if_false, ha]
  | true =>
    have hpos : 0 < countActivePaths s.mpp := countActivePaths_pos hp hactive
    obtain rfl : k = 0 := hx.idle hpos
    have hr : s.mpp.inRecovery = false := by
      by_contra h
      exact hpos.ne' (hx.recovery.mp (by simpa using h))
    simp only [if_true]
    unfold updateQueueModeDelPath
    by_cases h0 : countActivePaths (setPathState s.mpp i j state) = 0
    · have henter : RecoveryInv n c
          (enterRecoveryMode c { s with mpp := setPathState s.mpp i j state }, 0) :=
        inv_enter hn hx.retry h0 (fun h => by simp [setPathState, hr] at h) fun _ => rfl
      simp only [h0, if_true, ite_self]
      split_ifs
      · exact ⟨henter.congr rfl rfl rfl rfl Iff.rfl (by simp), .inl (by simp)⟩
      · exact ⟨henter, .inl (by simp)⟩
    · simp only [h0, if_false]
      refine ⟨hx.congr rfl rfl rfl rfl ?_ rfl, .inl rfl⟩
      exact iff_of_false h0 hpos.ne'

/-- `set_no_path_retry` establishes the invariant: it only needs that the features string
does not announce queueing that the kernel has switched off in normal mode. -/
private theorem inv_setNoPathRetry (b : Bool) (hn : 0 < n) (hr : s.mpp.noPathRetry = n)
    (hq : s.mpp.inRecovery = false → s.queueing = false → ∀ f, s.mpp.features = some f →
      hasSubstr f queueIfNoPath = false)
    (ht : s.mpp.inRecovery = true → s.mpp.retryTick = remaining (toInt (n * c + 1)) k)
    (hk : s.mpp.inRecovery = false → k = 0) :
    RecoveryInv n c (setNoPathRetry c b s, if countActivePaths s.mpp > 0 then 0 else k) ∧
      Quiet s (setNoPathRetry c b s) ∧ (setNoPathRetry c b s).mpp.pg = s.mpp.pg := by
  rw [setNoPathRetry_of_pos c b (hr ▸ hn)]
  by_cases ha : countActivePaths s.mpp > 0
  · simp only [ha, if_true]
    split_ifs with hf
    · refine ⟨inv_leave hn hr ha fun _ => rfl, .inr ?_, by simp [dmQueueIfNoPath]⟩
      simp [leaveRecoveryMode, dmQueueIfNoPath, hf.1]
    · refine ⟨inv_leave hn hr ha fun h => ?_, leaveRecoveryMode_quiet s, by simp⟩
      by_contra hoff
      exact hf ⟨h, fun _ => hq h (by simpa using hoff)⟩
  · simp only [ha, if_false]
    exact ⟨inv_enter hn hr (by omega) ht hk, .inl (by simp), by simp⟩

/-- One event keeps the invariant, and only the last tick of a countdown switches off. -/
theorem monitorStep_inv (hn : 0 < n) {x x' : RecoveryState × ℕ} {e : RecoveryEvent}
    (h : monitorStep c x e = some x') (hx : RecoveryInv n c x) :
    RecoveryInv n c x' ∧ (SwitchedOff x.1 x'.1 ↔
      e = .tick ∧ countActivePaths x.1.mpp = 0 ∧ (x.2 : ℤ) + 1 = toInt (n * c + 1)) := by
  obtain ⟨s, k⟩ := x
  obtain ⟨s', hs, rfl⟩ := Option.map_eq_some_iff.mp h
  cases e with
  | pathUp i j state =>
    simp only [recoveryStep] at hs
    split_ifs at hs with hc
    cases hs
    have ha := countActivePaths_up hc.1 hc.2
    have hup : updateQueueModeAddPath { s with mpp := setPathState s.mpp i j state } =
        leaveRecoveryMode { s with mpp := setPathState s.mpp i j state } := if_pos ha
    have hpg : countActivePaths
        (leaveRecoveryMode { s with mpp := setPathState s.mpp i j state }).mpp > 0 := by
      rwa [countActivePaths_congr (by simp : _ = (setPathState s.mpp i j state).pg)]
    rw [hup]
    simp only [hpg, if_true]
    refine ⟨inv_leave hn hx.retry ha fun h => (hx.normal h).2, ?_⟩
    exact iff_of_false (Quiet.not_switchedOff (leaveRecoveryMode_quiet _)) (by simp)
  | pathDown i j state =>
    simp only [recoveryStep] at hs
    split_ifs at hs with hc
    obtain ⟨pp, hp, hs⟩ := Option.map_eq_some_iff.mp hs
    obtain ⟨hinv, hquiet⟩ := inv_pathDown hn hx (by simpa using hc) hp hs.symm
    refine ⟨by simpa using hinv, ?_⟩
    exact iff_of_false hquiet.not_switchedOff (by simp)
  | tick =>
    cases hs
    have hpg : countActivePaths (retryCountTick s).mpp = countActivePaths s.mpp := by
      refine countActivePaths_congr ?_
      unfold retryCountTick
      dsimp only
      split_ifs <;> rfl
    simpa only [hpg, if_true, true_and] using inv_retryCountTick hx
  | setNoPathRetry b =>
    cases hs
    obtain ⟨hretry, hrec, htick, hnormal, hidle⟩ := id hx
    dsimp only at hretry hrec htick hnormal hidle
    have hk : s.mpp.inRecovery = false → k = 0 := fun h => hidle <| by
      by_contra ha
      simp [hrec.mpr (by omega)] at h
    obtain ⟨hinv, hquiet, hpg⟩ := inv_setNoPathRetry b hn hretry
      (fun h hq => by simp [(hnormal h).2] at hq) htick hk
    refine ⟨by simpa [countActivePaths_congr hpg] using hinv, ?_⟩
    exact iff_of_false hquiet.not_switchedOff (by simp)
  | readFeatures f =>
    simp only [recoveryStep] at hs
    split_ifs at hs with hc
    cases hs
    refine ⟨hx.congr rfl rfl rfl rfl Iff.rfl (by simp), ?_⟩
    exact iff_of_false (Quiet.not_switchedOff (.inl rfl)) (by simp)

end Invariant

/-- A map as `alloc_multipath` and `update_multipath_strings` leave it: not in recovery, with
the features string of the kernel table. -/
structure FreshMap (n : ℤ) (s : RecoveryState) : Prop where
  retry : s.mpp.noPathRetry = n
  normal : s.mpp.inRecovery = false
  tick : s.mpp.retryTick = 0
  features : ∀ f, s.mpp.features = some f → hasSubstr f queueIfNoPath = s.queueing

/-- `__setup_multipath` ends with `set_no_path_retry`; the count of idle ticks starts there. -/
def recoveryStart (checkint : ℤ) (s : RecoveryState) : RecoveryState × ℕ :=
  (setNoPathRetry checkint true s, 0)

/-- After `set_no_path_retry` with an active path the map is back to normal. -/
def BackToNormal (s : RecoveryState) : Prop :=
  0 < countActivePaths s.mpp →
    s.mpp.inRecovery = false ∧ s.mpp.retryTick = 0 ∧ s.queueing = true

def TickInRecovery (s : RecoveryState) : Prop :=
  0 < s.mpp.retryTick → s.mpp.inRecovery = true

/-- The law of one transition: the countdown runs in recovery only, queueing is switched off
by the tick number `n * c + 1` without an active path and by no other event. -/
structure RecoveryLaw (n c : ℤ) (x : RecoveryState × ℕ) (e : RecoveryEvent)
    (x' : RecoveryState × ℕ) : Prop where
  tick : TickInRecovery x'.1
  off : SwitchedOff x.1 x'.1 ↔ e = .tick ∧ countActivePaths x.1.mpp = 0 ∧ (x.2 : ℤ) = n * c
  normal : ∀ b, e = .setNoPathRetry b → BackToNormal x'.1

theorem RecoveryInv.tickInRecovery {n c : ℤ} {x : RecoveryState × ℕ} (hx : RecoveryInv n c x) :
    TickInRecovery x.1 := fun ht => by
  by_contra hr
  have := (hx.normal (by simpa using hr)).1
  omega

theorem RecoveryInv.backToNormal {n c : ℤ} {x : RecoveryState × ℕ} (hx : RecoveryInv n c x) :
    BackToNormal x.1 := fun ha => by
  have hr : x.1.mpp.inRecovery = false := by
    by_contra hr
    exact ha.ne' (hx.recovery.mp (by simpa using hr))
  exact ⟨hr, hx.normal hr⟩

theorem recoveryStart_inv {n c : ℤ} (hn : 0 < n) {s : RecoveryState} (hs : FreshMap n s) :
    RecoveryInv n c (recoveryStart c s) := by
  obtain ⟨hinv, -, -⟩ := inv_setNoPathRetry (c := c) (k := 0) true hn hs.retry
    (fun _ hq f hf => (hs.features f hf).trans hq) (fun h => by simp [hs.normal] at h)
    fun _ => rfl
  simpa [recoveryStart] using hinv

/-- Ticks alone keep the map without an active path and are all counted. -/
theorem run_ticks {n c : ℤ} (hn : 0 < n) {s : RecoveryState} {k : ℕ}
    (hx : RecoveryInv n c (s, k)) (ha : countActivePaths s.mpp = 0) (m : ℕ) :
    ∃ s', run (monitorStep c) (s, k) (List.replicate m .tick) = some (s', k + m) ∧
      RecoveryInv n c (s', k + m) ∧ countActivePaths s'.mpp = 0 := by
  induction m with
  | zero => exact ⟨s, rfl, hx, ha⟩
  | succ m ih =>
    obtain ⟨s', hrun, hinv, ha'⟩ := ih
    have hpg : countActivePaths (retryCountTick s').mpp = 0 := by
      rw [← ha', countActivePaths_congr]
      unfold retryCountTick
      dsimp only
      split_ifs <;> rfl
    have hstep : monitorStep c (s', k + m) .tick = some (retryCountTick s', k + (m + 1)) := by
      simp [monitorStep, recoveryStep, hpg, Nat.add_assoc]
    refine ⟨retryCountTick s', ?_, (monitorStep_inv hn hstep hinv).1, hpg⟩
    rw [List.replicate_succ', run_append, hrun, Option.bind_some, run_cons, hstep]
    rfl

/-- Recovery mode keeps its law in every run exactly when the countdown fits an `int`. -/
theorem recovery_law_iff (n c : ℤ) (hn : 0 < n) (hc : 0 < c) :
    (∀ s es, FreshMap n s →
      TickInRecovery (recoveryStart c s).1 ∧ BackToNormal (recoveryStart c s).1 ∧
        Along (monitorStep c) (RecoveryLaw n c) (recoveryStart c s) es) ↔ n * c + 1 ≤ intMax := by
  have hpos : 0 < n * c := mul_pos hn hc
  constructor
  · intro h
    let s : RecoveryState := { mpp := { noPathRetry := n }, queueing := false }
    have hs : FreshMap n s := ⟨rfl, rfl, rfl, by simp [s]⟩
    have hinv := recoveryStart_inv (c := c) hn hs
    have ha : countActivePaths (recoveryStart c s).1.mpp = 0 := by
      rw [recoveryStart, setNoPathRetry_of_pos c true hn]
      simp [countActivePaths, s]
    obtain ⟨s', hrun, hinv', ha'⟩ := run_ticks hn hinv ha (n * c).toNat
    obtain ⟨-, -, halong⟩ := h s (List.replicate (n * c).toNat .tick ++ [.tick]) hs
    have hlast := (along_append.mp halong).2 _ hrun _ rfl
    have hoff := (monitorStep_inv (e := .tick) hn rfl hinv').2.mp <|
      hlast.1.off.mpr ⟨rfl, ha', by dsimp only; omega⟩
    have hself : toInt (n * c + 1) = n * c + 1 := by
      rw [← hoff.2.2]
      simp only
      omega
    exact (toInt_eq_self_iff.mp hself).2
  · intro hle s es hs
    have hinv := recoveryStart_inv (c := c) hn hs
    have hT : toInt (n * c + 1) = n * c + 1 :=
      toInt_of_isInt ⟨by unfold intMin; omega, hle⟩
    refine ⟨hinv.tickInRecovery, hinv.backToNormal, ?_⟩
    refine along_of_invariant (RecoveryInv n c) (fun x e x' h _ hx => ?_) hinv (along_true _ _)
    obtain ⟨hx', hoff⟩ := monitorStep_inv hn h hx
    refine ⟨hx', hx'.tickInRecovery, ?_, fun _ _ => hx'.backToNormal⟩
    rw [hoff, hT]
    constructor <;> rintro ⟨he, ha, hk⟩ <;> exact ⟨he, ha, by omega⟩

theorem recovery_law_small :
    (∀ s es, FreshMap 3 s →
      TickInRecovery (recoveryStart 5 s).1 ∧ BackToNormal (recoveryStart 5 s).1 ∧
        Along (monitorStep 5) (RecoveryLaw 3 5) (recoveryStart 5 s) es) ↔ 3 * 5 + 1 ≤ intMax :=
  recovery_law_iff 3 5 (by decide) (by decide)

/-- With 65536 retries every 65536 seconds the product wraps and the first tick switches off. -/
theorem recovery_law_wraps :
    FreshMap 65536 { mpp := { noPathRetry := 65536 }, queueing := true } ∧
    ¬ Along (monitorStep 65536) (RecoveryLaw 65536 65536)
      (recoveryStart 65536 { mpp := { noPathRetry := 65536 }, queueing := true }) [.tick] := by
  refine ⟨⟨rfl, rfl, rfl, by simp⟩, fun h => ?_⟩
  obtain ⟨-, -, hk⟩ := (h _ rfl).1.off.mp (by decide)
  exact absurd hk (by decide)

end MultipathTools.Daemon
