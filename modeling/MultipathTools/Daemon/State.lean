import MultipathTools.Base.Run

/-! The daemon's configuration state: `running_state` under `config_lock`, and the
threads that wait on `config_cond` inside `set_config_state`. A step is one critical
section, so every interleaving of callers is a list of events. -/
namespace MultipathTools.Daemon

inductive DaemonStatus where
  | init | start | configure | idle | running | shutdown
  deriving DecidableEq, Repr

/-- The return codes of `set_config_state` and of `pthread_cond_timedwait`. -/
inductive Rc where
  | ok | einval | etimedout
  deriving DecidableEq, Repr

/-- A thread inside `pthread_cond_timedwait`, with the state it asked for. -/
structure Waiter where
  tid : ℕ
  state : DaemonStatus
  signalled : Bool
  deriving DecidableEq, Repr

structure ConfigState where
  runningState : DaemonStatus
  waiters : List Waiter
  deriving DecidableEq, Repr

/-- `pthread_cond_broadcast(&config_cond)`. -/
def ConfigState.broadcast (s : ConfigState) : ConfigState :=
  { s with waiters := s.waiters.map fun w => { w with signalled := true } }

/-- `__post_config_state`, called with `config_lock` held. -/
def postConfigState (s : ConfigState) (state : DaemonStatus) : ConfigState :=
  if state ≠ s.runningState ∧ s.runningState ≠ .shutdown then
    ConfigState.broadcast { s with runningState := state }
  else s

/-- `set_config_state` up to its return, or up to the wait: then there is no return code yet. -/
def setConfigState (s : ConfigState) (tid : ℕ) (state : DaemonStatus) :
    ConfigState × Option Rc :=
  if s.runningState ≠ state then
    if s.runningState = .shutdown then (s, some .einval)
    else if s.runningState ≠ .idle then
      ({ s with waiters := ⟨tid, state, false⟩ :: s.waiters }, none)
    else (ConfigState.broadcast { s with runningState := state }, some .ok)
  else (s, some .ok)

/-- The rest of `set_config_state` once the wait has returned `rc`. -/
def resumeConfigState (s : ConfigState) (w : Waiter) (rc : Rc) : ConfigState × Rc :=
  let s := { s with waiters := s.waiters.erase w }
  if rc = .ok ∧ s.runningState ≠ .shutdown then
    (ConfigState.broadcast { s with runningState := w.state }, rc)
  else (s, rc)

/-- What a thread can do next. A waiter that was signalled returns 0 from its wait, any
waiter may time out, and a wakeup may be spurious. -/
inductive ConfigEvent where
  | post (state : DaemonStatus)
  | set (tid : ℕ) (state : DaemonStatus)
  | spurious (tid : ℕ)
  | wake (tid : ℕ)
  | timeout (tid : ℕ)
  deriving DecidableEq, Repr

def findWaiter (s : ConfigState) (tid : ℕ) : Option Waiter :=
  s.waiters.find? fun w => w.tid = tid

def configStep (s : ConfigState) : ConfigEvent → Option ConfigState
  | .post state => some (postConfigState s state)
  | .set tid state =>
    if findWaiter s tid = none then some (setConfigState s tid state).1 else none
  | .spurious tid => (findWaiter s tid).map fun w =>
      { s with waiters := { w with signalled := true } :: s.waiters.erase w }
  | .wake tid => (findWaiter s tid).bind fun w =>
      if w.signalled then some (resumeConfigState s w .ok).1 else none
  | .timeout tid => (findWaiter s tid).map fun w => (resumeConfigState s w .etimedout).1

@[simp] theorem broadcast_runningState (s : ConfigState) :
    s.broadcast.runningState = s.runningState := rfl

theorem postConfigState_of_shutdown {s : ConfigState} (h : s.runningState = .shutdown)
    (state : DaemonStatus) : postConfigState s state = s := by
  simp [postConfigState, h]

theorem setConfigState_runningState (s : ConfigState) (tid : ℕ) (state : DaemonStatus) :
    (setConfigState s tid state).1.runningState =
      if s.runningState = .idle then state else s.runningState := by
  unfold setConfigState
  by_cases hi : s.runningState = .idle
  · by_cases hs : DaemonStatus.idle = state <;> simp [hi, hs]
  · split_ifs <;> simp_all

theorem resumeConfigState_runningState (s : ConfigState) (w : Waiter) (rc : Rc) :
    (resumeConfigState s w rc).1.runningState =
      if rc = .ok ∧ s.runningState ≠ .shutdown then w.state else s.runningState := by
  unfold resumeConfigState
  dsimp only
  split_ifs <;> rfl

/-- The transitions made by callers of `set_config_state`. -/
def IsSetConfig : ConfigEvent → Prop
  | .set _ _ | .wake _ | .timeout _ => True
  | _ => False

/-- `set_config_state` moves to a non-shutdown state only from idle. -/
def MovesFromIdle (s : ConfigState) (e : ConfigEvent) (s' : ConfigState) : Prop :=
  IsSetConfig e → s'.runningState ≠ s.runningState → s'.runningState ≠ .shutdown →
    s.runningState = .idle

/-- A waiter that returns with success finds the daemon idle, or shut down, or already in
the state it asked for, or asks for shutdown. -/
def WokenInIdle (s : ConfigState) (e : ConfigEvent) (_ : ConfigState) : Prop :=
  ∀ tid w, e = .wake tid → findWaiter s tid = some w →
    s.runningState = .idle ∨ s.runningState = .shutdown ∨ s.runningState = w.state ∨
      w.state = .shutdown

/-- One transition: only a woken waiter can break the rule. -/
theorem movesFromIdle_iff {s s' : ConfigState} {e : ConfigEvent}
    (h : configStep s e = some s') : MovesFromIdle s e s' ↔ WokenInIdle s e s' := by
  cases e with
  | post state => simp [MovesFromIdle, IsSetConfig, WokenInIdle]
  | spurious tid => simp [MovesFromIdle, IsSetConfig, WokenInIdle]
  | set tid state =>
    simp only [configStep] at h
    split_ifs at h
    cases h
    simp only [MovesFromIdle, WokenInIdle, setConfigState_runningState, reduceCtorEq,
      false_implies, implies_true, iff_true]
    intro _ hne _
    by_contra hi
    exact hne (if_neg hi)
  | timeout tid =>
    obtain ⟨w, hw, rfl⟩ := Option.map_eq_some_iff.mp h
    simp [MovesFromIdle, WokenInIdle, resumeConfigState_runningState]
  | wake tid =>
    obtain ⟨w, hw, h⟩ := Option.bind_eq_some_iff.mp h
    split_ifs at h
    cases h
    simp only [MovesFromIdle, WokenInIdle, IsSetConfig, resumeConfigState_runningState,
      ConfigEvent.wake.injEq, forall_const, true_and]
    constructor
    · rintro hm _ w' rfl hw'
      obtain rfl : w = w' := Option.some.inj (hw.symm.trans hw')
      by_cases hs : s.runningState = .shutdown
      · exact .inr (.inl hs)
      · simp only [ne_eq, hs, not_false_eq_true, if_true] at hm
        grind
    · intro hm hne hns
      have hw' := hm tid w rfl hw
      split_ifs at hne hns with hs <;> grind

theorem configStep_shutdown {s s' : ConfigState} {e : ConfigEvent}
    (h : configStep s e = some s') (hs : s.runningState = .shutdown) :
    s'.runningState = .shutdown := by
  cases e with
  | post state =>
    cases h
    rw [postConfigState_of_shutdown hs, hs]
  | set tid state =>
    simp only [configStep] at h
    split_ifs at h
    cases h
    simp [setConfigState_runningState, hs]
  | spurious tid =>
    obtain ⟨w, -, rfl⟩ := Option.map_eq_some_iff.mp h
    exact hs
  | wake tid =>
    obtain ⟨w, -, h⟩ := Option.bind_eq_some_iff.mp h
    split_ifs at h
    cases h
    simp [resumeConfigState_runningState, hs]
  | timeout tid =>
    obtain ⟨w, -, rfl⟩ := Option.map_eq_some_iff.mp h
    simpa [resumeConfigState_runningState] using hs

/-- In every run the moves of `set_config_state` start from idle exactly when every waiter
that returns with success finds the daemon idle; a posted shutdown is final in any run. -/
theorem setConfigState_exclusive_iff (s : ConfigState) (es : List ConfigEvent) :
    (Along configStep MovesFromIdle s es ↔ Along configStep WokenInIdle s es) ∧
      ∀ t, s.runningState = .shutdown → run configStep s es = some t →
        t.runningState = .shutdown := by
  refine ⟨⟨?_, ?_⟩, fun t hs hr => ?_⟩
  · exact Along.imp fun _ _ _ h => (movesFromIdle_iff h).mp
  · exact Along.imp fun _ _ _ h => (movesFromIdle_iff h).mpr
  · exact run_invariant (fun s => s.runningState = .shutdown)
      (fun _ _ _ h _ hs => configStep_shutdown h hs) hs (along_true s es) hr

/-- Both parts apply: a waiter woken in idle, and a run after shutdown. -/
theorem setConfigState_exclusive_run :
    Along configStep MovesFromIdle ⟨.configure, []⟩
        [.set 1 .running, .post .idle, .wake 1] ∧
      run configStep ⟨.configure, []⟩ [.set 1 .running, .post .idle, .wake 1] =
        some ⟨.running, []⟩ := by
  refine ⟨(setConfigState_exclusive_iff _ _).1.mpr ?_, rfl⟩
  intro s₁ h₁
  cases h₁
  refine ⟨by simp [WokenInIdle], fun s₂ h₂ => ?_⟩
  cases h₂
  refine ⟨by simp [WokenInIdle], fun s₃ h₃ => ?_⟩
  cases h₃
  exact ⟨fun _ _ _ _ => .inl rfl, trivial⟩

/-- The checker waits for the end of a configuration; the next configuration starts between
the broadcast and its wakeup, and is overwritten. -/
theorem setConfigState_overwrites_configure :
    run configStep ⟨.init, []⟩
        [.post .configure, .set 1 .running, .post .idle, .set 2 .configure, .wake 1] =
      some ⟨.running, []⟩ ∧
    ¬ Along configStep MovesFromIdle ⟨.init, []⟩
        [.post .configure, .set 1 .running, .post .idle, .set 2 .configure, .wake 1] := by
  refine ⟨rfl, fun h => ?_⟩
  obtain ⟨hlast, -⟩ := ((((h _ rfl).2 _ rfl).2 _ rfl).2 _ rfl).2 _ rfl
  exact absurd (hlast trivial (by decide) (by decide)) (by decide)

end MultipathTools.Daemon
