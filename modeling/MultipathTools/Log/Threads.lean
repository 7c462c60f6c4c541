import MultipathTools.Log.Fifo

/-! The threads around the log area (`log_pthread.c`): those that log, the one that writes to
syslog, and the one that stops it. A step is one critical section, or what a thread does between
two of them that another one can see. -/
namespace MultipathTools.Log.Threads

/-- What syslog is given. -/
abbrev Line := ℤ × List Byte

/-- Where `flush_logqueue` is: at `log_dequeue`, or at `log_syslog` with a message in `la->buff`. -/
inductive FlushPc where
  | dequeuing
  | syslogging (line : Line)
  deriving DecidableEq, Repr

/-- Where `log_thread` is. -/
inductive LoggerPc where
  | starting
  /-- At the head of the loop. -/
  | testing
  /-- In `pthread_cond_wait`: before and after it has been woken. -/
  | waiting | woken
  | flushing (pc : FlushPc)
  | ended
  deriving DecidableEq, Repr

/-- Where `log_thread_stop` is. When it has returned, `accepted` is what had been queued up to its
last look at the queue. -/
inductive StopperPc where
  | outside | stopping | cancelling | joining
  | flushing (pc : FlushPc)
  | returned (accepted : List (ℤ × Text))
  deriving DecidableEq

/-- Where a call of `log_safe` is. -/
inductive CallerPc where
  | outside
  | enqueuing (prio : ℤ) (text : Text)
  | waking
  deriving DecidableEq

/-- The log area and what guards it. `logEvHeld` is set when `logev_lock` is left behind by a
thread that ended inside of `pthread_cond_wait`. -/
structure State where
  log : History := {}
  logThr : Bool := true
  logqRunning : Bool := false
  logMessagesPending : Bool := false
  cancelled : Bool := false
  logEvHeld : Bool := false
  logger : LoggerPc := .starting
  stopper : StopperPc := .outside
  caller : ℕ → CallerPc := fun _ => .outside
  syslogged : List Line := []
  direct : List (ℤ × Text) := []

/-- `LOG_DEBUG`. -/
def logDebug : ℤ := 7

/-- `pthread_cond_signal`, on which only the logger waits. -/
def LoggerPc.wake : LoggerPc → LoggerPc
  | .waiting => .woken
  | pc => pc

/-- A critical section of `logev_lock`. -/
def State.inLogEv (s s' : State) : Option State := if s.logEvHeld then none else some s'

/-- `log_safe` begins: without a logger the message goes to syslog at once. -/
def logSafe (s : State) (i : ℕ) (prio : ℤ) (text : Text) : State :=
  let prio := min prio logDebug
  if s.logThr then { s with caller := Function.update s.caller i (.enqueuing prio text) }
  else { s with direct := s.direct ++ [(prio, text)] }

/-- The next step of `log_safe`. -/
def callerStep (s : State) (i : ℕ) : Option State :=
  match s.caller i with
  | .outside => none
  | .enqueuing prio text =>
    (Log.step s.log (.enqueue prio text)).map fun log =>
      { s with log, caller := Function.update s.caller i .waking }
  | .waking => s.inLogEv { s with
      logMessagesPending := true
      logger := s.logger.wake
      caller := Function.update s.caller i .outside }

/-- The next step of `flush_logqueue`, and where it is then unless it returns. -/
def flushStep (s : State) : FlushPc → Option (State × Option FlushPc)
  | .dequeuing =>
    (logDequeue s.log.area).map fun r =>
      ({ s with log := { s.log with area := r.2, dequeued := s.log.dequeued ++ r.1.toList } },
        r.1.map .syslogging)
  | .syslogging line => some ({ s with syslogged := s.syslogged ++ [line] }, some .dequeuing)

/-- `log_thread` behind its wait. -/
def State.serve (s : State) : State := { s with
  logMessagesPending := false
  logger := if s.logqRunning then .flushing .dequeuing else .ended }

/-- The next step of `log_thread`. -/
def loggerStep (s : State) : Option State :=
  match s.logger with
  | .starting => s.inLogEv { s with logqRunning := true, logger := .testing }
  | .testing => s.inLogEv
      (if s.logqRunning ∧ ¬ s.logMessagesPending then { s with logger := .waiting } else s.serve)
  | .waiting => none
  | .woken => s.inLogEv s.serve
  | .flushing pc =>
    (flushStep s pc).map fun r => { r.1 with logger := r.2.elim .testing .flushing }
  | .ended => none

/-- The logger acts on `pthread_cancel`: where it waits, having taken `logev_lock` again, or in
`syslog`. -/
def cancelStep (s : State) : Option State :=
  match s.logger with
  | .waiting | .woken => s.inLogEv { s with logger := .ended, logEvHeld := true }
  | .flushing (.syslogging _) => some { s with logger := .ended }
  | _ => none

/-- The next step of `log_thread_stop`. -/
def stopperStep (s : State) : Option State :=
  match s.stopper with
  | .outside => none
  | .stopping => s.inLogEv { s with
      logqRunning := false
      logger := s.logger.wake
      stopper := .cancelling }
  | .cancelling => some { s with cancelled := true, stopper := .joining }
  | .joining =>
    if s.logger = .ended then some { s with logThr := false, stopper := .flushing .dequeuing }
    else none
  | .flushing pc =>
    (flushStep s pc).map fun r =>
      { r.1 with stopper := r.2.elim (.returned r.1.log.accepted) .flushing }
  | .returned _ => none

/-- A call begins, a thread takes its next step, the logger wakes up without a signal, or it acts
on `pthread_cancel`. -/
inductive Event where
  | call (i : ℕ) (prio : ℤ) (text : Text)
  | caller (i : ℕ)
  | logger
  | spurious
  | cancel
  | stop
  | stopper

def step (s : State) : Event → Option State
  | .call i prio text => if s.caller i = .outside then some (logSafe s i prio text) else none
  | .caller i => callerStep s i
  | .logger => loggerStep s
  | .spurious => if s.logger = .waiting then some { s with logger := .woken } else none
  | .cancel => if s.cancelled then cancelStep s else none
  | .stop => if s.stopper = .outside then some { s with stopper := .stopping } else none
  | .stopper => stopperStep s

/-- The message that has been taken out of the queue and is still to be written. -/
def FlushPc.hand : FlushPc → List Line
  | .dequeuing => []
  | .syslogging line => [line]

def LoggerPc.hand : LoggerPc → List Line
  | .flushing pc => pc.hand
  | _ => []

def StopperPc.hand : StopperPc → List Line
  | .flushing pc => pc.hand
  | _ => []

/-- `flush_logqueue` is called by the logger, and when that is gone by the one that stops it. -/
def State.hand (s : State) : List Line := s.logger.hand ++ s.stopper.hand

section Moves
/-- The state with a message taken out of the queue. -/
def State.take (s : State) (la : LogArea) (m : Message) : State :=
  { s with log := { s.log with area := la, dequeued := s.log.dequeued ++ [m.content] } }

/-- What can happen to the state and to the queue that it holds. -/
inductive Moves : State → List Message → State → List Message → Prop where
  | call {s : State} {q : List Message} {i : ℕ} (prio : ℤ) (text : Text)
      (hpc : s.caller i = .outside) (hthr : s.logThr = true) :
      Moves s q { s with caller := Function.update s.caller i (.enqueuing prio text) } q
  | direct {s : State} {q : List Message} (message : ℤ × Text) :
      Moves s q { s with direct := s.direct ++ [message] } q
  | enqueue {s : State} {q q' : List Message} {i : ℕ} {prio : ℤ} {text : Text} {log : History}
      (hpc : s.caller i = .enqueuing prio text) (hq : Accounted log q')
      (hdequeued : log.dequeued = s.log.dequeued)
      (haccepted : ∃ later, log.accepted = s.log.accepted ++ later) :
      Moves s q { s with log, caller := Function.update s.caller i .waking } q'
  | wake {s : State} {q : List Message} {i : ℕ} (hpc : s.caller i = .waking)
      (hheld : s.logEvHeld = false) : Moves s q { s with
        logMessagesPending := true
        logger := s.logger.wake
        caller := Function.update s.caller i .outside } q
  | start {s : State} {q : List Message} (hpc : s.logger = .starting) :
      Moves s q { s with logqRunning := true, logger := .testing } q
  | wait {s : State} {q : List Message} (hpc : s.logger = .testing)
      (hpending : s.logMessagesPending = false) : Moves s q { s with logger := .waiting } q
  | serve {s : State} {q : List Message} (hpc : s.logger = .testing ∨ s.logger = .woken)
      (hrunning : s.logqRunning = true) :
      Moves s q { s with logMessagesPending := false, logger := .flushing .dequeuing } q
  | finish {s : State} {q : List Message} (hpc : s.logger = .testing ∨ s.logger = .woken)
      (hrunning : s.logqRunning = false) :
      Moves s q { s with logMessagesPending := false, logger := .ended } q
  | loggerTake {s : State} {q : List Message} {m : Message} {la : LogArea}
      (hpc : s.logger = .flushing .dequeuing) (hq : Accounted (s.take la m).log q) :
      Moves s (m :: q) { s.take la m with logger := .flushing (.syslogging m.content) } q
  | loggerEmpty {s : State} (hpc : s.logger = .flushing .dequeuing) :
      Moves s [] { s with logger := .testing } []
  | loggerLog {s : State} {q : List Message} {line : Line}
      (hpc : s.logger = .flushing (.syslogging line)) : Moves s q { s with
        syslogged := s.syslogged ++ [line]
        logger := .flushing .dequeuing } q
  | spurious {s : State} {q : List Message} (hpc : s.logger = .waiting) :
      Moves s q { s with logger := .woken } q
  | cancelWait {s : State} {q : List Message} (hcancelled : s.cancelled = true)
      (hpc : s.logger = .waiting ∨ s.logger = .woken) :
      Moves s q { s with logger := .ended, logEvHeld := true } q
  | cancelLog {s : State} {q : List Message} {line : Line} (hcancelled : s.cancelled = true)
      (hpc : s.logger = .flushing (.syslogging line)) : Moves s q { s with logger := .ended } q
  | stop {s : State} {q : List Message} (hpc : s.stopper = .outside) :
      Moves s q { s with stopper := .stopping } q
  | stopping {s : State} {q : List Message} (hpc : s.stopper = .stopping) :
      Moves s q { s with
        logqRunning := false
        logger := s.logger.wake
        stopper := .cancelling } q
  | cancelling {s : State} {q : List Message} (hpc : s.stopper = .cancelling) :
      Moves s q { s with cancelled := true, stopper := .joining } q
  | join {s : State} {q : List Message} (hpc : s.stopper = .joining) (hended : s.logger = .ended) :
      Moves s q { s with logThr := false, stopper := .flushing .dequeuing } q
  | stopperTake {s : State} {q : List Message} {m : Message} {la : LogArea}
      (hpc : s.stopper = .flushing .dequeuing) (hq : Accounted (s.take la m).log q) :
      Moves s (m :: q) { s.take la m with stopper := .flushing (.syslogging m.content) } q
  | stopperEmpty {s : State} (hpc : s.stopper = .flushing .dequeuing) :
      Moves s [] { s with stopper := .returned s.log.accepted } []
  | stopperLog {s : State} {q : List Message} {line : Line}
      (hpc : s.stopper = .flushing (.syslogging line)) : Moves s q { s with
        syslogged := s.syslogged ++ [line]
        stopper := .flushing .dequeuing } q

variable {s s' : State} {q q' : List Message} {e : Event} {i : ℕ}

theorem inLogEv_eq {t : State} (h : s.inLogEv s' = some t) : s.logEvHeld = false ∧ t = s' := by
  unfold State.inLogEv at h
  split_ifs at h with hheld
  exact ⟨Bool.eq_false_iff.mpr hheld, (Option.some.inj h).symm⟩

/-- What `flush_logqueue` can do next: write the message at hand, find the queue empty, or take the
first message. -/
theorem flushStep_cases {pc : FlushPc} {r : State × Option FlushPc} (h : flushStep s pc = some r)
    (hq : Accounted s.log q) :
    (∃ line, pc = .syslogging line ∧
      r = ({ s with syslogged := s.syslogged ++ [line] }, some .dequeuing)) ∨
    (pc = .dequeuing ∧ q = [] ∧ r = (s, none)) ∨
    ∃ m rest la, pc = .dequeuing ∧ q = m :: rest ∧ Accounted (s.take la m).log rest ∧
      r = (s.take la m, some (.syslogging m.content)) := by
  cases pc with
  | syslogging line =>
    cases h
    exact .inl ⟨line, rfl, rfl⟩
  | dequeuing =>
    obtain ⟨hqueued, hacc⟩ := hq
    unfold flushStep at h
    cases q with
    | nil =>
      rw [logDequeue_nil hqueued] at h
      cases h
      refine .inr (.inl ⟨rfl, rfl, ?_⟩)
      simp
    | cons m rest =>
      obtain ⟨la, hdeq, hrest⟩ := logDequeue_cons hqueued
      rw [hdeq] at h
      cases h
      refine .inr (.inr ⟨m, rest, la, rfl, rfl, ⟨hrest, ?_⟩, rfl⟩)
      rw [State.take, hacc, List.append_assoc]
      rfl

theorem callerStep_moves (h : callerStep s i = some s') (hq : Accounted s.log q) :
    ∃ q', Moves s q s' q' := by
  unfold callerStep at h
  split at h
  · cases h
  · rename_i prio text hpc
    obtain ⟨log, hlog, rfl⟩ := Option.map_eq_some_iff.mp h
    obtain ⟨log', q', hstep, hq'⟩ := step_accounted hq (.enqueue prio text)
    obtain rfl := Option.some.inj (hlog.symm.trans hstep)
    obtain ⟨r, -, rfl⟩ := Option.map_eq_some_iff.mp hlog
    refine ⟨q', .enqueue hpc hq' rfl ?_⟩
    dsimp only
    split_ifs
    · exact ⟨_, rfl⟩
    · exact ⟨[], (List.append_nil _).symm⟩
  · rename_i hpc
    obtain ⟨hheld, rfl⟩ := inLogEv_eq h
    exact ⟨q, .wake hpc hheld⟩

theorem serve_moves (hpc : s.logger = .testing ∨ s.logger = .woken) : Moves s q s.serve q := by
  unfold State.serve
  split_ifs with hrunning
  · exact .serve hpc hrunning
  · exact .finish hpc (Bool.eq_false_iff.mpr hrunning)

theorem loggerStep_moves (h : loggerStep s = some s') (hq : Accounted s.log q) :
    ∃ q', Moves s q s' q' := by
  unfold loggerStep at h
  split at h
  · rename_i hpc
    obtain ⟨-, rfl⟩ := inLogEv_eq h
    exact ⟨q, .start hpc⟩
  · rename_i hpc
    obtain ⟨-, rfl⟩ := inLogEv_eq h
    split_ifs with htest
    · exact ⟨q, .wait hpc (Bool.eq_false_iff.mpr htest.2)⟩
    · exact ⟨q, serve_moves (.inl hpc)⟩
  · cases h
  · rename_i hpc
    obtain ⟨-, rfl⟩ := inLogEv_eq h
    exact ⟨q, serve_moves (.inr hpc)⟩
  · rename_i pc hpc
    obtain ⟨r, hr, rfl⟩ := Option.map_eq_some_iff.mp h
    obtain ⟨line, rfl, rfl⟩ | ⟨rfl, rfl, rfl⟩ | ⟨m, rest, la, rfl, rfl, hrest, rfl⟩ :=
      flushStep_cases hr hq
    · exact ⟨q, .loggerLog hpc⟩
    · exact ⟨[], .loggerEmpty hpc⟩
    · exact ⟨rest, .loggerTake hpc hrest⟩
  · cases h

theorem cancelStep_moves (h : cancelStep s = some s') (hcancelled : s.cancelled = true) :
    Moves s q s' q := by
  unfold cancelStep at h
  split at h
  · rename_i hpc
    obtain ⟨-, rfl⟩ := inLogEv_eq h
    exact .cancelWait hcancelled (.inl hpc)
  · rename_i hpc
    obtain ⟨-, rfl⟩ := inLogEv_eq h
    exact .cancelWait hcancelled (.inr hpc)
  · rename_i line hpc
    cases h
    exact .cancelLog hcancelled hpc
  · cases h

theorem stopperStep_moves (h : stopperStep s = some s') (hq : Accounted s.log q) :
    ∃ q', Moves s q s' q' := by
  unfold stopperStep at h
  split at h
  · cases h
  · rename_i hpc
    obtain ⟨-, rfl⟩ := inLogEv_eq h
    exact ⟨q, .stopping hpc⟩
  · rename_i hpc
    cases h
    exact ⟨q, .cancelling hpc⟩
  · rename_i hpc
    split_ifs at h with hended
    cases h
    exact ⟨q, .join hpc hended⟩
  · rename_i pc hpc
    obtain ⟨r, hr, rfl⟩ := Option.map_eq_some_iff.mp h
    obtain ⟨line, rfl, rfl⟩ | ⟨rfl, rfl, rfl⟩ | ⟨m, rest, la, rfl, rfl, hrest, rfl⟩ :=
      flushStep_cases hr hq
    · exact ⟨q, .stopperLog hpc⟩
    · exact ⟨[], .stopperEmpty hpc⟩
    · exact ⟨rest, .stopperTake hpc hrest⟩
  · cases h

theorem step_moves (h : step s e = some s') (hq : Accounted s.log q) : ∃ q', Moves s q s' q' := by
  unfold step at h
  cases e with
  | call i prio text =>
    dsimp only at h
    split_ifs at h with hpc
    cases h
    unfold logSafe
    dsimp only
    split_ifs with hthr
    · exact ⟨q, .call _ text hpc hthr⟩
    · exact ⟨q, .direct _⟩
  | caller i => exact callerStep_moves h hq
  | logger => exact loggerStep_moves h hq
  | spurious =>
    dsimp only at h
    split_ifs at h with hpc
    cases h
    exact ⟨q, .spurious hpc⟩
  | cancel =>
    dsimp only at h
    split_ifs at h with hcancelled
    exact ⟨q, cancelStep_moves h hcancelled⟩
  | stop =>
    dsimp only at h
    split_ifs at h with hpc
    cases h
    exact ⟨q, .stop hpc⟩
  | stopper => exact stopperStep_moves h hq

theorem Moves.accounted (h : Moves s q s' q') (hq : Accounted s.log q) : Accounted s'.log q' := by
  cases h <;> assumption

end Moves

end MultipathTools.Log.Threads
