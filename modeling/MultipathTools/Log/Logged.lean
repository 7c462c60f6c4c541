import MultipathTools.Log.Threads

/-! What becomes of a queued message, in every interleaving of the threads around the log area. -/
namespace MultipathTools.Log.Threads

section Phase
variable {s s' : State} {q q' : List Message}

/-- `log_thread_stop` has not told the logger to end. -/
def StopperPc.early : StopperPc → Prop
  | .outside | .stopping => True
  | _ => False

/-- `log_thread_stop` has seen the logger end. -/
def StopperPc.joined : StopperPc → Prop
  | .flushing _ | .returned _ => True
  | _ => False

/-- How far the logger and `log_thread_stop` can be at the same time. -/
structure Phase (s : State) : Prop where
  held : s.logEvHeld = true → s.logger = .ended
  joined : s.stopper.joined → s.logger = .ended
  running : s.stopper.early → s.logger ≠ .starting → s.logqRunning = true
  alive : s.stopper.early → s.logger ≠ .ended
  asked : s.cancelled = true → ¬ s.stopper.early
  joining : s.stopper = .joining → s.cancelled = true

theorem phase_init : Phase {} := by
  constructor <;> simp [StopperPc.joined]

@[simp] theorem wake_eq_ended {pc : LoggerPc} : pc.wake = .ended ↔ pc = .ended := by
  cases pc <;> simp [LoggerPc.wake]

@[simp] theorem wake_eq_starting {pc : LoggerPc} : pc.wake = .starting ↔ pc = .starting := by
  cases pc <;> simp [LoggerPc.wake]

theorem Moves.phase (h : Moves s q s' q') (hp : Phase s) : Phase s' := by
  obtain ⟨held, joined, running, alive, asked, joining⟩ := hp
  cases h
  case serve hpc hrunning | finish hpc hrunning =>
    obtain hpc | hpc := hpc <;> constructor <;> simp_all
  all_goals constructor <;> simp_all [StopperPc.joined, StopperPc.early, State.take]

end Phase

section Alert
variable {s s' : State} {q q' : List Message} {i : ℕ}

/-- The logger is not going to look at the queue unless it is told to. -/
def LoggerPc.resting : LoggerPc → Prop
  | .starting | .testing | .waiting => True
  | _ => False

/-- The logger is told of what is in the queue. -/
structure Alert (s : State) (q : List Message) : Prop where
  told : s.logger.resting → q ≠ [] → s.logMessagesPending = true ∨ ∃ i, s.caller i = .waking
  waiting : s.logger = .waiting → s.logMessagesPending = false

theorem wake_resting {pc : LoggerPc} (h : pc.wake.resting) : pc.resting := by
  cases pc <;> trivial

@[simp] theorem wake_ne_waiting {pc : LoggerPc} : pc.wake ≠ .waiting := by
  cases pc <;> nofun

theorem exists_waking_update {caller : ℕ → CallerPc} {pc : CallerPc} (hpc : caller i ≠ .waking)
    (h : ∃ j, caller j = .waking) : ∃ j, Function.update caller i pc j = .waking := by
  obtain ⟨j, hj⟩ := h
  have hne : j ≠ i := fun heq => hpc (heq ▸ hj)
  exact ⟨j, by rwa [Function.update_of_ne hne]⟩

theorem Moves.alert (h : Moves s q s' q') (ha : Alert s q) : Alert s' q' := by
  obtain ⟨told, waiting⟩ := ha
  cases h
  case call hpc hthr =>
    have hne : ∀ i, s.caller i = .outside → s.caller i ≠ .waking := by simp_all
    refine ⟨fun hrest hq => (told hrest hq).imp_right (exists_waking_update (hne _ hpc)), waiting⟩
  case enqueue hpc hq hdequeued haccepted =>
    exact ⟨fun _ _ => .inr ⟨_, Function.update_self _ _ _⟩, waiting⟩
  case wake hpc hheld => exact ⟨fun _ _ => .inl rfl, fun hwait => absurd hwait wake_ne_waiting⟩
  case start hpc => exact ⟨fun _ hq => told (hpc ▸ trivial) hq, nofun⟩
  case wait hpc hpending => exact ⟨fun _ hq => told (hpc ▸ trivial) hq, fun _ => hpending⟩
  case loggerEmpty hpc => exact ⟨fun _ hq => absurd rfl hq, nofun⟩
  case stopperTake hpc hq =>
    exact ⟨fun hrest _ => told hrest (List.cons_ne_nil _ _), waiting⟩
  case stopping hpc =>
    exact ⟨fun hrest hq => told (wake_resting hrest) hq, fun hwait => absurd hwait wake_ne_waiting⟩
  case direct | stop | cancelling | join | stopperEmpty | stopperLog => exact ⟨told, waiting⟩
  all_goals exact ⟨fun hrest => hrest.elim, nofun⟩

end Alert

section Handled
variable {s s' : State} {q q' : List Message}

/-- What has become of the messages that were taken out of the queue: all have been given to
syslog, but for the one at hand, and one that the logger may have had when it was cancelled. -/
structure Handled (s : State) (before lost after : List Line) : Prop where
  dequeued : s.log.dequeued = before ++ lost ++ after ++ s.hand
  syslogged : s.syslogged = before ++ after
  lost_le : lost.length ≤ 1
  uncancelled : s.cancelled = false → lost = []
  running : s.logger ≠ .ended → lost = [] ∧ after = []
  returned : ∀ accepted, s.stopper = .returned accepted → accepted.map staged = s.log.dequeued

@[simp] theorem wake_hand {pc : LoggerPc} : pc.wake.hand = pc.hand := by cases pc <;> rfl

/-- While the logger lives, only it has a message at hand. -/
theorem Phase.stopper_hand (hp : Phase s) (hlives : s.logger ≠ .ended) : s.stopper.hand = [] := by
  cases hpc : s.stopper
  case flushing pc =>
    refine absurd (hp.joined ?_) hlives
    rw [hpc]
    trivial
  all_goals rfl

theorem Phase.not_returned (hp : Phase s) (hlives : s.logger ≠ .ended) (accepted : List (ℤ × Text)) :
    s.stopper ≠ .returned accepted := by
  intro hpc
  refine hlives (hp.joined ?_)
  rw [hpc]
  trivial

/-- A move that takes nothing out of the queue and writes nothing. -/
theorem Handled.keep {before lost after : List Line} (h : Handled s before lost after)
    (hdequeued : s'.log.dequeued = s.log.dequeued) (hsyslogged : s'.syslogged = s.syslogged)
    (hhand : s'.hand = s.hand) (hcancelled : s'.cancelled = false → s.cancelled = false)
    (hended : s.logger = .ended → s'.logger = .ended)
    (hreturned : ∀ accepted, s'.stopper = .returned accepted → s.stopper = .returned accepted) :
    Handled s' before lost after := by
  constructor
  · rw [hdequeued, hhand]
    exact h.dequeued
  · rw [hsyslogged]
    exact h.syslogged
  · exact h.lost_le
  · exact fun hc => h.uncancelled (hcancelled hc)
  · exact fun hlives => h.running fun heq => hlives (hended heq)
  · intro accepted hpc
    rw [hdequeued]
    exact h.returned accepted (hreturned accepted hpc)

theorem Moves.handled (h : Moves s q s' q') (hp : Phase s) (hq : Accounted s.log q)
    (hh : ∃ before lost after, Handled s before lost after) :
    ∃ before lost after, Handled s' before lost after := by
  obtain ⟨before, lost, after, hh⟩ := hh
  have hdequeued := hh.dequeued
  unfold State.hand at hdequeued
  cases h
  case loggerTake m la hpc hrest =>
    have hlives : s.logger ≠ .ended := by simp [hpc]
    obtain ⟨rfl, rfl⟩ := hh.running hlives
    rw [hp.stopper_hand hlives, hpc] at hdequeued
    refine ⟨before, [], [], ?_, hh.syslogged, by simp, fun _ => rfl, fun _ => ⟨rfl, rfl⟩, ?_⟩
    · show s.log.dequeued ++ [m.content] = before ++ [] ++ [] ++ ([m.content] ++ s.stopper.hand)
      rw [hdequeued, hp.stopper_hand hlives]
      simp [LoggerPc.hand, FlushPc.hand]
    · exact fun accepted hret => absurd hret (hp.not_returned hlives accepted)
  case loggerLog line hpc =>
    have hlives : s.logger ≠ .ended := by simp [hpc]
    obtain ⟨rfl, rfl⟩ := hh.running hlives
    rw [hp.stopper_hand hlives, hpc] at hdequeued
    refine ⟨before ++ [line], [], [], ?_, ?_, by simp, fun _ => rfl, fun _ => ⟨rfl, rfl⟩, ?_⟩
    · show s.log.dequeued = before ++ [line] ++ [] ++ [] ++ ([] ++ s.stopper.hand)
      rw [hdequeued, hp.stopper_hand hlives]
      simp [LoggerPc.hand, FlushPc.hand]
    · show s.syslogged ++ [line] = before ++ [line] ++ []
      rw [hh.syslogged]
      simp
    · exact fun accepted hret => absurd hret (hp.not_returned hlives accepted)
  case cancelLog line hcancelled hpc =>
    -- the message at hand is lost
    have hlives : s.logger ≠ .ended := by simp [hpc]
    obtain ⟨rfl, rfl⟩ := hh.running hlives
    rw [hp.stopper_hand hlives, hpc] at hdequeued
    refine ⟨before, [line], [], ?_, hh.syslogged, by simp, ?_, fun hne => absurd rfl hne, ?_⟩
    · show s.log.dequeued = before ++ [line] ++ [] ++ ([] ++ s.stopper.hand)
      rw [hdequeued, hp.stopper_hand hlives]
      simp [LoggerPc.hand, FlushPc.hand]
    · exact fun hno => absurd hcancelled (by simp [show s.cancelled = false from hno])
    · exact fun accepted hret => absurd hret (hp.not_returned hlives accepted)
  case stopperTake m la hpc hrest =>
    have hended : s.logger = .ended := hp.joined (by simp [hpc, StopperPc.joined])
    rw [hpc, hended] at hdequeued
    refine ⟨before, lost, after, ?_, hh.syslogged, hh.lost_le, hh.uncancelled,
      fun hne => absurd hended hne, nofun⟩
    show s.log.dequeued ++ [m.content] = before ++ lost ++ after ++ (s.logger.hand ++ [m.content])
    rw [hdequeued, hended]
    simp [LoggerPc.hand, StopperPc.hand, FlushPc.hand]
  case stopperLog line hpc =>
    have hended : s.logger = .ended := hp.joined (by simp [hpc, StopperPc.joined])
    rw [hpc, hended] at hdequeued
    refine ⟨before, lost, after ++ [line], ?_, ?_, hh.lost_le, hh.uncancelled,
      fun hne => absurd hended hne, nofun⟩
    · show s.log.dequeued = before ++ lost ++ (after ++ [line]) ++ (s.logger.hand ++ [])
      rw [hdequeued, hended]
      simp [LoggerPc.hand, StopperPc.hand, FlushPc.hand]
    · show s.syslogged ++ [line] = before ++ (after ++ [line])
      rw [hh.syslogged, List.append_assoc]
  case stopperEmpty hpc =>
    refine ⟨before, lost, after, ?_, hh.syslogged, hh.lost_le, hh.uncancelled, hh.running, ?_⟩
    · rw [hpc] at hdequeued
      exact hdequeued
    · rintro accepted ⟨⟩
      rw [hq.2]
      exact List.append_nil _
  case stopping hpc =>
    refine ⟨before, lost, after, hh.keep rfl rfl ?_ id (wake_eq_ended.mpr ·) nofun⟩
    simp [State.hand, hpc, StopperPc.hand]
  case wake hpc hheld =>
    refine ⟨before, lost, after, hh.keep rfl rfl ?_ id (wake_eq_ended.mpr ·) fun _ => id⟩
    simp [State.hand]
  case enqueue hpc hdeq haccepted hq' =>
    exact ⟨before, lost, after, hh.keep hdeq rfl rfl id id fun _ => id⟩
  case serve hpc hrunning | finish hpc hrunning | cancelWait hcancelled hpc =>
    refine ⟨before, lost, after, hh.keep rfl rfl ?_ id (fun hended => ?_) fun _ => id⟩
    · obtain hpc | hpc := hpc <;> simp [State.hand, hpc, LoggerPc.hand, FlushPc.hand]
    · simp [hended] at hpc
  case start hpc | wait hpc hpending | loggerEmpty hpc | spurious hpc =>
    refine ⟨before, lost, after, hh.keep rfl rfl ?_ id (fun hended => ?_) fun _ => id⟩
    · simp [State.hand, hpc, LoggerPc.hand, FlushPc.hand]
    · simp [hended] at hpc
  case stop hpc | join hpc hended =>
    refine ⟨before, lost, after, hh.keep rfl rfl ?_ id id nofun⟩
    simp [State.hand, hpc, StopperPc.hand, FlushPc.hand]
  case cancelling hpc =>
    refine ⟨before, lost, after, hh.keep rfl rfl ?_ nofun id nofun⟩
    simp [State.hand, hpc, StopperPc.hand]
  case call | direct => exact ⟨before, lost, after, hh.keep rfl rfl rfl id id fun _ => id⟩

end Handled

section Run
variable {s s' t : State} {q q' : List Message} {e : Event} {events : List Event}

/-- What holds in every state that is reached. -/
structure Inv (s : State) (q : List Message) : Prop where
  phase : Phase s
  accounted : Accounted s.log q
  alert : Alert s q
  handled : ∃ before lost after, Handled s before lost after

theorem inv_init : Inv {} [] := by
  refine ⟨phase_init, accounted_init, ⟨fun _ hq => absurd rfl hq, nofun⟩, [], [], [], ?_⟩
  exact ⟨rfl, rfl, by simp, fun _ => rfl, fun _ => ⟨rfl, rfl⟩, nofun⟩

theorem Moves.inv (h : Moves s q s' q') (hi : Inv s q) : Inv s' q' :=
  ⟨h.phase hi.phase, h.accounted hi.accounted, h.alert hi.alert,
    h.handled hi.phase hi.accounted hi.handled⟩

theorem step_inv (h : step s e = some s') (hi : ∃ q, Inv s q) : ∃ q, Inv s' q := by
  obtain ⟨q, hi⟩ := hi
  obtain ⟨q', hmoves⟩ := step_moves h hi.accounted
  exact ⟨q', hmoves.inv hi⟩

theorem run_inv (h : run step {} events = some s) : ∃ q, Inv s q :=
  run_invariant _ (fun _ _ _ hstep _ => step_inv hstep) ⟨[], inv_init⟩ (along_true _ events) h

/-- In every run: what has been queued is, in this order, what has been taken out of the queue, with
at most one message at hand, and what the area holds. Syslog has been given what was taken out, but for
at most one message that the logger had when it was cancelled; and when `log_thread_stop` has
returned, nothing that was queued before its last look is left. -/
theorem run_logged (h : run step {} events = some s) : ∃ q before lost after,
    Queued s.log.area q ∧
      s.log.accepted.map staged = before ++ lost ++ after ++ s.hand ++ q.map Message.content ∧
      s.syslogged = before ++ after ∧ lost.length ≤ 1 ∧ s.hand.length ≤ 1 ∧
      (s.cancelled = false → lost = []) ∧
      ∀ accepted, s.stopper = .returned accepted →
        accepted.map staged = before ++ lost ++ after := by
  obtain ⟨q, hphase, ⟨hqueued, hacc⟩, -, before, lost, after, hh⟩ := run_inv h
  have hhand (pc : FlushPc) : pc.hand.length ≤ 1 := by cases pc <;> simp [FlushPc.hand]
  refine ⟨q, before, lost, after, hqueued, ?_, hh.syslogged, hh.lost_le, ?_, hh.uncancelled, ?_⟩
  · rw [hacc, hh.dequeued]
  · by_cases hlives : s.logger = .ended
    · rw [State.hand, hlives]
      cases hpc : s.stopper <;> simp [LoggerPc.hand, StopperPc.hand, hhand]
    · rw [State.hand, hphase.stopper_hand hlives, List.append_nil]
      cases hpc : s.logger <;> simp [LoggerPc.hand, hhand]
  · intro accepted hpc
    have hended : s.logger = .ended := hphase.joined (by simp [hpc, StopperPc.joined])
    rw [hh.returned accepted hpc, hh.dequeued, State.hand, hended, hpc]
    exact List.append_nil _

/-- A message is queued and the logger, which was asleep, takes it out. -/
def sampleEvents : List Event :=
  [.logger, .logger, .call 0 9 ⟨[117, 112], by decide⟩, .caller 0, .caller 0, .logger, .logger]

theorem run_logged_sample : ∃ s, run step {} sampleEvents = some s ∧ ∃ q before lost after,
    Queued s.log.area q ∧
      [(7, [117, 112])] = before ++ lost ++ after ++ s.hand ++ q.map Message.content := by
  obtain ⟨q, before, lost, after, hqueued, hacc, -⟩ := @run_logged _ sampleEvents rfl
  exact ⟨_, rfl, q, before, lost, after, hqueued, hacc⟩

end Run

end MultipathTools.Log.Threads
