import MultipathTools.Log.Logged

/-! No wakeup of the logger is lost, and `log_thread_stop` can always return. -/
namespace MultipathTools.Log.Threads

section Progress
variable {s t : State} {q : List Message} {e : Event} {kind : Event → Prop} {events : List Event}

section Flush
variable {e : Event} (put : State → Option FlushPc → State)

/-- `flush_logqueue` empties the queue, whoever calls it: `put` says where the caller is in it, or
that it has returned. -/
theorem leads_dequeuing (he : kind e)
    (hput : ∀ s pc, step (put s (some pc)) e = (flushStep s pc).map fun r => put r.1 r.2)
    (hq : Accounted s.log q) : ∃ log syslogged,
      Leads step kind (put s (some .dequeuing)) (put { s with log, syslogged } none) ∧
        Accounted log [] ∧ log.accepted = s.log.accepted := by
  induction q generalizing s with
  | nil =>
    have hstep : step (put s (some .dequeuing)) e = some (put s none) := by
      rw [hput, flushStep, logDequeue_nil hq.1]
      simp
    exact ⟨s.log, s.syslogged, .head hstep he (.refl _), hq, rfl⟩
  | cons m q ih =>
    obtain ⟨la, hdeq, hrest⟩ := logDequeue_cons hq.1
    have htake : step (put s (some .dequeuing)) e =
        some (put (s.take la m) (some (.syslogging m.content))) := by
      rw [hput, flushStep, hdeq]
      rfl
    have hwrite : step (put (s.take la m) (some (.syslogging m.content))) e =
        some (put { s.take la m with syslogged := s.syslogged ++ [m.content] } (some .dequeuing)) :=
      hput _ _
    have hq' : Accounted (s.take la m).log q := by
      refine ⟨hrest, ?_⟩
      rw [State.take, hq.2, List.append_assoc]
      rfl
    obtain ⟨log, syslogged, hleads, hlast, hacc⟩ :=
      @ih { s.take la m with syslogged := s.syslogged ++ [m.content] } hq'
    exact ⟨log, syslogged, .head htake he (.head hwrite he hleads), hlast, hacc⟩

theorem leads_flush (he : kind e)
    (hput : ∀ s pc, step (put s (some pc)) e = (flushStep s pc).map fun r => put r.1 r.2)
    (pc : FlushPc) (hq : Accounted s.log q) : ∃ log syslogged,
      Leads step kind (put s (some pc)) (put { s with log, syslogged } none) ∧
        Accounted log [] ∧ log.accepted = s.log.accepted := by
  cases pc with
  | dequeuing => exact leads_dequeuing put he hput hq
  | syslogging line =>
    have hwrite : step (put s (some (.syslogging line))) e =
        some (put { s with syslogged := s.syslogged ++ [line] } (some .dequeuing)) := hput _ _
    obtain ⟨log, syslogged, hleads, hlast, hacc⟩ :=
      @leads_dequeuing { s with syslogged := s.syslogged ++ [line] } q _ _ put he hput hq
    exact ⟨log, syslogged, .head hwrite he hleads, hlast, hacc⟩

end Flush

/-- The logger empties the queue and goes back to its wait. -/
theorem leads_loggerFlush (kind : Event → Prop) (hkind : kind .logger) {pc : FlushPc}
    (hpc : s.logger = .flushing pc) (hq : Accounted s.log q) : ∃ log syslogged,
      Leads step kind s { s with log, syslogged, logger := .testing } ∧ Accounted log [] ∧
        log.accepted = s.log.accepted := by
  have hput (s : State) (pc : FlushPc) :
      step { s with logger := (some pc).elim .testing .flushing } .logger = (flushStep s pc).map
        fun r => { r.1 with logger := r.2.elim .testing .flushing } := by
    cases pc with
    | syslogging line => rfl
    | dequeuing =>
      show Option.map _ (Option.map _ _) = Option.map _ (Option.map _ _)
      rw [Option.map_map, Option.map_map]
      rfl
  have hs : s = { s with logger := .flushing pc } := by rw [← hpc]
  have hflush := leads_flush (fun s pc => { s with logger := pc.elim .testing .flushing }) hkind hput
    pc hq
  rw [hs]
  exact hflush

/-- `log_thread_stop` empties the queue. -/
theorem leads_stopperFlush (kind : Event → Prop) (hkind : kind .stopper) {pc : FlushPc}
    (hpc : s.stopper = .flushing pc) (hq : Accounted s.log q) : ∃ log syslogged,
      Leads step kind s { s with log, syslogged, stopper := .returned log.accepted } ∧
        log.accepted = s.log.accepted := by
  have hput (s : State) (pc : FlushPc) :
      step { s with stopper := (some pc).elim (.returned s.log.accepted) .flushing } .stopper =
        (flushStep s pc).map
          fun r => { r.1 with stopper := r.2.elim (.returned r.1.log.accepted) .flushing } := by
    cases pc with
    | syslogging line => rfl
    | dequeuing =>
      show Option.map _ (Option.map _ _) = Option.map _ (Option.map _ _)
      rw [Option.map_map, Option.map_map]
      rfl
  have hs : s = { s with stopper := .flushing pc } := by rw [← hpc]
  obtain ⟨log, syslogged, hleads, -, hacc⟩ :=
    leads_flush (fun s pc => { s with stopper := pc.elim (.returned s.log.accepted) .flushing })
      hkind hput pc hq
  refine ⟨log, syslogged, ?_, hacc⟩
  rw [hs]
  exact hleads

/-- What the logger and the calls of `log_safe` that are under way do by themselves. -/
def Event.own : Event → Prop
  | .caller _ | .logger => True
  | _ => False

/-- Steps lead to a state in which all that is queued now has been written. -/
def Empties (s : State) : Prop :=
  ∃ t, Leads step Event.own s t ∧ t.log.accepted = s.log.accepted ∧ t.logger ≠ .ended ∧
    t.hand = [] ∧ Accounted t.log []

theorem Empties.head {s' : State} (hempties : Empties s') (h : step s .logger = some s')
    (hacc : s'.log.accepted = s.log.accepted) : Empties s := by
  obtain ⟨t, hleads, hacc', ht⟩ := hempties
  exact ⟨t, .head h trivial hleads, hacc'.trans hacc, ht⟩

theorem empties_flushing {pc : FlushPc} (hi : Inv s q) (hpc : s.logger = .flushing pc) :
    Empties s := by
  have hlives : s.logger ≠ .ended := by simp [hpc]
  obtain ⟨log, syslogged, hleads, hlast, hacc⟩ :=
    leads_loggerFlush Event.own trivial hpc hi.accounted
  refine ⟨_, hleads, hacc, nofun, ?_, hlast⟩
  exact hi.phase.stopper_hand hlives

theorem inLogEv_of (hheld : s.logEvHeld = false) (s' : State) : s.inLogEv s' = some s' :=
  if_neg (by simp [hheld])

theorem empties_serving (hi : Inv s q) (hpc : s.logger = .testing ∨ s.logger = .woken)
    (hrunning : s.logqRunning = true)
    (hstep : step s .logger = some s.serve) : Empties s := by
  have hserve : s.serve = { s with logMessagesPending := false, logger := .flushing .dequeuing } := by
    rw [State.serve, if_pos hrunning]
  rw [hserve] at hstep
  have hserved := (Moves.serve (q := q) hpc hrunning).inv hi
  exact (empties_flushing hserved rfl).head hstep rfl

theorem empties_woken (hi : Inv s q) (hpc : s.logger = .woken) (hrunning : s.logqRunning = true)
    (hheld : s.logEvHeld = false) : Empties s := by
  apply empties_serving hi (.inr hpc) hrunning
  show loggerStep s = _
  rw [loggerStep, hpc]
  exact inLogEv_of hheld _

/-- If there is something in the queue, the logger is told and wakes up. -/
theorem empties_waiting (hi : Inv s q) (hpc : s.logger = .waiting)
    (hrunning : s.logqRunning = true) (hheld : s.logEvHeld = false) : Empties s := by
  have hlives : s.logger ≠ .ended := by simp [hpc]
  cases q with
  | nil =>
    refine ⟨s, .refl s, rfl, hlives, ?_, hi.accounted⟩
    rw [State.hand, hi.phase.stopper_hand hlives, hpc]
    rfl
  | cons m q =>
    have hpending := hi.alert.waiting hpc
    have htold := hi.alert.told (by rw [hpc]; trivial) (List.cons_ne_nil _ _)
    obtain ⟨i, hwaking⟩ := htold.resolve_left (by simp [hpending])
    have hwoken := (Moves.wake (q := m :: q) hwaking hheld).inv hi
    have hstep : step s (.caller i) = some { s with
        logMessagesPending := true
        logger := s.logger.wake
        caller := Function.update s.caller i .outside } := by
      show callerStep s i = _
      rw [callerStep, hwaking]
      exact inLogEv_of hheld _
    obtain ⟨t, hleads, ht⟩ := empties_woken hwoken (by rw [hpc]; rfl) hrunning hheld
    exact ⟨t, .head hstep trivial hleads, ht⟩

theorem empties_testing (hi : Inv s q) (hpc : s.logger = .testing)
    (hrunning : s.logqRunning = true) (hheld : s.logEvHeld = false) : Empties s := by
  cases hpending : s.logMessagesPending with
  | true =>
    apply empties_serving hi (.inl hpc) hrunning
    show loggerStep s = _
    rw [loggerStep, hpc]
    dsimp only
    rw [if_neg (by simp [hpending])]
    exact inLogEv_of hheld _
  | false =>
    have hwaiting := (Moves.wait (q := q) hpc hpending).inv hi
    refine (empties_waiting hwaiting rfl hrunning hheld).head ?_ rfl
    show loggerStep s = _
    rw [loggerStep, hpc]
    dsimp only
    rw [if_pos ⟨hrunning, by simp [hpending]⟩]
    exact inLogEv_of hheld _

theorem empties (hearly : s.stopper.early) (hi : Inv s q) : Empties s := by
  have hlives := hi.phase.alive hearly
  have hrunning := hi.phase.running hearly
  have hheld : s.logEvHeld = false := Bool.eq_false_iff.mpr fun h => hlives (hi.phase.held h)
  cases hpc : s.logger
  case starting =>
    have hstarted := (Moves.start (q := q) hpc).inv hi
    refine (empties_testing hstarted rfl rfl hheld).head ?_ rfl
    show loggerStep s = _
    rw [loggerStep, hpc]
    exact inLogEv_of hheld _
  case testing => exact empties_testing hi hpc (hrunning (by simp [hpc])) hheld
  case waiting => exact empties_waiting hi hpc (hrunning (by simp [hpc])) hheld
  case woken => exact empties_woken hi hpc (hrunning (by simp [hpc])) hheld
  case flushing pc => exact empties_flushing hi hpc
  case ended => exact absurd hpc hlives

/-- In every run, up to the moment when `log_thread_stop` tells the logger to end: no call of
`log_safe` is blocked, and the threads can go on until all that has been queued is given to syslog, in
order. No wakeup is lost. -/
theorem run_flushed (h : run step {} events = some s) (hearly : s.stopper.early) :
    (∀ i, s.caller i ≠ .outside → ∃ s', step s (.caller i) = some s') ∧
      ∃ t, Leads step Event.own s t ∧ t.log.accepted = s.log.accepted ∧
        t.syslogged = s.log.accepted.map staged := by
  obtain ⟨q, hi⟩ := run_inv h
  constructor
  · intro i hpc
    have hlives := hi.phase.alive hearly
    have hheld : s.logEvHeld = false := Bool.eq_false_iff.mpr fun h => hlives (hi.phase.held h)
    show ∃ s', callerStep s i = some s'
    unfold callerStep
    cases hcaller : s.caller i with
    | outside => exact absurd hcaller hpc
    | enqueuing prio text =>
      obtain ⟨log, -, hstep, -⟩ := step_accounted hi.accounted (.enqueue prio text)
      dsimp only
      rw [hstep]
      exact ⟨_, rfl⟩
    | waking => exact ⟨_, inLogEv_of hheld _⟩
  · obtain ⟨t, hleads, hacc, hlives, hhand, hlast⟩ := empties hearly hi
    obtain ⟨-, -, -, -, before, lost, after, hh⟩ := (hleads.keep _ fun _ _ _ => step_inv) ⟨q, hi⟩
    refine ⟨t, hleads, hacc, ?_⟩
    obtain ⟨rfl, rfl⟩ := hh.running hlives
    rw [← hacc, hlast.2, hh.dequeued, hh.syslogged, hhand]
    simp

theorem run_flushed_sample : ∃ s t, run step {} sampleEvents = some s ∧
    Leads step Event.own s t ∧ t.syslogged = [(7, [117, 112])] := by
  obtain ⟨t, hleads, -, hsyslogged⟩ := (@run_flushed _ sampleEvents rfl trivial).2
  exact ⟨_, t, rfl, hleads, hsyslogged⟩

/-- What ends the logger: its own steps, `pthread_cancel` and `log_thread_stop`. -/
def Event.ending : Event → Prop
  | .logger | .cancel | .stopper => True
  | _ => False

/-- The cancelled logger ends, with the queue as it is or shorter. -/
def Ends (s : State) : Prop :=
  ∃ t, Leads step Event.ending s t ∧ t.logger = .ended ∧ t.stopper = s.stopper ∧
    t.log.accepted = s.log.accepted

theorem Ends.head {s' : State} (h : step s e = some s') (he : e.ending) (hends : Ends s')
    (hstopper : s'.stopper = s.stopper) (hacc : s'.log.accepted = s.log.accepted) : Ends s := by
  obtain ⟨t, hleads, hended, hstopper', hacc'⟩ := hends
  exact ⟨t, .head h he hleads, hended, hstopper'.trans hstopper, hacc'.trans hacc⟩

theorem ends_waiting (hpc : s.logger = .waiting ∨ s.logger = .woken) (hcancelled : s.cancelled = true)
    (hheld : s.logEvHeld = false) : Ends s := by
  have hstep : step s .cancel = some { s with logger := .ended, logEvHeld := true } := by
    show (if s.cancelled then cancelStep s else none) = _
    rw [if_pos hcancelled, cancelStep]
    obtain hpc | hpc := hpc <;> rw [hpc] <;> exact inLogEv_of hheld _
  exact ⟨_, .head hstep trivial (.refl _), rfl, rfl, rfl⟩

theorem loggerStep_testing (hpc : s.logger = .testing) (hheld : s.logEvHeld = false) :
    step s .logger = some
      (if s.logqRunning ∧ ¬ s.logMessagesPending then { s with logger := .waiting } else s.serve) := by
  show loggerStep s = _
  rw [loggerStep, hpc]
  exact inLogEv_of hheld _

theorem ends_of_not_running (hpc : s.logger = .testing) (hrunning : s.logqRunning = false)
    (hheld : s.logEvHeld = false) : Ends s := by
  have hstep := loggerStep_testing hpc hheld
  rw [if_neg (by simp [hrunning]), State.serve, if_neg (by simp [hrunning])] at hstep
  exact ⟨_, .head hstep trivial (.refl _), rfl, rfl, rfl⟩

/-- Where no message is pending, the logger goes to its wait, or has been told to end. -/
theorem ends_idle (hpc : s.logger = .testing) (hpending : s.logMessagesPending = false)
    (hcancelled : s.cancelled = true) (hheld : s.logEvHeld = false) : Ends s := by
  cases hrunning : s.logqRunning with
  | true =>
    have hstep := loggerStep_testing hpc hheld
    rw [if_pos ⟨hrunning, by simp [hpending]⟩] at hstep
    exact .head hstep trivial (ends_waiting (.inl rfl) hcancelled hheld) rfl rfl
  | false => exact ends_of_not_running hpc hrunning hheld

/-- A pending message sends the logger through the queue once more. -/
theorem ends_testing (hpc : s.logger = .testing) (hq : Accounted s.log q)
    (hcancelled : s.cancelled = true) (hheld : s.logEvHeld = false) : Ends s := by
  cases hpending : s.logMessagesPending with
  | false => exact ends_idle hpc hpending hcancelled hheld
  | true =>
    cases hrunning : s.logqRunning with
    | false => exact ends_of_not_running hpc hrunning hheld
    | true =>
      have hstep := loggerStep_testing hpc hheld
      rw [if_neg (by simp [hpending]), State.serve, if_pos hrunning] at hstep
      obtain ⟨log, syslogged, hleads, -, hacc⟩ :=
        @leads_loggerFlush { s with logMessagesPending := false, logger := .flushing .dequeuing } q
          Event.ending trivial _ rfl hq
      obtain ⟨t, hleads', hended, hstopper, hacc'⟩ := ends_idle
        (s := { s with log, syslogged, logMessagesPending := false, logger := .testing }) rfl rfl
        hcancelled hheld
      exact ⟨t, .head hstep trivial (hleads.trans hleads'), hended, hstopper, hacc'.trans hacc⟩

theorem ends_flushing {pc : FlushPc} (hpc : s.logger = .flushing pc) (hq : Accounted s.log q)
    (hcancelled : s.cancelled = true) (hheld : s.logEvHeld = false) : Ends s := by
  obtain ⟨log, syslogged, hleads, hlast, hacc⟩ :=
    leads_loggerFlush Event.ending trivial hpc hq
  obtain ⟨t, hleads', hended, hstopper, hacc'⟩ :=
    ends_testing (s := { s with log, syslogged, logger := .testing }) rfl hlast hcancelled hheld
  exact ⟨t, hleads.trans hleads', hended, hstopper, hacc'.trans hacc⟩

theorem ends (hpc : s.stopper = .joining) (hi : Inv s q) : Ends s := by
  have hcancelled := hi.phase.joining hpc
  have hheld (hlives : s.logger ≠ .ended) : s.logEvHeld = false :=
    Bool.eq_false_iff.mpr fun h => hlives (hi.phase.held h)
  cases hlogger : s.logger
  case starting =>
    have hfree := hheld (by simp [hlogger])
    have hstep : step s .logger = some { s with logqRunning := true, logger := .testing } := by
      show loggerStep s = _
      rw [loggerStep, hlogger]
      exact inLogEv_of hfree _
    exact .head hstep trivial (ends_testing rfl hi.accounted hcancelled hfree) rfl rfl
  case testing => exact ends_testing hlogger hi.accounted hcancelled (hheld (by simp [hlogger]))
  case waiting => exact ends_waiting (.inl hlogger) hcancelled (hheld (by simp [hlogger]))
  case woken => exact ends_waiting (.inr hlogger) hcancelled (hheld (by simp [hlogger]))
  case flushing pc => exact ends_flushing hlogger hi.accounted hcancelled (hheld (by simp [hlogger]))
  case ended => exact ⟨s, .refl s, hlogger, rfl, rfl⟩

/-- `log_thread_stop` returns, with all behind it that is queued now. -/
def Returns (s : State) : Prop :=
  ∃ t, Leads step Event.ending s t ∧ t.stopper = .returned s.log.accepted

theorem Returns.head {s' : State} (h : step s e = some s') (he : e.ending) (hreturns : Returns s')
    (hacc : s'.log.accepted = s.log.accepted) : Returns s := by
  obtain ⟨t, hleads, ht⟩ := hreturns
  exact ⟨t, .head h he hleads, hacc ▸ ht⟩

theorem returns_flushing {pc : FlushPc} (hpc : s.stopper = .flushing pc) (hq : Accounted s.log q) :
    Returns s := by
  obtain ⟨log, syslogged, hleads, hacc⟩ := leads_stopperFlush Event.ending trivial hpc hq
  exact ⟨_, hleads, congrArg StopperPc.returned hacc⟩

theorem returns_joining (hpc : s.stopper = .joining) (hi : Inv s q) : Returns s := by
  obtain ⟨t, hleads, hended, hstopper, hacc⟩ := ends hpc hi
  obtain ⟨q', hi'⟩ := (hleads.keep _ fun _ _ _ => step_inv) ⟨q, hi⟩
  have hstep : step t .stopper =
      some { t with logThr := false, stopper := .flushing .dequeuing } := by
    show stopperStep t = _
    rw [stopperStep, hstopper, hpc]
    exact if_pos hended
  have hreturns : Returns { t with logThr := false, stopper := .flushing .dequeuing } :=
    returns_flushing rfl hi'.accounted
  obtain ⟨u, hleads', hu⟩ := hreturns.head hstep trivial rfl
  exact ⟨u, hleads.trans hleads', hacc ▸ hu⟩

theorem returns_cancelling (hpc : s.stopper = .cancelling) (hi : Inv s q) : Returns s := by
  have hjoining := (Moves.cancelling (q := q) hpc).inv hi
  have hstep : step s .stopper = some { s with cancelled := true, stopper := .joining } := by
    show stopperStep s = _
    rw [stopperStep, hpc]
  exact .head hstep trivial (returns_joining rfl hjoining) rfl

theorem returns_stopping (hpc : s.stopper = .stopping) (hi : Inv s q) : Returns s := by
  have hlives : s.logger ≠ .ended := hi.phase.alive (by rw [hpc]; trivial)
  have hheld : s.logEvHeld = false := Bool.eq_false_iff.mpr fun h => hlives (hi.phase.held h)
  have hcancelling := (Moves.stopping (q := q) hpc).inv hi
  have hstep : step s .stopper = some { s with
      logqRunning := false
      logger := s.logger.wake
      stopper := .cancelling } := by
    show stopperStep s = _
    rw [stopperStep, hpc]
    exact inLogEv_of hheld _
  exact .head hstep trivial (returns_cancelling rfl hcancelling) rfl

/-- In every run: once `log_thread_stop` is called it can return, wherever the logger is, even before
it has set `logq_running`. What was queued before has been given to syslog then, but for at most one
message. -/
theorem run_stopped (h : run step {} events = some s) (hcalled : s.stopper ≠ .outside)
    (hopen : ∀ accepted, s.stopper ≠ .returned accepted) :
    ∃ t, Leads step Event.ending s t ∧ t.stopper = .returned s.log.accepted ∧
      ∃ before lost after, s.log.accepted.map staged = before ++ lost ++ after ∧
        t.syslogged = before ++ after ∧ lost.length ≤ 1 := by
  obtain ⟨q, hi⟩ := run_inv h
  have hreturns : Returns s := by
    cases hpc : s.stopper
    case outside => exact absurd hpc hcalled
    case stopping => exact returns_stopping hpc hi
    case cancelling => exact returns_cancelling hpc hi
    case joining => exact returns_joining hpc hi
    case flushing pc => exact returns_flushing hpc hi.accounted
    case returned accepted => exact absurd hpc (hopen accepted)
  obtain ⟨t, hleads, hreturned⟩ := hreturns
  obtain ⟨q', hphase, -, -, before, lost, after, hh⟩ :=
    (hleads.keep _ fun _ _ _ => step_inv) ⟨q, hi⟩
  have hended : t.logger = .ended := hphase.joined (by simp [hreturned, StopperPc.joined])
  refine ⟨t, hleads, hreturned, before, lost, after, ?_, hh.syslogged, hh.lost_le⟩
  rw [hh.returned _ hreturned, hh.dequeued, State.hand, hended, hreturned]
  exact List.append_nil _

theorem run_stopped_sample : ∃ s t, run step {} (sampleEvents ++ [.stop, .stopper]) = some s ∧
    Leads step Event.ending s t ∧ t.stopper = .returned [(7, ⟨[117, 112], by decide⟩)] := by
  obtain ⟨t, hleads, hreturned, -⟩ :=
    @run_stopped _ (sampleEvents ++ [.stop, .stopper]) rfl nofun nofun
  exact ⟨_, t, rfl, hleads, hreturned⟩

end Progress

end MultipathTools.Log.Threads
