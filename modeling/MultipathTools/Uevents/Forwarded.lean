import MultipathTools.Uevents.Threads

/-! Where the received events are, in every interleaving of the threads that share the uevent queue. -/
namespace MultipathTools.Uevents

section Invariant
variable {s s' : State} {conf : UeventConfig} {i : ℕ}

/-- Each event is in one place. -/
structure Conserved (received : List Uevent) (s : State) : Prop where
  received : received = s.forwarded ++ s.unforwarded
  forwarded : s.forwarded = s.done ++ s.taken ++ s.uevq
  copied : s.dispatcher = .clearing → s.uevqTmp = s.uevq
  idle : s.dispatcher.idle → s.uevqTmp = []
  triggered : s.triggered ++ s.dispatcher.due =
    s.serviced.flatMap batchOrder ++ s.dispatcher.begun s.uevqTmp

/-- The dispatcher tells what it is doing, and it sleeps only if the queue is empty or the listener is
about to wake it. -/
structure Alert (s : State) : Prop where
  flagged : s.dispatcher.busy → s.servicingUev = true
  woken : s.dispatcher = .asleep → s.uevq = [] ∨ s.listener = .clearing ∨ s.listener = .signalling

/-- What a call of `is_uevent_busy` knows. -/
def CallerPc.Knows (s : State) : CallerPc → Prop
  | .testing before => before ≤ s.forwarded.length
  | .unlocking before empty | .asking before empty =>
    empty = true → before ≤ (s.done ++ s.taken).length
  | .returned before busy => busy = false → before ≤ s.done.length
  | .outside | .locking => True

variable {received : List Uevent}

theorem receive_conserved (uev : Uevent) (hpc : s.listener = .polling) (hc : Conserved received s) :
    Conserved (received ++ [uev]) { s with uevlistenTmp := s.uevlistenTmp ++ [uev] } := by
  obtain ⟨hrec, hfwd, hcopied, hidle, htrig⟩ := hc
  refine ⟨?_, hfwd, hcopied, hidle, htrig⟩
  rw [hrec]
  simp [State.unforwarded, hpc]

theorem listenerStep_conserved (hx : Exclusive s.inside s.owner) (h : listenerStep s = some s')
    (hc : Conserved received s) : Conserved received s' := by
  obtain ⟨hrec, hfwd, hcopied, hidle, htrig⟩ := hc
  unfold listenerStep at h
  cases hpc : s.listener <;> rw [hpc] at h <;> dsimp only at h
  case polling | forwarding =>
    split_ifs at h
    cases h
    refine ⟨?_, hfwd, hcopied, hidle, htrig⟩
    rw [hrec, State.unforwarded, hpc]
    rfl
  case splicing =>
    -- the dispatcher is not inside, so that it has no copy of the queue
    have hin : s.inside .listener := by
      show s.listener.inside
      rw [hpc]
      trivial
    have hout : s.dispatcher ≠ .clearing := by
      intro hd
      have hdin : s.inside .dispatcher := by
        show s.dispatcher.inside
        rw [hd]
        trivial
      cases hx.eq hin hdin
    cases h
    refine ⟨?_, ?_, fun hd => absurd hd hout, hidle, htrig⟩
    · rw [hrec, State.unforwarded, hpc]
      simp [State.unforwarded]
    · rw [hfwd, List.append_assoc]
      rfl
  case clearing =>
    cases h
    refine ⟨?_, hfwd, hcopied, hidle, htrig⟩
    rw [hrec, State.unforwarded, hpc]
    rfl
  case signalling =>
    cases h
    have htaken : State.taken { s with dispatcher := s.dispatcher.wake, listener := .unlocking } =
        s.taken := by
      unfold State.taken
      cases s.dispatcher <;> rfl
    refine ⟨?_, ?_, by simpa using hcopied, by simpa using hidle, by simpa using htrig⟩
    · rw [hrec, State.unforwarded, hpc]
      rfl
    · rw [htaken]
      exact hfwd
  case unlocking =>
    cases h
    refine ⟨?_, hfwd, hcopied, hidle, htrig⟩
    rw [hrec, State.unforwarded, hpc]
    rfl

theorem dispatcherStep_conserved (h : dispatcherStep s conf = some s') (hc : Conserved received s) :
    Conserved received s' := by
  obtain ⟨hrec, hfwd, hcopied, hidle, htrig⟩ := hc
  have hrec' : received = s'.forwarded ++ s'.unforwarded := by
    obtain ⟨hlistener, htmp, -, hforward⟩ := dispatcherStep_frame h
    rw [hrec, hforward, State.unforwarded, State.unforwarded, hlistener, htmp]
  unfold dispatcherStep at h
  rw [State.taken] at hfwd
  cases hpc : s.dispatcher <;> rw [hpc] at h hfwd hidle htrig <;> try dsimp only at h hfwd
  case locking | testing | woken =>
    split_ifs at h <;> cases h <;> exact ⟨hrec', hfwd, nofun, fun _ => hidle trivial, htrig⟩
  case resting | marking =>
    cases h
    exact ⟨hrec', hfwd, nofun, fun _ => hidle trivial, htrig⟩
  case asleep => cases h
  case splicing =>
    cases h
    rw [hidle trivial] at hfwd
    exact ⟨hrec', hfwd, fun _ => rfl, nofun, htrig⟩
  case clearing =>
    cases h
    refine ⟨hrec', ?_, nofun, nofun, htrig⟩
    rw [hfwd, hcopied hpc]
    simp [State.taken, State.done]
  case unlocking =>
    cases h
    exact ⟨hrec', hfwd, nofun, nofun, htrig⟩
  case merging =>
    cases h
    refine ⟨hrec', hfwd, nofun, nofun, ?_⟩
    simp only [DispatcherPc.due, DispatcherPc.begun, List.append_nil] at htrig ⊢
    rw [htrig]
  case servicing conf due =>
    cases due with
    | nil =>
      cases h
      refine ⟨hrec', ?_, nofun, fun _ => rfl, ?_⟩
      · rw [hfwd]
        simp [State.taken, State.done]
      · simp only [DispatcherPc.due, DispatcherPc.begun, List.append_nil] at htrig ⊢
        rw [htrig]
        simp
    | cons uev due =>
      cases h
      refine ⟨hrec', hfwd, nofun, nofun, ?_⟩
      simpa [DispatcherPc.due, DispatcherPc.begun] using htrig

theorem step_conserved {e : Event} (hx : Exclusive s.inside s.owner) (h : step s e = some s')
    (hc : Conserved received s) : Conserved (received ++ receivedOf [e]) s' := by
  cases e with
  | receive uev =>
    dsimp only [step] at h
    split_ifs at h with hpc
    cases h
    exact receive_conserved uev hpc hc
  | listener =>
    rw [receivedOf, List.filterMap_cons_none rfl, List.filterMap_nil, List.append_nil]
    exact listenerStep_conserved hx h hc
  | dispatcher conf =>
    rw [receivedOf, List.filterMap_cons_none rfl, List.filterMap_nil, List.append_nil]
    exact dispatcherStep_conserved h hc
  | spurious =>
    rw [receivedOf, List.filterMap_cons_none rfl, List.filterMap_nil, List.append_nil]
    dsimp only [step] at h
    split at h <;> cases h
    next hpc =>
      obtain ⟨hrec, hfwd, -, hidle, htrig⟩ := hc
      rw [State.taken, hpc] at hfwd
      rw [hpc] at hidle htrig
      exact ⟨hrec, hfwd, nofun, fun _ => hidle trivial, htrig⟩
  | caller i =>
    rw [receivedOf, List.filterMap_cons_none rfl, List.filterMap_nil, List.append_nil]
    obtain ⟨r, -, rfl⟩ := Option.map_eq_some_iff.mp h
    obtain ⟨hrec, hfwd, hcopied, hidle, htrig⟩ := hc
    exact ⟨hrec, hfwd, hcopied, hidle, htrig⟩

theorem step_alert {e : Event} (h : step s e = some s') (ha : Alert s) : Alert s' := by
  obtain ⟨hflag, hwoken⟩ := ha
  cases e with
  | receive uev =>
    dsimp only [step] at h
    split_ifs at h
    cases h
    exact ⟨hflag, hwoken⟩
  | listener =>
    dsimp only [step] at h
    unfold listenerStep at h
    cases hpc : s.listener <;> rw [hpc] at h hwoken <;> dsimp only at h
    case polling | forwarding =>
      split_ifs at h
      cases h
      exact ⟨hflag, fun hd => .inl (by simpa using hwoken hd)⟩
    case splicing =>
      cases h
      exact ⟨hflag, fun _ => .inr (.inl rfl)⟩
    case clearing =>
      cases h
      exact ⟨hflag, fun _ => .inr (.inr rfl)⟩
    case signalling =>
      cases h
      exact ⟨by simpa using hflag, fun hd => absurd hd (wake_ne_asleep _)⟩
    case unlocking =>
      cases h
      exact ⟨hflag, fun hd => .inl (by simpa using hwoken hd)⟩
  | dispatcher conf =>
    dsimp only [step] at h
    unfold dispatcherStep at h
    cases hpc : s.dispatcher <;> rw [hpc] at h hflag <;> try dsimp only at h
    case testing =>
      split_ifs at h with hempty <;> cases h
      · exact ⟨nofun, fun _ => .inl hempty⟩
      · exact ⟨nofun, nofun⟩
    case locking | woken =>
      split_ifs at h
      cases h
      exact ⟨nofun, nofun⟩
    case resting =>
      cases h
      exact ⟨nofun, nofun⟩
    case asleep => cases h
    case marking =>
      cases h
      exact ⟨fun _ => rfl, nofun⟩
    case splicing | clearing | unlocking | merging =>
      cases h
      exact ⟨fun _ => hflag trivial, nofun⟩
    case servicing conf due =>
      cases due <;> cases h
      · exact ⟨nofun, nofun⟩
      · exact ⟨fun _ => hflag trivial, nofun⟩
  | spurious =>
    dsimp only [step] at h
    split at h <;> cases h
    exact ⟨nofun, nofun⟩
  | caller i =>
    obtain ⟨r, -, rfl⟩ := Option.map_eq_some_iff.mp h
    exact ⟨hflag, hwoken⟩

/-- What is known stays true while more events are forwarded, taken and serviced. -/
theorem CallerPc.Knows.mono {pc : CallerPc} (h : pc.Knows s)
    (hfwd : s.forwarded.length ≤ s'.forwarded.length)
    (htaken : (s.done ++ s.taken).length ≤ (s'.done ++ s'.taken).length)
    (hdone : s.done.length ≤ s'.done.length) : pc.Knows s' := by
  cases pc with
  | outside | locking => trivial
  | testing before => exact h.trans hfwd
  | unlocking before empty | asking before empty => exact fun he => (h he).trans htaken
  | returned before busy => exact fun hb => (h hb).trans hdone

theorem listenerStep_knows {pc : CallerPc} (h : listenerStep s = some s') (hk : pc.Knows s) :
    pc.Knows s' := by
  obtain ⟨-, htmp, -, -, hserviced, hdisp⟩ := listenerStep_frame h
  have hdone : s'.done = s.done := by rw [State.done, hserviced, State.done]
  have htaken : s'.taken = s.taken := by
    obtain hdisp | hdisp := hdisp <;> rw [State.taken, State.taken, hdisp, htmp]
    cases s.dispatcher <;> rfl
  apply hk.mono
  · unfold listenerStep at h
    cases hpc : s.listener <;> rw [hpc] at h <;> dsimp only at h
    case polling | forwarding =>
      split_ifs at h
      cases h
      exact le_rfl
    case splicing =>
      cases h
      simp
    all_goals
      cases h
      exact le_rfl
  · rw [hdone, htaken]
  · rw [hdone]

theorem dispatcherStep_knows {pc : CallerPc} (h : dispatcherStep s conf = some s')
    (hc : Conserved received s) (hk : pc.Knows s) : pc.Knows s' := by
  obtain ⟨-, -, -, hforward⟩ := dispatcherStep_frame h
  apply hk.mono
  · rw [hforward]
  · -- what is forwarded is taken or in the queue, which does not grow
    have hidle := hc.idle
    unfold dispatcherStep at h
    rw [State.taken, State.taken]
    cases hpc : s.dispatcher <;> rw [hpc] at h hidle <;> try dsimp only at h
    case locking | testing | woken => split_ifs at h <;> cases h <;> exact le_rfl
    case asleep => cases h
    case splicing =>
      cases h
      rw [hidle trivial]
      exact le_rfl
    case clearing =>
      cases h
      simp [State.done]
    case servicing conf due =>
      cases due <;> cases h <;> simp [State.done]
    all_goals
      cases h
      exact le_rfl
  · unfold dispatcherStep at h
    cases hpc : s.dispatcher <;> rw [hpc] at h <;> try dsimp only at h
    case locking | testing | woken => split_ifs at h <;> cases h <;> exact le_rfl
    case asleep => cases h
    case servicing conf due =>
      cases due <;> cases h <;> simp [State.done]
    all_goals
      cases h
      exact le_rfl

theorem next_knows {pc' : CallerPc} {owner : Option Thread} (hc : Conserved received s) (ha : Alert s)
    (hnext : (s.caller i).next s i = some (pc', owner)) (hk : (s.caller i).Knows s) : pc'.Knows s := by
  cases hpc : s.caller i <;> rw [hpc] at hnext hk <;> dsimp only [CallerPc.next] at hnext
  case outside | returned =>
    cases hnext
    trivial
  case locking =>
    split_ifs at hnext
    cases hnext
    exact le_rfl
  case testing before =>
    cases hnext
    intro hempty
    have hqueue : s.uevq = [] := of_decide_eq_true hempty
    rwa [CallerPc.Knows, hc.forwarded, hqueue, List.append_nil] at hk
  case unlocking before empty =>
    cases hnext
    exact hk
  case asking before empty =>
    cases hnext
    intro hbusy
    obtain ⟨hempty, hflag⟩ := Bool.or_eq_false_iff.mp hbusy
    -- the dispatcher has nothing in its hands
    have htaken : s.taken = [] := by
      have hidle := hc.idle
      have hflagged := ha.flagged
      rw [hflag] at hflagged
      unfold State.taken
      cases hd : s.dispatcher <;> rw [hd] at hidle hflagged
      case splicing | unlocking | merging | servicing => cases hflagged trivial
      all_goals exact hidle trivial
    have hbefore := hk (Bool.not_eq_eq_eq_not.mp hempty)
    rwa [htaken, List.append_nil] at hbefore

/-- The lock excludes, no event is lost, no wakeup is lost, and the callers know what they say. -/
structure Inv (received : List Uevent) (s : State) : Prop where
  exclusive : Exclusive s.inside s.owner
  conserved : Conserved received s
  alert : Alert s
  knows : ∀ i, (s.caller i).Knows s

theorem inv_init : Inv [] {} where
  exclusive := exclusive_none fun t => by cases t <;> exact id
  conserved := ⟨rfl, rfl, nofun, fun _ => rfl, rfl⟩
  alert := ⟨nofun, nofun⟩
  knows _ := trivial

theorem step_inv {e : Event} (h : step s e = some s') (hs : Inv received s) :
    Inv (received ++ receivedOf [e]) s' := by
  obtain ⟨hx, hc, ha, hk⟩ := hs
  refine ⟨step_exclusive h hx, step_conserved hx h hc, step_alert h ha, fun j => ?_⟩
  cases e with
  | receive uev =>
    dsimp only [step] at h
    split_ifs at h
    cases h
    exact (hk j).mono le_rfl le_rfl le_rfl
  | listener =>
    obtain ⟨-, -, hcaller, -⟩ := listenerStep_frame h
    rw [hcaller]
    exact listenerStep_knows h (hk j)
  | dispatcher conf =>
    obtain ⟨-, -, hcaller, -⟩ := dispatcherStep_frame h
    rw [hcaller]
    exact dispatcherStep_knows h hc (hk j)
  | spurious =>
    dsimp only [step] at h
    split at h <;> cases h
    next hpc =>
      have htaken : s.taken = State.taken { s with dispatcher := .woken } := by
        rw [State.taken, State.taken, hpc]
      have hgone : (s.done ++ s.taken).length ≤
          (s.done ++ State.taken { s with dispatcher := .woken }).length := by
        rw [htaken]
      exact (hk j).mono le_rfl hgone le_rfl
  | caller i =>
    obtain ⟨⟨pc, owner⟩, hnext, rfl⟩ := Option.map_eq_some_iff.mp h
    have hknows : (Function.update s.caller i pc j).Knows s := by
      by_cases hj : j = i
      · rw [hj, Function.update_self]
        exact next_knows hc ha hnext (hk i)
      · rw [Function.update_of_ne hj]
        exact hk j
    exact hknows.mono le_rfl le_rfl le_rfl

theorem run_inv {events : List Event} (h : run step s events = some s') (hs : Inv received s) :
    Inv (received ++ receivedOf events) s' := by
  induction events generalizing s received with
  | nil =>
    cases h
    rw [receivedOf, List.filterMap_nil, List.append_nil]
    exact hs
  | cons e events ih =>
    obtain ⟨t, hstep, hrun⟩ := Option.bind_eq_some_iff.mp h
    have hrest := ih hrun (step_inv hstep hs)
    rwa [List.append_assoc, receivedOf, receivedOf, ← List.filterMap_append] at hrest

/-- In every run: the events are in order serviced to their end, in the hands of the dispatcher, in the
queue, and still with the listener. `uev_trigger` has handled those of the serviced lists and of a
part of the list at hand, each list in its order. Where `is_uevent_busy` says no, all that had been
forwarded when it was called has been serviced. -/
theorem run_uevents {events : List Event} {s : State} (h : run step {} events = some s) :
    receivedOf events = s.done ++ s.taken ++ s.uevq ++ s.unforwarded ∧
      s.triggered ++ s.dispatcher.due =
        s.serviced.flatMap batchOrder ++ s.dispatcher.begun s.uevqTmp ∧
      ∀ i before, s.caller i = .returned before false → before ≤ s.done.length := by
  obtain ⟨-, hc, -, hk⟩ := run_inv h inv_init
  rw [List.nil_append] at hc
  refine ⟨?_, hc.triggered, fun i before hpc => ?_⟩
  · rw [← hc.forwarded]
    exact hc.received
  · have hknows := hk i
    rw [hpc] at hknows
    exact hknows rfl

/-- An event is forwarded to the dispatcher, which was asleep. -/
def sampleEvents : List Event :=
  let conf : UeventConfig := ⟨[], fun _ => 0⟩
  [.dispatcher conf, .dispatcher conf, .dispatcher conf,
    .receive { action := "add".toList, kernel := "sda".toList },
    .listener, .listener, .listener, .listener, .listener, .caller 0, .listener, .caller 0,
    .caller 0, .caller 0, .caller 0, .dispatcher conf, .dispatcher conf, .dispatcher conf]

theorem run_uevents_sample : ∃ s, run step {} sampleEvents = some s ∧
    s.caller 0 = .returned 1 true ∧ receivedOf sampleEvents = s.done ++ s.taken ++ s.uevq ++ s.unforwarded :=
  ⟨_, rfl, rfl, (run_uevents rfl).1⟩

end Invariant

end MultipathTools.Uevents
