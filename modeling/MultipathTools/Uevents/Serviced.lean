import MultipathTools.Uevents.Forwarded

/-! Every event that has been received is serviced, without help from a spurious wakeup. -/
namespace MultipathTools.Uevents

section Progress
variable {s : State} {conf : UeventConfig}

/-- A step that a thread takes by itself, with the configuration `conf`: nothing is received, and
nobody wakes up unless he has been told to. -/
def Event.own (conf : UeventConfig) : Event → Prop
  | .listener | .caller _ => True
  | .dispatcher conf' => conf' = conf
  | .receive _ | .spurious => False

theorem receivedOf_own {events : List Event} (h : ∀ e ∈ events, e.own conf) :
    receivedOf events = [] := by
  apply List.filterMap_eq_nil_iff.mpr
  intro e he
  have hown := h e he
  cases e with
  | receive => cases hown
  | _ => rfl

/-- The dispatcher has nothing to do, and nobody holds the lock. -/
def Quiet (s : State) : Prop := s.dispatcher.idle ∧ s.uevq = [] ∧ s.owner = none

/-- Steps lead to a state in which the dispatcher has nothing to do, and the listener is where it was. -/
def Rests (conf : UeventConfig) (s : State) : Prop :=
  ∃ t, Leads step (Event.own conf) s t ∧ Quiet t ∧ t.listener = s.listener ∧
    t.uevlistenTmp = s.uevlistenTmp

theorem Quiet.rests (h : Quiet s) : Rests conf s := ⟨s, .refl s, h, rfl, rfl⟩

theorem Rests.head {s' : State} (hrest : Rests conf s') (h : dispatcherStep s conf = some s') :
    Rests conf s := by
  obtain ⟨t, hleads, hquiet, hlistener, htmp⟩ := hrest
  obtain ⟨hlistener', htmp', -⟩ := dispatcherStep_frame h
  have hstep : step s (.dispatcher conf) = some s' := h
  exact ⟨t, .head hstep rfl hleads, hquiet, hlistener.trans hlistener', htmp.trans htmp'⟩

/-- The dispatcher comes back to the lock with what is in the queue then. -/
theorem rests_servicing {conf' : UeventConfig} {due : List Uevent}
    (hpc : s.dispatcher = .servicing conf' due) (howner : s.owner = none)
    (hlock : ∀ t, t.dispatcher = .locking → t.owner = none → t.uevq = s.uevq → Rests conf t) :
    Rests conf s := by
  induction due generalizing s with
  | nil =>
    apply (hlock { s with
      serviced := s.serviced ++ [(conf', s.uevqTmp)]
      uevqTmp := []
      dispatcher := .locking } rfl howner rfl).head
    rw [dispatcherStep, hpc]
  | cons uev due ih =>
    have hrest := @ih { s with triggered := s.triggered ++ [uev], dispatcher := .servicing conf' due }
      rfl howner hlock
    apply hrest.head
    rw [dispatcherStep, hpc]

theorem rests_merging (hpc : s.dispatcher = .merging) (howner : s.owner = none)
    (hlock : ∀ t, t.dispatcher = .locking → t.owner = none → t.uevq = s.uevq → Rests conf t) :
    Rests conf s := by
  have hrest : Rests conf { s with dispatcher := .servicing conf (batchOrder (conf, s.uevqTmp)) } :=
    rests_servicing rfl howner hlock
  apply hrest.head
  rw [dispatcherStep, hpc]

theorem rests_unlocking (hpc : s.dispatcher = .unlocking)
    (hlock : ∀ t, t.dispatcher = .locking → t.owner = none → t.uevq = s.uevq → Rests conf t) :
    Rests conf s := by
  have hrest : Rests conf { s with owner := none, dispatcher := .merging } :=
    rests_merging rfl rfl hlock
  apply hrest.head
  rw [dispatcherStep, hpc]

theorem rests_clearing (hpc : s.dispatcher = .clearing) : Rests conf s := by
  have hrest : Rests conf { s with uevq := [], dispatcher := .unlocking } := by
    apply rests_unlocking rfl
    intro t hdisp howner hempty
    apply Quiet.rests
    refine ⟨?_, hempty, howner⟩
    rw [hdisp]
    trivial
  apply hrest.head
  rw [dispatcherStep, hpc]

theorem rests_splicing (hpc : s.dispatcher = .splicing) : Rests conf s := by
  have hrest : Rests conf { s with uevqTmp := s.uevq, dispatcher := .clearing } := rests_clearing rfl
  apply hrest.head
  rw [dispatcherStep, hpc]

theorem rests_marking (hpc : s.dispatcher = .marking) : Rests conf s := by
  have hrest : Rests conf { s with servicingUev := true, dispatcher := .splicing } := rests_splicing rfl
  apply hrest.head
  rw [dispatcherStep, hpc]

theorem rests_testing (hpc : s.dispatcher = .testing) : Rests conf s := by
  by_cases hempty : s.uevq = []
  · have hquiet : Quiet { s with owner := none, dispatcher := .asleep } := ⟨trivial, hempty, rfl⟩
    apply hquiet.rests.head
    rw [dispatcherStep, hpc]
    exact if_pos hempty
  · have hrest : Rests conf { s with dispatcher := .marking } := rests_marking rfl
    apply hrest.head
    rw [dispatcherStep, hpc]
    exact if_neg hempty

theorem rests_resting (hpc : s.dispatcher = .resting) : Rests conf s := by
  have hrest : Rests conf { s with servicingUev := false, dispatcher := .testing } := rests_testing rfl
  apply hrest.head
  rw [dispatcherStep, hpc]

theorem rests_locking (hpc : s.dispatcher = .locking) (howner : s.owner = none) : Rests conf s := by
  have hrest : Rests conf { s with owner := some .dispatcher, dispatcher := .resting } :=
    rests_resting rfl
  apply hrest.head
  rw [dispatcherStep, hpc]
  exact if_pos howner

/-- The dispatcher comes to rest if it gets the lock and has not slept through a signal. -/
theorem rests (howner : ¬ s.dispatcher.inside → s.owner = none)
    (hsleep : s.dispatcher = .asleep → s.uevq = []) : Rests conf s := by
  cases hpc : s.dispatcher <;> rw [hpc] at howner
  case locking => exact rests_locking hpc (howner id)
  case resting => exact rests_resting hpc
  case testing => exact rests_testing hpc
  case asleep =>
    apply Quiet.rests
    refine ⟨?_, hsleep hpc, howner id⟩
    rw [hpc]
    trivial
  case woken =>
    have hrest : Rests conf { s with owner := some .dispatcher, dispatcher := .marking } :=
      rests_marking rfl
    apply hrest.head
    rw [dispatcherStep, hpc]
    exact if_pos (howner id)
  case marking => exact rests_marking hpc
  case splicing => exact rests_splicing hpc
  case clearing => exact rests_clearing hpc
  case unlocking => exact rests_unlocking hpc fun t hdisp hown _ => rests_locking hdisp hown
  case merging => exact rests_merging hpc (howner id) fun t hdisp hown _ => rests_locking hdisp hown
  case servicing =>
    exact rests_servicing hpc (howner id) fun t hdisp hown _ => rests_locking hdisp hown

/-- Steps of the listener lead to a state in which it has forwarded what it had. -/
def Forwards (conf : UeventConfig) (s : State) : Prop :=
  ∃ t, Leads step (Event.own conf) s t ∧ t.listener = .polling ∧ t.uevlistenTmp = [] ∧ t.owner = none

theorem Forwards.head {s' : State} (hrest : Forwards conf s') (h : listenerStep s = some s') :
    Forwards conf s := by
  obtain ⟨t, hleads, ht⟩ := hrest
  have hstep : step s .listener = some s' := h
  exact ⟨t, .head hstep trivial hleads, ht⟩

/-- The listener forwards what it has, if it gets the lock. -/
theorem forwards (howner : ¬ s.listener.inside → s.owner = none) : Forwards conf s := by
  have hunlocking (s : State) (hpc : s.listener = .unlocking)
      (hrest : Forwards conf { s with owner := none, listener := .polling }) : Forwards conf s := by
    apply hrest.head
    rw [listenerStep, hpc]
  have hsignalling (s : State) (hpc : s.listener = .signalling) (hrest : Forwards conf { s with
      dispatcher := s.dispatcher.wake, owner := none, listener := .polling }) : Forwards conf s := by
    apply (hunlocking { s with dispatcher := s.dispatcher.wake, listener := .unlocking } rfl hrest).head
    rw [listenerStep, hpc]
  have hclearing (s : State) (hpc : s.listener = .clearing) : Forwards conf s := by
    apply (hsignalling { s with uevlistenTmp := [], listener := .signalling } rfl
      ⟨_, .refl _, rfl, rfl, rfl⟩).head
    rw [listenerStep, hpc]
  have hsplicing (s : State) (hpc : s.listener = .splicing) : Forwards conf s := by
    apply (hclearing { s with
      uevq := s.uevq ++ s.uevlistenTmp
      forwarded := s.forwarded ++ s.uevlistenTmp
      listener := .clearing } rfl).head
    rw [listenerStep, hpc]
  have hforwarding (s : State) (hpc : s.listener = .forwarding) (howner : s.owner = none) :
      Forwards conf s := by
    apply (hsplicing { s with owner := some .listener, listener := .splicing } rfl).head
    rw [listenerStep, hpc]
    exact if_pos howner
  have hpolling (s : State) (hpc : s.listener = .polling) (howner : s.owner = none) :
      Forwards conf s := by
    by_cases hempty : s.uevlistenTmp = []
    · exact ⟨s, .refl s, hpc, hempty, howner⟩
    · apply (hforwarding { s with listener := .forwarding } rfl howner).head
      rw [listenerStep, hpc]
      exact if_neg hempty
  cases hpc : s.listener <;> rw [hpc] at howner
  case polling => exact hpolling s hpc (howner id)
  case forwarding => exact hforwarding s hpc (howner id)
  case splicing => exact hsplicing s hpc
  case clearing => exact hclearing s hpc
  case signalling => exact hsignalling s hpc (hpolling _ rfl rfl)
  case unlocking => exact hunlocking s hpc (hpolling _ rfl rfl)

/-- A call of `is_uevent_busy` gives the lock back. -/
theorem leads_caller {i : ℕ} (hin : (s.caller i).inside) :
    ∃ t, Leads step (Event.own conf) s t ∧ t.owner = none := by
  have hunlocking (s : State) (before : ℕ) (empty : Bool) (hpc : s.caller i = .unlocking before empty) :
      ∃ t, Leads step (Event.own conf) s t ∧ t.owner = none := by
    have hstep : step s (.caller i) =
        some { s with caller := Function.update s.caller i (.asking before empty), owner := none } := by
      show callerStep s i = _
      rw [callerStep, hpc]
      rfl
    exact ⟨_, .head hstep trivial (.refl _), rfl⟩
  cases hpc : s.caller i <;> rw [hpc] at hin
  case testing before =>
    have hstep : step s (.caller i) = some { s with
        caller := Function.update s.caller i (.unlocking before (s.uevq = [])), owner := s.owner } := by
      show callerStep s i = _
      rw [callerStep, hpc]
      rfl
    obtain ⟨t, hleads, ht⟩ := hunlocking
      { s with caller := Function.update s.caller i (.unlocking before (s.uevq = [])) } before _
      (Function.update_self _ _ _)
    exact ⟨t, .head hstep trivial hleads, ht⟩
  case unlocking before empty => exact hunlocking s before empty hpc
  all_goals cases hin

/-- Who holds the lock gives it back. -/
theorem leads_unlocked (hx : Exclusive s.inside s.owner) :
    ∃ t, Leads step (Event.own conf) s t ∧ t.owner = none := by
  cases howner : s.owner with
  | none => exact ⟨s, .refl s, howner⟩
  | some u =>
    have hin : s.inside u := (hx u).mpr howner
    cases u with
    | listener =>
      obtain ⟨t, hleads, -, -, ht⟩ := @forwards s conf fun hout => absurd hin hout
      exact ⟨t, hleads, ht⟩
    | dispatcher =>
      have hawake (hpc : s.dispatcher = .asleep) : s.uevq = [] := by
        change s.dispatcher.inside at hin
        rw [hpc] at hin
        cases hin
      obtain ⟨t, hleads, ⟨-, -, ht⟩, -⟩ := @rests s conf (fun hout => absurd hin hout) hawake
      exact ⟨t, hleads, ht⟩
    | caller i => exact leads_caller hin

theorem leads_inv {received : List Uevent} {t : State} (h : Leads step (Event.own conf) s t)
    (hs : Inv received s) : Inv received t := by
  obtain ⟨more, hown, hrun⟩ := h
  have ht := run_inv hrun hs
  rwa [receivedOf_own hown, List.append_nil] at ht

/-- In every run: the threads can go on by themselves until all that has been received is serviced. No
thread waits for one that waits for it, and the dispatcher is woken while there is something to do. -/
theorem run_serviced {events : List Event} (h : run step {} events = some s) (conf : UeventConfig) :
    ∃ t, Leads step (Event.own conf) s t ∧ t.done = receivedOf events ∧
      t.triggered = t.serviced.flatMap batchOrder := by
  have hs := run_inv h inv_init
  rw [List.nil_append] at hs
  obtain ⟨t₁, hleads₁, howner₁⟩ := @leads_unlocked s conf hs.exclusive
  obtain ⟨t₂, hleads₂, hpolling, htmp, howner₂⟩ := @forwards t₁ conf fun _ => howner₁
  have hleads := hleads₁.trans hleads₂
  have hsleep (hpc : t₂.dispatcher = .asleep) : t₂.uevq = [] := by
    have hwoken := (leads_inv hleads hs).alert.woken hpc
    rw [hpolling] at hwoken
    simpa using hwoken
  obtain ⟨t, hleads₃, ⟨hidle, hempty, -⟩, hlistener, htmp₃⟩ := @rests t₂ conf (fun _ => howner₂) hsleep
  have hc := (leads_inv (hleads.trans hleads₃) hs).conserved
  have hlist := hc.idle hidle
  refine ⟨t, hleads.trans hleads₃, ?_, ?_⟩
  · have hunforwarded : t.unforwarded = [] := by
      rw [State.unforwarded, hlistener, hpolling]
      exact htmp₃.trans htmp
    have htaken : t.taken = [] := by
      rw [State.taken, hlist]
      cases t.dispatcher <;> rfl
    rw [hc.received, hc.forwarded, htaken, hempty, hunforwarded]
    simp
  · have htrig := hc.triggered
    revert hidle htrig
    cases t.dispatcher <;> simp [DispatcherPc.idle, DispatcherPc.due, DispatcherPc.begun]

/-- An event is put into the queue; the dispatcher is asleep and has not been woken yet. -/
def sleepingEvents : List Event :=
  let conf : UeventConfig := ⟨[], fun _ => 0⟩
  [.dispatcher conf, .dispatcher conf, .dispatcher conf,
    .receive { action := "add".toList, kernel := "sda".toList },
    .listener, .listener, .listener, .listener]

theorem run_serviced_sample : ∃ s t, run step {} sleepingEvents = some s ∧ s.dispatcher = .asleep ∧
    Leads step (Event.own ⟨[], fun _ => 0⟩) s t ∧
      t.done = [{ action := "add".toList, kernel := "sda".toList }] := by
  obtain ⟨t, hleads, hdone, -⟩ := @run_serviced _ sleepingEvents rfl ⟨[], fun _ => 0⟩
  exact ⟨_, t, rfl, rfl, hleads, hdone⟩

end Progress

end MultipathTools.Uevents
