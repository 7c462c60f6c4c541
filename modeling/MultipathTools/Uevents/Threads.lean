import MultipathTools.Base.Monitor
import MultipathTools.Base.Run
import MultipathTools.Uevents.Queue

/-! The threads that share the uevent queue: the one that listens, the one that services, and
those that ask whether there is anything to do (`uevent.c`). A step is what a thread does
between two points at which another one can see it. -/
namespace MultipathTools.Uevents

inductive Thread where
  | listener | dispatcher | caller (i : ℕ)
  deriving DecidableEq, Repr

/-- Where `uevent_listen` is. -/
inductive ListenerPc where
  | polling
  /-- At `pthread_mutex_lock`. -/
  | forwarding
  /-- At the two parts of `list_splice_tail_init`. -/
  | splicing | clearing
  | signalling | unlocking
  deriving DecidableEq, Repr

/-- Where `uevent_dispatch` is. -/
inductive DispatcherPc where
  /-- At `pthread_mutex_lock`. -/
  | locking
  /-- At `servicing_uev = 0`. -/
  | resting
  | testing
  /-- In `pthread_cond_wait`: before and after it has been woken. -/
  | asleep | woken
  /-- At `servicing_uev = 1`. -/
  | marking
  /-- At the two parts of `list_splice_init`. -/
  | splicing | clearing
  | unlocking
  /-- At `merge_uevq`. -/
  | merging
  /-- In `service_uevq`, with the events that `uev_trigger` has not handled yet. -/
  | servicing (conf : UeventConfig) (due : List Uevent)

/-- Where a call of `is_uevent_busy` is. `before` is how many events had been forwarded when it took
the lock. -/
inductive CallerPc where
  | outside | locking
  | testing (before : ℕ)
  | unlocking (before : ℕ) (empty : Bool)
  /-- At the read of `servicing_uev`. -/
  | asking (before : ℕ) (empty : Bool)
  | returned (before : ℕ) (busy : Bool)
  deriving DecidableEq, Repr

/-- The queue, its lock and the threads. `forwarded`, `triggered` and `serviced` are what has
happened: the events put into the queue, those handled by `uev_trigger`, and the lists that have been
serviced to their end, each with the configuration it was merged with. -/
structure State where
  owner : Option Thread := none
  uevq : List Uevent := []
  servicingUev : Bool := false
  uevlistenTmp : List Uevent := []
  uevqTmp : List Uevent := []
  listener : ListenerPc := .polling
  dispatcher : DispatcherPc := .locking
  caller : ℕ → CallerPc := fun _ => .outside
  forwarded : List Uevent := []
  triggered : List Uevent := []
  serviced : List (UeventConfig × List Uevent) := []

/-- How the events of a list are serviced, which is in the order of reception. -/
def batchOrder (batch : UeventConfig × List Uevent) : List Uevent :=
  serviceUevq (mergeUevq batch.1 batch.2.reverse)

/-- `pthread_cond_signal`, on which only the dispatcher waits. -/
def DispatcherPc.wake : DispatcherPc → DispatcherPc
  | .asleep => .woken
  | pc => pc

/-- The next step of `uevent_listen` that is not the reception of an event. From `poll` it goes on
when no event comes in time. -/
def listenerStep (s : State) : Option State :=
  match s.listener with
  | .polling => if s.uevlistenTmp = [] then none else some { s with listener := .forwarding }
  | .forwarding =>
    if s.owner = none then some { s with owner := some .listener, listener := .splicing } else none
  | .splicing => some { s with
      uevq := s.uevq ++ s.uevlistenTmp
      forwarded := s.forwarded ++ s.uevlistenTmp
      listener := .clearing }
  | .clearing => some { s with uevlistenTmp := [], listener := .signalling }
  | .signalling => some { s with dispatcher := s.dispatcher.wake, listener := .unlocking }
  | .unlocking => some { s with owner := none, listener := .polling }

/-- The next step of `uevent_dispatch`; `conf` is the configuration of this moment. -/
def dispatcherStep (s : State) (conf : UeventConfig) : Option State :=
  match s.dispatcher with
  | .locking =>
    if s.owner = none then some { s with owner := some .dispatcher, dispatcher := .resting } else none
  | .resting => some { s with servicingUev := false, dispatcher := .testing }
  | .testing =>
    if s.uevq = [] then some { s with owner := none, dispatcher := .asleep }
    else some { s with dispatcher := .marking }
  | .asleep => none
  | .woken =>
    if s.owner = none then some { s with owner := some .dispatcher, dispatcher := .marking } else none
  | .marking => some { s with servicingUev := true, dispatcher := .splicing }
  | .splicing => some { s with uevqTmp := s.uevq, dispatcher := .clearing }
  | .clearing => some { s with uevq := [], dispatcher := .unlocking }
  | .unlocking => some { s with owner := none, dispatcher := .merging }
  | .merging => some { s with dispatcher := .servicing conf (batchOrder (conf, s.uevqTmp)) }
  | .servicing conf [] => some { s with
      serviced := s.serviced ++ [(conf, s.uevqTmp)]
      uevqTmp := []
      dispatcher := .locking }
  | .servicing conf (uev :: due) => some { s with
      triggered := s.triggered ++ [uev]
      dispatcher := .servicing conf due }

/-- The next step of a call of `is_uevent_busy`, with the owner of the lock behind it. -/
def CallerPc.next (s : State) (i : ℕ) : CallerPc → Option (CallerPc × Option Thread)
  | .outside => some (.locking, s.owner)
  | .locking =>
    if s.owner = none then some (.testing s.forwarded.length, some (.caller i)) else none
  | .testing before => some (.unlocking before (s.uevq = []), s.owner)
  | .unlocking before empty => some (.asking before empty, none)
  | .asking before empty => some (.returned before (!empty || s.servicingUev), s.owner)
  | .returned _ _ => some (.outside, s.owner)

def callerStep (s : State) (i : ℕ) : Option State :=
  ((s.caller i).next s i).map fun r =>
    { s with caller := Function.update s.caller i r.1, owner := r.2 }

/-- A step of a thread, the reception of an event, or a wakeup without a signal. -/
inductive Event where
  | receive (uev : Uevent)
  | listener
  | dispatcher (conf : UeventConfig)
  | spurious
  | caller (i : ℕ)

def step (s : State) : Event → Option State
  | .receive uev =>
    if s.listener = .polling then some { s with uevlistenTmp := s.uevlistenTmp ++ [uev] } else none
  | .listener => listenerStep s
  | .dispatcher conf => dispatcherStep s conf
  | .spurious =>
    match s.dispatcher with
    | .asleep => some { s with dispatcher := .woken }
    | _ => none
  | .caller i => callerStep s i

/-- The events that are received in a run. -/
def receivedOf (events : List Event) : List Uevent :=
  events.filterMap fun
    | .receive uev => some uev
    | _ => none

section Places

def ListenerPc.inside : ListenerPc → Prop
  | .polling | .forwarding => False
  | .splicing | .clearing | .signalling | .unlocking => True

def DispatcherPc.inside : DispatcherPc → Prop
  | .resting | .testing | .marking | .splicing | .clearing | .unlocking => True
  | .locking | .asleep | .woken | .merging | .servicing _ _ => False

def CallerPc.inside : CallerPc → Prop
  | .testing _ | .unlocking _ _ => True
  | .outside | .locking | .asking _ _ | .returned _ _ => False

/-- The thread is between `pthread_mutex_lock` and `pthread_mutex_unlock`. -/
def State.inside (s : State) : Thread → Prop
  | .listener => s.listener.inside
  | .dispatcher => s.dispatcher.inside
  | .caller i => (s.caller i).inside

/-- The events that the listener has not put into the queue. -/
def State.unforwarded (s : State) : List Uevent :=
  match s.listener with
  | .clearing => []
  | _ => s.uevlistenTmp

/-- The events that the dispatcher has taken out of the queue. -/
def State.taken (s : State) : List Uevent :=
  match s.dispatcher with
  | .clearing => []
  | _ => s.uevqTmp

/-- The events of the lists that have been serviced. -/
def State.done (s : State) : List Uevent := s.serviced.flatMap Prod.snd

/-- The events of the list that is being serviced, in the order of service. -/
def DispatcherPc.begun (uevqTmp : List Uevent) : DispatcherPc → List Uevent
  | .servicing conf _ => batchOrder (conf, uevqTmp)
  | _ => []

/-- Those of them that are still to be handled. -/
def DispatcherPc.due : DispatcherPc → List Uevent
  | .servicing _ due => due
  | _ => []

/-- The dispatcher has no list in its hands. -/
def DispatcherPc.idle : DispatcherPc → Prop
  | .locking | .resting | .testing | .asleep | .woken | .marking | .splicing => True
  | .clearing | .unlocking | .merging | .servicing _ _ => False

/-- The dispatcher has said that it has a list in its hands. -/
def DispatcherPc.busy : DispatcherPc → Prop
  | .splicing | .clearing | .unlocking | .merging | .servicing _ _ => True
  | .locking | .resting | .testing | .asleep | .woken | .marking => False

variable (pc : DispatcherPc)

@[simp] theorem wake_inside : pc.wake.inside ↔ pc.inside := by cases pc <;> rfl
@[simp] theorem wake_idle : pc.wake.idle ↔ pc.idle := by cases pc <;> rfl
@[simp] theorem wake_busy : pc.wake.busy ↔ pc.busy := by cases pc <;> rfl
@[simp] theorem wake_due : pc.wake.due = pc.due := by cases pc <;> rfl
@[simp] theorem wake_ne_asleep : pc.wake ≠ .asleep := by cases pc <;> nofun
@[simp] theorem wake_begun (l : List Uevent) : pc.wake.begun l = pc.begun l := by cases pc <;> rfl

@[simp] theorem wake_eq_clearing : pc.wake = .clearing ↔ pc = .clearing := by
  cases pc <;> simp [DispatcherPc.wake]

end Places

section Steps
variable {s s' : State} {conf : UeventConfig} {i : ℕ}

/-- What a step of the listener leaves alone: of the dispatcher it only knows how to wake it. -/
theorem listenerStep_frame (h : listenerStep s = some s') :
    s'.servicingUev = s.servicingUev ∧ s'.uevqTmp = s.uevqTmp ∧ s'.caller = s.caller ∧
      s'.triggered = s.triggered ∧ s'.serviced = s.serviced ∧
      (s'.dispatcher = s.dispatcher ∨ s'.dispatcher = s.dispatcher.wake) := by
  unfold listenerStep at h
  cases hpc : s.listener <;> rw [hpc] at h <;> dsimp only at h
  case polling | forwarding =>
    split_ifs at h
    cases h
    exact ⟨rfl, rfl, rfl, rfl, rfl, .inl rfl⟩
  case signalling =>
    cases h
    exact ⟨rfl, rfl, rfl, rfl, rfl, .inr rfl⟩
  all_goals
    cases h
    exact ⟨rfl, rfl, rfl, rfl, rfl, .inl rfl⟩

/-- What a step of the dispatcher leaves alone. -/
theorem dispatcherStep_frame (h : dispatcherStep s conf = some s') :
    s'.listener = s.listener ∧ s'.uevlistenTmp = s.uevlistenTmp ∧ s'.caller = s.caller ∧
      s'.forwarded = s.forwarded := by
  unfold dispatcherStep at h
  cases hpc : s.dispatcher <;> rw [hpc] at h <;> try dsimp only at h
  case locking | testing | woken =>
    split_ifs at h <;> cases h <;> exact ⟨rfl, rfl, rfl, rfl⟩
  case asleep => cases h
  case servicing conf due =>
    cases due <;> cases h <;> exact ⟨rfl, rfl, rfl, rfl⟩
  all_goals
    cases h
    exact ⟨rfl, rfl, rfl, rfl⟩

/-- The dispatcher wakes up, with or without a signal. -/
theorem exclusive_wake {dispatcher : DispatcherPc} (hx : Exclusive s.inside s.owner)
    (hdisp : dispatcher.inside ↔ s.dispatcher.inside) :
    Exclusive { s with dispatcher := dispatcher }.inside s.owner := by
  apply hx.step (t := .dispatcher)
  · intro u hu
    cases u with
    | dispatcher => exact absurd rfl hu
    | listener => rfl
    | caller i => rfl
  · exact .inl ⟨hdisp, rfl⟩

theorem listenerStep_exclusive (h : listenerStep s = some s') (hx : Exclusive s.inside s.owner) :
    Exclusive s'.inside s'.owner := by
  obtain ⟨-, -, hcaller, -, -, hdisp⟩ := listenerStep_frame h
  apply hx.step (t := .listener)
  · intro u hu
    cases u with
    | listener => exact absurd rfl hu
    | dispatcher =>
      show s'.dispatcher.inside ↔ s.dispatcher.inside
      obtain hdisp | hdisp := hdisp <;> rw [hdisp]
      exact wake_inside _
    | caller i =>
      show (s'.caller i).inside ↔ (s.caller i).inside
      rw [hcaller]
  · show LockStep s.listener.inside s'.listener.inside s.owner s'.owner .listener
    unfold listenerStep at h
    cases hpc : s.listener <;> rw [hpc] at h <;> dsimp only at h
    case polling | forwarding =>
      split_ifs at h
      cases h
      simp_all [LockStep, ListenerPc.inside]
    all_goals
      cases h
      simp [LockStep, ListenerPc.inside]

theorem dispatcherStep_exclusive (h : dispatcherStep s conf = some s')
    (hx : Exclusive s.inside s.owner) : Exclusive s'.inside s'.owner := by
  obtain ⟨hlistener, -, hcaller, -⟩ := dispatcherStep_frame h
  apply hx.step (t := .dispatcher)
  · intro u hu
    cases u with
    | dispatcher => exact absurd rfl hu
    | listener =>
      show s'.listener.inside ↔ s.listener.inside
      rw [hlistener]
    | caller i =>
      show (s'.caller i).inside ↔ (s.caller i).inside
      rw [hcaller]
  · show LockStep s.dispatcher.inside s'.dispatcher.inside s.owner s'.owner .dispatcher
    unfold dispatcherStep at h
    cases hpc : s.dispatcher <;> rw [hpc] at h <;> try dsimp only at h
    case locking | testing | woken =>
      split_ifs at h <;> cases h <;> simp_all [LockStep, DispatcherPc.inside]
    case asleep => cases h
    case servicing conf due =>
      cases due <;> cases h <;> simp [LockStep, DispatcherPc.inside]
    all_goals
      cases h
      simp [LockStep, DispatcherPc.inside]

theorem callerStep_exclusive (h : callerStep s i = some s') (hx : Exclusive s.inside s.owner) :
    Exclusive s'.inside s'.owner := by
  obtain ⟨⟨pc, owner⟩, hnext, rfl⟩ := Option.map_eq_some_iff.mp h
  apply hx.step (t := .caller i)
  · intro u hu
    cases u with
    | listener => rfl
    | dispatcher => rfl
    | caller j =>
      have hj : j ≠ i := by
        rintro rfl
        exact hu rfl
      show (Function.update s.caller i pc j).inside ↔ (s.caller j).inside
      rw [Function.update_of_ne hj]
  · show LockStep (s.caller i).inside (Function.update s.caller i pc i).inside s.owner owner (.caller i)
    rw [Function.update_self]
    cases hpc : s.caller i <;> rw [hpc] at hnext <;> dsimp only [CallerPc.next] at hnext
    case locking =>
      split_ifs at hnext
      cases hnext
      simp_all [LockStep, CallerPc.inside]
    all_goals
      cases hnext
      simp [LockStep, CallerPc.inside]

theorem step_exclusive {e : Event} (h : step s e = some s') (hx : Exclusive s.inside s.owner) :
    Exclusive s'.inside s'.owner := by
  cases e with
  | receive uev =>
    dsimp only [step] at h
    split_ifs at h
    cases h
    exact hx
  | listener => exact listenerStep_exclusive h hx
  | dispatcher conf => exact dispatcherStep_exclusive h hx
  | spurious =>
    dsimp only [step] at h
    split at h <;> cases h
    next hpc => exact exclusive_wake hx (by rw [hpc]; rfl)
  | caller i => exact callerStep_exclusive h hx

end Steps

end MultipathTools.Uevents
