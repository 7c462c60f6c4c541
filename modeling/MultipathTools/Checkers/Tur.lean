import Mathlib.Logic.Function.Basic
import MultipathTools.Structs

/-! The TUR checker (`checkers/tur.c`): `libcheck_check` and `libcheck_free` of one checker, and
the threads that it starts. A step goes up to the next access to what both sides share: an exchange
of `running`, a change of `holders`, a section under the lock, or a call of `pthread_cancel`. -/
namespace MultipathTools.Tur

inductive Msgid where
  | none | up | down | ghost | unsupported | turTimeout
  deriving DecidableEq, Repr

/-- What `tur_check` can return. -/
inductive TurResult where
  | wild | down | up | ghost
  deriving DecidableEq, Repr

def TurResult.state : TurResult → PathState
  | .wild => .wild
  | .down => .down
  | .up => .up
  | .ghost => .ghost

def TurResult.msgid : TurResult → Msgid
  | .wild => .unsupported
  | .down => .down
  | .up => .up
  | .ghost => .ghost

/-- `struct tur_checker_context`, as `libcheck_init` fills it. Two fields are for the record: the
thread that wrote the state last, and the number of calls of `cleanup_context`. -/
structure Context where
  state : PathState := .unchecked
  msgid : Msgid := .none
  running : Bool := false
  holders : ℤ := 1
  thread : Option ℕ := none
  writer : Option ℕ := none
  freed : ℕ := 0
  deriving DecidableEq, Repr

/-- `uatomic_sub_return(&ct->holders, 1)`, and `cleanup_context` by the last holder. -/
def Context.put (c : Context) : Context :=
  { c with
    holders := c.holders - 1
    freed := if c.holders - 1 = 0 then c.freed + 1 else c.freed }

/-- Where a thread is in `tur_thread`. -/
inductive ThreadPc where
  /-- before the section under the lock -/
  | checking
  /-- before the exchange of `running` -/
  | exchanging
  /-- in `pause` -/
  | paused
  /-- before `cleanup_func` -/
  | cleanup
  | ended
  deriving DecidableEq, Repr

structure Thread where
  ctx : ℕ
  pc : ThreadPc := .checking
  cancelled : Bool := false
  deriving DecidableEq, Repr

/-- Where the checker is; `ct` is the local variable. -/
inductive CheckerPc where
  | idle
  -- `libcheck_free`
  | freeXchg (ct : ℕ)
  | freeCancel (ct : ℕ)
  | freeSub (ct : ℕ)
  -- `libcheck_check` with a thread under way
  | lateXchg (ct : ℕ)
  | lateCancel (ct : ℕ)
  | lateRead (ct : ℕ)
  | readRunning (ct : ℕ)
  | doneRead (ct : ℕ)
  -- `libcheck_check` that starts a thread
  | readHolders (ct : ℕ)
  | subOld (old ct : ℕ)
  | lockPending (ct : ℕ)
  | addHolders (ct : ℕ)
  | setRunning (ct : ℕ)
  | create (ct : ℕ)
  | failSub (ct : ℕ)
  | failSet (ct : ℕ)
  | lockState (ct : ℕ)
  | waiting (ct : ℕ)
  | lastXchg (ct : ℕ) (turStatus : PathState) (writer : Option ℕ)
  | lastCancel (ct : ℕ) (turStatus : PathState) (writer : Option ℕ)
  deriving DecidableEq, Repr

/-- Where a reported state comes from. -/
inductive Origin where
  /-- a constant of `libcheck_check` -/
  | constant
  /-- `tur_check`, called by `libcheck_check` itself -/
  | direct
  /-- the context, with the thread that wrote it there -/
  | context (writer : Option ℕ)
  deriving DecidableEq, Repr

/-- A return of `libcheck_check`, with the thread that was started for the check. -/
structure Report where
  status : PathState
  msgid : Msgid
  origin : Origin
  asked : Option ℕ
  deriving DecidableEq, Repr

/-- The checker with its contexts and threads, each numbered in the order of creation. Three fields
are for the record: the thread of the check that is not answered yet, the returns of
`libcheck_check`, and, for each call of `pthread_cancel`, where its thread was. -/
structure World where
  pc : CheckerPc := .idle
  context : Option ℕ := none
  msgid : Msgid := .none
  contexts : ℕ → Context := fun _ => {}
  allocated : ℕ := 0
  threads : ℕ → Thread := fun _ => { ctx := 0 }
  started : ℕ := 0
  asked : Option ℕ := none
  reports : List Report := []
  cancels : List (Option ThreadPc) := []

namespace World

def set (w : World) (ct : ℕ) (c : Context) : World :=
  { w with contexts := Function.update w.contexts ct c }

def goto (w : World) (pc : CheckerPc) : World := { w with pc := pc }

/-- A return of `libcheck_check`. -/
def report (w : World) (status : PathState) (origin : Origin) : World :=
  { w with pc := .idle, reports := w.reports ++ [⟨status, w.msgid, origin, w.asked⟩] }

/-- A return that answers the check of the thread: `ct->thread = 0`. -/
def answer (w : World) (ct : ℕ) (status : PathState) (origin : Origin) : World :=
  { (w.set ct { w.contexts ct with thread := none }).report status origin with asked := none }

def libcheckInit (w : World) : World :=
  { w.set w.allocated {} with context := some w.allocated, allocated := w.allocated + 1 }

/-- `pthread_cancel(ct->thread)`. -/
def pthreadCancel (w : World) (ct : ℕ) : World :=
  match (w.contexts ct).thread with
  | none => { w with cancels := w.cancels ++ [none] }
  | some t =>
    { w with
      threads := Function.update w.threads t { w.threads t with cancelled := true }
      cancels := w.cancels ++ [some (w.threads t).pc] }

/-- `pthread_create(&ct->thread, &attr, tur_thread, ct)`. -/
def pthreadCreate (w : World) (ct : ℕ) : World :=
  { w.set ct { w.contexts ct with thread := some w.started } with
    threads := Function.update w.threads w.started { ctx := ct }
    started := w.started + 1
    asked := some w.started }

end World

/-- The start of `libcheck_check`, up to the first shared access. `late` is the result of
`tur_check_async_timeout`, `direct` the one of a direct call of `tur_check`. -/
def libcheckCheck (w : World) (sync late : Bool) (direct : TurResult) : World :=
  match w.context with
  | none => w.report .unchecked .constant
  | some ct =>
    if sync then { w with msgid := direct.msgid }.report direct.state .direct
    else if (w.contexts ct).thread ≠ none then
      w.goto (if late then .lateXchg ct else .readRunning ct)
    else w.goto (.readHolders ct)

/-- The next step of the call under way. `ok` is the success of `libcheck_init`, `pthread_create`
or `pthread_cond_timedwait`, which may also wake up for no reason. -/
def checkerStep (w : World) (ok : Bool) (direct : TurResult) : Option World :=
  match w.pc with
  | .idle => none
  | .freeXchg ct =>
    let c := w.contexts ct
    let w := w.set ct { c with running := false }
    some (w.goto (if c.running then .freeCancel ct else .freeSub ct))
  | .freeCancel ct => some ((w.pthreadCancel ct).goto (.freeSub ct))
  | .freeSub ct =>
    let w := w.set ct { (w.contexts ct).put with thread := none }
    some { w with pc := .idle, context := none, asked := none }
  | .lateXchg ct =>
    let c := w.contexts ct
    let w := w.set ct { c with running := false }
    some (w.goto (if c.running then .lateCancel ct else .lateRead ct))
  | .lateCancel ct =>
    let w := w.pthreadCancel ct
    some ({ w with msgid := .turTimeout }.answer ct .timeout .constant)
  | .lateRead ct =>
    let c := w.contexts ct
    some ({ w with msgid := c.msgid }.answer ct c.state (.context c.writer))
  | .readRunning ct =>
    if (w.contexts ct).running then some (w.report .pending .constant)
    else some ((w.set ct { w.contexts ct with thread := none }).goto (.doneRead ct))
  | .doneRead ct =>
    let c := w.contexts ct
    some ({ w with msgid := c.msgid }.answer ct c.state (.context c.writer))
  | .readHolders ct =>
    if 1 < (w.contexts ct).holders then
      if ok then some (w.libcheckInit.goto (.subOld ct w.allocated))
      else some (w.report .unchecked .constant)
    else some (w.goto (.lockPending ct))
  | .subOld old ct => some ((w.set old (w.contexts old).put).goto (.lockPending ct))
  | .lockPending ct =>
    let c := { w.contexts ct with state := .pending, msgid := .none, writer := none }
    some ((w.set ct c).goto (.addHolders ct))
  | .addHolders ct =>
    let c := w.contexts ct
    some ((w.set ct { c with holders := c.holders + 1 }).goto (.setRunning ct))
  | .setRunning ct =>
    some ((w.set ct { w.contexts ct with running := true }).goto (.create ct))
  | .create ct =>
    if ok then some ((w.pthreadCreate ct).goto (.lockState ct)) else some (w.goto (.failSub ct))
  | .failSub ct =>
    let c := w.contexts ct
    some ((w.set ct { c with holders := c.holders - 1 }).goto (.failSet ct))
  | .failSet ct =>
    let w := w.set ct { w.contexts ct with running := false, thread := none }
    some ({ w with msgid := direct.msgid }.report direct.state .direct)
  | .lockState ct =>
    let c := w.contexts ct
    if c.state = .pending then some (w.goto (.waiting ct))
    else some ({ w with msgid := c.msgid }.goto (.lastXchg ct c.state c.writer))
  | .waiting ct =>
    let c := w.contexts ct
    if !ok then some (w.report .pending .constant)
    else if c.state = .pending then
      some ({ w with msgid := c.msgid }.report .pending (.context c.writer))
    else some ({ w with msgid := c.msgid }.goto (.lastXchg ct c.state c.writer))
  | .lastXchg ct turStatus writer =>
    let c := w.contexts ct
    let w := w.set ct { c with running := false }
    if c.running then some (w.goto (.lastCancel ct turStatus writer))
    else some (w.answer ct turStatus (.context writer))
  | .lastCancel ct turStatus writer =>
    some ((w.pthreadCancel ct).answer ct turStatus (.context writer))

/-- The next step of a thread. A cancelled thread may act on that at the next cancellation point or
go on for any time. -/
inductive ThreadEvent where
  /-- the end of `tur_check`, and the section under the lock -/
  | write (result : TurResult)
  | xchg
  | actOnCancel
  /-- `cleanup_func` -/
  | cleanup
  deriving DecidableEq, Repr

/-- A step of thread `t` with its context. -/
def threadStep (t : ℕ) (th : Thread) (c : Context) : ThreadEvent → Option (Thread × Context)
  | .write result =>
    if th.pc = .checking then
      some ({ th with pc := .exchanging },
        { c with state := result.state, msgid := result.msgid, writer := some t })
    else none
  | .xchg =>
    if th.pc = .exchanging then
      some ({ th with pc := if c.running then .cleanup else .paused }, { c with running := false })
    else none
  | .actOnCancel =>
    if th.cancelled ∧ (th.pc = .checking ∨ th.pc = .exchanging ∨ th.pc = .paused) then
      some ({ th with pc := .cleanup }, c)
    else none
  | .cleanup => if th.pc = .cleanup then some ({ th with pc := .ended }, c.put) else none

inductive Event where
  /-- `libcheck_init`, called for a checker without a context -/
  | init
  | check (sync late : Bool) (direct : TurResult)
  | free
  /-- the next step of `libcheck_check` or `libcheck_free` -/
  | checker (ok : Bool) (direct : TurResult)
  | thread (t : ℕ) (e : ThreadEvent)
  deriving DecidableEq, Repr

def step (w : World) : Event → Option World
  | .init => if w.pc = .idle ∧ w.context = none then some w.libcheckInit else none
  | .check sync late direct =>
    if w.pc = .idle then some (libcheckCheck w sync late direct) else none
  | .free =>
    if w.pc = .idle then
      match w.context with
      | none => some w
      | some ct => some (w.goto (.freeXchg ct))
    else none
  | .checker ok direct => checkerStep w ok direct
  | .thread t e =>
    if t < w.started then
      (threadStep t (w.threads t) (w.contexts (w.threads t).ctx) e).map fun r =>
        { w.set (w.threads t).ctx r.2 with threads := Function.update w.threads t r.1 }
    else none

end MultipathTools.Tur
