import Mathlib.Logic.Function.Basic
import MultipathTools.Structs
import MultipathTools.Base.Keyed

/-! The directio checker (`checkers/directio.c`): `libcheck_init`, `libcheck_check` and
`libcheck_free` of any number of checkers over the shared list of aio groups. Only one checker runs
at a time, so that a call is one step. Structs stand in the world by number; what the kernel answers
is part of the event. -/
namespace MultipathTools.Directio

def aioGroupSize : ℕ := 1024

inductive Msgid where
  | none | up | down | unknown | pending | blocksize
  deriving DecidableEq, Repr

/-- `struct aio_group`, told by its aio context. -/
structure AioGroup where
  ioctx : ℕ
  holders : ℤ := 0
  orphans : List ℕ := []
  deriving DecidableEq, Repr

/-- `struct async_req`. The number of calls of `free` is for the record. -/
structure AsyncReq where
  blksize : ℕ := 0
  state : PathState := .wild
  freed : ℕ := 0
  deriving DecidableEq, Repr

/-- `struct directio_context`, with the checker that it belongs to. -/
structure DirectioContext where
  checker : ℕ
  running : ℕ := 0
  aioGrp : ℕ
  req : ℕ
  deriving DecidableEq, Repr

/-- A request that the kernel has, and the aio context it was submitted to. -/
structure Io where
  req : ℕ
  ioctx : ℕ
  deriving DecidableEq, Repr

/-- An entry of the array that `io_getevents` fills. -/
structure Completion where
  req : ℕ
  res : ℕ
  deriving DecidableEq, Repr

/-- The checker's memory, and in `ios` the requests whose completion may still be delivered. -/
structure World where
  aioGrpList : List AioGroup := []
  ioctxs : ℕ := 0
  reqs : ℕ → AsyncReq := fun _ => {}
  allocated : ℕ := 0
  contexts : List DirectioContext := []
  ios : List Io := []
  msgids : ℕ → Msgid := fun _ => .none

namespace World

def updateGroup (w : World) (grp : ℕ) (f : AioGroup → AioGroup) : World :=
  { w with aioGrpList := updateKey AioGroup.ioctx grp f w.aioGrpList }

def updateContext (w : World) (c : ℕ) (f : DirectioContext → DirectioContext) : World :=
  { w with contexts := updateKey DirectioContext.checker c f w.contexts }

def updateReq (w : World) (r : ℕ) (f : AsyncReq → AsyncReq) : World :=
  { w with reqs := Function.update w.reqs r (f (w.reqs r)) }

def setMsgid (w : World) (c : ℕ) (m : Msgid) : World :=
  { w with msgids := Function.update w.msgids c m }

/-- `free(ct)` and `c->context = NULL`. -/
def dropContext (w : World) (c : ℕ) : World :=
  { w with contexts := others DirectioContext.checker c w.contexts }

/-- `aio_grp->holders++`. -/
def hold (w : World) (grp : ℕ) : World :=
  w.updateGroup grp fun g => { g with holders := g.holders + 1 }

/-- `aio_grp->holders--`. -/
def putGroup (w : World) (grp : ℕ) : World :=
  w.updateGroup grp fun g => { g with holders := g.holders - 1 }

/-- `list_del(&req->node)`, from the list of orphans that it is in. -/
def listDel (w : World) (r : ℕ) : World :=
  { w with aioGrpList := w.aioGrpList.map fun g => { g with orphans := g.orphans.erase r } }

/-- `free(req->buf)` and `free(req)`. -/
def freeReq (w : World) (r : ℕ) : World :=
  w.updateReq r fun q => { q with freed := q.freed + 1 }

def setState (w : World) (r : ℕ) (state : PathState) : World :=
  w.updateReq r fun q => { q with state }

def setRunning (w : World) (c : ℕ) (running : ℕ) : World :=
  w.updateContext c fun ct => { ct with running }

/-- A successful `io_submit`. -/
def ioSubmit (w : World) (io : Io) : World :=
  { w with ios := io :: w.ios }

/-- A successful `io_cancel`, and the delivery of a completion. -/
def ioEnd (w : World) (io : Io) : World :=
  { w with ios := w.ios.erase io }

/-- `io_destroy`. -/
def ioDestroy (w : World) (ioctx : ℕ) : World :=
  { w with ios := w.ios.filter fun io => io.ioctx ≠ ioctx }

end World

variable (w : World)

/-- `add_aio_group` where `malloc` and `io_setup` succeed. -/
def addAioGroup : World :=
  { w with
    aioGrpList := { ioctx := w.ioctxs } :: w.aioGrpList
    ioctxs := w.ioctxs + 1 }

/-- `set_aio_group`, with the group for `ct->aio_grp`. -/
def setAioGroup (setup : Bool) : Option (ℕ × World) :=
  match w.aioGrpList.find? fun g => g.holders < (aioGroupSize : ℤ) with
  | some g => some (g.ioctx, w.hold g.ioctx)
  | none => if setup then some (w.ioctxs, (addAioGroup w).hold w.ioctxs) else none

def removeAioGroup (g : AioGroup) : World :=
  let w := g.orphans.foldl World.freeReq (w.ioDestroy g.ioctx)
  { w with aioGrpList := others AioGroup.ioctx g.ioctx w.aioGrpList }

def checkOrphanedGroup (grp : ℕ) : World :=
  match w.aioGrpList.find? fun g => g.ioctx = grp with
  | none => w
  | some g =>
    if g.holders < (aioGroupSize : ℤ) then w
    else if g.orphans.length ≥ aioGroupSize then removeAioGroup w g
    else w

/-- What the calls of `libcheck_init` give: whether the allocations, `io_setup`, and the reading and
setting of the flags succeed, and the block size if `BLKBSZGET` tells it. -/
structure InitEnv where
  context : Bool := true
  setup : Bool := true
  request : Bool := true
  blksize : Option ℕ := some 512
  buf : Bool := true
  flags : Bool := true
  deriving DecidableEq, Repr

def libcheckInit (c : ℕ) (env : InitEnv) : World × ℤ :=
  if env.context then
    match setAioGroup w env.setup with
    | none => (w, 1)
    | some (grp, w) =>
      if env.request then
        let req := w.allocated
        let w := { w with allocated := req + 1 }
        let w := if env.blksize = none then w.setMsgid c .blocksize else w
        let blksize := min (env.blksize.getD 4096) 4096
        let w := w.updateReq req fun q => { blksize, freed := q.freed }
        if blksize ≠ 0 ∧ env.buf ∧ env.flags then
          ({ w with contexts := { checker := c, aioGrp := grp, req } :: w.contexts }, 0)
        else ((w.freeReq req).putGroup grp, 1)
      else (w.putGroup grp, 1)
  else (w, 1)

/-- `cancelled` tells whether `io_cancel` succeeds where it is called. -/
def libcheckFree (c : ℕ) (cancelled : Bool) : World :=
  match w.contexts.find? fun ct => ct.checker = c with
  | none => w
  | some ct =>
    let io : Io := ⟨ct.req, ct.aioGrp⟩
    let pending := ct.running ≠ 0 ∧ (w.reqs ct.req).state = .pending
    let w :=
      if pending ∧ ¬cancelled then
        let w := w.setState ct.req .removed
        let w := w.updateGroup ct.aioGrp fun g => { g with orphans := ct.req :: g.orphans }
        checkOrphanedGroup w ct.aioGrp
      else
        let w := if pending then w.ioEnd io else w
        (w.freeReq ct.req).putGroup ct.aioGrp
    w.dropContext c

/-- The state that a completion tells. -/
def outcome (q : AsyncReq) (res : ℕ) : PathState :=
  if res = q.blksize then .up else .down

/-- The loop body of `get_events`, for a completion that the kernel has to deliver. -/
def complete (grp : ℕ) (x : Completion) : Option World :=
  if ⟨x.req, grp⟩ ∈ w.ios then
    let w := w.ioEnd ⟨x.req, grp⟩
    if (w.reqs x.req).state = .removed then
      some (((w.listDel x.req).freeReq x.req).putGroup grp)
    else some (w.setState x.req (outcome (w.reqs x.req) x.res))
  else none

/-- `get_events`, from what each call of `io_getevents` returns. A failing call returns no event. -/
def getEvents (grp : ℕ) : List (List Completion) → World → Option (World × Bool)
  | [], _ => none
  | batch :: batches, w =>
    if batch.length ≤ 128 then
      (batch.foldlM (fun w x => complete w grp x) w).bind fun w =>
        if batch.length = 128 then (getEvents grp batches w).map fun (w, _) => (w, true)
        else if batches = [] then some (w, batch ≠ [])
        else none
    else none

/-- A call of `get_events`, and whether its timeout was zero. -/
structure Round where
  batches : List (List Completion)
  expired : Bool := true
  deriving DecidableEq, Repr

/-- The loop of `check_state`. -/
def pollEvents (grp req : ℕ) : List Round → World → Option World
  | [], _ => none
  | round :: rounds, w =>
    (getEvents grp round.batches w).bind fun (w, got) =>
      if (w.reqs req).state ≠ .pending ∨ got = false ∨ round.expired then
        if rounds = [] then some w else none
      else pollEvents grp req rounds w

structure CheckEnv where
  submitted : Bool := true
  sync : Bool := false
  timeoutSecs : ℕ := 30
  rounds : List Round := []
  cancelled : Bool := false
  deriving DecidableEq, Repr

/-- The completions delivered in a check. -/
def CheckEnv.completions (env : CheckEnv) : List Completion :=
  env.rounds.flatMap fun round => round.batches.flatten

/-- `check_state` up to the loop: a new request is submitted where none is running. -/
def beginCheck (ct : DirectioContext) : World :=
  let w := if ct.running = 0 then (w.setState ct.req .pending).ioSubmit ⟨ct.req, ct.aioGrp⟩ else w
  w.setRunning ct.checker (ct.running + 1)

/-- The end of `check_state`, after the loop. -/
def finishCheck (ct : DirectioContext) (env : CheckEnv) : World × PathState :=
  if (w.reqs ct.req).state ≠ .pending then
    (w.setRunning ct.checker 0, (w.reqs ct.req).state)
  else if ct.running > env.timeoutSecs ∨ env.sync then
    if env.cancelled then
      ((w.ioEnd ⟨ct.req, ct.aioGrp⟩).setRunning ct.checker 0, .down)
    else (w, .down)
  else (w, .pending)

def checkState (ct : DirectioContext) (env : CheckEnv) : Option (World × PathState) :=
  let state := (w.reqs ct.req).state
  if ct.running ≠ 0 ∧ state ≠ .pending then
    if env.rounds = [] then some (w.setRunning ct.checker 0, state) else none
  else if ct.running = 0 ∧ ¬env.submitted then
    if env.rounds = [] then some (w.setState ct.req .pending, .unchecked) else none
  else
    (pollEvents ct.aioGrp ct.req env.rounds (beginCheck w ct)).map fun w =>
      finishCheck w { ct with running := ct.running + 1 } env

def msgidOf : PathState → Option Msgid
  | .unchecked => some .unknown
  | .down => some .down
  | .up => some .up
  | .pending => some .pending
  | _ => none

def libcheckCheck (c : ℕ) (env : CheckEnv) : Option (World × PathState) :=
  match w.contexts.find? fun ct => ct.checker = c with
  | none => if env.rounds = [] then some (w, .unchecked) else none
  | some ct =>
    (checkState w ct env).map fun (w, ret) =>
      match msgidOf ret with
      | some m => (w.setMsgid c m, ret)
      | none => (w, ret)

inductive Event where
  | init (c : ℕ) (env : InitEnv)
  | check (c : ℕ) (env : CheckEnv)
  | free (c : ℕ) (cancelled : Bool)
  deriving DecidableEq, Repr

def Event.checker : Event → ℕ
  | .init c _ | .check c _ | .free c _ => c

/-- The completions delivered in a step. -/
def Event.completions : Event → List Completion
  | .check _ env => env.completions
  | _ => []

/-- A call for a checker. `checker_init` is for a checker without a context. -/
def step : Event → Option World
  | .init c env =>
    if c ∈ w.contexts.map DirectioContext.checker then none else some (libcheckInit w c env).1
  | .check c env => (libcheckCheck w c env).map Prod.fst
  | .free c cancelled => some (libcheckFree w c cancelled)

end MultipathTools.Directio
