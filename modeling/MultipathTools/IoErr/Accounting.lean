import Mathlib.Data.List.Nodup
import MultipathTools.Base.Run
import MultipathTools.Structs

/-! The test IOs of a path under observation (`io_err_stat.c`): submission, completion, timeout
and cancellation, in any order. -/
namespace MultipathTools.IoErr

/-- `CONCUR_NR_EVENT`. -/
def concurNrEvent : ℕ := 32

instance : NeZero concurNrEvent := ⟨by decide⟩

/-- `IOTIMEOUT_SEC`. -/
def iotimeoutSec : ℕ := 60

/-- Times are in nanoseconds; `tv_sec` of a time or of the difference of two. -/
def tvSec (t : ℕ) : ℕ := t / 10 ^ 9

/-- `struct dio_ctx`; a start time of 0 means that the context is free. -/
structure DioCtx where
  ioStarttime : ℕ := 0
  blksize : ℕ := 512
  deriving DecidableEq, Repr

/-- `struct io_err_stat_path`. -/
structure IoErrStatPath where
  dioCtx : Fin concurNrEvent → DioCtx := fun _ => {}
  ioErrNr : ℕ := 0
  ioNr : ℕ := 0
  startTime : ℕ := 0
  totalTime : ℕ

def IoErrStatPath.setStart (pp : IoErrStatPath) (j : Fin concurNrEvent) (t : ℕ) : IoErrStatPath :=
  { pp with dioCtx := Function.update pp.dioCtx j { pp.dioCtx j with ioStarttime := t } }

/-- `account_async_io_state`. -/
def accountAsyncIoState (pp : IoErrStatPath) (rc : PathState) : IoErrStatPath :=
  match rc with
  | .down | .timeout => { pp with ioErrNr := pp.ioErrNr + 1 }
  | _ => pp

/-- A submitted IO, the number of which is its place among all that were submitted for the path.
It is in flight as long as the kernel has no result for it; afterwards its event waits in the
completion ring. -/
structure Io where
  id : ℕ
  ctx : Fin concurNrEvent
  res : Option ℤ := none
  deriving DecidableEq, Repr

/-- The path, the IOs that the kernel knows of, and two fields for the record: the IO that the
start time of a context belongs to, if there is one, and the IO of each counted error. -/
structure Sys where
  now : ℕ
  pp : IoErrStatPath
  ios : List Io := []
  current : Fin concurNrEvent → Option ℕ := fun _ => none
  blame : List (Option ℕ) := []

/-- `send_batch_async_ios` leaves time for all IOs to complete or time out. -/
def maySend (s : Sys) : Prop :=
  tvSec s.pp.startTime ≠ 0 → tvSec (s.now - s.pp.startTime) + iotimeoutSec < s.pp.totalTime

instance (s : Sys) : Decidable (maySend s) := inferInstanceAs (Decidable (_ → _))

/-- `send_each_async_io`, and `io_nr` for the context; `submitted` is the success of
`io_submit`. -/
def sendEachAsyncIo (s : Sys) (j : Fin concurNrEvent) (submitted : Bool) : Sys :=
  if (s.pp.dioCtx j).ioStarttime = 0 then
    let pp := s.pp.setStart j s.now
    if submitted then
      { s with
        pp := { pp with ioNr := pp.ioNr + 1 }
        ios := s.ios ++ [{ id := pp.ioNr, ctx := j }]
        current := Function.update s.current j (some pp.ioNr) }
    else { s with pp := pp, current := Function.update s.current j none }
  else s

/-- `io_cancel` takes back an IO of the context that is in flight. -/
def ioCancel (ios : List Io) (j : Fin concurNrEvent) : List Io :=
  ios.eraseP fun io => io.ctx = j ∧ io.res = none

/-- The timer of the context has run out. -/
def TimedOut (s : Sys) (j : Fin concurNrEvent) : Prop :=
  tvSec (s.pp.dioCtx j).ioStarttime ≠ 0 ∧
    iotimeoutSec < tvSec (s.now - (s.pp.dioCtx j).ioStarttime)

instance (s : Sys) (j : Fin concurNrEvent) : Decidable (TimedOut s j) :=
  inferInstanceAs (Decidable (_ ∧ _))

/-- `try_to_cancel_timeout_io` and the accounting for the context; `cancelled` is the success of
`io_cancel`. -/
def tryToCancelTimeoutIo (s : Sys) (j : Fin concurNrEvent) (cancelled : Bool) : Sys :=
  if TimedOut s j then
    { s with
      pp := accountAsyncIoState (s.pp.setStart j 0) .timeout
      ios := if cancelled then ioCancel s.ios j else s.ios
      blame := s.blame ++ [s.current j] }
  else s

/-- `handle_async_io_done_event` for the event of an IO. -/
def handleAsyncIoDoneEvent (s : Sys) (io : Io) (res : ℤ) : Sys :=
  let rc : PathState := if res = (s.pp.dioCtx io.ctx).blksize then .up else .down
  { s with
    pp := accountAsyncIoState (s.pp.setStart io.ctx 0) rc
    ios := s.ios.erase io
    blame := if rc = .down then s.blame ++ [some io.id] else s.blame }

inductive Event where
  | tick (nsec : ℕ)
  | send (j : Fin concurNrEvent) (submitted : Bool)
  /-- The end of a batch sets the start time of the observation. -/
  | batchEnd
  /-- The kernel has a result for an IO. -/
  | complete (io : Io) (res : ℤ)
  /-- The event of an IO is taken from the ring. -/
  | done (io : Io)
  | timeout (j : Fin concurNrEvent) (cancelled : Bool)
  deriving DecidableEq, Repr

def step (s : Sys) : Event → Option Sys
  | .tick nsec => some { s with now := s.now + nsec }
  | .send j submitted => if maySend s then some (sendEachAsyncIo s j submitted) else none
  | .batchEnd =>
    some (if s.pp.startTime = 0 then { s with pp := { s.pp with startTime := s.now } } else s)
  | .complete io res =>
    if io ∈ s.ios ∧ io.res = none then
      some { s with ios := { io with res := some res } :: s.ios.erase io }
    else none
  | .done io =>
    match io.res with
    | none => none
    | some res => if io ∈ s.ios then some (handleAsyncIoDoneEvent s io res) else none
  | .timeout j cancelled =>
    -- only an IO that is in flight can be cancelled
    if cancelled ∧ ¬ ∃ io ∈ s.ios, io.ctx = j ∧ io.res = none then none
    else some (tryToCancelTimeoutIo s j cancelled)

/-- A path that has just been enqueued, at a time after 0. -/
def start (uptime totalTime : ℕ) : Sys := { now := uptime + 1, pp := { totalTime := totalTime } }

/-- Each IO is counted as an error once at most, there are no more errors than IOs, and a context
has one IO in flight at most. -/
structure Accounted (s : Sys) : Prop where
  once : ∀ id, s.blame.count (some id) ≤ 1
  errors_le : s.pp.ioErrNr ≤ s.pp.ioNr
  no_reuse : ((s.ios.filter (·.res = none)).map Io.ctx).Nodup

/-- The cancel attempt for a timed-out context takes its IO back. -/
def CancelSucceeds (s : Sys) : Event → Prop
  | .timeout j cancelled => TimedOut s j → cancelled = true
  | _ => True

instance (s : Sys) (e : Event) : Decidable (CancelSucceeds s e) := by
  cases e <;> unfold CancelSucceeds <;> infer_instance

/-- What holds as long as timed-out IOs are taken back: the IOs that the kernel knows of are one
for each busy context, and none of them has been counted as an error. -/
structure Inv (s : Sys) : Prop where
  now_pos : 0 < s.now
  ids : (s.ios.map Io.id).Nodup
  ctxs : (s.ios.map Io.ctx).Nodup
  id_lt : ∀ io ∈ s.ios, io.id < s.pp.ioNr
  busy : ∀ io ∈ s.ios, (s.pp.dioCtx io.ctx).ioStarttime ≠ 0
  current_eq : ∀ io ∈ s.ios, s.current io.ctx = some io.id
  blame_length : s.blame.length = s.pp.ioErrNr
  blame_nodup : s.blame.Nodup
  blame_lt : ∀ b ∈ s.blame, ∃ id < s.pp.ioNr, b = some id
  blame_gone : ∀ io ∈ s.ios, some io.id ∉ s.blame

theorem start_inv (uptime totalTime : ℕ) : Inv (start uptime totalTime) := by
  constructor <;> simp [start]

/-- The counted errors are different ones among the submitted IOs. -/
theorem Inv.accounted {s : Sys} (h : Inv s) : Accounted s := by
  constructor
  · intro id
    exact List.nodup_iff_count_le_one.mp h.blame_nodup (some id)
  · have hsub : s.blame ⊆ (List.range s.pp.ioNr).map some := by
      intro b hb
      obtain ⟨id, hid, rfl⟩ := h.blame_lt b hb
      exact List.mem_map_of_mem (List.mem_range.mpr hid)
    have hlen := (List.subperm_of_subset h.blame_nodup hsub).length_le
    rw [h.blame_length, List.length_map, List.length_range] at hlen
    exact hlen
  · exact h.ctxs.sublist (List.filter_sublist.map Io.ctx)

/-- A free context gets an IO. -/
theorem Inv.submit {s : Sys} (h : Inv s) {j : Fin concurNrEvent}
    (hctx : ∀ io ∈ s.ios, io.ctx ≠ j) :
    Inv { s with
      pp := { s.pp.setStart j s.now with ioNr := s.pp.ioNr + 1 }
      ios := s.ios ++ [{ id := s.pp.ioNr, ctx := j }]
      current := Function.update s.current j (some s.pp.ioNr) } := by
  have hfresh : ∀ io ∈ s.ios, io.id ≠ s.pp.ioNr := fun io hio => (h.id_lt io hio).ne
  have hnew : ∀ io ∈ s.ios ++ [({ id := s.pp.ioNr, ctx := j } : Io)],
      io ∈ s.ios ∨ io = { id := s.pp.ioNr, ctx := j } := fun io hio =>
    (List.mem_append.mp hio).imp_right List.mem_singleton.mp
  refine ⟨h.now_pos, ?_, ?_, ?_, ?_, ?_, h.blame_length, h.blame_nodup, ?_, ?_⟩
  · dsimp only
    rw [List.map_append]
    apply List.Nodup.append h.ids (List.nodup_singleton _)
    intro id hid hlast
    obtain ⟨io, hio, rfl⟩ := List.mem_map.mp hid
    exact hfresh io hio (List.mem_singleton.mp hlast)
  · dsimp only
    rw [List.map_append]
    apply List.Nodup.append h.ctxs (List.nodup_singleton _)
    intro ctx hold hlast
    obtain ⟨io, hio, rfl⟩ := List.mem_map.mp hold
    exact hctx io hio (List.mem_singleton.mp hlast)
  · intro io hio
    obtain hio | rfl := hnew io hio
    · exact (h.id_lt io hio).trans (Nat.lt_succ_self _)
    · exact Nat.lt_succ_self _
  · intro io hio
    obtain hio | rfl := hnew io hio
    · simpa [IoErrStatPath.setStart, hctx io hio] using h.busy io hio
    · simpa [IoErrStatPath.setStart] using h.now_pos.ne'
  · intro io hio
    dsimp only
    obtain hio | rfl := hnew io hio
    · rw [Function.update_of_ne (hctx io hio)]
      exact h.current_eq io hio
    · exact Function.update_self _ _ _
  · intro b hb
    obtain ⟨id, hid, rfl⟩ := h.blame_lt b hb
    exact ⟨id, hid.trans (Nat.lt_succ_self _), rfl⟩
  · intro io hio
    obtain hio | rfl := hnew io hio
    · exact h.blame_gone io hio
    · intro hb
      obtain ⟨id, hid, heq⟩ := h.blame_lt _ hb
      exact hid.ne' (Option.some.inj heq)

/-- A free context gets an IO, or is busy without one after a failed submission. -/
theorem Inv.send {s : Sys} (h : Inv s) (j : Fin concurNrEvent) (submitted : Bool) :
    Inv (sendEachAsyncIo s j submitted) := by
  unfold sendEachAsyncIo
  split
  · rename_i hfree
    have hctx : ∀ io ∈ s.ios, io.ctx ≠ j := by
      intro io hio heq
      rw [← heq] at hfree
      exact h.busy io hio hfree
    cases submitted with
    | true => exact h.submit hctx
    | false =>
      have hbusy : ∀ io ∈ s.ios, ((s.pp.setStart j s.now).dioCtx io.ctx).ioStarttime ≠ 0 := by
        intro io hio
        simpa [IoErrStatPath.setStart, hctx io hio] using h.busy io hio
      have hcurrent : ∀ io ∈ s.ios, Function.update s.current j none io.ctx = some io.id := by
        intro io hio
        rw [Function.update_of_ne (hctx io hio)]
        exact h.current_eq io hio
      exact ⟨h.now_pos, h.ids, h.ctxs, h.id_lt, hbusy, hcurrent, h.blame_length, h.blame_nodup,
        h.blame_lt, h.blame_gone⟩
  · exact h

/-- An IO that the kernel is done with leaves its context free, whether it counts as an error or
not. -/
theorem Inv.retire {s : Sys} (h : Inv s) {l₁ l₂ : List Io} {io : Io} (hios : s.ios = l₁ ++ io :: l₂)
    (rc : PathState) :
    Inv { s with
      pp := accountAsyncIoState (s.pp.setStart io.ctx 0) rc
      ios := l₁ ++ l₂
      blame := if rc = .down ∨ rc = .timeout then s.blame ++ [some io.id] else s.blame } := by
  have hsub : List.Sublist (l₁ ++ l₂) s.ios := by
    rw [hios]
    exact (List.Sublist.refl l₁).append (List.sublist_cons_self io l₂)
  have hmem : ∀ i ∈ l₁ ++ l₂, i ∈ s.ios := fun i hi => hsub.subset hi
  have hids := h.ids
  have hctxs := h.ctxs
  rw [hios, List.map_append, List.map_cons, List.nodup_middle, ← List.map_append] at hids hctxs
  have hid : ∀ i ∈ l₁ ++ l₂, i.id ≠ io.id := fun i hi heq =>
    (List.nodup_cons.mp hids).1 (heq ▸ List.mem_map_of_mem hi)
  have hctx : ∀ i ∈ l₁ ++ l₂, i.ctx ≠ io.ctx := fun i hi heq =>
    (List.nodup_cons.mp hctxs).1 (heq ▸ List.mem_map_of_mem hi)
  have hio : io ∈ s.ios := by rw [hios]; simp
  have hnr : (accountAsyncIoState (s.pp.setStart io.ctx 0) rc).ioNr = s.pp.ioNr := by
    cases rc <;> rfl
  have hbusy : ∀ i ∈ l₁ ++ l₂, ((accountAsyncIoState (s.pp.setStart io.ctx 0) rc).dioCtx
      i.ctx).ioStarttime ≠ 0 := by
    intro i hi
    have hset : ((s.pp.setStart io.ctx 0).dioCtx i.ctx).ioStarttime ≠ 0 := by
      simpa [IoErrStatPath.setStart, hctx i hi] using h.busy i (hmem i hi)
    cases rc <;> exact hset
  refine ⟨h.now_pos, (List.nodup_cons.mp hids).2, (List.nodup_cons.mp hctxs).2, ?_, hbusy,
    fun i hi => h.current_eq i (hmem i hi), ?_, ?_, ?_, ?_⟩
  · intro i hi
    rw [hnr]
    exact h.id_lt i (hmem i hi)
  · have hlen := h.blame_length
    cases rc <;> simp [accountAsyncIoState, IoErrStatPath.setStart, hlen]
  · dsimp only
    split
    · apply List.Nodup.append h.blame_nodup (List.nodup_singleton _)
      intro b hb hnew
      rw [List.mem_singleton.mp hnew] at hb
      exact h.blame_gone io hio hb
    · exact h.blame_nodup
  · intro b hb
    rw [hnr]
    dsimp only at hb
    split at hb
    · obtain hb | hb := List.mem_append.mp hb
      · exact h.blame_lt b hb
      · exact ⟨io.id, h.id_lt io hio, List.mem_singleton.mp hb⟩
    · exact h.blame_lt b hb
  · intro i hi
    have hold := h.blame_gone i (hmem i hi)
    dsimp only
    split
    · intro hb
      obtain hb | hb := List.mem_append.mp hb
      · exact hold hb
      · exact hid i hi (Option.some.inj (List.mem_singleton.mp hb))
    · exact hold

/-- The kernel's result for an IO changes nothing that the invariant is about. -/
theorem Inv.complete {s : Sys} (h : Inv s) {io : Io} (hio : io ∈ s.ios) (res : ℤ) :
    Inv { s with ios := { io with res := some res } :: s.ios.erase io } := by
  have hperm : ∀ {β : Type} (f : Io → β), f { io with res := some res } = f io →
      List.Perm (({ io with res := some res } :: s.ios.erase io).map f) (s.ios.map f) := by
    intro β f hf
    rw [List.map_cons, hf, ← List.map_cons]
    exact ((List.perm_cons_erase hio).symm).map f
  have hmem : ∀ i ∈ ({ io with res := some res } :: s.ios.erase io : List Io),
      ∃ i' ∈ s.ios, i'.id = i.id ∧ i'.ctx = i.ctx := by
    intro i hi
    obtain rfl | hi := List.mem_cons.mp hi
    · exact ⟨io, hio, rfl, rfl⟩
    · exact ⟨i, List.mem_of_mem_erase hi, rfl, rfl⟩
  refine ⟨h.now_pos, (hperm Io.id rfl).nodup_iff.mpr h.ids, (hperm Io.ctx rfl).nodup_iff.mpr h.ctxs,
    ?_, ?_, ?_, h.blame_length, h.blame_nodup, h.blame_lt, ?_⟩
  · intro i hi
    obtain ⟨i', hi', hid, -⟩ := hmem i hi
    rw [← hid]
    exact h.id_lt i' hi'
  · intro i hi
    obtain ⟨i', hi', -, hctx⟩ := hmem i hi
    have := h.busy i' hi'
    rwa [hctx] at this
  · intro i hi
    obtain ⟨i', hi', hid, hctx⟩ := hmem i hi
    have := h.current_eq i' hi'
    rwa [hid, hctx] at this
  · intro i hi
    obtain ⟨i', hi', hid, -⟩ := hmem i hi
    have := h.blame_gone i' hi'
    rwa [hid] at this

/-- The step lemma: every transition keeps the invariant, timeouts if the cancel attempt
succeeds. -/
theorem step_inv {s s' : Sys} {e : Event} (hs : step s e = some s') (hc : CancelSucceeds s e)
    (h : Inv s) : Inv s' := by
  cases e with
  | tick nsec =>
    cases hs
    exact ⟨h.now_pos.trans_le (Nat.le_add_right _ _), h.ids, h.ctxs, h.id_lt, h.busy, h.current_eq,
      h.blame_length, h.blame_nodup, h.blame_lt, h.blame_gone⟩
  | send j submitted =>
    simp only [step] at hs
    split at hs
    · cases hs
      exact h.send j submitted
    · cases hs
  | batchEnd =>
    cases hs
    split
    · exact ⟨h.now_pos, h.ids, h.ctxs, h.id_lt, h.busy, h.current_eq, h.blame_length,
        h.blame_nodup, h.blame_lt, h.blame_gone⟩
    · exact h
  | complete io res =>
    simp only [step] at hs
    split at hs
    · rename_i hio
      cases hs
      exact h.complete hio.1 res
    · cases hs
  | done io =>
    simp only [step] at hs
    split at hs
    · cases hs
    · split at hs
      · rename_i res _ hio
        cases hs
        obtain ⟨l₁, l₂, -, hios, herase⟩ := List.exists_erase_eq hio
        unfold handleAsyncIoDoneEvent
        dsimp only
        rw [herase]
        split
        · exact h.retire hios .up
        · exact h.retire hios .down
      · cases hs
  | timeout j cancelled =>
    simp only [step] at hs
    split at hs
    · cases hs
    · rename_i hcan
      cases hs
      unfold tryToCancelTimeoutIo
      split
      · rename_i hout
        have hyes : cancelled = true := hc hout
        have hex : ∃ io ∈ s.ios, io.ctx = j ∧ io.res = none := by
          by_contra hno
          exact hcan ⟨hyes, hno⟩
        obtain ⟨io, hio, hp⟩ := hex
        obtain ⟨io', l₁, l₂, -, hp', hios, herase⟩ :=
          List.exists_of_eraseP (p := fun io => io.ctx = j ∧ io.res = none) hio
            (by simpa using hp)
        have hj : io'.ctx = j := (of_decide_eq_true hp').1
        have hcur := h.current_eq io' (by rw [hios]; simp)
        rw [hj] at hcur
        have := h.retire hios .timeout
        rw [if_pos hyes, ioCancel, herase, hcur, ← hj]
        exact this
      · exact h

end MultipathTools.IoErr
