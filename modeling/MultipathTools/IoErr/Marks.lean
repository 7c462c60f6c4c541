import MultipathTools.Base.Run
import MultipathTools.IoErr.Locks
import MultipathTools.Structs

/-! The marks of a path that may be flaky, `io_err_pathfail_cnt` and `io_err_disable_reinstate`.
Every event is what one thread does while it holds `vecs->lock`. -/
namespace MultipathTools.IoErr

def flakyPathfailThreshold : ℤ := 2

/-- A path with what its failures read and change. -/
structure FlakyPath extends CheckedPath where
  marginalPathDoubleFailedTime : ℕ := 60
  ioErrPathfailStarttime : ℕ := 0
  state : PathState := .up
  /-- `dmstate` is `PSTATE_FAILED`. -/
  dmstateFailed : Bool := false
  tick : ℕ := 1
  deriving DecidableEq, Repr

/-- The path has failed too often: it waits to be checked, and is marked as failed. -/
def FlakyPath.waitToCheck (checkint : ℕ) (path : FlakyPath) : FlakyPath :=
  let path := { path with
    ioErrDisableReinstate := true
    ioErrPathfailCnt := pathIoErrWaitingToCheck
    ioErrDisReinstateTime := 0 }
  if path.state = .down then path
  else { path with state := .down, dmstateFailed := true, tick := min path.tick checkint }

/-- A failure after the first one. -/
def FlakyPath.countPathfail (now checkint : ℕ) (path : FlakyPath) : FlakyPath :=
  let path :=
    if (tvSec now : ℤ) - path.ioErrPathfailStarttime > path.marginalPathDoubleFailedTime then
      { path with ioErrPathfailCnt := 0, ioErrPathfailStarttime := tvSec now }
    else path
  let path := { path with ioErrPathfailCnt := path.ioErrPathfailCnt + 1 }
  if path.ioErrPathfailCnt ≥ flakyPathfailThreshold then path.waitToCheck checkint else path

/-- `io_err_stat_handle_pathfail` and what it returns; `clock` is what `clock_gettime` reads. -/
def handlePathfail (running : Bool) (clock : Option ℕ) (checkint : ℕ) (path : FlakyPath) :
    FlakyPath × ℕ :=
  if !running then (path, 0)
  else if path.ioErrDisableReinstate then (path, 0)
  else if path.ioErrPathfailCnt < 0 then (path, 0)
  else if path.activePaths = none then (path, 0)
  else if !path.marginalPathCheckEnabled then (path, 0)
  else match clock with
    | none => (path, 1)
    | some now =>
      if path.ioErrPathfailCnt = 0 then
        ({ path with ioErrPathfailCnt := 1, ioErrPathfailStarttime := tvSec now }, 0)
      else (path.countPathfail now checkint, 0)

/-- `enqueue_io_err_stat_by_path` and whether it succeeds; `ok` is the success of its
allocations. -/
def enqueueIoErrStatByPath (queue : List WatchedPath) (ok : Bool) (path : CheckedPath) :
    List WatchedPath × Bool :=
  if queue.any (·.devname = path.dev) then (queue, true)
  else if ok then (queue ++ [{ devname := path.dev, totalTime := path.errSampleTime }], true)
  else (queue, false)

/-- The end of a check; a path that is good again is checked at the next tick. -/
def FlakyPath.afterCheck (now : ℕ) (good : Bool) (path : FlakyPath) : FlakyPath :=
  { path with
    toCheckedPath := IoErr.afterCheck now good path.toCheckedPath
    tick := if good then 1 else path.tick }

/-- The paths and the queue of the watching thread. -/
structure Marks where
  running : Bool := false
  pathvec : List FlakyPath := []
  queue : List WatchedPath := []
  /-- The place of the watched path whose check has ended and which `poll_io_err_stat` is still to
  delete; until then its thread holds `paths->mutex`. -/
  ended : Option ℕ := none
  deriving DecidableEq, Repr

inductive MarkEvent where
  /-- `start_io_err_stat_thread`. -/
  | start
  | pathfail (i : ℕ) (clock : Option ℕ) (checkint : ℕ)
  /-- `need_io_err_check`; `ok` is the success of the allocations. -/
  | check (i : ℕ) (clock : Option ℕ) (ok : Bool)
  | batch (j now : ℕ) (ok : Bool)
  /-- `poll_io_err_stat` up to its end; `good` tells whether the error rate is low enough. -/
  | poll (j : ℕ) (clock : Option ℕ) (good : Bool)
  | delete
  /-- Other code changes what it likes of a path, but for its name and its marks. -/
  | change (i : ℕ) (path : FlakyPath)
  | add (path : FlakyPath)
  | remove (i : ℕ)
  deriving DecidableEq, Repr

/-- The name and the marks of another path. -/
def FlakyPath.withMarks (path old : FlakyPath) : FlakyPath :=
  { path with
    dev := old.dev
    ioErrPathfailCnt := old.ioErrPathfailCnt
    ioErrDisableReinstate := old.ioErrDisableReinstate
    ioErrDisReinstateTime := old.ioErrDisReinstateTime
    ioErrPathfailStarttime := old.ioErrPathfailStarttime }

/-- The marks of a path that `alloc_path` has set to 0. -/
def FlakyPath.fresh (path : FlakyPath) : FlakyPath :=
  { path with
    ioErrPathfailCnt := 0
    ioErrDisableReinstate := false
    ioErrDisReinstateTime := 0
    ioErrPathfailStarttime := 0 }

/-- The checker puts the path into the queue, or recovers it if it cannot. -/
def Marks.enqueue (s : Marks) (i : ℕ) (ok : Bool) (pp : FlakyPath) : Marks :=
  let (queue, done) := enqueueIoErrStatByPath s.queue ok pp.toCheckedPath
  let checked := if done then inChecking pp.toCheckedPath else pp.toCheckedPath.recover
  { s with queue := queue, pathvec := s.pathvec.set i { pp with toCheckedPath := checked } }

def marksStep (s : Marks) : MarkEvent → Option Marks
  | .start => if s.running then none else some { s with running := true, queue := [] }
  | .pathfail i clock checkint => s.pathvec[i]?.map fun path =>
    { s with pathvec := s.pathvec.set i (handlePathfail s.running clock checkint path).1 }
  | .check i clock ok => s.pathvec[i]?.bind fun pp =>
    match needIoErrCheck { now := clock.getD 0, running := s.running } clock.isSome
      pp.toCheckedPath with
    | .no | .yes => some s
    | .recover =>
      some { s with pathvec := s.pathvec.set i { pp with toCheckedPath := pp.toCheckedPath.recover } }
    | .enqueue => if s.ended.isSome then none else some (s.enqueue i ok pp)
  | .batch j now ok => some { s with queue := s.queue.modify j (·.started now ok) }
  | .poll j clock good =>
    if s.ended.isSome then none
    else s.queue[j]?.map fun pp =>
      if checkEnds { now := clock.getD 0 } clock.isSome pp then
        { s with
          pathvec := s.pathvec.modify (s.pathvec.findIdx (·.dev = pp.devname))
            (FlakyPath.afterCheck (clock.getD 0) good)
          ended := some j }
      else s
  | .delete => s.ended.map fun j => { s with queue := s.queue.eraseIdx j, ended := none }
  | .change i path => s.pathvec[i]?.map fun old =>
    { s with pathvec := s.pathvec.set i (path.withMarks old) }
  | .add path => some { s with pathvec := s.pathvec ++ [path.fresh] }
  | .remove i => some { s with pathvec := s.pathvec.eraseIdx i }

/-- The flag is set with one of the negative markers only, and the counter is otherwise 0 or 1. -/
structure CheckedPath.Coherent (pp : CheckedPath) : Prop where
  disabled_iff : pp.ioErrDisableReinstate = true ↔
    pp.ioErrPathfailCnt = pathIoErrInChecking ∨ pp.ioErrPathfailCnt = pathIoErrWaitingToCheck
  cnt_cases : pp.ioErrPathfailCnt = pathIoErrInChecking ∨
    pp.ioErrPathfailCnt = pathIoErrWaitingToCheck ∨ pp.ioErrPathfailCnt = 0 ∨
    pp.ioErrPathfailCnt = 1

/-- What an event can do to the marks of a path, when `queue` is the queue after it. -/
inductive MarkChange (queue : List WatchedPath) (pp pp' : CheckedPath) : Prop
  | same (hcnt : pp'.ioErrPathfailCnt = pp.ioErrPathfailCnt)
      (hdis : pp'.ioErrDisableReinstate = pp.ioErrDisableReinstate)
  | counted (hcnt : pp'.ioErrPathfailCnt = 1) (hdis : pp'.ioErrDisableReinstate = false)
  | waiting (hcnt : pp'.ioErrPathfailCnt = pathIoErrWaitingToCheck)
      (hdis : pp'.ioErrDisableReinstate = true)
  | checking (hold : pp.ioErrPathfailCnt = pathIoErrWaitingToCheck)
      (hcnt : pp'.ioErrPathfailCnt = pathIoErrInChecking)
      (hdis : pp'.ioErrDisableReinstate = pp.ioErrDisableReinstate)
      (hqueue : ∃ p ∈ queue, p.devname = pp'.dev)
  | recovered (hcnt : pp'.ioErrPathfailCnt = 0) (hdis : pp'.ioErrDisableReinstate = false)

theorem MarkChange.coherent {queue : List WatchedPath} {pp pp' : CheckedPath}
    (h : MarkChange queue pp pp') (hpp : pp.Coherent) : pp'.Coherent := by
  obtain ⟨hiff, hcases⟩ := hpp
  cases h with
  | same hcnt hdis => exact ⟨by rw [hcnt, hdis, hiff], by rwa [hcnt]⟩
  | counted hcnt hdis =>
    exact ⟨by simp [hcnt, hdis, pathIoErrInChecking, pathIoErrWaitingToCheck], by simp [hcnt]⟩
  | waiting hcnt hdis => exact ⟨by simp [hcnt, hdis], by simp [hcnt]⟩
  | checking hold hcnt hdis hqueue =>
    have hset : pp.ioErrDisableReinstate = true := hiff.mpr (.inr hold)
    exact ⟨by simp [hcnt, hdis, hset], by simp [hcnt]⟩
  | recovered hcnt hdis =>
    exact ⟨by simp [hcnt, hdis, pathIoErrInChecking, pathIoErrWaitingToCheck], by simp [hcnt]⟩

/-- A path gets the mark of a running check only while its device is in the queue. -/
theorem MarkChange.queued {queue : List WatchedPath} {pp pp' : CheckedPath}
    (h : MarkChange queue pp pp') (hin : pp'.ioErrPathfailCnt = pathIoErrInChecking) :
    pp.ioErrPathfailCnt = pathIoErrInChecking ∨ ∃ p ∈ queue, p.devname = pp'.dev := by
  cases h with
  | same hcnt _ => exact .inl (hcnt ▸ hin)
  | checking _ _ _ hqueue => exact .inr hqueue
  | counted hcnt _ | waiting hcnt _ | recovered hcnt _ =>
    rw [hcnt] at hin
    exact absurd hin (by decide)

/-! The three functions change the marks so. -/

section Functions

variable (queue : List WatchedPath)

theorem waitToCheck_marks (checkint : ℕ) (path : FlakyPath) :
    (path.waitToCheck checkint).ioErrPathfailCnt = pathIoErrWaitingToCheck ∧
      (path.waitToCheck checkint).ioErrDisableReinstate = true ∧
      (path.waitToCheck checkint).dev = path.dev := by
  unfold FlakyPath.waitToCheck
  dsimp only
  split <;> exact ⟨rfl, rfl, rfl⟩

theorem countPathfail_dev (now checkint : ℕ) (path : FlakyPath) :
    (path.countPathfail now checkint).dev = path.dev := by
  unfold FlakyPath.countPathfail
  dsimp only
  split <;> split
  · exact (waitToCheck_marks checkint _).2.2
  · rfl
  · exact (waitToCheck_marks checkint _).2.2
  · rfl

/-- The failure after the first one starts the count again if it comes late, and has the path
wait for a check otherwise. -/
theorem countPathfail_change {now checkint : ℕ} {path : FlakyPath}
    (hdis : path.ioErrDisableReinstate = false) (hcnt : 1 ≤ path.ioErrPathfailCnt) :
    MarkChange queue path.toCheckedPath (path.countPathfail now checkint).toCheckedPath := by
  unfold FlakyPath.countPathfail
  dsimp only
  split
  · -- the count of the expired time is 0, so this failure is the first one again
    rw [if_neg (by dsimp only [flakyPathfailThreshold]; omega)]
    exact .counted rfl hdis
  · rw [if_pos (by dsimp only [flakyPathfailThreshold]; omega)]
    obtain ⟨hc, hd, -⟩ := waitToCheck_marks checkint
      { path with ioErrPathfailCnt := path.ioErrPathfailCnt + 1 }
    exact .waiting hc hd

theorem handlePathfail_dev (running : Bool) (clock : Option ℕ) (checkint : ℕ) (path : FlakyPath) :
    (handlePathfail running clock checkint path).1.dev = path.dev := by
  unfold handlePathfail
  cases clock with
  | none => split_ifs <;> rfl
  | some now =>
    split_ifs
    all_goals first | rfl | exact countPathfail_dev now checkint path

theorem handlePathfail_change (running : Bool) (clock : Option ℕ) (checkint : ℕ)
    (path : FlakyPath) :
    MarkChange queue path.toCheckedPath
      (handlePathfail running clock checkint path).1.toCheckedPath := by
  unfold handlePathfail
  cases clock with
  | none => split_ifs <;> exact .same rfl rfl
  | some now =>
    split_ifs with hrun hdis hneg hmpp hen hcnt
    · exact .same rfl rfl
    · exact .same rfl rfl
    · exact .same rfl rfl
    · exact .same rfl rfl
    · exact .same rfl rfl
    · exact .counted rfl (by simpa using hdis)
    · exact countPathfail_change queue (by simpa using hdis) (by omega)

theorem afterCheck_change (now : ℕ) (good : Bool) (path : FlakyPath) :
    MarkChange queue path.toCheckedPath (path.afterCheck now good).toCheckedPath := by
  change MarkChange queue path.toCheckedPath (IoErr.afterCheck now good path.toCheckedPath)
  unfold IoErr.afterCheck
  split
  · exact .waiting rfl rfl
  · exact .recovered rfl rfl

theorem afterCheck_dev (now : ℕ) (good : Bool) (path : FlakyPath) :
    (path.afterCheck now good).dev = path.dev := by
  change (IoErr.afterCheck now good path.toCheckedPath).dev = path.dev
  unfold IoErr.afterCheck
  split <;> rfl

end Functions

/-- A path of the list after an event has clear marks, or comes from a path before it. -/
def FromBefore (s s' : Marks) (pp' : FlakyPath) : Prop :=
  ∃ pp ∈ s.pathvec, pp'.dev = pp.dev ∧ MarkChange s'.queue pp.toCheckedPath pp'.toCheckedPath

theorem FromBefore.of_mem {s s' : Marks} {pp : FlakyPath} (h : pp ∈ s.pathvec) :
    FromBefore s s' pp :=
  ⟨pp, h, rfl, .same rfl rfl⟩

theorem FromBefore.of_set {s s' : Marks} {i : ℕ} {pp new pp' : FlakyPath}
    (hi : s.pathvec[i]? = some pp) (hdev : new.dev = pp.dev)
    (hnew : MarkChange s'.queue pp.toCheckedPath new.toCheckedPath)
    (hpp : pp' ∈ s.pathvec.set i new) : FromBefore s s' pp' := by
  obtain hold | rfl := List.mem_or_eq_of_mem_set hpp
  · exact .of_mem hold
  · exact ⟨pp, List.mem_of_getElem? hi, hdev, hnew⟩

theorem FromBefore.of_modify {s s' : Marks} {i : ℕ} {f : FlakyPath → FlakyPath} {pp' : FlakyPath}
    (hf : ∀ pp, (f pp).dev = pp.dev ∧
      MarkChange s'.queue pp.toCheckedPath (f pp).toCheckedPath)
    (hpp : pp' ∈ s.pathvec.modify i f) : FromBefore s s' pp' := by
  obtain ⟨k, hk⟩ := List.mem_iff_getElem?.mp hpp
  rw [List.getElem?_modify] at hk
  obtain ⟨pp, hget, rfl⟩ := Option.map_eq_some_iff.mp hk
  split
  · exact ⟨pp, List.mem_of_getElem? hget, hf pp⟩
  · exact .of_mem (List.mem_of_getElem? hget)

/-- A path that could be put into the queue is in it. -/
theorem enqueueIoErrStatByPath_queued {queue : List WatchedPath} {ok : Bool} {path : CheckedPath}
    (h : (enqueueIoErrStatByPath queue ok path).2 = true) :
    ∃ p ∈ (enqueueIoErrStatByPath queue ok path).1, p.devname = path.dev := by
  unfold enqueueIoErrStatByPath at h ⊢
  split_ifs at h ⊢ with hfound
  · simpa using hfound
  · exact ⟨_, List.mem_append_right _ (List.mem_singleton_self _), rfl⟩

theorem enqueue_fromBefore {s : Marks} {i : ℕ} {ok : Bool} {pp pp' : FlakyPath}
    (hi : s.pathvec[i]? = some pp) (hwait : pp.ioErrPathfailCnt = pathIoErrWaitingToCheck)
    (hpp : pp' ∈ (s.enqueue i ok pp).pathvec) : FromBefore s (s.enqueue i ok pp) pp' := by
  cases hdone : (enqueueIoErrStatByPath s.queue ok pp.toCheckedPath).2 with
  | true =>
    simp only [Marks.enqueue, hdone, if_true] at hpp
    refine .of_set hi ?_ ?_ hpp
    · rfl
    · exact .checking hwait rfl rfl (enqueueIoErrStatByPath_queued hdone)
  | false =>
    simp only [Marks.enqueue, hdone, Bool.false_eq_true, if_false] at hpp
    refine .of_set hi ?_ ?_ hpp
    · rfl
    · exact .recovered rfl rfl

theorem needIoErrCheck_enqueue {s : Threads} {clockOk : Bool} {pp : CheckedPath}
    (h : needIoErrCheck s clockOk pp = .enqueue) :
    pp.ioErrPathfailCnt = pathIoErrWaitingToCheck := by
  unfold needIoErrCheck at h
  split_ifs at h with hrun hact hcnt
  exact not_ne_iff.mp hcnt

/-- The step lemma: what an event does to the marks of any path. -/
theorem marksStep_mem {s s' : Marks} {e : MarkEvent} (h : marksStep s e = some s')
    {pp' : FlakyPath} (hpp : pp' ∈ s'.pathvec) :
    (pp'.ioErrPathfailCnt = 0 ∧ pp'.ioErrDisableReinstate = false) ∨ FromBefore s s' pp' := by
  cases e with
  | start =>
    simp only [marksStep, Option.ite_none_left_eq_some, Option.some.injEq] at h
    obtain ⟨-, rfl⟩ := h
    exact .inr (.of_mem hpp)
  | pathfail i clock checkint =>
    obtain ⟨path, hi, rfl⟩ := Option.map_eq_some_iff.mp h
    exact .inr (.of_set hi (handlePathfail_dev s.running clock checkint path)
      (handlePathfail_change _ s.running clock checkint path) hpp)
  | check i clock ok =>
    obtain ⟨pp, hi, hcheck⟩ := Option.bind_eq_some_iff.mp h
    right
    split at hcheck
    case h_1 | h_2 =>
      cases hcheck
      exact .of_mem hpp
    case h_3 =>
      cases hcheck
      refine .of_set hi ?_ ?_ hpp
      · rfl
      · exact .recovered rfl rfl
    case h_4 hneed =>
      split at hcheck <;> cases hcheck
      exact enqueue_fromBefore hi (needIoErrCheck_enqueue hneed) hpp
  | batch j now ok =>
    cases h
    exact .inr (.of_mem hpp)
  | poll j clock good =>
    simp only [marksStep, Option.ite_none_left_eq_some] at h
    obtain ⟨p, -, rfl⟩ := Option.map_eq_some_iff.mp h.2
    right
    split at hpp
    · exact .of_modify (fun pp => ⟨afterCheck_dev _ good pp, afterCheck_change _ _ good pp⟩) hpp
    · exact .of_mem hpp
  | delete =>
    obtain ⟨j, -, rfl⟩ := Option.map_eq_some_iff.mp h
    exact .inr (.of_mem hpp)
  | change i path =>
    obtain ⟨old, hi, rfl⟩ := Option.map_eq_some_iff.mp h
    right
    refine .of_set hi ?_ ?_ hpp
    · rfl
    · exact .same rfl rfl
  | add path =>
    cases h
    obtain hold | hnew := List.mem_append.mp hpp
    · exact .inr (.of_mem hold)
    · rw [List.mem_singleton.mp hnew]
      exact .inl ⟨rfl, rfl⟩
  | remove i =>
    cases h
    exact .inr (.of_mem (List.mem_of_mem_eraseIdx hpp))

theorem coherent_of_clear {pp : CheckedPath} (hcnt : pp.ioErrPathfailCnt = 0)
    (hdis : pp.ioErrDisableReinstate = false) : pp.Coherent :=
  ⟨by simp [hcnt, hdis, pathIoErrInChecking, pathIoErrWaitingToCheck], by simp [hcnt]⟩

/-- The marks of all paths are coherent. -/
def Marks.Coherent (s : Marks) : Prop := ∀ pp ∈ s.pathvec, pp.toCheckedPath.Coherent

theorem marksStep_coherent {s s' : Marks} {e : MarkEvent} (h : marksStep s e = some s')
    (hs : s.Coherent) : s'.Coherent := by
  intro pp' hpp
  obtain ⟨hcnt, hdis⟩ | ⟨pp, hmem, -, hchange⟩ := marksStep_mem h hpp
  · exact coherent_of_clear hcnt hdis
  · exact hchange.coherent (hs pp hmem)

/-- A path that is marked as being checked after the event was so before, or its device is in the
queue. -/
def MarkedWhenQueued (s s' : Marks) : Prop :=
  ∀ pp' ∈ s'.pathvec, pp'.ioErrPathfailCnt = pathIoErrInChecking →
    (∃ pp ∈ s.pathvec, pp.dev = pp'.dev ∧ pp.ioErrPathfailCnt = pathIoErrInChecking) ∨
      ∃ p ∈ s'.queue, p.devname = pp'.dev

theorem marksStep_queued {s s' : Marks} {e : MarkEvent} (h : marksStep s e = some s') :
    MarkedWhenQueued s s' := by
  intro pp' hpp hin
  obtain ⟨hcnt, -⟩ | ⟨pp, hmem, hdev, hchange⟩ := marksStep_mem h hpp
  · rw [hcnt] at hin
    exact absurd hin (by decide)
  · obtain hbefore | hqueued := hchange.queued hin
    · exact .inl ⟨pp, hmem, hdev.symm, hbefore⟩
    · exact .inr hqueued

/-- The run lemma: a path that is marked as being checked was so at the start, or its device was
in the queue at some time of the run. -/
theorem run_queued {es : List MarkEvent} {s t : Marks} (hr : run marksStep s es = some t)
    {pp : FlakyPath} (hpp : pp ∈ t.pathvec) (hin : pp.ioErrPathfailCnt = pathIoErrInChecking) :
    (∃ old ∈ s.pathvec, old.dev = pp.dev ∧ old.ioErrPathfailCnt = pathIoErrInChecking) ∨
      ∃ n s', run marksStep s (es.take n) = some s' ∧ ∃ p ∈ s'.queue, p.devname = pp.dev := by
  induction es generalizing s with
  | nil =>
    cases hr
    exact .inl ⟨pp, hpp, rfl, hin⟩
  | cons e es ih =>
    obtain ⟨s', hs', hr'⟩ := Option.bind_eq_some_iff.mp hr
    obtain ⟨old, hold, hdev, holdin⟩ | ⟨n, u, hu, hqueued⟩ := ih hr'
    · rw [← hdev]
      obtain hbefore | hqueued := marksStep_queued hs' old hold holdin
      · exact .inl hbefore
      · exact .inr ⟨1, s', by simp [hs'], hqueued⟩
    · exact .inr ⟨n + 1, u, by simp [hs', hu], hqueued⟩

/-- In every run from paths with clear marks and an empty queue the flag and the counter agree, and
a path is marked as being checked only when it was put into the queue. -/
theorem run_marks (running : Bool) (pathvec : List FlakyPath) (es : List MarkEvent) (t : Marks)
    (hclear : ∀ pp ∈ pathvec, pp.ioErrPathfailCnt = 0 ∧ pp.ioErrDisableReinstate = false)
    (hr : run marksStep { running := running, pathvec := pathvec } es = some t) :
    (∀ pp ∈ t.pathvec,
      (pp.ioErrDisableReinstate = true ↔ pp.ioErrPathfailCnt = pathIoErrInChecking ∨
        pp.ioErrPathfailCnt = pathIoErrWaitingToCheck) ∧
      (pp.ioErrPathfailCnt = pathIoErrInChecking ∨ pp.ioErrPathfailCnt = pathIoErrWaitingToCheck ∨
        pp.ioErrPathfailCnt = 0 ∨ pp.ioErrPathfailCnt = 1)) ∧
    Along marksStep (fun s _ s' => MarkedWhenQueued s s')
      { running := running, pathvec := pathvec } es ∧
    ∀ pp ∈ t.pathvec, pp.ioErrPathfailCnt = pathIoErrInChecking →
      ∃ n s, run marksStep { running := running, pathvec := pathvec } (es.take n) = some s ∧
        ∃ p ∈ s.queue, p.devname = pp.dev := by
  have hstart : Marks.Coherent { running := running, pathvec := pathvec } := fun pp hpp =>
    coherent_of_clear (hclear pp hpp).1 (hclear pp hpp).2
  refine ⟨?_, ?_, ?_⟩
  · have hend : t.Coherent := run_invariant Marks.Coherent
      (fun _ _ _ h _ hs => marksStep_coherent h hs) hstart (along_true _ es) hr
    intro pp hpp
    exact ⟨(hend pp hpp).disabled_iff, (hend pp hpp).cnt_cases⟩
  · exact Along.imp (fun s e s' (h : marksStep s e = some s') _ => marksStep_queued h)
      (along_true _ es)
  · intro pp hpp hin
    obtain ⟨old, hold, -, holdin⟩ | hqueued := run_queued hr hpp hin
    · rw [(hclear old hold).1] at holdin
      exact absurd holdin (by decide)
    · exact hqueued

/-- A path fails twice, is checked, found bad, and checked once more. -/
def flakyRun : List MarkEvent :=
  [.start, .pathfail 0 (some (10 * 10 ^ 9)) 5, .pathfail 0 (some (20 * 10 ^ 9)) 5,
    .check 0 (some (100 * 10 ^ 9)) true, .batch 0 (101 * 10 ^ 9) true,
    .poll 0 (some (300 * 10 ^ 9)) false, .delete, .check 0 none true]

theorem run_marks_flaky :
    ∃ t, run marksStep { pathvec := [{ dev := "sda".toList }] } flakyRun = some t ∧
      t.pathvec.map (·.ioErrPathfailCnt) = [pathIoErrInChecking] ∧
      ∀ pp ∈ t.pathvec, (pp.ioErrDisableReinstate = true ↔
        pp.ioErrPathfailCnt = pathIoErrInChecking ∨
          pp.ioErrPathfailCnt = pathIoErrWaitingToCheck) :=
  ⟨_, rfl, rfl, fun pp hpp => ((run_marks false [{ dev := "sda".toList }] flakyRun _
    (by simp) rfl).1 pp hpp).1⟩

end MultipathTools.IoErr
