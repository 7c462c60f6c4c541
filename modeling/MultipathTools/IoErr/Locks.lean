import MultipathTools.IoErr.Accounting

/-! The locks of the checker thread and of the thread that watches IO errors: `vecs->lock` and
`paths->mutex`. -/
namespace MultipathTools.IoErr

inductive Lock where
  | vecs | paths
  deriving DecidableEq, Repr

/-- `PATH_IO_ERR_IN_CHECKING` and `PATH_IO_ERR_WAITING_TO_CHECK`. -/
def pathIoErrInChecking : ℤ := -1
def pathIoErrWaitingToCheck : ℤ := -2

/-- What the two threads read of a path and of its map. -/
structure CheckedPath where
  dev : CStr
  marginalPathCheckEnabled : Bool := true
  /-- `path->mpp` is set, with `count_active_paths` of it. -/
  activePaths : Option ℕ := some 1
  recheckGapTime : ℕ := 60
  errSampleTime : ℕ := 120
  ioErrPathfailCnt : ℤ := 0
  ioErrDisableReinstate : Bool := false
  ioErrDisReinstateTime : ℕ := 0
  deriving DecidableEq, Repr

/-- Reinstating is enabled again (`recover`). -/
def CheckedPath.recover (pp : CheckedPath) : CheckedPath :=
  { pp with ioErrPathfailCnt := 0, ioErrDisableReinstate := false }

/-- A path in the queue of the watching thread. -/
structure WatchedPath where
  devname : CStr
  startTime : ℕ := 0
  totalTime : ℕ
  deriving DecidableEq, Repr

/-- Where the checker thread is. The places from `wantPaths` on are in
`enqueue_io_err_stat_by_path` for the path at the position. -/
inductive CheckerPc where
  | idle | wantVecs | checking (i : ℕ)
  | wantPaths (i : ℕ) | finding (i : ℕ) | allocating (i : ℕ) | wantPathsAgain (i : ℕ)
  | inserting (i : ℕ)
  deriving DecidableEq, Repr

/-- Where the watching thread is: in `service_paths` from `wantPaths` on, at the end of
`poll_io_err_stat` for the watched path at the position from `wantVecs` on. -/
inductive WatcherPc where
  | idle | wantPaths | serving (i : ℕ) | wantVecs (i : ℕ) | updating (i : ℕ)
  deriving DecidableEq, Repr

def CheckerPc.holds : CheckerPc → Lock → Bool
  | .idle, _ | .wantVecs, _ => false
  | _, .vecs => true
  | .finding _, .paths | .inserting _, .paths => true
  | _, .paths => false

def CheckerPc.waits : CheckerPc → Option Lock
  | .wantVecs => some .vecs
  | .wantPaths _ | .wantPathsAgain _ => some .paths
  | _ => none

def CheckerPc.enqueuing : CheckerPc → Bool
  | .wantPaths _ | .finding _ | .allocating _ | .wantPathsAgain _ | .inserting _ => true
  | _ => false

def WatcherPc.holds : WatcherPc → Lock → Bool
  | .serving _, .paths | .wantVecs _, .paths | .updating _, _ => true
  | _, _ => false

def WatcherPc.waits : WatcherPc → Option Lock
  | .wantPaths => some .paths
  | .wantVecs _ => some .vecs
  | _ => none

/-- The two threads and the data that their locks guard. -/
structure Threads where
  now : ℕ := 1
  /-- `io_err_thread_running`. -/
  running : Bool := true
  pathvec : List CheckedPath := []
  queue : List WatchedPath := []
  checker : CheckerPc := .idle
  watcher : WatcherPc := .idle
  deriving DecidableEq, Repr

/-- What `need_io_err_check` decides. -/
inductive NeedCheck where
  | no | recover | yes | enqueue
  deriving DecidableEq, Repr

/-- `need_io_err_check`; `clockOk` is the success of `clock_gettime`. -/
def needIoErrCheck (s : Threads) (clockOk : Bool) (pp : CheckedPath) : NeedCheck :=
  if !s.running then .no
  else if pp.activePaths.getD 0 = 0 then .recover
  else if pp.ioErrPathfailCnt ≠ pathIoErrWaitingToCheck then .yes
  else if !clockOk || (tvSec s.now : ℤ) - pp.ioErrDisReinstateTime > pp.recheckGapTime then .enqueue
  else .yes

/-- `should_skip_path`, as far as it has to do with the watching thread. -/
def shouldSkipPath (s : Threads) (clockOk : Bool) (pp : CheckedPath) : NeedCheck :=
  if pp.marginalPathCheckEnabled && pp.ioErrDisableReinstate then needIoErrCheck s clockOk pp
  else .no

/-- `poll_io_err_stat` gets to the end of the check. -/
def checkEnds (s : Threads) (clockOk : Bool) (pp : WatchedPath) : Bool :=
  clockOk && tvSec (s.now - pp.startTime) ≥ pp.totalTime

/-- The first batch of IOs sets the start time, if it can read the clock. -/
def WatchedPath.started (pp : WatchedPath) (now : ℕ) (batchOk : Bool) : WatchedPath :=
  if batchOk && pp.startTime = 0 then { pp with startTime := now } else pp

/-- What `poll_io_err_stat` does to the path whose check has ended; `good` tells whether the error
rate is low enough. -/
def afterCheck (now : ℕ) (good : Bool) (path : CheckedPath) : CheckedPath :=
  if !good && path.activePaths.getD 0 > 0 then
    { path with
      ioErrPathfailCnt := pathIoErrWaitingToCheck
      ioErrDisableReinstate := true
      ioErrDisReinstateTime := tvSec now }
  else path.recover

inductive CheckerEvent where
  | round
  /-- The thread gets the lock that it waits for. -/
  | lock
  /-- `check_path` for the next path; `reached` tells that it comes to `should_skip_path`. -/
  | check (reached clockOk : Bool)
  | find
  | allocate (ok : Bool)
  | insert (ok : Bool)
  | unlock
  deriving DecidableEq, Repr

inductive WatcherEvent where
  | round
  | lock
  /-- The batch, the events and the timeouts for the next watched path, and `poll_io_err_stat`;
  the first and the last may fail to read the clock. -/
  | serve (batchOk clockOk : Bool)
  | update (good : Bool)
  | unlock
  deriving DecidableEq, Repr

def Threads.setPath (s : Threads) (i : ℕ) (f : CheckedPath → CheckedPath) : Threads :=
  { s with pathvec := s.pathvec.modify i f, checker := .checking (i + 1) }

def inChecking (pp : CheckedPath) : CheckedPath := { pp with ioErrPathfailCnt := pathIoErrInChecking }

def checkerStep (s : Threads) (e : CheckerEvent) : Option Threads :=
  match s.checker, e with
  | .idle, .round => some { s with checker := .wantVecs }
  | .wantVecs, .lock =>
    if s.watcher.holds .vecs then none else some { s with checker := .checking 0 }
  | .checking i, .check reached clockOk =>
    s.pathvec[i]?.map fun pp =>
      if reached then
        match shouldSkipPath s clockOk pp with
        | .no | .yes => { s with checker := .checking (i + 1) }
        | .recover => s.setPath i CheckedPath.recover
        | .enqueue => { s with checker := .wantPaths i }
      else { s with checker := .checking (i + 1) }
  | .wantPaths i, .lock =>
    if s.watcher.holds .paths then none else some { s with checker := .finding i }
  | .finding i, .find =>
    s.pathvec[i]?.map fun pp =>
      if s.queue.any (·.devname = pp.dev) then s.setPath i inChecking
      else { s with checker := .allocating i }
  | .allocating i, .allocate ok =>
    some (if ok then { s with checker := .wantPathsAgain i } else s.setPath i CheckedPath.recover)
  | .wantPathsAgain i, .lock =>
    if s.watcher.holds .paths then none else some { s with checker := .inserting i }
  | .inserting i, .insert ok =>
    s.pathvec[i]?.map fun pp =>
      if ok then
        { s.setPath i inChecking with
          queue := s.queue ++ [{ devname := pp.dev, totalTime := pp.errSampleTime }] }
      else s.setPath i CheckedPath.recover
  | .checking i, .unlock =>
    if s.pathvec.length ≤ i then some { s with checker := .idle } else none
  | _, _ => none

def watcherStep (s : Threads) (e : WatcherEvent) : Option Threads :=
  match s.watcher, e with
  | .idle, .round => some { s with watcher := .wantPaths }
  | .wantPaths, .lock =>
    if s.checker.holds .paths then none else some { s with watcher := .serving 0 }
  | .serving i, .serve batchOk clockOk =>
    s.queue[i]?.map fun pp =>
      { s with
        queue := s.queue.set i (pp.started s.now batchOk)
        watcher := if checkEnds s clockOk (pp.started s.now batchOk) then .wantVecs i
          else .serving (i + 1) }
  | .wantVecs i, .lock =>
    if s.checker.holds .vecs then none else some { s with watcher := .updating i }
  | .updating i, .update good =>
    s.queue[i]?.map fun pp =>
      -- the slot of the deleted path is taken by the next one, which the loop leaves out
      { s with
        pathvec := s.pathvec.modify (s.pathvec.findIdx (·.dev = pp.devname)) (afterCheck s.now good)
        queue := s.queue.eraseIdx i
        watcher := .serving (i + 1) }
  | .serving i, .unlock =>
    if s.queue.length ≤ i then some { s with watcher := .idle } else none
  | _, _ => none

inductive LockEvent where
  | tick (nsec : ℕ)
  /-- Other threads change the paths under `vecs->lock`. -/
  | change (pathvec : List CheckedPath) (running : Bool)
  | checker (e : CheckerEvent)
  | watcher (e : WatcherEvent)
  deriving DecidableEq, Repr

def lockStep (s : Threads) : LockEvent → Option Threads
  | .tick nsec => some { s with now := s.now + nsec }
  | .change pathvec running =>
    if s.checker.holds .vecs || s.watcher.holds .vecs then none
    else some { s with pathvec := pathvec, running := running }
  | .checker e => checkerStep s e
  | .watcher e => watcherStep s e

/-- Each thread holds one of the locks and waits for the other one, which the other thread
holds. -/
def Deadlock (s : Threads) : Prop :=
  ∃ l l', l ≠ l' ∧ s.checker.holds l = true ∧ s.checker.waits = some l' ∧
    s.watcher.holds l' = true ∧ s.watcher.waits = some l

/-- The check of the next watched path ends. -/
def EndsNext (s : Threads) (batchOk clockOk : Bool) : Prop :=
  ∃ i pp, s.watcher = .serving i ∧ s.queue[i]? = some pp ∧
    checkEnds s clockOk (pp.started s.now batchOk) = true

/-- The next path of the checker is due to be enqueued. -/
def DueNext (s : Threads) (clockOk : Bool) : Prop :=
  ∃ i pp, s.checker = .checking i ∧ s.pathvec[i]? = some pp ∧
    shouldSkipPath s clockOk pp = .enqueue

/-- No check ends while the checker enqueues a path, and no path is due to be enqueued while the
watching thread waits at the end of a check. -/
def Apart (s : Threads) : LockEvent → Prop
  | .checker (.check true clockOk) => DueNext s clockOk → s.watcher.waits ≠ some .vecs
  | .watcher (.serve batchOk clockOk) =>
    EndsNext s batchOk clockOk → s.checker.enqueuing = false
  | _ => True

/-- The checker is enqueueing a path while the watching thread waits for `vecs->lock`. -/
def Crossed (s : Threads) : Prop := s.checker.enqueuing = true ∧ s.watcher.waits = some .vecs

/-- A checker that holds a lock and waits is enqueueing a path, and waits for `paths->mutex`. -/
theorem CheckerPc.enqueuing_of_waits {pc : CheckerPc} {l l' : Lock} (h : pc.holds l = true)
    (hw : pc.waits = some l') : pc.enqueuing = true ∧ l' = .paths := by
  cases pc with
  | wantVecs => cases h
  | wantPaths i => exact ⟨rfl, (Option.some.inj hw).symm⟩
  | wantPathsAgain i => exact ⟨rfl, (Option.some.inj hw).symm⟩
  | _ => cases hw

theorem Deadlock.crossed {s : Threads} (h : Deadlock s) : Crossed s := by
  obtain ⟨l, l', hne, hch, hcw, -, hww⟩ := h
  obtain ⟨henq, rfl⟩ := CheckerPc.enqueuing_of_waits hch hcw
  constructor
  · exact henq
  · cases l with
    | vecs => exact hww
    | paths => exact absurd rfl hne

theorem checkerStep_watcher {s s' : Threads} {e : CheckerEvent} (h : checkerStep s e = some s') :
    s'.watcher = s.watcher := by
  unfold checkerStep at h
  split at h
  case h_3 =>
    obtain ⟨pp, -, rfl⟩ := Option.map_eq_some_iff.mp h
    split
    · split <;> rfl
    · rfl
  case h_5 | h_8 =>
    obtain ⟨pp, -, rfl⟩ := Option.map_eq_some_iff.mp h
    split <;> rfl
  case h_6 =>
    cases h
    split <;> rfl
  case h_1 | h_10 =>
    cases h <;> rfl
  all_goals
    split at h <;> cases h
    rfl

theorem watcherStep_checker {s s' : Threads} {e : WatcherEvent} (h : watcherStep s e = some s') :
    s'.checker = s.checker := by
  unfold watcherStep at h
  split at h
  case h_3 | h_5 =>
    obtain ⟨pp, -, rfl⟩ := Option.map_eq_some_iff.mp h
    rfl
  case h_1 | h_7 =>
    cases h <;> rfl
  all_goals
    split at h <;> cases h
    rfl

/-- The checker starts to enqueue a path only where the next one is due. -/
theorem checkerStep_enqueuing {s s' : Threads} {e : CheckerEvent} (h : checkerStep s e = some s')
    (henq : s'.checker.enqueuing = true) :
    s.checker.enqueuing = true ∨ ∃ clockOk, e = .check true clockOk ∧ DueNext s clockOk := by
  unfold checkerStep at h
  split at h
  case h_1 =>
    cases h
    cases henq
  case h_2 =>
    split at h <;> cases h
    cases henq
  case h_3 i reached clockOk hc =>
    obtain ⟨pp, hpp, rfl⟩ := Option.map_eq_some_iff.mp h
    right
    cases reached with
    | false => cases henq
    | true =>
      refine ⟨clockOk, rfl, i, pp, hc, hpp, ?_⟩
      by_contra hno
      revert henq
      rw [if_pos rfl]
      split <;> first | contradiction | simp [CheckerPc.enqueuing, Threads.setPath]
  case h_9 =>
    split at h <;> cases h
    cases henq
  case h_10 => cases h
  all_goals
    rename_i hc
    left
    rw [hc]
    rfl

/-- The watching thread comes to wait for `vecs->lock` only where the next check ends. -/
theorem watcherStep_waits {s s' : Threads} {e : WatcherEvent} (h : watcherStep s e = some s')
    (hwait : s'.watcher.waits = some .vecs) :
    s.watcher.waits = some .vecs ∨ ∃ batchOk clockOk, e = .serve batchOk clockOk ∧
      EndsNext s batchOk clockOk := by
  unfold watcherStep at h
  split at h
  case h_1 =>
    cases h
    cases hwait
  case h_2 =>
    split at h <;> cases h
    cases hwait
  case h_3 i batchOk clockOk hw =>
    obtain ⟨pp, hpp, rfl⟩ := Option.map_eq_some_iff.mp h
    right
    refine ⟨batchOk, clockOk, rfl, i, pp, hw, hpp, ?_⟩
    by_contra hno
    rw [if_neg hno] at hwait
    cases hwait
  case h_4 i hw =>
    left
    rw [hw]
    rfl
  case h_5 =>
    obtain ⟨pp, -, rfl⟩ := Option.map_eq_some_iff.mp h
    cases hwait
  case h_6 =>
    split at h <;> cases h
    cases hwait
  case h_7 => cases h

/-- The step lemma: under the condition, the two threads do not cross. -/
theorem not_crossed_step {s s' : Threads} {e : LockEvent} (h : lockStep s e = some s')
    (ha : Apart s e) (hs : ¬ Crossed s) : ¬ Crossed s' := by
  intro hcross
  obtain ⟨henq, hwait⟩ := hcross
  cases e with
  | tick nsec =>
    cases h
    exact hs ⟨henq, hwait⟩
  | change pathvec running =>
    simp only [lockStep] at h
    split at h <;> cases h
    exact hs ⟨henq, hwait⟩
  | checker e =>
    rw [checkerStep_watcher h] at hwait
    obtain henq | hdue := checkerStep_enqueuing h henq
    · exact hs ⟨henq, hwait⟩
    · obtain ⟨clockOk, rfl, hdue⟩ := hdue
      exact ha hdue hwait
  | watcher e =>
    rw [watcherStep_checker h] at henq
    obtain hwait | hends := watcherStep_waits h hwait
    · exact hs ⟨henq, hwait⟩
    · obtain ⟨batchOk, clockOk, rfl, hends⟩ := hends
      rw [ha hends] at henq
      cases henq

/-- In every run in which the end of a check and the enqueueing of a path do not overlap, the two
threads do not get into a deadlock. -/
theorem run_no_deadlock (now : ℕ) (running : Bool) (pathvec : List CheckedPath)
    (queue : List WatchedPath) (es : List LockEvent) (s : Threads)
    (ha : Along lockStep (fun s e _ => Apart s e)
      { now := now, running := running, pathvec := pathvec, queue := queue } es)
    (hr : run lockStep { now := now, running := running, pathvec := pathvec, queue := queue } es
      = some s) : ¬ Deadlock s := by
  have hinv := run_invariant (fun s => ¬ Crossed s) (fun _ _ _ h ha hs => not_crossed_step h ha hs)
    (fun h => by cases h.1) ha hr
  exact fun h => hinv h.crossed

/-- A path that is due for a recheck, and a watched path whose check is over after 200 seconds. -/
def duePath : CheckedPath :=
  { dev := "sda".toList, ioErrPathfailCnt := pathIoErrWaitingToCheck, ioErrDisableReinstate := true }
def overduePath : WatchedPath := { devname := "sdb".toList, startTime := 10 ^ 9, totalTime := 120 }

def checkThenEnqueue : List LockEvent :=
  [.watcher .round, .watcher .lock, .watcher (.serve true true), .checker .round, .watcher .lock,
    .watcher (.update true), .watcher .unlock, .checker .lock, .checker (.check true true)]

/-- The check ends, and the checker enqueues the path afterwards. -/
theorem run_no_deadlock_apart :
    ∃ s, run lockStep { now := 200 * 10 ^ 9, pathvec := [duePath], queue := [overduePath] }
      checkThenEnqueue = some s ∧ ¬ Deadlock s :=
  ⟨_, rfl, run_no_deadlock (200 * 10 ^ 9) true [duePath] [overduePath] checkThenEnqueue _
    (along_cons rfl trivial <| along_cons rfl trivial <| along_cons rfl (fun _ => rfl) <|
      along_cons rfl trivial <| along_cons rfl trivial <| along_cons rfl trivial <|
      along_cons rfl trivial <| along_cons rfl trivial <|
      along_cons rfl (fun _ => by decide) trivial) rfl⟩

/-- The check ends while the checker holds `vecs->lock`, and then the checker enqueues the path. -/
theorem run_deadlock :
    ¬ ∀ (now : ℕ) (running : Bool) (pathvec : List CheckedPath) (queue : List WatchedPath)
      (es : List LockEvent) (s : Threads),
      run lockStep { now := now, running := running, pathvec := pathvec, queue := queue } es = some s →
        ¬ Deadlock s := by
  intro h
  apply h (200 * 10 ^ 9) true [duePath] [overduePath]
    [.checker .round, .checker .lock, .watcher .round, .watcher .lock, .watcher (.serve true true),
      .checker (.check true true)] _ rfl
  exact ⟨.vecs, .paths, by decide, rfl, rfl, rfl, rfl⟩

end MultipathTools.IoErr
