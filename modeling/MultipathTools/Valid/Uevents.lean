import MultipathTools.Valid.Path

/-! A path over its uevents: what `multipath.rules` keeps in the database of udev, and what
`multipath -u` keeps in its file. A path that may belong to multipath is withheld from the rest of
the system for a limited time, and once it has been released it is left alone. -/
namespace MultipathTools.Valid

/-- What is known about a path between two uevents: `DM_MULTIPATH_DEVICE_PATH`,
`FIND_MULTIPATHS_WAIT_UNTIL` and `FIND_MULTIPATHS_WAIT_CANCELLED` in the database, and the file under
`/dev/shm/multipath/find_multipaths`. `started` and `stopped` count what has been done to the timer,
and `ready` is false if the last uevent has set `SYSTEMD_READY` to 0. -/
structure Device where
  devicePath : Option ℕ := none
  waitUntil : Option ℤ := none
  waitCancelled : Bool := false
  file : Option ℤ := none
  started : ℕ := 0
  stopped : ℕ := 0
  ready : Bool := true
  deriving DecidableEq, Repr

/-- What happens to a path: a uevent, a call of `multipath -c`, or the removal of the path. -/
inductive Event where
  | uevent (add : Bool) (env : CheckEnv)
  | check (env : CheckEnv) (released : Bool)
  | remove
  deriving DecidableEq, Repr

/-- The environment that a uevent imports from the database makes `released_to_systemd` true. -/
def Device.released (d : Device) : Bool := d.devicePath = some 0

/-- What `multipath -u` prints, and the file afterwards. -/
def Device.query (d : Device) (env : CheckEnv) : Option Printed × Option ℤ :=
  let r := checkPathValid env true d.released d.file
  (r.1, r.2.2)

/-- The rules from `stop_wait` on. -/
def stopWait (d : Device) : Device :=
  if d.waitCancelled = false ∧ d.waitUntil ≠ none ∧ d.waitUntil ≠ some 0 then
    { d with waitCancelled := true, stopped := d.stopped + 1 }
  else d

/-- The rules from `test_dev` on. A property that is not imported is not kept. -/
def multipathRules (d : Device) (add : Bool) (env : CheckEnv) : Device :=
  let saved := d.waitUntil
  let (printed, file) := d.query env
  let d := match printed with
    | none => { d with file := file, ready := true }
    | some p =>
      { d with
        file := file
        ready := true
        devicePath := some p.devicePath
        waitUntil := p.waitUntil.or d.waitUntil }
  if d.devicePath = some 1 then stopWait { d with ready := false }
  else if d.devicePath ≠ some 2 then stopWait d
  else if d.waitUntil = none then { d with waitCancelled := false }
  else
    { d with
      waitCancelled := false
      started := if add ∧ saved = none then d.started + 1 else d.started
      devicePath := some 1
      ready := false }

def Device.step (d : Device) : Event → Device
  | .uevent add env => multipathRules d add env
  | .check env released => { d with file := (checkPathValid env false released d.file).2.2 }
  | .remove => { d with devicePath := none, waitUntil := none, waitCancelled := false, file := none }

/-- `multipath -u` has the path withheld for now. -/
def Device.Waits (d : Device) (env : CheckEnv) : Prop :=
  (d.query env).1.map Printed.devicePath = some 2

/-- The path is to be claimed in any case. -/
def Event.NoCheck : Event → Prop
  | .uevent _ env => (isPathValid env.toPathEnv true).1 = .validNoCheck
  | _ => False

section Print
variable {k : PathValid} {inPathvec isUevent released : Bool} {env : CheckEnv} {file : Option ℤ}

theorem printCmdValid_file {mtime : ℤ} :
    (printCmdValid k inPathvec env (some mtime)).2.2 = some mtime := by
  have hsome (tmo : ℤ) := @findMultipathsCheckTimeout_some env.file env.now tmo mtime
  unfold printCmdValid
  cases k <;> dsimp only
  case maybeValid => split <;> exact hsome _
  case valid | notValid =>
    split_ifs
    · exact hsome 0
    · rfl

/-- A file that is there stays as it is. -/
theorem checkPathValid_file {mtime : ℤ} :
    (checkPathValid env isUevent released (some mtime)).2.2 = some mtime := by
  unfold checkPathValid
  split
  · rfl
  · exact printCmdValid_file

/-- Two is printed if the path may be valid and there is time left in the file, which is printed,
too. -/
theorem printCmdValid_two {p : Printed} (h : (printCmdValid k inPathvec env file).1 = some p)
    (htwo : p.devicePath = 2) : k = .maybeValid ∧ p.waitUntil ≠ none ∧ p.waitUntil ≠ some 0 ∧
      ∃ mtime, (printCmdValid k inPathvec env file).2.2 = some mtime ∧ second ≤ mtime - env.now := by
  unfold printCmdValid at h ⊢
  cases k <;> dsimp only at h ⊢
  case error | validNoCheck => cases h
  case maybeValid =>
    refine ⟨rfl, ?_⟩
    split at h
    case h_1 remaining hwait =>
      obtain ⟨mtime, hfile, rfl, hleft⟩ := findMultipathsCheckTimeout_waiting hwait
      cases h
      have hpos : 0 < (mtime - env.now) / 1000 := by
        unfold second at hleft
        omega
      rw [hwait]
      refine ⟨nofun, fun hzero => ?_, mtime, hfile, hleft⟩
      exact hpos.ne' (Option.some.inj hzero)
    case h_2 =>
      cases h
      cases htwo
  case valid | notValid =>
    cases h
    cases htwo

theorem checkPathValid_two {p : Printed}
    (h : (checkPathValid env isUevent released file).1 = some p) (htwo : p.devicePath = 2) :
    p.waitUntil ≠ none ∧ p.waitUntil ≠ some 0 ∧
      ∃ mtime, (checkPathValid env isUevent released file).2.2 = some mtime ∧
        second ≤ mtime - env.now := by
  unfold checkPathValid at h ⊢
  split at h
  · cases h
  · exact (printCmdValid_two h htwo).2

/-- The path has been released: it is claimed only if there is no need to check that. -/
theorem classify_released {r : PathValid} (h : classify env isUevent true = some (r, inPathvec))
    (hcheck : (isPathValid env.toPathEnv isUevent).1 ≠ .validNoCheck) :
    r = .notValid ∧ inPathvec = false := by
  unfold classify at h
  dsimp only at h
  by_cases herror : (isPathValid env.toPathEnv isUevent).1 = .error
  · rw [if_pos herror] at h
    cases h
  have hnot : afterRelease true (isPathValid env.toPathEnv isUevent).1 = .notValid := by
    revert herror hcheck
    cases (isPathValid env.toPathEnv isUevent).1 <;> simp [afterRelease]
  rw [if_neg herror, hnot] at h
  split_ifs at h
  · cases h
    exact ⟨rfl, rfl⟩
  all_goals exact absurd (by decide) ‹¬PathValid.notValid ≠ .maybeValid›

theorem checkPathValid_released (hcheck : (isPathValid env.toPathEnv isUevent).1 ≠ .validNoCheck) :
    (checkPathValid env isUevent true file).1 = none ∨
      (checkPathValid env isUevent true file).1 = some ⟨none, 0⟩ := by
  unfold checkPathValid
  cases hclass : classify env isUevent true with
  | none => exact .inl rfl
  | some r =>
    obtain ⟨r, inPathvec⟩ := r
    obtain ⟨rfl, rfl⟩ := classify_released hclass hcheck
    exact .inr rfl

end Print

section Step
variable {d : Device} {env : CheckEnv} {add : Bool}

@[simp] theorem stopWait_devicePath : (stopWait d).devicePath = d.devicePath := by
  unfold stopWait
  split_ifs <;> rfl

@[simp] theorem stopWait_waitUntil : (stopWait d).waitUntil = d.waitUntil := by
  unfold stopWait
  split_ifs <;> rfl

@[simp] theorem stopWait_file : (stopWait d).file = d.file := by
  unfold stopWait
  split_ifs <;> rfl

@[simp] theorem stopWait_ready : (stopWait d).ready = d.ready := by
  unfold stopWait
  split_ifs <;> rfl

@[simp] theorem stopWait_started : (stopWait d).started = d.started := by
  unfold stopWait
  split_ifs <;> rfl

/-- The program fails, and what there is in the database stays. -/
theorem multipathRules_none (h : (d.query env).1 = none) (hpath : d.devicePath ≠ some 2) :
    (multipathRules d add env).devicePath = d.devicePath ∧
      (multipathRules d add env).waitUntil = d.waitUntil ∧
      (multipathRules d add env).started = d.started ∧
      ((multipathRules d add env).ready = false ↔ d.devicePath = some 1) := by
  unfold multipathRules
  dsimp only
  rw [h]
  dsimp only
  split_ifs <;> simp_all

/-- A path that is claimed or not. -/
theorem multipathRules_decided {p : Printed} (h : (d.query env).1 = some p)
    (hpath : p.devicePath ≠ 2) :
    (multipathRules d add env).devicePath = some p.devicePath ∧
      (multipathRules d add env).waitUntil = p.waitUntil.or d.waitUntil ∧
      (multipathRules d add env).started = d.started ∧
      ((multipathRules d add env).ready = false ↔ p.devicePath = 1) := by
  unfold multipathRules
  dsimp only
  rw [h]
  dsimp only
  have htwo : some p.devicePath ≠ some 2 := fun heq => hpath (Option.some.inj heq)
  split_ifs <;> simp_all

/-- A path that is withheld. -/
theorem multipathRules_waits {p : Printed} (h : (d.query env).1 = some p) (hpath : p.devicePath = 2) :
    (multipathRules d add env).devicePath = some 1 ∧ (multipathRules d add env).waitUntil ≠ none ∧
      (multipathRules d add env).started =
        (if add ∧ d.waitUntil = none then d.started + 1 else d.started) ∧
      (multipathRules d add env).ready = false := by
  obtain ⟨hne, -⟩ := checkPathValid_two h hpath
  obtain ⟨rest, path⟩ := p
  obtain ⟨rest, rfl⟩ := Option.ne_none_iff_exists'.mp hne
  obtain rfl : path = 2 := hpath
  unfold multipathRules
  dsimp only
  rw [h]
  simp

theorem query_two {p : Printed} (h : (d.query env).1 = some p) (hpath : p.devicePath = 2) :
    ∃ mtime, (d.query env).2 = some mtime ∧ second ≤ mtime - env.now :=
  (checkPathValid_two h hpath).2.2

theorem multipathRules_file : (multipathRules d add env).file = (d.query env).2 := by
  unfold multipathRules
  dsimp only
  cases (d.query env).1 <;> dsimp only <;> split_ifs <;> simp

theorem query_file {mtime : ℤ} (h : d.file = some mtime) : (d.query env).2 = some mtime := by
  unfold Device.query
  rw [h]
  exact checkPathValid_file

variable {e : Event}

theorem step_file {mtime : ℤ} (h : d.file = some mtime) (hkeep : e ≠ .remove) :
    (d.step e).file = some mtime := by
  cases e with
  | uevent add env => exact multipathRules_file.trans (query_file h)
  | check env released =>
    show (checkPathValid env false released d.file).2.2 = some mtime
    rw [h]
    exact checkPathValid_file
  | remove => exact absurd rfl hkeep

theorem step_released (h : d.devicePath = some 0) (hkeep : e ≠ .remove) (hcheck : ¬ e.NoCheck) :
    (d.step e).devicePath = some 0 := by
  cases e with
  | uevent add env =>
    have hreleased : d.released = true := decide_eq_true h
    have hquery : (d.query env).1 = none ∨ (d.query env).1 = some ⟨none, 0⟩ := by
      unfold Device.query
      rw [hreleased]
      exact checkPathValid_released hcheck
    obtain hnone | hzero := hquery
    · exact (multipathRules_none hnone (by rw [h]; nofun)).1.trans h
    · exact (multipathRules_decided hzero (by decide)).1
  | check env released => exact h
  | remove => exact absurd rfl hkeep

/-- A timer is started only if the end of the wait has not been known, and never again. -/
structure Timed (d : Device) : Prop where
  path : d.devicePath ≠ some 2
  once : d.started ≤ 1
  saved : d.waitUntil = none → d.started = 0

theorem step_timed (h : Timed d) (hkeep : e ≠ .remove) : Timed (d.step e) := by
  obtain ⟨hpath, honce, hsaved⟩ := h
  cases e with
  | uevent add env =>
    show Timed (multipathRules d add env)
    cases hquery : (d.query env).1 with
    | none =>
      obtain ⟨hp, hw, hs, -⟩ := @multipathRules_none d env add hquery hpath
      exact ⟨hp ▸ hpath, hs ▸ honce, fun hnone => hs.trans (hsaved (hw ▸ hnone))⟩
    | some p =>
      by_cases htwo : p.devicePath = 2
      · obtain ⟨hp, hne, hs, -⟩ := @multipathRules_waits d env add p hquery htwo
        refine ⟨by rw [hp]; nofun, ?_, fun hnone => absurd hnone hne⟩
        rw [hs]
        split_ifs with hfirst
        · rw [hsaved hfirst.2]
        · exact honce
      · obtain ⟨hp, hw, hs, -⟩ := @multipathRules_decided d env add p hquery htwo
        refine ⟨fun heq => htwo (Option.some.inj (hp.symm.trans heq)), hs ▸ honce, fun hnone => ?_⟩
        rw [hw] at hnone
        exact hs.trans (hsaved (Option.or_eq_none_iff.mp hnone).2)
  | check env released => exact ⟨hpath, honce, hsaved⟩
  | remove => exact absurd rfl hkeep

end Step

section Run
variable {d : Device} {events : List Event}

/-- What every step keeps holds after all of them. -/
theorem foldl_step (P : Device → Prop) (hstep : ∀ d, ∀ e ∈ events, P d → P (d.step e)) (hd : P d) :
    P (events.foldl Device.step d) := by
  induction events generalizing d with
  | nil => exact hd
  | cons e events ih =>
    exact ih (fun d f hf => hstep d f (List.mem_cons_of_mem e hf)) (hstep d e List.mem_cons_self hd)

/-- As long as a path is not removed, whatever the uevents and the calls of `multipath -c` find: a
path that has been released is not claimed any more, unless there is no need to check that; the time
at the end of the wait stays what it was at first, and the path is never withheld later than a second
before it; and the timer is started at most once. -/
theorem run_withheld (d : Device) (events : List Event) (hkeep : ∀ e ∈ events, e ≠ .remove) :
    (d.devicePath = some 0 → (∀ e ∈ events, ¬ e.NoCheck) →
      (events.foldl Device.step d).devicePath = some 0) ∧
    (∀ mtime, d.file = some mtime → (events.foldl Device.step d).file = some mtime ∧
      ∀ env, (events.foldl Device.step d).Waits env → env.now + second ≤ mtime) ∧
    (Timed d → (events.foldl Device.step d).started ≤ 1) := by
  refine ⟨fun hzero hcheck => ?_, fun mtime hfile => ?_, fun htimed => ?_⟩
  · exact foldl_step (·.devicePath = some 0)
      (fun d e he h => step_released h (hkeep e he) (hcheck e he)) hzero
  · have hafter : (events.foldl Device.step d).file = some mtime :=
      foldl_step (·.file = some mtime) (fun d e he h => step_file h (hkeep e he)) hfile
    refine ⟨hafter, fun env hwaits => ?_⟩
    obtain ⟨p, hp, htwo⟩ := Option.map_eq_some_iff.mp hwaits
    obtain ⟨m, hm, hleft⟩ := query_two hp htwo
    rw [query_file hafter] at hm
    cases hm
    omega
  · exact (foldl_step Timed (fun d e he h => step_timed h (hkeep e he)) htimed).once

/-- A path in smart mode, of which nothing else is known. -/
def sampleEnv (now : ℤ) : CheckEnv where
  findMultipaths := .smart
  pathinfo := .ok "3600a".toList
  now := now
  timeout := 10

/-- A released path, whose wait was over at 12 s, gets another uevent. -/
theorem run_withheld_sample :
    ([.uevent true (sampleEnv (20 * second))].foldl Device.step
      { devicePath := some 0, waitUntil := some 0, file := some (12 * second) }).devicePath =
      some 0 :=
  (run_withheld _ _ (by decide)).1 rfl (by
    intro e he
    rw [List.mem_singleton.mp he]
    exact fun h => by cases h)

end Run

section Lone

/-- No other path with the same WWID is known, nothing else speaks for multipath, and the calls of
the system succeed. -/
structure LonePath (tmo : ℤ) (env : CheckEnv) : Prop where
  maybe : (isPathValid env.toPathEnv true).1 = .maybeValid
  hasDevt : env.hasDevt = true
  exclusive : env.exclusive = true
  alone : ∃ others, env.discovered = some others ∧ (isPathValid env.toPathEnv true).2 ∉ others
  file : env.file = {}
  timeout : selectFindMultipathsTimeout env.timeout env.hwe = tmo

variable {d : Device} {env : CheckEnv} {tmo deadline : ℤ} {add : Bool}

theorem LonePath.classify (h : LonePath tmo env) : classify env true false = some (.maybeValid, true) := by
  obtain ⟨others, hothers, hmem⟩ := h.alone
  unfold Valid.classify
  dsimp only
  rw [h.maybe, h.hasDevt, h.exclusive, hothers, Option.map_some, if_neg hmem]
  rfl

/-- While a lone path has not been released, the time that is left decides. -/
theorem LonePath.query (h : LonePath tmo env) (hd : d.released = false) {file : Option ℤ}
    (hfile : findMultipathsCheckTimeout {} env.now tmo d.file = (waitUntil {} env.now deadline, file)) :
    (∃ p, (d.query env).1 = some p ∧ p.waitUntil ≠ none ∧
      p.devicePath = if env.now + second ≤ deadline then 2 else 0) ∧ (d.query env).2 = file := by
  unfold Device.query checkPathValid
  rw [hd, h.classify]
  unfold printCmdValid
  dsimp only
  rw [h.file, h.timeout, hfile]
  have hleft : tvSec (deadline - env.now) ≤ 0 ↔ ¬ env.now + second ≤ deadline := by
    rw [← not_lt, tvSec_pos_iff, not_iff_not]
    omega
  have hwait : waitUntil {} env.now deadline =
      if env.now + second ≤ deadline then .waiting (deadline - env.now) else .waitDone := by
    show (if tvSec (deadline - env.now) ≤ 0 then _ else _) = _
    rw [if_congr hleft rfl rfl, ite_not]
  rw [hwait]
  dsimp only
  split_ifs with htime
  · exact ⟨⟨_, rfl, nofun, rfl⟩, rfl⟩
  · exact ⟨⟨_, rfl, nofun, rfl⟩, rfl⟩

/-- A lone path has been seen: `withheld` tells whether it is still kept from the system. -/
structure Seen (deadline : ℤ) (started : ℕ) (withheld : Bool) (d : Device) : Prop where
  file : d.file = some deadline
  saved : d.waitUntil ≠ none
  started : d.started = started
  path : d.devicePath = some (if withheld then 1 else 0)
  ready : d.ready = !withheld

theorem LonePath.rules (h : LonePath tmo env) (hd : d.released = false)
    (hfile : findMultipathsCheckTimeout {} env.now tmo d.file =
      (waitUntil {} env.now deadline, some deadline)) {started : ℕ} 
    (hstarted : (if add ∧ d.waitUntil = none ∧ env.now + second ≤ deadline then d.started + 1
      else d.started) = started) :
    Seen deadline started (env.now + second ≤ deadline) (multipathRules d add env) := by
  obtain ⟨⟨p, hp, hwait, hpath⟩, hfile⟩ := h.query hd hfile
  by_cases htime : env.now + second ≤ deadline
  · rw [if_pos htime] at hpath
    obtain ⟨hdev, hsaved, hstart, hready⟩ := @multipathRules_waits d env add p hp hpath
    refine ⟨multipathRules_file.trans hfile, hsaved, ?_, ?_, ?_⟩
    · rw [hstart, ← hstarted]
      simp [htime]
    · simp [hdev, htime]
    · simp [hready, htime]
  · rw [if_neg htime] at hpath
    obtain ⟨hdev, hsaved, hstart, hready⟩ :=
      @multipathRules_decided d env add p hp (by rw [hpath]; decide)
    refine ⟨multipathRules_file.trans hfile, ?_, ?_, ?_, ?_⟩
    · rw [hsaved]
      exact fun hnone => hwait (Option.or_eq_none_iff.mp hnone).1
    · rw [hstart, ← hstarted]
      simp [htime]
    · simp [hdev, hpath, htime]
    · have hnot : (multipathRules d add env).ready ≠ false := by
        rw [ne_eq, hready, hpath]
        decide
      simp [hnot, htime]

theorem LonePath.seen (h : LonePath tmo env) (add : Bool) {started : ℕ} {withheld : Bool}
    (hd : Seen deadline started withheld d) :
    Seen deadline started (withheld && (env.now + second ≤ deadline : Bool)) (multipathRules d add env) := by
  obtain ⟨hfile, hsaved, hstarted, hpath, hready⟩ := hd
  cases withheld with
  | true =>
    have hreleased : d.released = false := decide_eq_false (by rw [hpath]; decide)
    apply h.rules hreleased
    · rw [hfile]
      rfl
    · rw [if_neg fun hall => hsaved hall.2.1, hstarted]
  | false =>
    have hreleased : d.released = true := decide_eq_true hpath
    have hquery : (d.query env).1 = none ∨ (d.query env).1 = some ⟨none, 0⟩ := by
      unfold Device.query
      rw [hreleased]
      apply checkPathValid_released
      rw [h.maybe]
      nofun
    have hkept : (multipathRules d add env).devicePath = some 0 ∧
        (multipathRules d add env).waitUntil = d.waitUntil ∧
        (multipathRules d add env).started = d.started ∧
        (multipathRules d add env).ready ≠ false := by
      obtain hnone | hzero := hquery
      · obtain ⟨hp, hw, hs, hr⟩ := @multipathRules_none d env add hnone (by rw [hpath]; nofun)
        exact ⟨hp.trans hpath, hw, hs, fun heq => by cases hpath.symm.trans (hr.mp heq)⟩
      · obtain ⟨hp, hw, hs, hr⟩ := @multipathRules_decided d env add _ hzero (by decide)
        exact ⟨hp, hw, hs, fun heq => by cases hr.mp heq⟩
    obtain ⟨hp, hw, hs, hr⟩ := hkept
    refine ⟨multipathRules_file.trans (query_file hfile), hw ▸ hsaved, hs.trans hstarted, hp, ?_⟩
    exact Bool.eq_true_of_not_eq_false hr

/-- In "smart" mode a path without a sibling, whatever the clock does: it is withheld from the system
up to the first uevent that comes later than a second before the end of the wait, which is `tmo`
seconds after the first uevent, and never again. The timer is started by the first uevent, if that is
an add event. -/
theorem run_lone {tmo : ℤ} {env : CheckEnv} {add : Bool} {rest : List (Bool × CheckEnv)}
    (henv : LonePath tmo env) (hrest : ∀ e ∈ rest, LonePath tmo e.2) :
    Seen (env.now + tmo * second) (if add then 1 else 0)
      (∀ e ∈ rest, e.2.now + second ≤ env.now + tmo * second)
      ((.uevent add env :: rest.map fun e => .uevent e.1 e.2).foldl Device.step {}) := by
  have hpos : 0 < tmo := henv.timeout ▸ selectFindMultipathsTimeout_pos env.timeout env.hwe
  have hsecond : env.now + second ≤ env.now + tmo * second := by
    unfold second
    omega
  have hfirst : Seen (env.now + tmo * second) (if add then 1 else 0) true
      (multipathRules {} add env) := by
    have hseen := @LonePath.rules {} env tmo (env.now + tmo * second) add henv rfl
      (by
        show (if tmo ≤ 0 then _ else _) = _
        rw [if_neg (by omega)]
        rfl) (if add then 1 else 0) (by simp [hsecond])
    simpa [hsecond] using hseen
  have hall (withheld : Bool) (d : Device)
      (hd : Seen (env.now + tmo * second) (if add then 1 else 0) withheld d) :
      Seen (env.now + tmo * second) (if add then 1 else 0)
        (withheld && decide (∀ e ∈ rest, e.2.now + second ≤ env.now + tmo * second))
        ((rest.map fun e => Event.uevent e.1 e.2).foldl Device.step d) := by
    induction rest generalizing withheld d with
    | nil => simpa using hd
    | cons e rest ih =>
      obtain ⟨he, hrest⟩ := List.forall_mem_cons.mp hrest
      have hlast := ih hrest _ _ (he.seen e.1 hd)
      have hcons : (withheld &&
          decide (∀ f ∈ e :: rest, f.2.now + second ≤ env.now + tmo * second)) =
          (withheld && decide (e.2.now + second ≤ env.now + tmo * second) &&
            decide (∀ f ∈ rest, f.2.now + second ≤ env.now + tmo * second)) := by
        rw [Bool.and_assoc, ← Bool.decide_and]
        exact congrArg (withheld && ·) (decide_eq_decide.mpr List.forall_mem_cons)
      rw [hcons]
      exact hlast
  exact hall true _ hfirst

theorem sampleEnv_lone (now : ℤ) : LonePath 10 (sampleEnv now) where
  maybe := rfl
  hasDevt := rfl
  exclusive := rfl
  alone := ⟨[], rfl, List.not_mem_nil⟩
  file := rfl
  timeout := rfl

/-- Uevents after 0, 5 and 10 seconds, and then one for which the clock has been set back. -/
theorem run_lone_sample : ([.uevent true (sampleEnv 0), .uevent false (sampleEnv (5 * second)),
      .uevent true (sampleEnv (10 * second)), .uevent false (sampleEnv (7 * second))].foldl
        Device.step {}).devicePath = some 0 := by
  have hseen := @run_lone 10 (sampleEnv 0) true
    [(false, sampleEnv (5 * second)), (true, sampleEnv (10 * second)), (false, sampleEnv (7 * second))]
    (sampleEnv_lone 0) (by
      simp only [List.forall_mem_cons, List.not_mem_nil, false_implies, implies_true, and_true]
      exact ⟨sampleEnv_lone _, sampleEnv_lone _, sampleEnv_lone _⟩)
  have hlate : ¬ ∀ e ∈ [(false, sampleEnv (5 * second)), (true, sampleEnv (10 * second)),
      (false, sampleEnv (7 * second))], e.2.now + second ≤ (sampleEnv 0).now + 10 * second := by
    decide
  have hpath := hseen.path
  rwa [decide_eq_false hlate] at hpath

end Lone

end MultipathTools.Valid
