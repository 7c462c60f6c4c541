import MultipathTools.Base.Run
import MultipathTools.Structs

/-! The device-mapper event loop (`dmevents.c`) beside the threads that create maps. One step
is one critical section of `events_lock` or `vecs->lock`, or one ioctl made outside of them;
the marking loop, which makes an ioctl for each name, takes one step for each name. -/
namespace MultipathTools.Daemon

/-- A device-mapper name. It is shorter than `WWID_SIZE`, so `strlcpy` copies all of it. -/
abbrev DmName := {name : CStr // name.length < wwidSize}

inductive EventAction where
  | nothing | remove | update
  deriving DecidableEq, Repr

structure DevEvent where
  name : DmName
  evtNr : ℕ
  action : EventAction
  deriving DecidableEq, Repr

/-- An entry of the names list of `DM_DEVICE_LIST`. -/
structure DmDevice where
  name : DmName
  eventNr : ℕ := 0
  isMpath : Bool := true
  deriving DecidableEq, Repr

/-- Where the thread of `dmevent_loop` stands. In `marking` it holds `events_lock`; in
`acting` it has taken an event off the list and waits for `vecs->lock`. -/
inductive LoopPc where
  | poll
  | haveNames (names : List DmDevice)
  | marking (names : List DmDevice)
  | select
  | acting (currDev : DevEvent)
  | unwatching (name : DmName)
  deriving DecidableEq, Repr

/-- The shared state. `watching` is the call of `watch_dmevents` that has read its event number.
`watched` and `evicted` only observe: the maps that have existed in device-mapper since they
were put under watch, and those of them that an `EVENT_REMOVE` took from the daemon. The watch of a
map ends when the map is given up after a failed update. -/
structure DmState where
  dm : List DmDevice := []
  mpvec : List DmName := []
  vecsLocked : Bool := false
  watching : Option (DmName × ℕ) := none
  events : List DevEvent := []
  pc : LoopPc := .poll
  watched : List DmName := []
  evicted : List DmName := []
  deriving DecidableEq, Repr

/-- `dm_is_mpath`: 1, 0, or -1 when the ioctl fails. -/
def dmIsMpath (s : DmState) (name : DmName) (ioctlOk : Bool) : ℤ :=
  if !ioctlOk then -1 else if s.dm.any fun d => d.name = name ∧ d.isMpath then 1 else 0

/-- `dm_geteventnr`. -/
def dmGeteventnr (s : DmState) (name : DmName) : ℤ :=
  match s.dm.find? fun d => d.name = name with
  | some d => d.eventNr
  | none => -1

/-- The search loops over `waiter->events`: change the first entry of that name. -/
def modifyEvent (name : DmName) (f : DevEvent → DevEvent) : List DevEvent → List DevEvent
  | [] => []
  | e :: es => if e.name = name then f e :: es else e :: modifyEvent name f es

def deleteEvent (name : DmName) : List DevEvent → List DevEvent
  | [] => []
  | e :: es => if e.name = name then es else e :: deleteEvent name es

/-- `watch_dmevents` up to `events_lock`: the event number, unless the call fails. -/
def watchDmeventsQuery (s : DmState) (name : DmName) (ioctlOk : Bool) : Option ℕ :=
  if dmIsMpath s name ioctlOk = 0 then none
  else if dmGeteventnr s name < 0 then none
  else some (dmGeteventnr s name).toNat

/-- The rest of `watch_dmevents`, under `events_lock`. -/
def watchDmevents (events : List DevEvent) (name : DmName) (evtNr : ℕ) : List DevEvent :=
  if events.any fun e => e.name = name then
    modifyEvent name (fun e => { e with evtNr := evtNr, action := .nothing }) events
  else events ++ [⟨name, evtNr, .nothing⟩]

/-- The body of the marking loop of `dm_get_events` for one name. -/
def markEvent (s : DmState) (d : DmDevice) (ioctlOk : Bool) : List DevEvent :=
  if dmIsMpath s d.name ioctlOk = 0 then s.events
  else modifyEvent d.name (fun e =>
    if d.eventNr ≠ e.evtNr then { e with evtNr := d.eventNr, action := .update }
    else { e with action := .nothing }) s.events

/-- The loop that takes the first slot with something to do; a slot to be removed is freed. -/
def pickEvent : List DevEvent → Option (DevEvent × List DevEvent)
  | [] => none
  | e :: es =>
    if e.action ≠ .nothing then
      some (e, if e.action = .remove then es else { e with action := .nothing } :: es)
    else (pickEvent es).map fun r => (r.1, e :: r.2)

/-- Acting on the event under `vecs->lock`: `remove_map_by_alias` or `update_multipath`. A map
that cannot be updated is given up by the daemon, which then stops watching it. -/
def actOnEvent (s : DmState) (currDev : DevEvent) (updateOk : Bool) : DmState :=
  if currDev.action = .remove then
    { s with
      mpvec := s.mpvec.erase currDev.name
      pc := .select
      evicted := if currDev.name ∈ s.mpvec ∧ currDev.name ∈ s.watched then
          currDev.name :: s.evicted else s.evicted }
  else if currDev.name ∉ s.mpvec then
    { s with
      pc := .unwatching currDev.name
      watched := s.watched.filter (· ≠ currDev.name) }
  else if !updateOk then
    { s with
      mpvec := s.mpvec.erase currDev.name
      pc := .unwatching currDev.name
      watched := s.watched.filter (· ≠ currDev.name) }
  else { s with pc := .select }

inductive DmEvent where
  /-- a map appears in, changes in, or vanishes from device-mapper -/
  | dmCreate (d : DmDevice)
  | dmEvent (name : DmName) (eventNr : ℕ)
  | dmRemove (name : DmName)
  /-- the main thread, which does all but the first under `vecs->lock` -/
  | lockVecs
  | unlockVecs
  | addMap (name : DmName)
  | delMap (name : DmName)
  | watchQuery (name : DmName) (ioctlOk : Bool)
  | watch
  | unwatchAll
  /-- the event loop -/
  | takeNames
  | lockEvents
  | mark (ioctlOk : Bool)
  | pick
  | act (updateOk : Bool)
  | unwatch
  deriving DecidableEq, Repr

def eventsLocked (s : DmState) : Bool :=
  match s.pc with
  | .marking _ => true
  | _ => false

def dmStep (s : DmState) : DmEvent → Option DmState
  | .dmCreate d =>
    if s.dm.any fun d' => d'.name = d.name then none else some { s with dm := d :: s.dm }
  | .dmEvent name eventNr => some { s with
      dm := s.dm.map fun d => if d.name = name then { d with eventNr := eventNr } else d }
  | .dmRemove name => some { s with
      dm := s.dm.filter fun d => d.name ≠ name
      watched := s.watched.filter (· ≠ name) }
  | .lockVecs => if s.vecsLocked then none else some { s with vecsLocked := true }
  | .unlockVecs =>
    if s.vecsLocked ∧ s.watching = none then some { s with vecsLocked := false } else none
  | .addMap name => if s.vecsLocked then some { s with mpvec := s.mpvec ++ [name] } else none
  | .delMap name => if s.vecsLocked then some { s with mpvec := s.mpvec.erase name } else none
  | .watchQuery name ioctlOk =>
    if s.vecsLocked ∧ s.watching = none then some { s with
      watching := (watchDmeventsQuery s name ioctlOk).map fun evtNr => (name, evtNr) }
    else none
  | .watch =>
    match s.watching with
    | some (name, evtNr) =>
      if eventsLocked s then none
      else some { s with
        watching := none
        events := watchDmevents s.events name evtNr
        watched := if dmIsMpath s name true = 1 then name :: s.watched else s.watched }
    | none => none
  | .unwatchAll =>
    if s.vecsLocked ∧ !eventsLocked s then some { s with events := [], watched := [] } else none
  | .takeNames => if s.pc = .poll then some { s with pc := .haveNames s.dm } else none
  | .lockEvents =>
    match s.pc with
    | .haveNames names => some { s with
        pc := .marking names
        events := s.events.map fun e => { e with action := .remove } }
    | _ => none
  | .mark ioctlOk =>
    match s.pc with
    | .marking [] => some { s with pc := .select }
    | .marking (d :: names) => some { s with
        pc := .marking names, events := markEvent s d ioctlOk }
    | _ => none
  | .pick =>
    if s.pc = .select then
      match pickEvent s.events with
      | some (e, es) => some { s with pc := .acting e, events := es }
      | none => some { s with pc := .poll }
    else none
  | .act updateOk =>
    match s.pc with
    | .acting e => if s.vecsLocked then none else some (actOnEvent s e updateOk)
    | _ => none
  | .unwatch =>
    match s.pc with
    | .unwatching name => some { s with pc := .select, events := deleteEvent name s.events }
    | _ => none

/-- Maps that stay in device-mapper keep their entry and are not removed. -/
def Watched (s : DmState) : Prop :=
  (∀ n ∈ s.watched, ∃ e ∈ s.events, e.name = n) ∧ s.evicted = []

/-- A watch is entered while the loop holds no older verdict on that name: neither a names list
without it, nor an event to remove it, nor an entry of it to drop. -/
def NotStale (s : DmState) (e : DmEvent) (_ : DmState) : Prop :=
  ∀ name evtNr, e = .watch → s.watching = some (name, evtNr) →
    (∀ names, s.pc = .haveNames names → ∃ d ∈ names, d.name = name) ∧
    (∀ c, s.pc = .acting c → c.action = .remove → c.name ≠ name) ∧
    s.pc ≠ .unwatching name

theorem mem_modifyEvent {name : DmName} {f : DevEvent → DevEvent} {es : List DevEvent}
    (h : (es.map DevEvent.name).Nodup) {x : DevEvent} :
    x ∈ modifyEvent name f es ↔
      (∃ e ∈ es, e.name = name ∧ x = f e) ∨ x ∈ es ∧ x.name ≠ name := by
  induction es with
  | nil => simp [modifyEvent]
  | cons e es ih =>
    obtain ⟨hne, hn⟩ := List.nodup_cons.mp h
    have hnot : ∀ y ∈ es, y.name ≠ e.name := fun y hy he => hne (he ▸ List.mem_map_of_mem hy)
    unfold modifyEvent
    split_ifs with he
    · grind
    · rw [List.mem_cons, ih hn]
      grind

theorem map_name_modifyEvent {f : DevEvent → DevEvent} (hf : ∀ e, (f e).name = e.name)
    (name : DmName) (es : List DevEvent) :
    (modifyEvent name f es).map DevEvent.name = es.map DevEvent.name := by
  induction es with
  | nil => rfl
  | cons e es ih =>
    unfold modifyEvent
    split_ifs <;> simp [hf, ih]

theorem deleteEvent_sublist (name : DmName) (es : List DevEvent) :
    (deleteEvent name es).Sublist es := by
  induction es with
  | nil => exact .slnil
  | cons e es ih =>
    unfold deleteEvent
    split_ifs
    · exact List.sublist_cons_self e es
    · exact ih.cons_cons e

theorem mem_deleteEvent_of_ne {name : DmName} {es : List DevEvent} {x : DevEvent} (hx : x ∈ es)
    (hne : x.name ≠ name) : x ∈ deleteEvent name es := by
  induction es with
  | nil => exact hx
  | cons e es ih => unfold deleteEvent; grind

theorem mem_watchDmevents {es : List DevEvent} (h : (es.map DevEvent.name).Nodup)
    (name : DmName) (evtNr : ℕ) (x : DevEvent) :
    x ∈ watchDmevents es name evtNr ↔ x = ⟨name, evtNr, .nothing⟩ ∨ x ∈ es ∧ x.name ≠ name := by
  unfold watchDmevents
  split_ifs with ha
  · obtain ⟨e, he, hn⟩ : ∃ e ∈ es, e.name = name := by simpa using ha
    rw [mem_modifyEvent h]
    exact or_congr_left ⟨fun ⟨_, _, hn', hx⟩ => hn' ▸ hx, fun hx => ⟨e, he, hn, hn ▸ hx⟩⟩
  · have hno : ∀ e ∈ es, e.name ≠ name := by simpa using ha
    rw [List.mem_append, List.mem_singleton, or_comm]
    exact or_congr_right ⟨fun hx => ⟨hx, hno x hx⟩, And.left⟩

theorem watchDmevents_nodup {es : List DevEvent} (h : (es.map DevEvent.name).Nodup)
    (name : DmName) (evtNr : ℕ) : ((watchDmevents es name evtNr).map DevEvent.name).Nodup := by
  unfold watchDmevents
  split_ifs with ha
  · rw [map_name_modifyEvent]
    · exact h
    · exact fun _ => rfl
  · have hno : ∀ e ∈ es, e.name ≠ name := by simpa using ha
    simpa [List.nodup_append, h] using hno

/-- What taking an event does to the list: only its own entry changes or goes. -/
theorem pickEvent_eq_some {es es' : List DevEvent} {e : DevEvent}
    (h : pickEvent es = some (e, es')) :
    e ∈ es ∧ (es'.map DevEvent.name).Sublist (es.map DevEvent.name) ∧
      (∀ x ∈ es', x.action = .nothing ∨ x ∈ es) ∧
      ∀ x ∈ es, x = e ∧ e.action = .remove ∨ ∃ y ∈ es', y.name = x.name := by
  induction es generalizing es' with
  | nil => cases h
  | cons x xs ih =>
    unfold pickEvent at h
    split_ifs at h with ha hr
    · cases h
      refine ⟨List.mem_cons_self, by simp, fun y hy => .inr (List.mem_cons_of_mem _ hy), ?_⟩
      rintro y (- | ⟨-, hy⟩)
      · exact .inl ⟨rfl, hr⟩
      · exact .inr ⟨y, hy, rfl⟩
    · cases h
      refine ⟨List.mem_cons_self, by simp, ?_, ?_⟩
      · rintro y (- | ⟨-, hy⟩)
        · exact .inl rfl
        · exact .inr (List.mem_cons_of_mem _ hy)
      · rintro y (- | ⟨-, hy⟩)
        · exact .inr ⟨_, List.mem_cons_self, rfl⟩
        · exact .inr ⟨y, List.mem_cons_of_mem _ hy, rfl⟩
    · obtain ⟨⟨e₁, es₁⟩, hp, heq⟩ := Option.map_eq_some_iff.mp h
      cases heq
      obtain ⟨hmem, hsub, hact, hkeep⟩ := ih hp
      refine ⟨List.mem_cons_of_mem _ hmem, hsub.cons_cons x.name, ?_, ?_⟩
      · rintro y (- | ⟨-, hy⟩)
        · exact .inr List.mem_cons_self
        · exact (hact y hy).imp_right (List.mem_cons_of_mem _)
      · rintro y (- | ⟨-, hy⟩)
        · exact .inr ⟨x, List.mem_cons_self, rfl⟩
        · refine (hkeep y hy).imp_right ?_
          rintro ⟨z, hz, hzy⟩
          exact ⟨z, List.mem_cons_of_mem _ hz, hzy⟩

/-- No entry of a watched map is marked for removal. -/
def NoneMarked (s : DmState) : Prop :=
  ∀ e ∈ s.events, e.name ∈ s.watched → e.action ≠ .remove

/-- What the loop's position says about the watched maps. -/
def PcInv (s : DmState) : Prop :=
  match s.pc with
  | .poll | .select => NoneMarked s
  | .haveNames names => NoneMarked s ∧ ∀ n ∈ s.watched, ∃ d ∈ names, d.name = n
  | .marking rest =>
    ∀ e ∈ s.events, e.name ∈ s.watched → e.action ≠ .remove ∨ ∃ d ∈ rest, d.name = e.name
  | .acting c => NoneMarked s ∧ (c.action = .remove → c.name ∉ s.watched)
  | .unwatching name => NoneMarked s ∧ name ∉ s.watched

/-- The invariant of the event loop. -/
structure DmInv (s : DmState) : Prop where
  evicted : s.evicted = []
  nodup : (s.events.map DevEvent.name).Nodup
  live : ∀ n ∈ s.watched, dmIsMpath s n true = 1
  entry : ∀ n ∈ s.watched, ∃ e ∈ s.events, e.name = n
  pc : PcInv s

theorem dmIsMpath_eq_one_iff {s : DmState} {n : DmName} :
    dmIsMpath s n true = 1 ↔ ∃ d ∈ s.dm, d.name = n ∧ d.isMpath = true := by
  simp [dmIsMpath]

theorem dmIsMpath_ne_zero {s : DmState} {n : DmName} (h : dmIsMpath s n true = 1) (ok : Bool) :
    dmIsMpath s n ok ≠ 0 := by
  cases ok <;> simp_all [dmIsMpath]

theorem dmInv_dm {s s' : DmState} (hi : DmInv s) (he : s'.events = s.events)
    (hpc : s'.pc = s.pc) (hev : s'.evicted = s.evicted) (hw : ∀ n ∈ s'.watched, n ∈ s.watched)
    (hl : ∀ n ∈ s'.watched, dmIsMpath s n true = 1 → dmIsMpath s' n true = 1) : DmInv s' where
  evicted := hev.trans hi.evicted
  nodup := he ▸ hi.nodup
  live n hn := hl n hn (hi.live n (hw n hn))
  entry n hn := he ▸ hi.entry n (hw n hn)
  pc := by
    have h := hi.pc
    unfold PcInv NoneMarked at *
    rw [hpc, he]
    cases hc : s.pc <;> simp only [hc] at h ⊢ <;> grind

/-- Entering a watch that is not stale: its entry has nothing to do. -/
theorem dmInv_watch {s : DmState} {name : DmName} {evtNr : ℕ} (hi : DmInv s)
    (hm : eventsLocked s = false) (hs : NotStale s .watch s)
    (hw : s.watching = some (name, evtNr)) :
    DmInv { s with
      watching := none
      events := watchDmevents s.events name evtNr
      watched := if dmIsMpath s name true = 1 then name :: s.watched else s.watched } := by
  obtain ⟨hnames, hacting, hunwatching⟩ := hs name evtNr rfl hw
  have hmem := mem_watchDmevents hi.nodup name evtNr
  have hwatched : ∀ n ∈ (if dmIsMpath s name true = 1 then name :: s.watched else s.watched),
      n = name ∧ dmIsMpath s name true = 1 ∨ n ∈ s.watched := by
    intro n hn
    split_ifs at hn with h1
    · exact (List.mem_cons.mp hn).imp_left fun h => ⟨h, h1⟩
    · exact .inr hn
  refine ⟨hi.evicted, watchDmevents_nodup hi.nodup name evtNr, ?_, ?_, ?_⟩
  · intro n hn
    obtain ⟨rfl, h1⟩ | hn := hwatched n hn
    · exact h1
    · exact hi.live n hn
  · intro n hn
    by_cases hname : n = name
    · exact ⟨_, (hmem _).mpr (.inl rfl), hname.symm⟩
    · obtain ⟨rfl, -⟩ | hn := hwatched n hn
      · exact absurd rfl hname
      · obtain ⟨e, he, rfl⟩ := hi.entry n hn
        exact ⟨e, (hmem e).mpr (.inr ⟨he, hname⟩), rfl⟩
  · have hpc := hi.pc
    unfold PcInv NoneMarked at *
    cases hc : s.pc <;> simp only [hc, eventsLocked, reduceCtorEq] at hpc hm ⊢ <;> grind

theorem mem_markEvent {s : DmState} (h : (s.events.map DevEvent.name).Nodup) {d : DmDevice}
    {ok : Bool} (hm : dmIsMpath s d.name ok ≠ 0) {x : DevEvent} (hx : x ∈ markEvent s d ok) :
    x.action ≠ .remove ∨ x ∈ s.events ∧ x.name ≠ d.name := by
  unfold markEvent at hx
  rw [if_neg hm, mem_modifyEvent h] at hx
  refine hx.imp_left ?_
  rintro ⟨e, -, -, rfl⟩
  split_ifs <;> simp

theorem map_name_markEvent (s : DmState) (d : DmDevice) (ok : Bool) :
    (markEvent s d ok).map DevEvent.name = s.events.map DevEvent.name := by
  unfold markEvent
  split_ifs
  · rfl
  · rw [map_name_modifyEvent]
    intro e
    split_ifs <;> rfl

/-- Marking one name: only the entries of later names may stay marked. -/
theorem dmInv_mark {s : DmState} {d : DmDevice} {names : List DmDevice} (hi : DmInv s)
    (hpc : s.pc = .marking (d :: names)) (ok : Bool) :
    DmInv { s with pc := .marking names, events := markEvent s d ok } := by
  have hmap := map_name_markEvent s d ok
  have hp : ∀ e ∈ s.events, e.name ∈ s.watched →
      e.action ≠ .remove ∨ ∃ d' ∈ d :: names, d'.name = e.name := by
    simpa [PcInv, hpc] using hi.pc
  refine ⟨hi.evicted, hmap ▸ hi.nodup, hi.live, fun n hn => ?_, fun x hx hxw => ?_⟩
  · have hn' := List.mem_map.mpr (hi.entry n hn)
    exact List.mem_map.mp (hmap ▸ hn')
  · have hold : ∀ y ∈ s.events, y.name ∈ s.watched → y.name ≠ d.name →
        y.action ≠ .remove ∨ ∃ d' ∈ names, d'.name = y.name := by grind
    by_cases hd : dmIsMpath s d.name ok = 0
    · have hx' : x ∈ s.events := by simpa [markEvent, hd] using hx
      refine hold x hx' hxw fun hxd => ?_
      exact dmIsMpath_ne_zero (hxd ▸ hi.live _ hxw) ok hd
    · obtain hx | ⟨hx, hne⟩ := mem_markEvent hi.nodup hd hx
      · exact .inl hx
      · exact hold x hx hxw hne

/-- Taking an event: an entry that goes was marked, so it is not a watched one. -/
theorem dmInv_pick {s : DmState} {e : DevEvent} {es : List DevEvent} (hi : DmInv s)
    (hpc : s.pc = .select) (h : pickEvent s.events = some (e, es)) :
    DmInv { s with pc := .acting e, events := es } := by
  obtain ⟨hmem, hsub, hact, hkeep⟩ := pickEvent_eq_some h
  have hp : NoneMarked s := by simpa [PcInv, hpc] using hi.pc
  have he : e.action = .remove → e.name ∉ s.watched := fun hr hw => hp e hmem hw hr
  refine ⟨hi.evicted, hi.nodup.sublist hsub, hi.live, fun n hn => ?_, fun x hx hxw => ?_, he⟩
  · obtain ⟨x, hx, rfl⟩ := hi.entry n hn
    obtain ⟨rfl, hr⟩ | hy := hkeep x hx
    · exact absurd hn (he hr)
    · exact hy
  · obtain h0 | hx := hact x hx
    · simp [h0]
    · exact hp x hx hxw

theorem dmInv_act {s : DmState} {e : DevEvent} (hi : DmInv s) (hpc : s.pc = .acting e)
    (ok : Bool) : DmInv (actOnEvent s e ok) := by
  obtain ⟨hp, he⟩ : NoneMarked s ∧ (e.action = .remove → e.name ∉ s.watched) := by
    simpa [PcInv, hpc] using hi.pc
  have hgive : ∀ s' : DmState, s'.events = s.events → s'.dm = s.dm → s'.evicted = s.evicted →
      s'.watched = s.watched.filter (· ≠ e.name) → s'.pc = .unwatching e.name → DmInv s' := by
    intro s' hev hdm hevi hw hpc'
    have hsub : ∀ n ∈ s'.watched, n ∈ s.watched :=
      fun n hn => List.mem_of_mem_filter (hw ▸ hn)
    refine ⟨hevi.trans hi.evicted, hev ▸ hi.nodup, fun n hn => ?_, fun n hn => ?_, ?_⟩
    · have := hi.live n (hsub n hn)
      simpa [dmIsMpath, hdm] using this
    · exact hev ▸ hi.entry n (hsub n hn)
    · simp only [PcInv, hpc', NoneMarked, hev]
      exact ⟨fun x hx hxw => hp x hx (hsub _ hxw), by simp [hw]⟩
  unfold actOnEvent
  by_cases hr : e.action = .remove
  · rw [if_pos hr]
    exact ⟨by simp [he hr, hi.evicted], hi.nodup, hi.live, hi.entry, hp⟩
  · rw [if_neg hr]
    split_ifs
    · exact hgive _ rfl rfl rfl rfl rfl
    · exact ⟨hi.evicted, hi.nodup, hi.live, hi.entry, hp⟩
    · exact hgive _ rfl rfl rfl rfl rfl

theorem dmInv_unwatch {s : DmState} {name : DmName} (hi : DmInv s)
    (hpc : s.pc = .unwatching name) :
    DmInv { s with pc := .select, events := deleteEvent name s.events } := by
  obtain ⟨hp, hname⟩ : NoneMarked s ∧ name ∉ s.watched := by simpa [PcInv, hpc] using hi.pc
  have hsub := deleteEvent_sublist name s.events
  refine ⟨hi.evicted, hi.nodup.sublist (hsub.map _), hi.live, fun n hn => ?_, fun x hx => ?_⟩
  · obtain ⟨x, hx, rfl⟩ := hi.entry n hn
    exact ⟨x, mem_deleteEvent_of_ne hx fun h => hname (h ▸ hn), rfl⟩
  · exact hp x (hsub.subset hx)

/-- One step: every event but a stale watch keeps the invariant. -/
theorem dmStep_inv {s s' : DmState} {e : DmEvent} (h : dmStep s e = some s')
    (hs : NotStale s e s') (hi : DmInv s) : DmInv s' := by
  cases e with
  | dmCreate d =>
    simp only [dmStep] at h
    split_ifs at h
    cases h
    refine dmInv_dm hi rfl rfl rfl (fun _ => id) fun n _ => ?_
    simp only [dmIsMpath_eq_one_iff]
    exact fun ⟨d', hd', h⟩ => ⟨d', List.mem_cons_of_mem _ hd', h⟩
  | dmEvent name eventNr =>
    cases h
    refine dmInv_dm hi rfl rfl rfl (fun _ => id) fun n _ => ?_
    simp only [dmIsMpath_eq_one_iff]
    rintro ⟨d, hd, hn, hmp⟩
    refine ⟨_, List.mem_map_of_mem hd, ?_⟩
    split_ifs <;> exact ⟨hn, hmp⟩
  | dmRemove name =>
    cases h
    refine dmInv_dm hi rfl rfl rfl (fun n hn => List.mem_of_mem_filter hn) fun n hn => ?_
    have hne : n ≠ name := by simpa using List.of_mem_filter hn
    simp only [dmIsMpath_eq_one_iff]
    rintro ⟨d, hd, rfl, hmp⟩
    exact ⟨d, by simp [hd, hne], rfl, hmp⟩
  | lockVecs | unlockVecs | addMap name | delMap name | watchQuery name ok =>
    simp only [dmStep] at h
    split_ifs at h
    cases h
    exact dmInv_dm hi rfl rfl rfl (fun _ => id) fun _ _ => id
  | watch =>
    simp only [dmStep] at h
    split at h
    case h_1 name evtNr hw =>
      by_cases hl : eventsLocked s = true
      · simp [hl] at h
      · rw [if_neg hl] at h
        cases h
        exact dmInv_watch hi (by simpa using hl) hs hw
    case h_2 => cases h
  | unwatchAll =>
    simp only [dmStep] at h
    split_ifs at h with hl
    cases h
    refine ⟨hi.evicted, List.nodup_nil, by simp, by simp, ?_⟩
    unfold PcInv NoneMarked
    split <;> simp
  | takeNames =>
    simp only [dmStep] at h
    split_ifs at h with hpc
    cases h
    have hp : NoneMarked s := by simpa [PcInv, hpc] using hi.pc
    refine ⟨hi.evicted, hi.nodup, hi.live, hi.entry, hp, fun n hn => ?_⟩
    obtain ⟨d, hd, hdn, -⟩ := dmIsMpath_eq_one_iff.mp (hi.live n hn)
    exact ⟨d, hd, hdn⟩
  | lockEvents =>
    simp only [dmStep] at h
    split at h
    case h_1 names hpc =>
      cases h
      obtain ⟨-, hn⟩ : NoneMarked s ∧ ∀ n ∈ s.watched, ∃ d ∈ names, d.name = n := by
        simpa [PcInv, hpc] using hi.pc
      refine ⟨hi.evicted, ?_, hi.live, ?_, fun e _ he => .inr (hn _ he)⟩
      · simpa [Function.comp_def] using hi.nodup
      · simpa using hi.entry
    case h_2 => cases h
  | mark ok =>
    simp only [dmStep] at h
    split at h
    case h_1 hpc =>
      cases h
      refine ⟨hi.evicted, hi.nodup, hi.live, hi.entry, ?_⟩
      simpa [PcInv, NoneMarked, hpc] using hi.pc
    case h_2 d names hpc =>
      cases h
      exact dmInv_mark hi hpc ok
    case h_3 => cases h
  | pick =>
    simp only [dmStep] at h
    split_ifs at h with hpc
    split at h
    case h_1 e es he =>
      cases h
      exact dmInv_pick hi hpc he
    case h_2 =>
      cases h
      refine ⟨hi.evicted, hi.nodup, hi.live, hi.entry, ?_⟩
      simpa [PcInv, NoneMarked, hpc] using hi.pc
  | act ok =>
    simp only [dmStep] at h
    split at h
    case h_1 e hpc =>
      split_ifs at h
      cases h
      exact dmInv_act hi hpc ok
    case h_2 => cases h
  | unwatch =>
    simp only [dmStep] at h
    split at h
    case h_1 name hpc =>
      cases h
      exact dmInv_unwatch hi hpc
    case h_2 => cases h

theorem dmInv_init (dm : List DmDevice) (mpvec : List DmName) :
    DmInv { dm := dm, mpvec := mpvec } := by
  refine ⟨rfl, by simp, by simp, by simp, ?_⟩
  simp [PcInv, NoneMarked]

theorem DmInv.watched {s : DmState} (hi : DmInv s) : Watched s := ⟨hi.entry, hi.evicted⟩

/-- In a run without a stale watch, in every state that it reaches, the maps that stay in
device-mapper keep their entry and none of them has been removed from the daemon. -/
theorem dmevents_keep_watched (dm : List DmDevice) (mpvec : List DmName) (es : List DmEvent)
    (hs : Along dmStep NotStale { dm := dm, mpvec := mpvec } es) :
    Along dmStep (fun _ _ s' => Watched s') { dm := dm, mpvec := mpvec } es := by
  refine along_of_invariant DmInv (fun s e s' h hs hi => ?_) (dmInv_init dm mpvec) hs
  have hi' := dmStep_inv h hs hi
  exact ⟨hi', hi'.watched⟩

/-- The thread that creates a map enters its watch before the loop takes the names. -/
def createBeforeNames (name : DmName) : List DmEvent :=
  [.lockVecs, .dmCreate { name := name }, .addMap name, .watchQuery name true, .watch,
    .unlockVecs, .takeNames, .lockEvents, .mark true, .mark true, .pick]

/-- The loop has taken the names when the map is created, and marks after it is watched. -/
def createAfterNames (name : DmName) : List DmEvent :=
  [.takeNames, .lockVecs, .dmCreate { name := name }, .addMap name, .watchQuery name true, .watch,
    .unlockVecs, .lockEvents, .mark true, .pick, .act true]

theorem dmevents_keep_created :
    Along dmStep (fun _ _ s' => Watched s') {} (createBeforeNames ⟨"mpatha".toList, by decide⟩) ∧
      (run dmStep {} (createBeforeNames ⟨"mpatha".toList, by decide⟩)).map
        (fun t => (t.pc, t.mpvec.length, t.events.length)) = some (.poll, 1, 1) := by
  refine ⟨dmevents_keep_watched _ _ _ ?_, by decide⟩
  simp [createBeforeNames, Along, dmStep, NotStale, eventsLocked, watchDmeventsQuery, dmIsMpath,
    dmGeteventnr]

/-- The map that the stale names list does not know is marked `EVENT_REMOVE`: the loop frees
its entry and removes the map, which is still in device-mapper. -/
theorem dmevents_evict_created :
    (run dmStep {} (createAfterNames ⟨"mpatha".toList, by decide⟩)).map
      (fun t => (t.dm.length, t.watched.length, t.mpvec, t.events, t.evicted.length)) =
        some (1, 1, [], [], 1) ∧
    ¬ ∀ t, run dmStep {} (createAfterNames ⟨"mpatha".toList, by decide⟩) = some t → Watched t := by
  refine ⟨rfl, fun h => ?_⟩
  have hev := (h _ rfl).2
  exact absurd hev (by decide)

end MultipathTools.Daemon
