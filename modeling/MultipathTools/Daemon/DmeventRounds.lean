import MultipathTools.Daemon.Dmevents

/-! The rounds of `dmevent_loop`, one after another, without another thread that watches maps
while one is under way. -/
namespace MultipathTools.Daemon

/-- An entry of the names list, with the answer of `dm_is_mpath`: 1, 0, or -1 if it fails. -/
structure ListedName where
  name : DmName
  eventNr : ℕ := 0
  isMpath : ℤ := 1
  deriving DecidableEq, Repr

/-- What `DM_DEVICE_LIST` returns: device-mapper names are distinct. -/
structure NamesList where
  names : List ListedName
  distinct : (names.map ListedName.name).Nodup

/-- A call of `remove_map_by_alias` or of `update_multipath`, which returned `rc`. -/
inductive LoopCall where
  | remove (name : DmName)
  | update (name : DmName) (rc : ℤ)
  deriving DecidableEq, Repr

def LoopCall.name : LoopCall → DmName
  | .remove name => name
  | .update name _ => name

/-- What a round meets. The names are `none` if one of the steps to fetch them fails; what
`update_multipath` returns may depend on the calls before. -/
structure Round where
  pollOk : Bool := true
  armOk : Bool := true
  names : Option NamesList := none
  update : List LoopCall → DmName → ℤ := fun _ _ => 0

/-- The body of the marking loop of `dm_get_events`. -/
def markListed (events : List DevEvent) (n : ListedName) : List DevEvent :=
  if n.isMpath = 0 then events
  else modifyEvent n.name (fun e =>
    if n.eventNr ≠ e.evtNr then { e with evtNr := n.eventNr, action := .update }
    else { e with action := .nothing }) events

/-- `dm_get_events`, if the names could be fetched. -/
def dmGetEvents (names : List ListedName) (events : List DevEvent) : List DevEvent :=
  names.foldl markListed (events.map fun e => { e with action := .remove })

theorem deleteEvent_countP (p : DevEvent → Bool) (name : DmName) (es : List DevEvent) :
    (deleteEvent name es).countP p ≤ es.countP p :=
  (deleteEvent_sublist name es).countP_le

/-- Taking an event leaves one less. -/
theorem pickEvent_countP {es es' : List DevEvent} {e : DevEvent}
    (h : pickEvent es = some (e, es')) :
    es'.countP (·.action ≠ .nothing) < es.countP (·.action ≠ .nothing) := by
  induction es generalizing es' with
  | nil => cases h
  | cons x xs ih =>
    unfold pickEvent at h
    by_cases ha : x.action ≠ .nothing
    · rw [if_pos ha] at h
      rw [List.countP_cons_of_pos (by simpa using ha)]
      obtain ⟨rfl, rfl⟩ := Prod.mk.inj (Option.some.inj h)
      by_cases hr : x.action = .remove
      · rw [if_pos hr]
        exact Nat.lt_succ_self _
      · rw [if_neg hr, List.countP_cons_of_neg (by simp)]
        exact Nat.lt_succ_self _
    · rw [if_neg ha] at h
      obtain ⟨⟨e₁, es₁⟩, hp, heq⟩ := Option.map_eq_some_iff.mp h
      obtain ⟨rfl, rfl⟩ := Prod.mk.inj heq
      rw [List.countP_cons_of_neg (by simpa using ha), List.countP_cons_of_neg (by simpa using ha)]
      exact ih hp

/-- The loop that acts on one event after another, each time from the first slot on. -/
def actLoop (update : List LoopCall → DmName → ℤ) (events : List DevEvent)
    (calls : List LoopCall) : List DevEvent × List LoopCall :=
  match h : pickEvent events with
  | none => (events, calls)
  | some (currDev, rest) =>
    if currDev.action = .remove then actLoop update rest (calls ++ [.remove currDev.name])
    else
      let r := update calls currDev.name
      if r ≠ 0 then
        actLoop update (deleteEvent currDev.name rest) (calls ++ [.update currDev.name r])
      else actLoop update rest (calls ++ [.update currDev.name r])
termination_by events.countP (·.action ≠ .nothing)
decreasing_by
  · exact pickEvent_countP h
  · exact lt_of_le_of_lt (deleteEvent_countP _ _ _) (pickEvent_countP h)
  · exact pickEvent_countP h

/-- `dmevent_loop`: the events after it, and the calls that it makes. -/
def dmeventLoop (events : List DevEvent) (r : Round) : List DevEvent × List LoopCall :=
  if !r.pollOk then (events, [])
  else if !r.armOk then (events, [])
  else match r.names with
  | none => (events, [])
  | some l => actLoop r.update (dmGetEvents l.names events) []

/-- What the marking loop does to the event of a listed map. -/
def compareEvent (n : ListedName) (e : DevEvent) : DevEvent :=
  if n.eventNr ≠ e.evtNr then { e with evtNr := n.eventNr, action := .update }
  else { e with action := .nothing }

/-- The entry of the list for a watched map, unless it is no multipath map. -/
def listed (names : List ListedName) (name : DmName) : Option ListedName :=
  names.find? fun n => n.name = name ∧ n.isMpath ≠ 0

/-- The event of a watched map after the marking loop. -/
def verdict (names : List ListedName) (e : DevEvent) : DevEvent :=
  match listed names e.name with
  | none => { e with action := .remove }
  | some n => compareEvent n e

section Mark

variable {names : List ListedName} {events : List DevEvent} {n : ListedName}

@[simp] theorem compareEvent_name (n : ListedName) (e : DevEvent) :
    (compareEvent n e).name = e.name := by
  unfold compareEvent
  split_ifs <;> rfl

@[simp] theorem verdict_name (names : List ListedName) (e : DevEvent) :
    (verdict names e).name = e.name := by
  unfold verdict
  cases listed names e.name with
  | none => rfl
  | some n => exact compareEvent_name n e

theorem modifyEvent_eq_map {f : DevEvent → DevEvent} {name : DmName}
    (h : (events.map DevEvent.name).Nodup) :
    modifyEvent name f events = events.map fun e => if e.name = name then f e else e := by
  induction events with
  | nil => rfl
  | cons e es ih =>
    rw [List.map_cons, List.nodup_cons] at h
    rw [modifyEvent, List.map_cons]
    by_cases he : e.name = name
    · rw [if_pos he, if_pos he]
      congr 1
      symm
      apply (List.map_congr_left _).trans (List.map_id es)
      intro x hx
      apply if_neg
      intro hname
      exact h.1 (List.mem_map.mpr ⟨x, hx, hname.trans he.symm⟩)
    · rw [if_neg he, if_neg he, ih h.2]

/-- The change that one listed name makes to an event. -/
def markOne (e : DevEvent) (n : ListedName) : DevEvent :=
  if e.name = n.name ∧ n.isMpath ≠ 0 then compareEvent n e else e

theorem markOne_name (e : DevEvent) (n : ListedName) : (markOne e n).name = e.name := by
  unfold markOne
  split_ifs
  · exact compareEvent_name n e
  · rfl

theorem markListed_eq_map (h : (events.map DevEvent.name).Nodup) :
    markListed events n = events.map (markOne · n) := by
  unfold markListed
  by_cases hm : n.isMpath = 0
  · rw [if_pos hm]
    symm
    apply (List.map_congr_left _).trans (List.map_id events)
    intro e he
    apply if_neg
    rintro ⟨-, hne⟩
    exact hne hm
  · rw [if_neg hm, modifyEvent_eq_map h]
    apply List.map_congr_left
    intro e he
    unfold markOne
    by_cases hname : e.name = n.name
    · have hand : e.name = n.name ∧ n.isMpath ≠ 0 := ⟨hname, hm⟩
      simp only [if_pos hname, if_pos hand]
      rfl
    · simp only [if_neg hname]
      exact (if_neg fun hand => hname hand.1).symm

theorem foldl_markListed (h : (events.map DevEvent.name).Nodup) :
    names.foldl markListed events = events.map fun e => names.foldl markOne e := by
  induction names generalizing events with
  | nil => exact (List.map_id events).symm
  | cons n names ih =>
    have hmap : ((events.map (markOne · n)).map DevEvent.name) = events.map DevEvent.name := by
      rw [List.map_map]
      exact List.map_congr_left fun e _ => markOne_name e n
    rw [List.foldl_cons, markListed_eq_map h, ih (hmap ▸ h), List.map_map]
    rfl

/-- A name is listed once, so an event is compared at most once. -/
theorem foldl_markOne (h : (names.map ListedName.name).Nodup) (e : DevEvent) :
    names.foldl markOne e = match listed names e.name with
      | none => e
      | some n => compareEvent n e := by
  induction names generalizing e with
  | nil => rfl
  | cons n names ih =>
    rw [List.map_cons, List.nodup_cons] at h
    rw [List.foldl_cons, listed]
    by_cases hn : n.name = e.name ∧ n.isMpath ≠ 0
    · have hlater : listed names (compareEvent n e).name = none := by
        apply List.find?_eq_none.mpr
        intro m hm
        rw [compareEvent_name]
        simp only [decide_eq_true_eq, not_and]
        intro hname
        exact absurd (List.mem_map.mpr ⟨m, hm, hname.trans hn.1.symm⟩) h.1
      rw [List.find?_cons_of_pos (by simpa using hn), markOne, if_pos ⟨hn.1.symm, hn.2⟩, ih h.2,
        hlater]
    · rw [List.find?_cons_of_neg (by simpa using hn), markOne,
        if_neg fun hand => hn ⟨hand.1.symm, hand.2⟩, ih h.2]
      rfl

theorem dmGetEvents_eq (h : (names.map ListedName.name).Nodup)
    (he : (events.map DevEvent.name).Nodup) :
    dmGetEvents names events = events.map (verdict names) := by
  have hmap : (events.map fun e => { e with action := EventAction.remove }).map DevEvent.name =
      events.map DevEvent.name := by
    rw [List.map_map]
    rfl
  rw [dmGetEvents, foldl_markListed (hmap ▸ he), List.map_map]
  apply List.map_congr_left
  intro e _
  rw [Function.comp_apply, foldl_markOne h, verdict]
  cases listed names e.name with
  | none => rfl
  | some n => rfl

end Mark

/-- What acting on all events, from the first slot to the last, comes to. -/
def settle (update : List LoopCall → DmName → ℤ) :
    List DevEvent → List LoopCall → List DevEvent × List LoopCall
  | [], calls => ([], calls)
  | e :: es, calls =>
    match e.action with
    | .nothing =>
      let r := settle update es calls
      (e :: r.1, r.2)
    | .remove => settle update es (calls ++ [.remove e.name])
    | .update =>
      let rc := update calls e.name
      let r := settle update es (calls ++ [.update e.name rc])
      (if rc = 0 then { e with action := .nothing } :: r.1 else r.1, r.2)

section Settle

variable {update : List LoopCall → DmName → ℤ} {done es : List DevEvent} {calls : List LoopCall}
  {e : DevEvent}

theorem pickEvent_done (hdone : ∀ e ∈ done, e.action = .nothing) :
    pickEvent (done ++ es) = (pickEvent es).map fun r => (r.1, done ++ r.2) := by
  induction done with
  | nil => exact Option.map_id'.symm
  | cons d done ih =>
    have hd := hdone d List.mem_cons_self
    rw [List.cons_append, pickEvent, if_neg fun hne => hne hd,
      ih fun e he => hdone e (List.mem_cons_of_mem d he), Option.map_map]
    rfl

theorem deleteEvent_append (hdone : ∀ d ∈ done, d.name ≠ e.name) :
    deleteEvent e.name (done ++ e :: es) = done ++ es := by
  induction done with
  | nil => exact if_pos rfl
  | cons d done ih =>
    rw [List.cons_append, deleteEvent, if_neg (hdone d List.mem_cons_self),
      ih fun x hx => hdone x (List.mem_cons_of_mem d hx)]
    rfl

theorem actLoop_none (h : pickEvent es = none) : actLoop update es calls = (es, calls) := by
  rw [actLoop]
  split
  · rfl
  · next c rest hpick =>
      rw [h] at hpick
      cases hpick

theorem actLoop_some {c : DevEvent} {rest : List DevEvent} (h : pickEvent es = some (c, rest)) :
    actLoop update es calls =
      if c.action = .remove then actLoop update rest (calls ++ [.remove c.name])
      else if update calls c.name ≠ 0 then
        actLoop update (deleteEvent c.name rest) (calls ++ [.update c.name (update calls c.name)])
      else actLoop update rest (calls ++ [.update c.name (update calls c.name)]) := by
  rw [actLoop]
  split
  · next hpick =>
      rw [h] at hpick
      cases hpick
  · next c' rest' hpick =>
      rw [h] at hpick
      obtain ⟨rfl, rfl⟩ := Prod.mk.inj (Option.some.inj hpick)
      rfl

/-- The loop acts on the events in their order, although it starts from the first slot each time
and slots go. -/
theorem actLoop_eq_settle (hdone : ∀ d ∈ done, d.action = .nothing)
    (h : ((done ++ es).map DevEvent.name).Nodup) :
    actLoop update (done ++ es) calls =
      (done ++ (settle update es calls).1, (settle update es calls).2) := by
  induction es generalizing done calls with
  | nil =>
    have hpick : pickEvent (done ++ []) = none := pickEvent_done hdone
    rw [actLoop_none hpick]
    rfl
  | cons e es ih =>
    have hother : ∀ d ∈ done, d.name ≠ e.name := by
      intro d hd hname
      rw [List.map_append] at h
      apply (List.nodup_append.mp h).2.2 d.name (List.mem_map_of_mem hd) e.name
        (List.mem_map_of_mem List.mem_cons_self) hname
    have hshift (x : DevEvent) (hx : x.name = e.name) :
        ((done ++ [x] ++ es).map DevEvent.name).Nodup := by
      rw [List.map_append, List.map_append, List.append_assoc, List.map_singleton, hx]
      rwa [List.map_append, List.map_cons] at h
    have hrest : ((done ++ es).map DevEvent.name).Nodup := by
      have hsub := ((List.sublist_cons_self e es).append_left done).map DevEvent.name
      exact hsub.nodup h
    have hnothing (x : DevEvent) (hx : x.action = .nothing) :
        ∀ d ∈ done ++ [x], d.action = .nothing := by
      intro d hd
      rcases List.mem_append.mp hd with hd | hd
      · exact hdone d hd
      · rw [List.mem_singleton.mp hd]
        exact hx
    cases ha : e.action with
    | nothing =>
      have hnext : actLoop update (done ++ [e] ++ es) calls = _ :=
        ih (hnothing e ha) (hshift e rfl)
      rw [List.append_assoc, List.singleton_append] at hnext
      rw [hnext, settle, ha, List.append_assoc]
      rfl
    | remove =>
      have hpick : pickEvent (done ++ e :: es) = some (e, done ++ es) := by
        rw [pickEvent_done hdone, pickEvent, ha]
        rfl
      rw [actLoop_some hpick, if_pos ha, ih hdone hrest, settle, ha]
    | update =>
      have hpick : pickEvent (done ++ e :: es) =
          some (e, done ++ { e with action := .nothing } :: es) := by
        rw [pickEvent_done hdone, pickEvent, ha]
        rfl
      have hremove : ¬ e.action = .remove := by
        rw [ha]
        decide
      rw [actLoop_some hpick, if_neg hremove, settle, ha]
      dsimp only
      by_cases hrc : update calls e.name = 0
      · have hnext : actLoop update (done ++ [{ e with action := .nothing }] ++ es)
            (calls ++ [.update e.name (update calls e.name)]) = _ :=
          ih (hnothing { e with action := .nothing } rfl) (hshift _ rfl)
        rw [List.append_assoc, List.singleton_append] at hnext
        rw [if_neg fun hne => hne hrc, if_pos hrc, hnext, List.append_assoc]
        rfl
      · have hdelete := @deleteEvent_append done es { e with action := .nothing } hother
        rw [if_pos hrc, if_neg hrc, hdelete, ih hdone hrest]

/-- The calls for one map. -/
def callsOf (name : DmName) (calls : List LoopCall) : List LoopCall :=
  calls.filter (·.name = name)

theorem callsOf_append_self (calls : List LoopCall) (c : LoopCall) :
    callsOf c.name (calls ++ [c]) = callsOf c.name calls ++ [c] := by
  rw [callsOf, List.filter_append, List.filter_singleton, decide_eq_true rfl]
  rfl

theorem callsOf_append_other {name : DmName} (calls : List LoopCall) (c : LoopCall)
    (h : c.name ≠ name) : callsOf name (calls ++ [c]) = callsOf name calls := by
  rw [callsOf, List.filter_append, List.filter_singleton, decide_eq_false h]
  exact List.append_nil _

/-- Events of other maps make no calls for a map. -/
theorem settle_other {name : DmName} (h : name ∉ es.map DevEvent.name) :
    callsOf name (settle update es calls).2 = callsOf name calls ∧
      name ∉ (settle update es calls).1.map DevEvent.name := by
  induction es generalizing calls with
  | nil => exact ⟨rfl, List.not_mem_nil⟩
  | cons e es ih =>
    rw [List.map_cons, List.mem_cons, not_or] at h
    obtain ⟨hne, hes⟩ := h
    unfold settle
    cases ha : e.action with
    | nothing =>
      dsimp only
      obtain ⟨hcalls, hnot⟩ := @ih calls hes
      refine ⟨hcalls, ?_⟩
      rw [List.map_cons, List.mem_cons, not_or]
      exact ⟨hne, hnot⟩
    | remove =>
      dsimp only
      obtain ⟨hcalls, hnot⟩ := @ih (calls ++ [.remove e.name]) hes
      exact ⟨hcalls.trans (callsOf_append_other calls (.remove e.name) (Ne.symm hne)), hnot⟩
    | update =>
      dsimp only
      obtain ⟨hcalls, hnot⟩ := @ih (calls ++ [.update e.name (update calls e.name)]) hes
      constructor
      · exact hcalls.trans (callsOf_append_other calls (.update e.name _) (Ne.symm hne))
      · by_cases hrc : update calls e.name = 0
        · rw [if_pos hrc, List.map_cons, List.mem_cons, not_or]
          exact ⟨hne, hnot⟩
        · rw [if_neg hrc]
          exact hnot

/-- The calls for the map of an event, and whether the map stays under watch. -/
def Settled (e : DevEvent) (calls : List LoopCall) (watched : Prop) : Prop :=
  match e.action with
  | .nothing => calls = [] ∧ watched
  | .remove => calls = [.remove e.name] ∧ ¬ watched
  | .update => ∃ rc, calls = [.update e.name rc] ∧ (watched ↔ rc = 0)

theorem settle_settled (h : (es.map DevEvent.name).Nodup) (he : e ∈ es)
    (hcalls : callsOf e.name calls = []) :
    Settled e (callsOf e.name (settle update es calls).2)
      (e.name ∈ (settle update es calls).1.map DevEvent.name) := by
  induction es generalizing calls with
  | nil => cases he
  | cons x es ih =>
    rw [List.map_cons, List.nodup_cons] at h
    rcases List.mem_cons.mp he with rfl | he
    · unfold Settled settle
      cases ha : e.action with
      | nothing =>
        dsimp only
        rw [(settle_other h.1).1]
        exact ⟨hcalls, List.mem_cons_self⟩
      | remove =>
        dsimp only
        obtain ⟨hother, hnot⟩ := @settle_other update es (calls ++ [.remove e.name]) _ h.1
        rw [hother]
        have hself := callsOf_append_self calls (.remove e.name)
        rw [LoopCall.name, hcalls] at hself
        exact ⟨hself, hnot⟩
      | update =>
        dsimp only
        obtain ⟨hother, hnot⟩ := @settle_other update es
          (calls ++ [.update e.name (update calls e.name)]) _ h.1
        rw [hother]
        have hself := callsOf_append_self calls (.update e.name (update calls e.name))
        rw [LoopCall.name, hcalls] at hself
        refine ⟨_, hself, ?_⟩
        by_cases hrc : update calls e.name = 0
        · rw [if_pos hrc]
          exact iff_of_true List.mem_cons_self hrc
        · rw [if_neg hrc]
          exact iff_of_false hnot hrc
    · have hne : x.name ≠ e.name := by
        intro hname
        exact h.1 (hname ▸ List.mem_map_of_mem he)
      unfold settle
      cases ha : x.action with
      | nothing =>
        dsimp only
        rw [List.map_cons, List.mem_cons, or_iff_right hne.symm]
        exact ih h.2 he hcalls
      | remove =>
        dsimp only
        exact ih h.2 he ((callsOf_append_other calls (.remove x.name) hne).trans hcalls)
      | update =>
        have hother := callsOf_append_other calls (.update x.name (update calls x.name)) hne
        have hnext := ih h.2 he (hother.trans hcalls)
        dsimp only
        by_cases hrc : update calls x.name = 0
        · rw [if_pos hrc, List.map_cons, List.mem_cons, or_iff_right hne.symm]
          exact hnext
        · rw [if_neg hrc]
          exact hnext

/-- What is left are events with nothing to do, each in its place. -/
theorem settle_events :
    ((settle update es calls).1).Sublist (es.map fun e => { e with action := .nothing }) ∧
      ∀ e ∈ (settle update es calls).1, ∃ x ∈ es, x.action ≠ .remove ∧
        e = { x with action := .nothing } := by
  induction es generalizing calls with
  | nil => exact ⟨List.Sublist.slnil, List.forall_mem_nil _⟩
  | cons x es ih =>
    have hkeep {r : List DevEvent} (hx : x.action ≠ .remove)
        (hr : r.Sublist (es.map fun e => { e with action := .nothing }) ∧
          ∀ e ∈ r, ∃ y ∈ es, y.action ≠ .remove ∧ e = { y with action := .nothing }) :
        ({ x with action := EventAction.nothing } :: r).Sublist
            ((x :: es).map fun e => { e with action := .nothing }) ∧
          ∀ e ∈ ({ x with action := EventAction.nothing } :: r),
            ∃ y ∈ x :: es, y.action ≠ .remove ∧ e = { y with action := .nothing } := by
      refine ⟨hr.1.cons_cons _, fun e he => ?_⟩
      rcases List.mem_cons.mp he with rfl | he
      · exact ⟨x, List.mem_cons_self, hx, rfl⟩
      · obtain ⟨y, hy, hact, heq⟩ := hr.2 e he
        exact ⟨y, List.mem_cons_of_mem x hy, hact, heq⟩
    have hdrop {r : List DevEvent}
        (hr : r.Sublist (es.map fun e => { e with action := .nothing }) ∧
          ∀ e ∈ r, ∃ y ∈ es, y.action ≠ .remove ∧ e = { y with action := .nothing }) :
        r.Sublist ((x :: es).map fun e => { e with action := .nothing }) ∧
          ∀ e ∈ r, ∃ y ∈ x :: es, y.action ≠ .remove ∧ e = { y with action := .nothing } := by
      refine ⟨hr.1.cons _, fun e he => ?_⟩
      obtain ⟨y, hy, hact, heq⟩ := hr.2 e he
      exact ⟨y, List.mem_cons_of_mem x hy, hact, heq⟩
    unfold settle
    cases ha : x.action with
    | nothing =>
      dsimp only
      have hx : { x with action := EventAction.nothing } = x := by rw [← ha]
      have hnext := hkeep (by rw [ha]; decide) (@ih calls)
      rwa [hx] at hnext
    | remove => exact hdrop ih
    | update =>
      dsimp only
      by_cases hrc : update calls x.name = 0
      · rw [if_pos hrc]
        exact hkeep (by rw [ha]; decide) ih
      · rw [if_neg hrc]
        exact hdrop ih

end Settle

/-- What a round must do, if the names have been fetched: `listed` is the entry of a map that
is in the list as a multipath map. -/
structure RoundLaw (names : List ListedName) (events : List DevEvent)
    (r : List DevEvent × List LoopCall) : Prop where
  /-- A map with another event number is updated once, and is unwatched if that fails. -/
  changed : ∀ e ∈ events, ∀ n, listed names e.name = some n → n.eventNr ≠ e.evtNr →
    ∃ rc, callsOf e.name r.2 = [.update e.name rc] ∧
      (e.name ∈ r.1.map DevEvent.name ↔ rc = 0)
  /-- A map that is not listed is removed once, and not watched any more. -/
  gone : ∀ e ∈ events, listed names e.name = none →
    callsOf e.name r.2 = [.remove e.name] ∧ e.name ∉ r.1.map DevEvent.name
  /-- Nothing happens to a map without a new event. -/
  unchanged : ∀ e ∈ events, ∀ n, listed names e.name = some n → n.eventNr = e.evtNr →
    callsOf e.name r.2 = [] ∧ e.name ∈ r.1.map DevEvent.name
  /-- No other maps are touched, and the event numbers of the list are kept. -/
  others : ∀ name, name ∉ events.map DevEvent.name →
    callsOf name r.2 = [] ∧ name ∉ r.1.map DevEvent.name
  numbers : ∀ e ∈ r.1, ∃ n, listed names e.name = some n ∧ n.eventNr = e.evtNr

section Round

variable {names : List ListedName} {events : List DevEvent}
  {update : List LoopCall → DmName → ℤ}

theorem names_verdict : (events.map (verdict names)).map DevEvent.name =
    events.map DevEvent.name := by
  rw [List.map_map]
  exact List.map_congr_left fun e _ => verdict_name names e

/-- A round acts on the verdicts. -/
theorem actLoop_verdict (h : (names.map ListedName.name).Nodup)
    (he : (events.map DevEvent.name).Nodup) :
    actLoop update (dmGetEvents names events) [] = settle update (events.map (verdict names)) [] := by
  rw [dmGetEvents_eq h he]
  exact actLoop_eq_settle (List.forall_mem_nil _) (by rwa [List.nil_append, names_verdict])

theorem settled_verdict (h : (names.map ListedName.name).Nodup)
    (he : (events.map DevEvent.name).Nodup) {e : DevEvent} (hmem : e ∈ events) :
    Settled (verdict names e)
      (callsOf e.name (actLoop update (dmGetEvents names events) []).2)
      (e.name ∈ (actLoop update (dmGetEvents names events) []).1.map DevEvent.name) := by
  have hnodup : ((events.map (verdict names)).map DevEvent.name).Nodup := by
    rwa [names_verdict]
  rw [actLoop_verdict h he, ← verdict_name names e]
  exact settle_settled hnodup (List.mem_map_of_mem hmem) rfl

theorem roundLaw (h : (names.map ListedName.name).Nodup)
    (he : (events.map DevEvent.name).Nodup) :
    RoundLaw names events (actLoop update (dmGetEvents names events) []) := by
  have hlisted {e : DevEvent} {n : ListedName} (hn : listed names e.name = some n) :
      verdict names e = compareEvent n e := by
    rw [verdict, hn]
  constructor
  · intro e hmem n hn hchanged
    have hsettled := @settled_verdict _ _ update h he e hmem
    rw [hlisted hn, compareEvent, if_pos hchanged] at hsettled
    exact hsettled
  · intro e hmem hn
    have hsettled := @settled_verdict _ _ update h he e hmem
    rw [verdict, hn] at hsettled
    exact hsettled
  · intro e hmem n hn hsame
    have hsettled := @settled_verdict _ _ update h he e hmem
    rw [hlisted hn, compareEvent, if_neg fun hne => hne hsame] at hsettled
    exact hsettled
  · intro name hname
    rw [actLoop_verdict h he]
    exact settle_other (by rwa [names_verdict])
  · intro e hmem
    rw [actLoop_verdict h he] at hmem
    obtain ⟨x, hx, hact, rfl⟩ := settle_events.2 e hmem
    obtain ⟨y, -, rfl⟩ := List.mem_map.mp hx
    cases hn : listed names y.name with
    | none =>
      rw [verdict, hn] at hact
      exact absurd rfl hact
    | some n =>
      refine ⟨n, by rw [verdict_name]; exact hn, ?_⟩
      rw [hlisted hn, compareEvent]
      by_cases hne : n.eventNr ≠ y.evtNr
      · rw [if_pos hne]
      · rw [if_neg hne]
        exact not_not.mp hne

/-- The names that a round works on, unless a step before failed. -/
def Round.fetched (r : Round) : Option NamesList :=
  if r.pollOk ∧ r.armOk then r.names else none

theorem dmeventLoop_eq (events : List DevEvent) (r : Round) :
    dmeventLoop events r = match r.fetched with
      | none => (events, [])
      | some l => actLoop r.update (dmGetEvents l.names events) [] := by
  rcases r with ⟨pollOk, armOk, names, update⟩
  cases pollOk <;> cases armOk <;> rfl

/-- A round keeps the names of the watched maps distinct. -/
theorem dmeventLoop_nodup (r : Round) (he : (events.map DevEvent.name).Nodup) :
    ((dmeventLoop events r).1.map DevEvent.name).Nodup := by
  rw [dmeventLoop_eq]
  cases r.fetched with
  | none => exact he
  | some l =>
    dsimp only
    rw [actLoop_verdict l.distinct he]
    have hnames : ((events.map (verdict l.names)).map DevEvent.name).Nodup := by
      rwa [names_verdict]
    have hsub := (@settle_events r.update (events.map (verdict l.names)) []).1.map DevEvent.name
    apply hsub.nodup
    rw [List.map_map]
    exact hnames

end Round

/-- What happens one after another: rounds, and calls of the other thread between them. -/
inductive LoopStep where
  | round (r : Round)
  | watch (name : DmName) (evtNr : ℕ)
  | unwatchAll

def loopStep (events : List DevEvent) : LoopStep → List DevEvent
  | .round r => (dmeventLoop events r).1
  | .watch name evtNr => watchDmevents events name evtNr
  | .unwatchAll => []

theorem loopSteps_nodup (steps : List LoopStep) :
    ((steps.foldl loopStep []).map DevEvent.name).Nodup := by
  induction steps using List.reverseRecOn with
  | nil => exact List.nodup_nil
  | append_singleton steps step ih =>
    rw [List.foldl_append, List.foldl_cons, List.foldl_nil]
    cases step with
    | round r => exact dmeventLoop_nodup r ih
    | watch name evtNr => exact watchDmevents_nodup ih name evtNr
    | unwatchAll => exact List.nodup_nil

/-- In every run, a round follows the law for the maps that are watched when it begins, and
changes nothing if the names could not be fetched. -/
theorem dmeventLoop_law (steps : List LoopStep) (r : Round) :
    (r.fetched = none →
      dmeventLoop (steps.foldl loopStep []) r = (steps.foldl loopStep [], [])) ∧
    ∀ l, r.fetched = some l →
      RoundLaw l.names (steps.foldl loopStep []) (dmeventLoop (steps.foldl loopStep []) r) := by
  rw [dmeventLoop_eq]
  constructor
  · intro hfailed
    rw [hfailed]
  · intro l hl
    rw [hl]
    exact roundLaw l.distinct (loopSteps_nodup steps)

/-- A list with one map, with this event number. -/
def oneName (name : DmName) (eventNr : ℕ) : NamesList :=
  ⟨[{ name := name, eventNr := eventNr }], List.nodup_singleton _⟩

theorem dmeventLoop_law_changed :
    RoundLaw (oneName ⟨['a'], by decide⟩ 2).names [⟨⟨['a'], by decide⟩, 1, .nothing⟩]
      (dmeventLoop [⟨⟨['a'], by decide⟩, 1, .nothing⟩]
        { names := some (oneName ⟨['a'], by decide⟩ 2) }) :=
  (dmeventLoop_law [.watch ⟨['a'], by decide⟩ 1]
    { names := some (oneName ⟨['a'], by decide⟩ 2) }).2 _ rfl

end MultipathTools.Daemon
