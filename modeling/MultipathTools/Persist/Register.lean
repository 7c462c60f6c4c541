import MultipathTools.Structs

/-! Registration of a key on all paths of a map, and its rollback after a reservation conflict
(`mpath_prout_reg`). -/
namespace MultipathTools.Persist

/-- The values `MPATH_PR_*` that the functions return. -/
inductive PrStatus where
  | skip | success | syntaxError | senseNotReady | senseMediumError | senseHardwareError
  | illegalReq | senseUnitAttention | senseInvalidOp | senseAbortedCommand | noSense
  | senseMalformed | reservConflict | fileError | dmmpError | threadError | other
  deriving DecidableEq, Repr

/-- The PROUT service actions that register a key. -/
inductive RegAction where
  | reg | regIgn
  deriving DecidableEq, Repr

abbrev Key := BitVec 64

/-- `struct prout_param_descriptor`, as far as registrations depend on it. -/
structure ProutParam where
  key : Key := 0
  saKey : Key := 0
  saFlags : BitVec 8 := 0
  deriving DecidableEq, Repr

def fAllTgPtMask : BitVec 8 := 0x04
def fSpecIPtMask : BitVec 8 := 0x08

/-- The registration of an I_T nexus: a key, which is never 0, or none. -/
abbrev Registration := Option {k : Key // k ≠ 0}

/-- The registration that a service action key asks for: 0 removes it. -/
def registration (saKey : Key) : Registration :=
  if h : saKey ≠ 0 then some ⟨saKey, h⟩ else none

/-- The reservation key that a command must carry to be let through. -/
def Registration.key (cur : Registration) : Key := (cur.map (·.1)).getD 0

@[simp] theorem Registration.key_none : Registration.key none = 0 := rfl

@[simp] theorem registration_key (saKey : Key) : (registration saKey).key = saKey := by
  unfold registration Registration.key
  split
  · rfl
  · rename_i h
    simpa using (not_not.mp h).symm

@[simp] theorem registration_zero : registration 0 = none := rfl

theorem Registration.key_injective {a b : Registration} (h : a.key = b.key) : a = b := by
  cases a with
  | none =>
    cases b with
    | none => rfl
    | some k => exact absurd h.symm k.2
  | some k =>
    cases b with
    | none => exact absurd h k.2
    | some l => exact congrArg some (Subtype.ext h)

/-- What a path port makes of REGISTER and of REGISTER AND IGNORE EXISTING KEY: the new
registration, or `none` for a reservation conflict. -/
def register (act : RegAction) (p : ProutParam) (cur : Registration) : Option Registration :=
  match act with
  | .regIgn => some (registration p.saKey)
  | .reg => if cur.key = p.key then some (registration p.saKey) else none

/-- What becomes of a command that is to be sent down a path. -/
inductive Fate where
  /-- `pthread_create` fails. -/
  | noThread
  /-- Another status is reported; the port may have got the command all the same. -/
  | failed (status : {s : PrStatus // s ≠ .success ∧ s ≠ .reservConflict}) (applied : Bool)
  | answered
  deriving DecidableEq

/-- A path, the key that is registered at its port, and the fates of the two commands that
`mpath_prout_reg` may send to it. -/
structure Port where
  path : Path
  key : Registration := none
  first : Fate := .answered
  second : Fate := .answered

/-- The status that the thread of the path ends with, and the registration after it. -/
def send (fate : Fate) (act : RegAction) (p : ProutParam) (cur : Registration) :
    PrStatus × Registration :=
  match fate with
  | .noThread => (.threadError, cur)
  | .failed status applied =>
    (status.1, if applied then (register act p cur).getD cur else cur)
  | .answered =>
    match register act p cur with
    | some new => (.success, new)
    | none => (.reservConflict, cur)

/-- A path after the first loop, with the status of its thread if it has one. -/
structure Thread where
  port : Port
  status : Option PrStatus := none

/-- The loop that starts the threads. `hosts` holds the host number of each of them, `-1` where
`pthread_create` failed. -/
def startThreads (act : RegAction) (allTgPt : Bool) :
    List ℤ → ProutParam → List Port → List Thread × ProutParam
  | _, p, [] => ([], p)
  | hosts, p, port :: ports =>
    if !port.path.isActive then
      let r := startThreads act allTgPt hosts p ports
      (⟨port, none⟩ :: r.1, r.2)
    else if allTgPt && port.path.hostNo ≠ -1 && hosts.contains port.path.hostNo then
      let r := startThreads act allTgPt hosts p ports
      (⟨port, none⟩ :: r.1, r.2)
    else
      let p := if hosts ≠ [] ∧ p.saFlags &&& fSpecIPtMask ≠ 0 then
        { p with saFlags := p.saFlags &&& ~~~fSpecIPtMask } else p
      let sent := send port.first act p port.key
      let host := if port.first = .noThread then -1 else port.path.hostNo
      let r := startThreads act allTgPt (hosts ++ [host]) p ports
      (⟨{ port with key := sent.2 }, some sent.1⟩ :: r.1, r.2)

/-- One thread in the loop that joins them: `rollback` and `status`. -/
def joinThread (s : Bool × PrStatus) (t : Thread) : Bool × PrStatus :=
  match t.status with
  | none => s
  | some status =>
    let s := if !s.1 && status = .reservConflict then (true, .reservConflict) else s
    if !s.1 && s.2 = .success then (s.1, status) else s

/-- The rollback for one thread. -/
def rollbackThread (act : RegAction) (p : ProutParam) (t : Thread) : Port :=
  if t.status = some .success then
    { t.port with key := (send t.port.second act p t.port.key).2 }
  else t.port

/-- What `mpath_prout_reg` returns, leaves in the parameters and does to the ports. -/
structure ProutReg where
  status : PrStatus
  param : ProutParam
  ports : List Port

/-- `mpath_prout_reg`; `allTgPtOn` tells that the map has `all_tg_pt` set. -/
def mpathProutReg (allTgPtOn : Bool) (pg : List (List Port)) (act : RegAction) (p : ProutParam) :
    ProutReg :=
  let allTgPt := allTgPtOn || p.saFlags &&& fAllTgPtMask ≠ 0
  if (pg.map fun pgp => pgp.countP (·.path.isActive)).sum = 0 then ⟨.dmmpError, p, pg.flatten⟩
  else
    let (threads, p) := startThreads act allTgPt [] p pg.flatten
    let (rollback, status) := threads.foldl joinThread (false, .success)
    if rollback ∧ act = .reg ∧ p.saKey ≠ 0 then
      let p := { p with key := p.saKey, saKey := 0 }
      ⟨status, p, threads.map (rollbackThread act p)⟩
    else ⟨status, p, threads.map Thread.port⟩

/-- The command is sent with this fate and the port is free to act on it. -/
def Fate.Applied : Fate → Prop
  | .noThread => False
  | .failed _ applied => applied = true
  | .answered => True

instance (fate : Fate) : Decidable fate.Applied := by
  cases fate <;> unfold Fate.Applied <;> infer_instance

/-- The paths for which a thread is created, or tried to be created. -/
def reached (allTgPt : Bool) : List ℤ → List Port → List Port
  | _, [] => []
  | hosts, port :: ports =>
    if !port.path.isActive then reached allTgPt hosts ports
    else if allTgPt && port.path.hostNo ≠ -1 && hosts.contains port.path.hostNo then
      reached allTgPt hosts ports
    else
      let host := if port.first = .noThread then -1 else port.path.hostNo
      port :: reached allTgPt (hosts ++ [host]) ports

/-- The port lets the registration command through. -/
def Accepts (act : RegAction) (p : ProutParam) (cur : Registration) : Prop :=
  act = .regIgn ∨ cur.key = p.key

instance (act : RegAction) (p : ProutParam) (cur : Registration) :
    Decidable (Accepts act p cur) := inferInstanceAs (Decidable (_ ∨ _))

/-- The command that undoes a registration gets through to the port. -/
def RolledBack (act : RegAction) (p : ProutParam) (port : Port) : Prop :=
  act = .reg ∧ p.saKey ≠ 0 ∧ port.first = .answered ∧ port.second.Applied

instance (act : RegAction) (p : ProutParam) (port : Port) :
    Decidable (RolledBack act p port) := inferInstanceAs (Decidable (_ ∧ _))

/-- What must hold of a path that is sent the command, for its registration to be the same in the
end: the command has no effect there, or it made a new registration that the rollback removes,
or it set the key that was there and no rollback removes it. -/
def Undone (act : RegAction) (p : ProutParam) (port : Port) : Prop :=
  port.first.Applied → Accepts act p port.key →
    if RolledBack act p port then port.key = none else port.key.key = p.saKey

instance (act : RegAction) (p : ProutParam) (port : Port) : Decidable (Undone act p port) :=
  inferInstanceAs (Decidable (_ → _ → _))

theorem register_of_accepts {act : RegAction} {p : ProutParam} {cur : Registration}
    (h : Accepts act p cur) : register act p cur = some (registration p.saKey) := by
  cases act with
  | regIgn => rfl
  | reg =>
    have hk : cur.key = p.key := by simpa [Accepts] using h
    simp [register, hk]

theorem register_of_not_accepts {act : RegAction} {p : ProutParam} {cur : Registration}
    (h : ¬ Accepts act p cur) : register act p cur = none := by
  cases act with
  | regIgn => exact absurd (.inl rfl) h
  | reg =>
    have hk : cur.key ≠ p.key := fun hk => h (.inr hk)
    simp [register, hk]

/-- The registration after a command: the new one where it was applied and let through. -/
theorem send_registration (fate : Fate) (act : RegAction) (p : ProutParam) (cur : Registration) :
    (send fate act p cur).2 =
      if fate.Applied ∧ Accepts act p cur then registration p.saKey else cur := by
  by_cases ha : Accepts act p cur
  · have hr := register_of_accepts ha
    cases fate <;> simp [send, Fate.Applied, ha, hr]
  · have hr := register_of_not_accepts ha
    cases fate <;> simp [send, Fate.Applied, ha, hr]

/-- A thread that ends with success had its command answered and let through. -/
theorem send_success (fate : Fate) (act : RegAction) (p : ProutParam) (cur : Registration) :
    (send fate act p cur).1 = .success ↔ fate = .answered ∧ Accepts act p cur := by
  by_cases ha : Accepts act p cur
  · have hr := register_of_accepts ha
    cases fate with
    | failed status applied => simp [send, status.2.1]
    | _ => simp [send, ha, hr]
  · have hr := register_of_not_accepts ha
    cases fate with
    | failed status applied => simp [send, ha, status.2.1]
    | _ => simp [send, ha, hr]

/-- Clearing SPEC_I_PT on the way leaves the command the same for every port. -/
theorem send_flags (fate : Fate) (act : RegAction) (p : ProutParam) (flags : BitVec 8)
    (cur : Registration) : send fate act { p with saFlags := flags } cur = send fate act p cur := by
  unfold send register
  rfl

theorem startThreads_param (act : RegAction) (allTgPt : Bool) (hosts : List ℤ) (p : ProutParam)
    (ports : List Port) : (startThreads act allTgPt hosts p ports).2.saKey = p.saKey := by
  induction ports generalizing hosts p with
  | nil => rfl
  | cons port ports ih =>
    unfold startThreads
    dsimp only
    split
    · exact ih hosts p
    · split
      · exact ih hosts p
      · rw [ih]
        split <;> rfl

/-- The thread of a path that is sent the command. -/
def firstThread (act : RegAction) (p : ProutParam) (port : Port) : Thread :=
  ⟨{ port with key := (send port.first act p port.key).2 },
    some (send port.first act p port.key).1⟩

/-- A property of single threads holds of all of them iff it holds of those of the paths that are
reached and of the ones without a thread. -/
theorem startThreads_keys_iff (act : RegAction) (allTgPt : Bool) (final : Thread → Registration)
    (hnone : ∀ port, final ⟨port, none⟩ = port.key) (hosts : List ℤ) (p : ProutParam)
    (ports : List Port) :
    (startThreads act allTgPt hosts p ports).1.map final = ports.map Port.key ↔
      ∀ port ∈ reached allTgPt hosts ports, final (firstThread act p port) = port.key := by
  induction ports generalizing hosts p with
  | nil => simp [startThreads, reached]
  | cons port ports ih =>
    unfold startThreads reached
    dsimp only
    split
    · simpa [hnone] using ih hosts p
    · split
      · simpa [hnone] using ih hosts p
      · split
        · simp [ih, firstThread, send_flags]
        · simp [ih, firstThread]

/-- Both results of the loop that joins the threads tell whether there was a conflict. -/
theorem joinThread_conflict (s : Bool × PrStatus) (t : Thread)
    (hs : s.1 = true ↔ s.2 = .reservConflict) :
    (joinThread s t).1 = true ↔ (joinThread s t).2 = .reservConflict := by
  obtain ⟨rollback, status⟩ := s
  unfold joinThread
  cases ht : t.status with
  | none => exact hs
  | some st =>
    cases rollback with
    | true => simpa using hs
    | false =>
      have hne : status ≠ .reservConflict := by
        intro h
        simpa using hs.mpr h
      by_cases hc : st = .reservConflict
      · simp [hc]
      · by_cases hz : status = .success
        · simp [hc, hz]
        · simp [hc, hz, hne]

theorem foldl_joinThread_conflict (threads : List Thread) (s : Bool × PrStatus)
    (hs : s.1 = true ↔ s.2 = .reservConflict) :
    (threads.foldl joinThread s).1 = true ↔
      (threads.foldl joinThread s).2 = .reservConflict := by
  induction threads generalizing s with
  | nil => exact hs
  | cons t threads ih => exact ih _ (joinThread_conflict s t hs)

/-- A port keeps its registration through the command iff it had the new key before. -/
theorem registration_eq_iff (saKey : Key) (cur : Registration) :
    registration saKey = cur ↔ cur.key = saKey := by
  constructor
  · intro h
    rw [← h, registration_key]
  · intro h
    apply Registration.key_injective
    rw [registration_key, h]

theorem firstThread_key (act : RegAction) (p : ProutParam) (port : Port) :
    (firstThread act p port).port.key =
      if port.first.Applied ∧ Accepts act p port.key then registration p.saKey else port.key :=
  send_registration port.first act p port.key

/-- The rollback command goes to the paths whose thread ended with success. -/
theorem rollbackThread_key (act : RegAction) (p q : ProutParam) (port : Port) :
    (rollbackThread act q (firstThread act p port)).key =
      if port.first = .answered ∧ Accepts act p port.key then
        (send port.second act q (firstThread act p port).port.key).2
      else (firstThread act p port).port.key := by
  unfold rollbackThread
  have hstatus : (firstThread act p port).status = some .success ↔
      port.first = .answered ∧ Accepts act p port.key := by
    rw [← send_success]
    exact Option.some_inj
  simp only [hstatus]
  split <;> rfl

/-- What a rollback with the key `saKey` leaves at a path that was sent the command. -/
theorem rollbackThread_firstThread (p q : ProutParam) (port : Port) (hp : p.saKey ≠ 0)
    (hqk : q.key = p.saKey) (hqs : q.saKey = 0) :
    (rollbackThread .reg q (firstThread .reg p port)).key = port.key ↔ Undone .reg p port := by
  have hb : RolledBack .reg p port ↔ port.first = .answered ∧ port.second.Applied := by
    unfold RolledBack
    tauto
  have hq : Accepts .reg q (registration p.saKey) := .inr (by rw [registration_key, hqk])
  unfold Undone
  rw [rollbackThread_key, firstThread_key]
  by_cases hacc : Accepts .reg p port.key
  · by_cases happ : port.first.Applied
    · simp only [happ, hacc, and_self, and_true, if_true, true_imp_iff]
      by_cases hrb : RolledBack .reg p port
      · have hgone : (send port.second .reg q (registration p.saKey)).2 = none := by
          rw [send_registration, if_pos ⟨(hb.mp hrb).2, hq⟩, hqs, registration_zero]
        rw [if_pos (hb.mp hrb).1, if_pos hrb, hgone]
        exact eq_comm
      · rw [if_neg hrb, ← registration_eq_iff]
        split
        · rename_i hans
          have hsec : ¬ port.second.Applied := fun hsec => hrb (hb.mpr ⟨hans, hsec⟩)
          rw [send_registration, if_neg (fun hc => hsec hc.1)]
        · rfl
    · have hans : port.first ≠ .answered := by
        intro h
        rw [h] at happ
        exact happ trivial
      simp [hans, happ]
  · simp [hacc]

/-- Without a rollback, the command is undone where it had no effect. -/
theorem firstThread_undone (act : RegAction) (p : ProutParam) (port : Port)
    (h : ¬ (act = .reg ∧ p.saKey ≠ 0)) :
    (firstThread act p port).port.key = port.key ↔ Undone act p port := by
  have hrb : ¬ RolledBack act p port := fun hb => h ⟨hb.1, hb.2.1⟩
  unfold Undone
  rw [if_neg hrb, firstThread_key, ← registration_eq_iff]
  by_cases happ : port.first.Applied
  · by_cases hacc : Accepts act p port.key
    · simp [happ, hacc]
    · simp [hacc]
  · simp [happ]

/-- When `mpath_prout_reg` reports a reservation conflict, the registrations of all paths are the
ones from before the call exactly if every path that was sent the command has it undone. -/
theorem mpathProutReg_conflict_iff (allTgPtOn : Bool) (pg : List (List Port)) (act : RegAction)
    (p : ProutParam) (h : (mpathProutReg allTgPtOn pg act p).status = .reservConflict) :
    (mpathProutReg allTgPtOn pg act p).ports.map Port.key = pg.flatten.map Port.key ↔
      ∀ port ∈ reached (allTgPtOn || p.saFlags &&& fAllTgPtMask ≠ 0) [] pg.flatten,
        Undone act p port := by
  unfold mpathProutReg at h ⊢
  dsimp only at h ⊢
  generalize (allTgPtOn || decide (p.saFlags &&& fAllTgPtMask ≠ 0)) = allTgPt at h ⊢
  split at h
  · simp at h
  rename_i hcount
  rw [if_neg hcount]
  have hjoin := foldl_joinThread_conflict (startThreads act allTgPt [] p pg.flatten).1
    (false, .success) (by simp)
  have hkeys := startThreads_param act allTgPt [] p pg.flatten
  have hstatus : ((startThreads act allTgPt [] p pg.flatten).1.foldl joinThread
      (false, .success)).2 = .reservConflict := by
    split at h <;> exact h
  have hrollback := hjoin.mpr hstatus
  rw [hrollback, hkeys]
  by_cases hact : act = .reg ∧ p.saKey ≠ 0
  · rw [if_pos ⟨rfl, hact⟩]
    cases hact.1
    rw [List.map_map, startThreads_keys_iff _ _ _ (by intro port; simp [rollbackThread])]
    apply forall₂_congr
    intro port _
    exact rollbackThread_firstThread p _ port hact.2 rfl rfl
  · rw [if_neg (fun hc => hact hc.2), List.map_map,
      startThreads_keys_iff _ _ _ (by intro port; rfl)]
    apply forall₂_congr
    intro port _
    exact firstThread_undone act p port hact

/-- Two paths up that had no key, the second of which has got one by now: the registration of
the first is taken back. -/
theorem mpathProutReg_conflict_restored :
    (mpathProutReg false [[{ path := { state := .up } },
        { path := { state := .up }, key := registration 1 }]] .reg { saKey := 3 }).ports.map Port.key
      = [none, registration 1] :=
  (mpathProutReg_conflict_iff false [[{ path := { state := .up } },
      { path := { state := .up }, key := registration 1 }]] .reg { saKey := 3 } (by decide)).mpr
    (by decide)

/-- Two paths up, registered with the keys 1 and 2: a change of key 1 to 3 succeeds on the first
and conflicts on the second, and the rollback removes the key of the first. -/
theorem mpathProutReg_keyChange_lost :
    ¬ ∀ (allTgPtOn : Bool) (pg : List (List Port)) (act : RegAction) (p : ProutParam),
      (mpathProutReg allTgPtOn pg act p).status = .reservConflict →
      (mpathProutReg allTgPtOn pg act p).ports.map Port.key = pg.flatten.map Port.key := by
  intro h
  have hlost := h false [[{ path := { state := .up }, key := registration 1 },
    { path := { state := .up }, key := registration 2 }]] .reg { key := 1, saKey := 3 } (by decide)
  revert hlost
  decide

end MultipathTools.Persist
