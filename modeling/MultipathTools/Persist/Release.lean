import MultipathTools.Persist.Register
import MultipathTools.Persist.StatusData
import MultipathTools.Persist.Target

/-! Release of a reservation that another path may hold (`mpath_prout_rel`): the target is cleared,
and the registrations are made again. -/
namespace MultipathTools.Persist

/-- The nexus of each path, and how the commands come out that are sent to it: RELEASE, READ
RESERVATION and READ FULL STATUS, CLEAR, the two REGISTER commands for each descriptor, and those
of `mpath_prout_reg`. -/
structure RelEnv where
  nexus : Path → Nexus
  release : Path → Fate := fun _ => .answered
  readResv : Path → PrStatus := fun _ => .success
  readFull : Path → PrStatus := fun _ => .success
  clear : Fate := .answered
  restore : ℕ → Fate × Fate := fun _ => (.answered, .answered)
  first : Path → Fate := fun _ => .answered
  second : Path → Fate := fun _ => .answered

/-- `mpath_prin_activepath`: the status of the last path that was tried. -/
def mpathPrinActivepath (status : Path → PrStatus) : PrStatus → List Path → PrStatus
  | ret, [] => ret
  | ret, pp :: pps =>
    if !pp.isActive then mpathPrinActivepath status ret pps
    else if status pp = .success ∨ status pp = .senseInvalidOp then status pp
    else mpathPrinActivepath status (status pp) pps

/-- The status that comes back for a command, and the target after it. -/
def Fate.outcome (fate : Fate) (t : Target) (r : PrStatus × Target) : PrStatus × Target :=
  match fate with
  | .noThread => (.threadError, t)
  | .failed status applied => (status.1, if applied then r.2 else t)
  | .answered => r

/-- The threads that send RELEASE. Their statuses are overwritten. -/
def releaseAll (env : RelEnv) (key : Key) (scopeType : Byte) (paths : List Path) (t : Target) :
    Target :=
  paths.foldl (fun t pp => if pp.isActive then
    ((env.release pp).outcome t (t.release (env.nexus pp) key scopeType)).2 else t) t

/-- REGISTER through a path. The list of transport IDs is formatted by the thread; `none` is a read
out of bounds. -/
def sendRegister (fate : Fate) (n : Nexus) (p : ProutParam) (tids : List Transportid) (t : Target) :
    Option (PrStatus × Target) :=
  if fate = .noThread then some (.threadError, t)
  else
    (if p.saFlags &&& fSpecIPtMask ≠ 0 then formatTransportids tids else some []).map fun list =>
      fate.outcome t (t.registerAt n p list)

/-- The target, `found` and `status` in the loop over the descriptors. -/
structure Restoring where
  target : Target
  found : Bool := false
  status : PrStatus := .success

/-- One round of the loop: the other registration is made, together with one of the sending port,
which is then removed. -/
def restoreStep (own : Key) (sender : Option Nexus) (fates : Fate × Fate) (d : Fulldescr)
    (s : Restoring) : Option Restoring :=
  if own ≠ 0 ∧ d.key ≠ toBe 8 own.toNat then
    match sender with
    | none => some { s with status := .success }
    | some n =>
      let key := BitVec.ofNat 64 (ofBe d.key)
      (sendRegister fates.1 n { saKey := key, saFlags := fSpecIPtMask } [d.trnptid] s.target).bind
        fun r => (sendRegister fates.2 n { key := key } [] r.2).map
          fun r => { s with target := r.2, status := r.1 }
  else some { s with found := s.found || own ≠ 0 }

/-- The loop over the descriptors, of which there should be `num`. -/
def restoreLoop (own : Key) (sender : Option Nexus) :
    ℕ → List Fulldescr → (ℕ → Fate × Fate) → Restoring → Option Restoring
  | 0, _, _, s => some s
  | _ + 1, [], _, _ => none
  | num + 1, d :: ds, fates, s =>
    (restoreStep own sender (fates 0) d s).bind
      (restoreLoop own sender num ds fun i => fates (i + 1))

/-- A path as `mpath_prout_reg` finds it. -/
def RelEnv.port (env : RelEnv) (t : Target) (pp : Path) : Port where
  path := pp
  key := t.regOf (env.nexus pp)
  first := env.first pp
  second := env.second pp

def RelEnv.ports (env : RelEnv) (t : Target) (pg : List (List Path)) : List (List Port) :=
  pg.map (·.map (env.port t))

/-- The target with the registrations that the ports have been left with. -/
def RelEnv.writeBack (env : RelEnv) (t : Target) (ports : List Port) : Target :=
  ports.foldl (fun t port => t.set (env.nexus port.path) port.key) t

/-- The nexus of the first usable path, which `mpath_prout_common` sends to. -/
def RelEnv.sender (env : RelEnv) (pg : List (List Path)) : Option Nexus :=
  (pg.flatten.find? Path.isActive).map env.nexus

/-- CLEAR through `mpath_prout_common`. -/
def sendClear (env : RelEnv) (own : Key) (pg : List (List Path)) (t : Target) : PrStatus × Target :=
  match env.sender pg with
  | none => (.success, t)
  | some n => env.clear.outcome t (t.clear n own)

/-- `mpath_prout_rel` from CLEAR on: its status, and the target after it. -/
def restoreAll (env : RelEnv) (allTgPtOn : Bool) (own : Key) (pg : List (List Path)) (num : BitVec 32)
    (ds : List Fulldescr) (cleared : PrStatus × Target) : Outcome (PrStatus × Target) :=
  if cleared.1 ≠ .success then .returned cleared
  else
    match restoreLoop own (env.sender pg) num.toInt.toNat ds env.restore { target := cleared.2 } with
    | none => .fault
    | some s =>
      if s.found then
        let reg := mpathProutReg allTgPtOn (env.ports s.target pg) .reg { saKey := own }
        .returned (reg.status, env.writeBack s.target reg.ports)
      else .returned (s.status, s.target)

/-- `mpath_prout_rel`, where no allocation fails. `own` is the reservation key of the map, `key`
and `scopeType` are from the request. No more than `mxTids` rounds are done by the decoder. -/
def mpathProutRel (env : RelEnv) (allTgPtOn : Bool) (own : Key) (pg : List (List Path)) (key : Key)
    (scopeType : Byte) (t : Target) : Outcome (PrStatus × Target) :=
  let paths := pg.flatten
  let t := releaseAll env key scopeType paths t
  if mpathPrinActivepath env.readResv .dmmpError paths ≠ .success then .returned (.other, t)
  else if t.holder = none then .returned (.success, t)
  else
    let status := mpathPrinActivepath env.readFull .dmmpError paths
    if status ≠ .success then .returned (status, t)
    else
      match mpathFormatReadfullstatus mxTids t.fullStatus with
      | .running => .running
      | .fault => .fault
      | .returned (num, ds) =>
        if num = 0 then .returned (.success, t)
        else restoreAll env allTgPtOn own pg num ds (sendClear env own pg t)

/-- The formatter stays inside the name: the second byte of an iSCSI name is taken for its length,
and the union has two bytes less than the largest one asks for. -/
def WireId.Formattable : WireId → Prop
  | .iscsi n => n.padded.getD 1 0 ≠ 0xff
  | _ => True

instance : (id : WireId) → Decidable id.Formattable
  | .fc _ => instDecidableTrue
  | .sas _ => instDecidableTrue
  | .iscsi n => inferInstanceAs (Decidable (n.padded.getD 1 0 ≠ 0xff))

theorem WireId.image_third (id : WireId) : id.image[2]? = some 0 := by
  cases id with
  | fc n => simp [image, List.replicate]
  | sas a => simp [image]
  | iscsi n =>
    have hlt := n.padded_lt
    have hzero : n.padded.length / 256 = 0 := Nat.div_eq_of_lt (by omega)
    simp [image, toBe, hzero]

theorem formatTransportids_singleton {tid : Transportid} (h : payloadLen tid ≤ 1000) :
    formatTransportids [tid] = (payload tid).map fun bs =>
      toBe 4 (bs.length + 1) ++ (tid.formatCode &&& 0xff ||| tid.protocolId &&& 0xff) :: bs := by
  have hfirst : overflows 4 1 = false := by decide
  have hrest : overflows (4 + 1) (payloadLen tid) = false := by
    unfold overflows maxParamLen
    simp only [decide_eq_false_iff_not]
    omega
  unfold formatTransportids formatEntries
  rw [hfirst, hrest]
  cases payload tid <;> simp [formatEntries]

theorem parseList_none_of_third {b : Byte} {bs : List Byte} (n : ℕ) (h : (b :: bs)[2]? ≠ some 0) :
    WireId.parseList (toBe 4 n ++ b :: bs) = none := by
  rw [Option.eq_none_iff_forall_ne_some]
  intro id hid
  have hlist := WireId.parseList_eq_some hid
  have himage := (List.append_inj hlist (by rw [toBe_length, toBe_length])).2
  rw [himage] at h
  exact h id.image_third

/-- An FC transport ID is sent as it was reported. -/
theorem formatTransportids_fc {n : Bytes8} {tid new : Transportid}
    (h : decodeTransportId (WireId.fc n).image tid 0 (WireId.fc n).image.length = some new) :
    formatTransportids [new] = some (toBe 4 (WireId.fc n).image.length ++ (WireId.fc n).image) := by
  obtain ⟨name, hname, htake⟩ := decodeTransportId_fc tid n
  cases hname.symm.trans h
  have hroom : 4 + 48 ≤ maxParamLen := by decide
  rw [formatTransportids, formatEntries_fc 4 htake, if_pos hroom, formatEntries]
  simp

/-- A SAS transport ID is sent in a list that is too short. -/
theorem formatTransportids_sas {a : Bytes8} {tid new : Transportid}
    (h : decodeTransportId (WireId.sas a).image tid 0 (WireId.sas a).image.length = some new) :
    ∃ list, formatTransportids [new] = some list ∧ WireId.parseList list = none := by
  obtain ⟨name, hname⟩ := decodeTransportId_sas tid a
  cases hname.symm.trans h
  have hplen : payloadLen ⟨0, protocolIdSas, name⟩ = 15 := rfl
  rw [formatTransportids_singleton (by omega)]
  refine ⟨_, rfl, ?_⟩
  rw [Option.eq_none_iff_forall_ne_some]
  intro id hid
  have hlen := congrArg List.length (WireId.parseList_eq_some hid)
  have hge := id.image_length.1
  simp only [List.length_append, toBe_length, List.length_cons, List.length_replicate,
    List.length_take, name.2] at hlen
  omega

/-- An iSCSI transport ID is sent without its length, or not at all. -/
theorem formatTransportids_iscsi {n : IscsiName} {tid new : Transportid}
    (h : decodeTransportId (WireId.iscsi n).image tid 0 (WireId.iscsi n).image.length = some new) :
    (n.padded.getD 1 0 ≠ 0xff → ∃ list, formatTransportids [new] = some list ∧
        WireId.parseList list = none) ∧
      (n.padded.getD 1 0 = 0xff → formatTransportids [new] = none) := by
  obtain ⟨code, name, hname, hpre⟩ := decodeTransportId_iscsi tid n
  cases hname.symm.trans h
  obtain ⟨c, cs, hc, hpad⟩ := n.padded_head
  obtain ⟨rest, hrest⟩ := hpre
  have hlow : 20 ≤ n.padded.length := by
    rw [n.padded_length]
    omega
  have hsecond : name.1.getD 1 0 = n.padded.getD 1 0 := by
    rw [← hrest, List.getD_eq_getElem?_getD, List.getD_eq_getElem?_getD,
      List.getElem?_append_left (by omega)]
  have hiscsi : iscsiLen ⟨code, protocolIdIscsi, name⟩ = (n.padded.getD 1 0).toNat + 2 := by
    show (name.1.getD 1 0 &&& 0xff).toNat + 2 = _
    rw [hsecond, show (n.padded.getD 1 0) &&& 0xff = n.padded.getD 1 0 from BitVec.and_allOnes]
  have hbyte := (n.padded.getD 1 0).isLt
  have hpayload : payload ⟨code, protocolIdIscsi, name⟩ =
      (slice name.1 0 ((n.padded.getD 1 0).toNat + 2)).map (0 :: ·) := by
    rw [← hiscsi]
    rfl
  have hplen : payloadLen ⟨code, protocolIdIscsi, name⟩ ≤ 1000 := by
    show 1 + iscsiLen _ ≤ 1000
    omega
  have hslice : slice name.1 (0 : ℕ) ((n.padded.getD 1 0).toNat + 2) = _ :=
    slice_natCast (.inl (Nat.succ_ne_zero _))
  rw [Nat.cast_zero, Nat.zero_add, List.drop_zero, name.2] at hslice
  have hbound : (n.padded.getD 1 0).toNat + 2 ≤ 256 ↔ n.padded.getD 1 0 ≠ 0xff := by
    rw [ne_eq, ← BitVec.toNat_inj]
    show _ ↔ ¬ (n.padded.getD 1 0).toNat = 255
    omega
  rw [formatTransportids_singleton hplen, hpayload, hslice]
  constructor
  · intro hff
    rw [if_pos (hbound.mpr hff)]
    refine ⟨_, rfl, parseList_none_of_third _ ?_⟩
    rw [← hrest, hpad]
    simpa using hc
  · intro hff
    rw [if_neg (fun h => hbound.mp h hff)]
    rfl

/-- What the sending port makes of the transport ID of a registration. -/
theorem formatTransportids_decoded {id : WireId} {tid new : Transportid}
    (h : decodeTransportId id.image tid 0 id.image.length = some new) :
    (id.Formattable → ∃ list, formatTransportids [new] = some list ∧
        WireId.parseList list = if id.IsFc then some id else none) ∧
      (¬ id.Formattable → formatTransportids [new] = none) := by
  cases id with
  | fc n =>
    have hfc : (WireId.fc n).IsFc := trivial
    refine ⟨fun _ => ⟨_, formatTransportids_fc h, ?_⟩, fun hno => absurd trivial hno⟩
    rw [WireId.parseList_fc, if_pos hfc]
  | sas a =>
    obtain ⟨list, hlist, hparse⟩ := formatTransportids_sas h
    have hfc : ¬ (WireId.sas a).IsFc := not_false
    exact ⟨fun _ => ⟨list, hlist, by rw [hparse, if_neg hfc]⟩, fun hno => absurd trivial hno⟩
  | iscsi n =>
    obtain ⟨hsome, hnone⟩ := formatTransportids_iscsi h
    have hfc : ¬ (WireId.iscsi n).IsFc := not_false
    constructor
    · intro hff
      obtain ⟨list, hlist, hparse⟩ := hsome hff
      exact ⟨list, hlist, by rw [hparse, if_neg hfc]⟩
    · intro hff
      exact hnone (not_not.mp hff)

/-- REGISTER with a transport ID makes the registration: the command reaches the target, the
sending port is not registered, and the transport ID is one that is sent as it was reported. -/
def Made (own : Key) (fates : Fate × Fate) (r : Reg) (x : Registration) : Prop :=
  r.key.1 ≠ own ∧ fates.1.Applied ∧ x = none ∧ r.nexus.initiator.IsFc

instance (own : Key) (fates : Fate × Fate) (r : Reg) (x : Registration) :
    Decidable (Made own fates r x) := inferInstanceAs (Decidable (_ ∧ _))

/-- What the two commands for a descriptor leave registered at the sending port. -/
def portAfter (own : Key) (fates : Fate × Fate) (r : Reg) (x : Registration) : Registration :=
  let y := if Made own fates r x then some r.key else x
  if r.key.1 ≠ own ∧ fates.2.Applied ∧ y = some r.key then none else y

/-- The registrations that the commands for some descriptors make, and what they leave at the
sending port. -/
def replay (own : Key) : List Reg → (ℕ → Fate × Fate) → Registration → List Reg × Registration
  | [], _, x => ([], x)
  | r :: rs, fates, x =>
    let rest := replay own rs (fun i => fates (i + 1)) (portAfter own (fates 0) r x)
    (if Made own (fates 0) r x then r :: rest.1 else rest.1, rest.2)

/-- The key that the last of some registrations has set for a nexus, all of them made at the target
port of the sender. -/
def lastMade (n : Nexus) (made : List Reg) (m : Nexus) : Registration :=
  ((made.filter fun r => ⟨r.nexus.initiator, n.target⟩ = m).getLast?).map Reg.key

/-- What is registered at a nexus after the registrations that are made. -/
def restored (n : Nexus) (made : List Reg) (x : Registration) (m : Nexus) : Registration :=
  if m = n then x else lastMade n made m

theorem lastMade_append (n : Nexus) (made : List Reg) (r : Reg) (m : Nexus) :
    lastMade n (made ++ [r]) m =
      if ⟨r.nexus.initiator, n.target⟩ = m then some r.key else lastMade n made m := by
  unfold lastMade
  rw [List.filter_append]
  split
  · rename_i h
    simp [h]
  · rename_i h
    simp [h]

/-- The state of the target in the loop. -/
structure Tracks (n : Nexus) (made : List Reg) (x : Registration) (t : Target) : Prop where
  holder_eq : t.holder = none
  regOf_eq : ∀ m, t.regOf m = restored n made x m

theorem Tracks.sender {n : Nexus} {made : List Reg} {x : Registration} {t : Target}
    (h : Tracks n made x t) : t.regOf n = x := by
  rw [h.regOf_eq, restored, if_pos rfl]

theorem Fate.outcome_target (fate : Fate) (t : Target) (r : PrStatus × Target) :
    (fate.outcome t r).2 = if fate.Applied then r.2 else t := by
  cases fate <;> simp [outcome, Applied]

/-- The key of a descriptor. -/
theorem Describes.key_eq {r : Reg} {d : Fulldescr} (h : Describes r d) :
    BitVec.ofNat 64 (ofBe d.key) = r.key.1 := by
  have hlt : r.key.1.toNat < 256 ^ 8 := r.key.1.isLt
  rw [h.1, ofBe_toBe, Nat.mod_eq_of_lt hlt, BitVec.ofNat_toNat, BitVec.setWidth_eq]

theorem Describes.key_ne_iff {r : Reg} {d : Fulldescr} (h : Describes r d) (own : Key) :
    d.key ≠ toBe 8 own.toNat ↔ r.key.1 ≠ own := by
  have hown : BitVec.ofNat 64 (ofBe (toBe 8 own.toNat)) = own := by
    have hlt : own.toNat < 256 ^ 8 := own.isLt
    rw [ofBe_toBe, Nat.mod_eq_of_lt hlt, BitVec.ofNat_toNat, BitVec.setWidth_eq]
  apply not_congr
  constructor
  · intro hkey
    rw [← h.key_eq, hkey, hown]
  · intro hkey
    rw [h.1, hkey]

/-- The target after REGISTER with a transport ID. -/
theorem sendRegister_made {own : Key} {fates : Fate × Fate} {n : Nexus} {made : List Reg}
    {x : Registration} {t t' : Target} {r : Reg} {d : Fulldescr} {status : PrStatus}
    (hd : Describes r d) (hown : r.key.1 ≠ own) (ht : Tracks n made x t)
    (h : sendRegister fates.1 n { saKey := r.key.1, saFlags := fSpecIPtMask } [d.trnptid] t =
      some (status, t')) :
    if Made own fates r x then Tracks n (made ++ [r]) (some r.key) t' else Tracks n made x t' := by
  have hnew : registration r.key.1 = some r.key := dif_pos r.key.2
  have hspec : ({ saKey := r.key.1, saFlags := fSpecIPtMask } : ProutParam).saFlags &&&
      fSpecIPtMask ≠ 0 := by
    show fSpecIPtMask &&& fSpecIPtMask ≠ 0
    decide
  obtain ⟨tid, htid⟩ := hd.2
  unfold sendRegister at h
  by_cases hno : fates.1 = .noThread
  · rw [if_pos hno] at h
    cases h
    rw [if_neg (fun hm => by simpa [hno, Fate.Applied] using hm.2.1)]
    exact ht
  · rw [if_neg hno, if_pos hspec] at h
    obtain ⟨list, hlist, hout⟩ := Option.map_eq_some_iff.mp h
    have htarget : t' = if fates.1.Applied then (t.registerAt n
        { saKey := r.key.1, saFlags := fSpecIPtMask } list).2 else t := by
      rw [← Fate.outcome_target fates.1 t, hout]
    have hparse : WireId.parseList list =
        if r.nexus.initiator.IsFc then some r.nexus.initiator else none := by
      by_cases hff : r.nexus.initiator.Formattable
      · obtain ⟨list', hlist', hparse⟩ := (formatTransportids_decoded htid).1 hff
        cases hlist'.symm.trans hlist
        exact hparse
      · cases ((formatTransportids_decoded htid).2 hff).symm.trans hlist
    rw [htarget]
    by_cases happ : fates.1.Applied
    · rw [if_pos happ]
      unfold Target.registerAt register
      by_cases hx : x = none
      · have hcur : (t.regOf n).key = 0 := by rw [ht.sender, hx, Registration.key_none]
        dsimp only
        rw [if_pos hcur]
        dsimp only
        rw [if_pos hspec, hparse, hnew]
        by_cases hfc : r.nexus.initiator.IsFc
        · rw [if_pos hfc, if_pos ⟨hown, happ, hx, hfc⟩]
          refine ⟨Target.holder_set_of_none (Target.holder_set_of_none ht.holder_eq _ _) _ _, ?_⟩
          intro m
          rw [Target.regOf_set, Target.regOf_set, ht.regOf_eq]
          unfold restored
          rw [lastMade_append]
          by_cases hm : m = n
          · simp [hm]
          · simp [hm, eq_comm]
        · rw [if_neg hfc, if_neg (fun hm => hfc hm.2.2.2)]
          exact ht
      · have hcur : (t.regOf n).key ≠ 0 := by
          rw [ht.sender]
          intro hkey
          exact hx (Registration.key_injective (hkey.trans Registration.key_none.symm))
        dsimp only
        rw [if_neg hcur, if_neg (fun hm => hx hm.2.2.1)]
        exact ht
    · rw [if_neg happ, if_neg (fun hm => happ hm.2.1)]
      exact ht

/-- The target after REGISTER with the service action key 0. -/
theorem sendRegister_removed {fate : Fate} {n : Nexus} {made : List Reg} {x : Registration}
    {t : Target} {r : Reg} (ht : Tracks n made x t) :
    ∃ status t', sendRegister fate n { key := r.key.1 } [] t = some (status, t') ∧
      Tracks n made (if fate.Applied ∧ x = some r.key then none else x) t' := by
  have hspec : ¬ ({ key := r.key.1 } : ProutParam).saFlags &&& fSpecIPtMask ≠ 0 := by
    show ¬ (0 : BitVec 8) &&& fSpecIPtMask ≠ 0
    decide
  have haccept : (t.regOf n).key = r.key.1 ↔ x = some r.key := by
    rw [ht.sender]
    exact ⟨fun h => Registration.key_injective h, fun h => by rw [h]; rfl⟩
  unfold sendRegister
  by_cases hno : fate = .noThread
  · rw [if_pos hno]
    refine ⟨_, _, rfl, ?_⟩
    rw [if_neg (fun hm => by simpa [hno, Fate.Applied] using hm.1)]
    exact ht
  · rw [if_neg hno, if_neg hspec, Option.map_some]
    refine ⟨(fate.outcome t (t.registerAt n { key := r.key.1 } [])).1,
      (fate.outcome t (t.registerAt n { key := r.key.1 } [])).2, rfl, ?_⟩
    rw [Fate.outcome_target]
    by_cases happ : fate.Applied
    · rw [if_pos happ]
      unfold Target.registerAt register
      by_cases hx : x = some r.key
      · dsimp only
        rw [if_pos (haccept.mpr hx), if_pos ⟨happ, hx⟩]
        dsimp only
        rw [if_neg hspec, registration_zero]
        refine ⟨Target.holder_set_of_none ht.holder_eq _ _, ?_⟩
        intro m
        rw [Target.regOf_set, ht.regOf_eq]
        unfold restored
        by_cases hm : m = n <;> simp [hm]
      · dsimp only
        rw [if_neg (mt haccept.mp hx), if_neg (fun hm => hx hm.2)]
        exact ht
    · rw [if_neg happ, if_neg (fun hm => happ hm.1)]
      exact ht

/-- The transport ID of the registration is formatted without reading past its name, or not at
all. -/
def Sendable (own : Key) (fates : Fate × Fate) (r : Reg) : Prop :=
  r.key.1 = own ∨ fates.1 = .noThread ∨ r.nexus.initiator.Formattable

instance (own : Key) (fates : Fate × Fate) (r : Reg) : Decidable (Sendable own fates r) :=
  inferInstanceAs (Decidable (_ ∨ _))

theorem sendRegister_isSome_iff {own : Key} {fates : Fate × Fate} {n : Nexus} {r : Reg}
    {d : Fulldescr} {t : Target} (hd : Describes r d) (hown : r.key.1 ≠ own) :
    (sendRegister fates.1 n { saKey := r.key.1, saFlags := fSpecIPtMask } [d.trnptid] t).isSome =
      true ↔ Sendable own fates r := by
  obtain ⟨tid, htid⟩ := hd.2
  obtain ⟨hyes, hno⟩ := formatTransportids_decoded htid
  have hspec : ({ saKey := r.key.1, saFlags := fSpecIPtMask } : ProutParam).saFlags &&&
      fSpecIPtMask ≠ 0 := by
    show fSpecIPtMask &&& fSpecIPtMask ≠ 0
    decide
  unfold sendRegister Sendable
  by_cases hthread : fates.1 = .noThread
  · rw [if_pos hthread]
    exact iff_of_true rfl (.inr (.inl hthread))
  · rw [if_neg hthread, if_pos hspec]
    by_cases hff : r.nexus.initiator.Formattable
    · obtain ⟨list, hlist, -⟩ := hyes hff
      rw [hlist]
      exact iff_of_true rfl (.inr (.inr hff))
    · rw [hno hff]
      simp [hown, hthread, hff]

/-- The step lemma of the loop. -/
theorem restoreStep_tracks {own : Key} {fates : Fate × Fate} {n : Nexus} {made : List Reg}
    {x : Registration} {s : Restoring} {r : Reg} {d : Fulldescr} (hzero : own ≠ 0)
    (hd : Describes r d) (hs : Tracks n made x s.target) :
    ((restoreStep own (some n) fates d s).isSome = true ↔ Sendable own fates r) ∧
      ∀ s', restoreStep own (some n) fates d s = some s' →
        Tracks n (if Made own fates r x then made ++ [r] else made) (portAfter own fates r x)
          s'.target ∧ (s'.found = true ↔ s.found = true ∨ r.key.1 = own) := by
  unfold restoreStep
  by_cases hown : r.key.1 = own
  · have hkey : ¬ (own ≠ 0 ∧ d.key ≠ toBe 8 own.toNat) := fun h => (hd.key_ne_iff own).mp h.2 hown
    rw [if_neg hkey]
    refine ⟨iff_of_true rfl (.inl hown), ?_⟩
    intro s' hs'
    cases hs'
    rw [if_neg (fun hm => hm.1 hown), portAfter, if_neg (fun hm => hm.1 hown),
      if_neg (fun hm => hm.1 hown)]
    have hfound : (s.found || decide (own ≠ 0)) = true := by
      rw [decide_eq_true hzero, Bool.or_true]
    exact ⟨hs, iff_of_true hfound (.inr hown)⟩
  · rw [if_pos ⟨hzero, (hd.key_ne_iff own).mpr hown⟩]
    dsimp only
    rw [hd.key_eq]
    have hsend : (sendRegister fates.1 n _ [d.trnptid] s.target).isSome = true ↔ _ :=
      sendRegister_isSome_iff hd hown
    cases hfirst : sendRegister fates.1 n { saKey := r.key.1, saFlags := fSpecIPtMask }
        [d.trnptid] s.target with
    | none =>
      rw [hfirst] at hsend
      exact ⟨hsend, fun s' hs' => by cases hs'⟩
    | some first =>
      rw [hfirst] at hsend
      have hmade := sendRegister_made hd hown hs hfirst
      have htracks : Tracks n (if Made own fates r x then made ++ [r] else made)
          (if Made own fates r x then some r.key else x) first.2 := by
        split at hmade
        · rename_i hm
          rwa [if_pos hm, if_pos hm]
        · rename_i hm
          rwa [if_neg hm, if_neg hm]
      obtain ⟨status, t', hsecond, ht'⟩ := sendRegister_removed (r := r) htracks
      rw [Option.bind_some, hsecond]
      refine ⟨iff_of_true rfl (hsend.mp rfl), ?_⟩
      intro s' hs'
      cases hs'
      unfold portAfter
      simp only [ne_eq, hown, not_false_eq_true, true_and, or_false, and_true]
      exact ht'

/-- The run lemma of the loop. -/
theorem restoreLoop_tracks {own : Key} {n : Nexus} (hzero : own ≠ 0) {rs : List Reg}
    {ds : List Fulldescr} (hds : List.Forall₂ Describes rs ds) {fates : ℕ → Fate × Fate}
    {made : List Reg} {x : Registration} {s : Restoring} (hs : Tracks n made x s.target) :
    ((restoreLoop own (some n) ds.length ds fates s).isSome = true ↔
        ∀ i r, rs[i]? = some r → Sendable own (fates i) r) ∧
      ∀ s', restoreLoop own (some n) ds.length ds fates s = some s' →
        Tracks n (made ++ (replay own rs fates x).1) (replay own rs fates x).2 s'.target ∧
          (s'.found = true ↔ s.found = true ∨ ∃ r ∈ rs, r.key.1 = own) := by
  induction hds generalizing fates made x s with
  | nil =>
    refine ⟨iff_of_true rfl (by simp), ?_⟩
    intro s' hs'
    cases hs'
    simpa [replay] using hs
  | @cons r d rs ds hd _ ih =>
    obtain ⟨hsome, hstep⟩ := restoreStep_tracks hzero hd hs
    have hall : (∀ i r', (r :: rs)[i]? = some r' → Sendable own (fates i) r') ↔
        Sendable own (fates 0) r ∧ ∀ i r', rs[i]? = some r' → Sendable own (fates (i + 1)) r' := by
      constructor
      · intro h
        exact ⟨h 0 r rfl, fun i r' hr' => h (i + 1) r' hr'⟩
      · intro h i r' hr'
        cases i with
        | zero =>
          obtain rfl : r = r' := by simpa using hr'
          exact h.1
        | succ i => exact h.2 i r' hr'
    rw [hall, List.length_cons, restoreLoop]
    cases hround : restoreStep own (some n) (fates 0) d s with
    | none =>
      rw [hround] at hsome
      exact ⟨iff_of_false (by simp) fun h => by simpa using hsome.mpr h.1, fun s' hs' => by cases hs'⟩
    | some s₁ =>
      obtain ⟨htracks, hfound⟩ := hstep s₁ hround
      obtain ⟨hsome', hrest⟩ := ih htracks
      rw [Option.bind_some]
      rw [hround] at hsome
      refine ⟨hsome'.trans (and_iff_right (hsome.mp rfl)).symm, ?_⟩
      intro s' hs'
      obtain ⟨ht', hf'⟩ := hrest s' hs'
      rw [replay]
      constructor
      · dsimp only
        split_ifs at ht' ⊢ with hm
        · rwa [List.append_assoc, List.singleton_append] at ht'
        · exact ht'
      · rw [hf', hfound, List.exists_mem_cons_iff, or_assoc]

end MultipathTools.Persist
