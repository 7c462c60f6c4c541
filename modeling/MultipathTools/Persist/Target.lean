import Mathlib.Data.List.Nodup
import MultipathTools.Persist.Register
import MultipathTools.Persist.RoundTrip
import MultipathTools.Persist.FullStatus

/-! A target that holds persistent reservations: its registrations, and the commands on them. -/
namespace MultipathTools.Persist

deriving instance DecidableEq for IscsiName, WireId

/-- An I_T nexus: an initiator port, and a target port by its relative identifier. -/
structure Nexus where
  initiator : WireId
  target : BitVec 16
  deriving DecidableEq

structure Reg where
  nexus : Nexus
  key : {k : Key // k ≠ 0}
  deriving DecidableEq

/-- The registrations in the order in which they are reported, and the holder of the
reservation. -/
structure Target where
  regs : List Reg
  holder : Option Nexus
  scopeType : Byte
  nodup : (regs.map Reg.nexus).Nodup
  holder_registered : ∀ n ∈ holder, n ∈ regs.map Reg.nexus

namespace Target

def regOf (t : Target) (n : Nexus) : Registration := (t.regs.find? (·.nexus = n)).map Reg.key

theorem regOf_eq_some_iff {t : Target} {n : Nexus} {k : {k : Key // k ≠ 0}} :
    t.regOf n = some k ↔ ⟨n, k⟩ ∈ t.regs := by
  unfold regOf
  constructor
  · intro h
    obtain ⟨r, hr, rfl⟩ := Option.map_eq_some_iff.mp h
    have hn : r.nexus = n := by simpa using List.find?_some hr
    rw [← hn]
    exact List.mem_of_find?_eq_some hr
  · intro h
    obtain ⟨r, hr⟩ := Option.isSome_iff_exists.mp
      (List.find?_isSome (p := fun r : Reg => decide (r.nexus = n)).mpr ⟨_, h, by simp⟩)
    have hn : r.nexus = n := by simpa using List.find?_some hr
    have heq : r = ⟨n, k⟩ := List.inj_on_of_nodup_map t.nodup (List.mem_of_find?_eq_some hr) h hn
    rw [hr, heq, Option.map_some]

/-- The registrations after one of them is set or removed. -/
def setRegs (regs : List Reg) (n : Nexus) (r : Registration) : List Reg :=
  regs.filter (·.nexus ≠ n) ++ (r.map (Reg.mk n)).toList

theorem mem_setRegs_iff {regs : List Reg} {n : Nexus} {r : Registration} {x : Reg} :
    x ∈ setRegs regs n r ↔ (x ∈ regs ∧ x.nexus ≠ n) ∨ (x.nexus = n ∧ r = some x.key) := by
  unfold setRegs
  rw [List.mem_append, List.mem_filter]
  cases r with
  | none => simp
  | some k =>
    have hx : x = ⟨n, k⟩ ↔ x.nexus = n ∧ some k = some x.key := by
      cases x
      simp [eq_comm]
    simp [hx]

/-- A registration is set or removed; with that of the holder the reservation goes too. -/
def set (t : Target) (n : Nexus) (r : Registration) : Target where
  regs := setRegs t.regs n r
  holder := if r = none ∧ t.holder = some n then none else t.holder
  scopeType := t.scopeType
  nodup := by
    unfold setRegs
    rw [List.map_append]
    apply List.Nodup.append
    · exact t.nodup.sublist (List.filter_sublist.map _)
    · cases r <;> simp
    · intro m hm hn
      obtain ⟨x, hx, rfl⟩ := List.mem_map.mp hm
      cases r with
      | none => simp at hn
      | some k =>
        have hx' : x.nexus ≠ n := by simpa using (List.mem_filter.mp hx).2
        exact hx' (by simpa using hn)
  holder_registered := by
    intro m hm
    split at hm
    · cases hm
    · rename_i hgone
      obtain ⟨x, hx, rfl⟩ := List.mem_map.mp (t.holder_registered m hm)
      by_cases hn : x.nexus = n
      · cases r with
        | none => exact absurd ⟨rfl, by rw [hm, hn]⟩ hgone
        | some k => exact List.mem_map.mpr ⟨⟨n, k⟩, mem_setRegs_iff.mpr (.inr ⟨rfl, rfl⟩), hn.symm⟩
      · exact List.mem_map.mpr ⟨x, mem_setRegs_iff.mpr (.inl ⟨hx, hn⟩), rfl⟩

@[simp] theorem regOf_set (t : Target) (n m : Nexus) (r : Registration) :
    (t.set n r).regOf m = if m = n then r else t.regOf m := by
  apply Option.ext
  intro k
  rw [regOf_eq_some_iff]
  show ⟨m, k⟩ ∈ setRegs t.regs n r ↔ _
  rw [mem_setRegs_iff]
  by_cases hm : m = n
  · simp [hm]
  · simp [hm, regOf_eq_some_iff]

theorem holder_set_of_none {t : Target} (h : t.holder = none) (n : Nexus) (r : Registration) :
    (t.set n r).holder = none := by
  show (if r = none ∧ t.holder = some n then none else t.holder) = none
  rw [h]
  simp

/-- CLEAR, as far as the device accepts it. -/
def cleared (t : Target) : Target where
  regs := []
  holder := none
  scopeType := t.scopeType
  nodup := List.nodup_nil
  holder_registered := by simp

/-- RELEASE, as far as the device accepts it. -/
def released (t : Target) : Target where
  regs := t.regs
  holder := none
  scopeType := t.scopeType
  nodup := t.nodup
  holder_registered := by simp

@[simp] theorem regOf_cleared (t : Target) (n : Nexus) : t.cleared.regOf n = none := rfl

@[simp] theorem regOf_released (t : Target) (n : Nexus) : t.released.regOf n = t.regOf n := rfl

end Target

/-- The transport ID that a list of bytes would have to be. -/
def WireId.candidate (bs : List Byte) : Option WireId :=
  if bs.headD 0 = 0x00 then
    if h : ((bs.drop 8).take 8).length = 8 then some (.fc ⟨(bs.drop 8).take 8, h⟩) else none
  else if bs.headD 0 = 0x06 then
    if h : ((bs.drop 4).take 8).length = 8 then some (.sas ⟨(bs.drop 4).take 8, h⟩) else none
  else
    let port : Bool := bs.headD 0 = 0x45
    let text := (bs.drop 4).takeWhile (· ≠ 0)
    if h : text ≠ [] ∧ text.length ≤ 223 + if port then 17 else 0 then
      some (.iscsi ⟨port, text, h.1, fun hz => by simpa using List.all_eq_true.mp List.all_takeWhile 0 hz, h.2⟩)
    else none

/-- What a target reads from a list of transport IDs. More than one is never sent. -/
def WireId.parseList (list : List Byte) : Option WireId :=
  (WireId.candidate (list.drop 4)).filter fun id =>
    list = toBe 4 id.image.length ++ id.image

theorem WireId.parseList_eq_some {list : List Byte} {id : WireId}
    (h : WireId.parseList list = some id) : list = toBe 4 id.image.length ++ id.image := by
  simpa using (Option.filter_eq_some_iff.mp h).2

theorem WireId.parseList_fc (n : Bytes8) :
    WireId.parseList (toBe 4 (WireId.fc n).image.length ++ (WireId.fc n).image) = some (.fc n) := by
  have hname : (((WireId.fc n).image.drop 8).take 8) = n.1 := by
    simp [WireId.image, List.drop_append, n.2]
  have hcand : WireId.candidate (WireId.fc n).image = some (.fc n) := by
    have hhead : (WireId.fc n).image.headD 0 = 0x00 := by simp [WireId.image, List.replicate]
    unfold WireId.candidate
    rw [if_pos hhead, dif_pos (by rw [hname, n.2])]
    simp [hname]
  have hdrop : (toBe 4 (WireId.fc n).image.length ++ (WireId.fc n).image).drop 4 =
      (WireId.fc n).image := by
    have hfour := toBe_length 4 (WireId.fc n).image.length
    rw [List.drop_append_of_le_length (by omega), List.drop_of_length_le (by omega), List.nil_append]
  rw [WireId.parseList, hdrop, hcand]
  simp

namespace Target

/-- The conditions under which the device carries a command out. -/
def holds (t : Target) (n : Nexus) (key : Key) : Bool := key ≠ 0 ∧ t.regOf n = registration key

/-- RELEASE through a nexus. One that does not hold the reservation has nothing to release. -/
def release (t : Target) (n : Nexus) (key : Key) (scopeType : Byte) : PrStatus × Target :=
  if !t.holds n key then (.reservConflict, t)
  else if t.holder ≠ some n then (.success, t)
  else if t.scopeType ≠ scopeType then (.illegalReq, t)
  else (.success, t.released)

/-- CLEAR through a nexus. -/
def clear (t : Target) (n : Nexus) (key : Key) : PrStatus × Target :=
  if t.holds n key then (.success, t.cleared) else (.reservConflict, t)

/-- REGISTER through a nexus, with the list of transport IDs for SPEC_I_PT. -/
def registerAt (t : Target) (n : Nexus) (p : ProutParam) (list : List Byte) : PrStatus × Target :=
  match register .reg p (t.regOf n) with
  | none => (.reservConflict, t)
  | some new =>
    if p.saFlags &&& fSpecIPtMask ≠ 0 then
      match WireId.parseList list with
      | none => (.illegalReq, t)
      | some id => (.success, (t.set n new).set ⟨id, n.target⟩ new)
    else (.success, t.set n new)

/-- A full status descriptor. -/
def statusDescriptor (t : Target) (r : Reg) : List Byte :=
  toBe 8 r.key.1.toNat ++ List.replicate 4 0 ++ [if t.holder = some r.nexus then 1 else 0] ++
    [if t.holder = some r.nexus then t.scopeType else 0] ++ List.replicate 4 0 ++
    toBe 2 r.nexus.target.toNat ++ toBe 4 r.nexus.initiator.image.length ++ r.nexus.initiator.image

/-- The data of READ FULL STATUS, after the header. -/
def statusData (t : Target) : List Byte := t.regs.flatMap t.statusDescriptor

/-- What the command leaves in a zeroed buffer. The header and the data are cut at
`MPATH_MAX_PARAM_LEN` bytes, the additional length is not. -/
def fullStatus (t : Target) : PrinReadfd where
  additionalLength := BitVec.ofNat 32 t.statusData.length
  privateBuffer := (t.statusData.take (maxParamLen - 8) ++ List.replicate maxParamLen 0).take maxParamLen
  privateBuffer_length := by simp

end Target

end MultipathTools.Persist
