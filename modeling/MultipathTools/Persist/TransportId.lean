import MultipathTools.Base.Bytes

/-! Transport IDs: how `decode_transport_id` reads them from a response, and how
`format_transportids` writes them into a parameter list. -/
namespace MultipathTools.Persist

def protocolIdFc : Byte := 0x00
def protocolIdIscsi : Byte := 0x05
def protocolIdSas : Byte := 0x06

/-- `MPATH_MAX_PARAM_LEN`. -/
def maxParamLen : ℕ := 8192

/-- The union of `n_port_name`, `sas_address` and `iscsi_name`. -/
abbrev TidName := {bs : List Byte // bs.length = 256}

/-- `struct transportid`. -/
structure Transportid where
  formatCode : Byte
  protocolId : Byte
  name : TidName
  deriving DecidableEq

/-- `memcpy` to the start of the union, `none` past its end. -/
def TidName.memcpy (name : TidName) (bs : List Byte) : Option TidName :=
  if h : bs.length ≤ 256 then
    some ⟨bs ++ name.1.drop bs.length, by rw [List.length_append, List.length_drop, name.2]; omega⟩
  else none

/-- One round of the loop in `decode_transport_id`, with `jump`. -/
def decodeTid (buf : List Byte) (tid : Transportid) (p : ℤ) : Option (Transportid × ℕ) :=
  (slice buf p 1).bind fun b =>
    let b := b.getD 0 0
    let tid := { tid with formatCode := (b >>> 6) &&& 0x3, protocolId := b &&& 0xf }
    if tid.protocolId = protocolIdFc then
      (slice buf (p + 8) 8).bind fun bs =>
        (tid.name.memcpy bs).map fun name => ({ tid with name := name }, 24)
    else if tid.protocolId = protocolIdIscsi then
      (slice buf (p + 2) 2).bind fun len =>
        let num := if ofBe len ≥ 256 then 256 else ofBe len
        (slice buf (p + 4) num).bind fun bs =>
          (tid.name.memcpy bs).map fun name =>
            ({ tid with name := name }, if num + 4 < 24 then 24 else num + 4)
    else if tid.protocolId = protocolIdSas then
      (slice buf (p + 4) 8).bind fun bs =>
        (tid.name.memcpy bs).map fun name => ({ tid with name := name }, 24)
    else some (tid, 24)

/-- How far the decoder moves on after the transport ID at `p`. -/
theorem decodeTid_jump {buf : List Byte} {tid : Transportid} {p : ℤ} {r : Transportid × ℕ}
    (h : decodeTid buf tid p = some r) : 24 ≤ r.2 := by
  obtain ⟨b, -, h⟩ := Option.bind_eq_some_iff.mp h
  dsimp only at h
  split at h
  · obtain ⟨bs, -, h⟩ := Option.bind_eq_some_iff.mp h
    obtain ⟨name, -, rfl⟩ := Option.map_eq_some_iff.mp h
    exact le_rfl
  · split at h
    · obtain ⟨len, -, h⟩ := Option.bind_eq_some_iff.mp h
      obtain ⟨bs, -, h⟩ := Option.bind_eq_some_iff.mp h
      obtain ⟨name, -, rfl⟩ := Option.map_eq_some_iff.mp h
      dsimp only
      split_ifs <;> omega
    · split at h
      · obtain ⟨bs, -, h⟩ := Option.bind_eq_some_iff.mp h
        obtain ⟨name, -, rfl⟩ := Option.map_eq_some_iff.mp h
        exact le_rfl
      · cases h
        exact le_rfl

/-- `decode_transport_id`: `p` is the position in the buffer, `length` what is left of the loop,
and `none` is a read or write out of bounds. -/
def decodeTransportId (buf : List Byte) (tid : Transportid) (p length : ℤ) :
    Option Transportid :=
  if 0 < length then
    match _h : decodeTid buf tid p with
    | none => none
    | some r => decodeTransportId buf r.1 (p + r.2) (length - r.2)
  else some tid
termination_by length.toNat
decreasing_by
  have := decodeTid_jump _h
  omega

theorem decodeTransportId_of_nonpos {buf : List Byte} {tid : Transportid} {p length : ℤ}
    (h : length ≤ 0) : decodeTransportId buf tid p length = some tid := by
  rw [decodeTransportId, if_neg (by omega)]

theorem decodeTransportId_of_pos {buf : List Byte} {tid : Transportid} {p length : ℤ}
    (h : 0 < length) : decodeTransportId buf tid p length =
      (decodeTid buf tid p).bind fun r => decodeTransportId buf r.1 (p + r.2) (length - r.2) := by
  rw [decodeTransportId, if_pos h]
  cases decodeTid buf tid p <;> simp

/-- The length of `iscsi_name` that `format_transportids` takes from its second byte. -/
def iscsiLen (tid : Transportid) : ℕ := (tid.name.1.getD 1 0 &&& 0xff).toNat + 2

/-- By how much `buff_offset` grows for the transport ID, its first byte aside. -/
def payloadLen (tid : Transportid) : ℕ :=
  if tid.protocolId = protocolIdFc then 7 + 8 + 8
  else if tid.protocolId = protocolIdSas then 3 + 12
  else if tid.protocolId = protocolIdIscsi then 1 + iscsiLen tid
  else 0

/-- What stands in the zeroed buffer after the first byte, `none` for a read out of bounds. -/
def payload (tid : Transportid) : Option (List Byte) :=
  if tid.protocolId = protocolIdFc then
    some (List.replicate 7 0 ++ tid.name.1.take 8 ++ List.replicate 8 0)
  else if tid.protocolId = protocolIdSas then
    some (List.replicate 3 0 ++ tid.name.1.take 8 ++ List.replicate 4 0)
  else if tid.protocolId = protocolIdIscsi then
    (slice tid.name.1 0 (iscsiLen tid)).map (0 :: ·)
  else some []

/-- `check_overflow`: `n` bytes more do not fit; `private_buffer` starts at offset 24. -/
def overflows (ofs n : ℕ) : Bool := ofs + n + 24 > maxParamLen

/-- The loop of `format_transportids` from `buff_offset` on: the bytes of each entry. -/
def formatEntries : ℕ → List Transportid → Option (List (List Byte))
  | _, [] => some []
  | ofs, tid :: tids =>
    if overflows ofs 1 then some []
    else if overflows (ofs + 1) (payloadLen tid) then some []
    else (payload tid).bind fun bs =>
      (formatEntries (ofs + 1 + payloadLen tid) tids).map
        (((tid.formatCode &&& 0xff ||| tid.protocolId &&& 0xff) :: bs) :: ·)

/-- `format_transportids`: the used part of the buffer, with the length of the list in front. -/
def formatTransportids (tids : List Transportid) : Option (List Byte) :=
  (formatEntries 4 tids).map fun entries => toBe 4 entries.flatten.length ++ entries.flatten

end MultipathTools.Persist
