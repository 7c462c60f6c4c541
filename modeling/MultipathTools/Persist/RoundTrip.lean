import MultipathTools.Persist.TransportId

/-! Transport IDs as a device sends them, decoded and formatted again. -/
namespace MultipathTools.Persist

/-- Eight bytes: an N_Port name or a SAS address. -/
abbrev Bytes8 := {bs : List Byte // bs.length = 8}

/-- The name of an iSCSI initiator device (format code 0) or port (format code 1, with the
separator and the initiator session identifier after the name). -/
structure IscsiName where
  port : Bool
  text : List Byte
  text_ne_nil : text ≠ []
  nul_not_mem : 0 ∉ text
  text_length : text.length ≤ 223 + if port then 17 else 0

/-- A well-formed transport ID. -/
inductive WireId where
  | fc (nPortName : Bytes8)
  | sas (sasAddress : Bytes8)
  | iscsi (name : IscsiName)

/-- The name with a NUL and padding up to a multiple of four, twenty bytes at least. -/
def IscsiName.padded (name : IscsiName) : List Byte :=
  name.text ++ List.replicate (max 20 (4 * (name.text.length / 4 + 1)) - name.text.length) 0

/-- Format code and protocol identifier. -/
def IscsiName.firstByte (name : IscsiName) : Byte := if name.port then 0x45 else 0x05

/-- The bytes of a transport ID in READ FULL STATUS data. -/
def WireId.image : WireId → List Byte
  | .fc n => List.replicate 8 0 ++ n.1 ++ List.replicate 8 0
  | .sas a => [0x06, 0, 0, 0] ++ a.1 ++ List.replicate 12 0
  | .iscsi n => [n.firstByte, 0] ++ toBe 2 n.padded.length ++ n.padded

/-- Each transport ID is decoded into the struct that the one before has left. -/
def decodeAll : Transportid → List WireId → Option (List Transportid)
  | _, [] => some []
  | tid, id :: ids =>
    (decodeTransportId id.image tid 0 id.image.length).bind fun tid =>
      (decodeAll tid ids).map (tid :: ·)

/-- The list is written again as it was: each entry by itself, and the whole behind its length. -/
def RoundTrips (tid : Transportid) (ids : List WireId) : Prop :=
  ∃ tids, decodeAll tid ids = some tids ∧ formatEntries 4 tids = some (ids.map WireId.image) ∧
    formatTransportids tids = some
      (toBe 4 (ids.flatMap WireId.image).length ++ ids.flatMap WireId.image)

def WireId.IsFc : WireId → Prop
  | .fc _ => True
  | _ => False

instance (id : WireId) : Decidable id.IsFc := by
  cases id <;> unfold WireId.IsFc <;> infer_instance

theorem IscsiName.padded_length (name : IscsiName) :
    name.padded.length = max 20 (4 * (name.text.length / 4 + 1)) := by
  unfold padded
  rw [List.length_append, List.length_replicate]
  omega

theorem IscsiName.padded_lt (name : IscsiName) : name.padded.length ≤ 244 := by
  have h := name.text_length
  rw [name.padded_length]
  split_ifs at h <;> omega

/-- The name does not begin with a NUL. -/
theorem IscsiName.padded_head (name : IscsiName) : ∃ b bs, b ≠ 0 ∧ name.padded = b :: bs := by
  obtain ⟨b, bs, htext⟩ := List.exists_cons_of_ne_nil name.text_ne_nil
  have hb : b ≠ 0 := by
    intro hb
    apply name.nul_not_mem
    rw [htext, hb]
    exact List.mem_cons_self
  exact ⟨b, _, hb, by rw [padded, htext, List.cons_append]⟩

theorem TidName.memcpy_eq (name : TidName) {bs : List Byte} (h : bs.length ≤ 256) :
    ∃ new : TidName, name.memcpy bs = some new ∧ new.1 = bs ++ name.1.drop bs.length :=
  ⟨_, dif_pos h, rfl⟩

/-- An FC transport ID is decoded into its name. -/
theorem decodeTransportId_fc (tid : Transportid) (n : Bytes8) :
    ∃ name : TidName, decodeTransportId (WireId.fc n).image tid 0 (WireId.fc n).image.length =
      some ⟨0, protocolIdFc, name⟩ ∧ name.1.take 8 = n.1 := by
  have hlen : (WireId.fc n).image.length = 24 := by simp [WireId.image, n.2]
  have hself := slice_self (WireId.fc n).image
  have hb : slice (WireId.fc n).image 0 1 = some [0] := by
    simpa [WireId.image, List.replicate] using slice_slice hself (i := 0) (m := 1) (by omega)
  have hn : slice (WireId.fc n).image 8 8 = some n.1 := by
    simpa [WireId.image, List.drop_append, List.take_append, n.2] using
      slice_slice hself (i := 8) (m := 8) (by omega)
  obtain ⟨name, hname, hval⟩ := tid.name.memcpy_eq (by rw [n.2]; omega)
  refine ⟨name, ?_, ?_⟩
  · rw [hlen, decodeTransportId_of_pos (by simp)]
    simp [decodeTid, hb, hn, hname, protocolIdFc, decodeTransportId_of_nonpos]
  · rw [hval, List.take_append_of_le_length (by rw [n.2]), List.take_of_length_le (by rw [n.2])]

theorem decodeTransportId_sas (tid : Transportid) (a : Bytes8) :
    ∃ name : TidName, decodeTransportId (WireId.sas a).image tid 0 (WireId.sas a).image.length =
      some ⟨0, protocolIdSas, name⟩ := by
  have hlen : (WireId.sas a).image.length = 24 := by simp [WireId.image, a.2]
  have hself := slice_self (WireId.sas a).image
  have hb : slice (WireId.sas a).image 0 1 = some [6] := by
    simpa [WireId.image] using slice_slice hself (i := 0) (m := 1) (by omega)
  have ha : slice (WireId.sas a).image 4 8 = some a.1 := by
    simpa [WireId.image, List.drop_append, List.take_append, a.2] using
      slice_slice hself (i := 4) (m := 8) (by omega)
  obtain ⟨name, hname, -⟩ := tid.name.memcpy_eq (by rw [a.2]; omega)
  refine ⟨name, ?_⟩
  rw [hlen, decodeTransportId_of_pos (by simp)]
  simp [decodeTid, hb, ha, hname, protocolIdFc, protocolIdIscsi, protocolIdSas,
    decodeTransportId_of_nonpos]

theorem IscsiName.firstByte_protocol (name : IscsiName) :
    name.firstByte &&& 0xf = protocolIdIscsi := by
  unfold firstByte
  split <;> rfl

theorem decodeTid_iscsi {buf len bs : List Byte} {tid : Transportid} {p : ℤ} {b : Byte}
    {name : TidName} (hb : slice buf p 1 = some [b]) (hproto : b &&& 0xf = protocolIdIscsi)
    (hl : slice buf (p + 2) 2 = some len) (hlt : ofBe len < 256)
    (hn : slice buf (p + 4) (ofBe len) = some bs) (hname : tid.name.memcpy bs = some name) :
    decodeTid buf tid p = some (⟨(b >>> 6) &&& 0x3, protocolIdIscsi, name⟩,
      if ofBe len + 4 < 24 then 24 else ofBe len + 4) := by
  unfold decodeTid
  rw [hb, Option.bind_some]
  rw [show [b].getD 0 0 = b from rfl]
  dsimp only
  rw [hproto, if_neg (by decide), if_pos rfl, hl, Option.bind_some, if_neg (by omega), hn,
    Option.bind_some, hname, Option.map_some]

/-- An iSCSI name is decoded without the length field in front of it. -/
theorem decodeTransportId_iscsi (tid : Transportid) (n : IscsiName) :
    ∃ (code : Byte) (name : TidName),
      decodeTransportId (WireId.iscsi n).image tid 0 (WireId.iscsi n).image.length =
        some ⟨code, protocolIdIscsi, name⟩ ∧ n.padded <+: name.1 := by
  have hpad := n.padded_lt
  have hlow : 20 ≤ n.padded.length := by
    rw [n.padded_length]
    omega
  have hlen : (WireId.iscsi n).image.length = n.padded.length + 4 := by
    simp [WireId.image]
    omega
  have hself := slice_self (WireId.iscsi n).image
  have hb : slice (WireId.iscsi n).image 0 1 = some [n.firstByte] := by
    simpa [WireId.image] using slice_slice hself (i := 0) (m := 1) (by omega)
  have hl : slice (WireId.iscsi n).image 2 2 = some (toBe 2 n.padded.length) := by
    simpa [WireId.image, List.take_append] using
      slice_slice hself (i := 2) (m := 2) (by rw [hlen]; omega)
  have hn : slice (WireId.iscsi n).image 4 n.padded.length = some n.padded := by
    simpa [WireId.image, List.drop_append] using
      slice_slice hself (i := 4) (m := n.padded.length) (by omega)
  have hnum : ofBe (toBe 2 n.padded.length) = n.padded.length := by
    rw [ofBe_toBe, Nat.mod_eq_of_lt (by omega)]
  have hfit : n.padded.length ≤ 256 := by omega
  obtain ⟨name, hname, hval⟩ := tid.name.memcpy_eq hfit
  refine ⟨(n.firstByte >>> 6) &&& 0x3, name, ?_, ?_⟩
  · have hd := decodeTid_iscsi hb n.firstByte_protocol hl (by rw [hnum]; omega)
      (by rwa [hnum, zero_add]) hname
    rw [hnum, if_neg (by omega)] at hd
    rw [decodeTransportId_of_pos (by rw [hlen]; omega), hd, Option.bind_some,
      decodeTransportId_of_nonpos (by rw [hlen]; omega)]
  · rw [hval]
    exact List.prefix_append _ _

/-- What the formatter makes of an FC transport ID is what was read. -/
theorem payload_fc (name : TidName) (n : Bytes8) (h : name.1.take 8 = n.1) :
    payload ⟨0, protocolIdFc, name⟩ = some (WireId.fc n).image.tail := by
  simp [payload, WireId.image, h, List.replicate]

/-- A SAS transport ID is written in 16 bytes instead of 24. -/
theorem payload_sas_ne (code b : Byte) (name : TidName) (a : Bytes8) {bs : List Byte}
    (h : payload ⟨code, protocolIdSas, name⟩ = some bs) : b :: bs ≠ (WireId.sas a).image := by
  have hbs : bs = List.replicate 3 0 ++ name.1.take 8 ++ List.replicate 4 0 := by
    simpa [payload, protocolIdSas, protocolIdFc] using h.symm
  have hname : (name.1.take 8).length = 8 := by rw [List.length_take, name.2]; rfl
  intro he
  have hlen := congrArg List.length he
  simp [hbs, WireId.image, a.2, name.2] at hlen

/-- The name of an iSCSI transport ID is written where its length was. -/
theorem payload_iscsi_ne (code b : Byte) (name : TidName) (n : IscsiName) {bs : List Byte}
    (hn : n.padded <+: name.1) (h : payload ⟨code, protocolIdIscsi, name⟩ = some bs) :
    b :: bs ≠ (WireId.iscsi n).image := by
  obtain ⟨c, cs, hc, hpad⟩ := n.padded_head
  obtain ⟨rest, hrest⟩ := hn
  obtain ⟨ds, hds, rfl⟩ : ∃ ds, slice name.1 0 (iscsiLen ⟨code, protocolIdIscsi, name⟩) = some ds ∧
      0 :: ds = bs := by
    simpa [payload, protocolIdIscsi, protocolIdFc, protocolIdSas] using h
  obtain ⟨-, -, rfl⟩ := slice_eq_some_iff.mp hds
  have hlen := n.padded_lt
  intro he
  have hthird := congrArg (·[2]?) he
  rw [← hrest, hpad] at hthird
  have hzero : n.padded.length / 256 = 0 := Nat.div_eq_of_lt (by omega)
  simp [WireId.image, iscsiLen, toBe, hzero] at hthird
  exact hc hthird

/-- Only an FC transport ID is written again as it was read. -/
theorem isFc_of_image_eq {id : WireId} {tid new : Transportid} {b : Byte} {bs : List Byte}
    (hd : decodeTransportId id.image tid 0 id.image.length = some new)
    (hp : payload new = some bs) (he : b :: bs = id.image) : id.IsFc := by
  cases id with
  | fc n => trivial
  | sas a =>
    obtain ⟨name, hname⟩ := decodeTransportId_sas tid a
    cases hname.symm.trans hd
    exact payload_sas_ne 0 b name a hp he
  | iscsi n =>
    obtain ⟨code, name, hname, hpre⟩ := decodeTransportId_iscsi tid n
    cases hname.symm.trans hd
    exact payload_iscsi_ne code b name n hpre hp he

/-- An entry that is written consists of its first byte and the payload. -/
theorem payload_of_formatEntries {ofs : ℕ} {tid : Transportid} {tids : List Transportid}
    {e : List Byte} {es : List (List Byte)} (h : formatEntries ofs (tid :: tids) = some (e :: es)) :
    ∃ b bs, payload tid = some bs ∧ b :: bs = e := by
  unfold formatEntries at h
  split at h
  · cases h
  split at h
  · cases h
  obtain ⟨bs, hbs, h⟩ := Option.bind_eq_some_iff.mp h
  obtain ⟨entries, -, hcons⟩ := Option.map_eq_some_iff.mp h
  exact ⟨_, bs, hbs, (List.cons.inj hcons).1⟩

/-- An FC transport ID takes 24 bytes of the list, if they are left. -/
theorem formatEntries_fc (ofs : ℕ) {name : TidName} {n : Bytes8} (h : name.1.take 8 = n.1)
    (tids : List Transportid) :
    formatEntries ofs (⟨0, protocolIdFc, name⟩ :: tids) =
      if ofs + 48 ≤ maxParamLen then
        (formatEntries (ofs + 24) tids).map ((WireId.fc n).image :: ·)
      else some [] := by
  have hlen : payloadLen ⟨0, protocolIdFc, name⟩ = 23 := rfl
  have himage : (0 &&& 0xff ||| protocolIdFc &&& 0xff) :: (WireId.fc n).image.tail
      = (WireId.fc n).image := rfl
  rw [formatEntries, hlen, payload_fc name n h, Option.bind_some]
  dsimp only
  rw [himage]
  unfold overflows
  by_cases hroom : ofs + 48 ≤ maxParamLen
  · rw [if_neg (by simp; omega), if_neg (by simp; omega), if_pos hroom]
  · by_cases hfirst : ofs + 1 + 24 > maxParamLen
    · rw [if_pos (by simpa using hfirst), if_neg hroom]
    · rw [if_neg (by simpa using hfirst), if_pos (by simp; omega), if_neg hroom]

/-- No other transport ID is written again at the head of a list. -/
theorem formatEntries_ne_of_not_isFc {i : WireId} (h : ¬ i.IsFc) (ofs : ℕ) (tid : Transportid)
    (ids : List WireId) (es : List (List Byte)) :
    ¬ ∃ tids, decodeAll tid (i :: ids) = some tids ∧
      formatEntries ofs tids = some (i.image :: es) := by
  intro hex
  obtain ⟨tids, htids, hent⟩ := hex
  obtain ⟨new, hnew, htids⟩ := Option.bind_eq_some_iff.mp htids
  obtain ⟨rest, -, rfl⟩ := Option.map_eq_some_iff.mp htids
  obtain ⟨b, bs, hbs, himage⟩ := payload_of_formatEntries hent
  exact h (isFc_of_image_eq hnew hbs himage)

/-- The entries from an offset on are those that were read iff they are FC transport IDs and the
last of them ends inside the parameter list. -/
theorem formatEntries_decodeAll_iff (ofs : ℕ) (tid : Transportid) (ids : List WireId) :
    (∃ tids, decodeAll tid ids = some tids ∧
        formatEntries ofs tids = some (ids.map WireId.image)) ↔
      (∀ id ∈ ids, id.IsFc) ∧ (ids ≠ [] → ofs + 24 * ids.length + 24 ≤ maxParamLen) := by
  induction ids generalizing ofs tid with
  | nil => simp [decodeAll, formatEntries]
  | cons id ids ih =>
    rw [List.forall_mem_cons, List.length_cons, List.map_cons]
    cases id with
    | fc n =>
      obtain ⟨name, hname, htake⟩ := decodeTransportId_fc tid n
      have hih := ih (ofs + 24) ⟨0, protocolIdFc, name⟩
      have hlast : (ids ≠ [] → ofs + 24 + 24 * ids.length + 24 ≤ maxParamLen) ∧
          ofs + 48 ≤ maxParamLen ↔ ofs + 24 * (ids.length + 1) + 24 ≤ maxParamLen := by
        cases ids with
        | nil => simp only [ne_eq, not_true_eq_false, false_imp_iff, true_and, List.length_nil]
        | cons id ids =>
          simp only [ne_eq, reduceCtorEq, not_false_eq_true, true_imp_iff, List.length_cons]
          omega
      constructor
      · intro h
        obtain ⟨tids, htids, hent⟩ := h
        rw [decodeAll, hname, Option.bind_some] at htids
        obtain ⟨rest, hrest, rfl⟩ := Option.map_eq_some_iff.mp htids
        rw [formatEntries_fc ofs htake] at hent
        split at hent
        · rename_i hroom
          obtain ⟨entries, hentries, hcons⟩ := Option.map_eq_some_iff.mp hent
          have hall := hih.mp ⟨rest, hrest, by rw [hentries, (List.cons.inj hcons).2]⟩
          exact ⟨⟨trivial, hall.1⟩, fun _ => hlast.mp ⟨hall.2, hroom⟩⟩
        · cases hent
      · intro h
        obtain ⟨hrest, hroom⟩ := hlast.mpr (h.2 (List.cons_ne_nil _ _))
        obtain ⟨rest, hrest, hentries⟩ := hih.mpr ⟨h.1.2, hrest⟩
        refine ⟨⟨0, protocolIdFc, name⟩ :: rest, ?_, ?_⟩
        · rw [decodeAll, hname, Option.bind_some, hrest, Option.map_some]
        · rw [formatEntries_fc ofs htake, if_pos hroom, hentries, Option.map_some]
    | sas a =>
      exact iff_of_false (formatEntries_ne_of_not_isFc (i := .sas a) not_false ofs tid ids _)
        fun h => h.1.1
    | iscsi n =>
      exact iff_of_false (formatEntries_ne_of_not_isFc (i := .iscsi n) not_false ofs tid ids _)
        fun h => h.1.1

/-- A list of transport IDs is written again as it was read exactly if it has FC transport IDs
only, and not more of them than a parameter list holds. -/
theorem roundTrips_iff (tid : Transportid) (ids : List WireId) :
    RoundTrips tid ids ↔ (∀ id ∈ ids, id.IsFc) ∧ ids.length ≤ 340 := by
  have hiff := formatEntries_decodeAll_iff 4 tid ids
  have hbound : (ids ≠ [] → 4 + 24 * ids.length + 24 ≤ maxParamLen) ↔ ids.length ≤ 340 := by
    unfold maxParamLen
    cases ids with
    | nil => simp
    | cons id ids =>
      simp only [ne_eq, reduceCtorEq, not_false_eq_true, true_imp_iff, List.length_cons]
      omega
  rw [hbound] at hiff
  rw [← hiff]
  constructor
  · intro h
    obtain ⟨tids, htids, hent, -⟩ := h
    exact ⟨tids, htids, hent⟩
  · intro h
    obtain ⟨tids, htids, hent⟩ := h
    refine ⟨tids, htids, hent, ?_⟩
    rw [formatTransportids, hent, Option.map_some, List.flatMap_def]

/-- A SAS transport ID, decoded into a zeroed struct, is not written again. -/
theorem roundTrips_sas_fails :
    ¬ ∀ (tid : Transportid) (ids : List WireId), RoundTrips tid ids := by
  intro h
  obtain ⟨tids, htids, hent, -⟩ := h ⟨0, 0, List.replicate 256 0, List.length_replicate⟩
    [.sas ⟨[0x50, 0x01, 0x43, 0x80, 0, 0, 0, 1], rfl⟩]
  have hsas : ¬ (WireId.sas ⟨[0x50, 0x01, 0x43, 0x80, 0, 0, 0, 1], rfl⟩).IsFc := not_false
  exact formatEntries_ne_of_not_isFc hsas 4 _ [] [] ⟨tids, htids, hent⟩

end MultipathTools.Persist
