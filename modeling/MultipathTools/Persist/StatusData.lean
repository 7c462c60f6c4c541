import MultipathTools.Persist.Target

/-! What `mpath_format_readfullstatus` makes of the data that a target reports. -/
namespace MultipathTools.Persist

variable {α : Type*}

/-- A read inside a part of the buffer. -/
theorem slice_mid {b bs : List α} {i : ℤ} {n : ℕ} (h : slice b i n = some bs) (pre post : List α) :
    slice (pre ++ (b ++ post)) (pre.length + i) n = some bs := by
  obtain ⟨hi, hlen, hbs⟩ := slice_eq_some_iff.mp h
  have hpos : ((pre.length : ℤ) + i).toNat = pre.length + i.toNat := by omega
  apply slice_eq_some_iff.mpr
  refine ⟨by omega, hlen, ?_⟩
  rw [hpos, ← List.drop_drop, List.drop_left, ← hbs]
  by_cases hn : n = 0
  · simp [hn]
  · have hle : i.toNat + n ≤ b.length := by
      rw [← hbs, List.length_take, List.length_drop] at hlen
      omega
    rw [List.drop_append_of_le_length (by omega),
      List.take_append_of_le_length (by rw [List.length_drop]; omega)]

theorem decodeTid_mid {b : List Byte} {tid : Transportid} {i : ℤ} {r : Transportid × ℕ}
    (h : decodeTid b tid i = some r) (pre post : List Byte) :
    decodeTid (pre ++ (b ++ post)) tid (pre.length + i) = some r := by
  unfold decodeTid at h ⊢
  obtain ⟨first, hfirst, h⟩ := Option.bind_eq_some_iff.mp h
  rw [slice_mid hfirst, Option.bind_some]
  dsimp only at h ⊢
  split at h
  · rename_i hfc
    obtain ⟨bs, hbs, h⟩ := Option.bind_eq_some_iff.mp h
    rw [if_pos hfc, add_assoc, slice_mid hbs, Option.bind_some, h]
  · rename_i hfc
    rw [if_neg hfc]
    split at h
    · rename_i hiscsi
      obtain ⟨len, hlen, h⟩ := Option.bind_eq_some_iff.mp h
      obtain ⟨bs, hbs, h⟩ := Option.bind_eq_some_iff.mp h
      rw [if_pos hiscsi, add_assoc, slice_mid hlen, Option.bind_some, add_assoc, slice_mid hbs,
        Option.bind_some, h]
    · rename_i hiscsi
      rw [if_neg hiscsi]
      split at h
      · rename_i hsas
        obtain ⟨bs, hbs, h⟩ := Option.bind_eq_some_iff.mp h
        rw [if_pos hsas, add_assoc, slice_mid hbs, Option.bind_some, h]
      · rename_i hsas
        rw [if_neg hsas, h]

/-- A transport ID is decoded inside a longer buffer as it is by itself. -/
theorem decodeTransportId_mid {b : List Byte} {tid new : Transportid} {i length : ℤ}
    (h : decodeTransportId b tid i length = some new) (pre post : List Byte) :
    decodeTransportId (pre ++ (b ++ post)) tid (pre.length + i) length = some new := by
  fun_induction decodeTransportId b tid i length with
  | case1 => cases h
  | case2 tid i length hpos r hr ih =>
    rw [decodeTransportId_of_pos hpos, decodeTid_mid hr, Option.bind_some, add_assoc]
    exact ih h
  | case3 tid i length hpos =>
    rw [decodeTransportId_of_nonpos (by omega)]
    exact h

theorem WireId.image_length (id : WireId) : 24 ≤ id.image.length ∧ id.image.length ≤ 248 := by
  cases id with
  | fc n => simp [image, n.2]
  | sas a => simp [image, a.2]
  | iscsi n =>
    have hle := n.padded_lt
    have hge := n.padded_length
    simp only [image, List.length_append, List.length_cons, List.length_nil, toBe_length]
    omega

theorem WireId.decode_image (id : WireId) (tid : Transportid) :
    ∃ new, decodeTransportId id.image tid 0 id.image.length = some new := by
  cases id with
  | fc n =>
    obtain ⟨name, h, -⟩ := decodeTransportId_fc tid n
    exact ⟨_, h⟩
  | sas a =>
    obtain ⟨name, h⟩ := decodeTransportId_sas tid a
    exact ⟨_, h⟩
  | iscsi n =>
    obtain ⟨code, name, h, -⟩ := decodeTransportId_iscsi tid n
    exact ⟨_, h⟩

/-- The descriptor has the key of the registration and its transport ID, as it was decoded over
another one. -/
def Describes (r : Reg) (d : Fulldescr) : Prop :=
  d.key = toBe 8 r.key.1.toNat ∧
    ∃ tid, decodeTransportId r.nexus.initiator.image tid 0 r.nexus.initiator.image.length =
      some d.trnptid

theorem Target.statusDescriptor_length (t : Target) (r : Reg) :
    (t.statusDescriptor r).length = 24 + r.nexus.initiator.image.length := by
  simp [statusDescriptor]
  omega

theorem slice_part (pre : List α) {b : List α} {p n : ℕ} (hp : pre.length = p) (hn : b.length = n)
    (post : List α) : slice (pre ++ (b ++ post)) p n = some b := by
  have h := slice_mid (slice_self b) pre post
  rwa [add_zero, hp, hn] at h

/-- The fields of a descriptor that the decoder reads. -/
theorem Target.slice_statusDescriptor (t : Target) (r : Reg) :
    ∃ flag scopeType,
      slice (t.statusDescriptor r) 0 8 = some (toBe 8 r.key.1.toNat) ∧
      slice (t.statusDescriptor r) 12 1 = some [flag] ∧
      slice (t.statusDescriptor r) 13 1 = some [scopeType] ∧
      slice (t.statusDescriptor r) 18 2 = some (toBe 2 r.nexus.target.toNat) ∧
      slice (t.statusDescriptor r) 20 4 = some (toBe 4 r.nexus.initiator.image.length) ∧
      ∃ head, head.length = 24 ∧ t.statusDescriptor r = head ++ r.nexus.initiator.image := by
  obtain ⟨flag, hflag⟩ : ∃ flag : Byte, flag = if t.holder = some r.nexus then 1 else 0 := ⟨_, rfl⟩
  obtain ⟨scopeType, hscope⟩ : ∃ scopeType : Byte,
      scopeType = if t.holder = some r.nexus then t.scopeType else 0 := ⟨_, rfl⟩
  let key := toBe 8 r.key.1.toNat
  let zeros : List Byte := List.replicate 4 0
  let port := toBe 2 r.nexus.target.toNat
  let len := toBe 4 r.nexus.initiator.image.length
  have hkeyLen : key.length = 8 := toBe_length 8 _
  have hzeros : zeros.length = 4 := rfl
  have hportLen : port.length = 2 := toBe_length 2 _
  have hlenLen : len.length = 4 := toBe_length 4 _
  have hsplit : t.statusDescriptor r = key ++ (zeros ++ ([flag] ++ ([scopeType] ++ (zeros ++
      (port ++ (len ++ r.nexus.initiator.image)))))) := by
    rw [hflag, hscope]
    simp only [statusDescriptor, List.append_assoc, key, zeros, port, len]
  rw [hsplit]
  refine ⟨flag, scopeType, ?_, ?_, ?_, ?_, ?_, ?_⟩
  · exact slice_part [] rfl hkeyLen _
  · rw [← List.append_assoc]
    exact slice_part (key ++ zeros) (by rw [List.length_append, hkeyLen, hzeros]) rfl _
  · rw [← List.append_assoc, ← List.append_assoc]
    exact slice_part (key ++ zeros ++ [flag]) (by simp [hkeyLen, hzeros]) rfl _
  · rw [← List.append_assoc, ← List.append_assoc, ← List.append_assoc, ← List.append_assoc]
    exact slice_part (key ++ zeros ++ [flag] ++ [scopeType] ++ zeros)
      (by simp [hkeyLen, hzeros]) hportLen _
  · rw [← List.append_assoc, ← List.append_assoc, ← List.append_assoc, ← List.append_assoc,
      ← List.append_assoc]
    exact slice_part (key ++ zeros ++ [flag] ++ [scopeType] ++ zeros ++ port)
      (by simp [hkeyLen, hzeros, hportLen]) hlenLen _
  · exact ⟨key ++ (zeros ++ ([flag] ++ ([scopeType] ++ (zeros ++ (port ++ len))))),
      by simp [hkeyLen, hzeros, hportLen, hlenLen], by simp only [List.append_assoc]⟩

/-- No room is left for another descriptor. -/
theorem fullStatusStep_full {n : BitVec 32} {buf : List Byte} {s : FdState}
    (h : s.ppbuff + fulldescrSize > maxParamLen) : fullStatusStep n buf s = none := by
  unfold fullStatusStep
  simp only [h, true_or, if_true, Option.bind_fun_none]

/-- A round of the loop at a well-formed descriptor. -/
theorem fullStatusStep_descriptor (t : Target) (r : Reg) {pre : List Byte} (post : List Byte)
    {n c : ℕ} {s : FdState} (hn : n ≤ maxParamLen)
    (hend : pre.length + (t.statusDescriptor r).length ≤ n) (hs : s.At pre.length c) (hc : c < 30) :
    ∃ s' d, fullStatusStep (BitVec.ofNat 32 n) (pre ++ (t.statusDescriptor r ++ post)) s = some s' ∧
      Describes r d ∧ s'.descriptors = s.descriptors ++ [d] ∧
      s'.At (pre ++ t.statusDescriptor r).length (c + 1) := by
  obtain ⟨flag, scopeType, hkey, hflag, hscope, hrtpi, hlen, head, hhead, hdescr⟩ :=
    t.slice_statusDescriptor r
  have hdlen := t.statusDescriptor_length r
  have himage := r.nexus.initiator.image_length
  obtain ⟨tid, htid⟩ := r.nexus.initiator.decode_image s.fdesc.trnptid
  have hofBe : ofBe (toBe 4 r.nexus.initiator.image.length) = r.nexus.initiator.image.length := by
    rw [ofBe_toBe, Nat.mod_eq_of_lt (by omega)]
  have hdecode := decodeTransportId_mid htid (pre ++ head) post
  rw [← List.append_assoc, List.append_assoc pre, ← hdescr, List.append_assoc,
    List.length_append, hhead, add_zero] at hdecode
  have hroom : ¬ (s.ppbuff + fulldescrSize > maxParamLen ∨ s.descriptors.length ≥ mxTids) := by
    rw [hs.ppbuff_eq, hs.length_eq]
    unfold fulldescrSize maxParamLen mxTids
    omega
  obtain ⟨tl, htl⟩ : ∃ tl, tl = if BitVec.ofNat 32 r.nexus.initiator.image.length + 24 +
      BitVec.ofNat 32 pre.length > BitVec.ofNat 32 n then
        BitVec.ofNat 32 n - BitVec.ofNat 32 pre.length - 24
      else BitVec.ofNat 32 r.nexus.initiator.image.length := ⟨_, rfl⟩
  obtain ⟨hlength, hnum, hnext⟩ := fullStatus_lengths (by omega) hn tl htl
  have hmin : min n ((r.nexus.initiator.image.length + 24 + pre.length) % 2 ^ 32) =
      pre.length + (t.statusDescriptor r).length := by
    unfold maxParamLen at hn
    rw [Nat.mod_eq_of_lt (by omega), Nat.min_eq_right (by omega)]
    omega
  rw [hmin] at hlength hnum hnext
  have htlInt : tl.toInt = r.nexus.initiator.image.length := by omega
  have hpos : tl > 0 := by
    by_contra hneg
    have hzero : tl = 0 := by simpa using hneg
    have hint : tl.toInt = 0 := by rw [hzero]; rfl
    omega
  have hread : ∀ {j : ℤ} {m : ℕ} {bs : List Byte}, slice (t.statusDescriptor r) j m = some bs →
      slice (pre ++ (t.statusDescriptor r ++ post)) (pre.length + j) m = some bs :=
    fun h => slice_mid h pre post
  have hstep : fullStatusStep (BitVec.ofNat 32 n) (pre ++ (t.statusDescriptor r ++ post)) s =
      some {
        k := s.k + BitVec.ofInt 32 (24 + tl).toInt
        p := s.p + (24 + tl).toInt
        fdesc := ⟨toBe 8 r.key.1.toNat, flag, scopeType, ofBe (toBe 2 r.nexus.target.toNat), tid⟩
        ppbuff := s.ppbuff + fulldescrSize
        descriptors := s.descriptors ++
          [⟨toBe 8 r.key.1.toNat, flag, scopeType, ofBe (toBe 2 r.nexus.target.toNat), tid⟩] } := by
    have hkey' := hread hkey
    rw [add_zero] at hkey'
    unfold fullStatusStep
    rw [hs.p_eq, hkey', Option.bind_some, hread hflag, Option.bind_some, hread hscope,
      Option.bind_some, hread hrtpi, Option.bind_some, hread hlen, Option.bind_some, hofBe, hs.k_eq]
    dsimp only
    rw [← htl, if_pos hpos, htlInt]
    push_cast at hdecode
    rw [hdecode, Option.bind_some, if_neg hroom]
    rfl
  refine ⟨_, _, hstep, ⟨rfl, _, htid⟩, rfl, ?_, ?_, ?_, ?_⟩
  · dsimp only
    rw [hs.k_eq, BitVec.ofInt_toInt, hnext, List.length_append]
  · dsimp only
    rw [hs.p_eq, hnum, List.length_append]
  · dsimp only
    rw [hs.ppbuff_eq]
    ring
  · rw [List.length_append, hs.length_eq, List.length_singleton]

/-- The rounds of the loop for some well-formed descriptors. -/
theorem fullStatusLoop_descriptors (t : Target) (rs : List Reg) (pre post : List Byte) {n c : ℕ}
    {s : FdState} (hn : n ≤ maxParamLen)
    (hend : pre.length + (rs.flatMap t.statusDescriptor).length ≤ n) (hs : s.At pre.length c)
    (hc : c + rs.length ≤ 30) (fuel : ℕ) :
    ∃ s' ds, fullStatusLoop (BitVec.ofNat 32 n) (pre ++ (rs.flatMap t.statusDescriptor ++ post))
        (rs.length + fuel) s =
          fullStatusLoop (BitVec.ofNat 32 n) (pre ++ (rs.flatMap t.statusDescriptor ++ post)) fuel s' ∧
      List.Forall₂ Describes rs ds ∧ s'.descriptors = s.descriptors ++ ds ∧
      s'.At (pre ++ rs.flatMap t.statusDescriptor).length (c + rs.length) := by
  induction rs generalizing pre s c with
  | nil => exact ⟨s, [], by simp, .nil, by simp, by simpa using hs⟩
  | cons r rs ih =>
    rw [List.flatMap_cons, List.length_append] at hend
    rw [List.length_cons] at hc
    obtain ⟨s₁, d, hstep, hd, hdescr, hat⟩ := fullStatusStep_descriptor t r
      (rs.flatMap t.statusDescriptor ++ post) hn (by omega) hs (by omega)
    obtain ⟨s', ds, hloop, hds, hdescrs, hat'⟩ := ih (pre ++ t.statusDescriptor r)
      (by rw [List.length_append]; omega) hat (by omega)
    have hlt : s.k < BitVec.ofNat 32 n := by
      have hlen := t.statusDescriptor_length r
      unfold maxParamLen at hn
      rw [hs.k_eq, BitVec.lt_def, BitVec.toNat_ofNat, BitVec.toNat_ofNat]
      omega
    refine ⟨s', d :: ds, ?_, .cons hd hds, ?_, ?_⟩
    · simp only [List.append_assoc] at hloop
      rw [List.length_cons, Nat.succ_add, fullStatusLoop, if_pos hlt, List.flatMap_cons,
        List.append_assoc, hstep]
      exact hloop
    · rw [hdescrs, hdescr, List.append_assoc, List.singleton_append]
    · rw [List.flatMap_cons, ← List.append_assoc, List.length_cons]
      have hsum : c + (rs.length + 1) = c + 1 + rs.length := by omega
      rw [hsum]
      exact hat'

theorem statusData_length_le (t : Target) (rs : List Reg) :
    (rs.flatMap t.statusDescriptor).length ≤ 272 * rs.length := by
  induction rs with
  | nil => exact le_rfl
  | cons r rs ih =>
    have hle := r.nexus.initiator.image_length.2
    rw [List.flatMap_cons, List.length_append, t.statusDescriptor_length, List.length_cons]
    omega

theorem le_statusData_length (t : Target) (rs : List Reg) :
    48 * rs.length ≤ (rs.flatMap t.statusDescriptor).length := by
  induction rs with
  | nil => exact le_rfl
  | cons r rs ih =>
    have hge := r.nexus.initiator.image_length.1
    rw [List.flatMap_cons, List.length_append, t.statusDescriptor_length, List.length_cons]
    omega

/-- The buffer begins with the descriptors of the first thirty registrations. -/
theorem fullStatus_buffer (t : Target) {rs rs' : List Reg} (h : t.regs = rs ++ rs')
    (hlen : rs.length ≤ 30) :
    ∃ post, t.fullStatus.privateBuffer = rs.flatMap t.statusDescriptor ++ post := by
  have hle := statusData_length_le t rs
  have htake : t.statusData.take (maxParamLen - 8) = rs.flatMap t.statusDescriptor ++
      (rs'.flatMap t.statusDescriptor).take (maxParamLen - 8 -
        (rs.flatMap t.statusDescriptor).length) := by
    unfold maxParamLen
    rw [Target.statusData, h, List.flatMap_append, List.take_append, List.take_of_length_le (by omega)]
  have hprefix : rs.flatMap t.statusDescriptor <+: t.fullStatus.privateBuffer := by
    show _ <+: (t.statusData.take (maxParamLen - 8) ++ List.replicate maxParamLen 0).take maxParamLen
    rw [htake, List.prefix_take_iff, List.append_assoc]
    refine ⟨List.prefix_append _ _, ?_⟩
    unfold maxParamLen
    omega
  obtain ⟨post, hpost⟩ := hprefix
  exact ⟨post, hpost.symm⟩

/-- Up to thirty descriptors are decoded; more of them overflow the reply, or their data are
refused as too long. -/
theorem mpathFormatReadfullstatus_fullStatus (t : Target) (hlen : t.statusData.length < 2 ^ 32) :
    (t.regs.length ≤ 30 → ∃ ds, mpathFormatReadfullstatus mxTids t.fullStatus =
        .returned (BitVec.ofNat 32 ds.length, ds) ∧ List.Forall₂ Describes t.regs ds) ∧
      (30 < t.regs.length → t.statusData.length ≤ maxParamLen →
        mpathFormatReadfullstatus mxTids t.fullStatus = .fault) ∧
      (maxParamLen < t.statusData.length → mpathFormatReadfullstatus mxTids t.fullStatus =
        .returned (BitVec.ofNat 32 t.statusData.length, [])) := by
  have hdata : t.statusData = t.regs.flatMap t.statusDescriptor := rfl
  have hle := statusData_length_le t t.regs
  have hge := le_statusData_length t t.regs
  rw [← hdata] at hle hge
  have hzero : t.fullStatus.additionalLength = 0 ↔ t.regs = [] := by
    rw [← BitVec.toNat_inj]
    show t.statusData.length % 2 ^ 32 = 0 ↔ _
    rw [Nat.mod_eq_of_lt hlen, ← List.length_eq_zero_iff]
    omega
  have hlong : t.fullStatus.additionalLength > BitVec.ofNat 32 maxParamLen ↔
      maxParamLen < t.statusData.length := by
    rw [gt_iff_lt, BitVec.lt_def]
    show maxParamLen % 2 ^ 32 < t.statusData.length % 2 ^ 32 ↔ _
    rw [Nat.mod_eq_of_lt hlen]
    rfl
  refine ⟨?_, ?_, ?_⟩
  · intro hn
    unfold mpathFormatReadfullstatus
    by_cases hnil : t.regs = []
    · rw [if_pos (hzero.mpr hnil), hnil]
      exact ⟨[], rfl, .nil⟩
    · have hshort : ¬ maxParamLen < t.statusData.length := by
        unfold maxParamLen
        omega
      rw [if_neg (mt hzero.mp hnil), if_neg (mt hlong.mp hshort)]
      obtain ⟨post, hbuf⟩ := fullStatus_buffer t (List.append_nil t.regs).symm hn
      obtain ⟨s', ds, hloop, hds, hdescrs, hat⟩ := fullStatusLoop_descriptors t t.regs [] post
        (Nat.le_of_not_lt hshort) (by rw [hdata, List.length_nil, Nat.zero_add]) FdState.At.start
        (by omega) (31 - t.regs.length + 1)
      have hfuel : t.regs.length + (31 - t.regs.length + 1) = mxTids := by
        unfold mxTids
        omega
      have hend : ¬ s'.k < BitVec.ofNat 32 t.statusData.length := by
        rw [hat.k_eq, List.nil_append, ← hdata]
        simp
      rw [List.nil_append, ← hbuf, hfuel, fullStatusLoop, if_neg hend] at hloop
      refine ⟨ds, ?_, hds⟩
      have hlength : t.fullStatus.additionalLength = BitVec.ofNat 32 t.statusData.length := rfl
      rw [hlength, hloop, hdescrs]
      rfl
  · intro hn hshort
    have hnil : t.regs ≠ [] := List.ne_nil_of_length_pos (by omega)
    unfold mpathFormatReadfullstatus
    rw [if_neg (mt hzero.mp hnil), if_neg (mt hlong.mp (by omega))]
    have hthirty : (t.regs.take 30).length = 30 := by
      rw [List.length_take]
      omega
    have hsplit : t.statusData = (t.regs.take 30).flatMap t.statusDescriptor ++
        (t.regs.drop 30).flatMap t.statusDescriptor := by
      rw [hdata, ← List.flatMap_append, List.take_append_drop]
    have hmore := le_statusData_length t (t.regs.drop 30)
    have htotal := congrArg List.length hsplit
    rw [List.length_drop] at hmore
    rw [List.length_append] at htotal
    obtain ⟨post, hbuf⟩ := fullStatus_buffer t (List.take_append_drop 30 t.regs).symm hthirty.le
    obtain ⟨s', ds, hloop, -, -, hat⟩ := fullStatusLoop_descriptors t (t.regs.take 30) [] post hshort
      (by rw [List.length_nil]; omega) FdState.At.start (by omega) 2
    have hlt : s'.k < BitVec.ofNat 32 t.statusData.length := by
      unfold maxParamLen at hshort
      rw [hat.k_eq, List.nil_append, BitVec.lt_def, BitVec.toNat_ofNat, BitVec.toNat_ofNat]
      omega
    have hfull : s'.ppbuff + fulldescrSize > maxParamLen := by
      rw [hat.ppbuff_eq, hthirty]
      decide
    have hfault : fullStatusLoop (BitVec.ofNat 32 t.statusData.length) t.fullStatus.privateBuffer 2
        s' = .fault := by
      rw [fullStatusLoop, if_pos hlt, fullStatusStep_full hfull]
    rw [List.nil_append, ← hbuf, hthirty, hfault] at hloop
    have hfuel : mxTids = 30 + 2 := rfl
    have hlength : t.fullStatus.additionalLength = BitVec.ofNat 32 t.statusData.length := rfl
    rw [hfuel, hlength, hloop]
  · intro hl
    have hnil : t.regs ≠ [] := by
      intro hnil
      rw [hdata, hnil] at hl
      simp at hl
    unfold mpathFormatReadfullstatus
    rw [if_neg (mt hzero.mp hnil), if_pos (hlong.mpr hl)]
    rfl

end MultipathTools.Persist
