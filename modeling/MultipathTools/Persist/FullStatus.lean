import MultipathTools.Persist.TransportId

/-! Decoding of a READ FULL STATUS response (`mpath_format_readfullstatus`). -/
namespace MultipathTools.Persist

/-- `MPATH_MX_TIDS`. -/
def mxTids : ℕ := 32

/-- `struct prin_fulldescr`. -/
structure Fulldescr where
  key : List Byte
  flag : Byte
  scopeType : Byte
  rtpi : ℕ
  trnptid : Transportid
  deriving DecidableEq

/-- `sizeof(struct prin_fulldescr)`. -/
def fulldescrSize : ℕ := 270

/-- A zeroed descriptor. -/
def Fulldescr.zero : Fulldescr :=
  ⟨List.replicate 8 0, 0, 0, 0, 0, 0, List.replicate 256 0, List.length_replicate⟩

/-- `struct print_fulldescr_list` as the device fills it: the additional length, in the byte
order of the host, and the bytes after it. -/
structure PrinReadfd where
  additionalLength : BitVec 32
  privateBuffer : List Byte
  privateBuffer_length : privateBuffer.length = maxParamLen

/-- The variables of the loop. `descriptors` are those written so far, `ppbuff` the offset of the
next one in the buffer of the reply. -/
structure FdState where
  k : BitVec 32 := 0
  p : ℤ := 0
  fdesc : Fulldescr := .zero
  ppbuff : ℕ := 0
  descriptors : List Fulldescr := []

/-- One round of the loop, `none` if it reads outside of `tempbuff`, writes outside of the buffer
of the reply or has no pointer left for the descriptor. -/
def fullStatusStep (additionalLength : BitVec 32) (tempbuff : List Byte) (s : FdState) :
    Option FdState :=
  (slice tempbuff s.p 8).bind fun key =>
  (slice tempbuff (s.p + 12) 1).bind fun flag =>
  (slice tempbuff (s.p + 13) 1).bind fun scopeType =>
  (slice tempbuff (s.p + 18) 2).bind fun rtpi =>
  (slice tempbuff (s.p + 20) 4).bind fun len =>
    let tidLenLen := BitVec.ofNat 32 (ofBe len)
    let tidLenLen := if tidLenLen + 24 + s.k > additionalLength then additionalLength - s.k - 24
      else tidLenLen
    let trnptid := if tidLenLen > 0 then
        decodeTransportId tempbuff s.fdesc.trnptid (s.p + 24) tidLenLen.toInt
      else some s.fdesc.trnptid
    trnptid.bind fun tid =>
      let fdesc : Fulldescr := ⟨key, flag.getD 0 0, scopeType.getD 0 0, ofBe rtpi, tid⟩
      let num := (24 + tidLenLen).toInt
      if s.ppbuff + fulldescrSize > maxParamLen ∨ s.descriptors.length ≥ mxTids then none
      else some {
        k := s.k + BitVec.ofInt 32 num
        p := s.p + num
        fdesc := fdesc
        ppbuff := s.ppbuff + fulldescrSize
        descriptors := s.descriptors ++ [fdesc] }

/-- What has become of a call after some rounds of its loop. -/
inductive Outcome (α : Type) where
  | running
  | fault
  | returned (a : α)
  deriving DecidableEq

def fullStatusLoop (additionalLength : BitVec 32) (tempbuff : List Byte) :
    ℕ → FdState → Outcome (List Fulldescr)
  | 0, _ => .running
  | fuel + 1, s =>
    if s.k < additionalLength then
      match fullStatusStep additionalLength tempbuff s with
      | none => .fault
      | some s => fullStatusLoop additionalLength tempbuff fuel s
    else .returned s.descriptors

/-- `mpath_format_readfullstatus`: the field `number_of_descriptor` and the descriptors. -/
def mpathFormatReadfullstatus (fuel : ℕ) (resp : PrinReadfd) :
    Outcome (BitVec 32 × List Fulldescr) :=
  if resp.additionalLength = 0 then .returned (0, [])
  else if resp.additionalLength > BitVec.ofNat 32 maxParamLen then
    .returned (resp.additionalLength, [])
  else
    match fullStatusLoop resp.additionalLength resp.privateBuffer fuel {} with
    | .running => .running
    | .fault => .fault
    | .returned ds => .returned (BitVec.ofNat 32 ds.length, ds)

/-- The call returns without leaving its buffers, with a descriptor for each pointer at most. -/
def Bounded (resp : PrinReadfd) : Prop :=
  ∃ fuel num ds, mpathFormatReadfullstatus fuel resp = .returned (num, ds) ∧ ds.length ≤ mxTids

section Chain
variable (buf : List Byte)

/-- The protocol identifier of the transport ID at `q`. -/
def protocolAt (q : ℕ) : Byte := buf.getD q 0 &&& 0xf

/-- The bytes of the name of the iSCSI transport ID at `q`, of which 256 are taken at most. -/
def iscsiLengthAt (q : ℕ) : ℕ := min 256 (ofBe ((buf.drop (q + 2)).take 2))

/-- The end of what is used of the transport ID at `q`. -/
def tidEnd (q : ℕ) : ℕ :=
  if protocolAt buf q = protocolIdFc then q + 16
  else if protocolAt buf q = protocolIdIscsi then q + 4 + iscsiLengthAt buf q
  else if protocolAt buf q = protocolIdSas then q + 12
  else q + 1

/-- The position of the transport ID after the one at `q`. -/
def nextTid (q : ℕ) : ℕ :=
  if protocolAt buf q = protocolIdIscsi then q + max 24 (iscsiLengthAt buf q + 4) else q + 24

/-- The transport IDs from `q` up to `e` are inside the buffer. -/
inductive TidsInside (e : ℕ) : ℕ → Prop where
  | done {q : ℕ} (h : e ≤ q) : TidsInside e q
  | tid {q : ℕ} (h : q < e) (hend : tidEnd buf q ≤ buf.length)
      (hnext : TidsInside e (nextTid buf q)) : TidsInside e q

/-- The position after the status descriptor at `k`: where its additional length says, modulo
`2 ^ 32`, or the end of the data if that is farther. -/
def nextDescr (n k : ℕ) : ℕ := min n ((ofBe ((buf.drop (k + 20)).take 4) + 24 + k) % 2 ^ 32)

/-- The data from position `k` up to `n` are a chain of `m` status descriptors inside the
buffer. -/
inductive Chain (n : ℕ) : ℕ → ℕ → Prop where
  | done : Chain n n 0
  | descr {k m : ℕ} (h : k < n) (hhead : k + 24 ≤ buf.length)
      (htids : TidsInside buf (nextDescr buf n k) (k + 24))
      (hnext : Chain n (nextDescr buf n k) m) : Chain n k (m + 1)

theorem lt_tidEnd (q : ℕ) : q < tidEnd buf q := by
  unfold tidEnd
  split_ifs <;> omega

variable {buf}

/-- Bytes that are inside the buffer and not too many are copied into the union. -/
theorem slice_memcpy (name : TidName) {q n : ℕ} (hn : n ≤ 256) (h : q + n ≤ buf.length) :
    ∃ bs new, slice buf q n = some bs ∧ name.memcpy bs = some new := by
  have hlen : ((buf.drop q).take n).length ≤ 256 := by
    rw [List.length_take]
    omega
  rw [slice_natCast (.inr (by omega)), if_pos h]
  exact ⟨_, _, rfl, dif_pos hlen⟩

theorem slice_none {q n : ℕ} (hn : n ≠ 0) (h : buf.length < q + n) : slice buf q n = none := by
  rw [slice_natCast (.inl hn), if_neg (by omega)]

theorem slice_first {q : ℕ} (h : q < buf.length) :
    ∃ b, slice buf q 1 = some b ∧ b.getD 0 0 = buf.getD q 0 := by
  rw [slice_natCast (.inl (by omega)), if_pos (by omega)]
  exact ⟨_, rfl, by simp [List.getD_eq_getElem?_getD]⟩

/-- The two bytes of the length of an iSCSI name. -/
theorem slice_length_field {q : ℕ} (h : q + 4 ≤ buf.length) :
    ∃ len, slice buf (q + 2 : ℕ) 2 = some len ∧
      (if ofBe len ≥ 256 then 256 else ofBe len) = iscsiLengthAt buf q := by
  rw [slice_natCast (.inl (by omega)), if_pos (by omega)]
  refine ⟨_, rfl, ?_⟩
  unfold iscsiLengthAt
  split <;> omega

/-- The decoder reads a transport ID that is inside the buffer and goes on to the next one. -/
theorem decodeTid_some (tid : Transportid) {q : ℕ} (h : tidEnd buf q ≤ buf.length) :
    ∃ new jump, decodeTid buf tid q = some (new, jump) ∧ q + jump = nextTid buf q := by
  obtain ⟨b, hb, hget⟩ := slice_first ((lt_tidEnd buf q).trans_le h)
  have hcast : ∀ i : ℕ, (q : ℤ) + i = (q + i : ℕ) := fun i => (Nat.cast_add q i).symm
  unfold tidEnd protocolAt at h
  unfold decodeTid nextTid protocolAt
  rw [hb, Option.bind_some, hget]
  dsimp only
  split_ifs at h ⊢ with hfc hiscsi hsas <;> try omega
  · rw [hfc] at hiscsi
    cases hiscsi
  · obtain ⟨bs, new, hbs, hnew⟩ := slice_memcpy tid.name (q := q + 8) (n := 8) (by omega) h
    rw [show (q : ℤ) + 8 = (q + 8 : ℕ) from hcast 8, hbs, Option.bind_some, hnew]
    exact ⟨_, _, rfl, rfl⟩
  · have hq4 : q + 4 ≤ buf.length := by omega
    obtain ⟨len, hlen, hnum⟩ := slice_length_field hq4
    have hle : iscsiLengthAt buf q ≤ 256 := Nat.min_le_left _ _
    obtain ⟨bs, new, hbs, hnew⟩ := slice_memcpy tid.name (q := q + 4) hle h
    rw [show (q : ℤ) + 2 = (q + 2 : ℕ) from hcast 2, hlen, Option.bind_some, hnum,
      show (q : ℤ) + 4 = (q + 4 : ℕ) from hcast 4, hbs, Option.bind_some, hnew]
    refine ⟨_, _, rfl, ?_⟩
    split <;> omega
  · obtain ⟨bs, new, hbs, hnew⟩ := slice_memcpy tid.name (q := q + 4) (n := 8) (by omega) h
    rw [show (q : ℤ) + 4 = (q + 4 : ℕ) from hcast 4, hbs, Option.bind_some, hnew]
    exact ⟨_, _, rfl, rfl⟩
  · exact ⟨_, _, rfl, rfl⟩

/-- The decoder leaves the buffer with a transport ID that does. -/
theorem decodeTid_none (tid : Transportid) {q : ℕ} (h : buf.length < tidEnd buf q) :
    decodeTid buf tid q = none := by
  have hcast : ∀ i : ℕ, (q : ℤ) + i = (q + i : ℕ) := fun i => (Nat.cast_add q i).symm
  by_cases hq : q < buf.length
  · obtain ⟨b, hb, hget⟩ := slice_first hq
    unfold tidEnd protocolAt at h
    unfold decodeTid
    rw [hb, Option.bind_some, hget]
    dsimp only
    split_ifs at h ⊢ with hfc hiscsi hsas
    · rw [show (q : ℤ) + 8 = (q + 8 : ℕ) from hcast 8, slice_none (by omega) (by omega),
        Option.bind_none]
    · rw [show (q : ℤ) + 2 = (q + 2 : ℕ) from hcast 2, show (q : ℤ) + 4 = (q + 4 : ℕ) from hcast 4]
      by_cases hq4 : q + 4 ≤ buf.length
      · obtain ⟨len, hlen, hnum⟩ := slice_length_field hq4
        have hzero : iscsiLengthAt buf q ≠ 0 := by omega
        rw [hlen, Option.bind_some, hnum, slice_none hzero h, Option.bind_none]
      · rw [slice_none (by omega) (by omega), Option.bind_none]
    · rw [show (q : ℤ) + 4 = (q + 4 : ℕ) from hcast 4, slice_none (by omega) (by omega),
        Option.bind_none]
    · omega
  · rw [decodeTid, slice_none (by omega) (by omega), Option.bind_none]

/-- The decoder stays inside the buffer iff the transport IDs do. -/
theorem decodeTransportId_isSome_iff (tid : Transportid) (q : ℕ) (length : ℤ) :
    (decodeTransportId buf tid q length).isSome = true ↔
      TidsInside buf (q + length).toNat q := by
  induction hn : length.toNat using Nat.strong_induction_on generalizing tid q length with
  | _ n ih =>
    by_cases hpos : 0 < length
    · rw [decodeTransportId_of_pos hpos]
      by_cases hend : tidEnd buf q ≤ buf.length
      · obtain ⟨new, jump, hd, hnext⟩ := decodeTid_some tid hend
        have hjump := decodeTid_jump hd
        have hpos' : (q : ℤ) + jump = (nextTid buf q : ℕ) := by
          rw [← hnext]
          push_cast
          rfl
        have htotal : ((nextTid buf q : ℕ) : ℤ) + (length - jump) = q + length := by omega
        have hrec := ih (length - jump).toNat (by omega) new (nextTid buf q) (length - jump) rfl
        rw [htotal] at hrec
        rw [hd, Option.bind_some, hpos', hrec]
        constructor
        · intro h
          exact .tid (by omega) hend h
        · intro h
          cases h with
          | done h => omega
          | tid _ _ h => exact h
      · rw [decodeTid_none tid (by omega), Option.bind_none]
        apply iff_of_false (by simp)
        intro h
        cases h with
        | done h => omega
        | tid _ hend' _ => exact hend hend'
    · rw [decodeTransportId_of_nonpos (by omega)]
      exact iff_of_true rfl (.done (by omega))

end Chain

theorem toInt_sub_ofNat {a b : ℕ} (ha : a ≤ 16384) (hb : b ≤ 16384) :
    (BitVec.ofNat 32 a - BitVec.ofNat 32 b).toInt = a - b := by
  rw [BitVec.toInt_sub, BitVec.toInt_ofNat', BitVec.toInt_ofNat', Int.bmod_sub_bmod,
    Int.sub_bmod_bmod, Int.bmod_eq_of_le]
  · omega
  · omega

/-- The numbers that a round computes from the additional length `t` of its descriptor. -/
theorem fullStatus_lengths {n k t : ℕ} (hk : k < n) (hn : n ≤ maxParamLen)
    (tl : BitVec 32)
    (htl : tl = if BitVec.ofNat 32 t + 24 + BitVec.ofNat 32 k > BitVec.ofNat 32 n then
      BitVec.ofNat 32 n - BitVec.ofNat 32 k - 24 else BitVec.ofNat 32 t) :
    (k + 24 : ℤ) + tl.toInt = (min n ((t + 24 + k) % 2 ^ 32) : ℕ) ∧
      (k : ℤ) + (24 + tl).toInt = (min n ((t + 24 + k) % 2 ^ 32) : ℕ) ∧
      BitVec.ofNat 32 k + (24 + tl) = BitVec.ofNat 32 (min n ((t + 24 + k) % 2 ^ 32)) := by
  unfold maxParamLen at hn
  have hsum : BitVec.ofNat 32 t + 24 + BitVec.ofNat 32 k
      = BitVec.ofNat 32 ((t + 24 + k) % 2 ^ 32) := by
    apply BitVec.eq_of_toNat_eq
    simp
  have hgt : BitVec.ofNat 32 t + 24 + BitVec.ofNat 32 k > BitVec.ofNat 32 n ↔
      n < (t + 24 + k) % 2 ^ 32 := by
    rw [hsum, gt_iff_lt, BitVec.lt_def, BitVec.toNat_ofNat, BitVec.toNat_ofNat,
      Nat.mod_eq_of_lt (by omega : n < 2 ^ 32), Nat.mod_mod]
  have hhead : BitVec.ofNat 32 (k + 24) = BitVec.ofNat 32 k + 24 := BitVec.ofNat_add k 24
  have hdiff : tl = BitVec.ofNat 32 (min n ((t + 24 + k) % 2 ^ 32)) - BitVec.ofNat 32 (k + 24) := by
    rw [htl]
    by_cases h : n < (t + 24 + k) % 2 ^ 32
    · rw [if_pos (hgt.mpr h), Nat.min_eq_left h.le, hhead]
      ring
    · rw [if_neg (mt hgt.mp h), Nat.min_eq_right (by omega), ← hsum, hhead]
      ring
  have hnext : min n ((t + 24 + k) % 2 ^ 32) ≤ n := Nat.min_le_left _ _
  generalize min n ((t + 24 + k) % 2 ^ 32) = next at hdiff hnext ⊢
  have hnum : 24 + tl = BitVec.ofNat 32 next - BitVec.ofNat 32 k := by
    rw [hdiff, hhead]
    ring
  refine ⟨?_, ?_, ?_⟩
  · rw [hdiff, toInt_sub_ofNat (by omega) (by omega)]
    push_cast
    ring
  · rw [hnum, toInt_sub_ofNat (by omega) (by omega)]
    ring
  · rw [hnum]
    ring
/-- The loop is at position `k`, with `c` descriptors written. -/
structure FdState.At (s : FdState) (k c : ℕ) : Prop where
  k_eq : s.k = BitVec.ofNat 32 k
  p_eq : s.p = k
  ppbuff_eq : s.ppbuff = fulldescrSize * c
  length_eq : s.descriptors.length = c

theorem FdState.At.start : FdState.At {} 0 0 := ⟨rfl, rfl, rfl, rfl⟩

theorem ofNat_toNat (x : BitVec 32) : BitVec.ofNat 32 x.toNat = x := by simp

theorem PrinReadfd.toNat_le {resp : PrinReadfd}
    (h : ¬ resp.additionalLength > BitVec.ofNat 32 maxParamLen) :
    resp.additionalLength.toNat ≤ maxParamLen := by
  unfold maxParamLen at h ⊢
  rw [gt_iff_lt, BitVec.lt_def] at h
  simpa using h

section Loop
variable {buf : List Byte} {n k c : ℕ} {s : FdState}

/-- A length of zero makes no difference to the decoder. -/
theorem decode_isSome_iff (tid : Transportid) {tl : BitVec 32} {next : ℕ}
    (h : (k + 24 : ℤ) + tl.toInt = next) :
    (if tl > 0 then decodeTransportId buf tid (k + 24) tl.toInt else some tid).isSome = true ↔
      TidsInside buf next (k + 24) := by
  have hpos : (k : ℤ) + 24 = (k + 24 : ℕ) := rfl
  rw [hpos] at h ⊢
  split
  · rw [decodeTransportId_isSome_iff, h]
    rfl
  · rename_i hzero
    have htl : tl = 0 := by simpa using hzero
    have hint : tl.toInt = 0 := by rw [htl]; rfl
    exact iff_of_true rfl (.done (by omega))

/-- What a round of the loop has done, and what it needed. -/
theorem fullStatusStep_some {s' : FdState} (hk : k < n) (hn : n ≤ maxParamLen) (hs : s.At k c)
    (h : fullStatusStep (BitVec.ofNat 32 n) buf s = some s') :
    k + 24 ≤ buf.length ∧ TidsInside buf (nextDescr buf n k) (k + 24) ∧ c < 30 ∧
      s'.At (nextDescr buf n k) (c + 1) := by
  unfold fullStatusStep at h
  rw [hs.k_eq, hs.p_eq, hs.ppbuff_eq, hs.length_eq] at h
  obtain ⟨key, -, h⟩ := Option.bind_eq_some_iff.mp h
  obtain ⟨flag, -, h⟩ := Option.bind_eq_some_iff.mp h
  obtain ⟨scopeType, -, h⟩ := Option.bind_eq_some_iff.mp h
  obtain ⟨rtpi, -, h⟩ := Option.bind_eq_some_iff.mp h
  obtain ⟨len, hlen, h⟩ := Option.bind_eq_some_iff.mp h
  rw [show (k : ℤ) + 20 = (k + 20 : ℕ) from rfl, slice_natCast (.inl (by omega))] at hlen
  split at hlen
  case isFalse => cases hlen
  rename_i hhead
  cases hlen
  obtain ⟨tid, htid, h⟩ := Option.bind_eq_some_iff.mp h
  obtain ⟨hlength, hnum, hnext⟩ := fullStatus_lengths (t := ofBe ((buf.drop (k + 20)).take 4)) hk hn
    _ rfl
  have hinside := (decode_isSome_iff s.fdesc.trnptid hlength).mp (Option.isSome_of_mem htid)
  by_cases hroom : fulldescrSize * c + fulldescrSize > maxParamLen ∨ c ≥ mxTids
  · rw [if_pos hroom] at h
    cases h
  rw [if_neg hroom] at h
  cases h
  unfold fulldescrSize maxParamLen at hroom
  refine ⟨hhead, hinside, by omega, ?_, hnum, ?_, ?_⟩
  · dsimp only
    rw [BitVec.ofInt_toInt]
    exact hnext
  · dsimp only
    ring
  · rw [List.length_append, hs.length_eq, List.length_singleton]

/-- A round of the loop is done where the descriptor is inside and has room in the reply. -/
theorem fullStatusStep_isSome (hk : k < n) (hn : n ≤ maxParamLen) (hs : s.At k c)
    (hhead : k + 24 ≤ buf.length) (htids : TidsInside buf (nextDescr buf n k) (k + 24))
    (hc : c < 30) : (fullStatusStep (BitVec.ofNat 32 n) buf s).isSome = true := by
  have hread : ∀ i m : ℕ, i + m ≤ 24 → m ≠ 0 →
      slice buf ((k : ℤ) + i) m = some ((buf.drop (k + i)).take m) := by
    intro i m him hm
    rw [show (k : ℤ) + i = (k + i : ℕ) from rfl, slice_natCast (.inl hm), if_pos (by omega)]
  obtain ⟨hlength, -, -⟩ := fullStatus_lengths (t := ofBe ((buf.drop (k + 20)).take 4)) hk hn _ rfl
  have hdecode := (decode_isSome_iff s.fdesc.trnptid hlength).mpr htids
  obtain ⟨tid, htid⟩ := Option.isSome_iff_exists.mp hdecode
  unfold fullStatusStep
  rw [hs.k_eq, hs.p_eq, hs.ppbuff_eq, hs.length_eq]
  have hkey := hread 0 8 (by omega) (by omega)
  rw [Nat.cast_zero, add_zero] at hkey
  have hroom : ¬ (fulldescrSize * c + fulldescrSize > maxParamLen ∨ c ≥ mxTids) := by
    unfold fulldescrSize maxParamLen mxTids
    omega
  rw [hkey, Option.bind_some, show (k : ℤ) + 12 = (k : ℤ) + (12 : ℕ) from rfl,
    hread 12 1 (by omega) (by omega), Option.bind_some,
    show (k : ℤ) + 13 = (k : ℤ) + (13 : ℕ) from rfl, hread 13 1 (by omega) (by omega),
    Option.bind_some, show (k : ℤ) + 18 = (k : ℤ) + (18 : ℕ) from rfl,
    hread 18 2 (by omega) (by omega), Option.bind_some,
    show (k : ℤ) + 20 = (k : ℤ) + (20 : ℕ) from rfl, hread 20 4 (by omega) (by omega),
    Option.bind_some]
  dsimp only
  rw [htid, Option.bind_some, if_neg hroom]
  rfl

/-- The loop returns if it is at the start of a chain that the reply has room for. -/
theorem fullStatusLoop_of_chain {m : ℕ} (hn : n ≤ maxParamLen) (hs : s.At k c)
    (h : Chain buf n k m) (hm : c + m ≤ 30) :
    ∃ fuel ds, fullStatusLoop (BitVec.ofNat 32 n) buf fuel s = .returned ds ∧ ds.length ≤ 30 := by
  induction h generalizing s c with
  | done =>
    refine ⟨1, s.descriptors, ?_, ?_⟩
    · simp [fullStatusLoop, hs.k_eq]
    · rw [hs.length_eq]
      omega
  | @descr k m hk hhead htids _ ih =>
    obtain ⟨s', hs'⟩ := Option.isSome_iff_exists.mp
      (fullStatusStep_isSome hk hn hs hhead htids (by omega))
    obtain ⟨-, -, -, hat⟩ := fullStatusStep_some hk hn hs hs'
    obtain ⟨fuel, ds, hds, hlen⟩ := ih hat (by omega)
    have hlt : s.k < BitVec.ofNat 32 n := by
      unfold maxParamLen at hn
      rw [hs.k_eq, BitVec.lt_def, BitVec.toNat_ofNat, BitVec.toNat_ofNat]
      omega
    refine ⟨fuel + 1, ds, ?_, hlen⟩
    rw [fullStatusLoop, if_pos hlt, hs']
    exact hds

/-- The loop returns only from the start of such a chain. -/
theorem chain_of_fullStatusLoop {fuel : ℕ} {ds : List Fulldescr} (hn : n ≤ maxParamLen)
    (hkn : k ≤ n) (hc : c ≤ 30) (hs : s.At k c)
    (h : fullStatusLoop (BitVec.ofNat 32 n) buf fuel s = .returned ds) :
    ∃ m, Chain buf n k m ∧ c + m ≤ 30 := by
  induction fuel generalizing s k c with
  | zero => cases h
  | succ fuel ih =>
    rw [fullStatusLoop] at h
    have hlt : s.k < BitVec.ofNat 32 n ↔ k < n := by
      unfold maxParamLen at hn
      rw [hs.k_eq, BitVec.lt_def, BitVec.toNat_ofNat, BitVec.toNat_ofNat]
      omega
    by_cases hk : k < n
    · rw [if_pos (hlt.mpr hk)] at h
      cases hstep : fullStatusStep (BitVec.ofNat 32 n) buf s with
      | none =>
        rw [hstep] at h
        cases h
      | some s' =>
        rw [hstep] at h
        obtain ⟨hhead, htids, hc', hat⟩ := fullStatusStep_some hk hn hs hstep
        obtain ⟨m, hm, hle⟩ := ih (Nat.min_le_left _ _) (by omega) hat h
        exact ⟨m + 1, .descr hk hhead htids hm, by omega⟩
    · obtain rfl : k = n := by omega
      exact ⟨0, .done, by omega⟩

end Loop

/-- A response that is decoded at all is a chain that the reply has room for. -/
theorem chain_of_bounded {resp : PrinReadfd} (hzero : resp.additionalLength ≠ 0)
    (hlong : ¬ resp.additionalLength > BitVec.ofNat 32 maxParamLen) (h : Bounded resp) :
    ∃ m ≤ 30, Chain resp.privateBuffer resp.additionalLength.toNat 0 m := by
  obtain ⟨fuel, num, ds, hret, -⟩ := h
  rw [mpathFormatReadfullstatus, if_neg hzero, if_neg hlong] at hret
  cases hloop : fullStatusLoop resp.additionalLength resp.privateBuffer fuel {} with
  | running =>
    rw [hloop] at hret
    cases hret
  | fault =>
    rw [hloop] at hret
    cases hret
  | returned ds' =>
    have hn : resp.additionalLength.toNat ≤ maxParamLen := PrinReadfd.toNat_le hlong
    rw [← ofNat_toNat resp.additionalLength] at hloop
    obtain ⟨m, hm, hle⟩ := chain_of_fullStatusLoop hn (Nat.zero_le _) (Nat.zero_le _) .start hloop
    exact ⟨m, by omega, hm⟩

/-- A response is decoded within all bounds exactly if it is empty, or refused as too long, or its
data are a chain of at most thirty status descriptors, each with its header and its transport IDs
inside the buffer. -/
theorem bounded_iff (resp : PrinReadfd) :
    Bounded resp ↔
      resp.additionalLength = 0 ∨ resp.additionalLength > BitVec.ofNat 32 maxParamLen ∨
        ∃ m ≤ 30, Chain resp.privateBuffer resp.additionalLength.toNat 0 m := by
  constructor
  · intro h
    by_cases hzero : resp.additionalLength = 0
    · exact .inl hzero
    by_cases hlong : resp.additionalLength > BitVec.ofNat 32 maxParamLen
    · exact .inr (.inl hlong)
    exact .inr (.inr (chain_of_bounded hzero hlong h))
  · intro h
    unfold Bounded mpathFormatReadfullstatus
    by_cases hzero : resp.additionalLength = 0
    · exact ⟨0, 0, [], by rw [if_pos hzero], Nat.zero_le _⟩
    by_cases hlong : resp.additionalLength > BitVec.ofNat 32 maxParamLen
    · exact ⟨0, _, [], by rw [if_neg hzero, if_pos hlong], Nat.zero_le _⟩
    obtain ⟨m, hle, hm⟩ := (h.resolve_left hzero).resolve_left hlong
    obtain ⟨fuel, ds, hds, hlen⟩ :=
      fullStatusLoop_of_chain (PrinReadfd.toNat_le hlong) .start hm (by omega)
    rw [ofNat_toNat] at hds
    refine ⟨fuel, _, ds, by rw [if_neg hzero, if_neg hlong, hds], ?_⟩
    unfold mxTids
    omega

/-- A descriptor that the loop does not get past is in no chain. -/
theorem not_chain_of_stuck {buf : List Byte} {n k : ℕ} (hk : k < n)
    (hstuck : nextDescr buf n k = k) (m : ℕ) : ¬ Chain buf n k m := by
  intro h
  induction m with
  | zero =>
    cases h
    omega
  | succ m ih =>
    cases h with
    | descr _ _ _ hnext =>
      rw [hstuck] at hnext
      exact ih hnext

/-- One descriptor whose additional length is `2 ^ 32 - 24`. -/
def stuckResponse : PrinReadfd where
  additionalLength := 24
  privateBuffer := List.replicate 20 0 ++ [0xff, 0xff, 0xff, 0xe8] ++ List.replicate 8168 0
  privateBuffer_length := by
    rw [List.length_append, List.length_append, List.length_replicate, List.length_replicate]
    rfl

/-- The loop writes this descriptor again and again until it leaves the reply. -/
theorem bounded_stuckResponse_fails : ¬ ∀ resp, Bounded resp := by
  intro h
  obtain ⟨m, -, hm⟩ := chain_of_bounded (by decide) (by decide) (h stuckResponse)
  exact not_chain_of_stuck (by decide) (by decide) m hm

end MultipathTools.Persist
