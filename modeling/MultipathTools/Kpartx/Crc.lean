import MultipathTools.Base.Lfsr
import MultipathTools.Kpartx.GptInside

/-! The checksum of GUID partition tables: the table it is computed with, and the damage that it
shows (`crc32.c`, `gpt.c`). -/
namespace MultipathTools.Kpartx

/-- `CRCPOLY_LE` -/
def crcpolyLe : BitVec 32 := 0xedb88320

section Table

/-- `crc32init_le` for this `CRC_LE_BITS`, in the memory that `malloc` gave. -/
def crc32initLe (bits : ℕ) (mem : List (BitVec 32)) : List (BitVec 32) :=
  buildTable crcpolyLe bits bits 1#32 (mem.set 0 0#32)

/-- `crc = (crc >> bits) ^ crc32table_le[crc & ((1 << bits) - 1)]` -/
def crcShift (bits : ℕ) (table : List (BitVec 32)) (crc : BitVec 32) : BitVec 32 :=
  (crc >>> bits) ^^^ table.getD (crc.toNat % 2 ^ bits) 0#32

/-- A turn of the loop in `crc32_le`. With a table for whole bytes, the byte only goes into the index. -/
def crcTurn (bits : ℕ) (table : List (BitVec 32)) (crc : BitVec 32) (b : Byte) : BitVec 32 :=
  if bits = 8 then (crc >>> 8) ^^^ table.getD ((crc ^^^ b.zeroExtend 32).toNat % 256) 0#32
  else (crcShift bits table)^[8 / bits] (crc ^^^ b.zeroExtend 32)

/-- `crc32_le` -/
def crc32Le (bits : ℕ) (table : List (BitVec 32)) (crc : BitVec 32) (p : List Byte) : BitVec 32 :=
  p.foldl (crcTurn bits table) crc

theorem byte_ushiftRight (b : Byte) : b.zeroExtend 32 >>> 8 = 0#32 := by
  apply BitVec.eq_of_toNat_eq
  have hb := b.isLt
  rw [BitVec.toNat_ushiftRight, BitVec.toNat_setWidth, Nat.mod_eq_of_lt (by omega),
    Nat.shiftRight_eq_div_pow, Nat.div_eq_of_lt hb]
  rfl

variable {bits : ℕ} {mem : List (BitVec 32)}

theorem crcShift_crc32initLe (hbits : bits ≤ 32) (hmem : mem.length = 2 ^ bits) (crc : BitVec 32) :
    crcShift bits (crc32initLe bits mem) crc = (lfsr crcpolyLe)^[bits] crc :=
  (iterate_lfsr_eq_table crc fun _ hn => buildTable_getD hbits hmem hn).symm

theorem crcTurn_crc32initLe (hbits : bits ∣ 8) (hmem : mem.length = 2 ^ bits) (crc : BitVec 32)
    (b : Byte) : crcTurn bits (crc32initLe bits mem) crc b = crcByte crc b := by
  have hle : bits ≤ 8 := Nat.le_of_dvd (by norm_num) hbits
  have hshift : crcShift bits (crc32initLe bits mem) = (lfsr crcpolyLe)^[bits] :=
    funext (crcShift_crc32initLe (by omega) hmem)
  have hturn : crcTurn bits (crc32initLe bits mem) crc b =
      (crcShift bits (crc32initLe bits mem))^[8 / bits] (crc ^^^ b.zeroExtend 32) := by
    unfold crcTurn
    split
    · subst bits
      rw [Nat.div_self (by norm_num), Function.iterate_one, crcShift,
        BitVec.ushiftRight_xor_distrib, byte_ushiftRight, BitVec.xor_zero]
      rfl
    · rfl
  rw [hturn, hshift, ← Function.iterate_mul, Nat.mul_div_cancel' hbits]
  rfl

/-- With its table the loop computes the checksum bit by bit, for each size of the table and whatever
was in its memory before. -/
theorem crc32Le_crc32initLe (hbits : bits ∣ 8) (hmem : mem.length = 2 ^ bits) (crc : BitVec 32)
    (p : List Byte) : crc32Le bits (crc32initLe bits mem) crc p = p.foldl crcByte crc := by
  unfold crc32Le
  rw [funext₂ (crcTurn_crc32initLe hbits hmem)]

theorem crc32Le_crc32initLe_sample :
    crc32Le 8 (crc32initLe 8 (List.replicate 256 7#32)) 5#32 [1, 2] = [1, 2].foldl crcByte 5#32 :=
  crc32Le_crc32initLe ⟨1, rfl⟩ (List.length_replicate ..) 5#32 [1, 2]

end Table

section Damage

/-- The bits of a byte in the order in which they go into the checksum. -/
def byteBits (b : Byte) : List Bool := (List.range 8).map b.getLsbD

def bitsOf (bs : List Byte) : List Bool := bs.flatMap byteBits

theorem byteBits_length (b : Byte) : (byteBits b).length = 8 := by simp [byteBits]

theorem bitsOf_length (bs : List Byte) : (bitsOf bs).length = 8 * bs.length := by
  simp [bitsOf, List.length_flatMap, byteBits_length, Nat.mul_comm]

theorem bitsWord_byteBits (b : Byte) : bitsWord 32 (byteBits b) = b.zeroExtend 32 := by
  apply BitVec.eq_of_getLsbD_eq
  intro i hi
  rw [bitsWord_getLsbD, BitVec.getLsbD_setWidth]
  by_cases h8 : i < 8
  · simp [byteBits, h8]
  · rw [List.getD_eq_default _ _ (by rw [byteBits_length]; omega), BitVec.getLsbD_of_ge b i (by omega)]

theorem crcByte_eq_feed (crc : BitVec 32) (b : Byte) :
    crcByte crc b = feed crcpolyLe crc (byteBits b) := by
  rw [feed_eq_iterate (by rw [byteBits_length]; norm_num), byteBits_length, bitsWord_byteBits]
  rfl

theorem foldl_crcByte_eq_feed (crc : BitVec 32) (bs : List Byte) :
    bs.foldl crcByte crc = feed crcpolyLe crc (bitsOf bs) := by
  induction bs generalizing crc with
  | nil => rfl
  | cons b bs ih =>
    rw [List.foldl_cons, ih, crcByte_eq_feed]
    exact (feed_append crc (byteBits b) (bitsOf bs)).symm

theorem bitsOf_injective {bs cs : List Byte} (h : bitsOf bs = bitsOf cs) : bs = cs := by
  induction bs generalizing cs with
  | nil =>
    have hlen := congrArg List.length h
    rw [bitsOf_length, bitsOf_length, List.length_nil] at hlen
    exact (List.length_eq_zero_iff.mp (by omega)).symm
  | cons b bs ih =>
    cases cs with
    | nil =>
      have hlen := congrArg List.length h
      rw [bitsOf_length, bitsOf_length, List.length_nil, List.length_cons] at hlen
      omega
    | cons c cs =>
      obtain ⟨hbyte, hrest⟩ := List.append_inj (show byteBits b ++ bitsOf bs = byteBits c ++ bitsOf cs
        from h) (by rw [byteBits_length, byteBits_length])
      have hbc : b = c := by
        apply BitVec.eq_of_getLsbD_eq
        intro i hi
        exact List.map_inj_left.mp hbyte i (List.mem_range.mpr hi)
      rw [hbc, ih hrest]

/-- Bytes that differ in a burst of at most 32 bits have different checksums. -/
theorem eq_of_efiCrc32_eq {bs cs : List Byte} (hburst : BurstApart 32 (bitsOf bs) (bitsOf cs))
    (h : efiCrc32 bs = efiCrc32 cs) : bs = cs := by
  apply bitsOf_injective
  have hfeed : feed crcpolyLe (BitVec.allOnes 32) (bitsOf bs) =
      feed crcpolyLe (BitVec.allOnes 32) (bitsOf cs) := by
    rw [← foldl_crcByte_eq_feed, ← foldl_crcByte_eq_feed]
    exact (BitVec.xor_left_inj (BitVec.allOnes 32)).mp h
  exact eq_of_feed_eq (by decide) hburst hfeed

/-- The bytes of a header that its checksum covers. -/
def checkedHeader (gpt : List Byte) : List Byte := (withoutCrc gpt).take (headerSize gpt)

/-- Some bytes have become others, in a burst of at most 32 bits; there are as many as before. -/
def Damaged (bs cs : List Byte) : Prop := bs ≠ cs ∧ BurstApart 32 (bitsOf bs) (bitsOf cs)

theorem Damaged.efiCrc32_ne {bs cs : List Byte} (h : Damaged bs cs) : efiCrc32 bs ≠ efiCrc32 cs :=
  fun heq => h.1 (eq_of_efiCrc32_eq h.2 heq)

variable {dev dev' : GptDevice} {lba lba' : BitVec 64} {gpt gpt' ptes ptes' : List Byte}

theorem Accepted.not_damaged_header (h : Accepted dev lba gpt ptes) (h' : Accepted dev' lba' gpt' ptes')
    (hcrc : headerCrc32 gpt' = headerCrc32 gpt) :
    ¬ Damaged (checkedHeader gpt) (checkedHeader gpt') := by
  intro hdmg
  apply hdmg.efiCrc32_ne
  apply BitVec.eq_of_toNat_eq
  rw [checkedHeader, checkedHeader, h.headerCrc, h'.headerCrc, hcrc]

theorem Accepted.not_damaged_entries (h : Accepted dev lba gpt ptes)
    (h' : Accepted dev' lba' gpt' ptes')
    (hcrc : partitionEntryArrayCrc32 gpt' = partitionEntryArrayCrc32 gpt) :
    ¬ Damaged (ptes.take (entriesCount gpt)) (ptes'.take (entriesCount gpt')) := by
  intro hdmg
  apply hdmg.efiCrc32_ne
  apply BitVec.eq_of_toNat_eq
  rw [h.entriesCrc, h'.entriesCrc, hcrc]

/-- Where a header and its entries were valid, they are no longer found valid after damage to what one
of the two checksums covers, if that checksum itself is as before. What is covered has to be as long
as before: a header of another size is another text to its checksum. -/
theorem isGptValid_damaged {entries : List Byte}
    (hvalid : isGptValid dev lba = .done (some (gpt, entries)))
    (hgpt : allocReadGptHeader dev' lba' = some gpt')
    (hptes : allocReadGptEntries dev' gpt' = some ptes')
    (hdmg : (headerCrc32 gpt' = headerCrc32 gpt ∧ Damaged (checkedHeader gpt) (checkedHeader gpt')) ∨
      (partitionEntryArrayCrc32 gpt' = partitionEntryArrayCrc32 gpt ∧
        Damaged entries (ptes'.take (entriesCount gpt')))) :
    ∀ found, isGptValid dev' lba' ≠ .done (some found) := by
  intro found hfound
  have hacc : ∃ ptes, Accepted dev lba gpt ptes ∧ entries = ptes.take (entriesCount gpt) := by
    obtain ⟨-, h⟩ | ⟨-, g, p, hacc, h⟩ | ⟨-, -, h⟩ := isGptValid_cases dev lba <;> rw [hvalid] at h <;>
      cases h
    exact ⟨p, hacc, rfl⟩
  have hacc' : Accepted dev' lba' gpt' ptes' := by
    obtain ⟨-, h⟩ | ⟨-, g, p, hacc, h⟩ | ⟨-, -, h⟩ := isGptValid_cases dev' lba' <;> rw [hfound] at h <;>
      cases h
    obtain rfl : g = gpt' := Option.some_inj.mp (hacc.header.symm.trans hgpt)
    obtain rfl : p = ptes' := Option.some_inj.mp (hacc.read.symm.trans hptes)
    exact hacc
  obtain ⟨ptes, hacc, rfl⟩ := hacc
  obtain ⟨hcrc, hd⟩ | ⟨hcrc, hd⟩ := hdmg
  · exact hacc.not_damaged_header hacc' hcrc hd
  · exact hacc.not_damaged_entries hacc' hcrc hd

/-- A header for one entry of zeros, which lies in the next block. -/
def sampleHeader : List Byte :=
  [0x45, 0x46, 0x49, 0x20, 0x50, 0x41, 0x52, 0x54, 0, 0, 1, 0, 92, 0, 0, 0] ++ [0xd3, 0xce, 0x18, 0x9f] ++
    List.replicate 4 0 ++ [1] ++ List.replicate 7 0 ++ [9] ++ List.replicate 39 0 ++
    [2, 0, 0, 0, 0, 0, 0, 0, 1, 0, 0, 0, 128, 0, 0, 0] ++ [0x9d, 0xfa, 0xa8, 0xc2] ++ List.replicate 420 0

/-- A disk with this header and with such a first byte of the entry. -/
def sampleDevice (b : Byte) : GptDevice where
  sectorSize := 512
  lastLba := 100
  lseek _ := true
  read off n := some ⟨(if off = 512 then sampleHeader else b :: List.replicate 511 0).take n,
    List.length_take_le _ _⟩
  lastSector _ := none
  malloc _ := true
  forceGpt := false

theorem isGptValid_damaged_sample :
    ¬∃ found, isGptValid (sampleDevice 1) 1 = .done (some found) := by
  have hlost := @isGptValid_damaged (sampleDevice 0) (sampleDevice 1) 1 1 sampleHeader sampleHeader
    (1 :: List.replicate 511 0) (List.replicate 128 0) (by decide +kernel) (by decide +kernel)
    (by decide +kernel)
    (.inr ⟨rfl, by decide, [], [false], [true], List.replicate 1023 false, by decide +kernel⟩)
  exact not_exists.mpr hlost

end Damage

end MultipathTools.Kpartx
