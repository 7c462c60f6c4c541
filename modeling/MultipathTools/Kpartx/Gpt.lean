import MultipathTools.Base.Outcome
import MultipathTools.Kpartx.Disk

/-! GUID partition tables (`gpt.c`, `crc32.c`). -/
namespace MultipathTools.Kpartx

/-- A device, as the system calls present it. A read gives at most as many bytes as are asked for. -/
structure GptDevice where
  sectorSize : ℕ
  /-- `last_lba`, 0 on error. -/
  lastLba : BitVec 64
  /-- `lseek` succeeds. -/
  lseek : BitVec 64 → Bool
  /-- `read` at an offset, unless it returns -1. -/
  read : BitVec 64 → (n : ℕ) → Option {bs : List Byte // bs.length ≤ n}
  /-- `BLKGETLASTSECT` -/
  lastSector : (n : ℕ) → Option {bs : List Byte // bs.length ≤ n}
  /-- `posix_memalign` succeeds. -/
  malloc : ℕ → Bool
  forceGpt : Bool

variable (dev : GptDevice)

/-- `read_lba`: what it has put into the buffer, unless it returns 0. -/
def readLba (lba : BitVec 64) (bytes : ℕ) : Option (List Byte) :=
  if dev.lseek (lba * BitVec.ofNat 64 dev.sectorSize) then
    match dev.read (lba * BitVec.ofNat 64 dev.sectorSize) bytes with
    -- -1 is not 0
    | none => some []
    | some ⟨[], _⟩ =>
      if dev.lastLba ≠ 0 ∧ ¬ dev.lastLba.getLsbD 0 ∧ lba = dev.lastLba then
        (dev.lastSector bytes).map Subtype.val
      else none
    | some ⟨b :: bs, _⟩ => some (b :: bs)
  else none

/-- The size that `aligned_malloc` allocates. -/
def alignedSize (size : ℕ) : ℕ := (size + dev.sectorSize - 1) / dev.sectorSize * dev.sectorSize

/-- A buffer that is allocated with `aligned_malloc`, zeroed and filled by `read_lba`. -/
def allocRead (lba : BitVec 64) (size : ℕ) : Option (List Byte) :=
  if dev.sectorSize ≠ 0 ∧ dev.malloc (alignedSize dev size) then
    (readLba dev lba (alignedSize dev size)).map fun bs =>
      bs ++ List.replicate (alignedSize dev size - bs.length) 0
  else none

section Fields

/-- `GPT_HEADER_SIGNATURE` -/
def gptHeaderSignature : ℕ := 0x5452415020494645

/-- `sizeof (gpt_header)` -/
def sizeofGptHeader : ℕ := 512

/-- `sizeof (gpt_entry)` -/
def sizeofGptEntry : ℕ := 128

variable (gpt : List Byte)

def gptSignature : ℕ := le64 gpt 0
def headerSize : ℕ := le32 gpt 12
def headerCrc32 : ℕ := le32 gpt 16
def myLba : ℕ := le64 gpt 24
def alternateLba : ℕ := le64 gpt 32
def partitionEntryLba : ℕ := le64 gpt 72
def numPartitionEntries : ℕ := le32 gpt 80
def sizeofPartitionEntry : ℕ := le32 gpt 84
def partitionEntryArrayCrc32 : ℕ := le32 gpt 88

/-- The product of the number and the size of entries, in 32 bits. -/
def entriesCount : ℕ := numPartitionEntries gpt * sizeofPartitionEntry gpt % 2 ^ 32

/-- The header with 0 in the place of its checksum. -/
def withoutCrc : List Byte := gpt.take 16 ++ List.replicate 4 0 ++ gpt.drop 20

end Fields

section Crc

/-- One bit of `crc32_le`. -/
def crcBit (crc : BitVec 32) : BitVec 32 :=
  (crc >>> 1) ^^^ (if crc.getLsbD 0 then 0xedb88320 else 0)

/-- One byte of `crc32_le`. The table of the source has the results for the values of a byte. -/
def crcByte (crc : BitVec 32) (b : Byte) : BitVec 32 := crcBit^[8] (crc ^^^ b.zeroExtend 32)

/-- `efi_crc32` -/
def efiCrc32 (bs : List Byte) : BitVec 32 := bs.foldl crcByte (BitVec.allOnes 32) ^^^ BitVec.allOnes 32

end Crc

/-- `alloc_read_gpt_header` -/
def allocReadGptHeader (lba : BitVec 64) : Option (List Byte) := allocRead dev lba sizeofGptHeader

/-- `alloc_read_gpt_entries` -/
def allocReadGptEntries (gpt : List Byte) : Option (List Byte) :=
  if entriesCount gpt = 0 then none
  else allocRead dev (BitVec.ofNat 64 (partitionEntryLba gpt)) (entriesCount gpt)

/-- `is_gpt_valid`: the header and those bytes of the entries that the checksum covers. -/
def isGptValid (lba : BitVec 64) : Outcome (Option (List Byte × List Byte)) :=
  match allocReadGptHeader dev lba with
  | none => .done none
  | some gpt =>
    if gptSignature gpt ≠ gptHeaderSignature then .done none
    else
      (readAt (withoutCrc gpt) 0 (headerSize gpt)).bind fun header =>
        if (efiCrc32 header).toNat ≠ headerCrc32 gpt then .done none
        else if myLba gpt ≠ lba.toNat then .done none
        else if sizeofPartitionEntry gpt ≠ sizeofGptEntry then .done none
        else
          match allocReadGptEntries dev gpt with
          | none => .done none
          | some ptes =>
            (readAt ptes 0 (entriesCount gpt)).bind fun entries =>
              if (efiCrc32 entries).toNat ≠ partitionEntryArrayCrc32 gpt then .done none
              else .done (some (gpt, entries))

/-- `is_pmbr_valid`: the signature, and a partition of type 0xEE. -/
def isPmbrValid (mbr : List Byte) : Bool :=
  le16 mbr 510 = 0xaa55 ∧ (List.range 4).any fun i => u8 mbr (446 + 16 * i + 4) = 0xee

/-- The protective MBR in `find_valid_gpt`. The result of `read_lba` is not looked at. -/
def goodPmbr : Bool :=
  if dev.sectorSize ≠ 0 ∧ dev.malloc (alignedSize dev 512) then
    isPmbrValid (((readLba dev 0 (alignedSize dev 512)).getD []) ++ List.replicate 512 0)
  else false

/-- The alternate header in `find_valid_gpt`, for what was found at the primary one's place. -/
def findAlternate (primary : Option (List Byte × List Byte)) :
    Outcome (Option (List Byte × List Byte)) :=
  match primary with
  | some p =>
    (isGptValid dev (BitVec.ofNat 64 (alternateLba p.1))).bind fun alternate =>
      if alternate.isSome then .done alternate else isGptValid dev dev.lastLba
  | none => isGptValid dev dev.lastLba

/-- `find_valid_gpt` -/
def findValidGpt : Outcome (Option (List Byte × List Byte)) :=
  if dev.lastLba = 0 then .done none
  else
    (isGptValid dev 1).bind fun primary =>
      (findAlternate dev primary).bind fun alternate =>
        if primary.isNone ∧ alternate.isNone then .done none
        else if ¬ goodPmbr dev ∧ ¬ dev.forceGpt then .done none
        else .done (primary.or alternate)

/-- A turn of the loop in `read_gpt_pt`: entry `i`, which must be one that the checksum covers. There is
no slice for a null GUID. -/
def gptSlice (entries : List Byte) (i : ℕ) : Outcome (Option Slice) :=
  (readAt entries (sizeofGptEntry * i) sizeofGptEntry).bind fun pte =>
    if pte.take 16 = List.replicate 16 0 then .done none
    else
      .done <| some
        { start := dev.sectorSize / 512 * le64 pte 32 % 2 ^ 64
          size := dev.sectorSize / 512 * ((le64 pte 40 + 2 ^ 64 - le64 pte 32 + 1) % 2 ^ 64) % 2 ^ 64 }

/-- The loop in `read_gpt_pt`, for these entries. -/
def gptSlices (entries : List Byte) : List ℕ → Outcome (List (Option Slice))
  | [] => .done []
  | i :: is =>
    (gptSlice dev entries i).bind fun s =>
      (gptSlices entries is).bind fun sp => .done (s :: sp)

/-- `last_used_index + 1` -/
def usedSlices (sp : List (Option Slice)) : ℕ := (sp.reverse.dropWhile Option.isNone).length

/-- `read_gpt_pt`: the slices that it writes, and how many of them count. -/
def readGptPt (ns : ℕ) : Outcome (List Slice × ℕ) :=
  (findValidGpt dev).bind fun found =>
    match found with
    | none => .done ([], 0)
    | some (gpt, entries) =>
      (gptSlices dev entries (List.range (min (numPartitionEntries gpt) ns))).bind fun sp =>
        .done (sp.map (·.getD {}), usedSlices sp)

end MultipathTools.Kpartx
