import MultipathTools.Kpartx.Disk

/-! BSD and Sun disk labels: their slices, and which of them lie in others (`bsd.c`, `sun.c`). The
array that kpartx passes is zeroed. -/
namespace MultipathTools.Kpartx

/-- `sp[i]` -/
def slot (sp : List Slice) (i : ℕ) : Slice := sp.getD i {}

/-- A turn of the inner loop, at slice `j`. `last` is the sum of start and size of slice `i` in 32
bits. -/
def containTurn (i last : ℕ) (sp : List Slice) (j : ℕ) : List Slice :=
  let si := slot sp i
  let sj := slot sp j
  if i = j then sp
  else if sj.size = 0 then sp
  else if si.start < sj.start then
    if sj.start < last ∧ last < sj.start + sj.size then sp.set i { si with size := 0 } else sp
  else if last ≤ sj.start + sj.size then sp.set i { si with container := j + 1 }
  else sp

/-- A turn of the outer loop, at slice `i`. -/
def containSlice (n : ℕ) (sp : List Slice) (i : ℕ) : List Slice :=
  let si := slot sp i
  if si.size = 0 then sp
  else (List.range n).foldl (containTurn i ((si.start + si.size) % 2 ^ 32)) sp

/-- The check for contained slices. -/
def containSlices (n : ℕ) (sp : List Slice) : List Slice := (List.range n).foldl (containSlice n) sp

section Bsd

/-- `BSD_DISKMAGIC` -/
def bsdDiskmagic : ℕ := 0x82564557

/-- The label in the second block, or at byte 64 of the first one. -/
def bsdDisklabel (disk : Disk) (offset : BitVec 32) : Option (List Byte) :=
  (disk (offset + 1)).bind fun bp =>
    if le32 bp.1 0 = bsdDiskmagic then some bp.1
    else
      (disk offset).bind fun bp =>
        if le32 (bp.1.drop 64) 0 = bsdDiskmagic then some (bp.1.drop 64) else none

/-- `d_npartitions` -/
def dNpartitions (l : List Byte) : ℕ := le16 l 138

/-- The position of `d_partitions[k]`, whose members are `p_size`, `p_offset`, `p_fsize` and
`p_fstype`. -/
def dPartitions (k : ℕ) : ℕ := 148 + 16 * k

/-- The slices of a BSD label that are in use, up to the number that the array holds. -/
def bsdSlices (l : List Byte) (ns : ℕ) : List Slice :=
  (((List.range (min 16 (dNpartitions l))).filter fun k => u8 l (dPartitions k + 12) ≠ 0).take ns).map
    fun k => { start := le32 l (dPartitions k + 4), size := le32 l (dPartitions k) }

/-- `read_bsd_pt`; the number of slices is that of the list. -/
def readBsdPt (disk : Disk) (offset : BitVec 32) (ns : ℕ) : Option (List Slice) :=
  (bsdDisklabel disk offset).map fun l =>
    let sp := bsdSlices l ns
    containSlices sp.length sp

end Bsd

section Sun

/-- `SUN_DISK_MAGIC` -/
def sunDiskMagic : ℕ := 0xDABE

/-- `SUN_DISK_MAXPARTITIONS` -/
def sunDiskMaxpartitions : ℕ := 8

/-- `sun_verify_checksum` -/
def sunVerifyChecksum (l : List Byte) : Bool :=
  (List.range 256).foldr (fun k csum => csum ^^^ le16 l (2 * k)) 0 = 0

def sunDiskLabel (disk : Disk) (offset : BitVec 32) : Option (List Byte) :=
  (disk offset).bind fun bp =>
    if be16 bp.1 508 = sunDiskMagic ∧ sunVerifyChecksum bp.1 then some bp.1 else none

/-- The slices of a Sun label, from `partitions`, `nsect` and `ntrks`, in 32 bits. -/
def sunSlices (l : List Byte) (offset : BitVec 32) (ns : ℕ) : List Slice :=
  ((List.range sunDiskMaxpartitions).take ns).map fun i =>
    { start := (offset.toNat + be32 l (444 + 8 * i) * be16 l 438 * be16 l 436) % 2 ^ 32
      size := be32 l (448 + 8 * i) }

/-- `read_sun_pt`; the number of slices is that of the list. -/
def readSunPt (disk : Disk) (offset : BitVec 32) (ns : ℕ) : Option (List Slice) :=
  (sunDiskLabel disk offset).map fun l =>
    containSlices sunDiskMaxpartitions (sunSlices l offset ns)

end Sun

end MultipathTools.Kpartx
