import MultipathTools.Kpartx.Containers
import MultipathTools.Kpartx.Dasd
import MultipathTools.Kpartx.Gpt

/-! The partition readers on the array that they share, and the loop that tries them (`kpartx.c`,
`mac.c`, `solaris.c`, `unixware.c`, `ps3.c`). A `long` has 64 bits. -/
namespace MultipathTools.Kpartx

/-- `MAXSLICES` -/
def maxSlices : ℕ := 256

/-- A device, with the device slice of the readers and what lies in memory behind a block. -/
structure PartDevice where
  dos : DosDevice
  gpt : GptDevice
  dasd : DasdDevice
  behind : BitVec 32 → List Byte
  all : Slice

variable (dev : PartDevice)

def PartDevice.getblock : Disk := dev.dos.getblock

/-- `all.start`, as an `unsigned int`. -/
def PartDevice.offset : BitVec 32 := BitVec.ofNat 32 dev.all.start

/-- The starts and sizes of these slices, from `sp[n]` on. -/
def storeSlices : List Slice → ℕ → List Slice → Outcome (List Slice)
  | sp, _, [] => .done sp
  | sp, n, s :: l => (storeSlice sp n s.start s.size).bind fun sp => storeSlices sp (n + 1) l

/-- A reader that stores slices in order, from the first slot on. -/
def storeAll (sp : List Slice) : Option (List Slice) → Outcome (ℤ × List Slice)
  | none => .done (-1, sp)
  | some l => (storeSlices sp 0 l).bind fun sp => .done (l.length, sp)

def readGptPtAt (sp : List Slice) : Outcome (ℤ × List Slice) :=
  (readGptPt dev.gpt maxSlices).bind fun (l, n) => (storeSlices sp 0 l).bind fun sp => .done (n, sp)

def readDosPtAt (fuel : ℕ) (sp : List Slice) : Outcome (ℤ × List Slice) :=
  (readDosPt dev.dos fuel 256 dev.all sp).bind fun (n, d) => .done (n, d.sp)

def readBsdPtAt (sp : List Slice) : Outcome (ℤ × List Slice) :=
  match bsdDisklabel dev.getblock dev.offset with
  | none => .done (-1, sp)
  | some l =>
    let slices := bsdSlices l maxSlices
    (storeSlices sp 0 slices).bind fun sp => .done (slices.length, containSlices slices.length sp)

def readSunPtAt (sp : List Slice) : Outcome (ℤ × List Slice) :=
  match sunDiskLabel dev.getblock dev.offset with
  | none => .done (-1, sp)
  | some l =>
    let slices := sunSlices l dev.offset maxSlices
    (storeSlices sp 0 slices).bind fun sp =>
      .done (slices.length, containSlices sunDiskMaxpartitions sp)

/-- The slices of `read_solaris_pt`: those of `v_slice[i]` with `s_size`. -/
def solarisSlices (v : List Byte) (offset : BitVec 32) : List Slice :=
  (((List.range 8).filter fun i => le64 v (136 + 16 * i + 8) ≠ 0).take maxSlices).map fun i =>
    { start := (offset.toNat + le32 v (136 + 16 * i + 4)) % 2 ^ 32, size := le64 v (136 + 16 * i + 8) }

def readSolarisPt (sp : List Slice) : Outcome (ℤ × List Slice) :=
  match dev.getblock (dev.offset + 1) with
  | none => .done (-1, sp)
  | some bp =>
    if le64 bp.1 24 ≠ 0x600ddeee then .done (-1, sp)
    else if le64 bp.1 32 ≠ 1 then .done (0, sp)
    else storeAll sp (some (solarisSlices bp.1 dev.offset))

/-- The slices of `read_unixware_pt`: those of `v_slice[i]` that are used, without the whole disk. -/
def unixwareSlices (l : List Byte) : List Slice :=
  (((List.range' 1 15).filter fun i => le16 l (216 + 12 * i) ≠ 0).take maxSlices).map fun i =>
    { start := le32 l (216 + 12 * i + 4), size := le32 l (216 + 12 * i + 8) }

def readUnixwarePt (sp : List Slice) : Outcome (ℤ × List Slice) :=
  match dev.getblock (dev.offset + 29) with
  | none => .done (-1, sp)
  | some bp =>
    if le32 bp.1 4 ≠ 0xca5e600d ∨ le32 bp.1 156 ≠ 0x600ddeee then .done (-1, sp)
    else storeAll sp (some (unixwareSlices bp.1))

def be64 (b : List Byte) (i : ℕ) : ℕ := 2 ^ 32 * be32 b i + be32 b (i + 4)

/-- The slices of `read_ps3_pt`. -/
def ps3Slices (label : List Byte) : List Slice :=
  ((List.range 8).filter fun i => be64 label (48 + 144 * i) ≠ 0 ∧ be64 label (48 + 144 * i + 8) ≠ 0).map
    fun i => { start := be64 label (48 + 144 * i), size := be64 label (48 + 144 * i + 8) }

def readPs3Pt (sp : List Slice) : Outcome (ℤ × List Slice) :=
  match dev.getblock 0, dev.getblock 1, dev.getblock 2 with
  | some b0, some b1, some b2 =>
    let label := b0.1 ++ b1.1 ++ b2.1
    if be64 label 16 ≠ 0x0face0ff ∨ be64 label 24 ≠ 0xdeadface then .done (-1, sp)
    else storeAll sp (some (ps3Slices label))
  | _, _, _ => .done (-1, sp)

section Mac

/-- `MAC_PARTITION_MAGIC` -/
def macPartitionMagic : ℕ := 0x504d

/-- The memory from a position on, counted from the start of the disk. -/
def macPart (pos : ℕ) : Option (List Byte) :=
  (dev.getblock (BitVec.ofNat 32 (pos / 512))).map fun bp =>
    (bp.1 ++ dev.behind (BitVec.ofNat 32 (pos / 512))).drop (pos % 512)

/-- The loop in `read_mac_pt` over these blocks of the map. -/
def macLoop (secsize : ℕ) : List ℕ → ℕ → List Slice → Outcome (ℤ × List Slice)
  | [], n, sp => .done (n, sp)
  | blk :: blks, n, sp =>
    match macPart dev (blk * secsize) with
    -- what has been stored stays
    | none => .done (-1, sp)
    | some part =>
      if be16 part 0 ≠ macPartitionMagic then .done (n, sp)
      else
        (storeSlice sp n (be32 part 8 * (secsize / 512) % 2 ^ 32)
          (be32 part 12 * (secsize / 512) % 2 ^ 32)).bind fun sp =>
          macLoop secsize blks (n + 1) sp

def readMacPt (sp : List Slice) : Outcome (ℤ × List Slice) :=
  match dev.getblock 0 with
  | none => .done (-1, sp)
  | some md =>
    if be16 md.1 0 ≠ 0x4552 then .done (-1, sp)
    else
      match macPart dev (be16 md.1 2) with
      | none => .done (-1, sp)
      | some part =>
        if be16 part 0 ≠ macPartitionMagic then .done (-1, sp)
        else macLoop dev (be16 md.1 2) (List.range' 1 (min (be32 part 4) maxSlices)) 0 sp

end Mac

/-- The readers, in the order of `initpts`. -/
inductive Pts
  | gpt | dos | bsd | solaris | unixware | dasd | mac | sun | ps3
  deriving DecidableEq, Repr

/-- `ptp->fn` -/
def Pts.fn (fuel : ℕ) : Pts → List Slice → Outcome (ℤ × List Slice)
  | .gpt => readGptPtAt dev
  | .dos => readDosPtAt dev fuel
  | .bsd => readBsdPtAt dev
  | .solaris => readSolarisPt dev
  | .unixware => readUnixwarePt dev
  | .dasd => readDasdPt dev.dasd fuel
  | .mac => readMacPt dev
  | .sun => readSunPtAt dev
  | .ps3 => readPs3Pt dev

/-- The loop in `main` over these readers, up to the first one that succeeds: that reader, the number of
slices and the array. -/
def tryReaders (fuel : ℕ) : List Pts → List Slice → Outcome (Option (Pts × ℤ × List Slice))
  | [], _ => .done none
  | ptp :: pts, sp =>
    (ptp.fn dev fuel sp).bind fun (n, sp) =>
      if 0 < n then .done (some (ptp, n, sp)) else tryReaders fuel pts sp

/-- The array before the first reader. -/
def noSlices : List Slice := List.replicate maxSlices {}

end MultipathTools.Kpartx
