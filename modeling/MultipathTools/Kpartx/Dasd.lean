import MultipathTools.Kpartx.Dos

/-! DASD labels (`dasd.c`, `dasd.h`). The EBCDIC characters of the labels are told by their codes. -/
namespace MultipathTools.Kpartx

/-- `struct hd_geometry` -/
structure HdGeometry where
  heads : ℕ
  sectors : ℕ
  cylinders : ℕ

/-- `dasd_information_t` -/
structure DasdInformation where
  labelBlock : ℕ := 2
  fbaLayout : Bool := false
  /-- `type` is "ECKD". -/
  eckd : Bool := true

/-- A device, as the system calls of `read_dasd_pt` present it. -/
structure DasdDevice where
  /-- `fstat`, and the major number of the file. -/
  fstat : Option ℕ
  /-- The device to read from, be it the first one below a map or the file itself, can be had. -/
  openDasd : Bool
  biodasdinfo : Option DasdInformation
  blksszget : Option ℤ
  blkgetsize64 : Option ℕ
  hdioGetgeo : Option HdGeometry
  malloc : Bool
  /-- What `read` puts into the buffer at the label, unless a call fails. -/
  label : Option (List Byte)
  /-- The `lseek` to a block of the table of contents succeeds. -/
  lseek : ℕ → Bool
  /-- The buffer after each further `read`, unless it returns -1. -/
  format1 : ℕ → Option (List Byte)

/-- `ceil_quot`, in 32 bits -/
def ceilQuot (d1 d2 : ℕ) : ℕ := (d1 + (d2 - 1)) % 2 ^ 32 / d2

def recsPerTrack (dl : ℕ) : ℕ :=
  let dn := ceilQuot (dl + 6) 232 + 1
  1729 / (10 + 9 + ceilQuot (dl + 6 * dn) 34)

def sectors512 (sectors : ℕ) (blocksize : ℤ) : ℕ := (sectors * (blocksize / 512) % 2 ^ 64).toNat

/-- The geometry that is made up. -/
def madeGeometry (blocksize : ℤ) (disksize : ℕ) : HdGeometry :=
  let sectors := recsPerTrack (blocksize % 2 ^ 32).toNat % 2 ^ 8
  let cyl := disksize / (blocksize.toNat * 15 * sectors) % 2 ^ 32
  { heads := 15, sectors := sectors, cylinders := if cyl < 0xfffe then cyl else 0xfffe }

/-- `cchh2blk`, for the address at a position. -/
def cchh2blk (b : List Byte) (i : ℕ) (geo : HdGeometry) : ℕ :=
  let hh := le16 b (i + 2)
  let cyl := hh / 16 * 16 * 2 ^ 12 ||| le16 b i
  (cyl * geo.heads * geo.sectors + hh % 16 * geo.sectors) % 2 ^ 64

/-- `cchhb2blk` -/
def cchhb2blk (b : List Byte) (i : ℕ) (geo : HdGeometry) : ℕ :=
  (cchh2blk b i geo + u8 b (i + 4)) % 2 ^ 64

/-- `sp[n]` with this start and size. -/
def storeSlice (sp : List Slice) (n start size : ℕ) : Outcome (List Slice) :=
  setSlot sp n fun s => { s with start := start, size := size }

variable (dasd : DasdDevice)

/-- The loop over format 1 labels, from the `k`-th read on. -/
def vol1Loop (geo : HdGeometry) (blocksize : ℤ) :
    ℕ → ℕ → ℕ → List Slice → Outcome (ℤ × List Slice)
  | 0, _, _, _ => .unfinished
  | fuel + 1, k, counter, sp =>
    match dasd.format1 k with
    | none => .done (counter, sp)
    | some f1 =>
      -- '4', '5', '7' and '9'
      if u8 f1 44 = 0xf4 ∨ u8 f1 44 = 0xf5 ∨ u8 f1 44 = 0xf7 ∨ u8 f1 44 = 0xf9 then
        vol1Loop geo blocksize fuel (k + 1) counter sp
      -- '1' and '8'
      else if u8 f1 44 ≠ 0xf1 ∧ u8 f1 44 ≠ 0xf8 then .done (counter, sp)
      else
        let offset := cchh2blk f1 107 geo
        let size := (cchh2blk f1 111 geo + (2 ^ 64 - offset) + geo.sectors) % 2 ^ 64
        (storeSlice sp counter (sectors512 offset blocksize) (sectors512 size blocksize)).bind fun sp =>
          vol1Loop geo blocksize fuel (k + 1) (counter + 1) sp

/-- `vlabel`, from the buffer. -/
def volumeLabel (info : DasdInformation) (data : List Byte) : List Byte :=
  if ¬ info.fbaLayout ∧ info.eckd then data.take 92 else List.replicate 4 0 ++ data.take 88

/-- The only slice of a disk without a table of contents: it begins at a block and ends at a sector. -/
def dasdSlice (sp : List Slice) (offset : ℕ) (blocksize : ℤ) (size : ℕ) : Outcome (ℤ × List Slice) :=
  let start := sectors512 offset blocksize
  (storeSlice sp 0 start ((size + (2 ^ 64 - start)) % 2 ^ 64)).bind fun sp => .done (1, sp)

/-- The size of a disk with an LNX1 label. -/
def lnx1Size (info : DasdInformation) (geo : HdGeometry) (blocksize : ℤ) (disksize : ℕ)
    (vlabel : List Byte) : ℕ :=
  let fmtSize :=
    if u8 vlabel 83 = 0xf2 then sectors512 (le64 vlabel 84) blocksize
    else if info.eckd then (toInt (geo.cylinders * geo.heads * geo.sectors * (blocksize / 512)) %
      2 ^ 64).toNat
    else disksize
  min fmtSize disksize

/-- `read_dasd_pt` behind the label. -/
def readDasdLabel (fuel major : ℕ) (info : DasdInformation) (geo : HdGeometry) (blocksize : ℤ)
    (disksize : ℕ) (vlabel : List Byte) (sp : List Slice) : Outcome (ℤ × List Slice) :=
  let type := (vlabel.drop 4).take 4
  -- "CMS1"
  if type = [0xc3, 0xd4, 0xe2, 0xf1] then
    let blocksize := toInt (le32 vlabel 16)
    if le32 vlabel 56 ≠ 0 then
      dasdSlice sp (le32 vlabel 56) blocksize
        (sectors512 ((le32 vlabel 32 + (2 ^ 32 - 1)) % 2 ^ 32) blocksize)
    else
      dasdSlice sp ((info.labelBlock + 1) % 2 ^ 32) blocksize (sectors512 (le32 vlabel 32) blocksize)
  -- "VOL1"
  else if type = [0xe5, 0xd6, 0xd3, 0xf1] ∧ ¬ info.fbaLayout ∧ info.eckd then
    if dasd.lseek ((cchhb2blk vlabel 15 geo + 1) % 2 ^ 64) then
      vol1Loop dasd geo blocksize fuel 0 0 sp
    else .done (-1, sp)
  -- "LNX1"
  else if type = [0xd3, 0xd5, 0xe7, 0xf1] then
    dasdSlice sp ((info.labelBlock + 1) % 2 ^ 32) blocksize
      (lnx1Size info geo blocksize disksize vlabel)
  else if major ≠ 94 then .done (-1, sp)
  else dasdSlice sp ((info.labelBlock + 1) % 2 ^ 32) blocksize disksize

/-- `read_dasd_pt` -/
def readDasdPt (fuel : ℕ) (sp : List Slice) : Outcome (ℤ × List Slice) :=
  match dasd.fstat, dasd.blksszget, dasd.blkgetsize64, dasd.label with
  | some major, some blocksize, some disksize, some data =>
    let info := dasd.biodasdinfo.getD {}
    let geo := dasd.hdioGetgeo.getD (madeGeometry blocksize disksize)
    if dasd.openDasd ∧ 512 ≤ blocksize ∧ blocksize ≤ 4096 ∧ dasd.malloc then
      readDasdLabel dasd fuel major info geo blocksize (disksize / 512) (volumeLabel info data) sp
    else .done (-1, sp)
  | _, _, _, _ => .done (-1, sp)

end MultipathTools.Kpartx
