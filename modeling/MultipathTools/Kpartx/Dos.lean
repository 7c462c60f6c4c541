import MultipathTools.Base.Numeral
import MultipathTools.Base.Outcome
import MultipathTools.Kpartx.Disk

/-! DOS partition tables (`dos.c`). A `long` has 64 bits. -/
namespace MultipathTools.Kpartx

/-- A device with its sector size, of type `int`. -/
structure DosDevice where
  sectorSize : ℕ
  sectorSize_lt : sectorSize < 2 ^ 31
  getblock : Disk

/-- The members of `struct partition` that are used. -/
structure Partition where
  sysType : ℕ
  startSect : ℕ
  nrSects : ℕ
  deriving DecidableEq, Repr

/-- The partition at `bp + 0x1be + i * sizeof (p)` -/
def partitionAt (bp : Block) (i : ℕ) : Partition where
  sysType := u8 bp.1 (0x1be + 16 * i + 4)
  startSect := le32 bp.1 (0x1be + 16 * i + 8)
  nrSects := le32 bp.1 (0x1be + 16 * i + 12)

def hasSignature (bp : Block) : Bool := u8 bp.1 510 = 0x55 ∧ u8 bp.1 511 = 0xaa

def isExtended (type : ℕ) : Bool := type = 5 ∨ type = 0xf ∨ type = 0x85

def isGpt (type : ℕ) : Bool := type = 0xee

/-- `sp[i]` with other members, in an array of a given length. -/
def setSlot (sp : List Slice) (i : ℕ) (f : Slice → Slice) : Outcome (List Slice) :=
  if i < sp.length then .done (sp.modify i f) else .outside

variable (dev : DosDevice)

/-- `sector_size_mul` -/
def DosDevice.mul : ℕ := dev.sectorSize / 512

/-- The product of `sector_size_mul`, of type `int`, and a member, of type `unsigned int`. -/
def DosDevice.mul32 (x : ℕ) : ℕ := dev.mul * x % 2 ^ 32

/-- The product of `sector_size_mul`, of type `uint64_t`, and a member. -/
def DosDevice.mul64 (x : ℕ) : ℕ := dev.mul * x % 2 ^ 64

section Extended

/-- The variables of `read_extended_partition`, and the arguments that `getblock` has had. -/
structure Chain where
  sp : List Slice
  n : ℕ := 0
  next : ℕ
  moretodo : Bool := true
  loopct : ℕ := 0
  blocks : List (BitVec 32) := []

-- the `sp` of `read_extended_partition` is `base` slots behind this one
variable (en base : ℕ) (ns : ℤ)

/-- A turn of the inner loop, and whether the function goes on after it. -/
def extendedEntry (start here : ℕ) (p : Partition) (c : Chain) : Outcome (Chain × Bool) :=
  if isExtended p.sysType then
    if p.startSect ≠ 0 ∧ p.nrSects ≠ 0 ∧ ¬ c.moretodo then
      .done ({ c with next := (start + dev.mul32 p.startSect) % 2 ^ 64, moretodo := true }, true)
    else .done (c, true)
  else if c.n < ns then
    (setSlot c.sp (base + c.n) fun s =>
      { s with
        start := (here + dev.mul32 p.startSect) % 2 ^ 64
        size := dev.mul32 p.nrSects
        container := en + 1 }).bind fun sp =>
      .done ({ c with sp := sp, n := c.n + 1, loopct := 0 }, true)
  else .done (c, false)

def extendedEntries (start here : ℕ) : List Partition → Chain → Outcome (Chain × Bool)
  | [], c => .done (c, true)
  | p :: ps, c =>
    (extendedEntry dev en base ns start here p c).bind fun r =>
      if r.2 then extendedEntries start here ps r.1 else .done r

/-- A turn of the outer loop up to `getblock`. -/
def Chain.turn (c : Chain) : Chain := { c with moretodo := false, loopct := c.loopct + 1 }

def Chain.ask (c : Chain) : Chain :=
  { c.turn with blocks := c.blocks ++ [BitVec.ofNat 32 c.next] }

/-- The outer loop. -/
def extendedLoop (start : ℕ) : ℕ → Chain → Outcome Chain
  | 0, _ => .unfinished
  | fuel + 1, c =>
    if ¬ c.moretodo then .done c
    else if c.turn.loopct > 100 then .done c.turn
    else
      match dev.getblock (BitVec.ofNat 32 c.next) with
      | none => .done c.ask
      | some bp =>
        if hasSignature bp then
          (extendedEntries dev en base ns start c.next [partitionAt bp 0, partitionAt bp 1] c.ask).bind
            fun r => if r.2 then extendedLoop start fuel r.1 else .done r.1
        else .done c.ask

def readExtendedPartition (fuel : ℕ) (ep : Partition) (sp : List Slice) : Outcome Chain :=
  extendedLoop dev en base ns (dev.mul32 ep.startSect) fuel
    { sp := sp, next := dev.mul32 ep.startSect }

end Extended

/-- The variables of `read_dos_pt`, and the arguments that `getblock` has had, with the indices of the
extended partitions. -/
structure Dos where
  sp : List Slice
  n : ℕ := 4
  blocks : List (ℕ × BitVec 32) := []
  deriving DecidableEq

section Primary

variable (fuel : ℕ) (ns : BitVec 32)

/-- The loop over these entries of the block. -/
def dosEntries (bp : Block) : List ℕ → Dos → Outcome Dos
  | [], d => .done d
  | i :: is, d =>
    let p := partitionAt bp i
    if isGpt p.sysType then .done { d with n := 0 }
    else if i < ns.toNat then
      (setSlot d.sp i fun s =>
        { s with start := dev.mul64 p.startSect, size := dev.mul64 p.nrSects }).bind fun sp =>
        if isExtended p.sysType then
          (setSlot sp i fun s => { s with size := if dev.mul = 1 then 2 else dev.mul }).bind fun sp =>
            (readExtendedPartition dev i d.n (toInt (ns.toNat - d.n)) fuel p sp).bind fun c =>
              dosEntries bp is
                { sp := c.sp, n := d.n + c.n, blocks := d.blocks ++ c.blocks.map (i, ·) }
        else dosEntries bp is { d with sp := sp }
    -- too many slices
    else .done d

/-- `read_dos_pt`: what it returns, and what it leaves. -/
def readDosPt (all : Slice) (sp : List Slice) : Outcome (ℤ × Dos) :=
  match dev.getblock (BitVec.ofNat 32 all.start) with
  | none => .done (-1, { sp := sp })
  | some bp =>
    if hasSignature bp then
      (dosEntries dev fuel ns bp [0, 1, 2, 3] { sp := sp }).bind fun d => .done (toInt d.n, d)
    else .done (-1, { sp := sp })

end Primary

end MultipathTools.Kpartx
