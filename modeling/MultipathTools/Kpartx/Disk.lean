import MultipathTools.Base.Bytes

/-! Blocks of a disk as `getblock` gives them, the numbers in them, and the slices that the readers
report (`kpartx.c`, `kpartx.h`, `byteorder.h`). A number in host order is little-endian. -/
namespace MultipathTools.Kpartx

/-- `struct slice`, in units of 512 bytes. -/
structure Slice where
  start : ℕ := 0
  size : ℕ := 0
  container : ℕ := 0
  major : ℕ := 0
  minor : ℕ := 0
  deriving DecidableEq, Repr

/-- A block of 512 bytes. -/
abbrev Block := {bytes : List Byte // bytes.length = 512}

/-- What `getblock` gives for a block number, if the block can be read. -/
abbrev Disk := BitVec 32 → Option Block

variable (b : List Byte) (i : ℕ)

def u8 : ℕ := (b.getD i 0).toNat

def le16 : ℕ := u8 b i + 256 * u8 b (i + 1)

def le32 : ℕ := le16 b i + 2 ^ 16 * le16 b (i + 2)

def le64 : ℕ := le32 b i + 2 ^ 32 * le32 b (i + 4)

def be16 : ℕ := 256 * u8 b i + u8 b (i + 1)

def be32 : ℕ := 2 ^ 16 * be16 b i + be16 b (i + 2)

variable {b i}

theorem u8_lt : u8 b i < 256 := (b.getD i 0).isLt

theorem le16_lt : le16 b i < 2 ^ 16 := by
  have h0 := @u8_lt b i
  have h1 := @u8_lt b (i + 1)
  unfold le16
  omega

theorem le32_lt : le32 b i < 2 ^ 32 := by
  have h0 := @le16_lt b i
  have h1 := @le16_lt b (i + 2)
  unfold le32
  omega

end MultipathTools.Kpartx
