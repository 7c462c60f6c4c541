import MultipathTools.Base.Bytes
import MultipathTools.Base.Outcome

/-! The WWID from VPD page 0x83: `parse_vpd_pg83`. Pointers into the page are positions in
the buffer it lies in; every access outside of the buffer, or of `out`, is kept. -/
namespace MultipathTools.Discovery

def enodata : ℤ := 61
def einval : ℤ := 22

/-- A size that is not below 0. -/
def sizeMod : ℕ := 2 ^ 64

def blank : Byte := 0x20
def underscore : Byte := 0x5f

/-- `"eui."` -/
def euiPrefix : List Byte := [0x65, 0x75, 0x69, 0x2e]
/-- `"naa."` -/
def naaPrefix : List Byte := [0x6e, 0x61, 0x61, 0x2e]
/-- `"iqn."` -/
def iqnPrefix : List Byte := [0x69, 0x71, 0x6e, 0x2e]

/-- The priority of the best designator so far, and where it is. -/
structure Choice where
  prio : ℤ
  vpd : ℕ
  deriving DecidableEq, Repr

/-- Before the first designator. -/
def Choice.none : Choice := ⟨-1, 0⟩

/-- `if (prio < p) { prio = p; vpd = d; }` -/
def Choice.improve (c : Choice) (p : ℤ) (d : ℕ) : Choice := if c.prio < p then ⟨p, d⟩ else c

/-- The priority of a NAA designator, from its first byte. -/
def naaPrio (b : Byte) : ℤ :=
  match b.toNat / 16 with
  | 6 => 8
  | 5 => 7
  | 2 => 6
  | 3 => 1
  | _ => -1

/-- `d += d[3] + 4` -/
def nextDesignator (buf : List Byte) (d : ℕ) (c : Choice) : Outcome (ℕ × Choice) :=
  (byteAt buf (d + 3)).bind fun n => .done (d + n.toNat + 4, c)

/-- The designator type in the second byte of a designator. -/
def designatorType (b : Byte) : ℕ := (b &&& 0xf).toNat

/-- One turn of the loop over the designators. -/
def designatorStep (buf : List Byte) (d : ℕ) (c : Choice) : Outcome (ℕ × Choice) :=
  (byteAt buf (d + 1)).bind fun b =>
    if b &&& 0x30 ≠ 0 then nextDesignator buf d c
    else match designatorType b with
    | 0x3 => (byteAt buf (d + 4)).bind fun n => nextDesignator buf d (c.improve (naaPrio n) d)
    | 0x8 => (readAt buf (d + 4) 4).bind fun name =>
      -- the `continue` is one of the loop, which goes on with the same designator
      if name ≠ euiPrefix ∧ name ≠ naaPrefix ∧ name ≠ iqnPrefix then .done (d, c)
      else nextDesignator buf d (c.improve 4 d)
    | 0x2 => nextDesignator buf d (c.improve 3 d)
    | 0x1 => nextDesignator buf d (c.improve 2 d)
    | _ => nextDesignator buf d c

/-- The loop over the designators, with at most `fuel` turns. -/
def chooseDesignator (fuel : ℕ) (buf : List Byte) (inLen : ℕ) : Outcome Choice :=
  whileBelow inLen (designatorStep buf) fuel 4 .none

/-- One digit of `%x`. -/
def hexDigit (n : ℕ) : Byte := BitVec.ofNat 8 (if n < 10 then 0x30 + n else 0x57 + n)

/-- `%02x` -/
def hexByte (b : Byte) : List Byte := [hexDigit (b.toNat / 16), hexDigit (b.toNat % 16)]

/-- The loop that prints `n` bytes from `vpd` on behind the first `len` bytes of `out`. -/
def hexLoop (buf : List Byte) : ℕ → ℕ → List Byte → ℕ → Outcome (ℤ × List Byte)
  | 0, _, out, len => .done (len, out)
  | n + 1, vpd, out, len =>
    (byteAt buf vpd).bind fun b =>
      (writeAt out len (hexByte b ++ [0])).bind fun out => hexLoop buf n (vpd + 1) out (len + 2)

/-- NAA and EUI-64 designators. -/
def formatHex (buf : List Byte) (vpd vpdType vpdLen : ℕ) (out : List Byte) :
    Outcome (ℤ × List Byte) :=
  (writeAt out 0 [hexDigit vpdType, 0]).bind fun out =>
    let len := 1
    let vpdLen := if 2 * vpdLen ≥ out.length - len then (out.length - len - 1) / 2 else vpdLen
    hexLoop buf vpdLen vpd out len

/-- `while (len > 2 && vpd[len - 2] == '\0') --len;` -/
def stripNuls (buf : List Byte) (vpd : ℕ) : ℕ → Outcome ℕ
  | 0 => .done 0
  | len + 1 =>
    if len + 1 > 2 then
      (byteAt buf (vpd + (len + 1 - 2))).bind fun b =>
        if b = 0 then stripNuls buf vpd len else .done (len + 1)
    else .done (len + 1)

def tolower (b : Byte) : Byte := if 0x41 ≤ b.toNat ∧ b.toNat ≤ 0x5a then b + 0x20 else b

/-- SCSI names of at least four bytes. -/
def formatName (buf : List Byte) (vpd vpdLen : ℕ) (out : List Byte) : Outcome (ℤ × List Byte) :=
  (readAt buf vpd 4).bind fun name =>
    let digit : Byte := if name = euiPrefix then 0x32 else if name = naaPrefix then 0x33 else 0x38
    (writeAt out 0 [digit]).bind fun out =>
      let vpd := vpd + 4
      (stripNuls buf vpd (vpdLen - 4)).bind fun len =>
        let len := if len > out.length - 1 then out.length - 1 else len
        (readAt buf vpd len).bind fun s =>
          (writeAt out 1 (if digit = 0x38 then s else s.map tolower)).bind fun out =>
            (writeAt out len [0]).bind fun out => .done (len, out)

/-- `memchr` on the bytes up to the end of the buffer. -/
def memchr (c : Byte) : List Byte → ℕ → Outcome (Option ℕ)
  | _, 0 => .done none
  | [], _ + 1 => .outside
  | b :: bs, n + 1 =>
    if b = c then .done (some 0) else (memchr c bs n).bind fun p => .done (p.map (· + 1))

/-- The number of blanks that `while (vpd && *vpd == ' ')` skips. -/
def skipBlanks : List Byte → Outcome ℕ
  | [] => .outside
  | b :: bs => if b = blank then (skipBlanks bs).bind fun n => .done (n + 1) else .done 0

/-- The loop that formats a vendor ID: the bytes from `vpd` to the end of the buffer, the
length that is left, and `out` with the length that is used. -/
structure VendorState where
  vpd : List Byte
  vpdLen : ℕ
  out : List Byte
  len : ℕ
  deriving DecidableEq, Repr

/-- `n` blanks are skipped: `vpd++, vpd_len--`, without a look at the length. -/
def VendorState.skip (s : VendorState) (n : ℕ) : VendorState :=
  { s with vpd := s.vpd.drop n, vpdLen := (((s.vpdLen : ℤ) - n) % sizeMod).toNat }

/-- `memcpy(out + len, bs, n); len += n;` -/
def VendorState.put (s : VendorState) (bs : List Byte) : Outcome VendorState :=
  (writeAt s.out s.len bs).bind fun out => .done { s with out := out, len := s.len + bs.length }

/-- `out[len] = '\0';` -/
def VendorState.full (s : VendorState) : Outcome VendorState :=
  (writeAt s.out s.len [0]).bind fun out => .done { s with out := out }

/-- One turn of the loop over the blanks of a vendor ID, and whether there is another. -/
def vendorTurn (s : VendorState) : Outcome (Bool × VendorState) :=
  (memchr blank s.vpd s.vpdLen).bind fun
    | none => .done (false, s)
    | some p =>
      let pLen := if s.len + p > s.out.length - 1 then s.out.length - s.len - 1 else p
      (s.put (s.vpd.take pLen)).bind fun s =>
        if s.len ≥ s.out.length - 1 then s.full.bind fun s => .done (false, s)
        else
          (s.put [underscore]).bind fun s =>
            if s.len ≥ s.out.length - 1 then s.full.bind fun s => .done (false, s)
            else
              (skipBlanks (s.vpd.drop p)).bind fun n =>
                .done (true, VendorState.skip
                  { s with vpd := s.vpd.drop p, vpdLen := s.vpdLen - pLen } n)

def vendorLoop : ℕ → VendorState → Outcome VendorState
  | 0, _ => .unfinished
  | fuel + 1, s =>
    (vendorTurn s).bind fun r => if r.1 then vendorLoop fuel r.2 else .done r.2

/-- What is left behind the last blank. -/
def vendorRest (s : VendorState) : Outcome VendorState :=
  if s.vpdLen > 0 ∧ s.len < s.out.length - 1 then
    let pLen := if (s.len + s.vpdLen) % sizeMod > s.out.length - 1 then s.out.length - s.len - 1
      else s.vpdLen
    (readAt s.vpd 0 pLen).bind fun bs => (s.put bs).bind fun s => s.full
  else .done s

/-- A last `'_'` is dropped. -/
def vendorTrim (s : VendorState) : Outcome (ℤ × List Byte) :=
  if s.len > 1 then
    (byteAt s.out (s.len - 1)).bind fun b =>
      if b = underscore then
        (writeAt s.out (s.len - 1) [0]).bind fun out => .done (((s.len - 1 : ℕ) : ℤ), out)
      else .done (s.len, s.out)
  else .done (s.len, s.out)

/-- T10 vendor IDs. Every turn of the loop uses a byte of `out`. -/
def formatVendorId (buf : List Byte) (vpd vpdLen : ℕ) (out : List Byte) : Outcome (ℤ × List Byte) :=
  (writeAt out 0 [0x31]).bind fun out =>
    ((vendorLoop out.length ⟨buf.drop vpd, vpdLen, out, 1⟩).bind vendorRest).bind vendorTrim

/-- The WWID from the chosen designator. -/
def formatDesignator (buf : List Byte) (vpd : ℕ) (out : List Byte) : Outcome (ℤ × List Byte) :=
  (byteAt buf (vpd + 1)).bind fun b =>
    (byteAt buf (vpd + 3)).bind fun n =>
      let vpdType := designatorType b
      let vpdLen := n.toNat
      if vpdType = 0x2 ∨ vpdType = 0x3 then formatHex buf (vpd + 4) vpdType vpdLen out
      else if vpdType = 0x8 ∧ vpdLen < 4 then .done (-einval, out)
      else if vpdType = 0x8 then formatName buf (vpd + 4) vpdLen out
      else if vpdType = 0x1 then formatVendorId buf (vpd + 4) vpdLen out
      else .done (0, out)

/-- `parse_vpd_pg83`: what it returns, and `out`. -/
def parseVpdPg83 (fuel : ℕ) (buf : List Byte) (inLen : ℕ) (out : List Byte) :
    Outcome (ℤ × List Byte) :=
  (chooseDesignator fuel buf inLen).bind fun c =>
    if c.prio ≤ 0 then .done (-enodata, out)
    else if out.length ≤ 1 then .done (0, out)
    else formatDesignator buf c.vpd out

end MultipathTools.Discovery

/-! The other VPD pages: `parse_vpd_pg80`, `parse_vpd_c0_hp3par`, and the functions that read a page
and hand it to its parser. A page is the buffer of 4096 bytes it has been read into. -/
namespace MultipathTools.Discovery

def enosys : ℤ := 38

def pageSize : ℕ := 4096

/-- `get_unaligned_be16(&in[2])` -/
def pageLength (buf : List Byte) : Outcome ℕ := (readAt buf 2 2).bind fun bs => .done (ofBe bs)

/-- `while (len > 0 && in[len + 3] == ' ') --len;` -/
def stripTrailing (buf : List Byte) : ℕ → Outcome ℕ
  | 0 => .done 0
  | len + 1 =>
    (byteAt buf (len + 1 + 3)).bind fun b =>
      if b = blank then stripTrailing buf len else .done (len + 1)

/-- `while (len > 0 && in[4] == ' ') { ++in; --len; }`: where `in` is then, and `len`. -/
def stripLeading (buf : List Byte) : ℕ → ℕ → Outcome (ℕ × ℕ)
  | start, 0 => .done (start, 0)
  | start, len + 1 =>
    (byteAt buf (start + 4)).bind fun b =>
      if b = blank then stripLeading buf (start + 1) len else .done (start, len + 1)

/-- What it returns, and `out`. -/
def parseVpdPg80 (buf out : List Byte) : Outcome (ℤ × List Byte) :=
  (pageLength buf).bind fun len =>
    if out.length = 0 then .done (0, out)
    else
      (stripTrailing buf len).bind fun len =>
        (stripLeading buf 0 len).bind fun r =>
          let len := if r.2 ≥ out.length then out.length - 1 else r.2
          if len > 0 then
            (readAt buf (r.1 + 4) len).bind fun bs =>
              (writeAt out 0 bs).bind fun out =>
                (writeAt out len [0]).bind fun out => .done (len, out)
          else .done (len, out)

def parseVpdC0Hp3par (buf : List Byte) (inLen : ℕ) (out : List Byte) : Outcome (ℤ × List Byte) :=
  (writeAt out 0 (List.replicate out.length 0)).bind fun out =>
    if inLen ≤ 4 then .done (-einval, out)
    else
      (byteAt buf 4).bind fun revision =>
        if revision.toNat > 3 ∧ inLen < 44 then .done (-einval, out)
        -- the volume name is there from revision 4 on
        else if revision.toNat ≤ 3 then .done (-enodata, out)
        else
          (readAt buf 40 4).bind fun bs =>
            let len := ofBe bs
            if len > out.length ∨ len + 44 > inLen then .done (-einval, out)
            else
              (readAt buf 44 len).bind fun name =>
                (writeAt out 0 name).bind fun out =>
                  (writeAt out (out.length - 1) [0]).bind fun out => .done (len, out)

inductive VpdVendor where
  | undef
  | hp3par
  deriving DecidableEq

/-- `none` is a page that could not be read. -/
def getVpdSysfs (fuel : ℕ) (page : Option (List Byte)) (pg : ℕ) (str : List Byte) :
    Outcome (ℤ × List Byte) :=
  match page with
  | none => .done (-einval, str)
  | some buf =>
    (byteAt buf 1).bind fun b =>
      if b.toNat ≠ pg then .done (-enodata, str)
      else
        (pageLength buf).bind fun len =>
          let buffLen := len + 4
          if pg = 0x80 then parseVpdPg80 buf str
          else if pg = 0x83 then parseVpdPg83 fuel buf buffLen str
          else .done (-enosys, str)

/-- The branches of `get_vpd_sgio` for the pages of vendors. -/
def getVendorPage (buf : List Byte) (buffLen pg : ℕ) (vendId : VpdVendor) (str : List Byte) :
    Outcome (ℤ × List Byte) :=
  if pg = 0xc9 ∧ str.length ≥ 8 then
    if buffLen < 8 then .done (-enodata, str)
    else
      let len := if buffLen ≤ str.length then buffLen else str.length
      (readAt buf 0 len).bind fun bs => (writeAt str 0 bs).bind fun str => .done (len, str)
  else if pg = 0xc0 ∧ vendId = .hp3par then parseVpdC0Hp3par buf buffLen str
  else .done (-enosys, str)

/-- An error is the `errno` of an inquiry that failed. -/
def getVpdSgio (fuel : ℕ) (page : Except ℤ (List Byte)) (pg : ℕ) (vendId : VpdVendor)
    (str : List Byte) : Outcome (ℤ × List Byte) :=
  match page with
  | .error errno => .done (-errno, str)
  | .ok buf =>
    (byteAt buf 1).bind fun b =>
      if b.toNat ≠ pg then .done (-enodata, str)
      else
        (pageLength buf).bind fun len =>
          let buffLen := if len + 4 > pageSize then pageSize else len + 4
          if pg = 0x80 then parseVpdPg80 buf str
          else if pg = 0x83 then parseVpdPg83 fuel buf buffLen str
          else getVendorPage buf buffLen pg vendId str

end MultipathTools.Discovery
