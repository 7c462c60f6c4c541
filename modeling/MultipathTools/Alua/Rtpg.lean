import MultipathTools.Base.Bytes
import MultipathTools.Base.Lookup

/-! The port group of a path and its access state, as the ALUA prioritizer asks for them
(`prioritizers/alua_rtpg.c`). Every access outside of the buffer that was allocated last is
kept. -/
namespace MultipathTools.Alua

def rtpgInquiryFailed : ℤ := 1
def rtpgNoTpgIdentifier : ℤ := 2
def rtpgRtpgFailed : ℤ := 3
def rtpgTpgNotFound : ℤ := 4

def ushrtMax : ℕ := 65535
def uintMax : ℕ := 2 ^ 32 - 1

/-- The size of the first buffer. -/
def buflen : ℕ := 4096

def idtypeTargetPortGroup : ℕ := 0x5

/-- A zeroed buffer of `n` bytes after a command, or a read of a file in sysfs, has put its
data there. -/
def fill (n : ℕ) (resp : List Byte) : List Byte :=
  resp.take n ++ List.replicate (n - resp.length) 0

/-- `get_unaligned_be16` -/
def getUnalignedBe16 (buf : List Byte) (i : ℕ) : Outcome ℕ :=
  (readAt buf i 2).bind fun bs => .done (ofBe bs)

/-- `get_unaligned_be32` -/
def getUnalignedBe32 (buf : List Byte) (i : ℕ) : Outcome ℕ :=
  (readAt buf i 4).bind fun bs => .done (ofBe bs)

/-- `vpd83_dscr_istype` -/
def vpd83DscrIstype (buf : List Byte) (d type : ℕ) : Outcome Bool :=
  (byteAt buf (d + 1)).bind fun b1 => .done ((b1 &&& 7).toNat = type)

/-- `rtpg_tpg_dscr_get_aas` -/
def rtpgTpgDscrGetAas (buf : List Byte) (d : ℕ) : Outcome ℤ :=
  (byteAt buf d).bind fun b0 => .done ((b0 &&& 0x8f).toNat : ℤ)

/-- The descriptors of page 0x83, as `FOR_EACH_VPD83_DSCR` goes over them, with their target
port groups. -/
def vpd83Dscrs (buf : List Byte) : Records ℤ where
  missing := -rtpgNoTpgIdentifier
  isKind d := vpd83DscrIstype buf d idtypeTargetPortGroup
  value d := (getUnalignedBe16 buf (d + 6)).bind fun tpg => .done (tpg : ℤ)
  next d := (byteAt buf (d + 3)).bind fun length => .done (d + length.toNat + 4)

/-- The descriptors of port groups, as `RTPG_FOR_EACH_PORT_GROUP` goes over them, with the
access state of the group `tpg`. -/
def rtpgTpgDscrs (buf : List Byte) (tpg : ℕ) : Records ℤ where
  missing := -rtpgTpgNotFound
  isKind d := (getUnalignedBe16 buf (d + 2)).bind fun group => .done (group = tpg)
  value d := rtpgTpgDscrGetAas buf d
  next d := (byteAt buf (d + 7)).bind fun portCount => .done (d + 8 + portCount.toNat * 4)

/-- The part of `get_target_port_group` that gets page 0x83: the buffer, or the error it
returns. A file in sysfs, or a command, may fail, and so may `malloc`. -/
def getPg83 (malloc malloc' : Bool) (sysfs inquiry inquiry' : Option (List Byte)) :
    Except ℤ (List Byte) :=
  if ¬ malloc then .error (-rtpgRtpgFailed)
  else match sysfs with
  | some page => .ok (fill buflen page)
  | none =>
    match inquiry with
    | none => .error (-rtpgInquiryFailed)
    | some resp =>
      let buf := fill buflen resp
      let scsiBuflen := min (ofBe ((buf.drop 2).take 2) + 4) ushrtMax
      if buflen < scsiBuflen then
        if ¬ malloc' then .error (-rtpgRtpgFailed)
        else match inquiry' with
        | none => .error (-rtpgInquiryFailed)
        | some resp => .ok (fill scsiBuflen resp)
      else .ok buf

/-- `get_target_port_group`, with at most `fuel` turns of its loop. -/
def getTargetPortGroup (fuel : ℕ) (malloc malloc' : Bool)
    (sysfs inquiry inquiry' : Option (List Byte)) : Outcome ℤ :=
  match getPg83 malloc malloc' sysfs inquiry inquiry' with
  | .error rc => .done rc
  | .ok buf =>
    (getUnalignedBe16 buf 2).bind fun length => (vpd83Dscrs buf).lookup length fuel 4

/-- The part of `get_asymmetric_access_state` that gets the port groups: the buffer, or the
error it returns. -/
def getRtpg (malloc malloc' : Bool) (rtpg rtpg' : Option (List Byte)) :
    Except ℤ (List Byte) :=
  if ¬ malloc then .error (-rtpgRtpgFailed)
  else match rtpg with
  | none => .error (-rtpgRtpgFailed)
  | some resp =>
    let buf := fill buflen resp
    -- the sum is one of 32-bit numbers, so that the comparison with UINT_MAX is never true
    let scsiBuflen := min ((ofBe (buf.take 4) + 4) % 2 ^ 32) uintMax
    if buflen < scsiBuflen then
      if ¬ malloc' then .error (-rtpgRtpgFailed)
      else match rtpg' with
      | none => .error (-rtpgRtpgFailed)
      | some resp => .ok (fill scsiBuflen resp)
    else .ok buf

/-- `get_asymmetric_access_state` of the group `tpg`. -/
def getAsymmetricAccessState (fuel tpg : ℕ) (malloc malloc' : Bool)
    (rtpg rtpg' : Option (List Byte)) : Outcome ℤ :=
  match getRtpg malloc malloc' rtpg rtpg' with
  | .error rc => .done rc
  | .ok buf =>
    (getUnalignedBe32 buf 0).bind fun length => (rtpgTpgDscrs buf tpg).lookup length fuel 4

end MultipathTools.Alua
