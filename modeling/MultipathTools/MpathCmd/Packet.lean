import MultipathTools.Base.Framing
import MultipathTools.MpathCmd.Transfer

/-! Commands and replies as packets: a `size_t` in the byte order of the machine, and as
many bytes, the last of which is NUL. -/
namespace MultipathTools.MpathCmd

/-- `MAX_REPLY_LEN`. -/
def maxReplyLen : ℕ := 32 * 1024 * 1024

/-- `sizeof(size_t)`. -/
def sizeofLen : ℕ := 8

/-- What `mpath_send_cmd` has put on the stream, what it returns, `none` while it waits, and
the answers to come. -/
structure Sent where
  wire : List Byte
  ret : Option ℤ
  turns : List SendTurn
  deriving DecidableEq, Repr

/-- `mpath_send_cmd`; a string is without its NUL. -/
def mpathSendCmd (order : ByteOrder) (turns : List SendTurn) (cmd : Option (List Byte)) : Sent :=
  let len := match cmd with
    | some s => s.length + 1
    | none => 0
  let hdr := writeAll turns (order.toBytes sizeofLen len)
  if hdr.returned = false then ⟨hdr.sent, none, hdr.turns⟩
  else if hdr.sent.length ≠ sizeofLen then ⟨hdr.sent, some (-1), hdr.turns⟩
  else match cmd with
    | none => ⟨hdr.sent, some 0, hdr.turns⟩
    | some s =>
      let data := writeAll hdr.turns (s ++ [0])
      if data.returned = false then ⟨hdr.sent ++ data.sent, none, data.turns⟩
      else if data.sent.length ≠ len then ⟨hdr.sent ++ data.sent, some (-1), data.turns⟩
      else ⟨hdr.sent ++ data.sent, some 0, data.turns⟩

/-- Strings are sent one after the other, until a call fails. -/
def sendCmds (order : ByteOrder) : List SendTurn → List (List Byte) → Sent
  | turns, [] => ⟨[], some 0, turns⟩
  | turns, s :: cmds =>
    let first := mpathSendCmd order turns (some s)
    if first.ret = some 0 then
      let rest := sendCmds order first.turns cmds
      { rest with wire := first.wire ++ rest.wire }
    else first

/-- `mpath_recv_reply_len` once the header is read. -/
def checkLen (order : ByteOrder) (hdr : List Byte) : Except Errno ℕ :=
  if hdr.length ≠ sizeofLen then .error .io
  else
    let len := order.ofBytes hdr
    if len ≤ 0 ∨ maxReplyLen ≤ len then .error .range else .ok len

/-- `mpath_recv_reply_len`. -/
def mpathRecvReplyLen (order : ByteOrder) (s : Socket) : Option (Except Errno ℕ × Socket) :=
  (readAll s sizeofLen).map fun r => (r.1.bind (checkLen order), r.2)

/-- `mpath_recv_reply_data` once the reply is read. -/
def terminate (len : ℕ) (reply : List Byte) : Except Errno (List Byte) :=
  if reply.length ≠ len then .error .io else .ok (reply.set (len - 1) 0)

/-- `mpath_recv_reply_data`: what is in the buffer when it returns 0. -/
def mpathRecvReplyData (s : Socket) (len : ℕ) : Option (Except Errno (List Byte) × Socket) :=
  (readAll s len).map fun r => (r.1.bind (terminate len), r.2)

/-- What `mpath_recv_reply` returns and hands out as `*reply`, `none` for `NULL`. -/
structure Received where
  ret : ℤ
  errno : Option Errno
  reply : Option (List Byte)
  deriving DecidableEq, Repr

def failed (e : Errno) : Received := ⟨-1, some e, none⟩

def delivered (reply : List Byte) : Received := ⟨0, none, some reply⟩

def handOut : Except Errno (List Byte) → Received
  | .error e => failed e
  | .ok reply => delivered reply

/-- `mpath_recv_reply`; `malloc` tells whether there is memory for the reply. -/
def mpathRecvReply (order : ByteOrder) (malloc : Bool) (s : Socket) : Option (Received × Socket) :=
  (mpathRecvReplyLen order s).bind fun
    | (.error e, s) => some (failed e, s)
    | (.ok len, s) =>
      if malloc = false then some (failed .other, s)
      else (mpathRecvReplyData s len).map fun r => (handOut r.1, r.2)

/-- Replies are read one after the other, until a call fails; with the answer of each
`malloc`. -/
def recvReplies (order : ByteOrder) : List Bool → Socket → List Received × Socket
  | [], s => ([], s)
  | malloc :: mallocs, s =>
    match mpathRecvReply order malloc s with
    | none => ([], s)
    | some (r, s) =>
      if r.ret = 0 then
        (r :: (recvReplies order mallocs s).1, (recvReplies order mallocs s).2)
      else ([r], s)

/-- The length that the stream announces. -/
def announced (order : ByteOrder) (bytes : List Byte) : ℕ := order.ofBytes (bytes.take sizeofLen)

/-- The packet at the front of the stream is one that can be received: it is announced
with a length in the range, and complete. -/
def Complete (order : ByteOrder) (bytes : List Byte) : Prop :=
  sizeofLen ≤ bytes.length ∧ 0 < announced order bytes ∧ announced order bytes < maxReplyLen ∧
    sizeofLen + announced order bytes ≤ bytes.length

instance (order : ByteOrder) (bytes : List Byte) : Decidable (Complete order bytes) :=
  inferInstanceAs (Decidable (_ ∧ _))

/-- The packet at the front of the stream, and what follows it. -/
def firstPacket (order : ByteOrder) (bytes : List Byte) : Option (List Byte × List Byte) :=
  if Complete order bytes then
    some (((bytes.drop sizeofLen).take (announced order bytes)).set (announced order bytes - 1) 0,
      bytes.drop (sizeofLen + announced order bytes))
  else none

/-- The packet of a string. -/
def packet (order : ByteOrder) (s : List Byte) : List Byte :=
  order.toBytes sizeofLen (s.length + 1) ++ (s ++ [0])

theorem packet_length (order : ByteOrder) (s : List Byte) :
    (packet order s).length = sizeofLen + (s.length + 1) := by
  simp [packet]

variable {order : ByteOrder}

theorem announced_append {bytes : List Byte} (h : sizeofLen ≤ bytes.length) (more : List Byte) :
    announced order (bytes ++ more) = announced order bytes := by
  rw [announced, announced, List.take_append_of_le_length h]

theorem firstPacket_delimits : Delimits (firstPacket order) where
  append := by
    intro bytes rest frame more h
    have hc : Complete order bytes := by
      by_contra hc
      rw [firstPacket, if_neg hc] at h
      cases h
    have hann := @announced_append order _ hc.1 more
    have hc' : Complete order (bytes ++ more) := by
      obtain ⟨h8, hpos, hmax, hlen⟩ := hc
      rw [Complete, hann, List.length_append]
      omega
    rw [firstPacket, if_pos hc] at h
    cases h
    rw [firstPacket, if_pos hc', hann]
    obtain ⟨h8, hpos, hmax, hlen⟩ := hc
    have hdata : (bytes.drop sizeofLen).length = bytes.length - sizeofLen := List.length_drop
    rw [List.drop_append_of_le_length hlen, List.drop_append_of_le_length h8,
      List.take_append_of_le_length (by omega)]
  nil := rfl

/-- A string is received with its NUL, whatever follows its packet. -/
theorem firstPacket_packet {s : List Byte} (h : s.length + 1 < maxReplyLen) :
    Decodes (firstPacket order) (packet order) (· ++ [0]) s := by
  intro rest
  have hrange : s.length + 1 < 256 ^ sizeofLen := h.trans (by decide)
  have hlen : (order.toBytes sizeofLen (s.length + 1)).length = sizeofLen :=
    ByteOrder.toBytes_length _ _ _
  have hann : announced order (packet order s ++ rest) = s.length + 1 := by
    rw [announced, packet, List.append_assoc, List.take_left' hlen, ByteOrder.ofBytes_toBytes _ hrange]
  have hc : Complete order (packet order s ++ rest) := by
    rw [Complete, hann, List.length_append, packet_length]
    omega
  have hdata : (packet order s ++ rest).drop sizeofLen = (s ++ [0]) ++ rest := by
    rw [packet, List.append_assoc, List.drop_left' hlen]
  have hrest : (packet order s ++ rest).drop (sizeofLen + (s.length + 1)) = rest :=
    List.drop_left' (packet_length order s)
  rw [firstPacket, if_pos hc, hann, hdata, hrest, List.take_left' (by simp)]
  simp

theorem checkLen_take {bytes : List Byte} {len : ℕ} :
    checkLen order (bytes.take sizeofLen) = .ok len ↔
      sizeofLen ≤ bytes.length ∧ len = announced order bytes ∧ 0 < len ∧ len < maxReplyLen := by
  unfold checkLen
  dsimp only
  rw [List.length_take]
  split_ifs with h8 hrange
  · constructor
    · intro h
      cases h
    · intro h
      omega
  · change announced order bytes ≤ 0 ∨ maxReplyLen ≤ announced order bytes at hrange
    constructor
    · intro h
      cases h
    · intro h
      omega
  · change ¬ (announced order bytes ≤ 0 ∨ maxReplyLen ≤ announced order bytes) at hrange
    constructor
    · intro h
      obtain ⟨hpos, hmax⟩ := not_or.mp hrange
      cases h
      exact ⟨by omega, rfl, Nat.lt_of_not_le hpos, Nat.lt_of_not_le hmax⟩
    · rintro ⟨-, rfl, -⟩
      rfl

theorem terminate_take {bytes reply : List Byte} {len : ℕ} :
    terminate len (bytes.take len) = .ok reply ↔
      len ≤ bytes.length ∧ reply = (bytes.take len).set (len - 1) 0 := by
  unfold terminate
  rw [List.length_take]
  split_ifs with hall
  · constructor
    · intro h
      cases h
    · intro h
      omega
  · constructor
    · intro h
      cases h
      exact ⟨by omega, rfl⟩
    · rintro ⟨-, rfl⟩
      rfl

/-- A length that is announced is within the range, and was the front of the stream. -/
theorem mpathRecvReplyLen_ok {s s' : Socket} {len : ℕ}
    (h : mpathRecvReplyLen order s = some (.ok len, s')) :
    sizeofLen ≤ s.bytes.length ∧ len = announced order s.bytes ∧ 0 < len ∧ len < maxReplyLen ∧
      s'.bytes = s.bytes.drop sizeofLen := by
  obtain ⟨⟨got, s₁⟩, hread, hgot⟩ := Option.map_eq_some_iff.mp h
  cases got with
  | error e => cases hgot
  | ok hdr =>
    obtain ⟨hlen, rfl⟩ := Prod.mk.inj hgot
    obtain ⟨rfl, hs₁⟩ := readTurns_ok hread
    obtain ⟨h8, heq, hpos, hmax⟩ := checkLen_take.mp hlen
    exact ⟨h8, heq, hpos, hmax, hs₁⟩

theorem mpathRecvReplyData_ok {s s' : Socket} {len : ℕ} {reply : List Byte}
    (h : mpathRecvReplyData s len = some (.ok reply, s')) :
    len ≤ s.bytes.length ∧ reply = (s.bytes.take len).set (len - 1) 0 ∧
      s'.bytes = s.bytes.drop len := by
  obtain ⟨⟨got, s₁⟩, hread, hgot⟩ := Option.map_eq_some_iff.mp h
  cases got with
  | error e => cases hgot
  | ok bs =>
    obtain ⟨hreply, rfl⟩ := Prod.mk.inj hgot
    obtain ⟨rfl, hs₁⟩ := readTurns_ok hread
    obtain ⟨hall, heq⟩ := terminate_take.mp hreply
    exact ⟨hall, heq, hs₁⟩

/-- Whatever the answers are, `mpath_recv_reply` hands out the packet at the front of the
stream and leaves what follows it, or it fails and hands out nothing. -/
theorem mpathRecvReply_result {malloc : Bool} {s s' : Socket} {r : Received}
    (h : mpathRecvReply order malloc s = some (r, s')) :
    (∃ reply, r = delivered reply ∧ firstPacket order s.bytes = some (reply, s'.bytes)) ∨
      ∃ e, r = failed e := by
  obtain ⟨⟨hdr, s₁⟩, hlen, hdata⟩ := Option.bind_eq_some_iff.mp h
  cases hdr with
  | error e =>
    cases hdata
    exact Or.inr ⟨e, rfl⟩
  | ok len =>
    obtain ⟨h8, rfl, hpos, hmax, hs₁⟩ := mpathRecvReplyLen_ok hlen
    dsimp only at hdata
    split_ifs at hdata with hmalloc
    · cases hdata
      exact Or.inr ⟨_, rfl⟩
    · obtain ⟨⟨reply, s₂⟩, hread, hreply⟩ := Option.map_eq_some_iff.mp hdata
      obtain ⟨rfl, rfl⟩ := Prod.mk.inj hreply
      cases reply with
      | error e => exact Or.inr ⟨e, rfl⟩
      | ok reply =>
        obtain ⟨hall, rfl, hs₂⟩ := mpathRecvReplyData_ok hread
        rw [hs₁, List.length_drop] at hall
        have hc : Complete order s.bytes := ⟨h8, hpos, hmax, by omega⟩
        refine Or.inl ⟨_, rfl, ?_⟩
        rw [firstPacket, if_pos hc, hs₂, hs₁, List.drop_drop]

/-- With enough answers that only interrupt a call or split the stream `mpath_recv_reply`
returns, and what is complete is handed out. -/
theorem mpathRecvReply_returns {s : Socket} (hclean : ∀ turn ∈ s.turns, ¬ turn.Fails)
    (hinputs : min (sizeofLen + announced order s.bytes) (s.bytes.length + 1) ≤ inputs s.turns) :
    ∃ r s', mpathRecvReply order true s = some (r, s') ∧
      (Complete order s.bytes → (∃ reply, r = delivered reply) ∧
        (∀ turn ∈ s'.turns, ¬ turn.Fails) ∧
        inputs s.turns ≤ inputs s'.turns + (sizeofLen + announced order s.bytes)) := by
  have hhdr : min sizeofLen (s.bytes.length + 1) ≤ inputs s.turns := by omega
  obtain ⟨turns, hread, hrest, hused⟩ := readAll_returns hclean hhdr
  have hlen : mpathRecvReplyLen order s =
      some (checkLen order (s.bytes.take sizeofLen), ⟨s.bytes.drop sizeofLen, turns⟩) := by
    rw [mpathRecvReplyLen, hread]
    rfl
  rw [mpathRecvReply, hlen]
  cases hcheck : checkLen order (s.bytes.take sizeofLen) with
  | error e =>
    refine ⟨failed e, _, rfl, fun hc => ?_⟩
    have hok := checkLen_take.mpr ⟨hc.1, rfl, hc.2.1, hc.2.2.1⟩
    cases hcheck.symm.trans hok
  | ok len =>
    obtain ⟨h8, rfl, hpos, hmax⟩ := checkLen_take.mp hcheck
    have hleft : min (announced order s.bytes) ((s.bytes.drop sizeofLen).length + 1) ≤
        inputs turns := by
      rw [List.length_drop]
      omega
    obtain ⟨turns', hread', hrest', hused'⟩ :=
      readAll_returns (s := ⟨s.bytes.drop sizeofLen, turns⟩) hrest hleft
    refine ⟨handOut (terminate (announced order s.bytes)
      ((s.bytes.drop sizeofLen).take (announced order s.bytes))),
      ⟨(s.bytes.drop sizeofLen).drop (announced order s.bytes), turns'⟩, ?_, fun hc => ?_⟩
    · show Option.map _ ((readAll _ _).map _) = _
      rw [hread']
      rfl
    · have hall : announced order s.bytes ≤ (s.bytes.drop sizeofLen).length := by
        rw [List.length_drop]
        exact Nat.le_sub_of_add_le' hc.2.2.2
      refine ⟨⟨_, by rw [terminate_take.mpr ⟨hall, rfl⟩]; rfl⟩, hrest', ?_⟩
      change inputs turns ≤ inputs turns' + min _ ((s.bytes.drop sizeofLen).length + 1) at hused'
      show inputs s.turns ≤ inputs turns' + _
      omega

end MultipathTools.MpathCmd
