import MultipathTools.MpathCmd.Packet

/-! Commands that are sent over a stream are received one by one, however the stream is
split, and whatever goes wrong no part of a reply is handed out. -/
namespace MultipathTools.MpathCmd

variable {order : ByteOrder}

/-- What has been sent of a command is always the front of its packet; all of it once the
call returns 0. -/
theorem mpathSendCmd_wire (turns : List SendTurn) (s : List Byte) :
    (mpathSendCmd order turns (some s)).wire <+: packet order s ∧
      ((mpathSendCmd order turns (some s)).ret = some 0 →
        (mpathSendCmd order turns (some s)).wire = packet order s) := by
  have hhdr := writeAll_sent turns (order.toBytes sizeofLen (s.length + 1))
  unfold mpathSendCmd packet
  dsimp only
  split_ifs with hret hlen hret' hlen'
  · refine ⟨hhdr.trans (List.prefix_append _ _), ?_⟩
    intro h
    cases h
  · refine ⟨hhdr.trans (List.prefix_append _ _), ?_⟩
    intro h
    cases h
  all_goals
    rw [ne_eq, not_not] at hlen
    have hall := hhdr.eq_of_length (hlen.trans (ByteOrder.toBytes_length _ _ _).symm)
    have hdata := writeAll_sent
      (writeAll turns (order.toBytes sizeofLen (s.length + 1))).turns (s ++ [0])
    rw [hall]
  · refine ⟨(List.prefix_append_right_inj _).mpr hdata, ?_⟩
    intro h
    cases h
  · refine ⟨(List.prefix_append_right_inj _).mpr hdata, ?_⟩
    intro h
    cases h
  · rw [ne_eq, not_not] at hlen'
    have hall' := hdata.eq_of_length (hlen'.trans (by simp))
    rw [hall']
    exact ⟨List.prefix_rfl, fun _ => rfl⟩

/-- What is on the stream is always the front of the packets of the commands. -/
theorem sendCmds_wire (turns : List SendTurn) (cmds : List (List Byte)) :
    (sendCmds order turns cmds).wire <+: cmds.flatMap (packet order) := by
  induction cmds generalizing turns with
  | nil => exact List.prefix_rfl
  | cons s cmds ih =>
    obtain ⟨hpart, hall⟩ := @mpathSendCmd_wire order turns s
    rw [sendCmds, List.flatMap_cons]
    dsimp only
    split_ifs with hret
    · show _ ++ _ <+: _
      rw [hall hret]
      exact (List.prefix_append_right_inj _).mpr (ih _)
    · exact hpart.trans (List.prefix_append _ _)

theorem mpathSendCmd_returns {turns : List SendTurn} {s : List Byte}
    (hclean : ∀ turn ∈ turns, ¬ turn.Stops) (htakes : (packet order s).length ≤ takes turns) :
    ∃ rest, mpathSendCmd order turns (some s) = ⟨packet order s, some 0, rest⟩ ∧
      (∀ turn ∈ rest, ¬ turn.Stops) ∧ takes turns ≤ takes rest + (packet order s).length := by
  have hlen : (order.toBytes sizeofLen (s.length + 1)).length = sizeofLen :=
    ByteOrder.toBytes_length _ _ _
  have hdata : (s ++ [(0 : Byte)]).length = s.length + 1 := by simp
  rw [packet_length] at htakes ⊢
  obtain ⟨rest, hhdr, hrest, hused⟩ :=
    @writeAll_returns turns (order.toBytes sizeofLen (s.length + 1)) hclean (by omega)
  obtain ⟨rest', hwrite, hrest', hused'⟩ := @writeAll_returns rest (s ++ [0]) hrest (by omega)
  refine ⟨rest', ?_, hrest', by omega⟩
  unfold mpathSendCmd
  dsimp only
  rw [hhdr]
  dsimp only
  rw [hwrite]
  dsimp only
  rw [if_neg (by simp), if_neg (by simp), if_neg (by simp), if_neg (by simp)]
  rfl

theorem sendCmds_returns {turns : List SendTurn} {cmds : List (List Byte)}
    (hclean : ∀ turn ∈ turns, ¬ turn.Stops)
    (htakes : (cmds.flatMap (packet order)).length ≤ takes turns) :
    (sendCmds order turns cmds).wire = cmds.flatMap (packet order) ∧
      (sendCmds order turns cmds).ret = some 0 := by
  induction cmds generalizing turns with
  | nil => exact ⟨rfl, rfl⟩
  | cons s cmds ih =>
    rw [List.flatMap_cons, List.length_append] at htakes
    obtain ⟨rest, hsend, hrest, hused⟩ := @mpathSendCmd_returns order _ s hclean (by omega)
    obtain ⟨hwire, hret⟩ := ih hrest (by omega)
    rw [sendCmds, hsend, List.flatMap_cons]
    dsimp only
    rw [if_pos rfl, hwire]
    exact ⟨rfl, hret⟩

/-- The replies that have been handed out. -/
def replies (rs : List Received) : List (List Byte) := rs.filterMap Received.reply

theorem recvReplies_delivered {malloc : Bool} {s s' : Socket} {reply : List Byte}
    (h : mpathRecvReply order malloc s = some (delivered reply, s')) (mallocs : List Bool) :
    recvReplies order (malloc :: mallocs) s =
      (delivered reply :: (recvReplies order mallocs s').1, (recvReplies order mallocs s').2) := by
  rw [recvReplies, h]
  rfl

theorem recvReplies_failed {malloc : Bool} {s s' : Socket} {e : Errno}
    (h : mpathRecvReply order malloc s = some (failed e, s')) (mallocs : List Bool) :
    recvReplies order (malloc :: mallocs) s = ([failed e], s') := by
  rw [recvReplies, h]
  rfl

theorem recvReplies_waits {malloc : Bool} {s : Socket} (h : mpathRecvReply order malloc s = none)
    (mallocs : List Bool) : recvReplies order (malloc :: mallocs) s = ([], s) := by
  rw [recvReplies, h]

/-- Whatever the answers are, the replies are the first packets of the stream. -/
theorem recvReplies_replies (mallocs : List Bool) (s : Socket) :
    replies (recvReplies order mallocs s).1 <+:
      (decodeAll (firstPacket order) mallocs.length s.bytes).1 := by
  induction mallocs generalizing s with
  | nil => exact List.prefix_rfl
  | cons malloc mallocs ih =>
    cases h : mpathRecvReply order malloc s with
    | none =>
      rw [recvReplies_waits h]
      exact List.nil_prefix
    | some r =>
      rcases mpathRecvReply_result h with ⟨reply, hr, hfirst⟩ | ⟨e, hr⟩
      · obtain ⟨r, s'⟩ := r
        subst hr
        rw [recvReplies_delivered h, List.length_cons, decodeAll_cons hfirst]
        exact List.cons_prefix_cons.mpr ⟨rfl, ih s'⟩
      · obtain ⟨r, s'⟩ := r
        subst hr
        rw [recvReplies_failed h]
        exact List.nil_prefix

/-- Every call hands out a whole reply, or it fails and hands out nothing. -/
theorem recvReplies_ret (mallocs : List Bool) (s : Socket) :
    ∀ r ∈ (recvReplies order mallocs s).1,
      (∃ reply, r = delivered reply) ∨ ∃ e, r = failed e := by
  induction mallocs generalizing s with
  | nil =>
    intro r h
    cases h
  | cons malloc mallocs ih =>
    intro r hr
    cases h : mpathRecvReply order malloc s with
    | none =>
      rw [recvReplies_waits h] at hr
      cases hr
    | some first =>
      obtain ⟨first, s'⟩ := first
      rcases mpathRecvReply_result h with ⟨reply, rfl, -⟩ | ⟨e, rfl⟩
      · rw [recvReplies_delivered h] at hr
        rcases List.mem_cons.mp hr with rfl | hr
        · exact Or.inl ⟨reply, rfl⟩
        · exact ih s' r hr
      · rw [recvReplies_failed h] at hr
        exact Or.inr ⟨e, List.mem_singleton.mp hr⟩

/-- A packet at the front of the stream is received, with enough answers that do not fail. -/
theorem mpathRecvReply_packet {s : Socket} {reply rest : List Byte}
    (hfirst : firstPacket order s.bytes = some (reply, rest))
    (hclean : ∀ turn ∈ s.turns, ¬ turn.Fails) (hinputs : s.bytes.length ≤ inputs s.turns) :
    ∃ turns, mpathRecvReply order true s = some (delivered reply, ⟨rest, turns⟩) ∧
      (∀ turn ∈ turns, ¬ turn.Fails) ∧ rest.length ≤ inputs turns := by
  have hc : Complete order s.bytes := by
    by_contra hc
    rw [firstPacket, if_neg hc] at hfirst
    cases hfirst
  have hcomplete := hc.2.2.2
  have hrest : rest.length = s.bytes.length - (sizeofLen + announced order s.bytes) := by
    rw [firstPacket, if_pos hc] at hfirst
    cases hfirst
    exact List.length_drop
  obtain ⟨r, ⟨bytes, turns⟩, hrecv, hdone⟩ :=
    @mpathRecvReply_returns order s hclean (by omega)
  obtain ⟨⟨got, rfl⟩, hclean', hused⟩ := hdone hc
  rcases mpathRecvReply_result hrecv with ⟨got', hr, hfirst'⟩ | ⟨e, hr⟩
  · cases hr
    cases hfirst.symm.trans hfirst'
    refine ⟨turns, hrecv, hclean', ?_⟩
    change inputs s.turns ≤ inputs turns + _ at hused
    omega
  · cases hr

/-- Every packet of a stream is received, with enough answers that do not fail. -/
theorem recvReplies_returns {cmds : List (List Byte)} {s : Socket}
    (hlen : ∀ c ∈ cmds, c.length + 1 < maxReplyLen)
    (hbytes : s.bytes = cmds.flatMap (packet order)) (hclean : ∀ turn ∈ s.turns, ¬ turn.Fails)
    (hinputs : s.bytes.length ≤ inputs s.turns) :
    (recvReplies order (cmds.map fun _ => true) s).1 = cmds.map (fun c => delivered (c ++ [0])) ∧
      (recvReplies order (cmds.map fun _ => true) s).2.bytes = [] := by
  induction cmds generalizing s with
  | nil => exact ⟨rfl, hbytes⟩
  | cons c cmds ih =>
    have hfirst : firstPacket order s.bytes = some (c ++ [0], cmds.flatMap (packet order)) := by
      rw [hbytes, List.flatMap_cons]
      exact firstPacket_packet (hlen c List.mem_cons_self) _
    obtain ⟨turns, hrecv, hclean', hinputs'⟩ := mpathRecvReply_packet hfirst hclean hinputs
    obtain ⟨hall, hnone⟩ := ih (s := ⟨cmds.flatMap (packet order), turns⟩)
      (fun d hd => hlen d (List.mem_cons_of_mem c hd)) rfl hclean' hinputs'
    rw [List.map_cons, List.map_cons, recvReplies_delivered hrecv, hall]
    exact ⟨rfl, hnone⟩

/-- Commands of a length that can be received are sent in packets. Whatever `poll`, `recv`,
`send` and `malloc` answer, and wherever the sender stops, the replies that are handed out
are the first strings with their NUL, in order, and a call that does not hand out one
returns -1 and `NULL`. If the answers only interrupt the calls and split the stream, every
string is received. On any stream, if the first packet is announced with 0 or too many
bytes or the stream ends before it is complete, the call returns -1 and hands out nothing. -/
theorem commands_delivered (order : ByteOrder) (cmds : List (List Byte))
    (hlen : ∀ s ∈ cmds, s.length + 1 < maxReplyLen) :
    (∀ sends turns mallocs,
      let received := (recvReplies order mallocs ⟨(sendCmds order sends cmds).wire, turns⟩).1
      replies received <+: cmds.map (· ++ [0]) ∧
        ∀ r ∈ received, r.ret = 0 ∧ r.reply.isSome ∨ r.ret = -1 ∧ r.reply = none) ∧
    (∀ sends turns, (∀ turn ∈ sends, ¬ turn.Stops) → (∀ turn ∈ turns, ¬ turn.Fails) →
      (cmds.flatMap (packet order)).length ≤ takes sends →
      (cmds.flatMap (packet order)).length ≤ inputs turns →
      let sent := sendCmds order sends cmds
      let received := recvReplies order (cmds.map fun _ => true) ⟨sent.wire, turns⟩
      sent.ret = some 0 ∧ received.1 = cmds.map (fun s => delivered (s ++ [0])) ∧
        received.2.bytes = []) ∧
    ∀ (s : Socket) (malloc : Bool),
      (s.bytes.length < sizeofLen ∨ announced order s.bytes = 0 ∨
        maxReplyLen ≤ announced order s.bytes ∨
        s.bytes.length < sizeofLen + announced order s.bytes) →
      (∀ r s', mpathRecvReply order malloc s = some (r, s') → r.ret = -1 ∧ r.reply = none) ∧
      ((∀ turn ∈ s.turns, ¬ turn.Fails) → s.bytes.length + 1 ≤ inputs s.turns →
        (mpathRecvReply order true s).isSome) := by
  refine ⟨fun sends turns mallocs => ⟨?_, fun r hr => ?_⟩, ?_, fun s malloc hincomplete => ?_⟩
  · exact (recvReplies_replies mallocs _).trans (decodeAll_of_isPrefix firstPacket_delimits
      (fun s hs => firstPacket_packet (hlen s hs)) (sendCmds_wire sends cmds) _)
  · rcases recvReplies_ret _ _ r hr with ⟨reply, rfl⟩ | ⟨e, rfl⟩
    · exact Or.inl ⟨rfl, rfl⟩
    · exact Or.inr ⟨rfl, rfl⟩
  · intro sends turns hsends hturns htakes hinputs
    obtain ⟨hwire, hret⟩ := sendCmds_returns hsends htakes
    dsimp only
    rw [hwire]
    exact ⟨hret, recvReplies_returns hlen rfl hturns hinputs⟩
  · have hc : ¬ Complete order s.bytes := by
      rintro ⟨h8, hpos, hmax, hall⟩
      omega
    constructor
    · intro r s' hrecv
      rcases mpathRecvReply_result hrecv with ⟨reply, -, hfirst⟩ | ⟨e, rfl⟩
      · rw [firstPacket, if_neg hc] at hfirst
        cases hfirst
      · exact ⟨rfl, rfl⟩
    · intro hclean hinputs
      obtain ⟨r, s', hrecv, -⟩ := @mpathRecvReply_returns order s hclean (by omega)
      rw [hrecv]
      rfl

/-- Two commands over a stream that takes and gives single bytes, with interrupted calls. -/
theorem commands_delivered_bytewise :
    (∀ s ∈ [[104, 105], [111, 107]], ((s : List Byte).length + 1 < maxReplyLen)) ∧
    let sent := sendCmds .little (.fails true :: List.replicate 22 (.takes 1)) [[104, 105], [111, 107]]
    (recvReplies .little [true, true]
      ⟨sent.wire, .noInput :: .recvFails true :: List.replicate 22 (.input 0)⟩).1 =
        [delivered [104, 105, 0], delivered [111, 107, 0]] := by
  have hlen : ∀ s ∈ [[104, 105], [111, 107]], ((s : List Byte).length + 1 < maxReplyLen) := by
    decide
  refine ⟨hlen, ?_⟩
  exact ((commands_delivered .little [[104, 105], [111, 107]] hlen).2.1 _ _ (by decide) (by decide)
    (by decide) (by decide)).2.1

end MultipathTools.MpathCmd
