import MultipathTools.Log.Ring

/-! The log area is a queue. -/
namespace MultipathTools.Log

variable {mem : ℕ → Byte} {la la' : LogArea} {front back q : List Message} {m : Message} {prio : ℤ}
  {buff : List Byte}

/-- The message is in front of the other in the area. -/
def Before (m m' : Message) : Prop := m.stop ≤ m'.addr

/-- The queue of the area: the messages from the head on, then those from the start of the area on. -/
structure Rep (la : LogArea) (front back : List Message) : Prop where
  empty : la.empty = true ↔ front = []
  frontBefore : front.Pairwise Before
  backBefore : back.Pairwise Before
  head : ∀ m ∈ front.head?, m.addr = la.head
  start : ∀ m ∈ back.head?, m.addr = 0
  wrapped : ∀ m ∈ back, front ≠ [] ∧ m.stop < la.head
  inside : ∀ m ∈ front, la.head ≤ m.addr ∧ m.stop ≤ areaSize
  parked : front = [] → la.tail = la.head ∧ la.head + logmsgSize ≤ areaSize
  tail : ∀ m ∈ (front ++ back).getLast?, la.tail = m.addr
  held : Held la.mem (front ++ back)

/-- The queued messages. -/
def Queued (la : LogArea) (q : List Message) : Prop := ∃ front back, q = front ++ back ∧ Rep la front back

/-- A place for a message: behind the last queued one or at the start of the area, without
overwriting a queued message and without ending where one begins. -/
def Usable (q : List Message) (len p : ℕ) : Prop :=
  p + len ≤ areaSize ∧ (p = 0 ∨ ∃ m ∈ q.getLast?, p = m.stop) ∧
    ∀ m ∈ q, m.stop ≤ p ∨ p + len < m.addr

section Queue

theorem Rep.apart (h : Rep la front back) : (front ++ back).Pairwise Apart := by
  refine List.pairwise_append.mpr ⟨h.frontBefore.imp .inl, h.backBefore.imp .inl, ?_⟩
  intro m hm m' hm'
  exact .inr ((h.wrapped m' hm').2.le.trans (h.inside m hm).1)

theorem Rep.stop_le (h : Rep la front back) (hm : m ∈ front ++ back) : m.stop ≤ areaSize := by
  rcases List.mem_append.mp hm with hm | hm
  · exact (h.inside m hm).2
  · obtain ⟨hne, hstop⟩ := h.wrapped m hm
    obtain ⟨m', front', rfl⟩ := List.exists_cons_of_ne_nil hne
    have hle := h.inside m' List.mem_cons_self
    have hstop' := m'.le_stop
    omega

/-- What the last of a list of messages stands behind. -/
theorem stop_le_last {l : List Message} (hl : l.Pairwise Before) {last : Message}
    (hlast : last ∈ l.getLast?) (hm : m ∈ l) : m.stop ≤ last.stop := by
  obtain ⟨init, rfl⟩ := List.getLast?_eq_some_iff.mp hlast
  rcases List.mem_append.mp hm with hm | hm
  · have hbefore : m.stop ≤ last.addr :=
      (List.pairwise_append.mp hl).2.2 m hm last (List.mem_singleton_self _)
    have hstop := last.le_stop
    omega
  · rw [List.mem_singleton.mp hm]

theorem pairwise_concat {l : List Message} (hl : l.Pairwise Before)
    (hm : ∀ m' ∈ l, m'.stop ≤ m.addr) : (l ++ [m]).Pairwise Before := by
  refine List.pairwise_append.mpr ⟨hl, List.pairwise_singleton _ _, fun m' hm' m'' hm'' => ?_⟩
  rw [List.mem_singleton.mp hm'']
  exact hm m' hm'

theorem Rep.str_eq (h : Rep la front back) (hm : m ∈ front ++ back) : la.str m.addr = some m.str := by
  have hstored := h.held.stored m hm
  have hstop := h.stop_le hm
  have hle := m.le_stop
  refine loadUntil_eq hstored.noNul hstored.str ?_
  omega

end Queue

section Stage

theorem write_eq {a : ℕ} {bs : List Byte} (h : a + bs.length ≤ areaSize) :
    la.write a bs = some { la with mem := store la.mem a bs } := if_pos h

/-- A message is staged. -/
theorem stage_eq {l : ℕ} (hroom : la.tail + msgLen buff ≤ areaSize) (hl : l + logmsgSize ≤ areaSize)
    (hfits : ¬(la.tail < la.head ∧ la.head - la.tail ≤ msgLen buff)) :
    stage la l prio buff = some (0, { la with
      empty := false
      mem := stagedMem la.mem la.tail l la.head prio buff }) := by
  have hlen := le_msgLen buff
  obtain ⟨hmsg, hnext, hptr, -⟩ := sizes
  unfold stage
  rw [if_neg hfits, write_eq]
  · rw [Option.bind_eq_bind, Option.bind_some, write_eq]
    · rw [Option.bind_some, write_eq]
      · rw [Option.bind_some, write_eq]
        · rfl
        · rw [toBe_length]
          show la.tail + nextOffset + ptrSize ≤ areaSize
          omega
      · rw [toBe_length]
        omega
    · rw [List.length_append, List.length_singleton]
      show la.tail + logmsgSize + _ ≤ areaSize
      omega
  · rw [shortBytes, toBe_length]
    omega

theorem logEnqueue_eq {t : ℕ} (ht : la.nextTail = some t) (prio : ℤ) (text : Text) :
    logEnqueue la prio text =
      if la.head ≤ t ∧ areaSize < t + msgLen (text.1.take (maxMsgSize - 1)) then
        if la.head = 0 then some (1, la)
        else
          stage { la with tail := 0, head := if la.empty then 0 else la.head } la.tail prio
            (text.1.take (maxMsgSize - 1))
      else stage { la with tail := t } la.tail prio (text.1.take (maxMsgSize - 1)) := by
  unfold logEnqueue
  rw [ht, Option.bind_some]
  dsimp only
  refine if_congr (and_congr_right fun _ => ?_) rfl rfl
  omega

end Stage

section Enqueue

variable {text : Text}

theorem take_spec (text : Text) : (text.1.take (maxMsgSize - 1)).length < maxMsgSize ∧
    0 ∉ text.1.take (maxMsgSize - 1) := by
  refine ⟨?_, fun hmem => text.2 (List.mem_of_mem_take hmem)⟩
  rw [List.length_take]
  exact (Nat.min_le_left _ _).trans_lt (by decide)

/-- The result of `log_enqueue`, with the queue before it. -/
inductive Enqueued (la : LogArea) (q : List Message) (prio : ℤ) (buff : List Byte) :
    Option (ℤ × LogArea) → Prop
  | queued (la' : LogArea) (m : Message) (hprio : m.prio = toShort prio) (hstr : m.str = buff)
      (hq : Queued la' (q ++ [m])) (husable : ∃ p, Usable q (msgLen buff) p)
      (hplace : Usable q (msgLen buff) m.addr ∨ q = [] ∧ (m.addr = 0 ∨ m.addr = la.tail)) :
      Enqueued la q prio buff (some (0, la'))
  | dropped (hfull : ¬∃ p, Usable q (msgLen buff) p) : Enqueued la q prio buff (some (1, la))

theorem Enqueued.of_empty (h : Rep la [] back) (hbuff : buff.length < maxMsgSize) (hnul : 0 ∉ buff)
    {t : ℕ} (hroom : t + msgLen buff ≤ areaSize)
    (ht : t = la.tail ∨ t = 0 ∧ t + msgLen buff ≤ la.tail + nextOffset) :
    Enqueued la ([] ++ back) prio buff (stage { la with tail := t, head := t } la.tail prio buff) := by
  have hlen := le_msgLen buff
  have hmax := msgLen_le hbuff
  obtain ⟨hmsg, hnext, hptr, hmax', harea⟩ := sizes
  obtain ⟨htail, hpark⟩ := h.parked rfl
  have hback : back = [] := List.eq_nil_iff_forall_not_mem.mpr fun m hm => (h.wrapped m hm).1 rfl
  subst hback
  rw [stage_eq]
  · refine .queued _ ⟨t, toShort prio, buff⟩ rfl rfl ⟨[⟨t, toShort prio, buff⟩], [], rfl, ?_⟩
      ⟨0, ?_, .inl rfl, nofun⟩ (.inr ⟨rfl, ht.symm.imp And.left id⟩)
    · have hstop : Message.stop ⟨t, toShort prio, buff⟩ = t + msgLen buff := rfl
      constructor
      · exact iff_of_false Bool.false_ne_true (List.cons_ne_nil _ _)
      · exact List.pairwise_singleton _ _
      · exact List.Pairwise.nil
      · rintro m ⟨⟩
        rfl
      · exact nofun
      · exact nofun
      · intro m hm
        rw [List.mem_singleton.mp hm, hstop]
        exact ⟨le_rfl, hroom⟩
      · exact nofun
      · rintro m ⟨⟩
        rfl
      · refine ⟨fun m hm => ?_, List.isChain_singleton _⟩
        rw [List.mem_singleton.mp hm]
        apply stored_stagedMem hbuff hnul
        show la.tail = t ∨ la.tail + logmsgSize ≤ t ∨ t + msgLen buff ≤ la.tail + nextOffset
        omega
    · omega
  · exact hroom
  · omega
  · exact fun hlt => Nat.lt_irrefl _ hlt.1

theorem Rep.exists_last (h : Rep la front back) (hne : front ++ back ≠ []) :
    ∃ init last, front ++ back = init ++ [last] ∧ la.tail = last.addr := by
  have hlast := List.getLast?_eq_some_getLast hne
  refine ⟨_, _, (List.dropLast_append_getLast hne).symm, h.tail _ hlast⟩

/-- A message that fits behind the last one, or in front of the first one. -/
theorem Enqueued.of_place (h : Rep la front back) (hbuff : buff.length < maxMsgSize) (hnul : 0 ∉ buff)
    {init : List Message} {last : Message} (hq : front ++ back = init ++ [last])
    {t : ℕ} {front' back' : List Message}
    (hnew : front' ++ back' = front ++ back ++ [⟨t, toShort prio, buff⟩])
    (husable : Usable (front ++ back) (msgLen buff) t)
    (hfits : ¬(t < la.head ∧ la.head - t ≤ msgLen buff)) (hfront : front'.Pairwise Before)
    (hback : back'.Pairwise Before) (hhead : front'.head? = front.head?)
    (hstart : ∀ m ∈ back'.head?, m.addr = 0)
    (hwrapped : ∀ m ∈ back', m.stop < la.head)
    (hinside : ∀ m ∈ front', la.head ≤ m.addr ∧ m.stop ≤ areaSize) :
    Enqueued la (front ++ back) prio buff (stage { la with tail := t } la.tail prio buff) := by
  have hlen := le_msgLen buff
  obtain ⟨hroom, hend, hplace⟩ := husable
  have hne : front ≠ [] := by
    rintro rfl
    have hlast : last ∈ back := by
      rw [List.nil_append] at hq
      rw [hq]
      exact List.mem_append_right _ (List.mem_singleton_self _)
    exact (h.wrapped last hlast).1 rfl
  have htail : la.tail = last.addr := h.tail last (by rw [hq, List.getLast?_concat]; rfl)
  have hlastStop : last.stop ≤ areaSize :=
    h.stop_le (hq ▸ List.mem_append_right _ (List.mem_singleton_self _))
  have hlastLe := last.le_stop
  rw [stage_eq hroom (by rw [htail]; omega) hfits]
  refine .queued _ ⟨t, toShort prio, buff⟩ rfl rfl ⟨front', back', hnew.symm, ?_⟩
    ⟨t, hroom, hend, hplace⟩ (.inl ⟨hroom, hend, hplace⟩)
  have hne' : front' ≠ [] := by
    rintro rfl
    rw [List.head?_nil] at hhead
    exact hne (List.head?_eq_none_iff.mp hhead.symm)
  constructor
  · exact iff_of_false Bool.false_ne_true hne'
  · exact hfront
  · exact hback
  · rw [hhead]
    exact h.head
  · exact hstart
  · exact fun m hm => ⟨hne', hwrapped m hm⟩
  · exact hinside
  · exact fun hnil => absurd hnil hne'
  · intro m hm
    rw [hnew, List.getLast?_concat] at hm
    obtain rfl := Option.some.inj hm
    rfl
  · rw [hnew, hq]
    have hheld := h.held
    have hapart := h.apart
    rw [hq] at hheld hapart hplace
    show Held (stagedMem la.mem t la.tail la.head prio buff) _
    rw [htail]
    refine hheld.stage hapart (by omega) hbuff hnul fun m hm => ?_
    exact (hplace m hm).imp id le_of_lt

theorem stage_full {l : ℕ} (h : la.tail < la.head ∧ la.head - la.tail ≤ msgLen buff)
    (hempty : la.empty = false) : stage la l prio buff = some (1, { la with tail := l }) := by
  unfold stage
  rw [if_pos h, hempty]
  rfl

/-- A message has no place at the start of the area if the first one is too near. -/
theorem not_usable {p len : ℕ} (hfirst : ∃ m ∈ q, m.addr ≤ len) :
    Usable q len p → p ≠ 0 := by
  rintro ⟨-, -, hplace⟩ rfl
  obtain ⟨m, hm, hle⟩ := hfirst
  have hstop := m.le_stop
  have hm := hplace m hm
  omega

section Messages

variable {first last : Message} {init : List Message}

theorem Usable.zero_or_stop {len p : ℕ} (hq : q = init ++ [last]) (h : Usable q len p) :
    p = 0 ∨ p = last.stop := by
  obtain ⟨-, hzero | ⟨m, hm, hpm⟩, -⟩ := h
  · exact .inl hzero
  · rw [hq, List.getLast?_concat] at hm
    obtain rfl := Option.some.inj hm
    exact .inr hpm

theorem Rep.empty_eq_false (h : Rep la (first :: front) back) : la.empty = false := by
  rw [Bool.eq_false_iff]
  exact fun hempty => List.cons_ne_nil _ _ (h.empty.mp hempty)

/-- Where `log_enqueue` puts a message behind others. -/
theorem Rep.logEnqueue_eq (h : Rep la (first :: front) back)
    (hq : first :: front ++ back = init ++ [last]) (prio : ℤ) (text : Text) :
    logEnqueue la prio text =
      if la.head ≤ last.stop ∧ areaSize < last.stop + msgLen (text.1.take (maxMsgSize - 1)) then
        if la.head = 0 then some (1, la)
        else stage { la with tail := 0 } la.tail prio (text.1.take (maxMsgSize - 1))
      else stage { la with tail := last.stop } la.tail prio (text.1.take (maxMsgSize - 1)) := by
  have hlast : last ∈ first :: front ++ back :=
    hq ▸ List.mem_append_right _ (List.mem_singleton_self _)
  have htail : la.tail = last.addr := h.tail last (by rw [hq, List.getLast?_concat]; rfl)
  have hnext : la.nextTail = some last.stop := by
    unfold LogArea.nextTail
    rw [h.empty_eq_false, if_neg Bool.false_ne_true, htail, h.str_eq hlast]
    rfl
  have hhead : (if la.empty then 0 else la.head) = la.head :=
    if_neg (by rw [h.empty_eq_false]; exact Bool.false_ne_true)
  rw [Log.logEnqueue_eq hnext, hhead]

/-- All messages lie behind the head: the next one goes behind the last one, or to the start of the
area. -/
theorem Enqueued.of_unwrapped (h : Rep la (first :: front) [])
    (hq : first :: front ++ [] = init ++ [last]) (prio : ℤ) (text : Text) :
    Enqueued la (first :: front ++ []) prio (text.1.take (maxMsgSize - 1))
      (logEnqueue la prio text) := by
  obtain ⟨hbuff, hnul⟩ := take_spec text
  rw [h.logEnqueue_eq hq]
  generalize text.1.take (maxMsgSize - 1) = buff at hbuff hnul ⊢
  have hlen := le_msgLen buff
  have hfirst : first.addr = la.head := h.head first rfl
  have hgetLast : (first :: front).getLast? = some last := by
    rw [← List.append_nil (first :: front), hq, List.getLast?_concat]
  have hlastIn := h.inside last (List.mem_of_getLast? hgetLast)
  have hlastLe := last.le_stop
  have hstops : ∀ m ∈ first :: front, m.stop ≤ last.stop := fun m hm =>
    stop_le_last h.frontBefore hgetLast hm
  by_cases hfull : areaSize < last.stop + msgLen buff
  · have hcond : la.head ≤ last.stop ∧ areaSize < last.stop + msgLen buff := ⟨by omega, hfull⟩
    have hdrop (hle : la.head ≤ msgLen buff) :
        ¬∃ p, Usable (first :: front ++ []) (msgLen buff) p := by
      rintro ⟨p, hp⟩
      rcases hp.zero_or_stop hq with hzero | rfl
      · refine not_usable ⟨first, List.mem_cons_self, ?_⟩ hp hzero
        rwa [hfirst]
      · exact absurd hp.1 (by omega)
    rw [if_pos hcond]
    by_cases hstart : la.head = 0
    · rw [if_pos hstart]
      exact .dropped (hdrop (by omega))
    · rw [if_neg hstart]
      by_cases hle : la.head ≤ msgLen buff
      · have hstage : stage { la with tail := 0 } la.tail prio buff = some (1, la) :=
          stage_full ⟨Nat.pos_of_ne_zero hstart, hle⟩ h.empty_eq_false
        rw [hstage]
        exact .dropped (hdrop hle)
      · refine @Enqueued.of_place _ _ _ _ _ h hbuff hnul _ _ hq 0 (first :: front)
          [⟨0, toShort prio, buff⟩] ?_ ⟨?_, .inl rfl, ?_⟩ ?_ h.frontBefore
          (List.pairwise_singleton _ _) rfl ?_ ?_ h.inside
        · rw [List.append_nil]
        · omega
        · intro m hm
          rw [List.append_nil] at hm
          have hm := h.inside m hm
          omega
        · exact fun hand => hle hand.2
        · rintro m ⟨⟩
          rfl
        · intro m hm
          rw [List.mem_singleton.mp hm]
          show 0 + msgLen buff < la.head
          omega
  · have hcond : ¬(la.head ≤ last.stop ∧ areaSize < last.stop + msgLen buff) := fun hand =>
      hfull hand.2
    rw [if_neg hcond]
    have hnew : ∀ m ∈ first :: front ++ [⟨last.stop, toShort prio, buff⟩],
        la.head ≤ m.addr ∧ m.stop ≤ areaSize := by
      intro m hm
      rcases List.mem_append.mp hm with hm | hm
      · exact h.inside m hm
      · rw [List.mem_singleton.mp hm]
        show la.head ≤ last.stop ∧ last.stop + msgLen buff ≤ areaSize
        omega
    refine @Enqueued.of_place _ _ _ _ _ h hbuff hnul _ _ hq last.stop
      (first :: front ++ [⟨last.stop, toShort prio, buff⟩]) [] ?_ ⟨?_, ?_, ?_⟩ ?_ ?_
      List.Pairwise.nil rfl nofun nofun hnew
    · rw [List.append_nil, List.append_nil]
    · omega
    · refine .inr ⟨last, ?_, rfl⟩
      rw [hq, List.getLast?_concat]
      rfl
    · intro m hm
      rw [List.append_nil] at hm
      exact .inl (hstops m hm)
    · omega
    · exact pairwise_concat h.frontBefore hstops

/-- Some messages are at the start of the area: the next one goes behind the last of them, in front of
the head. -/
theorem Enqueued.of_wrapped {second : Message} (h : Rep la (first :: front) (second :: back))
    (hq : first :: front ++ second :: back = init ++ [last]) (prio : ℤ) (text : Text) :
    Enqueued la (first :: front ++ second :: back) prio (text.1.take (maxMsgSize - 1))
      (logEnqueue la prio text) := by
  obtain ⟨hbuff, hnul⟩ := take_spec text
  rw [h.logEnqueue_eq hq]
  generalize text.1.take (maxMsgSize - 1) = buff at hbuff hnul ⊢
  have hlen := le_msgLen buff
  have hfirst : first.addr = la.head := h.head first rfl
  have hfirstStop := first.le_stop
  have hgetLast : (second :: back).getLast? = some last := by
    have hlast := congrArg List.getLast? hq
    rwa [List.getLast?_append_of_ne_nil _ (List.cons_ne_nil _ _), List.getLast?_concat] at hlast
  have hmem : last ∈ second :: back := List.mem_of_getLast? hgetLast
  have hsecond : second.addr = 0 := h.start second rfl
  have hlastHead := (h.wrapped last hmem).2
  have hfirstIn := h.inside first List.mem_cons_self
  have hcond : ¬(la.head ≤ last.stop ∧ areaSize < last.stop + msgLen buff) := fun hand =>
    absurd hand.1 (Nat.not_le.mpr hlastHead)
  have hstops : ∀ m ∈ second :: back, m.stop ≤ last.stop := fun m hm =>
    stop_le_last h.backBefore hgetLast hm
  rw [if_neg hcond]
  by_cases hle : la.head - last.stop ≤ msgLen buff
  · have hstage : stage { la with tail := last.stop } la.tail prio buff =
        some (1, { la with tail := la.tail }) := stage_full ⟨hlastHead, hle⟩ h.empty_eq_false
    rw [hstage]
    refine .dropped ?_
    rintro ⟨p, hp⟩
    rcases hp.zero_or_stop hq with hzero | rfl
    · refine not_usable ⟨second, List.mem_append_right _ List.mem_cons_self, ?_⟩ hp hzero
      rw [hsecond]
      exact Nat.zero_le _
    · have hplace := hp.2.2 first (List.mem_append_left _ List.mem_cons_self)
      omega
  · refine @Enqueued.of_place _ _ _ _ _ h hbuff hnul _ _ hq last.stop (first :: front)
      (second :: back ++ [⟨last.stop, toShort prio, buff⟩]) ?_ ⟨?_, ?_, ?_⟩ ?_ h.frontBefore
      ?_ rfl ?_ ?_ h.inside
    · rw [List.append_assoc]
    · omega
    · refine .inr ⟨last, ?_, rfl⟩
      rw [hq, List.getLast?_concat]
      rfl
    · intro m hm
      rcases List.mem_append.mp hm with hm | hm
      · have hm := h.inside m hm
        omega
      · exact .inl (hstops m hm)
    · exact fun hand => hle hand.2
    · exact pairwise_concat h.backBefore hstops
    · rintro m ⟨⟩
      exact hsecond
    · intro m hm
      rcases List.mem_append.mp hm with hm | hm
      · exact (h.wrapped m hm).2
      · rw [List.mem_singleton.mp hm]
        show last.stop + msgLen buff < la.head
        omega

/-- `log_enqueue` with messages in the queue. -/
theorem Enqueued.of_ne_nil (h : Rep la front back) (hne : front ≠ []) (prio : ℤ) (text : Text) :
    Enqueued la (front ++ back) prio (text.1.take (maxMsgSize - 1)) (logEnqueue la prio text) := by
  obtain ⟨init, last, hq, -⟩ := h.exists_last fun hnil => hne (List.append_eq_nil_iff.mp hnil).1
  obtain ⟨first, front', rfl⟩ := List.exists_cons_of_ne_nil hne
  cases back with
  | nil => exact .of_unwrapped h hq prio text
  | cons second back' => exact .of_wrapped h hq prio text

end Messages

/-- `log_enqueue` queues the message, or drops it for want of a place. -/
theorem logEnqueue_spec (h : Queued la q) (prio : ℤ) (text : Text) :
    Enqueued la q prio (text.1.take (maxMsgSize - 1)) (logEnqueue la prio text) := by
  obtain ⟨front, back, rfl, h⟩ := h
  by_cases hne : front = []
  · subst hne
    obtain ⟨hbuff, hnul⟩ := take_spec text
    have hmax := msgLen_le hbuff
    have hlen := le_msgLen (text.1.take (maxMsgSize - 1))
    obtain ⟨hmsg, hnextOff, -, -, harea⟩ := sizes
    obtain ⟨htail, hpark⟩ := h.parked rfl
    have hempty : la.empty = true := h.empty.mpr rfl
    have hnext : la.nextTail = some la.tail := if_pos hempty
    rw [logEnqueue_eq hnext]
    generalize text.1.take (maxMsgSize - 1) = buff at *
    split_ifs with hfull hstart
    · omega
    · -- the area is used from its start on
      refine Enqueued.of_empty h hbuff hnul ?_ ?_
      · omega
      · omega
    · have hsame : ({ la with tail := la.tail, head := la.tail } : LogArea) =
          { la with tail := la.tail } := congrArg (fun p => { la with head := p }) htail
      have hroom : la.tail + msgLen buff ≤ areaSize := by omega
      have hqueued : Enqueued la ([] ++ back) prio buff
          (stage { la with tail := la.tail, head := la.tail } la.tail prio buff) :=
        Enqueued.of_empty h hbuff hnul hroom (.inl rfl)
      rwa [hsame] at hqueued
  · exact Enqueued.of_ne_nil h hne prio text

end Enqueue

end MultipathTools.Log
