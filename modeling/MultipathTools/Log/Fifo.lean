import MultipathTools.Base.Run
import MultipathTools.Log.Enqueue

/-! The log area is a queue over whole runs. -/
namespace MultipathTools.Log

variable {la la' : LogArea} {front back q : List Message} {m : Message}

section Dequeue

theorem Held.tail {mem : ℕ → Byte} (h : Held mem (m :: q)) : Held mem q :=
  ⟨fun m' hm' => h.stored m' (List.mem_cons_of_mem _ hm'), h.links.tail⟩

/-- The queue without its first message. -/
theorem Rep.dequeued (h : Rep la (m :: front) back) {second : Message} {rest : List Message}
    (hrest : front ++ back = second :: rest) {mem : ℕ → Byte} (hheld : Held mem (front ++ back)) :
    Queued { la with head := second.addr, mem := mem } (front ++ back) := by
  have hne : m :: front ≠ [] := List.cons_ne_nil _ _
  have hempty : ¬la.empty = true := fun h' => hne (h.empty.mp h')
  have hlast : ∀ last ∈ (front ++ back).getLast?, la.tail = last.addr := by
    intro last hlast
    refine h.tail last ?_
    rw [List.cons_append, List.getLast?_cons, hlast]
    rfl
  cases front with
  | nil =>
    -- the messages at the start of the area are left
    rw [List.nil_append] at hrest hheld hlast ⊢
    have hfirst : second.addr = 0 := h.start second (by rw [hrest]; rfl)
    refine ⟨back, [], (List.append_nil _).symm, ?_⟩
    have hback : back ≠ [] := hrest ▸ List.cons_ne_nil _ _
    constructor
    · exact iff_of_false hempty hback
    · exact h.backBefore
    · exact List.Pairwise.nil
    · intro m' hm'
      rw [hrest] at hm'
      obtain rfl := Option.some.inj hm'
      rfl
    · exact nofun
    · exact nofun
    · intro m' hm'
      have hstop := (h.wrapped m' hm').2
      have hin := (h.inside m List.mem_cons_self)
      have hle := m.le_stop
      show second.addr ≤ m'.addr ∧ m'.stop ≤ areaSize
      omega
    · exact fun hnil => absurd hnil hback
    · rwa [List.append_nil]
    · rwa [List.append_nil]
  | cons m' front' =>
    obtain ⟨rfl, -⟩ := List.cons.inj hrest
    have hpair := List.pairwise_cons.mp h.frontBefore
    have hhead : m.stop ≤ m'.addr := hpair.1 m' List.mem_cons_self
    have hstop := m.le_stop
    have haddr := (h.inside m List.mem_cons_self).1
    refine ⟨m' :: front', back, rfl, ?_⟩
    constructor
    · exact iff_of_false hempty (List.cons_ne_nil _ _)
    · exact hpair.2
    · exact h.backBefore
    · rintro m'' ⟨⟩
      rfl
    · exact h.start
    · intro m'' hm''
      have hwrap := (h.wrapped m'' hm'').2
      refine ⟨List.cons_ne_nil _ _, ?_⟩
      show m''.stop < m'.addr
      omega
    · intro m'' hm''
      refine ⟨?_, (h.inside m'' (List.mem_cons_of_mem _ hm'')).2⟩
      show m'.addr ≤ m''.addr
      rcases List.mem_cons.mp hm'' with rfl | hm''
      · exact le_rfl
      · have hbefore : m'.stop ≤ m''.addr := (List.pairwise_cons.mp hpair.2).1 m'' hm''
        have hstop' := m'.le_stop
        omega
    · exact fun hnil => absurd hnil (List.cons_ne_nil _ _)
    · exact hlast
    · exact hheld

theorem read_eq {a n : ℕ} (h : a + n ≤ areaSize) : la.read a n = some (load la.mem a n) := if_pos h

/-- What is copied to the buffer. -/
theorem dst_eq {mem : ℕ → Byte} (h : Stored mem m) :
    ofShortBytes ((load mem m.addr (m.str.length + logmsgSize + 1)).take 2) = m.prio ∧
    ((load mem m.addr (m.str.length + logmsgSize + 1)).drop logmsgSize).takeWhile (· ≠ 0) = m.str := by
  obtain ⟨hmsg, -⟩ := sizes
  constructor
  · rw [take_load (by omega)]
    exact h.prio
  · have hsub : m.str.length + logmsgSize + 1 - logmsgSize = m.str.length + 1 := by omega
    have hne : ∀ b ∈ m.str, decide (b ≠ 0) = true := fun b hb =>
      decide_eq_true fun hzero => h.noNul (hzero ▸ hb)
    rw [drop_load (by omega), hsub, h.str, List.takeWhile_append_of_pos hne,
      List.takeWhile_cons_of_neg (by decide), List.append_nil]

/-- `log_dequeue` moves the head on to the next message. -/
theorem Rep.advance_eq (h : Rep la (m :: front) back) {init : List Message} {last : Message}
    (hrest : front ++ back = init ++ [last]) {second : Message} {rest : List Message}
    (hsecond : front ++ back = second :: rest) : la.advance = some { la with
      head := second.addr
      mem := store la.mem (last.addr + nextOffset) (toBe ptrSize second.addr) } := by
  obtain ⟨hmsg, hnext, hptr, -⟩ := sizes
  have hfirst : m.addr = la.head := h.head m rfl
  have htail : la.tail = last.addr := by
    refine h.tail last ?_
    rw [List.cons_append, hrest, ← List.cons_append, List.getLast?_concat]
    rfl
  have hmem : last ∈ front ++ back := hrest ▸ List.mem_append_right _ (List.mem_singleton_self _)
  have hlastStop := h.stop_le (List.mem_cons_of_mem m hmem)
  have hlastLe := last.le_stop
  have hstop := h.stop_le (m := m) List.mem_cons_self
  have hle := m.le_stop
  have hapart : m.stop ≤ last.addr ∨ last.stop ≤ m.addr := by
    have hpair := h.apart
    rw [List.cons_append] at hpair
    exact (List.pairwise_cons.mp hpair).1 last hmem
  have hlink : nextAt la.mem la.head = second.addr := by
    have hchain := h.held.links
    rw [List.cons_append, hsecond, List.isChain_cons_cons] at hchain
    rw [← hfirst]
    exact hchain.1
  unfold LogArea.advance
  have hne : ¬la.tail = la.head := by omega
  have hofBe : ofBe (load la.mem (la.head + nextOffset) ptrSize) = second.addr := hlink
  rw [if_neg hne, read_eq (by omega), Option.bind_some, hofBe, htail, write_eq]
  rw [toBe_length]
  show last.addr + nextOffset + ptrSize ≤ areaSize
  omega

theorem logDequeue_spec (h : Rep la (m :: front) back) : ∃ la',
    logDequeue la = some (some (m.prio, m.str), la') ∧ Queued la' (front ++ back) := by
  obtain ⟨hmsg, hnext, hptr, hmax, harea⟩ := sizes
  have hfirst : m.addr = la.head := h.head m rfl
  have hstored := h.held.stored m List.mem_cons_self
  have hstop := h.stop_le (m := m) List.mem_cons_self
  have hle := m.le_stop
  have hshort := hstored.short
  have hempty : ¬la.empty = true := fun h' => List.cons_ne_nil _ _ (h.empty.mp h')
  have hstr := h.str_eq (m := m) List.mem_cons_self
  obtain ⟨hprio, htext⟩ := dst_eq hstored
  rw [hfirst] at hstr hprio htext
  unfold logDequeue
  rw [if_neg hempty, hstr, Option.bind_some]
  dsimp only
  rw [if_neg (by omega), read_eq (by omega), Option.bind_some, hprio, htext]
  rcases List.eq_nil_or_concat (front ++ back) with hnil | ⟨init, last, hrest⟩
  · -- the last message
    obtain ⟨rfl, rfl⟩ := List.append_eq_nil_iff.mp hnil
    have htail : la.tail = la.head := (h.tail m rfl).trans hfirst
    have hadvance : la.advance = some { la with empty := true } := if_pos htail
    rw [hadvance, Option.bind_some, write_eq]
    · refine ⟨_, rfl, [], [], rfl, ?_⟩
      constructor
      · exact iff_of_true rfl rfl
      · exact List.Pairwise.nil
      · exact List.Pairwise.nil
      · exact nofun
      · exact nofun
      · exact nofun
      · exact nofun
      · intro _
        refine ⟨htail, ?_⟩
        show la.head + logmsgSize ≤ areaSize
        omega
      · exact nofun
      · exact ⟨nofun, List.isChain_nil⟩
    · rw [List.length_replicate]
      omega
  · rw [List.concat_eq_append] at hrest
    obtain ⟨second, rest, hsecond⟩ := List.exists_cons_of_ne_nil
      (hrest ▸ List.append_ne_nil_of_right_ne_nil init (List.cons_ne_nil last []))
    rw [h.advance_eq hrest hsecond, Option.bind_some, write_eq]
    · refine ⟨_, rfl, h.dequeued hsecond ?_⟩
      have hpair := h.apart
      have hheld : Held la.mem (front ++ back) := h.held.tail
      rw [List.cons_append, List.pairwise_cons] at hpair
      rw [hrest] at hheld hpair ⊢
      refine hheld.congr hpair.2 fun m' hm' x hx hlt hfield => ?_
      have hapart : m.stop ≤ m'.addr ∨ m'.stop ≤ m.addr := hpair.1 m' hm'
      have hin : x < la.head ∨ la.head + (m.str.length + logmsgSize + 1) ≤ x := by omega
      have hout : x < last.addr + nextOffset ∨ last.addr + nextOffset + ptrSize ≤ x := by omega
      have hclear {mem : ℕ → Byte} :
          store mem la.head (List.replicate (m.str.length + logmsgSize + 1) 0) x = mem x := by
        rcases hin with hin | hin
        · exact store_of_lt hin
        · exact store_of_ge (by rwa [List.length_replicate])
      show la.mem x = store _ la.head _ x
      rw [hclear]
      rcases hout with hout | hout
      · exact (store_of_lt hout).symm
      · exact (store_of_ge (by rwa [toBe_length])).symm
    · rw [List.length_replicate]
      show la.head + _ ≤ areaSize
      omega

theorem logDequeue_cons (h : Queued la (m :: q)) : ∃ la',
    logDequeue la = some (some (m.prio, m.str), la') ∧ Queued la' q := by
  obtain ⟨front, back, heq, hrep⟩ := h
  cases front with
  | nil =>
    have hmem : m ∈ back := by
      rw [← List.nil_append back, ← heq]
      exact List.mem_cons_self
    exact absurd rfl (hrep.wrapped m hmem).1
  | cons m' front =>
    obtain ⟨rfl, rfl⟩ := List.cons.inj heq
    exact logDequeue_spec hrep

theorem logDequeue_nil (h : Queued la []) : logDequeue la = some (none, la) := by
  obtain ⟨front, back, heq, hrep⟩ := h
  exact if_pos (hrep.empty.mpr (List.append_eq_nil_iff.mp heq.symm).1)

end Dequeue

section Run

/-- A call of `log_enqueue` or of `log_dequeue`. -/
inductive Call where
  | enqueue (prio : ℤ) (text : Text)
  | dequeue

/-- The area, and what has been accepted and given out so far. -/
structure History where
  area : LogArea := {}
  accepted : List (ℤ × Text) := []
  dequeued : List (ℤ × List Byte) := []

/-- A call. There is no next state if it reads or writes outside the area. -/
def step (log : History) : Call → Option History
  | .enqueue prio text =>
    (logEnqueue log.area prio text).map fun r => { log with
      area := r.2
      accepted := if r.1 = (0 : ℤ) then log.accepted ++ [(prio, text)] else log.accepted }
  | .dequeue =>
    (logDequeue log.area).map fun r => { log with
      area := r.2
      dequeued := log.dequeued ++ r.1.toList }

/-- What is left of a message in the area: the priority is a `short int`, the text is cut. -/
def staged (message : ℤ × Text) : ℤ × List Byte :=
  (toShort message.1, message.2.1.take (maxMsgSize - 1))

def Message.content (m : Message) : ℤ × List Byte := (m.prio, m.str)

/-- The messages that have been accepted are those given out, in this order, and those queued. -/
def Accounted (log : History) (q : List Message) : Prop :=
  Queued log.area q ∧ log.accepted.map staged = log.dequeued ++ q.map Message.content

theorem accounted_init : Accounted {} [] := by
  refine ⟨⟨[], [], rfl, ?_⟩, rfl⟩
  constructor
  · exact iff_of_true rfl rfl
  · exact List.Pairwise.nil
  · exact List.Pairwise.nil
  · exact nofun
  · exact nofun
  · exact nofun
  · exact nofun
  · exact fun _ => ⟨rfl, by decide⟩
  · exact nofun
  · exact ⟨nofun, List.isChain_nil⟩

theorem step_accounted {log : History} (h : Accounted log q) (call : Call) :
    ∃ log' q', step log call = some log' ∧ Accounted log' q' := by
  obtain ⟨hq, hacc⟩ := h
  cases call with
  | enqueue prio text =>
    have hspec := logEnqueue_spec hq prio text
    unfold step
    dsimp only
    generalize logEnqueue log.area prio text = r at hspec ⊢
    cases hspec with
    | queued la' m hprio hstr hq' husable hplace =>
      refine ⟨_, _, rfl, hq', ?_⟩
      dsimp only
      rw [if_pos rfl, List.map_append, hacc, List.map_append, List.append_assoc]
      simp [staged, Message.content, hprio, hstr]
    | dropped hfull => exact ⟨_, _, rfl, hq, hacc⟩
  | dequeue =>
    unfold step
    dsimp only
    cases q with
    | nil =>
      rw [logDequeue_nil hq]
      refine ⟨_, _, rfl, hq, ?_⟩
      dsimp only [Option.toList_none]
      rw [List.append_nil]
      exact hacc
    | cons m q =>
      obtain ⟨la', hdeq, hq'⟩ := logDequeue_cons hq
      rw [hdeq]
      refine ⟨_, _, rfl, hq', ?_⟩
      dsimp only [Option.toList_some]
      rw [hacc, List.append_assoc]
      rfl

theorem run_history {log : History} (h : Accounted log q) (calls : List Call) :
    ∃ log' q', run step log calls = some log' ∧ Accounted log' q' := by
  induction calls generalizing log q with
  | nil => exact ⟨log, q, rfl, h⟩
  | cons call calls ih =>
    obtain ⟨log₁, q₁, hstep, h₁⟩ := step_accounted h call
    obtain ⟨log', q', hrun, h'⟩ := ih h₁
    refine ⟨log', q', ?_, h'⟩
    rw [run_cons, hstep, Option.bind_some, hrun]

/-- Whatever is called: no access is outside the area, the messages come out in the order in which
they were accepted, the queued ones do not overlap, a message is refused exactly if there is no place
for it, and nothing comes out exactly if no message is queued. -/
theorem run_fifo (calls : List Call) : ∃ log q, run step {} calls = some log ∧
    log.accepted.map staged = log.dequeued ++ q.map Message.content ∧
    Queued log.area q ∧ q.Pairwise Apart ∧ (∀ m ∈ q, m.stop ≤ areaSize) ∧
    (∀ prio text, ∃ rc la, logEnqueue log.area prio text = some (rc, la) ∧ (rc = 0 ∨ rc = 1) ∧
      (rc = 1 ↔ ¬∃ p, Usable q (msgLen (staged (prio, text)).2) p)) ∧
    ∃ message la, logDequeue log.area = some (message, la) ∧
      message = q.head?.map Message.content := by
  obtain ⟨log, q, hrun, hq, hacc⟩ := run_history accounted_init calls
  refine ⟨log, q, hrun, hacc, hq, ?_⟩
  have hspec := logEnqueue_spec hq
  have hlayout : q.Pairwise Apart ∧ ∀ m ∈ q, m.stop ≤ areaSize := by
    obtain ⟨front, back, rfl, hrep⟩ := hq
    exact ⟨hrep.apart, fun m hm => hrep.stop_le hm⟩
  refine ⟨hlayout.1, hlayout.2, fun prio text => ?_, ?_⟩
  · have hspec := hspec prio text
    generalize logEnqueue log.area prio text = r at hspec ⊢
    cases hspec with
    | queued la' m hprio hstr hq' husable hplace =>
      exact ⟨0, la', rfl, .inl rfl, iff_of_false (by decide) fun hno => hno husable⟩
    | dropped hfull => exact ⟨1, log.area, rfl, .inr rfl, iff_of_true rfl hfull⟩
  · cases q with
    | nil => exact ⟨none, log.area, logDequeue_nil hq, rfl⟩
    | cons m q =>
      obtain ⟨la', hdeq, -⟩ := logDequeue_cons hq
      exact ⟨_, la', hdeq, rfl⟩

end Run

section Full

/-- Messages one behind the other. -/
def pack (a : ℕ) : List Text → List Message
  | [] => []
  | text :: texts =>
    let m : Message := ⟨a, 0, text.1.take (maxMsgSize - 1)⟩
    m :: pack m.stop texts

/-- What the messages take of the area. -/
def packLen (texts : List Text) : ℕ := (texts.map fun text => msgLen (text.1.take (maxMsgSize - 1))).sum

theorem pack_concat (a : ℕ) (texts : List Text) (text : Text) : pack a (texts ++ [text]) =
    pack a texts ++ [⟨a + packLen texts, 0, text.1.take (maxMsgSize - 1)⟩] := by
  induction texts generalizing a with
  | nil => rfl
  | cons t texts ih =>
    rw [List.cons_append, pack, ih, pack, packLen, packLen, List.map_cons, List.sum_cons,
      ← Nat.add_assoc]
    rfl

theorem le_addr_of_mem_pack {a : ℕ} {texts : List Text} (h : m ∈ pack a texts) : a ≤ m.addr := by
  induction texts generalizing a with
  | nil => cases h
  | cons t texts ih =>
    rcases List.mem_cons.mp h with rfl | h
    · exact le_rfl
    · have hle := Message.le_stop ⟨a, 0, t.1.take (maxMsgSize - 1)⟩
      have hrest := ih h
      dsimp only at hle
      omega

theorem stop_le_of_mem_pack {a : ℕ} {texts : List Text} (h : m ∈ pack a texts) :
    m.stop ≤ a + packLen texts := by
  induction texts generalizing a with
  | nil => cases h
  | cons t texts ih =>
    have hsum : packLen (t :: texts) = msgLen (t.1.take (maxMsgSize - 1)) + packLen texts :=
      List.sum_cons
    rcases List.mem_cons.mp h with rfl | h
    · show a + msgLen (t.1.take (maxMsgSize - 1)) ≤ _
      omega
    · have hrest := ih h
      have hstop : Message.stop ⟨a, 0, t.1.take (maxMsgSize - 1)⟩ =
          a + msgLen (t.1.take (maxMsgSize - 1)) := rfl
      omega

theorem stop_last_pack {a : ℕ} {texts : List Text} (h : m ∈ (pack a texts).getLast?) :
    m.stop = a + packLen texts := by
  rcases List.eq_nil_or_concat texts with rfl | ⟨texts, text, rfl⟩
  · cases h
  · rw [List.concat_eq_append, pack_concat, List.getLast?_concat] at h
    obtain rfl := Option.some.inj h
    simp [packLen, Message.stop, Nat.add_assoc]

theorem usable_pack {texts : List Text} {len : ℕ} (hroom : packLen texts + len ≤ areaSize) :
    Usable (pack 0 texts) len (packLen texts) := by
  refine ⟨hroom, ?_, fun m hm => ?_⟩
  · rcases List.eq_nil_or_concat texts with rfl | ⟨texts, text, rfl⟩
    · exact .inl rfl
    · obtain ⟨last, hlast⟩ : ∃ last, (pack 0 (texts.concat text)).getLast? = some last := by
        rw [List.concat_eq_append, pack_concat, List.getLast?_concat]
        exact ⟨_, rfl⟩
      have hstop := stop_last_pack hlast
      exact .inr ⟨last, hlast, by omega⟩
  · have hstop := stop_le_of_mem_pack hm
    omega

theorem eq_of_usable_pack {text : Text} {texts : List Text} {len p : ℕ}
    (h : Usable (pack 0 (text :: texts)) len p) : p = packLen (text :: texts) := by
  obtain ⟨-, rfl | ⟨last, hlast, rfl⟩, hplace⟩ := h
  · have hfirst := hplace _ List.mem_cons_self
    have hstop := Message.le_stop ⟨0, 0, text.1.take (maxMsgSize - 1)⟩
    dsimp only at hfirst hstop
    omega
  · rw [stop_last_pack hlast, Nat.zero_add]

/-- Messages are queued one behind the other from the start of the area on, as long as they fit. -/
theorem run_pack (texts : List Text) (h : packLen texts ≤ areaSize) : ∃ log,
    run step {} (texts.map (Call.enqueue 0)) = some log ∧ Queued log.area (pack 0 texts) ∧
      (texts = [] → log.area.tail = 0) := by
  induction texts using List.reverseRecOn with
  | nil => exact ⟨{}, rfl, accounted_init.1, fun _ => rfl⟩
  | append_singleton texts text ih =>
    have hsum : packLen (texts ++ [text]) =
        packLen texts + msgLen (text.1.take (maxMsgSize - 1)) := by
      simp [packLen]
    obtain ⟨log, hrun, hq, hpark⟩ := ih (by omega)
    have hspec := logEnqueue_spec hq 0 text
    rw [List.map_append, List.map_singleton, run_append, hrun, Option.bind_some, run_cons]
    unfold step
    dsimp only
    generalize logEnqueue log.area 0 text = r at hspec ⊢
    cases hspec with
    | dropped hfull => exact absurd ⟨_, usable_pack (by omega)⟩ hfull
    | queued la' m hprio hstr hq' husable hplace =>
      refine ⟨_, rfl, ?_, fun hnil => absurd hnil (by simp)⟩
      have haddr : m.addr = packLen texts := by
        rcases texts with _ | ⟨t, texts⟩
        · rcases hplace with ⟨-, hzero | ⟨last, hlast, -⟩, -⟩ | ⟨-, hzero | htail⟩
          · exact hzero
          · cases hlast
          · exact hzero
          · exact htail.trans (hpark rfl)
        · rcases hplace with husable | ⟨hnil, -⟩
          · exact eq_of_usable_pack husable
          · cases hnil
      have hm : m = ⟨0 + packLen texts, 0, text.1.take (maxMsgSize - 1)⟩ := by
        rw [Nat.zero_add, ← haddr, ← hstr]
        have hzero : (0 : ℤ) = m.prio := hprio.symm
        rw [hzero]
      rw [pack_concat, ← hm]
      exact hq'

/-- A text of `n` letters. -/
def letters (n : ℕ) : Text := ⟨List.replicate n 120, fun h => by
  have heq := List.eq_of_mem_replicate h
  cases heq⟩

/-- Texts that take the whole area. -/
def fullTexts : List Text := letters 7 :: (List.replicate 60 (letters 255) ++ [letters 23])

/-- The area is full, and the first message is taken out: there is room for another one like it, which
`log_enqueue` refuses. -/
theorem logEnqueue_exact_fails : ∃ log q la,
    run step {} (fullTexts.map (Call.enqueue 0) ++ [.dequeue]) = some log ∧ Queued log.area q ∧
    logEnqueue log.area 0 (letters 7) = some (1, la) ∧
    ∃ p, p + msgLen (letters 7).1 ≤ areaSize ∧
      ∀ m ∈ q, m.stop ≤ p ∨ p + msgLen (letters 7).1 ≤ m.addr := by
  have hlen (n : ℕ) (h : n < 256) : msgLen ((letters n).1.take (maxMsgSize - 1)) =
      align (logmsgSize + n + 1) ptrSize := by
    have htake : (letters n).1.take (maxMsgSize - 1) = (letters n).1 := by
      refine List.take_of_length_le ?_
      rw [letters, List.length_replicate]
      exact Nat.le_of_lt_succ h
    rw [htake, msgLen, letters, List.length_replicate]
  have h7 := hlen 7 (by decide)
  have h7' : align (logmsgSize + 7 + 1) ptrSize = 24 := by decide
  have hrest : packLen (List.replicate 60 (letters 255) ++ [letters 23]) = 16360 := by
    rw [packLen, List.map_append, List.map_replicate, List.map_singleton, hlen 255 (by decide),
      hlen 23 (by decide), List.sum_append, List.sum_replicate_nat, List.sum_singleton]
    decide
  have hsum : packLen fullTexts = msgLen ((letters 7).1.take (maxMsgSize - 1)) +
      packLen (List.replicate 60 (letters 255) ++ [letters 23]) := by
    rw [fullTexts, packLen, packLen, List.map_cons, List.sum_cons]
  rw [h7, h7', hrest] at hsum
  have hfull : packLen fullTexts ≤ areaSize := by
    rw [hsum]
    decide
  obtain ⟨log, hrun, hq, -⟩ := run_pack fullTexts hfull
  obtain ⟨la, hdeq, hq⟩ := logDequeue_cons hq
  have hstop : Message.stop ⟨0, 0, (letters 7).1.take (maxMsgSize - 1)⟩ = 24 := by
    rw [Message.stop, h7, h7']
  rw [hstop] at hq
  have hfull : ¬∃ p, Usable (pack 24 (List.replicate 60 (letters 255) ++ [letters 23])) 24 p := by
    rintro ⟨p, hroom, rfl | ⟨last, hlast, rfl⟩, hplace⟩
    · have hfirst := hplace ⟨24, 0, (letters 255).1.take (maxMsgSize - 1)⟩ List.mem_cons_self
      have hle := Message.le_stop ⟨24, 0, (letters 255).1.take (maxMsgSize - 1)⟩
      dsimp only at hfirst hle
      omega
    · have harea : areaSize = 16384 := rfl
      rw [stop_last_pack hlast, hrest] at hroom
      omega
  have hspec := logEnqueue_spec hq 0 (letters 7)
  have hstep : step log .dequeue = some { log with
      area := la
      dequeued := log.dequeued ++ [(0, (letters 7).1.take (maxMsgSize - 1))] } := by
    unfold step
    rw [hdeq]
    rfl
  have hlen7 : msgLen (letters 7).1 = 24 := by
    rw [← h7', ← h7]
    refine congrArg msgLen (List.take_of_length_le ?_).symm
    rw [letters, List.length_replicate]
    decide
  generalize hr : logEnqueue la 0 (letters 7) = r at hspec
  cases hspec with
  | queued la' m hprio hstr hq' husable hplace =>
    rw [h7, h7'] at husable
    exact absurd husable hfull
  | dropped _ =>
    refine ⟨{ log with
      area := la
      dequeued := log.dequeued ++ [(0, (letters 7).1.take (maxMsgSize - 1))] }, _, la, ?_, hq, hr,
      0, ?_, fun m hm => .inr ?_⟩
    · rw [run_append, hrun, Option.bind_some, run_cons, hstep]
      rfl
    · rw [hlen7]
      decide
    · rw [hlen7]
      exact le_addr_of_mem_pack hm

end Full

end MultipathTools.Log
