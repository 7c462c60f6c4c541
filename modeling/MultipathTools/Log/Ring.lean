import Mathlib.Data.List.Chain
import MultipathTools.Base.Bytes
import MultipathTools.Base.Memory

/-! The log area, a ring of messages (`log.c`). Addresses count from the start of the area. -/
namespace MultipathTools.Log

/-- `DEFAULT_AREA_SIZE`, as `log_init("multipathd", 0)` asks for less than a message. -/
def areaSize : ℕ := 16384

/-- `MAX_MSG_SIZE`. -/
def maxMsgSize : ℕ := 256

/-- `sizeof(void *)`. -/
def ptrSize : ℕ := 8

/-- Where `next` is in `struct logmsg`. -/
def nextOffset : ℕ := 8

/-- `sizeof(struct logmsg)`, and where `str` is in it. -/
def logmsgSize : ℕ := 16

/-- `ALIGN`. -/
def align (len s : ℕ) : ℕ := (len + s - 1) / s * s

/-- What a message with this text takes of the area. -/
def msgLen (str : List Byte) : ℕ := align (logmsgSize + str.length + 1) ptrSize

/-- `struct logarea`. -/
structure LogArea where
  empty : Bool := true
  head : ℕ := 0
  tail : ℕ := 0
  mem : ℕ → Byte := fun _ => 0

/-- What a message says: it is a string. -/
abbrev Text := { text : List Byte // 0 ∉ text }

/-- Conversion to `short int`. -/
def toShort (prio : ℤ) : ℤ := prio.bmod (2 ^ 16)

/-- A `short int` in memory. -/
def shortBytes (prio : ℤ) : List Byte := toBe 2 (prio % 2 ^ 16).toNat

def ofShortBytes (bs : List Byte) : ℤ := toShort (ofBe bs)

/-- A read, unless it leaves the area. -/
def LogArea.read (la : LogArea) (a n : ℕ) : Option (List Byte) :=
  if a + n ≤ areaSize then some (load la.mem a n) else none

/-- A write, unless it leaves the area. -/
def LogArea.write (la : LogArea) (a : ℕ) (bs : List Byte) : Option LogArea :=
  if a + bs.length ≤ areaSize then some { la with mem := store la.mem a bs } else none

/-- The text of the message at `a`, unless `strlen` leaves the area. -/
def LogArea.str (la : LogArea) (a : ℕ) : Option (List Byte) :=
  loadUntil 0 la.mem (a + logmsgSize) (areaSize - (a + logmsgSize))

/-- `log_enqueue` from `not enough space on head` on, where the message is to be at `tail`. -/
def stage (la : LogArea) (lastmsg : ℕ) (prio : ℤ) (buff : List Byte) : Option (ℤ × LogArea) :=
  if la.tail < la.head ∧ la.head - la.tail ≤ msgLen buff then
    some (1, if la.empty then la else { la with tail := lastmsg })
  else do
    let la ← la.write la.tail (shortBytes prio)
    let la ← la.write (la.tail + logmsgSize) (buff ++ [0])
    let la ← la.write (lastmsg + nextOffset) (toBe ptrSize la.tail)
    let la ← la.write (la.tail + nextOffset) (toBe ptrSize la.head)
    pure (0, { la with empty := false })

/-- Where `log_enqueue` moves the tail: behind the last message, unless there is none. -/
def LogArea.nextTail (la : LogArea) : Option ℕ :=
  if la.empty then some la.tail else (la.str la.tail).map fun str => la.tail + msgLen str

/-- `log_enqueue`. No result is a read or a write outside the area. -/
def logEnqueue (la : LogArea) (prio : ℤ) (text : Text) : Option (ℤ × LogArea) :=
  la.nextTail.bind fun tail =>
    let lastmsg := la.tail
    let buff := text.1.take (maxMsgSize - 1)
    if la.head ≤ tail ∧ (areaSize : ℤ) - tail < msgLen buff then
      -- not enough space on tail: rewind
      if la.head = 0 then some (1, la)
      else stage { la with tail := 0, head := if la.empty then 0 else la.head } lastmsg prio buff
    else stage { la with tail } lastmsg prio buff

/-- `log_dequeue` moves the head on, unless there is no other message. -/
def LogArea.advance (la : LogArea) : Option LogArea :=
  if la.tail = la.head then some { la with empty := true }
  else
    (la.read (la.head + nextOffset) ptrSize).bind fun next =>
      let la : LogArea := { la with head := ofBe next }
      la.write (la.tail + nextOffset) (toBe ptrSize la.head)

/-- `log_dequeue`: the priority and the text that are copied to the buffer, if there is a message.
The buffer has `MAX_MSG_SIZE + sizeof(struct logmsg)` bytes. -/
def logDequeue (la : LogArea) : Option (Option (ℤ × List Byte) × LogArea) :=
  if la.empty then some (none, la)
  else
    (la.str la.head).bind fun str =>
      let len := str.length + logmsgSize + 1
      if maxMsgSize + logmsgSize < len then none
      else
        (la.read la.head len).bind fun dst =>
          la.advance.bind fun la' =>
            (la'.write la.head (List.replicate len 0)).map fun la' =>
              (some (ofShortBytes (dst.take 2), (dst.drop logmsgSize).takeWhile (· ≠ 0)), la')

end MultipathTools.Log

/-! What the log area holds: the messages from the head to the end of the area, then those from the
start of the area on. -/
namespace MultipathTools.Log

/-- A queued message. -/
structure Message where
  addr : ℕ
  prio : ℤ
  str : List Byte

/-- Where the message ends. -/
def Message.stop (m : Message) : ℕ := m.addr + msgLen m.str

/-- The `next` of the message at `a`. -/
def nextAt (mem : ℕ → Byte) (a : ℕ) : ℕ := ofBe (load mem (a + nextOffset) ptrSize)

variable {mem mem' : ℕ → Byte} {m : Message} {la : LogArea} {front back : List Message}
  {prio : ℤ} {buff : List Byte} {t l head : ℕ}

section Sizes

theorem sizes : logmsgSize = 16 ∧ nextOffset = 8 ∧ ptrSize = 8 ∧ maxMsgSize = 256 ∧
    areaSize = 16384 := ⟨rfl, rfl, rfl, rfl, rfl⟩

theorem le_msgLen (str : List Byte) : logmsgSize + str.length + 1 ≤ msgLen str := by
  unfold msgLen align ptrSize
  omega

theorem msgLen_le {str : List Byte} (h : str.length < maxMsgSize) : msgLen str ≤ 272 := by
  unfold maxMsgSize at h
  unfold msgLen align ptrSize logmsgSize
  omega

theorem Message.le_stop (m : Message) : m.addr + logmsgSize + m.str.length + 1 ≤ m.stop := by
  have hle := le_msgLen m.str
  unfold Message.stop
  omega

end Sizes

section Stored

/-- The area holds the message. -/
structure Stored (mem : ℕ → Byte) (m : Message) : Prop where
  short : m.str.length < maxMsgSize
  noNul : 0 ∉ m.str
  prio : ofShortBytes (load mem m.addr 2) = m.prio
  str : load mem (m.addr + logmsgSize) (m.str.length + 1) = m.str ++ [0]

/-- Priority and text of a message are left alone by what is written elsewhere, or into `next`. -/
theorem Stored.congr (h : Stored mem m) (hmem : ∀ x, m.addr ≤ x → x < m.stop →
    (x < m.addr + nextOffset ∨ m.addr + logmsgSize ≤ x) → mem x = mem' x) : Stored mem' m := by
  have hstop := m.le_stop
  obtain ⟨hmsg, hnext, -⟩ := sizes
  refine ⟨h.short, h.noNul, ?_, ?_⟩
  · rw [← h.prio]
    refine congrArg ofShortBytes (load_congr fun x hx hlt => (hmem x hx ?_ ?_).symm)
    · omega
    · omega
  · rw [← h.str]
    refine load_congr fun x hx hlt => (hmem x ?_ ?_ ?_).symm
    · omega
    · omega
    · exact .inr hx

theorem nextAt_congr {a : ℕ} (hmem : ∀ x, a + nextOffset ≤ x → x < a + logmsgSize → mem x = mem' x) :
    nextAt mem a = nextAt mem' a := by
  refine congrArg ofBe (load_congr fun x hx hlt => hmem x hx ?_)
  unfold ptrSize nextOffset at hlt
  exact hlt

theorem nextAt_store (a p : ℕ) (hp : p ≤ areaSize) :
    nextAt (store mem (a + nextOffset) (toBe ptrSize p)) a = p := by
  have hload := load_store_self mem (a + nextOffset) (toBe ptrSize p)
  rw [toBe_length] at hload
  rw [nextAt, hload, ofBe_toBe]
  unfold areaSize at hp
  exact Nat.mod_eq_of_lt (hp.trans_lt (by decide))

theorem ofShortBytes_shortBytes (prio : ℤ) : ofShortBytes (shortBytes prio) = toShort prio := by
  have hnonneg := Int.emod_nonneg prio (by decide : (2 ^ 16 : ℤ) ≠ 0)
  have hlt := Int.emod_lt_of_pos prio (by decide : (0 : ℤ) < 2 ^ 16)
  have hnat : (prio % 2 ^ 16).toNat % 256 ^ 2 = (prio % 2 ^ 16).toNat :=
    Nat.mod_eq_of_lt (by omega)
  unfold ofShortBytes shortBytes toShort
  rw [ofBe_toBe, hnat, Int.toNat_of_nonneg hnonneg]
  exact Int.emod_bmod prio (2 ^ 16)

/-- The memory after a message has been staged. -/
def stagedMem (mem : ℕ → Byte) (t l head : ℕ) (prio : ℤ) (buff : List Byte) : ℕ → Byte :=
  store (store (store (store mem t (shortBytes prio)) (t + logmsgSize) (buff ++ [0]))
    (l + nextOffset) (toBe ptrSize t)) (t + nextOffset) (toBe ptrSize head)

theorem stagedMem_of_outside {x : ℕ} (ht : x < t ∨ t + msgLen buff ≤ x)
    (hl : x < l + nextOffset ∨ l + logmsgSize ≤ x) : stagedMem mem t l head prio buff x = mem x := by
  have hlen := le_msgLen buff
  obtain ⟨hmsg, hnext, hptr, -⟩ := sizes
  have hstore {m : ℕ → Byte} {a : ℕ} {bs : List Byte} (h : x < a ∨ a + bs.length ≤ x) :
      store m a bs x = m x := h.elim store_of_lt store_of_ge
  unfold stagedMem
  rw [hstore, hstore, hstore, hstore]
  · rw [shortBytes, toBe_length]
    omega
  · rw [List.length_append, List.length_singleton]
    omega
  · rw [toBe_length]
    omega
  · rw [toBe_length]
    omega

/-- The staged message is there, unless `next` of the last one is in it. -/
theorem stored_stagedMem (hbuff : buff.length < maxMsgSize) (hnul : 0 ∉ buff)
    (hl : l = t ∨ l + logmsgSize ≤ t ∨ t + msgLen buff ≤ l + nextOffset) :
    Stored (stagedMem mem t l head prio buff) ⟨t, toShort prio, buff⟩ := by
  have hlen := le_msgLen buff
  obtain ⟨hmsg, hnext, hptr, -⟩ := sizes
  refine ⟨hbuff, hnul, ?_, ?_⟩ <;> dsimp only
  · have hload := load_store_self mem t (shortBytes prio)
    rw [shortBytes, toBe_length] at hload
    unfold stagedMem
    rw [load_store_of_disjoint, load_store_of_disjoint, load_store_of_disjoint, shortBytes, hload]
    · exact ofShortBytes_shortBytes prio
    · unfold logmsgSize
      omega
    · rw [toBe_length]
      omega
    · unfold nextOffset
      omega
  · have hload := load_store_self (store mem t (shortBytes prio)) (t + logmsgSize) (buff ++ [0])
    rw [List.length_append, List.length_singleton] at hload
    unfold stagedMem
    rw [load_store_of_disjoint, load_store_of_disjoint, hload]
    · rw [toBe_length]
      omega
    · rw [toBe_length]
      omega

theorem nextAt_stagedMem (ht : t ≤ areaSize)
    (hl : l + logmsgSize ≤ t + nextOffset ∨ t + logmsgSize ≤ l + nextOffset) :
    nextAt (stagedMem mem t l head prio buff) l = t := by
  obtain ⟨hmsg, hnext, hptr, -⟩ := sizes
  have hstored := @nextAt_store (store (store mem t (shortBytes prio)) (t + logmsgSize) (buff ++ [0]))
    l t ht
  refine Eq.trans (congrArg ofBe (load_store_of_disjoint ?_)) hstored
  rw [toBe_length]
  omega

end Stored

section Held

/-- The messages do not overlap. -/
def Apart (m m' : Message) : Prop := m.stop ≤ m'.addr ∨ m'.stop ≤ m.addr

/-- The area holds the messages, each with a link to the next one. -/
structure Held (mem : ℕ → Byte) (q : List Message) : Prop where
  stored : ∀ m ∈ q, Stored mem m
  links : q.IsChain fun m m' => nextAt mem m.addr = m'.addr

/-- Writes that leave the messages alone, apart from the `next` of the last one. -/
theorem Held.congr {init : List Message} {last : Message} (h : Held mem (init ++ [last]))
    (hapart : (init ++ [last]).Pairwise Apart) (hmem : ∀ m ∈ init ++ [last], ∀ x, m.addr ≤ x →
      x < m.stop → (x < last.addr + nextOffset ∨ last.addr + logmsgSize ≤ x) → mem x = mem' x) :
    Held mem' (init ++ [last]) := by
  obtain ⟨hmsg, hnext, -⟩ := sizes
  have hlastStop := last.le_stop
  have hinit {m : Message} (hm : m ∈ init) {x : ℕ} (hx : m.addr ≤ x) (hlt : x < m.stop) :
      mem x = mem' x := by
    have hm' : m.stop ≤ last.addr ∨ last.stop ≤ m.addr :=
      (List.pairwise_append.mp hapart).2.2 m hm last (List.mem_singleton_self _)
    refine hmem m (List.mem_append_left _ hm) x hx hlt ?_
    omega
  constructor
  · intro m hm
    refine (h.stored m hm).congr fun x hx hlt hfield => ?_
    rcases List.mem_append.mp hm with hm | hm
    · exact hinit hm hx hlt
    · obtain rfl := List.mem_singleton.mp hm
      exact hmem m (List.mem_append_right _ hm) x hx hlt hfield
  · refine List.isChain_iff_forall_rel_of_append_cons_cons.mpr fun m m' l₁ l₂ heq => ?_
    rw [← List.isChain_iff_forall_rel_of_append_cons_cons.mp h.links heq]
    have hm : m ∈ init := by
      have hdrop := congrArg List.dropLast heq
      rw [List.dropLast_concat, List.dropLast_append_of_ne_nil (List.cons_ne_nil _ _)] at hdrop
      rw [hdrop]
      exact List.mem_append_right _ List.mem_cons_self
    have hmstop := m.le_stop
    refine nextAt_congr fun x hx hlt => (hinit hm ?_ ?_).symm
    · omega
    · omega

/-- A message that the last one links to. -/
theorem Held.concat {init : List Message} {last : Message} (h : Held mem (init ++ [last]))
    (hstored : Stored mem m) (hlink : nextAt mem last.addr = m.addr) :
    Held mem (init ++ [last] ++ [m]) := by
  constructor
  · intro m' hm'
    rcases List.mem_append.mp hm' with hm' | hm'
    · exact h.stored m' hm'
    · rw [List.mem_singleton.mp hm']
      exact hstored
  · refine List.isChain_append.mpr ⟨h.links, List.isChain_singleton _, ?_⟩
    intro m' hm' m'' hm''
    rw [List.getLast?_concat] at hm'
    obtain rfl := Option.some.inj hm'
    obtain rfl := Option.some.inj hm''
    exact hlink

/-- A message is staged, and linked to the last one. The others are left alone. -/
theorem Held.stage {init : List Message} {last : Message} (h : Held mem (init ++ [last]))
    (hapart : (init ++ [last]).Pairwise Apart) (ht : t ≤ areaSize) (hbuff : buff.length < maxMsgSize)
    (hnul : 0 ∉ buff) (hplace : ∀ m ∈ init ++ [last], m.stop ≤ t ∨ t + msgLen buff ≤ m.addr) :
    Held (stagedMem mem t last.addr head prio buff)
      (init ++ [last] ++ [⟨t, toShort prio, buff⟩]) := by
  obtain ⟨hmsg, hnext, -⟩ := sizes
  have hlen := le_msgLen buff
  have hlast := hplace last (List.mem_append_right _ (List.mem_singleton_self _))
  have hlastStop := last.le_stop
  refine Held.concat (h.congr hapart fun m hm x hx hlt hfield => ?_) ?_ ?_
  · have hm := hplace m hm
    refine (stagedMem_of_outside ?_ hfield).symm
    omega
  · apply stored_stagedMem hbuff hnul
    omega
  · apply nextAt_stagedMem ht
    omega

end Held

end MultipathTools.Log
