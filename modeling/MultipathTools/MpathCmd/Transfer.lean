import Mathlib.Data.List.Count
import MultipathTools.Base.Bytes

/-! The loops of libmpathcmd that read from and write to a stream socket until all is
transferred. How the system answers a turn of a loop is given from outside, so that it
may split the stream and interrupt a call in every way. -/
namespace MultipathTools.MpathCmd

inductive Errno
  | timedout
  | io
  | range
  | other
  deriving DecidableEq, Repr

/-- The answers of `poll` and `recv` in one turn of the loop of `read_all`. -/
inductive ReadTurn
  /-- `poll` returns 0. -/
  | timeout
  | pollFails (eintr : Bool)
  /-- `poll` returns without `POLLIN`. -/
  | noInput
  /-- `recv` fails, `again` with `EINTR` or `EAGAIN`. -/
  | recvFails (again : Bool)
  /-- `recv` returns at most `n + 1` bytes, and none at the end of the stream only. -/
  | input (n : ℕ)
  deriving DecidableEq, Repr

/-- The answer ends `read_all` with an error. -/
def ReadTurn.Fails : ReadTurn → Prop
  | .timeout => True
  | .pollFails eintr => eintr = false
  | .noInput => False
  | .recvFails again => again = false
  | .input _ => False

instance : DecidablePred ReadTurn.Fails
  | .timeout => inferInstanceAs (Decidable True)
  | .pollFails eintr => inferInstanceAs (Decidable (eintr = false))
  | .noInput => inferInstanceAs (Decidable False)
  | .recvFails again => inferInstanceAs (Decidable (again = false))
  | .input _ => inferInstanceAs (Decidable False)

def ReadTurn.isInput : ReadTurn → Bool
  | .input _ => true
  | _ => false

/-- The receiving end: the bytes up to the end of the stream that have not been received,
and the answers to come. -/
structure Socket where
  bytes : List Byte
  turns : List ReadTurn
  deriving DecidableEq, Repr

/-- The turns of `read_all`: what it has stored when it returns, or the error, and `none`
while there is no answer. -/
def readTurns : List ReadTurn → List Byte → ℕ → Option (Except Errno (List Byte) × Socket)
  | turns, bytes, 0 => some (.ok [], ⟨bytes, turns⟩)
  | [], _, _ + 1 => none
  | .timeout :: turns, bytes, _ + 1 => some (.error .timedout, ⟨bytes, turns⟩)
  | .pollFails eintr :: turns, bytes, len + 1 =>
    if eintr then readTurns turns bytes (len + 1) else some (.error .other, ⟨bytes, turns⟩)
  | .noInput :: turns, bytes, len + 1 => readTurns turns bytes (len + 1)
  | .recvFails again :: turns, bytes, len + 1 =>
    if again then readTurns turns bytes (len + 1) else some (.error .other, ⟨bytes, turns⟩)
  | .input n :: turns, bytes, len + 1 =>
    let got := bytes.take (min (n + 1) (len + 1))
    if got.length = 0 then some (.ok [], ⟨bytes, turns⟩)
    else (readTurns turns (bytes.drop got.length) (len + 1 - got.length)).map
      fun r => (r.1.map (got ++ ·), r.2)

/-- `read_all`, called with `len` bytes of buffer. -/
def readAll (s : Socket) (len : ℕ) : Option (Except Errno (List Byte) × Socket) :=
  readTurns s.turns s.bytes len

/-- What `send` answers in one turn of the loop of `write_all`. -/
inductive SendTurn
  /-- `send` fails, `again` with `EINTR` or `EAGAIN`. -/
  | fails (again : Bool)
  /-- `send` takes at most `n` bytes. -/
  | takes (n : ℕ)
  deriving DecidableEq, Repr

/-- The answer ends `write_all` before all is sent. -/
def SendTurn.Stops : SendTurn → Prop
  | .fails again => again = false
  | .takes n => n = 0

instance : DecidablePred SendTurn.Stops
  | .fails again => inferInstanceAs (Decidable (again = false))
  | .takes n => inferInstanceAs (Decidable (n = 0))

def SendTurn.isTake : SendTurn → Bool
  | .takes _ => true
  | .fails _ => false

/-- What `write_all` has sent, whether it has returned, and the answers to come. -/
structure Written where
  sent : List Byte
  returned : Bool
  turns : List SendTurn
  deriving DecidableEq, Repr

/-- `write_all`, which returns the number of bytes that are sent. -/
def writeAll : List SendTurn → List Byte → Written
  | turns, [] => ⟨[], true, turns⟩
  | [], _ :: _ => ⟨[], false, []⟩
  | .fails again :: turns, b :: buf =>
    if again then writeAll turns (b :: buf) else ⟨[], true, turns⟩
  | .takes n :: turns, b :: buf =>
    if n = 0 then ⟨[], true, turns⟩
    else
      let rest := writeAll turns ((b :: buf).drop n)
      { rest with sent := (b :: buf).take n ++ rest.sent }

@[simp] theorem readTurns_zero (turns : List ReadTurn) (bytes : List Byte) :
    readTurns turns bytes 0 = some (.ok [], ⟨bytes, turns⟩) := by
  cases turns <;> rfl

/-- A `recv` that returns bytes takes them off the front of the stream. -/
theorem take_recv (bytes : List Byte) (n len : ℕ) :
    bytes.take (min (n + 1) len) = bytes.take (bytes.take (min (n + 1) len)).length ∧
      (bytes.take (min (n + 1) len)).length ≤ len := by
  rw [List.length_take, List.take_eq_take_iff]
  constructor <;> omega

/-- Where `read_all` returns without an error, it has stored the next `len` bytes of the
stream, or what was left of it, however the answers split it. -/
theorem readTurns_ok {turns : List ReadTurn} {bytes got : List Byte} {len : ℕ} {s : Socket}
    (h : readTurns turns bytes len = some (.ok got, s)) :
    got = bytes.take len ∧ s.bytes = bytes.drop len := by
  induction turns generalizing bytes got len with
  | nil =>
    cases len with
    | zero =>
      cases h
      exact ⟨rfl, rfl⟩
    | succ len => cases h
  | cons turn turns ih =>
    cases len with
    | zero =>
      cases h
      exact ⟨rfl, rfl⟩
    | succ len =>
      cases turn with
      | timeout => cases h
      | noInput => exact ih h
      | pollFails eintr =>
        cases eintr with
        | true => exact ih h
        | false => cases h
      | recvFails again =>
        cases again with
        | true => exact ih h
        | false => cases h
      | input n =>
        obtain ⟨hfront, hle⟩ := take_recv bytes n (len + 1)
        rw [readTurns] at h
        split at h
        case isTrue hnone =>
          -- nothing was left of the stream
          have hbytes : bytes = [] := by
            rw [List.length_take] at hnone
            exact List.eq_nil_of_length_eq_zero (by omega)
          cases h
          rw [hbytes]
          exact ⟨rfl, rfl⟩
        case isFalse hsome =>
          obtain ⟨⟨r, s'⟩, hr, heq⟩ := Option.map_eq_some_iff.mp h
          cases r with
          | error e => cases heq
          | ok more =>
            cases heq
            obtain ⟨hmore, hs⟩ := ih hr
            constructor
            · rw [hmore]
              show _ ++ _ = bytes.take (len + 1)
              generalize (bytes.take (min (n + 1) (len + 1))).length = k at hfront hle
              rw [hfront, ← List.take_add, Nat.add_sub_cancel' hle]
            · rw [hs, List.drop_drop, Nat.add_sub_cancel' hle]

/-- How many of the answers bring bytes or the end of the stream. -/
def inputs (turns : List ReadTurn) : ℕ := turns.countP ReadTurn.isInput

theorem inputs_cons_of_not {turn : ReadTurn} (h : turn.isInput = false) (turns : List ReadTurn) :
    inputs (turn :: turns) = inputs turns :=
  List.countP_cons_of_neg (by rw [h]; exact Bool.false_ne_true)

theorem inputs_cons_input (n : ℕ) (turns : List ReadTurn) :
    inputs (.input n :: turns) = inputs turns + 1 :=
  List.countP_cons_of_pos rfl

/-- Interrupted calls only delay `read_all`: with enough answers it returns. -/
theorem readTurns_returns {turns : List ReadTurn} {bytes : List Byte} {len : ℕ}
    (hclean : ∀ turn ∈ turns, ¬ turn.Fails)
    (hinputs : min len (bytes.length + 1) ≤ inputs turns) :
    ∃ got s, readTurns turns bytes len = some (.ok got, s) ∧
      (∀ turn ∈ s.turns, turn ∈ turns) ∧
      inputs turns ≤ inputs s.turns + min len (bytes.length + 1) := by
  induction turns generalizing bytes len with
  | nil =>
    cases len with
    | zero => exact ⟨_, _, rfl, fun turn h => h, Nat.le_add_right _ _⟩
    | succ len =>
      have hnone : inputs [] = 0 := rfl
      omega
  | cons turn turns ih =>
    cases len with
    | zero => exact ⟨_, _, readTurns_zero _ _, fun turn h => h, Nat.le_add_right _ _⟩
    | succ len =>
      have hrest : ∀ turn ∈ turns, ¬ turn.Fails := fun t ht => hclean t (List.mem_cons_of_mem _ ht)
      have hturn := hclean turn List.mem_cons_self
      -- a turn that is repeated leaves what is to be read as it is
      have hretry : turn.isInput = false →
          readTurns (turn :: turns) bytes (len + 1) = readTurns turns bytes (len + 1) →
          ∃ got s, readTurns (turn :: turns) bytes (len + 1) = some (.ok got, s) ∧
            (∀ t ∈ s.turns, t ∈ turn :: turns) ∧
            inputs (turn :: turns) ≤ inputs s.turns + min (len + 1) (bytes.length + 1) := by
        intro hno hsame
        rw [inputs_cons_of_not hno] at hinputs ⊢
        obtain ⟨got, s, hread, hmem, hused⟩ := ih hrest hinputs
        exact ⟨got, s, hsame.trans hread, fun t ht => List.mem_cons_of_mem _ (hmem t ht), hused⟩
      cases turn with
      | timeout => exact absurd trivial hturn
      | noInput => exact hretry rfl rfl
      | pollFails eintr =>
        cases eintr with
        | true => exact hretry rfl rfl
        | false => exact absurd rfl hturn
      | recvFails again =>
        cases again with
        | true => exact hretry rfl rfl
        | false => exact absurd rfl hturn
      | input n =>
        rw [inputs_cons_input] at hinputs ⊢
        rw [readTurns]
        split
        case isTrue hnone =>
          refine ⟨[], ⟨bytes, turns⟩, rfl, fun t ht => List.mem_cons_of_mem _ ht, ?_⟩
          show inputs turns + 1 ≤ inputs turns + min (len + 1) (bytes.length + 1)
          omega
        case isFalse hsome =>
          have hgot : (bytes.take (min (n + 1) (len + 1))).length ≤ bytes.length :=
            List.length_take_le' _ _
          generalize (bytes.take (min (n + 1) (len + 1))).length = k at hsome hgot
          have hleft : min (len + 1 - k) ((bytes.drop k).length + 1) ≤ inputs turns := by
            rw [List.length_drop]
            omega
          obtain ⟨got, s, hread, hmem, hused⟩ := ih hrest hleft
          rw [List.length_drop] at hused
          rw [hread]
          refine ⟨_, s, rfl, fun t ht => List.mem_cons_of_mem _ (hmem t ht), ?_⟩
          omega

/-- `read_all` that is not cut short by a time-out or an error. -/
theorem readAll_returns {s : Socket} {len : ℕ} (hclean : ∀ turn ∈ s.turns, ¬ turn.Fails)
    (hinputs : min len (s.bytes.length + 1) ≤ inputs s.turns) :
    ∃ turns, readAll s len = some (.ok (s.bytes.take len), ⟨s.bytes.drop len, turns⟩) ∧
      (∀ turn ∈ turns, ¬ turn.Fails) ∧
      inputs s.turns ≤ inputs turns + min len (s.bytes.length + 1) := by
  obtain ⟨got, ⟨bytes, turns⟩, hread, hmem, hused⟩ := readTurns_returns hclean hinputs
  obtain ⟨rfl, rfl⟩ := readTurns_ok hread
  exact ⟨turns, hread, fun turn h => hclean turn (hmem turn h), hused⟩

/-- What is on the stream of a call of `write_all` is always the front of its buffer, and
the whole of it once the call returns with this length. -/
theorem writeAll_sent (turns : List SendTurn) (buf : List Byte) :
    (writeAll turns buf).sent <+: buf := by
  induction turns generalizing buf with
  | nil =>
    cases buf with
    | nil => exact List.prefix_rfl
    | cons b buf => exact List.nil_prefix
  | cons turn turns ih =>
    cases buf with
    | nil => exact List.nil_prefix
    | cons b buf =>
      cases turn with
      | fails again =>
        cases again with
        | true => exact ih (b :: buf)
        | false => exact List.nil_prefix
      | takes n =>
        rw [writeAll]
        split
        · exact List.nil_prefix
        · have hrest := ih ((b :: buf).drop n)
          have hall := (List.prefix_append_right_inj ((b :: buf).take n)).mpr hrest
          rwa [List.take_append_drop] at hall

/-- How many of the answers take bytes. -/
def takes (turns : List SendTurn) : ℕ := turns.countP SendTurn.isTake

theorem takes_cons_takes (n : ℕ) (turns : List SendTurn) :
    takes (.takes n :: turns) = takes turns + 1 :=
  List.countP_cons_of_pos rfl

theorem takes_cons_fails (again : Bool) (turns : List SendTurn) :
    takes (.fails again :: turns) = takes turns :=
  List.countP_cons_of_neg Bool.false_ne_true

/-- Interrupted calls only delay `write_all`: with enough answers all is sent. -/
theorem writeAll_returns {turns : List SendTurn} {buf : List Byte}
    (hclean : ∀ turn ∈ turns, ¬ turn.Stops) (htakes : buf.length ≤ takes turns) :
    ∃ rest, writeAll turns buf = ⟨buf, true, rest⟩ ∧ (∀ turn ∈ rest, ¬ turn.Stops) ∧
      takes turns ≤ takes rest + buf.length := by
  induction turns generalizing buf with
  | nil =>
    cases buf with
    | nil => exact ⟨[], rfl, hclean, Nat.le_add_right _ _⟩
    | cons b buf => exact absurd htakes (Nat.not_succ_le_zero _)
  | cons turn turns ih =>
    have hrest : ∀ turn ∈ turns, ¬ turn.Stops := fun t ht => hclean t (List.mem_cons_of_mem _ ht)
    have hturn := hclean turn List.mem_cons_self
    cases buf with
    | nil => exact ⟨turn :: turns, rfl, hclean, Nat.le_add_right _ _⟩
    | cons b buf =>
      cases turn with
      | fails again =>
        cases again with
        | true =>
          rw [takes_cons_fails] at htakes ⊢
          exact ih hrest htakes
        | false => exact absurd rfl hturn
      | takes n =>
        have hpos : n ≠ 0 := hturn
        rw [takes_cons_takes] at htakes ⊢
        have hdrop : ((b :: buf).drop n).length + 1 ≤ (b :: buf).length := by
          rw [List.length_drop, List.length_cons]
          omega
        have hleft : ((b :: buf).drop n).length ≤ takes turns := by omega
        obtain ⟨rest, hwrite, hstops, hused⟩ := ih hrest hleft
        refine ⟨rest, ?_, hstops, by omega⟩
        rw [writeAll, if_neg hpos, hwrite]
        show Written.mk _ _ _ = _
        rw [List.take_append_drop]

end MultipathTools.MpathCmd
