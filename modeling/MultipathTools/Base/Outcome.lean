import Mathlib.Data.List.Basic
import Mathlib.Order.Basic
import Mathlib.Tactic.Common

/-! Computations on bounded memory, and loops over records of different lengths.
A loop is run with a bound on its turns; it does not end if no bound suffices. -/
namespace MultipathTools

/-- What becomes of a computation. -/
inductive Outcome (α : Type*)
  | done (a : α)
  /-- It reads or writes outside of a buffer. -/
  | outside
  /-- It needs more turns. -/
  | unfinished
  deriving DecidableEq, Repr

namespace Outcome

variable {α β γ : Type*}

def bind (x : Outcome α) (f : α → Outcome β) : Outcome β :=
  match x with
  | .done a => f a
  | .outside => .outside
  | .unfinished => .unfinished

/-- The result of an access that may be outside. -/
def ofOption : Option α → Outcome α
  | some a => .done a
  | none => .outside

@[simp] theorem bind_done (a : α) (f : α → Outcome β) : (done a).bind f = f a := rfl

@[simp] theorem bind_outside (f : α → Outcome β) : (outside : Outcome α).bind f = outside := rfl

@[simp] theorem bind_unfinished (f : α → Outcome β) :
    (unfinished : Outcome α).bind f = unfinished := rfl

@[simp] theorem ofOption_some (a : α) : ofOption (some a) = done a := rfl

@[simp] theorem ofOption_none : ofOption (none : Option α) = outside := rfl

theorem bind_assoc (x : Outcome α) (f : α → Outcome β) (g : β → Outcome γ) :
    (x.bind f).bind g = x.bind fun a => (f a).bind g := by
  cases x <;> rfl

theorem bind_ne_unfinished {x : Outcome α} {f : α → Outcome β} (hx : x ≠ .unfinished)
    (hf : ∀ a, f a ≠ .unfinished) : x.bind f ≠ .unfinished := by
  cases x with
  | done a => exact hf a
  | outside =>
    intro h
    cases h
  | unfinished => exact absurd rfl hx

theorem bind_eq_done_iff {x : Outcome α} {f : α → Outcome β} {b : β} :
    x.bind f = done b ↔ ∃ a, x = done a ∧ f a = done b := by
  cases x <;> simp [bind]

section TwoRuns

variable {δ : Type*} {R : α → β → Prop} {S : γ → δ → Prop} {x : Outcome α} {y : Outcome β}

/-- Both runs come to related results, or neither to a result, for the same reason. -/
def Rel (R : α → β → Prop) : Outcome α → Outcome β → Prop
  | .done a, .done b => R a b
  | .outside, .outside => True
  | .unfinished, .unfinished => True
  | _, _ => False

theorem Rel.bind {f : α → Outcome γ} {g : β → Outcome δ} (h : Rel R x y)
    (hfg : ∀ a b, R a b → Rel S (f a) (g b)) : Rel S (x.bind f) (y.bind g) := by
  cases x with
  | done a =>
    cases y with
    | done b => exact hfg a b h
    | outside => exact h.elim
    | unfinished => exact h.elim
  | outside =>
    cases y with
    | done b => exact h.elim
    | outside => trivial
    | unfinished => exact h.elim
  | unfinished =>
    cases y with
    | done b => exact h.elim
    | outside => exact h.elim
    | unfinished => trivial

theorem Rel.exists_done {a : α} (h : Rel R (.done a) y) : ∃ b, y = .done b ∧ R a b := by
  cases y with
  | done b => exact ⟨b, rfl, h⟩
  | outside => exact h.elim
  | unfinished => exact h.elim

end TwoRuns

end Outcome

section Accesses

variable {α : Type*}

/-- The byte at a position. -/
def byteAt (buf : List α) (i : ℕ) : Outcome α := .ofOption buf[i]?

/-- The `n` bytes from a position on. -/
def readAt (buf : List α) (i n : ℕ) : Outcome (List α) :=
  if i + n ≤ buf.length then .done ((buf.drop i).take n) else .outside

/-- The buffer after the bytes from a position on have been written. -/
def writeAt (buf : List α) (i : ℕ) (bs : List α) : Outcome (List α) :=
  if i + bs.length ≤ buf.length then .done (buf.take i ++ bs ++ buf.drop (i + bs.length))
  else .outside

variable {buf bs out : List α} {i n : ℕ}

theorem byteAt_of_lt (h : i < buf.length) : byteAt buf i = .done buf[i] := by
  rw [byteAt, List.getElem?_eq_getElem h]
  rfl

theorem byteAt_of_le (h : buf.length ≤ i) : byteAt buf i = .outside := by
  rw [byteAt, List.getElem?_eq_none h]
  rfl

theorem byteAt_ne_unfinished : byteAt buf i ≠ .unfinished := by
  unfold byteAt
  cases buf[i]?
  · intro h
    cases h
  · intro h
    cases h

theorem readAt_ne_unfinished : readAt buf i n ≠ .unfinished := by
  unfold readAt
  split_ifs
  · intro h
    cases h
  · intro h
    cases h

theorem byteAt_eq_done_iff {b : α} : byteAt buf i = .done b ↔ buf[i]? = some b := by
  unfold byteAt
  cases buf[i]? <;> simp

theorem readAt_of_le (h : i + n ≤ buf.length) : readAt buf i n = .done ((buf.drop i).take n) :=
  if_pos h

theorem readAt_of_lt (h : buf.length < i + n) : readAt buf i n = .outside :=
  if_neg (Nat.not_le.mpr h)

theorem writeAt_of_le (h : i + bs.length ≤ buf.length) :
    writeAt buf i bs = .done (buf.take i ++ bs ++ buf.drop (i + bs.length)) := if_pos h

theorem writeAt_length (h : writeAt buf i bs = .done out) : out.length = buf.length := by
  unfold writeAt at h
  split_ifs at h with hle
  cases h
  rw [List.length_append, List.length_append, List.length_take, List.length_drop]
  omega

/-- A write inside of the buffer keeps its length. -/
theorem exists_writeAt (h : i + bs.length ≤ buf.length) :
    ∃ out, writeAt buf i bs = .done out ∧ out.length = buf.length :=
  ⟨_, writeAt_of_le h, writeAt_length (writeAt_of_le h)⟩

/-- A write that continues what has been written so far. -/
theorem writeAt_append {cs : List α} (hi : i = cs.length) (hcs : cs <+: buf)
    (hle : (cs ++ bs).length ≤ buf.length) :
    ∃ out, writeAt buf i bs = .done out ∧ out.length = buf.length ∧ cs ++ bs <+: out := by
  subst hi
  rw [List.length_append] at hle
  have hwrite := writeAt_of_le hle
  refine ⟨_, hwrite, writeAt_length hwrite, ?_⟩
  rw [← List.prefix_iff_eq_take.mp hcs]
  exact List.prefix_append _ _

end Accesses

/-- A function that finds the record behind the one at a position. -/
structure Advance where
  next : ℕ → ℕ
  lt_next : ∀ d, d < next d

/-- The positions of the records from `d` on that begin below `limit`. -/
def offsets (a : Advance) (limit d : ℕ) : List ℕ :=
  if d < limit then d :: offsets a limit (a.next d) else []
termination_by limit - d
decreasing_by
  have := a.lt_next d
  omega

section Offsets

variable {a : Advance} {limit d e : ℕ}

theorem offsets_of_lt (h : d < limit) : offsets a limit d = d :: offsets a limit (a.next d) := by
  rw [offsets, if_pos h]

theorem offsets_of_le (h : limit ≤ d) : offsets a limit d = [] := by
  rw [offsets, if_neg (Nat.not_lt.mpr h)]

theorem offsets_eq_cons_iff {l : List ℕ} :
    offsets a limit d = e :: l ↔ e = d ∧ d < limit ∧ offsets a limit (a.next d) = l := by
  rcases Nat.lt_or_ge d limit with h | h
  · rw [offsets_of_lt h, List.cons.injEq, eq_comm]
    exact ⟨fun ⟨he, hl⟩ => ⟨he, h, hl⟩, fun ⟨he, _, hl⟩ => ⟨he, hl⟩⟩
  · rw [offsets_of_le h]
    constructor
    · intro hcons
      cases hcons
    · rintro ⟨-, hlt, -⟩
      omega

theorem le_of_mem_offsets (h : e ∈ offsets a limit d) : d ≤ e ∧ e < limit := by
  induction d using offsets.induct a limit with
  | case1 d hd ih =>
    rw [offsets_of_lt hd] at h
    rcases List.mem_cons.mp h with rfl | h
    · exact ⟨Nat.le_refl e, hd⟩
    · have hnext := a.lt_next d
      have hle := ih h
      omega
  | case2 d hd =>
    rw [offsets_of_le (Nat.not_lt.mp hd)] at h
    cases h

/-- Every turn of a walk over the records comes closer to the limit. -/
theorem length_offsets_le : (offsets a limit d).length ≤ limit - d := by
  induction d using offsets.induct a limit with
  | case1 d hd ih =>
    have hnext := a.lt_next d
    rw [offsets_of_lt hd, List.length_cons]
    omega
  | case2 d hd =>
    rw [offsets_of_le (Nat.not_lt.mp hd)]
    exact Nat.zero_le _

/-- Walks that agree on all records with a header inside meet the same records, if one of
them meets only such records. -/
theorem offsets_congr {a' : Advance} {header size : ℕ}
    (hnext : ∀ d, d + header ≤ size → a.next d = a'.next d)
    (h : ∀ e ∈ offsets a limit d, e + header ≤ size) : offsets a' limit d = offsets a limit d := by
  induction d using offsets.induct a limit with
  | case1 d hd ih =>
    rw [offsets_of_lt hd] at h ⊢
    rw [List.forall_mem_cons] at h
    rw [offsets_of_lt hd, ← hnext d h.1, ih h.2]
  | case2 d hd => rw [offsets_of_le (Nat.not_lt.mp hd), offsets_of_le (Nat.not_lt.mp hd)]

/-- A walk in bounded steps meets a record in any part of the range that is large enough. -/
theorem exists_mem_offsets {k w : ℕ} (hstep : ∀ d, a.next d ≤ d + w) (hk : k + w ≤ limit)
    (hd : d < limit) : ∃ e ∈ offsets a limit d, k ≤ e := by
  induction d using offsets.induct a limit with
  | case1 d hlt ih =>
    rw [offsets_of_lt hlt]
    rcases Nat.lt_or_ge d k with h | h
    · have hnext := hstep d
      obtain ⟨e, he, hke⟩ := ih (by omega)
      exact ⟨e, List.mem_cons_of_mem d he, hke⟩
    · exact ⟨d, List.mem_cons_self, h⟩
  | case2 d hlt => exact absurd hd hlt

end Offsets

variable {σ : Type*}

/-- `while (d < limit)`, with at most `fuel` turns. -/
def whileBelow (limit : ℕ) (body : ℕ → σ → Outcome (ℕ × σ)) : ℕ → ℕ → σ → Outcome σ
  | 0, d, s => if d < limit then .unfinished else .done s
  | fuel + 1, d, s =>
    if d < limit then (body d s).bind fun r => whileBelow limit body fuel r.1 r.2 else .done s

section WhileBelow

variable {limit d o fuel : ℕ} {body : ℕ → σ → Outcome (ℕ × σ)} {s : σ} {a : Advance}
  {f : σ → ℕ → σ} {pre post : List ℕ}

theorem whileBelow_of_le (h : limit ≤ d) : whileBelow limit body fuel d s = .done s := by
  cases fuel <;> exact if_neg (Nat.not_lt.mpr h)

theorem whileBelow_succ (h : d < limit) :
    whileBelow limit body (fuel + 1) d s =
      (body d s).bind fun r => whileBelow limit body fuel r.1 r.2 := if_pos h

/-- More turns do not change what becomes of a loop that needs no more. -/
theorem whileBelow_more (h : whileBelow limit body fuel d s ≠ .unfinished) (n : ℕ) :
    whileBelow limit body (fuel + n) d s = whileBelow limit body fuel d s := by
  induction fuel generalizing d s with
  | zero =>
    rcases Nat.lt_or_ge d limit with hd | hd
    · rw [whileBelow, if_pos hd] at h
      exact absurd rfl h
    · rw [whileBelow_of_le hd, whileBelow_of_le hd]
  | succ fuel ih =>
    rcases Nat.lt_or_ge d limit with hd | hd
    · rw [Nat.add_right_comm, whileBelow_succ hd, whileBelow_succ hd]
      rw [whileBelow_succ hd] at h
      cases hbody : body d s with
      | done r =>
        rw [hbody] at h
        exact ih h
      | outside => rfl
      | unfinished => rfl
    · rw [whileBelow_of_le hd, whileBelow_of_le hd]

theorem whileBelow_mono {s' : σ} (h : whileBelow limit body fuel d s = .done s') (n : ℕ) :
    whileBelow limit body (fuel + n) d s = .done s' := by
  rw [whileBelow_more (by rw [h]; intro hne; cases hne) n, h]

/-- The loop goes on to the next record, with `f` as the new state. -/
def Passes (body : ℕ → σ → Outcome (ℕ × σ)) (a : Advance) (f : σ → ℕ → σ) : List ℕ → σ → Prop
  | [], _ => True
  | o :: os, s => body o s = .done (a.next o, f s o) ∧ Passes body a f os (f s o)

/-- The loop passes records at which every turn that starts with the invariant goes on and
keeps it. -/
theorem passes_of_invariant (I : σ → Prop) {os : List ℕ} (hs : I s)
    (h : ∀ o ∈ os, ∀ s, I s → body o s = .done (a.next o, f s o) ∧ I (f s o)) :
    Passes body a f os s := by
  induction os generalizing s with
  | nil => trivial
  | cons o os ih =>
    obtain ⟨hbody, hkeep⟩ := h o List.mem_cons_self s hs
    exact ⟨hbody, ih hkeep fun p hp => h p (List.mem_cons_of_mem o hp)⟩

/-- A loop that passes all records ends behind the last, with as many turns. -/
theorem whileBelow_done (h : Passes body a f (offsets a limit d) s)
    (hfuel : (offsets a limit d).length ≤ fuel) :
    whileBelow limit body fuel d s = .done ((offsets a limit d).foldl f s) := by
  induction hos : offsets a limit d generalizing d s fuel with
  | nil =>
    have hd : limit ≤ d := by
      by_contra hlt
      rw [offsets_of_lt (Nat.not_le.mp hlt)] at hos
      cases hos
    exact whileBelow_of_le hd
  | cons o os ih =>
    rw [hos] at h hfuel
    obtain ⟨rfl, hd, hrest⟩ := offsets_eq_cons_iff.mp hos
    obtain ⟨fuel, rfl⟩ := Nat.exists_eq_add_of_le' (Nat.lt_of_lt_of_le (Nat.succ_pos _) hfuel)
    rw [whileBelow_succ hd, h.1, Outcome.bind_done, List.foldl_cons]
    rw [List.length_cons] at hfuel
    exact ih (by rw [hrest]; exact h.2) (by rw [hrest]; omega) hrest

/-- What a loop does from the record `o` on, once it has passed those before. -/
theorem whileBelow_reaches (hos : offsets a limit d = pre ++ o :: post)
    (h : Passes body a f pre s) :
    whileBelow limit body (pre.length + fuel) d s =
      whileBelow limit body fuel o (pre.foldl f s) ∧ o < limit := by
  induction pre generalizing d s with
  | nil =>
    obtain ⟨rfl, hd, -⟩ := offsets_eq_cons_iff.mp hos
    rw [List.length_nil, Nat.zero_add]
    exact ⟨rfl, hd⟩
  | cons p pre ih =>
    obtain ⟨rfl, hd, hrest⟩ := offsets_eq_cons_iff.mp hos
    rw [List.length_cons, Nat.add_right_comm, whileBelow_succ hd, h.1, Outcome.bind_done]
    exact ih hrest h.2

/-- With fewer turns than records before `o` the loop does not end. -/
theorem whileBelow_short (hos : offsets a limit d = pre ++ o :: post)
    (h : Passes body a f pre s) (hfuel : fuel ≤ pre.length) :
    whileBelow limit body fuel d s = .unfinished := by
  induction pre generalizing d s fuel with
  | nil =>
    obtain ⟨rfl, hd, -⟩ := offsets_eq_cons_iff.mp hos
    obtain rfl := Nat.le_zero.mp hfuel
    exact if_pos hd
  | cons p pre ih =>
    obtain ⟨rfl, hd, hrest⟩ := offsets_eq_cons_iff.mp hos
    cases fuel with
    | zero => exact if_pos hd
    | succ fuel =>
      rw [whileBelow_succ hd, h.1, Outcome.bind_done]
      exact ih hrest h.2 (Nat.le_of_succ_le_succ hfuel)

/-- A turn that leaves position and state as they are is repeated for ever. -/
theorem whileBelow_stuck (hos : offsets a limit d = pre ++ o :: post)
    (h : Passes body a f pre s) (hbody : body o (pre.foldl f s) = .done (o, pre.foldl f s)) :
    whileBelow limit body fuel d s = .unfinished := by
  rcases Nat.le_total fuel pre.length with hfuel | hfuel
  · exact whileBelow_short hos h hfuel
  · obtain ⟨n, rfl⟩ := Nat.exists_eq_add_of_le hfuel
    have hreach : whileBelow limit body (pre.length + n) d s = _ ∧ o < limit :=
      whileBelow_reaches hos h
    obtain ⟨hreach, ho⟩ := hreach
    rw [hreach]
    clear hreach hfuel
    induction n with
    | zero => exact if_pos ho
    | succ n ih => rw [whileBelow_succ ho, hbody, Outcome.bind_done, ih]

/-- A walk that meets a record of which not all is inside ends there. -/
theorem whileBelow_outside (hos : offsets a limit d = pre ++ o :: post)
    (h : Passes body a f pre s) (hbody : body o (pre.foldl f s) = .outside)
    (hfuel : pre.length < fuel) : whileBelow limit body fuel d s = .outside := by
  obtain ⟨n, rfl⟩ := Nat.exists_eq_add_of_le (Nat.le_of_lt hfuel)
  have hreach : whileBelow limit body (pre.length + n) d s = _ ∧ o < limit :=
    whileBelow_reaches hos h
  obtain ⟨hreach, ho⟩ := hreach
  obtain ⟨n, rfl⟩ := Nat.exists_eq_add_of_le' (show 0 < n by omega)
  rw [hreach, whileBelow_succ ho, hbody]
  rfl

end WhileBelow

end MultipathTools
