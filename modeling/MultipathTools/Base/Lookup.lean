import Mathlib.Data.List.Basic
import MultipathTools.Base.Outcome

/-! Loops over records of different lengths that take the value of the first record of a
kind, and where such a loop leaves the buffer of the records. -/
namespace MultipathTools

/-- What a loop reads of the record at a position: whether it is of the kind, its value, and
where the next record begins. -/
structure Records (σ : Type*) where
  missing : σ
  isKind : ℕ → Outcome Bool
  value : ℕ → Outcome σ
  next : ℕ → Outcome ℕ

namespace Records

variable {σ : Type*}

/-- All headers are inside, and the value of the first record of the kind. -/
def Fits (size header extent : ℕ) (p : ℕ → Bool) (os : List ℕ) : Prop :=
  (∀ d ∈ os, d + header ≤ size) ∧ ∀ d ∈ os.find? p, d + extent ≤ size

instance {size header extent : ℕ} {p : ℕ → Bool} {os : List ℕ} :
    Decidable (Fits size header extent p os) := inferInstanceAs (Decidable (_ ∧ _))

/-- The value of the first record of the kind. -/
def firstValue (r : Records σ) (p : ℕ → Bool) (v : ℕ → σ) (os : List ℕ) : σ :=
  ((os.find? p).map v).getD r.missing

section Cons

variable {size header extent d : ℕ} {p : ℕ → Bool} {os : List ℕ}

theorem fits_other (hp : p d = false) :
    Fits size header extent p (d :: os) ↔
      d + header ≤ size ∧ Fits size header extent p os := by
  rw [Fits, List.forall_mem_cons, List.find?_cons_of_neg (by rw [hp]; exact Bool.false_ne_true),
    and_assoc, Fits]

theorem fits_first (hp : p d = true) :
    Fits size header extent p (d :: os) ↔
      d + header ≤ size ∧ (∀ e ∈ os, e + header ≤ size) ∧ d + extent ≤ size := by
  rw [Fits, List.forall_mem_cons, List.find?_cons_of_pos hp, and_assoc]
  simp

theorem firstValue_other {r : Records σ} {v : ℕ → σ} (hp : p d = false) :
    r.firstValue p v (d :: os) = r.firstValue p v os := by
  rw [firstValue, List.find?_cons_of_neg (by rw [hp]; exact Bool.false_ne_true), firstValue]

theorem firstValue_first {r : Records σ} {v : ℕ → σ} (hp : p d = true) :
    r.firstValue p v (d :: os) = v d := by
  rw [firstValue, List.find?_cons_of_pos hp]
  rfl

end Cons

variable [DecidableEq σ]

/-- One turn. A record of the kind gives its value, unless there is one already. -/
def step (r : Records σ) (d : ℕ) (s : σ) : Outcome (ℕ × σ) :=
  (r.isKind d).bind fun kind =>
    (if kind = true ∧ s = r.missing then r.value d else .done s).bind fun s =>
      (r.next d).bind fun d => .done (d, s)

/-- A turn that cannot read where the next record begins leaves the buffer. -/
theorem step_outside {r : Records σ} {d : ℕ} (hkind : r.isKind d ≠ .unfinished)
    (hvalue : r.value d ≠ .unfinished) (hnext : r.next d = .outside) (s : σ) :
    r.step d s = .outside := by
  unfold step
  cases hk : r.isKind d with
  | unfinished => exact absurd hk hkind
  | outside => rfl
  | done kind =>
    rw [Outcome.bind_done, hnext]
    split_ifs
    · cases hv : r.value d with
      | unfinished => exact absurd hv hvalue
      | outside => rfl
      | done s => rfl
    · rfl

/-- The loop from position `d` on, with at most `fuel` turns. -/
def lookup (r : Records σ) (limit fuel d : ℕ) : Outcome σ :=
  whileBelow limit r.step fuel d r.missing

/-- How records lie in a buffer of `size` bytes: a header of fixed length, and a value that
ends `extent` bytes behind the start of the record. -/
structure Layout (r : Records σ) (a : Advance) (size header extent : ℕ) (p : ℕ → Bool)
    (v : ℕ → σ) : Prop where
  inside : ∀ d, d + header ≤ size → r.isKind d = .done (p d) ∧ r.next d = .done (a.next d)
  outside : ∀ d s, size < d + header → r.step d s = .outside
  value : ∀ d, d + header ≤ size →
    r.value d = if d + extent ≤ size then .done (v d) else .outside
  found : ∀ d, v d ≠ r.missing

section Layout

variable {r : Records σ} {a : Advance} {size header extent limit fuel d : ℕ} {p : ℕ → Bool}
  {v : ℕ → σ} {s : σ}

theorem Layout.step_keep (h : r.Layout a size header extent p v) (hd : d + header ≤ size)
    (hs : p d = false ∨ s ≠ r.missing) : r.step d s = .done (a.next d, s) := by
  obtain ⟨hkind, hnext⟩ := h.inside d hd
  rw [step, hkind, Outcome.bind_done, if_neg, Outcome.bind_done, hnext]
  · rfl
  · rintro ⟨hp, hmissing⟩
    rcases hs with hs | hs
    · rw [hs] at hp
      cases hp
    · exact hs hmissing

theorem Layout.step_first (h : r.Layout a size header extent p v) (hd : d + header ≤ size)
    (hp : p d = true) :
    r.step d r.missing =
      if d + extent ≤ size then .done (a.next d, v d) else .outside := by
  obtain ⟨hkind, hnext⟩ := h.inside d hd
  rw [step, hkind, Outcome.bind_done, if_pos ⟨hp, rfl⟩, h.value d hd]
  split_ifs
  · rw [Outcome.bind_done, hnext]
    rfl
  · rfl

/-- Once a record of the kind has been met, the loop only looks at headers. -/
theorem Layout.loop_found (h : r.Layout a size header extent p v) (hs : s ≠ r.missing)
    (hfuel : (offsets a limit d).length ≤ fuel) :
    whileBelow limit r.step fuel d s =
      if ∀ e ∈ offsets a limit d, e + header ≤ size then .done s else .outside := by
  induction d using offsets.induct a limit generalizing fuel with
  | case1 d hd ih =>
    rw [offsets_of_lt hd] at hfuel ⊢
    obtain ⟨fuel, rfl⟩ := Nat.exists_eq_add_of_le' (Nat.lt_of_lt_of_le (Nat.succ_pos _) hfuel)
    rw [whileBelow_succ hd]
    by_cases hin : d + header ≤ size
    · rw [h.step_keep hin (Or.inr hs), Outcome.bind_done, ih (Nat.le_of_succ_le_succ hfuel)]
      apply if_congr _ rfl rfl
      rw [List.forall_mem_cons, and_iff_right hin]
    · rw [h.outside d s (Nat.not_le.mp hin), if_neg fun hall => hin (hall d List.mem_cons_self)]
      rfl
  | case2 d hd =>
    rw [offsets_of_le (Nat.not_lt.mp hd), whileBelow_of_le (Nat.not_lt.mp hd), if_pos]
    exact List.forall_mem_nil _

/-- What a loop with enough turns ends with. -/
theorem Layout.lookup_eq (h : r.Layout a size header extent p v)
    (hfuel : (offsets a limit d).length ≤ fuel) :
    r.lookup limit fuel d =
      if Fits size header extent p (offsets a limit d) then
        .done (r.firstValue p v (offsets a limit d))
      else .outside := by
  unfold lookup
  induction d using offsets.induct a limit generalizing fuel with
  | case1 d hd ih =>
    rw [offsets_of_lt hd] at hfuel ⊢
    obtain ⟨fuel, rfl⟩ := Nat.exists_eq_add_of_le' (Nat.lt_of_lt_of_le (Nat.succ_pos _) hfuel)
    have hrest := Nat.le_of_succ_le_succ hfuel
    rw [whileBelow_succ hd]
    by_cases hin : d + header ≤ size
    · cases hp : p d with
      | false =>
        rw [h.step_keep hin (Or.inl hp), Outcome.bind_done, ih hrest, firstValue_other hp]
        apply if_congr _ rfl rfl
        rw [fits_other hp, and_iff_right hin]
      | true =>
        rw [h.step_first hin hp, firstValue_first hp]
        by_cases hext : d + extent ≤ size
        · rw [if_pos hext, Outcome.bind_done, h.loop_found (h.found d) hrest]
          apply if_congr _ rfl rfl
          rw [fits_first hp, and_iff_right hin, and_iff_left hext]
        · rw [if_neg hext, if_neg fun hall => hext ((fits_first hp).mp hall).2.2]
          rfl
    · rw [h.outside d _ (Nat.not_le.mp hin), if_neg fun hall => hin (hall.1 d List.mem_cons_self)]
      rfl
  | case2 d hd =>
    rw [offsets_of_le (Nat.not_lt.mp hd), whileBelow_of_le (Nat.not_lt.mp hd), if_pos]
    · rfl
    · exact ⟨List.forall_mem_nil _, fun e he => by cases he⟩

/-- The loop always comes to an end, or leaves the buffer. -/
theorem Layout.lookup_ends (h : r.Layout a size header extent p v) (hfuel : limit - d ≤ fuel) :
    r.lookup limit fuel d ≠ .unfinished := by
  rw [h.lookup_eq (Nat.le_trans length_offsets_le hfuel)]
  split_ifs
  · intro heq
    cases heq
  · intro heq
    cases heq

/-- What a loop ends with, if it does. -/
theorem Layout.lookup_done_iff (h : r.Layout a size header extent p v) {x : σ} :
    (∃ fuel, r.lookup limit fuel d = .done x) ↔
      Fits size header extent p (offsets a limit d) ∧
        r.firstValue p v (offsets a limit d) = x := by
  constructor
  · rintro ⟨fuel, hdone⟩
    have hmore := whileBelow_mono hdone (offsets a limit d).length
    have heq := h.lookup_eq (Nat.le_add_left (offsets a limit d).length fuel)
    rw [lookup, hmore] at heq
    split_ifs at heq with hfits
    · exact ⟨hfits, (Outcome.done.inj heq).symm⟩
  · rintro ⟨hfits, hvalue⟩
    refine ⟨_, (h.lookup_eq (Nat.le_refl _)).trans ?_⟩
    rw [if_pos hfits, hvalue]

end Layout

end Records

end MultipathTools
