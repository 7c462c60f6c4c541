import Mathlib.Tactic.Common

/-! Computations that stop at a fault, and exactly when they do, and computations that allocate memory,
any of whose allocations may fail. -/
namespace MultipathTools

variable {ε α β : Type*}

theorem bind_eq_ok_iff {x : Except ε α} {f : α → Except ε β} {b : β} :
    x.bind f = .ok b ↔ ∃ a, x = .ok a ∧ f a = .ok b := by
  cases x <;> simp [Except.bind]

/-- The computation stops at a fault exactly under `c`; else its result has `Q`. -/
structure FaultIff (x : Except ε α) (c : Prop) (Q : α → Prop) : Prop where
  fault : c → ∀ a, x ≠ .ok a
  result : ¬c → ∃ a, x = .ok a ∧ Q a

namespace FaultIff

variable {x : Except ε α} {f : α → Except ε β} {c c' : Prop} {Q : α → Prop} {R : β → Prop}

theorem ok {a : α} (ha : Q a) : FaultIff (.ok a : Except ε α) False Q :=
  ⟨False.elim, fun _ => ⟨a, rfl, ha⟩⟩

theorem ok_of_not {a : α} (ha : Q a) (hc : ¬c) : FaultIff (.ok a : Except ε α) c Q :=
  ⟨fun h => absurd h hc, fun _ => ⟨a, rfl, ha⟩⟩

theorem error (e : ε) : FaultIff (.error e) True Q := by
  refine ⟨fun _ a ha => ?_, fun h => absurd trivial h⟩
  cases ha

/-- One computation after the other. -/
theorem bind (hx : FaultIff x c Q) (hf : ∀ a, Q a → FaultIff (f a) c' R) :
    FaultIff (x.bind f) (c ∨ c') R := by
  constructor
  · intro h b hb
    obtain ⟨a, ha, hfa⟩ := bind_eq_ok_iff.mp hb
    have hc : ¬c := fun hc => hx.fault hc a ha
    obtain ⟨a', ha', hQ⟩ := hx.result hc
    obtain rfl : a = a' := Except.ok.inj (ha.symm.trans ha')
    exact (hf a hQ).fault (h.resolve_left hc) b hfa
  · intro h
    rw [not_or] at h
    obtain ⟨a, ha, hQ⟩ := hx.result h.1
    obtain ⟨b, hb, hR⟩ := (hf a hQ).result h.2
    exact ⟨b, bind_eq_ok_iff.mpr ⟨a, ha, hb⟩, hR⟩

/-- A fault-free computation after another one. -/
theorem bind_ok (hx : FaultIff x c Q) (hf : ∀ a, Q a → FaultIff (f a) False R) :
    FaultIff (x.bind f) c R := by
  have h := hx.bind hf
  rwa [or_false] at h

theorem of_iff (hx : FaultIff x c Q) (h : c' ↔ c) : FaultIff x c' Q :=
  ⟨fun hc => hx.fault (h.mp hc), fun hc => hx.result fun h' => hc (h.mpr h')⟩

theorem mono {R : α → Prop} (hx : FaultIff x c Q) (h : ∀ a, Q a → R a) : FaultIff x c R := by
  refine ⟨hx.fault, fun hc => ?_⟩
  obtain ⟨a, ha, hQ⟩ := hx.result hc
  exact ⟨a, ha, h a hQ⟩

theorem ok_iff (hx : FaultIff x c Q) : (∃ a, x = .ok a) ↔ ¬c := by
  constructor
  · rintro ⟨a, ha⟩ hc
    exact hx.fault hc a ha
  · intro hc
    obtain ⟨a, ha, -⟩ := hx.result hc
    exact ⟨a, ha⟩

end FaultIff

/-- The results of the allocations that are still to come. -/
abbrev Supply := ℕ → Bool

/-- A computation that has no result if it gives up, because an allocation failed or for
another reason. -/
def Alloc (α : Type*) := Supply → Option α × Supply

namespace Alloc

variable {α β : Type*}

def pure (a : α) : Alloc α := fun m => (some a, m)

def fail : Alloc α := fun m => (none, m)

def bind (x : Alloc α) (f : α → Alloc β) : Alloc β := fun m =>
  match x m with
  | (none, m) => (none, m)
  | (some a, m) => f a m

/-- One allocation. -/
def malloc : Alloc Unit := fun m => (if m 0 then some () else none, fun n => m (n + 1))

/-- Two allocations, both of which are done before the results are looked at. -/
def mallocs : Alloc Unit := fun m =>
  (if m 0 ∧ m 1 then some () else none, fun n => m (n + 2))

/-- No allocation fails. -/
def always : Supply := fun _ => true

/-- Without failed allocations the computation gives this result. -/
def Yields (x : Alloc α) (a : α) : Prop := x always = (some a, always)

/-- The computation takes nothing but allocations from the supply. -/
def Steady (x : Alloc α) : Prop := (x always).2 = always

theorem pure_steady (a : α) : Steady (pure a) := rfl

theorem fail_steady : Steady (fail : Alloc α) := rfl

theorem malloc_steady : Steady malloc := rfl

theorem mallocs_steady : Steady mallocs := rfl

theorem bind_steady {x : Alloc α} {f : α → Alloc β} (hx : Steady x) (hf : ∀ a, Steady (f a)) :
    Steady (x.bind f) := by
  unfold Steady at hx ⊢
  unfold bind
  rcases hr : x always with ⟨_ | a, m⟩
  · rw [hr] at hx
    exact hx
  · rw [hr] at hx
    obtain rfl : m = always := hx
    exact hf a

theorem bind_yields_iff {x : Alloc α} {f : α → Alloc β} {b : β} (hx : Steady x) :
    Yields (x.bind f) b ↔ ∃ a, Yields x a ∧ Yields (f a) b := by
  unfold Steady at hx
  unfold Yields bind
  rcases hr : x always with ⟨_ | a, m⟩
  · simp
  · rw [hr] at hx
    obtain rfl : m = always := hx
    simp

theorem Steady.yields {x : Alloc α} {a : α} (hx : Steady x) (h : (x always).1 = some a) :
    Yields x a := Prod.ext h hx

theorem pure_yields_iff {a b : α} : Yields (pure a) b ↔ a = b := by
  simp [Yields, pure]

theorem fail_yields_iff {b : α} : Yields fail b ↔ False := by
  simp [Yields, fail]

end Alloc

end MultipathTools
