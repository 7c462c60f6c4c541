import Mathlib.Data.List.Basic
import Mathlib.Tactic.Common

/-! Programs that change a state and may stop at a fault, their weakest preconditions, and the rules
for loops over a list. -/
namespace MultipathTools

/-- A program comes to a result and a state, or stops at a fault. -/
abbrev Prog (ε σ α : Type) := StateT σ (Except ε) α

/-- What is not there is a fault. -/
def orThrow {ε σ α : Type} (e : ε) : Option α → Prog ε σ α
  | some a => pure a
  | none => throw e

variable {ε σ α β : Type} {E : ε → Prop} {x : Prog ε σ α} {f : α → Prog ε σ β} {s t : σ}

/-- From `s` the program comes to a result and a state with `Q`, or stops at a fault in `E`. -/
def wp (E : ε → Prop) (x : Prog ε σ α) (Q : α → σ → Prop) (s : σ) : Prop :=
  match x s with
  | .ok (a, t) => Q a t
  | .error e => E e

section Rules
variable {Q R : α → σ → Prop} {S : β → σ → Prop}

theorem wp.mono (h : wp E x Q s) (hQ : ∀ a t, Q a t → R a t) : wp E x R s := by
  unfold wp at h ⊢
  split at h <;> simp_all

theorem wp_bind : wp E (x >>= f) S s ↔ wp E x (fun a => wp E (f a) S) s := by
  simp only [wp, bind, StateT.bind, Except.bind]
  cases x s <;> rfl

/-- One program after the other. -/
theorem wp.bind (h : wp E x Q s) (hf : ∀ a t, Q a t → wp E (f a) S t) : wp E (x >>= f) S s :=
  wp_bind.mpr (h.mono hf)

@[simp] theorem wp_pure {a : α} : wp E (pure a : Prog ε σ α) Q s ↔ Q a s := Iff.rfl

@[simp] theorem wp_throw {e : ε} : wp E (throw e : Prog ε σ α) Q s ↔ E e := Iff.rfl

@[simp] theorem wp_get {Q : σ → σ → Prop} : wp E (get : Prog ε σ σ) Q s ↔ Q s s := Iff.rfl

@[simp] theorem wp_modify {g : σ → σ} {Q : PUnit → σ → Prop} :
    wp E (modify g : Prog ε σ PUnit) Q s ↔ Q ⟨⟩ (g s) := Iff.rfl

theorem wp_iff : wp E x Q s ↔
    (∃ a t, x s = .ok (a, t) ∧ Q a t) ∨ ∃ e, x s = .error e ∧ E e := by
  unfold wp
  split <;> simp_all

theorem wp.ok {a : α} (h : wp E x Q s) (hx : x s = .ok (a, t)) : Q a t := by
  rwa [wp, hx] at h

theorem wp.error {e : ε} (h : wp E x Q s) (hx : x s = .error e) : E e := by
  rwa [wp, hx] at h

end Rules

section Loops
variable {γ : Type} {as : List α}

/-- A loop over a list that keeps some elements, possibly with a new value. -/
def keepM (f : α → Prog ε σ (Option β)) : List α → Prog ε σ (List β)
  | [] => pure []
  | a :: as => do
    let b ← f a
    let bs ← keepM f as
    pure (b.toList ++ bs)

/-- Invariant rule for the loop: `I` speaks of what has been kept, and of what is left. -/
theorem wp_keepM {f : α → Prog ε σ (Option β)} (I : List β → List α → σ → Prop)
    (hstep : ∀ done a todo s, I done (a :: todo) s →
      wp E (f a) (fun b t => I (done ++ b.toList) todo t) s)
    (h : I [] as s) : wp E (keepM f as) (fun bs t => I bs [] t) s := by
  suffices hgo : ∀ done s, I done as s →
      wp E (keepM f as) (fun bs t => I (done ++ bs) [] t) s from hgo [] s h
  clear h
  intro done s h
  induction as generalizing done s with
  | nil => rwa [keepM, wp_pure, List.append_nil]
  | cons a as ih =>
    refine (hstep done a as s h).bind fun b t ht => (ih (done ++ b.toList) t ht).bind ?_
    intro bs t ht
    rwa [wp_pure, ← List.append_assoc]

/-- Invariant rule for a loop that does something with every element. -/
theorem wp_forM {f : α → Prog ε σ PUnit} (I : List α → σ → Prop)
    (hstep : ∀ a todo s, I (a :: todo) s → wp E (f a) (fun _ t => I todo t) s)
    (h : I as s) : wp E (as.forM f) (fun _ t => I [] t) s := by
  induction as generalizing s with
  | nil => exact h
  | cons a as ih => exact (hstep a as s h).bind fun _ _ ht => ih ht

/-- Invariant rule for a loop that ends early when its body says so. -/
theorem wp_anyM {f : α → Prog ε σ Bool} (I : List α → σ → Prop) (Q : σ → Prop)
    (hstep : ∀ a todo s, I (a :: todo) s →
      wp E (f a) (fun b t => if b = true then Q t else I todo t) s)
    (h : I as s) : wp E (as.anyM f) (fun b t => if b = true then Q t else I [] t) s := by
  induction as generalizing s with
  | nil => exact h
  | cons a as ih =>
    refine (hstep a as s h).bind fun b t ht => ?_
    cases b with
    | true => exact ht
    | false => exact ih ht

/-- A search that changes nothing. -/
theorem wp_findM {f : α → Prog ε σ Bool} {p : α → Bool}
    (hstep : ∀ a ∈ as, wp E (f a) (fun b t => b = p a ∧ t = s) s) :
    wp E (as.findM? f) (fun r t => r = as.find? p ∧ t = s) s := by
  induction as with
  | nil => exact ⟨rfl, rfl⟩
  | cons a as ih =>
    refine (hstep a List.mem_cons_self).bind ?_
    rintro b t ⟨rfl, rfl⟩
    rw [List.find?_cons]
    cases p a with
    | true => exact ⟨rfl, rfl⟩
    | false => exact ih fun a' ha' => hstep a' (List.mem_cons_of_mem a ha')

/-- A search that changes nothing finds an element of the list. -/
theorem wp_findM_mem {f : α → Prog ε σ Bool} (hstep : ∀ a ∈ as, wp E (f a) (fun _ t => t = s) s) :
    wp E (as.findM? f) (fun r t => t = s ∧ ∀ a, r = some a → a ∈ as) s := by
  induction as with
  | nil => exact ⟨rfl, nofun⟩
  | cons a as ih =>
    refine (hstep a List.mem_cons_self).bind ?_
    rintro b _ rfl
    cases b with
    | true => exact ⟨rfl, fun a' ha' => Option.some.inj ha' ▸ List.mem_cons_self⟩
    | false =>
      refine (ih fun a' ha' => hstep a' (List.mem_cons_of_mem a ha')).mono fun r t ht => ?_
      exact ⟨ht.1, fun a' ha' => List.mem_cons_of_mem a (ht.2 a' ha')⟩

end Loops

end MultipathTools
