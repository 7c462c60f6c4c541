import Mathlib.Logic.Function.Basic

/-! Threads that exclude each other by a lock: who is inside of a critical section is who holds
the lock. -/
namespace MultipathTools

variable {θ : Type*} {inside inside' : θ → Prop} {owner : Option θ} {t u : θ}

/-- The threads inside are those that hold the lock. -/
def Exclusive (inside : θ → Prop) (owner : Option θ) : Prop := ∀ t, inside t ↔ owner = some t

theorem Exclusive.eq (h : Exclusive inside owner) (ht : inside t) (hu : inside u) : t = u :=
  Option.some.inj (((h t).mp ht).symm.trans ((h u).mp hu))

theorem Exclusive.owner_eq (h : Exclusive inside owner) (ht : inside t) : owner = some t :=
  (h t).mp ht

theorem Exclusive.not_inside (h : Exclusive inside owner) (ho : owner ≠ some t) : ¬ inside t :=
  fun ht => ho (h.owner_eq ht)

theorem exclusive_none (h : ∀ t, ¬ inside t) : Exclusive inside none := fun t =>
  iff_of_false (h t) nofun

/-- What a step of the thread does with the lock: nothing, it takes the free lock, or it gives it
back. -/
def LockStep (inside inside' : Prop) (owner owner' : Option θ) (t : θ) : Prop :=
  (inside' ↔ inside) ∧ owner' = owner ∨ owner = none ∧ inside' ∧ owner' = some t ∨
    inside ∧ ¬ inside' ∧ owner' = none

theorem Exclusive.step {owner' : Option θ} (h : Exclusive inside owner)
    (hother : ∀ u, u ≠ t → (inside' u ↔ inside u))
    (hstep : LockStep (inside t) (inside' t) owner owner' t) : Exclusive inside' owner' := by
  intro u
  by_cases hu : u = t
  · subst hu
    obtain ⟨hsame, rfl⟩ | ⟨-, hin, rfl⟩ | ⟨-, hout, rfl⟩ := hstep
    · exact hsame.trans (h u)
    · exact iff_of_true hin rfl
    · exact iff_of_false hout nofun
  · rw [hother u hu]
    obtain ⟨-, rfl⟩ | ⟨rfl, -, rfl⟩ | ⟨hin, -, rfl⟩ := hstep
    · exact h u
    · exact iff_of_false (h.not_inside nofun) fun heq => hu (Option.some.inj heq).symm
    · exact iff_of_false (fun hui => hu (h.eq hui hin)) nofun

end MultipathTools
