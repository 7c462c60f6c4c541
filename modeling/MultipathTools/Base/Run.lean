import Mathlib.Data.List.Basic

/-! Finite runs of a labelled transition system given by a partial step function.
`none` means that the event is not enabled. Properties of a run are properties of
its transitions. -/
namespace MultipathTools

variable {σ ε : Type*}

/-- The state after a list of events, if every one of them is enabled. -/
def run (step : σ → ε → Option σ) : σ → List ε → Option σ
  | s, [] => some s
  | s, e :: es => (step s e).bind fun s' => run step s' es

/-- Every transition that the run of `es` from `s` takes satisfies `P`. -/
def Along (step : σ → ε → Option σ) (P : σ → ε → σ → Prop) : σ → List ε → Prop
  | _, [] => True
  | s, e :: es => ∀ s', step s e = some s' → P s e s' ∧ Along step P s' es

variable {step : σ → ε → Option σ} {P Q : σ → ε → σ → Prop}

@[simp] theorem run_nil (s : σ) : run step s [] = some s := rfl

@[simp] theorem run_cons (s : σ) (e : ε) (es : List ε) :
    run step s (e :: es) = (step s e).bind fun s' => run step s' es := rfl

@[simp] theorem along_nil (s : σ) : Along step P s [] := trivial

theorem run_append (s : σ) (es fs : List ε) :
    run step s (es ++ fs) = (run step s es).bind fun s' => run step s' fs := by
  induction es generalizing s with
  | nil => rfl
  | cons e es ih => cases h : step s e <;> simp [h, ih]

theorem along_append {s : σ} {es fs : List ε} :
    Along step P s (es ++ fs) ↔
      Along step P s es ∧ ∀ s', run step s es = some s' → Along step P s' fs := by
  induction es generalizing s with
  | nil => simp
  | cons e es ih =>
    cases h : step s e with
    | none => simp [Along, h]
    | some t => simp [Along, h, ih, and_assoc]

/-- A property of single transitions transfers from one predicate to another. -/
theorem Along.imp (hPQ : ∀ s e s', step s e = some s' → P s e s' → Q s e s') {s : σ}
    {es : List ε} (h : Along step P s es) : Along step Q s es := by
  induction es generalizing s with
  | nil => trivial
  | cons e es ih => exact fun s' hs => ⟨hPQ s e s' hs (h s' hs).1, ih (h s' hs).2⟩

/-- Invariant rule for runs: what the allowed transitions keep holds at the end. -/
theorem run_invariant (I : σ → Prop) (hI : ∀ s e s', step s e = some s' → P s e s' → I s → I s')
    {s t : σ} {es : List ε} (hs : I s) (ha : Along step P s es) (hr : run step s es = some t) :
    I t := by
  induction es generalizing s with
  | nil => exact Option.some.inj hr ▸ hs
  | cons e es ih =>
    obtain ⟨s', hs', hr'⟩ := Option.bind_eq_some_iff.mp hr
    exact ih (hI s e s' hs' (ha s' hs').1 hs) (ha s' hs').2 hr'

/-- Invariant rule for transitions: under an invariant, `P` may be used to show `Q`. -/
theorem along_of_invariant (I : σ → Prop)
    (hI : ∀ s e s', step s e = some s' → P s e s' → I s → I s' ∧ Q s e s')
    {s : σ} {es : List ε} (hs : I s) (ha : Along step P s es) : Along step Q s es := by
  induction es generalizing s with
  | nil => trivial
  | cons e es ih =>
    intro s' hs'
    obtain ⟨hP, ha'⟩ := ha s' hs'
    obtain ⟨hI', hQ⟩ := hI s e s' hs' hP hs
    exact ⟨hQ, ih hI' ha'⟩

/-- Without a constraint on the transitions every run is allowed. -/
theorem along_true (s : σ) (es : List ε) : Along step (fun _ _ _ => True) s es := by
  induction es generalizing s with
  | nil => trivial
  | cons e es ih => exact fun s' _ => ⟨trivial, ih s'⟩

theorem along_cons {s s' : σ} {e : ε} {es : List ε} (h : step s e = some s') (hp : P s e s')
    (hs : Along step P s' es) : Along step P s (e :: es) := by
  intro t ht
  obtain rfl := Option.some.inj (h.symm.trans ht)
  exact ⟨hp, hs⟩

/-- The system can go from one state to the other by events of the kind. -/
def Leads (step : σ → ε → Option σ) (kind : ε → Prop) (s t : σ) : Prop :=
  ∃ es, (∀ e ∈ es, kind e) ∧ run step s es = some t

variable {kind : ε → Prop} {s s' t : σ} {e : ε}

theorem Leads.refl (s : σ) : Leads step kind s s := ⟨[], nofun, rfl⟩

theorem Leads.head (h : step s e = some s') (he : kind e) (hl : Leads step kind s' t) :
    Leads step kind s t := by
  obtain ⟨es, hes, hrun⟩ := hl
  refine ⟨e :: es, List.forall_mem_cons.mpr ⟨he, hes⟩, ?_⟩
  rw [run_cons, h]
  exact hrun

theorem Leads.trans (h : Leads step kind s s') (hl : Leads step kind s' t) : Leads step kind s t := by
  obtain ⟨es, hes, hrun⟩ := h
  obtain ⟨fs, hfs, hrun'⟩ := hl
  refine ⟨es ++ fs, List.forall_mem_append.mpr ⟨hes, hfs⟩, ?_⟩
  rw [run_append, hrun]
  exact hrun'

/-- What every event keeps is kept on the way. -/
theorem Leads.keep (I : σ → Prop) (hI : ∀ s e s', step s e = some s' → I s → I s')
    (h : Leads step kind s t) (hs : I s) : I t := by
  obtain ⟨es, -, hrun⟩ := h
  exact run_invariant I (fun s e s' hstep _ => hI s e s' hstep) hs (along_true s es) hrun

end MultipathTools
