import MultipathTools.Base.Run
import MultipathTools.Checkers.TurStart

/-! The protocol between the TUR checker and its threads, for every interleaving of their steps. -/
namespace MultipathTools.Tur

section Run
variable {w w' : World} {live : ℕ → Option ℕ}

/-- The step lemma of the checker. -/
theorem Inv.checkerStep (hi : Inv w live) {ok : Bool} {direct : TurResult}
    (h : checkerStep w ok direct = some w') : ∃ live', Inv w' live' := by
  have hphase := hi.phase
  unfold Phase at hphase
  unfold Tur.checkerStep at h
  cases hpc : w.pc <;> rw [hpc] at h hphase <;> dsimp only at h hphase
  case idle => cases h
  case freeXchg ct =>
    cases h
    exact ⟨live, hi.freeXchg hpc⟩
  case freeCancel ct =>
    cases h
    exact ⟨live, hi.freeCancel hpc⟩
  case freeSub ct =>
    cases h
    exact ⟨live, hi.freeSub hpc⟩
  case lateXchg ct =>
    cases h
    exact ⟨live, hi.lateXchg hpc⟩
  case lateCancel ct =>
    cases h
    obtain ⟨hcontext, hasked⟩ := hphase
    exact ⟨live, hi.cancelAnswer hcontext hasked (fun k => by rw [hpc]; rfl) (.inr (.inl rfl))⟩
  case lateRead ct =>
    cases h
    obtain ⟨hcontext, t, hserves⟩ := hphase
    exact ⟨live, hi.answerFinished hcontext (fun k => by rw [hpc]; rfl) hserves⟩
  case readRunning ct =>
    have hnext := hi.readRunning hpc
    split_ifs at h hnext
    · exact ⟨live, Option.some.inj h ▸ hnext⟩
    · exact ⟨live, Option.some.inj h ▸ hnext⟩
  case doneRead ct =>
    cases h
    obtain ⟨hcontext, t, hserves⟩ := hphase
    exact ⟨live, hi.answerFinished hcontext (fun k => by rw [hpc]; rfl) hserves⟩
  case readHolders ct =>
    have hnext := hi.readHolders ok hpc
    split_ifs at h hnext
    · exact ⟨live, Option.some.inj h ▸ hnext⟩
    · exact ⟨live, Option.some.inj h ▸ hnext⟩
    · exact ⟨live, Option.some.inj h ▸ hnext⟩
  case subOld old ct =>
    cases h
    exact ⟨live, hi.subOld hpc⟩
  case lockPending ct =>
    cases h
    exact ⟨live, hi.lockPending hpc⟩
  case addHolders ct =>
    cases h
    exact ⟨live, hi.addHolders hpc⟩
  case setRunning ct =>
    cases h
    exact ⟨live, hi.setRunning hpc⟩
  case create ct =>
    split_ifs at h
    · cases h
      exact ⟨_, hi.create hpc⟩
    · cases h
      exact ⟨live, hi.createFails hpc⟩
  case failSub ct =>
    cases h
    exact ⟨live, hi.failSub hpc⟩
  case failSet ct =>
    cases h
    exact ⟨live, hi.failSet hpc⟩
  case lockState ct =>
    have hnext := hi.lockState hpc
    split_ifs at h hnext
    · exact ⟨live, Option.some.inj h ▸ hnext⟩
    · exact ⟨live, Option.some.inj h ▸ hnext⟩
  case waiting ct =>
    have hnext := hi.waiting ok hpc
    split_ifs at h hnext
    · exact ⟨live, Option.some.inj h ▸ hnext⟩
    · exact ⟨live, Option.some.inj h ▸ hnext⟩
    · exact ⟨live, Option.some.inj h ▸ hnext⟩
  case lastXchg ct turStatus writer =>
    have hnext := hi.lastXchg hpc
    split_ifs at h hnext
    · exact ⟨live, Option.some.inj h ▸ hnext⟩
    · exact ⟨live, Option.some.inj h ▸ hnext⟩
  case lastCancel ct turStatus writer =>
    cases h
    obtain ⟨hcontext, hasked, hwriter⟩ := hphase
    have hsound : Report.Sound
        ⟨turStatus, (w.pthreadCancel ct).msgid, .context writer, w.asked⟩ := by
      obtain ⟨t, -, hserves⟩ := hasked
      refine .inr (.inr (.inr (.inr ⟨t, hserves.asked, ?_⟩)))
      rw [hwriter, hserves.asked]
    exact ⟨live, hi.cancelAnswer hcontext hasked (fun k => by rw [hpc]; rfl) hsound⟩

theorem Inv.goto (hi : Inv w live) {pc : CheckerPc} (hidle : w.pc = .idle)
    (hpc : ∀ k, pc.refs k = 0) (hphase : Phase (w.goto pc) live) : Inv (w.goto pc) live := by
  refine ⟨?_, hphase, hi.reports, hi.cancels⟩
  refine hi.accounts.same rfl (fun _ => ⟨rfl, rfl⟩) rfl rfl rfl ?_
  intro k
  rw [hidle]
  exact hpc k

theorem Inv.libcheckCheck (hi : Inv w live) {sync late : Bool} {direct : TurResult}
    (hidle : w.pc = .idle) : Inv (libcheckCheck w sync late direct) live := by
  have hready := hi.phase
  unfold Phase at hready
  rw [hidle] at hready
  dsimp only at hready
  have hzero : ∀ k, w.pc.refs k = 0 := by
    intro k
    rw [hidle]
    rfl
  unfold Tur.libcheckCheck
  cases hcontext : w.context with
  | none =>
    refine ⟨?_, ?_, ?_, hi.cancels⟩
    · refine hi.accounts.same rfl (fun _ => ⟨rfl, rfl⟩) rfl rfl rfl ?_
      intro k
      rw [hzero]
      rfl
    · intro ct hct
      cases hcontext.symm.trans hct
    · exact forall_mem_concat hi.reports (.inr (.inr (.inr (.inl ⟨rfl, rfl⟩))))
  | some ct =>
    dsimp only
    split
    · rw [← hcontext]
      exact hi.report hcontext (hready ct hcontext) hzero (.inr (.inr (.inl rfl)))
    · split
      · rename_i hthread
        obtain hquiet | hasked := hready ct hcontext
        · exact absurd hquiet.1 hthread
        · apply hi.goto hidle
          · intro k
            split <;> rfl
          · split
            · exact ⟨hcontext, hasked.of_eq rfl rfl rfl rfl⟩
            · exact ⟨hcontext, hasked.of_eq rfl rfl rfl rfl⟩
      · rename_i hthread
        apply hi.goto hidle (fun _ => rfl)
        refine ⟨hcontext, ?_⟩
        obtain hquiet | ⟨t, hsome, -⟩ := hready ct hcontext
        · exact hquiet
        · exact absurd (by rw [hsome]; exact nofun) hthread

theorem Inv.init (hi : Inv w live) (hidle : w.pc = .idle) (hnone : w.context = none) :
    Inv w.libcheckInit live := by
  refine ⟨?_, ?_, hi.reports, hi.cancels⟩
  · have hrefs : ∀ k, w.libcheckInit.refs k = if k = w.allocated then 1 else 0 := by
      intro k
      show (if some w.allocated = some k then 1 else 0) + w.pc.refs k = _
      rw [hidle]
      simp only [Option.some.injEq, eq_comm (a := w.allocated)]
      rfl
    refine hi.accounts.init rfl rfl rfl rfl ?_ ?_ ?_
    · intro k hk
      obtain rfl := Option.some.inj hk
      exact Nat.lt_succ_self _
    · rw [hrefs, if_pos rfl]
    · intro k hk
      rw [hrefs, if_neg (Nat.ne_of_lt hk), World.refs, hnone, hidle]
      rfl
  · have hpc : w.libcheckInit.pc = .idle := hidle
    unfold Phase
    rw [hpc]
    intro ct hct
    obtain rfl : w.allocated = ct := Option.some.inj hct
    exact .inl (quiet_of_set rfl rfl rfl)

/-- The step lemma. -/
theorem step_inv {e : Event} (hi : Inv w live) (h : step w e = some w') :
    ∃ live', Inv w' live' := by
  cases e with
  | init =>
    simp only [step, Option.ite_none_right_eq_some, Option.some.injEq] at h
    obtain ⟨⟨hidle, hnone⟩, rfl⟩ := h
    exact ⟨live, hi.init hidle hnone⟩
  | check sync late direct =>
    simp only [step, Option.ite_none_right_eq_some, Option.some.injEq] at h
    obtain ⟨hidle, rfl⟩ := h
    exact ⟨live, hi.libcheckCheck hidle⟩
  | free =>
    simp only [step, Option.ite_none_right_eq_some] at h
    obtain ⟨hidle, h⟩ := h
    have hready := hi.phase
    unfold Phase at hready
    rw [hidle] at hready
    cases hcontext : w.context with
    | none =>
      rw [hcontext] at h
      obtain rfl := Option.some.inj h
      exact ⟨live, hi⟩
    | some ct =>
      rw [hcontext] at h
      obtain rfl := Option.some.inj h
      refine ⟨live, hi.goto hidle (fun _ => rfl) ⟨hcontext, ?_⟩⟩
      obtain hquiet | hasked := hready ct hcontext
      · exact .inl hquiet
      · exact .inr (hasked.of_eq rfl rfl rfl rfl)
  | checker ok direct => exact hi.checkerStep h
  | thread t e =>
    have hrecord : w'.reports = w.reports ∧ w'.cancels = w.cancels := by
      obtain ⟨-, th', c', -, rfl⟩ := thread_cases h
      exact ⟨rfl, rfl⟩
    refine ⟨liveAfter w live t e, hi.accounts.thread h, hi.phase.thread hi.accounts h, ?_, ?_⟩
    · rw [hrecord.1]
      exact hi.reports
    · rw [hrecord.2]
      exact hi.cancels

end Run

/-- The checker and every thread of the context have released it. -/
def Released (w : World) (k : ℕ) : Prop :=
  w.context ≠ some k ∧ (∀ ct, w.pc ≠ .subOld k ct) ∧
    ∀ t < w.started, (w.threads t).ctx = k → (w.threads t).pc = .ended

/-- What holds of the cancelled threads, the contexts and the reported states. -/
structure Protocol (w : World) : Prop where
  cancels : ∀ c ∈ w.cancels, AtCancel c
  freed : ∀ k < w.allocated,
    (Released w k → (w.contexts k).freed = 1) ∧ (¬ Released w k → (w.contexts k).freed = 0)
  reports : ∀ r ∈ w.reports, r.Sound

theorem Phase.refs_eq_zero {w : World} {live : ℕ → Option ℕ} (h : Phase w live) (k : ℕ) :
    w.refs k = 0 ↔ w.context ≠ some k ∧ ∀ ct, w.pc ≠ .subOld k ct := by
  unfold Phase at h
  unfold World.refs
  cases hpc : w.pc <;> rw [hpc] at h <;> dsimp only at h <;>
    grind [CheckerPc.refs]

theorem Accounts.released {w : World} {live : ℕ → Option ℕ} (ha : Accounts w live) {k : ℕ}
    (hrefs : w.refs k = 0 ↔ w.context ≠ some k ∧ ∀ ct, w.pc ≠ .subOld k ct) :
    Released w k ↔ w.refs k = 0 ∧ live k = none := by
  have hlive : live k = none ↔
      ∀ t < w.started, (w.threads t).ctx = k → (w.threads t).pc = .ended := by
    constructor
    · intro hnone t ht hk
      by_contra hne
      have h := ha.lives t ht hne
      rw [hk, hnone] at h
      cases h
    · intro hended
      cases h : live k with
      | none => rfl
      | some t =>
        obtain ⟨ht, hk, hne, -⟩ := ha.owner k t h
        exact absurd (hended t ht hk) hne
  rw [Released, hrefs, hlive, and_assoc]

theorem Inv.protocol {w : World} {live : ℕ → Option ℕ} (hi : Inv w live) : Protocol w := by
  refine ⟨hi.cancels, ?_, hi.reports⟩
  intro k hk
  have hreleased := hi.accounts.released (hi.phase.refs_eq_zero k)
  have hfreed := hi.accounts.freed k hk
  constructor
  · intro h
    rw [hfreed, if_pos (hreleased.mp h)]
  · intro h
    rw [hfreed, if_neg (mt hreleased.mpr h)]

theorem start_inv : Inv {} fun _ => none := by
  refine ⟨⟨nofun, nofun, nofun, nofun, nofun⟩, nofun, nofun, nofun⟩

/-- In every interleaving, a thread is cancelled before its exchange of `running` or while it waits
in `pause`; a context is freed once, as soon as the checker and its threads have released it; and a
state that `libcheck_check` takes from a context was written by the thread of the check. -/
theorem run_protocol {es : List Event} {w : World} (h : run step {} es = some w) : Protocol w := by
  obtain ⟨live, hi⟩ := run_invariant (fun w => ∃ live, Inv w live)
    (fun _ _ _ hstep _ ⟨_, hi⟩ => step_inv hi hstep) ⟨_, start_inv⟩ (along_true _ es) h
  exact hi.protocol

/-- A check times out, and its thread exchanges `running` between the exchange by the checker and
the call of `pthread_cancel`. -/
def lateRun : List Event :=
  [.init, .check false false .up] ++ List.replicate 6 (.checker true .up) ++
    [.checker false .up, .check false true .up, .checker true .up, .thread 0 (.write .up),
      .thread 0 .xchg, .checker true .up]

theorem run_protocol_late : ∃ w, run step {} lateRun = some w ∧ w.cancels = [some .paused] ∧
    Protocol w := ⟨_, rfl, rfl, @run_protocol lateRun _ rfl⟩

/-- A cancelled thread may have done its exchange, and a synchronous check reports a state that no
thread has written. -/
theorem run_protocol_strict_fails :
    (¬ ∀ es w, run step {} es = some w →
      ∀ c ∈ w.cancels, c = some .checking ∨ c = some .exchanging) ∧
    ¬ ∀ es w, run step {} es = some w → ∀ r ∈ w.reports, r.status ≠ .pending →
      r.status ≠ .timeout → ∃ t, r.asked = some t ∧ r.origin = .context (some t) := by
  constructor
  · intro h
    have hpaused := h lateRun _ rfl (some .paused) List.mem_cons_self
    revert hpaused
    decide
  · intro h
    obtain ⟨t, hasked, -⟩ := h [.init, .check true false .up] _ rfl
      ⟨.up, .up, .direct, none⟩ List.mem_cons_self nofun nofun
    cases hasked

end MultipathTools.Tur
