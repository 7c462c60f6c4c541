import Mathlib.Tactic.Ring
import MultipathTools.Checkers.TurInvariant

/-! The steps of the TUR checker that release a context or take an answer from it. -/
namespace MultipathTools.Tur

section CheckerEvent
variable {w w' : World} {live : ℕ → Option ℕ}

/-- A step of the checker that changes no count. -/
theorem Accounts.of_eq (ha : Accounts w live)
    (hthreads : ∀ t, (w'.threads t).pc = (w.threads t).pc ∧ (w'.threads t).ctx = (w.threads t).ctx)
    (hstarted : w'.started = w.started) (hallocated : w'.allocated = w.allocated)
    (hcontext : ∀ k, w'.context = some k → w.context = some k)
    (hrefs : ∀ k, w'.refs k = 0 ↔ w.refs k = 0)
    (hholders : ∀ k, (w'.contexts k).holders - w'.refs k = (w.contexts k).holders - w.refs k)
    (hfreed : ∀ k, (w'.contexts k).freed = (w.contexts k).freed) : Accounts w' live := by
  constructor
  · intro t ht hne
    rw [hstarted] at ht
    rw [(hthreads t).1] at hne
    rw [(hthreads t).2]
    exact ha.lives t ht hne
  · intro k t h
    rw [hstarted, hallocated, (hthreads t).1, (hthreads t).2]
    exact ha.owner k t h
  · intro k hk
    rw [hallocated]
    exact ha.context k (hcontext k hk)
  · intro k hk
    have h := ha.holders k (hallocated ▸ hk)
    have hsame := hholders k
    omega
  · intro k hk
    have h := ha.freed k (hallocated ▸ hk)
    rw [hfreed, h]
    simp only [hrefs]

theorem Serves.of_eq {P : ℕ → Context → Thread → Prop} {ct t : ℕ} (h : Serves P w live ct t)
    (hthreads : w'.threads = w.threads) (hstarted : w'.started = w.started)
    (hcontexts : w'.contexts ct = w.contexts ct) (hasked : w'.asked = w.asked) :
    Serves P w' live ct t := by
  obtain ⟨hlt, hct, honly, hask, hholds⟩ := h
  refine ⟨hstarted ▸ hlt, hthreads ▸ hct, honly, hasked.trans hask, ?_⟩
  rw [hthreads, hcontexts]
  exact hholds

theorem Asked.of_eq {P : ℕ → Context → Thread → Prop} {ct : ℕ} (h : Asked P w live ct)
    (hthreads : w'.threads = w.threads) (hstarted : w'.started = w.started)
    (hcontexts : w'.contexts ct = w.contexts ct) (hasked : w'.asked = w.asked) :
    Asked P w' live ct := by
  obtain ⟨t, hthread, hserves⟩ := h
  refine ⟨t, ?_, hserves.of_eq hthreads hstarted hcontexts hasked⟩
  rw [hcontexts]
  exact hthread

theorem set_contexts (w : World) (ct : ℕ) (c : Context) (k : ℕ) :
    (w.set ct c).contexts k = if k = ct then c else w.contexts k :=
  Function.update_apply w.contexts ct c k

/-- The exchange of `running` by the checker, before the thread has done its own. -/
theorem Asked.xchg {ct : ℕ} (h : Asked Answers w live ct)
    (hrunning : (w.contexts ct).running = true) :
    Asked Cancellable (w.set ct { w.contexts ct with running := false }) live ct := by
  obtain ⟨t, hthread, hlt, hct, honly, hasked, hf | ⟨-, hcancel, hpc⟩⟩ := h
  · rw [hf.1] at hrunning
    cases hrunning
  · have hself : (w.set ct { w.contexts ct with running := false }).contexts ct =
        { w.contexts ct with running := false } := by rw [set_contexts, if_pos rfl]
    refine ⟨t, by rw [hself]; exact hthread, hlt, hct, honly, hasked, ?_⟩
    rw [hself]
    refine ⟨rfl, hcancel, ?_⟩
    obtain ⟨hchecking, -⟩ | ⟨hexchanging, -⟩ := hpc
    · exact .inl hchecking
    · exact .inr (.inl hexchanging)

/-- The exchange after the thread has done its own. -/
theorem Asked.finished {ct : ℕ} (h : Asked Answers w live ct)
    (hrunning : (w.contexts ct).running = false) : ∃ t, Serves Finished w live ct t := by
  obtain ⟨t, -, hlt, hct, honly, hasked, hf | ⟨hrun, -⟩⟩ := h
  · exact ⟨t, hlt, hct, honly, hasked, hf⟩
  · rw [hrunning] at hrun
    cases hrun

theorem set_running_false {ct : ℕ} (hrunning : (w.contexts ct).running = false) :
    w.set ct { w.contexts ct with running := false } = w := by
  have hself : { w.contexts ct with running := false } = w.contexts ct := by rw [← hrunning]
  rw [hself, World.set, Function.update_eq_self]

/-- A thread that is not paused for another reason is there to be cancelled. -/
theorem Asked.atCancel {ct : ℕ} (h : Asked Cancellable w live ct) :
    ∃ t, (w.contexts ct).thread = some t ∧ w.pthreadCancel ct =
      { w with
        threads := Function.update w.threads t { w.threads t with cancelled := true }
        cancels := w.cancels ++ [some (w.threads t).pc] } ∧
      AtCancel (some (w.threads t).pc) := by
  obtain ⟨t, hthread, hserves⟩ := h
  refine ⟨t, hthread, ?_, ?_⟩
  · unfold World.pthreadCancel
    rw [hthread]
  · obtain ⟨-, -, hpc⟩ := hserves.holds
    simpa [AtCancel] using hpc

/-- The written state is the one of the thread that serves the check. -/
theorem Asked.writer {ct : ℕ} (h : Asked Answers w live ct)
    (hstate : (w.contexts ct).state ≠ .pending) : (w.contexts ct).writer = w.asked := by
  obtain ⟨t, -, -, -, -, hasked, hf | ⟨-, -, ⟨-, hpending⟩ | ⟨-, hwriter⟩⟩⟩ := h
  · rw [hf.2.2, hasked]
  · exact absurd hpending hstate
  · rw [hwriter, hasked]

theorem forall_mem_concat {α : Type*} {P : α → Prop} {l : List α} {a : α} (hl : ∀ x ∈ l, P x)
    (ha : P a) : ∀ x ∈ l ++ [a], P x := by
  intro x hx
  obtain hx | hx := List.mem_append.mp hx
  · exact hl x hx
  · exact List.mem_singleton.mp hx ▸ ha

/-- A step that changes one context, but no count. -/
theorem Accounts.set (ha : Accounts w live) {ct : ℕ} {c : Context}
    (hcontexts : w'.contexts = (w.set ct c).contexts)
    (hholders : c.holders = (w.contexts ct).holders) (hfreed : c.freed = (w.contexts ct).freed)
    (hthreads : ∀ t, (w'.threads t).pc = (w.threads t).pc ∧ (w'.threads t).ctx = (w.threads t).ctx)
    (hstarted : w'.started = w.started) (hallocated : w'.allocated = w.allocated)
    (hcontext : w'.context = w.context) (hpc : ∀ k, w'.pc.refs k = w.pc.refs k) :
    Accounts w' live := by
  have hrefs : ∀ k, w'.refs k = w.refs k := by
    intro k
    rw [World.refs, World.refs, hcontext, hpc]
  apply ha.of_eq hthreads hstarted hallocated
  · intro k hk
    rw [← hcontext]
    exact hk
  · intro k
    rw [hrefs]
  · intro k
    rw [hrefs, hcontexts, set_contexts]
    split
    · rename_i hk
      rw [hk, hholders]
    · rfl
  · intro k
    rw [hcontexts, set_contexts]
    split
    · rename_i hk
      rw [hk, hfreed]
    · rfl

/-- A step that changes no context. -/
theorem Accounts.same (ha : Accounts w live) (hcontexts : w'.contexts = w.contexts)
    (hthreads : ∀ t, (w'.threads t).pc = (w.threads t).pc ∧ (w'.threads t).ctx = (w.threads t).ctx)
    (hstarted : w'.started = w.started) (hallocated : w'.allocated = w.allocated)
    (hcontext : w'.context = w.context) (hpc : ∀ k, w'.pc.refs k = w.pc.refs k) :
    Accounts w' live := by
  have hset : w'.contexts = (w.set 0 (w.contexts 0)).contexts := by
    rw [hcontexts, World.set, Function.update_eq_self]
  exact ha.set hset rfl rfl hthreads hstarted hallocated hcontext hpc

theorem update_cancelled {t : ℕ} (u : ℕ) :
    (Function.update w.threads t { w.threads t with cancelled := true } u).pc = (w.threads u).pc ∧
      (Function.update w.threads t { w.threads t with cancelled := true } u).ctx =
        (w.threads u).ctx := by
  rw [Function.update_apply]
  split
  · rename_i hu
    rw [hu]
    exact ⟨rfl, rfl⟩
  · exact ⟨rfl, rfl⟩

theorem pc_refs_of (hpc : ∀ k, w.pc.refs k = 0) {ct : ℕ} (hcontext : w.context = some ct) (k : ℕ) :
    w.refs k = if k = ct then 1 else 0 := by
  rw [World.refs, hpc, hcontext, Nat.add_zero]
  simp only [Option.some.injEq, eq_comm]

/-- The checker gives up its reference to a context. -/
theorem Accounts.put (ha : Accounts w live) {ct : ℕ} {c : Context} (hlt : ct < w.allocated)
    (hcontexts : w'.contexts = (w.set ct c).contexts)
    (hholders : c.holders = (w.contexts ct).holders - 1)
    (hfreed : c.freed = (w.contexts ct).put.freed)
    (hthreads : w'.threads = w.threads) (hstarted : w'.started = w.started)
    (hallocated : w'.allocated = w.allocated)
    (hcontext : ∀ k, w'.context = some k → w.context = some k)
    (hrefs : w.refs ct = 1) (hrefs' : w'.refs ct = 0)
    (hother : ∀ k, k ≠ ct → w'.refs k = w.refs k) : Accounts w' live := by
  have hput : c.freed = if live ct = none then 1 else 0 := by
    have hh := ha.holders ct hlt
    have hf := ha.freed ct hlt
    rw [hrefs] at hh hf
    rw [hfreed, Context.put]
    dsimp only
    rw [hh, hf]
    cases live ct <;> simp
  constructor
  · rw [hthreads, hstarted]
    exact ha.lives
  · rw [hthreads, hstarted, hallocated]
    exact ha.owner
  · intro k hk
    rw [hallocated]
    exact ha.context k (hcontext k hk)
  · intro k hk
    have hh := ha.holders k (hallocated ▸ hk)
    rw [hcontexts, set_contexts]
    split
    · rename_i heq
      subst heq
      rw [hholders, hh, hrefs, hrefs']
      push_cast
      ring
    · rename_i hne
      rw [hother k hne, hh]
  · intro k hk
    have hf := ha.freed k (hallocated ▸ hk)
    rw [hcontexts, set_contexts]
    split
    · rename_i heq
      subst heq
      rw [hput, hrefs']
      simp only [true_and]
    · rename_i hne
      rw [hother k hne, hf]

/-- `libcheck_init` makes a context that no thread knows. -/
theorem Accounts.init (ha : Accounts w live)
    (hcontexts : w'.contexts = (w.set w.allocated {}).contexts) (hthreads : w'.threads = w.threads)
    (hstarted : w'.started = w.started) (hallocated : w'.allocated = w.allocated + 1)
    (hcontext : ∀ k, w'.context = some k → k < w.allocated + 1)
    (hrefs : w'.refs w.allocated = 1) (hother : ∀ k < w.allocated, w'.refs k = w.refs k) :
    Accounts w' live := by
  have hlive : live w.allocated = none := by
    cases h : live w.allocated with
    | none => rfl
    | some t => exact absurd (ha.owner _ t h).2.2.2 (lt_irrefl _)
  constructor
  · rw [hthreads, hstarted]
    exact ha.lives
  · intro k t h
    obtain ⟨ht, hk, hne, hlt⟩ := ha.owner k t h
    rw [hthreads, hstarted, hallocated]
    exact ⟨ht, hk, hne, Nat.lt_succ_of_lt hlt⟩
  · rw [hallocated]
    exact hcontext
  · intro k hk
    rw [hcontexts, set_contexts]
    split
    · rename_i heq
      rw [heq, hrefs, hlive]
      rfl
    · have hlt : k < w.allocated := by omega
      rw [hother k hlt, ha.holders k hlt]
  · intro k hk
    rw [hcontexts, set_contexts]
    split
    · rename_i heq
      rw [heq, hrefs, if_neg (fun h => Nat.one_ne_zero h.1)]
    · have hlt : k < w.allocated := by omega
      rw [hother k hlt, ha.freed k hlt]

theorem quiet_of_set {ct : ℕ} {c : Context} (hcontexts : w'.contexts = (w.set ct c).contexts)
    (hthread : c.thread = none) (hrunning : c.running = false) : Quiet w' ct := by
  rw [Quiet, hcontexts, set_contexts, if_pos rfl]
  exact ⟨hthread, hrunning⟩

section Free
variable {ct : ℕ}

theorem Inv.freeXchg (hi : Inv w live) (hpc : w.pc = .freeXchg ct) :
    Inv ((w.set ct { w.contexts ct with running := false }).goto
      (if (w.contexts ct).running then .freeCancel ct else .freeSub ct)) live := by
  have hphase := hi.phase
  unfold Phase at hphase
  rw [hpc] at hphase
  obtain ⟨hcontext, hready⟩ := hphase
  constructor
  · refine hi.accounts.set rfl rfl rfl (fun _ => ⟨rfl, rfl⟩) rfl rfl rfl ?_
    intro k
    rw [hpc]
    show CheckerPc.refs k (if _ then _ else _) = _
    split <;> rfl
  · cases hrunning : (w.contexts ct).running with
    | true =>
      obtain hquiet | hasked := hready
      · rw [hquiet.2] at hrunning
        cases hrunning
      · exact ⟨hcontext, (hasked.xchg hrunning).of_eq rfl rfl rfl rfl⟩
    | false => exact hcontext
  · exact hi.reports
  · exact hi.cancels

theorem Inv.freeCancel (hi : Inv w live) (hpc : w.pc = .freeCancel ct) :
    Inv ((w.pthreadCancel ct).goto (.freeSub ct)) live := by
  have hphase := hi.phase
  unfold Phase at hphase
  rw [hpc] at hphase
  obtain ⟨hcontext, hasked⟩ := hphase
  obtain ⟨t, -, hcancel, hat⟩ := hasked.atCancel
  rw [hcancel]
  constructor
  · refine hi.accounts.same rfl (fun u => update_cancelled u) rfl rfl rfl ?_
    intro k
    rw [hpc]
    rfl
  · exact hcontext
  · exact hi.reports
  · exact forall_mem_concat hi.cancels hat

theorem Inv.freeSub (hi : Inv w live) (hpc : w.pc = .freeSub ct) :
    Inv { w.set ct { (w.contexts ct).put with thread := none } with
      pc := .idle, context := none, asked := none } live := by
  have hcontext := hi.phase
  unfold Phase at hcontext
  rw [hpc] at hcontext
  have hzero : ∀ k, w.pc.refs k = 0 := by
    intro k
    rw [hpc]
    rfl
  have hrefs := pc_refs_of hzero hcontext
  constructor
  · refine hi.accounts.put (hi.accounts.context ct hcontext) rfl rfl rfl rfl rfl rfl nofun ?_ rfl ?_
    · rw [hrefs, if_pos rfl]
    · intro k hk
      rw [hrefs, if_neg hk]
      rfl
  · exact nofun
  · exact hi.reports
  · exact hi.cancels

end Free

section Check
variable {ct : ℕ} {turStatus : PathState} {writer : Option ℕ}

/-- The check of the thread is answered: what is left is a context without a check under way. -/
theorem Inv.answer (hi : Inv w live) {m : Msgid} {origin : Origin} (hcontext : w.context = some ct)
    (hpc : ∀ k, w.pc.refs k = 0) (hrunning : (w.contexts ct).running = false)
    (hsound : Report.Sound ⟨turStatus, m, origin, w.asked⟩) :
    Inv ({ w with msgid := m }.answer ct turStatus origin) live := by
  constructor
  · refine hi.accounts.set rfl rfl rfl (fun _ => ⟨rfl, rfl⟩) rfl rfl rfl ?_
    intro k
    rw [hpc]
    rfl
  · intro k hk
    obtain rfl : ct = k := Option.some.inj (hcontext.symm.trans hk)
    exact .inl (quiet_of_set rfl rfl hrunning)
  · exact forall_mem_concat hi.reports hsound
  · exact hi.cancels

/-- The thread is cancelled, and the check is answered without it. -/
theorem Inv.cancelAnswer (hi : Inv w live) {m : Msgid} {origin : Origin}
    (hcontext : w.context = some ct) (hasked : Asked Cancellable w live ct)
    (hpc : ∀ k, w.pc.refs k = 0) (hsound : Report.Sound ⟨turStatus, m, origin, w.asked⟩) :
    Inv ({ w.pthreadCancel ct with msgid := m }.answer ct turStatus origin) live := by
  obtain ⟨t, -, hcancel, hat⟩ := hasked.atCancel
  obtain ⟨u, hthread, hserves⟩ := hasked
  rw [hcancel]
  constructor
  · refine hi.accounts.set rfl rfl rfl (fun u => update_cancelled u) rfl rfl rfl ?_
    intro k
    rw [hpc]
    rfl
  · intro k hk
    obtain rfl : ct = k := Option.some.inj (hcontext.symm.trans hk)
    exact .inl (quiet_of_set rfl rfl hserves.holds.1)
  · exact forall_mem_concat hi.reports hsound
  · exact forall_mem_concat hi.cancels hat

/-- The state of the context is reported after its thread has finished. -/
theorem Inv.answerFinished (hi : Inv w live) (hcontext : w.context = some ct)
    (hpc : ∀ k, w.pc.refs k = 0) {t : ℕ} (hserves : Serves Finished w live ct t) :
    Inv ({ w with msgid := (w.contexts ct).msgid }.answer ct (w.contexts ct).state
      (.context (w.contexts ct).writer)) live := by
  obtain ⟨hrunning, -, hwriter⟩ := hserves.holds
  apply hi.answer hcontext hpc hrunning
  exact .inr (.inr (.inr (.inr ⟨t, hserves.asked, congrArg Origin.context hwriter⟩)))

/-- A return that leaves the check open. -/
theorem Inv.report (hi : Inv w live) {m : Msgid} {origin : Origin} (hcontext : w.context = some ct)
    (hready : Quiet w ct ∨ Asked Answers w live ct) (hpc : ∀ k, w.pc.refs k = 0)
    (hsound : Report.Sound ⟨turStatus, m, origin, w.asked⟩) :
    Inv ({ w with msgid := m }.report turStatus origin) live := by
  constructor
  · refine hi.accounts.same rfl (fun _ => ⟨rfl, rfl⟩) rfl rfl rfl ?_
    intro k
    rw [hpc]
    rfl
  · intro k hk
    obtain rfl : ct = k := Option.some.inj (hcontext.symm.trans hk)
    obtain hquiet | hasked := hready
    · exact .inl hquiet
    · exact .inr (hasked.of_eq rfl rfl rfl rfl)
  · exact forall_mem_concat hi.reports hsound
  · exact hi.cancels

theorem Inv.lateXchg (hi : Inv w live) (hpc : w.pc = .lateXchg ct) :
    Inv ((w.set ct { w.contexts ct with running := false }).goto
      (if (w.contexts ct).running then .lateCancel ct else .lateRead ct)) live := by
  have hphase := hi.phase
  unfold Phase at hphase
  rw [hpc] at hphase
  obtain ⟨hcontext, hasked⟩ := hphase
  constructor
  · refine hi.accounts.set rfl rfl rfl (fun _ => ⟨rfl, rfl⟩) rfl rfl rfl ?_
    intro k
    rw [hpc]
    show CheckerPc.refs k (if _ then _ else _) = _
    split <;> rfl
  · cases hrunning : (w.contexts ct).running with
    | true => exact ⟨hcontext, (hasked.xchg hrunning).of_eq rfl rfl rfl rfl⟩
    | false =>
      obtain ⟨t, hserves⟩ := hasked.finished hrunning
      rw [set_running_false hrunning]
      exact ⟨hcontext, t, hserves.of_eq rfl rfl rfl rfl⟩
  · exact hi.reports
  · exact hi.cancels

theorem Inv.readRunning (hi : Inv w live) (hpc : w.pc = .readRunning ct) :
    Inv (if (w.contexts ct).running then w.report .pending .constant
      else (w.set ct { w.contexts ct with thread := none }).goto (.doneRead ct)) live := by
  have hphase := hi.phase
  unfold Phase at hphase
  rw [hpc] at hphase
  obtain ⟨hcontext, hasked⟩ := hphase
  have hzero : ∀ k, w.pc.refs k = 0 := by
    intro k
    rw [hpc]
    rfl
  split
  · exact hi.report hcontext (.inr hasked) hzero (.inl rfl)
  · rename_i hrunning
    obtain ⟨t, hlt, hct, honly, hask, hfin, hpcs, hwriter⟩ :=
      hasked.finished (Bool.eq_false_of_not_eq_true hrunning)
    constructor
    · refine hi.accounts.set rfl rfl rfl (fun _ => ⟨rfl, rfl⟩) rfl rfl rfl ?_
      intro k
      rw [hzero]
      rfl
    · refine ⟨hcontext, t, hlt, hct, honly, hask, ?_, hpcs, ?_⟩
      · show ((w.set ct _).contexts ct).running = false
        rw [set_contexts, if_pos rfl]
        exact hfin
      · show ((w.set ct _).contexts ct).writer = some t
        rw [set_contexts, if_pos rfl]
        exact hwriter
    · exact hi.reports
    · exact hi.cancels

theorem Inv.lastXchg (hi : Inv w live) (hpc : w.pc = .lastXchg ct turStatus writer) :
    Inv (if (w.contexts ct).running then
        (w.set ct { w.contexts ct with running := false }).goto (.lastCancel ct turStatus writer)
      else (w.set ct { w.contexts ct with running := false }).answer ct turStatus
        (.context writer)) live := by
  have hphase := hi.phase
  unfold Phase at hphase
  rw [hpc] at hphase
  obtain ⟨hcontext, hasked, hwriter⟩ := hphase
  have hzero : ∀ k, w.pc.refs k = 0 := by
    intro k
    rw [hpc]
    rfl
  split
  · rename_i hrunning
    constructor
    · refine hi.accounts.set rfl rfl rfl (fun _ => ⟨rfl, rfl⟩) rfl rfl rfl ?_
      intro k
      rw [hpc]
      rfl
    · exact ⟨hcontext, (hasked.xchg hrunning).of_eq rfl rfl rfl rfl, hwriter⟩
    · exact hi.reports
    · exact hi.cancels
  · rename_i hrunning
    have hno := Bool.eq_false_of_not_eq_true hrunning
    obtain ⟨t, hserves⟩ := hasked.finished hno
    rw [set_running_false hno]
    apply hi.answer hcontext hzero hno
    refine .inr (.inr (.inr (.inr ⟨t, hserves.asked, ?_⟩)))
    rw [hwriter, hserves.asked]

end Check

end CheckerEvent

end MultipathTools.Tur
