import MultipathTools.Checkers.TurRelease

/-! The steps of the TUR checker that start a thread and wait for it. -/
namespace MultipathTools.Tur

section Start
variable {w w' : World} {live : ℕ → Option ℕ} {ct old : ℕ}

theorem Inv.readHolders (hi : Inv w live) (ok : Bool) (hpc : w.pc = .readHolders ct) :
    Inv (if 1 < (w.contexts ct).holders then
        if ok then w.libcheckInit.goto (.subOld ct w.allocated) else w.report .unchecked .constant
      else w.goto (.lockPending ct)) live := by
  have hphase := hi.phase
  unfold Phase at hphase
  rw [hpc] at hphase
  obtain ⟨hcontext, hquiet⟩ := hphase
  have hlt := hi.accounts.context ct hcontext
  have hzero : ∀ k, w.pc.refs k = 0 := by
    intro k
    rw [hpc]
    rfl
  have hrefs := pc_refs_of hzero hcontext
  split_ifs with hholders hok
  · constructor
    · refine hi.accounts.init rfl rfl rfl rfl ?_ ?_ ?_
      · intro k hk
        obtain rfl := Option.some.inj hk
        exact Nat.lt_succ_self _
      · show (if some w.allocated = some w.allocated then 1 else 0) +
          (if w.allocated = ct then 1 else 0) = 1
        rw [if_pos rfl, if_neg (Nat.ne_of_gt hlt)]
      · intro k hk
        show (if some w.allocated = some k then 1 else 0) + (if k = ct then 1 else 0) = w.refs k
        rw [if_neg (by simp only [Option.some.injEq]; omega), Nat.zero_add, hrefs]
    · have hnew : live w.allocated = none := by
        cases h : live w.allocated with
        | none => rfl
        | some t => exact absurd (hi.accounts.owner _ t h).2.2.2 (lt_irrefl _)
      exact ⟨rfl, Nat.ne_of_lt hlt, Nat.lt_succ_of_lt hlt, quiet_of_set rfl rfl rfl, hnew⟩
    · exact hi.reports
    · exact hi.cancels
  · exact hi.report hcontext (.inl hquiet) hzero (.inr (.inr (.inr (.inl ⟨rfl, rfl⟩))))
  · have hlive : live ct = none := by
      have hh := hi.accounts.holders ct hlt
      rw [hrefs, if_pos rfl] at hh
      by_contra hne
      rw [if_neg hne] at hh
      push_cast at hh
      omega
    constructor
    · refine hi.accounts.same rfl (fun _ => ⟨rfl, rfl⟩) rfl rfl rfl ?_
      intro k
      rw [hzero]
      rfl
    · exact ⟨hcontext, hquiet, hlive⟩
    · exact hi.reports
    · exact hi.cancels

theorem Inv.subOld (hi : Inv w live) (hpc : w.pc = .subOld old ct) :
    Inv ((w.set old (w.contexts old).put).goto (.lockPending ct)) live := by
  have hphase := hi.phase
  unfold Phase at hphase
  rw [hpc] at hphase
  obtain ⟨hcontext, hne, hlt, hquiet, hlive⟩ := hphase
  have hrefs : ∀ k, w.refs k = (if some ct = some k then 1 else 0) + if k = old then 1 else 0 := by
    intro k
    rw [World.refs, hcontext, hpc]
    rfl
  have hold : some ct ≠ some old := fun h => hne (Option.some.inj h).symm
  constructor
  · refine hi.accounts.put hlt rfl rfl rfl rfl rfl rfl (fun _ hk => hk) ?_ ?_ ?_
    · rw [hrefs, if_neg hold, if_pos rfl]
    · show (if w.context = some old then 1 else 0) + 0 = 0
      rw [hcontext, if_neg hold]
    · intro k hk
      show (if w.context = some k then 1 else 0) + 0 = w.refs k
      rw [hrefs, hcontext, if_neg hk]
  · refine ⟨hcontext, ?_, hlive⟩
    rw [Quiet]
    show ((w.set old _).contexts ct).thread = none ∧ ((w.set old _).contexts ct).running = false
    rw [set_contexts, if_neg (Ne.symm hne)]
    exact hquiet
  · exact hi.reports
  · exact hi.cancels

theorem Inv.lockPending (hi : Inv w live) (hpc : w.pc = .lockPending ct) :
    Inv ((w.set ct { w.contexts ct with state := .pending, msgid := .none, writer := none }).goto
      (.addHolders ct)) live := by
  have hphase := hi.phase
  unfold Phase at hphase
  rw [hpc] at hphase
  obtain ⟨hcontext, ⟨hthread, hrunning⟩, hlive⟩ := hphase
  have hself := set_contexts w ct
    { w.contexts ct with state := .pending, msgid := .none, writer := none } ct
  rw [if_pos rfl] at hself
  constructor
  · refine hi.accounts.set rfl rfl rfl (fun _ => ⟨rfl, rfl⟩) rfl rfl rfl ?_
    intro k
    rw [hpc]
    rfl
  · exact ⟨hcontext, ⟨quiet_of_set rfl hthread hrunning, hlive⟩, congrArg Context.state hself⟩
  · exact hi.reports
  · exact hi.cancels

/-- The reference of the thread to be is counted before the thread exists. -/
theorem Inv.addHolders (hi : Inv w live) (hpc : w.pc = .addHolders ct) :
    Inv ((w.set ct { w.contexts ct with holders := (w.contexts ct).holders + 1 }).goto
      (.setRunning ct)) live := by
  have hphase := hi.phase
  unfold Phase at hphase
  rw [hpc] at hphase
  obtain ⟨hcontext, ⟨⟨hthread, hrunning⟩, hlive⟩, hstate⟩ := hphase
  have hrefs : ∀ k, w.refs k = if k = ct then 1 else 0 := by
    apply pc_refs_of _ hcontext
    intro k
    rw [hpc]
    rfl
  have hrefs' : ∀ k, World.refs ((w.set ct { w.contexts ct with
      holders := (w.contexts ct).holders + 1 }).goto (.setRunning ct)) k =
      if k = ct then 2 else 0 := by
    intro k
    show (if w.context = some k then 1 else 0) + (if k = ct then 1 else 0) = _
    rw [hcontext]
    simp only [Option.some.injEq, eq_comm (a := ct)]
    split <;> rfl
  constructor
  · refine hi.accounts.of_eq (fun _ => ⟨rfl, rfl⟩) rfl rfl (fun _ hk => hk) ?_ ?_ ?_
    · intro k
      rw [hrefs, hrefs']
      split <;> simp
    · intro k
      rw [hrefs, hrefs']
      show ((w.set ct _).contexts k).holders - _ = _
      rw [set_contexts]
      split
      · rename_i hk
        rw [hk]
        push_cast
        ring
      · rfl
    · intro k
      show ((w.set ct _).contexts k).freed = _
      rw [set_contexts]
      split
      · rename_i hk
        rw [hk]
      · rfl
  · refine ⟨hcontext, ⟨quiet_of_set rfl hthread hrunning, hlive⟩, ?_⟩
    show ((w.set ct _).contexts ct).state = .pending
    rw [set_contexts, if_pos rfl]
    exact hstate
  · exact hi.reports
  · exact hi.cancels

theorem Inv.setRunning (hi : Inv w live) (hpc : w.pc = .setRunning ct) :
    Inv ((w.set ct { w.contexts ct with running := true }).goto (.create ct)) live := by
  have hphase := hi.phase
  unfold Phase at hphase
  rw [hpc] at hphase
  obtain ⟨hcontext, ⟨-, hlive⟩, hstate⟩ := hphase
  constructor
  · refine hi.accounts.set rfl rfl rfl (fun _ => ⟨rfl, rfl⟩) rfl rfl rfl ?_
    intro k
    rw [hpc]
    rfl
  · refine ⟨hcontext, hlive, ?_, ?_⟩
    · show ((w.set ct _).contexts ct).running = true
      rw [set_contexts, if_pos rfl]
    · show ((w.set ct _).contexts ct).state = .pending
      rw [set_contexts, if_pos rfl]
      exact hstate
  · exact hi.reports
  · exact hi.cancels

/-- The new thread is the one holder of the context besides the checker. -/
theorem Inv.create (hi : Inv w live) (hpc : w.pc = .create ct) :
    Inv ((w.pthreadCreate ct).goto (.lockState ct)) (Function.update live ct (some w.started)) := by
  have hphase := hi.phase
  unfold Phase at hphase
  rw [hpc] at hphase
  obtain ⟨hcontext, hlive, hrunning, hstate⟩ := hphase
  have hlt := hi.accounts.context ct hcontext
  have hrefs : ∀ k, w.refs k = if k = ct then 2 else 0 := by
    intro k
    rw [World.refs, hcontext, hpc]
    show (if some ct = some k then 1 else 0) + (if k = ct then 1 else 0) = _
    simp only [Option.some.injEq, eq_comm (a := ct)]
    split <;> rfl
  have hrefs' : ∀ k, World.refs ((w.pthreadCreate ct).goto (.lockState ct)) k =
      if k = ct then 1 else 0 := by
    intro k
    show (if w.context = some k then 1 else 0) + 0 = _
    rw [hcontext]
    simp only [Option.some.injEq, eq_comm (a := ct), Nat.add_zero]
  have hcontexts : ((w.pthreadCreate ct).goto (.lockState ct)).contexts =
      (w.set ct { w.contexts ct with thread := some w.started }).contexts := rfl
  have hthreads : ((w.pthreadCreate ct).goto (.lockState ct)).threads =
      Function.update w.threads w.started { ctx := ct } := rfl
  have hown := hi.accounts.owner
  constructor
  · constructor
    · intro t ht hne
      rw [hthreads] at hne ⊢
      by_cases heq : t = w.started
      · rw [heq, Function.update_self, Function.update_self]
      · have hold : t < w.started := by
          have ht' : t < w.started + 1 := ht
          omega
        rw [Function.update_of_ne heq] at hne ⊢
        have h := hi.accounts.lives t hold hne
        rw [Function.update_of_ne]
        · exact h
        · intro hct
          rw [hct, hlive] at h
          cases h
    · intro k t h
      show t < w.started + 1 ∧ _
      rw [hthreads]
      by_cases hk : k = ct
      · subst hk
        rw [Function.update_self] at h
        obtain rfl := Option.some.inj h
        rw [Function.update_self]
        exact ⟨Nat.lt_succ_self _, rfl, ThreadPc.noConfusion, hlt⟩
      · rw [Function.update_of_ne hk] at h
        obtain ⟨ht, hctx, hne, hall⟩ := hown k t h
        rw [Function.update_of_ne (Nat.ne_of_lt ht)]
        exact ⟨Nat.lt_succ_of_lt ht, hctx, hne, hall⟩
    · exact hi.accounts.context
    · intro k hk
      have h := hi.accounts.holders k hk
      rw [hrefs] at h
      rw [hrefs', hcontexts, set_contexts]
      by_cases hkct : k = ct
      · subst hkct
        rw [if_pos rfl, hlive] at h
        rw [if_pos rfl, if_pos rfl, Function.update_self, h]
        rfl
      · rw [if_neg hkct] at h
        rw [if_neg hkct, if_neg hkct, Function.update_of_ne hkct, h]
    · intro k hk
      have h := hi.accounts.freed k hk
      rw [hrefs] at h
      rw [hrefs', hcontexts, set_contexts]
      by_cases hkct : k = ct
      · subst hkct
        rw [if_pos rfl, if_neg (fun h => by cases h.1)] at h
        rw [if_pos rfl, if_pos rfl, if_neg (fun h => by cases h.1), h]
      · rw [if_neg hkct] at h
        rw [if_neg hkct, if_neg hkct, Function.update_of_ne hkct, h]
  · have hself : ((w.pthreadCreate ct).goto (.lockState ct)).contexts ct =
        { w.contexts ct with thread := some w.started } := by
      rw [hcontexts, set_contexts, if_pos rfl]
    refine ⟨hcontext, w.started, congrArg Context.thread hself, Nat.lt_succ_self _, ?_, ?_, rfl, ?_⟩
    · rw [hthreads, Function.update_self]
    · intro u hu
      rw [Function.update_self] at hu
      exact (Option.some.inj hu).symm
    · rw [hthreads, Function.update_self, hself]
      exact .inr ⟨hrunning, rfl, .inl ⟨rfl, hstate⟩⟩
  · exact hi.reports
  · exact hi.cancels

theorem Inv.createFails (hi : Inv w live) (hpc : w.pc = .create ct) :
    Inv (w.goto (.failSub ct)) live := by
  have hphase := hi.phase
  unfold Phase at hphase
  rw [hpc] at hphase
  obtain ⟨hcontext, hlive, -, -⟩ := hphase
  constructor
  · refine hi.accounts.same rfl (fun _ => ⟨rfl, rfl⟩) rfl rfl rfl ?_
    intro k
    rw [hpc]
    rfl
  · exact ⟨hcontext, hlive⟩
  · exact hi.reports
  · exact hi.cancels

theorem Inv.failSub (hi : Inv w live) (hpc : w.pc = .failSub ct) :
    Inv ((w.set ct { w.contexts ct with holders := (w.contexts ct).holders - 1 }).goto
      (.failSet ct)) live := by
  have hphase := hi.phase
  unfold Phase at hphase
  rw [hpc] at hphase
  obtain ⟨hcontext, hlive⟩ := hphase
  have hrefs : ∀ k, w.refs k = if k = ct then 2 else 0 := by
    intro k
    rw [World.refs, hcontext, hpc]
    show (if some ct = some k then 1 else 0) + (if k = ct then 1 else 0) = _
    simp only [Option.some.injEq, eq_comm (a := ct)]
    split <;> rfl
  have hrefs' : ∀ k, World.refs ((w.set ct { w.contexts ct with
      holders := (w.contexts ct).holders - 1 }).goto (.failSet ct)) k =
      if k = ct then 1 else 0 := by
    intro k
    show (if w.context = some k then 1 else 0) + 0 = _
    rw [hcontext]
    simp only [Option.some.injEq, eq_comm (a := ct), Nat.add_zero]
  constructor
  · refine hi.accounts.of_eq (fun _ => ⟨rfl, rfl⟩) rfl rfl (fun _ hk => hk) ?_ ?_ ?_
    · intro k
      rw [hrefs, hrefs']
      split <;> simp
    · intro k
      rw [hrefs, hrefs']
      show ((w.set ct _).contexts k).holders - _ = _
      rw [set_contexts]
      split
      · rename_i hk
        rw [hk]
        push_cast
        ring
      · rfl
    · intro k
      show ((w.set ct _).contexts k).freed = _
      rw [set_contexts]
      split
      · rename_i hk
        rw [hk]
      · rfl
  · exact ⟨hcontext, hlive⟩
  · exact hi.reports
  · exact hi.cancels

theorem Inv.failSet (hi : Inv w live) {direct : TurResult} (hpc : w.pc = .failSet ct) :
    Inv ({ w.set ct { w.contexts ct with running := false, thread := none } with
      msgid := direct.msgid }.report direct.state .direct) live := by
  have hphase := hi.phase
  unfold Phase at hphase
  rw [hpc] at hphase
  obtain ⟨hcontext, -⟩ := hphase
  constructor
  · refine hi.accounts.set rfl rfl rfl (fun _ => ⟨rfl, rfl⟩) rfl rfl rfl ?_
    intro k
    rw [hpc]
    rfl
  · intro k hk
    obtain rfl : ct = k := Option.some.inj (hcontext.symm.trans hk)
    exact .inl (quiet_of_set rfl rfl rfl)
  · exact forall_mem_concat hi.reports (.inr (.inr (.inl rfl)))
  · exact hi.cancels

/-- The state that was read is not `PATH_PENDING`. -/
theorem Inv.gotoLast (hi : Inv w live) (hcontext : w.context = some ct)
    (hasked : Asked Answers w live ct) (hpc : ∀ k, w.pc.refs k = 0)
    (hstate : (w.contexts ct).state ≠ .pending) :
    Inv ({ w with msgid := (w.contexts ct).msgid }.goto
      (.lastXchg ct (w.contexts ct).state (w.contexts ct).writer)) live := by
  constructor
  · refine hi.accounts.same rfl (fun _ => ⟨rfl, rfl⟩) rfl rfl rfl ?_
    intro k
    rw [hpc]
    rfl
  · exact ⟨hcontext, hasked.of_eq rfl rfl rfl rfl, hasked.writer hstate⟩
  · exact hi.reports
  · exact hi.cancels

theorem Inv.lockState (hi : Inv w live) (hpc : w.pc = .lockState ct) :
    Inv (if (w.contexts ct).state = .pending then w.goto (.waiting ct)
      else { w with msgid := (w.contexts ct).msgid }.goto
        (.lastXchg ct (w.contexts ct).state (w.contexts ct).writer)) live := by
  have hphase := hi.phase
  unfold Phase at hphase
  rw [hpc] at hphase
  obtain ⟨hcontext, hasked⟩ := hphase
  have hzero : ∀ k, w.pc.refs k = 0 := by
    intro k
    rw [hpc]
    rfl
  split
  · constructor
    · refine hi.accounts.same rfl (fun _ => ⟨rfl, rfl⟩) rfl rfl rfl ?_
      intro k
      rw [hzero]
      rfl
    · exact ⟨hcontext, hasked.of_eq rfl rfl rfl rfl⟩
    · exact hi.reports
    · exact hi.cancels
  · rename_i hstate
    exact hi.gotoLast hcontext hasked hzero hstate

theorem Inv.waiting (hi : Inv w live) (ok : Bool) (hpc : w.pc = .waiting ct) :
    Inv (if !ok then w.report .pending .constant
      else if (w.contexts ct).state = .pending then
        { w with msgid := (w.contexts ct).msgid }.report .pending
          (.context (w.contexts ct).writer)
      else { w with msgid := (w.contexts ct).msgid }.goto
        (.lastXchg ct (w.contexts ct).state (w.contexts ct).writer)) live := by
  have hphase := hi.phase
  unfold Phase at hphase
  rw [hpc] at hphase
  obtain ⟨hcontext, hasked⟩ := hphase
  have hzero : ∀ k, w.pc.refs k = 0 := by
    intro k
    rw [hpc]
    rfl
  split_ifs with hok hstate
  · exact hi.report hcontext (.inr hasked) hzero (.inl rfl)
  · exact hi.report hcontext (.inr hasked) hzero (.inl rfl)
  · exact hi.gotoLast hcontext hasked hzero hstate

end Start

end MultipathTools.Tur
