import Mathlib.Tactic.Common
import MultipathTools.Checkers.Tur

/-! The invariant of the protocol between the TUR checker and its threads, and the steps of the
threads. -/
namespace MultipathTools.Tur

section Thread
variable {t : ℕ} {th th' : Thread} {c c' : Context} {e : ThreadEvent}

/-- The thread has written its state and has done the exchange before the checker. -/
def Finished (t : ℕ) (c : Context) (th : Thread) : Prop :=
  c.running = false ∧ (th.pc = .cleanup ∨ th.pc = .ended) ∧ c.writer = some t

/-- The thread is under way for the check, or has finished it. -/
def Answers (t : ℕ) (c : Context) (th : Thread) : Prop :=
  Finished t c th ∨ c.running = true ∧ th.cancelled = false ∧
    (th.pc = .checking ∧ c.state = .pending ∨ th.pc = .exchanging ∧ c.writer = some t)

/-- The checker has done the exchange before the thread, which will wait for `pthread_cancel`. -/
def Cancellable (_ : ℕ) (c : Context) (th : Thread) : Prop :=
  c.running = false ∧ th.cancelled = false ∧
    (th.pc = .checking ∨ th.pc = .exchanging ∨ th.pc = .paused)

/-- What a thread can do. -/
theorem threadStep_cases (h : threadStep t th c e = some (th', c')) :
    (∃ result : TurResult, e = .write result ∧ th.pc = .checking ∧
        th' = { th with pc := .exchanging } ∧
        c' = { c with state := result.state, msgid := result.msgid, writer := some t }) ∨
      (e = .xchg ∧ th.pc = .exchanging ∧
        th' = { th with pc := if c.running then .cleanup else .paused } ∧
        c' = { c with running := false }) ∨
      (e = .actOnCancel ∧ th.cancelled = true ∧
        (th.pc = .checking ∨ th.pc = .exchanging ∨ th.pc = .paused) ∧
        th' = { th with pc := .cleanup } ∧ c' = c) ∨
      (e = .cleanup ∧ th.pc = .cleanup ∧ th' = { th with pc := .ended } ∧ c' = c.put) := by
  cases e with
  | write result =>
    simp only [threadStep, Option.ite_none_right_eq_some, Option.some.injEq, Prod.mk.injEq] at h
    obtain ⟨hpc, rfl, rfl⟩ := h
    exact .inl ⟨result, rfl, hpc, rfl, rfl⟩
  | xchg =>
    simp only [threadStep, Option.ite_none_right_eq_some, Option.some.injEq, Prod.mk.injEq] at h
    obtain ⟨hpc, rfl, rfl⟩ := h
    exact .inr (.inl ⟨rfl, hpc, rfl, rfl⟩)
  | actOnCancel =>
    simp only [threadStep, Option.ite_none_right_eq_some, Option.some.injEq, Prod.mk.injEq] at h
    obtain ⟨⟨hcancel, hpc⟩, rfl, rfl⟩ := h
    exact .inr (.inr (.inl ⟨rfl, hcancel, hpc, rfl, rfl⟩))
  | cleanup =>
    simp only [threadStep, Option.ite_none_right_eq_some, Option.some.injEq, Prod.mk.injEq] at h
    obtain ⟨hpc, rfl, rfl⟩ := h
    exact .inr (.inr (.inr ⟨rfl, hpc, rfl, rfl⟩))

theorem Finished.threadStep (h : threadStep t th c e = some (th', c')) (hf : Finished t c th) :
    Finished t c' th' := by
  obtain ⟨hrunning, hpc, hwriter⟩ := hf
  obtain ⟨_, -, hat, rfl, rfl⟩ | ⟨-, hat, rfl, rfl⟩ | ⟨-, -, hat, rfl, rfl⟩ | ⟨-, -, rfl, rfl⟩ :=
    threadStep_cases h
  · grind
  · grind
  · grind
  · exact ⟨hrunning, .inr rfl, hwriter⟩

theorem Answers.threadStep (h : threadStep t th c e = some (th', c')) (ha : Answers t c th) :
    Answers t c' th' := by
  obtain hf | ⟨hrunning, hcancel, hpc⟩ := ha
  · exact .inl (hf.threadStep h)
  · obtain ⟨_, -, hat, rfl, rfl⟩ | ⟨-, hat, rfl, rfl⟩ | ⟨-, hno, -⟩ | ⟨-, hat, -⟩ :=
      threadStep_cases h
    · exact .inr ⟨hrunning, hcancel, .inr ⟨rfl, rfl⟩⟩
    · refine .inl ⟨rfl, .inl (if_pos hrunning), ?_⟩
      grind
    · grind
    · grind

theorem Cancellable.threadStep (h : threadStep t th c e = some (th', c'))
    (hc : Cancellable t c th) : Cancellable t c' th' := by
  obtain ⟨hrunning, hcancel, hpc⟩ := hc
  obtain ⟨_, -, hat, rfl, rfl⟩ | ⟨-, hat, rfl, rfl⟩ | ⟨-, hno, -⟩ | ⟨-, hat, -⟩ :=
    threadStep_cases h
  · exact ⟨hrunning, hcancel, .inr (.inl rfl)⟩
  · refine ⟨rfl, hcancel, .inr (.inr (if_neg ?_))⟩
    rw [hrunning]
    exact Bool.false_ne_true
  · grind
  · grind

/-- What a step of a thread leaves as it is. -/
theorem threadStep_keeps (h : threadStep t th c e = some (th', c')) :
    c'.thread = c.thread ∧ (c.running = false → c'.running = false) ∧ th'.ctx = th.ctx ∧
      th.pc ≠ .ended := by
  obtain ⟨_, -, hat, rfl, rfl⟩ | ⟨-, hat, rfl, rfl⟩ | ⟨-, -, hat, rfl, rfl⟩ | ⟨-, hat, rfl, rfl⟩ :=
    threadStep_cases h <;> grind [Context.put]

/-- Only `cleanup_func` ends the thread, and it gives up the context. -/
theorem threadStep_ends (h : threadStep t th c e = some (th', c')) :
    e = .cleanup ∧ th'.pc = .ended ∧ c' = c.put ∨
      e ≠ .cleanup ∧ th'.pc ≠ .ended ∧ c'.holders = c.holders ∧ c'.freed = c.freed := by
  obtain ⟨_, rfl, hat, rfl, rfl⟩ | ⟨rfl, hat, rfl, rfl⟩ | ⟨rfl, -, hat, rfl, rfl⟩ |
    ⟨rfl, hat, rfl, rfl⟩ := threadStep_cases h
  · exact .inr ⟨nofun, nofun, rfl, rfl⟩
  · refine .inr ⟨nofun, ?_, rfl, rfl⟩
    dsimp only
    split <;> exact nofun
  · exact .inr ⟨nofun, nofun, rfl, rfl⟩
  · exact .inl ⟨rfl, rfl, rfl⟩

end Thread

/-- The references of the call under way, besides the one of `c->context`. -/
def CheckerPc.refs (k : ℕ) : CheckerPc → ℕ
  | .subOld old _ => if k = old then 1 else 0
  | .setRunning ct | .create ct | .failSub ct => if k = ct then 1 else 0
  | _ => 0

/-- The references of the checker to a context, and of a thread that is about to be started. -/
def World.refs (w : World) (k : ℕ) : ℕ := (if w.context = some k then 1 else 0) + w.pc.refs k

/-- The holders of every context, with the one thread that may not have given it up. -/
structure Accounts (w : World) (live : ℕ → Option ℕ) : Prop where
  lives : ∀ t < w.started, (w.threads t).pc ≠ .ended → live (w.threads t).ctx = some t
  owner : ∀ k t, live k = some t →
    t < w.started ∧ (w.threads t).ctx = k ∧ (w.threads t).pc ≠ .ended ∧ k < w.allocated
  context : ∀ k, w.context = some k → k < w.allocated
  holders : ∀ k < w.allocated,
    (w.contexts k).holders = w.refs k + if live k = none then 0 else 1
  freed : ∀ k < w.allocated,
    (w.contexts k).freed = if w.refs k = 0 ∧ live k = none then 1 else 0

/-- Thread `t` was started in `ct` for the check that is not answered yet, and no other thread
holds `ct`. -/
structure Serves (P : ℕ → Context → Thread → Prop) (w : World) (live : ℕ → Option ℕ) (ct t : ℕ) :
    Prop where
  started : t < w.started
  ctx : (w.threads t).ctx = ct
  only : ∀ u, live ct = some u → u = t
  asked : w.asked = some t
  holds : P t (w.contexts ct) (w.threads t)

/-- No check is under way. -/
def Quiet (w : World) (ct : ℕ) : Prop :=
  (w.contexts ct).thread = none ∧ (w.contexts ct).running = false

def Unused (w : World) (live : ℕ → Option ℕ) (ct : ℕ) : Prop := Quiet w ct ∧ live ct = none

def Asked (P : ℕ → Context → Thread → Prop) (w : World) (live : ℕ → Option ℕ) (ct : ℕ) : Prop :=
  ∃ t, (w.contexts ct).thread = some t ∧ Serves P w live ct t

/-- What holds of the checker's context at each place of the checker. -/
def Phase (w : World) (live : ℕ → Option ℕ) : Prop :=
  match w.pc with
  | .idle => ∀ ct, w.context = some ct → Quiet w ct ∨ Asked Answers w live ct
  | .freeXchg ct => w.context = some ct ∧ (Quiet w ct ∨ Asked Answers w live ct)
  | .lateXchg ct | .readRunning ct | .lockState ct | .waiting ct =>
    w.context = some ct ∧ Asked Answers w live ct
  | .lastXchg ct _ writer =>
    w.context = some ct ∧ Asked Answers w live ct ∧ writer = w.asked
  | .freeCancel ct | .lateCancel ct => w.context = some ct ∧ Asked Cancellable w live ct
  | .lastCancel ct _ writer =>
    w.context = some ct ∧ Asked Cancellable w live ct ∧ writer = w.asked
  | .lateRead ct | .doneRead ct => w.context = some ct ∧ ∃ t, Serves Finished w live ct t
  | .freeSub ct => w.context = some ct
  | .readHolders ct => w.context = some ct ∧ Quiet w ct
  | .subOld old ct => w.context = some ct ∧ old ≠ ct ∧ old < w.allocated ∧ Unused w live ct
  | .lockPending ct => w.context = some ct ∧ Unused w live ct
  | .addHolders ct | .setRunning ct =>
    w.context = some ct ∧ Unused w live ct ∧ (w.contexts ct).state = .pending
  | .create ct => w.context = some ct ∧ live ct = none ∧ (w.contexts ct).running = true ∧
    (w.contexts ct).state = .pending
  | .failSub ct | .failSet ct => w.context = some ct ∧ live ct = none

/-- A reported state is none of a thread, or of the thread that was started for the check. -/
def Report.Sound (r : Report) : Prop :=
  r.status = .pending ∨ r.status = .timeout ∨ r.origin = .direct ∨
    r.status = .unchecked ∧ r.origin = .constant ∨
    ∃ t, r.asked = some t ∧ r.origin = .context (some t)

/-- A thread that is cancelled has not done its exchange, or it waits in `pause`. -/
def AtCancel (pc : Option ThreadPc) : Prop :=
  pc = some .checking ∨ pc = some .exchanging ∨ pc = some .paused

structure Inv (w : World) (live : ℕ → Option ℕ) : Prop where
  accounts : Accounts w live
  phase : Phase w live
  reports : ∀ r ∈ w.reports, r.Sound
  cancels : ∀ c ∈ w.cancels, AtCancel c

section ThreadEvent
variable {w w' : World} {live : ℕ → Option ℕ} {u : ℕ} {e : ThreadEvent}

/-- The threads that hold their contexts after the step. -/
def liveAfter (w : World) (live : ℕ → Option ℕ) (u : ℕ) (e : ThreadEvent) : ℕ → Option ℕ :=
  if e = .cleanup then Function.update live (w.threads u).ctx none else live

theorem liveAfter_le {k t : ℕ} (h : liveAfter w live u e k = some t) : live k = some t := by
  unfold liveAfter at h
  split at h
  · rw [Function.update_apply] at h
    split at h
    · cases h
    · exact h
  · exact h

theorem thread_cases (h : step w (.thread u e) = some w') :
    u < w.started ∧ ∃ th' c',
      threadStep u (w.threads u) (w.contexts (w.threads u).ctx) e = some (th', c') ∧
      w' = { w.set (w.threads u).ctx c' with threads := Function.update w.threads u th' } := by
  simp only [step, Option.ite_none_right_eq_some, Option.map_eq_some_iff] at h
  obtain ⟨hu, ⟨th', c'⟩, hstep, rfl⟩ := h
  exact ⟨hu, th', c', hstep, rfl⟩

theorem Quiet.thread (hs : step w (.thread u e) = some w') {ct : ℕ} (h : Quiet w ct) :
    Quiet w' ct := by
  obtain ⟨-, th', c', hstep, rfl⟩ := thread_cases hs
  obtain ⟨hthread, hrunning, -⟩ := threadStep_keeps hstep
  unfold Quiet at *
  by_cases hct : ct = (w.threads u).ctx
  · subst hct
    simpa [World.set, hthread] using ⟨h.1, hrunning h.2⟩
  · simpa [World.set, hct] using h

theorem thread_thread (hs : step w (.thread u e) = some w') (ct : ℕ) :
    (w'.contexts ct).thread = (w.contexts ct).thread := by
  obtain ⟨-, th', c', hstep, rfl⟩ := thread_cases hs
  obtain ⟨hthread, -⟩ := threadStep_keeps hstep
  by_cases hct : ct = (w.threads u).ctx
  · subst hct
    simpa [World.set] using hthread
  · simp [World.set, hct]

/-- Another thread does not touch the context of the check. -/
theorem Serves.thread {P : ℕ → Context → Thread → Prop}
    (hP : ∀ t th c th' c', threadStep t th c e = some (th', c') → P t c th → P t c' th')
    (ha : Accounts w live) (hs : step w (.thread u e) = some w') {ct t : ℕ}
    (h : Serves P w live ct t) : Serves P w' (liveAfter w live u e) ct t := by
  obtain ⟨hu, th', c', hstep, rfl⟩ := thread_cases hs
  obtain ⟨-, -, hctx, hpc⟩ := threadStep_keeps hstep
  have hlive := ha.lives u hu hpc
  obtain ⟨hstarted, hct, honly, hasked, hholds⟩ := h
  by_cases heq : u = t
  · subst heq
    refine ⟨hstarted, ?_, fun v hv => honly v (liveAfter_le hv), hasked, ?_⟩
    · simpa using hctx.trans hct
    · subst hct
      simpa [World.set] using hP _ _ _ _ _ hstep hholds
  · have hne : ct ≠ (w.threads u).ctx := by
      intro h
      rw [← h] at hlive
      exact heq (honly u hlive)
    refine ⟨hstarted, ?_, fun v hv => honly v (liveAfter_le hv), hasked, ?_⟩
    · simpa [Function.update_of_ne (Ne.symm heq)] using hct
    · simpa [World.set, Function.update_of_ne (Ne.symm heq), hne] using hholds

theorem Asked.thread {P : ℕ → Context → Thread → Prop}
    (hP : ∀ t th c th' c', threadStep t th c e = some (th', c') → P t c th → P t c' th')
    (ha : Accounts w live) (hs : step w (.thread u e) = some w') {ct : ℕ}
    (h : Asked P w live ct) : Asked P w' (liveAfter w live u e) ct := by
  obtain ⟨t, hthread, hserves⟩ := h
  exact ⟨t, (thread_thread hs ct).trans hthread, hserves.thread hP ha hs⟩

theorem Accounts.thread (ha : Accounts w live) (hs : step w (.thread u e) = some w') :
    Accounts w' (liveAfter w live u e) := by
  obtain ⟨hu, th', c', hstep, rfl⟩ := thread_cases hs
  obtain ⟨-, -, hctx, hpc⟩ := threadStep_keeps hstep
  have hlive := ha.lives u hu hpc
  have hrefs : ∀ k, World.refs { w.set (w.threads u).ctx c' with
      threads := Function.update w.threads u th' } k = w.refs k := fun _ => rfl
  obtain ⟨rfl, hended, rfl⟩ | ⟨he, hnot, hholders, hfreed⟩ := threadStep_ends hstep
  · have hafter : liveAfter w live u .cleanup = Function.update live (w.threads u).ctx none :=
      if_pos rfl
    rw [hafter]
    constructor
    · intro t ht hne
      dsimp only at ht hne ⊢
      by_cases heq : t = u
      · subst heq
        simp [hended] at hne
      · rw [Function.update_of_ne heq] at hne ⊢
        have hlt := ha.lives t ht hne
        rw [Function.update_of_ne]
        · exact hlt
        · intro h
          rw [h, hlive] at hlt
          exact heq (Option.some.inj hlt).symm
    · intro k t h
      have hold := liveAfter_le (hafter ▸ h)
      obtain ⟨ht, hk, hne, hlt⟩ := ha.owner k t hold
      have htu : t ≠ u := by
        rintro rfl
        rw [hk, Function.update_self] at h
        cases h
      dsimp only
      rw [Function.update_of_ne htu]
      exact ⟨ht, hk, hne, hlt⟩
    · exact ha.context
    · intro k hk
      have h := ha.holders k hk
      rw [hrefs]
      by_cases heq : k = (w.threads u).ctx
      · subst heq
        rw [hlive] at h
        simp [World.set, Context.put, h]
      · simpa [World.set, heq] using h
    · intro k hk
      have h := ha.freed k hk
      have hh := ha.holders k hk
      rw [hrefs]
      by_cases heq : k = (w.threads u).ctx
      · subst heq
        rw [hlive] at h hh
        simp [World.set, Context.put, h, hh]
      · simpa [World.set, heq] using h
  · have hafter : liveAfter w live u e = live := if_neg he
    rw [hafter]
    constructor
    · intro t ht hne
      dsimp only at ht hne ⊢
      by_cases heq : t = u
      · subst heq
        rw [Function.update_self, hctx]
        exact hlive
      · rw [Function.update_of_ne heq] at hne ⊢
        exact ha.lives t ht hne
    · intro k t h
      obtain ⟨ht, hk, hne, hlt⟩ := ha.owner k t h
      dsimp only
      by_cases heq : t = u
      · rw [heq] at hk ⊢
        rw [Function.update_self, hctx]
        exact ⟨hu, hk, hnot, hlt⟩
      · rw [Function.update_of_ne heq]
        exact ⟨ht, hk, hne, hlt⟩
    · exact ha.context
    · intro k hk
      have h := ha.holders k hk
      rw [hrefs]
      by_cases heq : k = (w.threads u).ctx
      · subst heq
        simpa [World.set, hholders] using h
      · simpa [World.set, heq] using h
    · intro k hk
      have h := ha.freed k hk
      rw [hrefs]
      by_cases heq : k = (w.threads u).ctx
      · subst heq
        simpa [World.set, hfreed] using h
      · simpa [World.set, heq] using h

/-- A context that no thread holds is left alone. -/
theorem thread_unheld (ha : Accounts w live) (hs : step w (.thread u e) = some w') {ct : ℕ}
    (h : live ct = none) : w'.contexts ct = w.contexts ct := by
  obtain ⟨hu, th', c', hstep, rfl⟩ := thread_cases hs
  obtain ⟨-, -, -, hpc⟩ := threadStep_keeps hstep
  have hne : ct ≠ (w.threads u).ctx := by
    rintro rfl
    cases h.symm.trans (ha.lives u hu hpc)
  exact Function.update_of_ne hne _ _

theorem liveAfter_none {k : ℕ} (h : live k = none) : liveAfter w live u e k = none := by
  cases hafter : liveAfter w live u e k with
  | none => rfl
  | some t => cases h.symm.trans (liveAfter_le hafter)

theorem Phase.thread (ha : Accounts w live) (hs : step w (.thread u e) = some w')
    (h : Phase w live) : Phase w' (liveAfter w live u e) := by
  have hquiet : ∀ ct, Quiet w ct → Quiet w' ct := fun _ hq => hq.thread hs
  have hanswers : ∀ ct, Asked Answers w live ct → Asked Answers w' (liveAfter w live u e) ct :=
    fun _ hq => hq.thread (fun _ _ _ _ _ hstep hP => Answers.threadStep hstep hP) ha hs
  have hcancel :
      ∀ ct, Asked Cancellable w live ct → Asked Cancellable w' (liveAfter w live u e) ct :=
    fun _ hq => hq.thread (fun _ _ _ _ _ hstep hP => Cancellable.threadStep hstep hP) ha hs
  have hfinished :
      ∀ ct t, Serves Finished w live ct t → Serves Finished w' (liveAfter w live u e) ct t :=
    fun _ _ hq => hq.thread (fun _ _ _ _ _ hstep hP => Finished.threadStep hstep hP) ha hs
  have hthread := thread_thread hs
  have hnone : ∀ k, live k = none → liveAfter w live u e k = none := fun _ => liveAfter_none
  have hunheld : ∀ k, live k = none → w'.contexts k = w.contexts k := fun _ => thread_unheld ha hs
  obtain ⟨hpc, hcontext, hallocated, hasked⟩ : w'.pc = w.pc ∧ w'.context = w.context ∧
      w'.allocated = w.allocated ∧ w'.asked = w.asked := by
    obtain ⟨-, th', c', -, rfl⟩ := thread_cases hs
    exact ⟨rfl, rfl, rfl, rfl⟩
  unfold Phase at *
  rw [hpc, hcontext, hallocated, hasked]
  cases hw : w.pc <;> rw [hw] at h <;> dsimp only at h ⊢ <;> grind [Unused]

end ThreadEvent

end MultipathTools.Tur
