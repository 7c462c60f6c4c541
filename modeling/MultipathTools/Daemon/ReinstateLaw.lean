import MultipathTools.Base.Numeral
import MultipathTools.Daemon.Reinstate

/-! The law of the failures of a path and of the delay, over runs of its checks. -/
namespace MultipathTools.Daemon

/-- What the checks up to now tell: whether the last result was bad, how many good checks there
were in a row since the last change of `path_failures` or the last bad result, how many there were
in all since `path_failures` became positive or last went down, and the clock at the first good
check since the last bad result. A check with which a path turns good is in neither count. -/
structure Past where
  lastBad : Bool := false
  streak : ℕ := 0
  total : ℕ := 0
  goodSince : Option ℤ := none
  deriving DecidableEq, Repr

structure ErrSys where
  pp : ErrPath
  clock : ℤ
  past : Past
  deriving DecidableEq, Repr

/-- Between the checks the state may be set to `PATH_DOWN`, as `pathinfo` does when the device is
gone, and `update_multipath` when the kernel has failed the path. -/
inductive ErrEvent where
  | check (c : Check)
  | down
  deriving DecidableEq, Repr

def Past.bad (past : Past) : Past := { past with lastBad := true, streak := 0, goodSince := none }

/-- A good check at time `now` that leaves `m` of `n` failures. -/
def Past.good (past : Past) (now : ℤ) (n m : ℕ) : Past :=
  { lastBad := false
    streak := if past.lastBad ∨ m < n then 0 else past.streak + 1
    total :=
      if past.lastBad then if n = 0 then 0 else past.total
      else if m < n then 0 else past.total + 1
    goodSince := some (past.goodSince.getD now) }

def Past.next (past : Past) (c : Check) (n m : ℕ) : Past :=
  match c.verdict with
  | .noResult => past
  | .bad => past.bad
  | .good => past.good c.now n m

/-- The clock does not go back, and no checker returns `PATH_DELAYED`. -/
def errStep (mpp : ErrSettings) (s : ErrSys) : ErrEvent → Option ErrSys
  | .check c =>
    if s.clock ≤ c.now ∧ c.newstate ≠ .delayed then
      let pp := checkPath mpp c s.pp
      some { pp, clock := c.now, past := s.past.next c s.pp.pathFailures pp.pathFailures }
    else none
  | .down => some { s with pp := { s.pp with state := .down }, past := s.past.bad }

/-- A path on which nothing has been counted yet. -/
def errStart (state : PathState) (clock : ℤ) : ErrSys :=
  { pp := { state }, clock, past := { lastBad := PathBad state } }

/-- The path is not held back and turns good. -/
def Recovers (s : ErrSys) (e : ErrEvent) : Prop :=
  ∃ c, e = .check c ∧ c.verdict = .good ∧ s.pp.disableReinstate = false ∧ s.past.lastBad = true

/-- The path is not held back, is good and stays good, and has failures. -/
def StaysGood (s : ErrSys) (e : ErrEvent) : Prop :=
  ∃ c, e = .check c ∧ c.verdict = .good ∧ s.pp.disableReinstate = false ∧
    s.past.lastBad = false ∧ 0 < s.pp.pathFailures

/-- The check is good, and the map has no active path, or the path has been good for long
enough. -/
def Releases (mpp : ErrSettings) (s : ErrSys) (e : ErrEvent) : Prop :=
  ∃ c, e = .check c ∧ c.verdict = .good ∧
    (c.active = 0 ∨ ∃ t ∈ s.past.goodSince, mpp.sanPathErrRecoveryTime < c.now - t)

/-- The law of one transition. -/
structure ErrLaw (mpp : ErrSettings) (s : ErrSys) (e : ErrEvent) (s' : ErrSys) : Prop where
  counted : s.pp.pathFailures < s'.pp.pathFailures ↔ Recovers s e
  countedOne : Recovers s e → s'.pp.pathFailures = s.pp.pathFailures + 1
  forgotten : s.pp.disableReinstate = false → (s'.pp.pathFailures < s.pp.pathFailures ↔
    StaysGood s e ∧ (s.past.streak : ℤ) + 1 = mpp.sanPathErrForgetRate)
  forgottenOne : s.pp.disableReinstate = false → s'.pp.pathFailures < s.pp.pathFailures →
    s.pp.pathFailures = s'.pp.pathFailures + 1
  held : s.pp.disableReinstate = false → s'.pp.disableReinstate = true →
    mpp.sanPathErrThreshold < s'.pp.pathFailures
  released : s.pp.disableReinstate = true → s'.pp.disableReinstate = false → Releases mpp s e

/-- The good check number `n` in a row is also the one after `n` good checks in all. -/
def InTime (mpp : ErrSettings) (s : ErrSys) (e : ErrEvent) (_ : ErrSys) : Prop :=
  StaysGood s e → ((s.past.streak : ℤ) + 1 = mpp.sanPathErrForgetRate ↔
    (s.past.total : ℤ) = mpp.sanPathErrForgetRate)

structure ErrInv (mpp : ErrSettings) (s : ErrSys) : Prop where
  delayed : s.pp.state = .delayed → s.pp.disableReinstate = true
  last : s.pp.disableReinstate = false → (PathBad s.pp.state ↔ s.past.lastBad = true)
  bound : s.pp.disableReinstate = false → (s.pp.pathFailures : ℤ) ≤ mpp.sanPathErrThreshold
  working : s.pp.disableReinstate = false → 0 < s.pp.pathFailures →
    PathGood s.pp.state ∨ PathBad s.pp.state
  rate : s.pp.disableReinstate = false → 0 < s.pp.pathFailures →
    0 ≤ s.pp.sanPathErrForgetRate ∧
      s.pp.sanPathErrForgetRate + s.past.total = mpp.sanPathErrForgetRate
  bad : s.past.lastBad = true → s.past.goodSince = none
  since : s.pp.disableReinstate = true → PathGood s.pp.state ∨ s.pp.state = .delayed →
    ∃ t ∈ s.past.goodSince, t ≤ s.pp.disReinstateTime
  clock : ∀ t ∈ s.past.goodSince, t ≤ s.clock

section Inv

variable {mpp : ErrSettings} {c : Check} {s : ErrSys} {past : Past} {now : ℤ} {n m : ℕ}

theorem PathGood.not_bad {state : PathState} (h : PathGood state) : ¬PathBad state := by
  unfold PathBad
  rcases h with rfl | rfl <;> decide

theorem PathGood.ne_delayed {state : PathState} (h : PathGood state) : state ≠ .delayed := by
  rcases h with rfl | rfl <;> decide

theorem PathBad.ne_delayed {state : PathState} (h : PathBad state) : state ≠ .delayed := by
  rcases h with rfl | rfl | rfl <;> decide

theorem Past.good_since (h : ∀ t ∈ past.goodSince, t ≤ now) :
    ∀ t ∈ (past.good now n m).goodSince, t ≤ now := by
  intro t ht
  obtain rfl := Option.some.inj ht
  cases hp : past.goodSince with
  | none => exact le_refl now
  | some t => exact h t hp

theorem Past.good_total_of_bad (h : past.lastBad = true) :
    (past.good now n m).total = if n = 0 then 0 else past.total := if_pos h

theorem Past.good_total (h : past.lastBad = false) :
    (past.good now n m).total = if m < n then 0 else past.total + 1 :=
  if_neg (Bool.eq_false_iff.mp h)

theorem ErrInv.good_since (h : ErrInv mpp s) (hle : s.clock ≤ now) :
    ∀ t ∈ (s.past.good now n m).goodSince, t ≤ now :=
  Past.good_since fun t ht => (h.clock t ht).trans hle

/-- A path that is not held back and not bad has had a good result. -/
theorem ErrInv.lastBad_eq_false (h : ErrInv mpp s) (hfree : s.pp.disableReinstate = false)
    (hbad : ¬PathBad s.pp.state) : s.past.lastBad = false :=
  Bool.eq_false_iff.mpr fun hlast => hbad ((h.last hfree).mpr hlast)

/-- The counter does not wrap. -/
theorem ErrInv.count_succ (h : ErrInv mpp s) (hint : IsInt mpp.sanPathErrThreshold)
    (hfree : s.pp.disableReinstate = false) :
    (s.pp.pathFailures + 1) % 2 ^ 32 = s.pp.pathFailures + 1 := by
  have hbound := h.bound hfree
  have hmax := hint.2
  unfold intMax at hmax
  exact Nat.mod_eq_of_lt (by omega)

/-- The invariant where the path is held back. -/
theorem errInv_held {pp : ErrPath} (hheld : pp.disableReinstate = true)
    (hbad : past.lastBad = true → past.goodSince = none)
    (hsince : PathGood pp.state ∨ pp.state = .delayed → ∃ t ∈ past.goodSince, t ≤ pp.disReinstateTime)
    (hclock : ∀ t ∈ past.goodSince, t ≤ now) : ErrInv mpp { pp, clock := now, past } where
  delayed := fun _ => hheld
  last := fun hfree => absurd (hheld.symm.trans hfree) (by decide)
  bound := fun hfree => absurd (hheld.symm.trans hfree) (by decide)
  working := fun hfree => absurd (hheld.symm.trans hfree) (by decide)
  rate := fun hfree => absurd (hheld.symm.trans hfree) (by decide)
  bad := hbad
  since := fun _ => hsince
  clock := hclock

/-- The invariant where a path has been found good and is not held back. -/
theorem errInv_free {pp : ErrPath} (hfree : pp.disableReinstate = false)
    (hstate : PathGood pp.state) (hlast : past.lastBad = false)
    (hbound : (pp.pathFailures : ℤ) ≤ mpp.sanPathErrThreshold)
    (hrate : 0 < pp.pathFailures → 0 ≤ pp.sanPathErrForgetRate ∧
      pp.sanPathErrForgetRate + past.total = mpp.sanPathErrForgetRate)
    (hclock : ∀ t ∈ past.goodSince, t ≤ now) : ErrInv mpp { pp, clock := now, past } where
  delayed := fun h => absurd h hstate.ne_delayed
  last := fun _ => iff_of_false hstate.not_bad (by simp [hlast])
  bound := fun _ => hbound
  working := fun _ _ => Or.inl hstate
  rate := fun _ => hrate
  bad := fun h => absurd (hlast.symm.trans h) (by decide)
  since := fun h => absurd (hfree.symm.trans h) (by decide)
  clock := hclock

/-- The invariant after a good check. -/
theorem ErrInv.good (h : ErrInv mpp s) (hsan : sanPathCheckEnabled mpp = true)
    (hle : s.clock ≤ c.now) {r : ErrPath × Bool} (hr : Counted mpp c s.pp r)
    {state : PathState} (marginal : Bool) (hstate : PathGood state ∨ r.2 = true ∧ state = .delayed) :
    ErrInv mpp ⟨{ r.1 with marginal := marginal, state := state }, c.now,
      s.past.good c.now s.pp.pathFailures r.1.pathFailures⟩ := by
  obtain ⟨hthreshold, hforget, -⟩ := of_decide_eq_true hsan
  have hlast : (s.past.good c.now s.pp.pathFailures r.1.pathFailures).lastBad = false := rfl
  have hbad : (s.past.good c.now s.pp.pathFailures r.1.pathFailures).lastBad = true →
      (s.past.good c.now s.pp.pathFailures r.1.pathFailures).goodSince = none :=
    fun hc => absurd (hlast.symm.trans hc) (by decide)
  have hsince := @ErrInv.good_since mpp s c.now s.pp.pathFailures r.1.pathFailures h hle
  have hnow : ∃ t ∈ (s.past.good c.now s.pp.pathFailures r.1.pathFailures).goodSince, t ≤ c.now :=
    ⟨_, rfl, hsince _ rfl⟩
  have hgood : r.2 = false → PathGood state := fun hc =>
    hstate.resolve_right fun ht => absurd (hc.symm.trans ht.1) (by decide)
  cases hr with
  | released hheld hrel =>
    exact errInv_free rfl (hgood rfl) hlast hthreshold.le
      (fun hpos => absurd hpos (Nat.lt_irrefl 0)) hsince
  | waits hheld rate hup =>
    obtain ⟨t, ht, hdis⟩ := h.since hheld hup
    refine errInv_held hheld hbad (fun _ => ⟨t, ?_, hdis⟩) hsince
    rw [Past.good, ht]
    rfl
  | restarts hheld rate => exact errInv_held hheld hbad (fun _ => hnow) hsince
  | kept hfree hup hpos hcount =>
    obtain ⟨-, htotal⟩ := h.rate hfree hpos
    have hone := h.lastBad_eq_false hfree hup.not_bad
    refine errInv_free hfree (hgood rfl) hlast (h.bound hfree) (fun _ => ⟨?_, ?_⟩) hsince
    · exact Int.le_sub_one_of_lt hcount
    · rw [Past.good_total hone, if_neg (Nat.lt_irrefl _)]
      push_cast
      omega
  | forgotten hfree hup hpos hcount =>
    have hone := h.lastBad_eq_false hfree hup.not_bad
    have hbound := h.bound hfree
    have hless : s.pp.pathFailures - 1 < s.pp.pathFailures := Nat.sub_lt hpos Nat.one_pos
    refine errInv_free hfree (hgood rfl) hlast ?_ (fun _ => ⟨hforget.le, ?_⟩) hsince
    · dsimp only
      omega
    · rw [Past.good_total hone, if_pos hless]
      exact add_zero _
  | idle hfree hno hzero =>
    refine errInv_free hfree (hgood rfl) hlast (h.bound hfree) (fun hpos => ?_) hsince
    have hup := (h.working hfree hpos).resolve_right hno
    exact absurd (hzero hup) hpos.ne'
  | failed hfree hfail hcount hn hbound =>
    have hone := (h.last hfree).mp hfail
    refine errInv_free hfree (hgood rfl) hlast hbound (fun _ => ?_) hsince
    rw [hcount, Past.good_total_of_bad hone]
    split_ifs with hnone
    · exact ⟨hforget.le, add_zero _⟩
    · exact h.rate hfree (Nat.pos_of_ne_zero hnone)
  | delayed hfree hfail hn hlt => exact errInv_held rfl hbad (fun _ => hnow) hsince

/-- The invariant after a bad result. -/
theorem ErrInv.failed (h : ErrInv mpp s) {state : PathState} (hbad : PathBad state) (now : ℤ) :
    ErrInv mpp ⟨{ s.pp with state := state }, now, s.past.bad⟩ where
  delayed := fun hd => absurd hd hbad.ne_delayed
  last := fun _ => iff_of_true hbad rfl
  bound := h.bound
  working := fun _ _ => Or.inr hbad
  rate := h.rate
  bad := fun _ => rfl
  since := fun _ hc => hc.elim (fun hg => absurd hbad hg.not_bad) fun hd => absurd hd hbad.ne_delayed
  clock := fun _ ht => absurd ht (Option.not_mem_none _)

theorem ErrInv.next (h : ErrInv mpp s) (hsan : sanPathCheckEnabled mpp = true)
    (hle : s.clock ≤ c.now) {pp : ErrPath} (hpp : Checked mpp c s.pp pp) :
    ErrInv mpp ⟨pp, c.now, s.past.next c s.pp.pathFailures pp.pathFailures⟩ := by
  have hclock : ∀ t ∈ s.past.goodSince, t ≤ c.now := fun t ht => (h.clock t ht).trans hle
  cases hpp with
  | idle hverdict =>
    rw [Past.next, hverdict]
    exact ⟨h.delayed, h.last, h.bound, h.working, h.rate, h.bad, h.since, hclock⟩
  | cancelled hstate hverdict hgood hdelayed =>
    have hheld := h.delayed hstate
    have hno {l : Option ℤ} {d : ℤ} {state : PathState} (hg : ¬PathGood state)
        (hd : state ≠ .delayed) (hc : PathGood state ∨ state = .delayed) : ∃ t ∈ l, t ≤ d :=
      absurd hc (not_or.mpr ⟨hg, hd⟩)
    rw [Past.next]
    cases hv : c.verdict with
    | good => exact absurd hv hverdict
    | bad =>
      exact errInv_held hheld (fun _ => rfl) (hno hgood hdelayed) fun _ ht =>
        absurd ht (Option.not_mem_none _)
    | noResult => exact errInv_held hheld h.bad (hno hgood hdelayed) hclock
  | bad hverdict hbad =>
    rw [Past.next, hverdict]
    exact h.failed hbad c.now
  | good hverdict hr marginal hstate =>
    rw [Past.next, hverdict]
    exact h.good hsan hle hr marginal hstate

theorem errStart_inv {state : PathState} (hstate : state ≠ .delayed)
    (hsan : sanPathCheckEnabled mpp = true) (clock : ℤ) : ErrInv mpp (errStart state clock) where
  delayed := fun h => absurd h hstate
  last := fun _ => (decide_eq_true_iff).symm
  bound := fun _ => (of_decide_eq_true hsan).1.le
  working := fun _ h => absurd h (Nat.lt_irrefl 0)
  rate := fun _ h => absurd h (Nat.lt_irrefl 0)
  bad := fun _ => rfl
  since := fun h => absurd h Bool.false_ne_true
  clock := fun _ ht => absurd ht (Option.not_mem_none _)

end Inv

section Law

variable {mpp : ErrSettings} {s s' : ErrSys} {e : ErrEvent}

/-- What a step does to the count and to the delay. -/
inductive Effect (mpp : ErrSettings) (s : ErrSys) (e : ErrEvent) (s' : ErrSys) : Prop
  | same (hrecovers : ¬Recovers s e) (hstays : ¬StaysGood s e)
      (hcount : s'.pp.pathFailures = s.pp.pathFailures)
      (hheld : s'.pp.disableReinstate = s.pp.disableReinstate)
  | released (hheld : s.pp.disableReinstate = true) (hcount : s'.pp.pathFailures = 0)
      (h : Releases mpp s e)
  | counted (hrecovers : Recovers s e) (hcount : s'.pp.pathFailures = s.pp.pathFailures + 1)
      (hheld : s'.pp.disableReinstate = true → mpp.sanPathErrThreshold < s'.pp.pathFailures)
  | kept (hstays : StaysGood s e) (hcount : s'.pp.pathFailures = s.pp.pathFailures)
      (hfree : s'.pp.disableReinstate = false)
      (htotal : (s.past.total : ℤ) ≠ mpp.sanPathErrForgetRate)
  | forgotten (hstays : StaysGood s e) (hcount : s.pp.pathFailures = s'.pp.pathFailures + 1)
      (hfree : s'.pp.disableReinstate = false)
      (htotal : (s.past.total : ℤ) = mpp.sanPathErrForgetRate)

theorem StaysGood.free (h : StaysGood s e) : s.pp.disableReinstate = false := by
  obtain ⟨_, _, _, hfree, _⟩ := h
  exact hfree

theorem Recovers.free (h : Recovers s e) : s.pp.disableReinstate = false := by
  obtain ⟨_, _, _, hfree, _⟩ := h
  exact hfree

theorem StaysGood.not_recovers (h : StaysGood s e) : ¬Recovers s e := by
  intro ⟨_, _, _, _, hbad⟩
  obtain ⟨_, _, _, _, hgood, _⟩ := h
  exact absurd (hgood.symm.trans hbad) Bool.false_ne_true

theorem inTime_of_not (h : ¬StaysGood s e) : InTime mpp s e s' := fun hs => absurd hs h

/-- The law of a step that has one of these effects holds exactly if the good checks in a row and
all good checks reach their numbers together. -/
theorem Effect.law_iff_inTime (h : Effect mpp s e s') : ErrLaw mpp s e s' ↔ InTime mpp s e s' := by
  cases h with
  | same hrecovers hstays hcount hheld =>
    refine iff_of_true ⟨?_, fun h => absurd h hrecovers, fun _ => ?_, fun _ h => ?_, fun h h' => ?_,
      fun h h' => ?_⟩ (inTime_of_not hstays)
    · exact iff_of_false (by omega) hrecovers
    · exact iff_of_false (by omega) fun hs => hstays hs.1
    · omega
    · rw [hheld, h] at h'
      cases h'
    · rw [hheld, h] at h'
      cases h'
  | released hheld hcount h =>
    have hnot : s.pp.disableReinstate ≠ false := by simp [hheld]
    refine iff_of_true ⟨?_, fun h => absurd h.free hnot, fun h => absurd h hnot,
      fun h => absurd h hnot, fun h => absurd h hnot, fun _ _ => h⟩
      (inTime_of_not fun h => hnot h.free)
    exact iff_of_false (by omega) fun h => hnot h.free
  | counted hrecovers hcount hheld =>
    have hstays : ¬StaysGood s e := fun h => h.not_recovers hrecovers
    refine iff_of_true ⟨?_, fun _ => hcount, fun _ => ?_, fun _ h => ?_, fun _ => hheld,
      fun h => ?_⟩ (inTime_of_not hstays)
    · exact iff_of_true (by omega) hrecovers
    · exact iff_of_false (by omega) fun hs => hstays hs.1
    · omega
    · exact absurd (h.symm.trans hrecovers.free) (by decide)
  | kept hstays hcount hfree htotal =>
    constructor
    · intro h _
      refine iff_of_false (fun hstreak => ?_) htotal
      have hless := (h.forgotten hstays.free).mpr ⟨hstays, hstreak⟩
      omega
    · intro h
      have hstreak := mt (h hstays).mp htotal
      refine ⟨?_, fun h => absurd h hstays.not_recovers, fun _ => ?_, fun _ h => ?_, fun _ h => ?_,
        fun h => ?_⟩
      · exact iff_of_false (by omega) hstays.not_recovers
      · exact iff_of_false (by omega) fun hs => hstreak hs.2
      · omega
      · exact absurd (h.symm.trans hfree) (by decide)
      · exact absurd (h.symm.trans hstays.free) (by decide)
  | forgotten hstays hcount hfree htotal =>
    constructor
    · intro h _
      exact iff_of_true ((h.forgotten hstays.free).mp (by omega)).2 htotal
    · intro h
      have hstreak := (h hstays).mpr htotal
      refine ⟨?_, fun h => absurd h hstays.not_recovers, fun _ => ?_, fun _ _ => hcount, fun _ h => ?_,
        fun h => ?_⟩
      · exact iff_of_false (by omega) hstays.not_recovers
      · exact iff_of_true (by omega) ⟨hstays, hstreak⟩
      · exact absurd (h.symm.trans hfree) (by decide)
      · exact absurd (h.symm.trans hstays.free) (by decide)

theorem not_recovers_of_verdict {c : Check} (h : c.verdict ≠ .good) : ¬Recovers s (.check c) := by
  intro ⟨_, hc, hgood, _⟩
  obtain rfl := ErrEvent.check.inj hc
  exact h hgood

theorem not_staysGood_of_verdict {c : Check} (h : c.verdict ≠ .good) :
    ¬StaysGood s (.check c) := by
  intro ⟨_, hc, hgood, _⟩
  obtain rfl := ErrEvent.check.inj hc
  exact h hgood

/-- What a good check does. -/
theorem ErrInv.effect_good {c : Check} (h : ErrInv mpp s) (hint : IsInt mpp.sanPathErrThreshold)
    (hverdict : c.verdict = .good) {r : ErrPath × Bool} (hr : Counted mpp c s.pp r)
    (hcount : s'.pp.pathFailures = r.1.pathFailures)
    (hheld : s'.pp.disableReinstate = r.1.disableReinstate) : Effect mpp s (.check c) s' := by
  have hno (hd : s.pp.disableReinstate = true) : s.pp.disableReinstate ≠ false := by simp [hd]
  cases hr with
  | released hd hrel =>
    refine .released hd hcount ⟨c, rfl, hverdict, hrel.imp id ?_⟩
    rintro ⟨hup, htime⟩
    obtain ⟨t, ht, hle⟩ := h.since hd hup
    exact ⟨t, ht, by omega⟩
  | waits hd rate hup =>
    exact .same (fun hc => hno hd hc.free) (fun hc => hno hd hc.free) hcount hheld
  | restarts hd rate =>
    exact .same (fun hc => hno hd hc.free) (fun hc => hno hd hc.free) hcount hheld
  | kept hfree hup hpos hrate =>
    have hlast := h.lastBad_eq_false hfree hup.not_bad
    obtain ⟨-, htotal⟩ := h.rate hfree hpos
    refine .kept ⟨c, rfl, hverdict, hfree, hlast, hpos⟩ hcount (hheld.trans hfree) ?_
    omega
  | forgotten hfree hup hpos hrate =>
    have hlast := h.lastBad_eq_false hfree hup.not_bad
    obtain ⟨hnonneg, htotal⟩ := h.rate hfree hpos
    refine .forgotten ⟨c, rfl, hverdict, hfree, hlast, hpos⟩ ?_ (hheld.trans hfree) ?_
    · dsimp only at hcount
      omega
    · omega
  | idle hfree hbad hzero =>
    refine .same ?_ ?_ hcount hheld
    · intro ⟨_, _, _, _, hlast⟩
      exact hbad ((h.last hfree).mpr hlast)
    · intro ⟨_, _, _, _, _, hpos⟩
      exact absurd (hzero ((h.working hfree hpos).resolve_right hbad)) hpos.ne'
  | failed hfree hbad hrate hn hle =>
    have hlast := (h.last hfree).mp hbad
    rw [h.count_succ hint hfree] at hn
    refine .counted ⟨c, rfl, hverdict, hfree, hlast⟩ (hcount.trans hn) fun hc => ?_
    exact absurd (hc.symm.trans (hheld.trans hfree)) (by decide)
  | delayed hfree hbad hn hlt =>
    have hlast := (h.last hfree).mp hbad
    rw [h.count_succ hint hfree] at hn
    refine .counted ⟨c, rfl, hverdict, hfree, hlast⟩ (hcount.trans hn) fun _ => ?_
    rw [hcount]
    exact hlt

/-- One step. -/
theorem ErrInv.step (h : ErrInv mpp s) (hsan : sanPathCheckEnabled mpp = true)
    (hmarginal : marginalPathCheckEnabled mpp = false) (hint : IsInt mpp.sanPathErrThreshold)
    (hs : errStep mpp s e = some s') : ErrInv mpp s' ∧ Effect mpp s e s' := by
  cases e with
  | down =>
    obtain rfl := Option.some.inj hs
    refine ⟨h.failed (Or.inl rfl) s.clock, .same ?_ ?_ rfl rfl⟩
    · exact fun ⟨_, hc, _⟩ => ErrEvent.noConfusion hc
    · exact fun ⟨_, hc, _⟩ => ErrEvent.noConfusion hc
  | check c =>
    rw [errStep] at hs
    split_ifs at hs with hguard
    obtain rfl := Option.some.inj hs
    have hchecked := @checkPath_cases mpp c s.pp hsan hmarginal hguard.2
    refine ⟨h.next hsan hguard.1 hchecked, ?_⟩
    generalize checkPath mpp c s.pp = pp at hchecked ⊢
    cases hchecked with
    | idle hverdict =>
      have hno : c.verdict ≠ .good := by simp [hverdict]
      exact .same (not_recovers_of_verdict hno) (not_staysGood_of_verdict hno) rfl rfl
    | cancelled hstate hno hgood hdelayed =>
      exact .same (not_recovers_of_verdict hno) (not_staysGood_of_verdict hno) rfl rfl
    | bad hverdict hbad =>
      have hno : c.verdict ≠ .good := by simp [hverdict]
      exact .same (not_recovers_of_verdict hno) (not_staysGood_of_verdict hno) rfl rfl
    | good hverdict hr marginal hstate => exact h.effect_good hint hverdict hr rfl rfl

/-- The law holds along a run exactly if at every good check that counts for it, the path has been
good for `n` checks in a row just when it has been good for `n` checks before. -/
theorem errLaw_iff (mpp : ErrSettings) (state : PathState) (clock : ℤ) (es : List ErrEvent)
    (hsan : sanPathCheckEnabled mpp = true) (hmarginal : marginalPathCheckEnabled mpp = false)
    (hint : IsInt mpp.sanPathErrThreshold) (hstate : state ≠ .delayed) :
    Along (errStep mpp) (ErrLaw mpp) (errStart state clock) es ↔
      Along (errStep mpp) (InTime mpp) (errStart state clock) es := by
  have hstart := errStart_inv hstate hsan clock
  constructor
  · refine along_of_invariant (ErrInv mpp) (fun s e s' hs hlaw h => ?_) hstart
    obtain ⟨hinv, heffect⟩ := h.step hsan hmarginal hint hs
    exact ⟨hinv, heffect.law_iff_inTime.mp hlaw⟩
  · refine along_of_invariant (ErrInv mpp) (fun s e s' hs htime h => ?_) hstart
    obtain ⟨hinv, heffect⟩ := h.step hsan hmarginal hint hs
    exact ⟨hinv, heffect.law_iff_inTime.mpr htime⟩

theorem errLaw_iff_short :
    Along (errStep ⟨2, 3, 60, -1, -1, -1, -1⟩) (ErrLaw ⟨2, 3, 60, -1, -1, -1, -1⟩)
        (errStart .down 0) [.check { newstate := .up, now := 5 }] ↔
      Along (errStep ⟨2, 3, 60, -1, -1, -1, -1⟩) (InTime ⟨2, 3, 60, -1, -1, -1, -1⟩)
        (errStart .down 0) [.check { newstate := .up, now := 5 }] :=
  errLaw_iff ⟨2, 3, 60, -1, -1, -1, -1⟩ .down 0 _ rfl rfl (by decide) (by decide)

/-- One good check in a row is to be enough for a failure to be forgotten, but it takes two. -/
theorem errLaw_fails :
    ¬Along (errStep ⟨2, 1, 60, -1, -1, -1, -1⟩) (ErrLaw ⟨2, 1, 60, -1, -1, -1, -1⟩)
      (errStart .down 0)
      [.check { newstate := .up, now := 5 }, .check { newstate := .up, now := 10 }] := by
  intro h
  obtain ⟨-, hrest⟩ := h _ rfl
  obtain ⟨hlaw, -⟩ := hrest _ rfl
  have hless := (hlaw.forgotten rfl).mpr ⟨⟨_, rfl, rfl, rfl, rfl, by decide⟩, rfl⟩
  revert hless
  decide

end Law

end MultipathTools.Daemon
