import MultipathTools.Persist.Release

/-! When a release through `mpath_prout_rel` keeps the registrations. -/
namespace MultipathTools.Persist

deriving instance DecidableEq for Port

theorem joinThread_failed {s : Bool × PrStatus} (hs : s.2 ≠ .success) (t : Thread) :
    (joinThread s t).2 ≠ .success := by
  unfold joinThread
  cases t.status with
  | none => exact hs
  | some st =>
    by_cases hc : s.1 = false ∧ st = .reservConflict
    · simp [hc.1, hc.2]
    · have hcond : (!s.1 && decide (st = .reservConflict)) = false := by
        simpa using hc
      simp [hcond, hs]

theorem foldl_joinThread_failed (threads : List Thread) {s : Bool × PrStatus}
    (hs : s.2 ≠ .success) : (threads.foldl joinThread s).2 ≠ .success := by
  induction threads generalizing s with
  | nil => exact hs
  | cons t threads ih => exact ih (joinThread_failed hs t)

/-- The threads are joined with success iff all of them have ended with it. -/
theorem foldl_joinThread_success_iff (threads : List Thread) :
    (threads.foldl joinThread (false, .success)).2 = .success ↔
      ∀ t ∈ threads, ∀ st ∈ t.status, st = .success := by
  induction threads with
  | nil => simp
  | cons t threads ih =>
    rw [List.foldl_cons, List.forall_mem_cons]
    cases ht : t.status with
    | none =>
      have hjoin : joinThread (false, .success) t = (false, .success) := by simp [joinThread, ht]
      rw [hjoin, ih]
      simp
    | some st =>
      by_cases hst : st = .success
      · have hjoin : joinThread (false, .success) t = (false, .success) := by
          simp [joinThread, ht, hst]
        rw [hjoin, ih]
        simp [hst]
      · have hjoin : (joinThread (false, .success) t).2 ≠ .success := by
          by_cases hc : st = .reservConflict <;> simp [joinThread, ht, hst, hc]
        exact iff_of_false (foldl_joinThread_failed threads hjoin) fun h => hst (h.1 st rfl)

theorem reached_sublist (allTgPt : Bool) (hosts : List ℤ) (ports : List Port) :
    (reached allTgPt hosts ports).Sublist ports := by
  induction ports generalizing hosts with
  | nil => exact List.Sublist.slnil
  | cons port ports ih =>
    unfold reached
    dsimp only
    split
    · exact (ih _).cons port
    · split
      · exact (ih _).cons port
      · exact (ih _).cons_cons port

/-- The threads are those of the ports that are reached. -/
theorem startThreads_eq (act : RegAction) (allTgPt : Bool) (hosts : List ℤ) {p : ProutParam}
    {ports : List Port} (hflags : p.saFlags &&& fSpecIPtMask = 0) (hports : ports.Nodup) :
    startThreads act allTgPt hosts p ports = (ports.map fun port =>
      if port ∈ reached allTgPt hosts ports then firstThread act p port else ⟨port, none⟩, p) := by
  induction ports generalizing hosts with
  | nil => rfl
  | cons port ports ih =>
    obtain ⟨hnot, hports'⟩ := List.nodup_cons.mp hports
    have hskip : ∀ hosts, port ∉ reached allTgPt hosts ports :=
      fun hosts h => hnot ((reached_sublist allTgPt hosts ports).subset h)
    unfold startThreads reached
    dsimp only
    split
    · rw [ih _ hports', List.map_cons, if_neg (hskip hosts)]
    · split
      · rw [ih _ hports', List.map_cons, if_neg (hskip hosts)]
      · rw [if_neg (fun h => h.2 hflags), ih _ hports', List.map_cons, if_pos List.mem_cons_self]
        have hrest : ∀ q ∈ ports, ∀ rs : List Port, q ∈ port :: rs ↔ q ∈ rs := by
          intro q hq rs
          have hne : q ≠ port := fun h => hnot (h ▸ hq)
          simp [hne]
        congr 2
        apply List.map_congr_left
        intro q hq
        rw [if_congr (hrest q hq _) rfl rfl]

/-- `mpath_prout_reg` with a new key succeeds iff each port that is reached answers and has no
key; it then sets the key at these ports and nowhere else. -/
theorem mpathProutReg_success (allTgPtOn : Bool) {pg : List (List Port)} (own : Key)
    (hports : pg.flatten.Nodup) (hactive : ∃ port ∈ pg.flatten, port.path.isActive = true) :
    ((mpathProutReg allTgPtOn pg .reg { saKey := own }).status = .success ↔
        ∀ port ∈ reached allTgPtOn [] pg.flatten, port.first = .answered ∧ port.key = none) ∧
      ((mpathProutReg allTgPtOn pg .reg { saKey := own }).status = .success →
        (mpathProutReg allTgPtOn pg .reg { saKey := own }).ports = pg.flatten.map fun port =>
          if port ∈ reached allTgPtOn [] pg.flatten then { port with key := registration own }
          else port) := by
  have hcount : (pg.map fun pgp => pgp.countP (·.path.isActive)).sum ≠ 0 := by
    rw [← List.countP_flatten, ← Nat.pos_iff_ne_zero, List.countP_pos_iff]
    exact hactive
  have hall : (allTgPtOn || decide ((0 : BitVec 8) &&& fAllTgPtMask ≠ 0)) = allTgPtOn := by simp
  have hflags : (0 : BitVec 8) &&& fSpecIPtMask = 0 := by decide
  have hthreads := startThreads_eq .reg allTgPtOn [] (p := { saKey := own }) hflags hports
  have hstatus : ∀ port : Port, (send port.first .reg { saKey := own } port.key).1 = .success ↔
      port.first = .answered ∧ port.key = none := by
    intro port
    rw [send_success]
    apply and_congr_right
    intro _
    show (.reg = RegAction.regIgn ∨ port.key.key = 0) ↔ _
    constructor
    · rintro (h | h)
      · cases h
      · exact Registration.key_injective (h.trans Registration.key_none.symm)
    · intro h
      rw [h]
      exact .inr rfl
  unfold mpathProutReg
  dsimp only
  rw [if_neg hcount, hall, hthreads]
  dsimp only
  have hsuccess := foldl_joinThread_success_iff (pg.flatten.map fun port =>
    if port ∈ reached allTgPtOn [] pg.flatten then firstThread .reg { saKey := own } port
    else ⟨port, none⟩)
  have hconflict := foldl_joinThread_conflict (pg.flatten.map fun port =>
    if port ∈ reached allTgPtOn [] pg.flatten then firstThread .reg { saKey := own } port
    else ⟨port, none⟩) (false, .success) (by simp)
  generalize hjoin : (pg.flatten.map fun port =>
    if port ∈ reached allTgPtOn [] pg.flatten then firstThread .reg { saKey := own } port
    else ⟨port, none⟩).foldl joinThread (false, .success) = joined at hsuccess hconflict ⊢
  have hreached : (∀ t ∈ pg.flatten.map fun port =>
      if port ∈ reached allTgPtOn [] pg.flatten then firstThread .reg { saKey := own } port
      else ⟨port, none⟩, ∀ st ∈ t.status, st = .success) ↔
        ∀ port ∈ reached allTgPtOn [] pg.flatten, port.first = .answered ∧ port.key = none := by
    rw [List.forall_mem_map]
    constructor
    · intro h port hport
      have hp := h port ((reached_sublist _ _ _).subset hport)
      rw [if_pos hport] at hp
      exact (hstatus port).mp (hp _ rfl)
    · intro h port _
      split
      · rename_i hport
        intro st hst
        cases hst
        exact (hstatus port).mpr (h port hport)
      · intro st hst
        cases hst
  rw [hreached] at hsuccess
  constructor
  · rw [← hsuccess]
    split <;> rfl
  · intro h
    have hone : joined.2 = .success := by
      split at h <;> exact h
    have hno : joined.1 = false := by
      rw [← Bool.not_eq_true, hconflict, hone]
      simp
    rw [hno, if_neg (by simp), List.map_map]
    apply List.map_congr_left
    intro port _
    dsimp only [Function.comp]
    split
    · rename_i hport
      obtain ⟨hans, hnone⟩ := hsuccess.mp hone port hport
      unfold firstThread send register
      rw [hans, hnone]
      rfl
    · rfl

section WriteBack
variable (env : RelEnv)

theorem holder_writeBack (t : Target) (ports : List Port) (h : t.holder = none) :
    (env.writeBack t ports).holder = none := by
  induction ports generalizing t with
  | nil => exact h
  | cons port ports ih => exact ih _ (Target.holder_set_of_none h _ _)

theorem regOf_writeBack_of_not_mem (t : Target) {ports : List Port} {m : Nexus}
    (h : ∀ port ∈ ports, env.nexus port.path ≠ m) : (env.writeBack t ports).regOf m = t.regOf m := by
  induction ports generalizing t with
  | nil => rfl
  | cons port ports ih =>
    obtain ⟨hport, hports⟩ := List.forall_mem_cons.mp h
    show (env.writeBack (t.set (env.nexus port.path) port.key) ports).regOf m = _
    rw [ih _ hports, Target.regOf_set, if_neg hport.symm]

/-- The registration of each path is that of its port, if no two paths share a nexus. -/
theorem regOf_writeBack_of_mem (t : Target) {ports : List Port}
    (hnodup : (ports.map fun port => env.nexus port.path).Nodup) {port : Port} (h : port ∈ ports) :
    (env.writeBack t ports).regOf (env.nexus port.path) = port.key := by
  induction ports generalizing t with
  | nil => cases h
  | cons q ports ih =>
    rw [List.map_cons, List.nodup_cons] at hnodup
    show (env.writeBack (t.set (env.nexus q.path) q.key) ports).regOf _ = _
    obtain rfl | h := List.mem_cons.mp h
    · have hnot : ∀ p ∈ ports, env.nexus p.path ≠ env.nexus port.path := by
        intro p hp heq
        exact hnodup.1 (heq ▸ List.mem_map_of_mem hp)
      rw [regOf_writeBack_of_not_mem env _ hnot, Target.regOf_set, if_pos rfl]
    · exact ih _ hnodup.2 h

end WriteBack

/-- The paths that `mpath_prout_reg` sends the key to: the usable ones, but with `all_tg_pt` only
the first one of each host. -/
def RelEnv.reachedPaths (env : RelEnv) (allTgPtOn : Bool) (pg : List (List Path)) : List Path :=
  (reached allTgPtOn [] (pg.flatten.map fun pp => { path := pp, first := env.first pp })).map
    Port.path

@[simp] theorem RelEnv.port_path (env : RelEnv) (t : Target) (pp : Path) :
    (env.port t pp).path = pp := rfl

@[simp] theorem RelEnv.port_first (env : RelEnv) (t : Target) (pp : Path) :
    (env.port t pp).first = env.first pp := rfl

@[simp] theorem RelEnv.port_key (env : RelEnv) (t : Target) (pp : Path) :
    (env.port t pp).key = t.regOf (env.nexus pp) := rfl

theorem reached_cons_of_sent {allTgPt : Bool} {hosts : List ℤ} (port : Port) {ports : List Port}
    (h : port.path.isActive = true ∧
      (allTgPt && decide (port.path.hostNo ≠ -1) && hosts.contains port.path.hostNo) = false) :
    reached allTgPt hosts (port :: ports) = port :: reached allTgPt
      (hosts ++ [if port.first = .noThread then -1 else port.path.hostNo]) ports := by
  rw [reached, if_neg (by simp [h.1]), if_neg (by rw [h.2]; simp)]

theorem reached_cons_of_skipped {allTgPt : Bool} {hosts : List ℤ} (port : Port) {ports : List Port}
    (h : ¬ (port.path.isActive = true ∧
      (allTgPt && decide (port.path.hostNo ≠ -1) && hosts.contains port.path.hostNo) = false)) :
    reached allTgPt hosts (port :: ports) = reached allTgPt hosts ports := by
  rw [reached]
  cases hact : port.path.isActive with
  | false => rfl
  | true =>
    have hhost : (allTgPt && decide (port.path.hostNo ≠ -1) && hosts.contains port.path.hostNo) =
        true := by
      rw [← Bool.not_eq_false]
      exact fun hno => h ⟨hact, hno⟩
    rw [if_neg (by simp), if_pos hhost]

theorem reached_ports (env : RelEnv) (allTgPt : Bool) (t : Target) (hosts : List ℤ)
    (paths : List Path) : reached allTgPt hosts (paths.map (env.port t)) =
      ((reached allTgPt hosts (paths.map fun pp => { path := pp, first := env.first pp })).map
        Port.path).map (env.port t) := by
  induction paths generalizing hosts with
  | nil => rfl
  | cons pp paths ih =>
    rw [List.map_cons, List.map_cons]
    by_cases hsent : pp.isActive = true ∧
        (allTgPt && decide (pp.hostNo ≠ -1) && hosts.contains pp.hostNo) = false
    · rw [reached_cons_of_sent (env.port t pp) hsent,
        reached_cons_of_sent { path := pp, first := env.first pp } hsent, List.map_cons,
        List.map_cons, ← ih]
      rfl
    · rw [reached_cons_of_skipped (env.port t pp) hsent,
        reached_cons_of_skipped { path := pp, first := env.first pp } hsent]
      exact ih hosts

theorem flatten_ports (env : RelEnv) (t : Target) (pg : List (List Path)) :
    (env.ports t pg).flatten = pg.flatten.map (env.port t) := by
  rw [RelEnv.ports, List.map_flatten]

theorem mem_reached_ports (env : RelEnv) (allTgPtOn : Bool) (t : Target) (pg : List (List Path))
    (pp : Path) : env.port t pp ∈ reached allTgPtOn [] (env.ports t pg).flatten ↔
      pp ∈ env.reachedPaths allTgPtOn pg := by
  rw [flatten_ports, reached_ports]
  constructor
  · intro h
    obtain ⟨qq, hqq, heq⟩ := List.mem_map.mp h
    have hpath : qq = pp := congrArg Port.path heq
    rw [← hpath]
    exact hqq
  · intro h
    exact List.mem_map_of_mem h

/-- The reservation is gone, the registrations of the other initiators are there with the same keys,
and the usable paths that were registered have the key of the map. -/
structure Kept (env : RelEnv) (own : Key) (paths : List Path) (t t' : Target) : Prop where
  released : t'.holder = none
  others : ∀ r ∈ t.regs, r.nexus.initiator ∉ paths.map (fun pp => (env.nexus pp).initiator) →
    t'.regOf r.nexus = some r.key
  paths : ∀ pp ∈ paths, pp.isActive = true → t.regOf (env.nexus pp) ≠ none →
    t'.regOf (env.nexus pp) = registration own

/-- The release comes to an end, and if it returns success the registrations are kept. -/
def KeepsRegistrations (env : RelEnv) (allTgPtOn : Bool) (own : Key) (pg : List (List Path))
    (key : Key) (scopeType : Byte) (t : Target) : Prop :=
  ∃ status t', mpathProutRel env allTgPtOn own pg key scopeType t = .returned (status, t') ∧
    (status = .success → Kept env own pg.flatten t t')

section Condition
variable (env : RelEnv) (allTgPtOn : Bool) (own : Key) (pg : List (List Path)) (t : Target)

/-- CLEAR is answered, and it is let through. -/
def ClearAccepted : Prop :=
  env.clear = .answered ∧ ∃ n, env.sender pg = some n ∧ t.holds n own = true

/-- What is registered at a nexus when `mpath_prout_reg` comes to it. -/
def beforeOwn (n m : Nexus) : Registration :=
  restored n (replay own t.regs env.restore none).1 (replay own t.regs env.restore none).2 m

/-- The registrations of the own paths are all answered and let through. -/
def OwnAccepted (n : Nexus) : Prop :=
  ∀ pp ∈ env.reachedPaths allTgPtOn pg, env.first pp = .answered ∧
    beforeOwn env own t n (env.nexus pp) = none

/-- The other initiators are registered at the target port of the sender, and each of these
registrations is made again; no usable path that is registered is left out. -/
def AllMade (n : Nexus) : Prop :=
  (∀ r ∈ t.regs, r.nexus.initiator ∉ pg.flatten.map (fun pp => (env.nexus pp).initiator) →
    r.nexus.target = n.target ∧ r ∈ (replay own t.regs env.restore none).1) ∧
  ∀ pp ∈ pg.flatten, pp.isActive = true → t.regOf (env.nexus pp) ≠ none →
    pp ∈ env.reachedPaths allTgPtOn pg

/-- The condition: the release is given up before CLEAR has had its effect; or there are no more
registrations than the reply has room for, their transport IDs can be formatted, and either the
own paths are not registered again, or all registrations are made. -/
def Restorable : Prop :=
  mpathPrinActivepath env.readResv .dmmpError pg.flatten ≠ .success ∨
  mpathPrinActivepath env.readFull .dmmpError pg.flatten ≠ .success ∨
  (¬ ClearAccepted env own pg t ∧
    (t.regs.length ≤ 30 ∨ maxParamLen < t.statusData.length)) ∨
  t.regs.length ≤ 30 ∧ (∀ i r, t.regs[i]? = some r → Sendable own (env.restore i) r) ∧
    ∀ n, env.sender pg = some n → OwnAccepted env allTgPtOn own pg t n →
      AllMade env allTgPtOn own pg t n

end Condition

/-- RELEASE through paths that do not hold the reservation changes nothing. -/
theorem releaseAll_eq {env : RelEnv} {key : Key} {scopeType : Byte} {paths : List Path} {t : Target}
    (h : ∀ pp ∈ paths, pp.isActive = true → t.holder ≠ some (env.nexus pp)) :
    releaseAll env key scopeType paths t = t := by
  have hrelease : ∀ n, t.holder ≠ some n → (t.release n key scopeType).2 = t := by
    intro n hn
    unfold Target.release
    rw [if_pos hn]
    split <;> rfl
  induction paths with
  | nil => rfl
  | cons pp paths ih =>
    obtain ⟨hpp, hpaths⟩ := List.forall_mem_cons.mp h
    have hfirst : (if pp.isActive then
        ((env.release pp).outcome t (t.release (env.nexus pp) key scopeType)).2 else t) = t := by
      split
      · rename_i hact
        rw [Fate.outcome_target, hrelease _ (hpp hact)]
        split <;> rfl
      · rfl
    show releaseAll env key scopeType paths (if pp.isActive then
      ((env.release pp).outcome t (t.release (env.nexus pp) key scopeType)).2 else t) = t
    rw [hfirst]
    exact ih hpaths

/-- A path that is down holds the reservation, so no usable one does. -/
theorem idle_of_down {env : RelEnv} {pg : List (List Path)} {t : Target}
    (hnodup : (pg.flatten.map env.nexus).Nodup)
    (hdown : ∃ pp ∈ pg.flatten, pp.isActive = false ∧ t.holder = some (env.nexus pp)) :
    ∀ pp ∈ pg.flatten, pp.isActive = true → t.holder ≠ some (env.nexus pp) := by
  obtain ⟨pd, hpd, hinactive, hholder⟩ := hdown
  intro pp hpp hact h
  rw [hholder, Option.some.injEq] at h
  have hsame : pd = pp := List.inj_on_of_nodup_map hnodup hpd hpp h
  rw [← hsame, hinactive] at hact
  cases hact

theorem exists_active_of_success {status : Path → PrStatus} {ret : PrStatus} {paths : List Path}
    (hret : ret ≠ .success) (h : mpathPrinActivepath status ret paths = .success) :
    ∃ pp ∈ paths, pp.isActive = true := by
  by_contra hno
  apply hret
  rw [← h]
  clear h
  induction paths with
  | nil => rfl
  | cons pp paths ih =>
    have hpp : pp.isActive = false := by
      rw [← Bool.not_eq_true]
      exact fun hact => hno ⟨pp, List.mem_cons_self, hact⟩
    rw [mpathPrinActivepath, hpp]
    apply ih
    intro hex
    obtain ⟨qq, hqq, hact⟩ := hex
    exact hno ⟨qq, List.mem_cons_of_mem _ hqq, hact⟩

theorem replay_sublist (own : Key) (rs : List Reg) (fates : ℕ → Fate × Fate) (x : Registration) :
    (replay own rs fates x).1.Sublist rs := by
  induction rs generalizing fates x with
  | nil => exact List.Sublist.slnil
  | cons r rs ih =>
    rw [replay]
    dsimp only
    split
    · exact (ih _ _).cons_cons r
    · exact (ih _ _).cons r

/-- The key of the map is left to `mpath_prout_reg`. -/
theorem replay_ne_own (own : Key) (rs : List Reg) (fates : ℕ → Fate × Fate) {x : Registration}
    (hx : ∀ k ∈ x, k.1 ≠ own) : (∀ r ∈ (replay own rs fates x).1, r.key.1 ≠ own) ∧
      ∀ k ∈ (replay own rs fates x).2, k.1 ≠ own := by
  induction rs generalizing fates x with
  | nil => exact ⟨by simp [replay], hx⟩
  | cons r rs ih =>
    have hboth : ∀ k ∈ (if Made own (fates 0) r x then some r.key else x), k.1 ≠ own := by
      intro k hk
      by_cases hm : Made own (fates 0) r x
      · rw [if_pos hm] at hk
        cases hk
        exact hm.1
      · rw [if_neg hm] at hk
        exact hx k hk
    have hafter : ∀ k ∈ portAfter own (fates 0) r x, k.1 ≠ own := by
      unfold portAfter
      generalize (if Made own (fates 0) r x then some r.key else x) = y at hboth
      dsimp only
      split
      · simp
      · exact hboth
    obtain ⟨hmade, hleft⟩ := ih (fun i => fates (i + 1)) hafter
    rw [replay]
    refine ⟨?_, hleft⟩
    dsimp only
    split
    · rename_i hm
      rw [List.forall_mem_cons]
      exact ⟨hm.1, hmade⟩
    · exact hmade

theorem lastMade_eq_some {n m : Nexus} {made : List Reg} {k : {k : Key // k ≠ 0}}
    (h : lastMade n made m = some k) :
    ∃ r ∈ made, ⟨r.nexus.initiator, n.target⟩ = m ∧ r.key = k := by
  obtain ⟨r, hr, hk⟩ := Option.map_eq_some_iff.mp h
  obtain ⟨hmem, hnexus⟩ := List.mem_filter.mp (List.mem_of_getLast? hr)
  exact ⟨r, hmem, by simpa using hnexus, hk⟩

theorem lastMade_of_mem {n m : Nexus} {made : List Reg} {r : Reg} (hr : r ∈ made)
    (hm : ⟨r.nexus.initiator, n.target⟩ = m) :
    ∃ r' ∈ made, ⟨r'.nexus.initiator, n.target⟩ = m ∧ lastMade n made m = some r'.key := by
  cases hlast : lastMade n made m with
  | none =>
    have hnil := Option.map_eq_none_iff.mp hlast
    rw [List.getLast?_eq_none_iff, List.filter_eq_nil_iff] at hnil
    exact absurd hm (by simpa using hnil r hr)
  | some k =>
    obtain ⟨r', hr', hm', rfl⟩ := lastMade_eq_some hlast
    exact ⟨r', hr', hm', rfl⟩

section Kept
variable {env : RelEnv} {allTgPtOn : Bool} {own : Key} {pg : List (List Path)} {t : Target}
  {n : Nexus}

/-- The other registrations are there again iff each of them was at the target port of the sender,
and was made. -/
theorem others_iff (env : RelEnv) (own : Key) (t : Target) (hosts : List WireId)
    (hn : n.initiator ∈ hosts) :
    (∀ r ∈ t.regs, r.nexus.initiator ∉ hosts → beforeOwn env own t n r.nexus = some r.key) ↔
      ∀ r ∈ t.regs, r.nexus.initiator ∉ hosts →
        r.nexus.target = n.target ∧ r ∈ (replay own t.regs env.restore none).1 := by
  have hsub := (replay_sublist own t.regs env.restore none).subset
  have hbefore : ∀ r : Reg, r.nexus.initiator ∉ hosts → beforeOwn env own t n r.nexus =
      lastMade n (replay own t.regs env.restore none).1 r.nexus := by
    intro r hr
    have hne : r.nexus ≠ n := by
      intro h
      rw [h] at hr
      exact hr hn
    rw [beforeOwn, restored, if_neg hne]
  -- two registrations at the same nexus are the same one
  have hinj : ∀ r r' : Reg, r ∈ t.regs → r' ∈ t.regs → r.nexus = r'.nexus → r = r' :=
    fun r r' hr hr' h => List.inj_on_of_nodup_map t.nodup hr hr' h
  constructor
  · intro h
    have htarget : ∀ r ∈ t.regs, r.nexus.initiator ∉ hosts → r.nexus.target = n.target := by
      intro r hr hother
      have hlast := h r hr hother
      rw [hbefore r hother] at hlast
      obtain ⟨r', -, hnexus, -⟩ := lastMade_eq_some hlast
      rw [← hnexus]
    intro r hr hother
    refine ⟨htarget r hr hother, ?_⟩
    have hlast := h r hr hother
    rw [hbefore r hother] at hlast
    obtain ⟨r', hr', hnexus, -⟩ := lastMade_eq_some hlast
    have hinit : r'.nexus.initiator = r.nexus.initiator := by rw [← hnexus]
    have htarget' := htarget r' (hsub hr') (by rw [hinit]; exact hother)
    have hsame : r' = r := by
      apply hinj r' r (hsub hr') hr
      rw [← hnexus, ← htarget']
    rwa [← hsame]
  · intro h r hr hother
    obtain ⟨htarget, hmade⟩ := h r hr hother
    obtain ⟨r', hr', hnexus, hlast⟩ := lastMade_of_mem (n := n) (m := r.nexus) hmade
      (by rw [← htarget])
    have hinit : r'.nexus.initiator = r.nexus.initiator := by rw [← hnexus]
    have htarget' := (h r' (hsub hr') (by rw [hinit]; exact hother)).1
    have hsame : r' = r := by
      apply hinj r' r (hsub hr') hr
      rw [← hnexus, ← htarget']
    rw [hbefore r hother, hlast, hsame]

theorem beforeOwn_ne_own (hzero : own ≠ 0) (m : Nexus) :
    beforeOwn env own t n m ≠ registration own := by
  obtain ⟨hmade, hleft⟩ := replay_ne_own own t.regs env.restore (x := none) (by simp)
  have hown : registration own = some ⟨own, hzero⟩ := dif_pos hzero
  intro h
  rw [hown, beforeOwn, restored] at h
  split at h
  · exact hleft _ h rfl
  · obtain ⟨r, hr, -, hk⟩ := lastMade_eq_some h
    exact hmade r hr (by rw [hk])

theorem sender_mem (h : env.sender pg = some n) : ∃ pp ∈ pg.flatten, env.nexus pp = n := by
  obtain ⟨pp, hpp, hn⟩ := Option.map_eq_some_iff.mp h
  exact ⟨pp, List.mem_of_find?_eq_some hpp, hn⟩

/-- The registrations that the paths are left with, if `mpath_prout_reg` succeeds. -/
theorem regOf_after_own {t₁ : Target} (hnodup : (pg.flatten.map env.nexus).Nodup)
    (hsuccess : (mpathProutReg allTgPtOn (env.ports t₁ pg) .reg { saKey := own }).ports =
      (env.ports t₁ pg).flatten.map fun port =>
        if port ∈ reached allTgPtOn [] (env.ports t₁ pg).flatten then
          { port with key := registration own }
        else port) :
    (∀ pp ∈ pg.flatten, (env.writeBack t₁
        (mpathProutReg allTgPtOn (env.ports t₁ pg) .reg { saKey := own }).ports).regOf
          (env.nexus pp) =
        if pp ∈ env.reachedPaths allTgPtOn pg then registration own else t₁.regOf (env.nexus pp)) ∧
      ∀ m, (∀ pp ∈ pg.flatten, env.nexus pp ≠ m) → (env.writeBack t₁
        (mpathProutReg allTgPtOn (env.ports t₁ pg) .reg { saKey := own }).ports).regOf m =
          t₁.regOf m := by
  have hports : (mpathProutReg allTgPtOn (env.ports t₁ pg) .reg { saKey := own }).ports =
      pg.flatten.map fun pp =>
        if pp ∈ env.reachedPaths allTgPtOn pg then
          { env.port t₁ pp with key := registration own }
        else env.port t₁ pp := by
    have hmap : ∀ f : Port → Port, (env.ports t₁ pg).flatten.map f =
        pg.flatten.map fun pp => f (env.port t₁ pp) := by
      intro f
      rw [flatten_ports, List.map_map]
      rfl
    rw [hsuccess, hmap]
    apply List.map_congr_left
    intro pp _
    rw [if_congr (mem_reached_ports env allTgPtOn t₁ pg pp) rfl rfl]
  have hpath : ∀ pp, (if pp ∈ env.reachedPaths allTgPtOn pg then
      { env.port t₁ pp with key := registration own } else env.port t₁ pp).path = pp := by
    intro pp
    split <;> rfl
  rw [hports]
  constructor
  · intro pp hpp
    have hnodup' : ((pg.flatten.map fun pp =>
        if pp ∈ env.reachedPaths allTgPtOn pg then
          { env.port t₁ pp with key := registration own }
        else env.port t₁ pp).map fun port => env.nexus port.path).Nodup := by
      rw [List.map_map]
      convert hnodup using 2
      funext pp
      exact congrArg env.nexus (hpath pp)
    have hmem := regOf_writeBack_of_mem env t₁ hnodup' (List.mem_map_of_mem hpp)
    rw [hpath] at hmem
    rw [hmem]
    split <;> rfl
  · intro m hm
    apply regOf_writeBack_of_not_mem
    intro port hport
    obtain ⟨pp, hpp, rfl⟩ := List.mem_map.mp hport
    rw [hpath]
    exact hm pp hpp

/-- After the loop, everything is kept iff the own paths are not registered again, or all
registrations are made. -/
theorem kept_iff {t₁ : Target} (hnodup : (pg.flatten.map env.nexus).Nodup) (hzero : own ≠ 0)
    (hsender : env.sender pg = some n) (hactive : ∃ pp ∈ pg.flatten, pp.isActive = true)
    (ht₁ : Tracks n (replay own t.regs env.restore none).1
      (replay own t.regs env.restore none).2 t₁) :
    ((mpathProutReg allTgPtOn (env.ports t₁ pg) .reg { saKey := own }).status = .success →
        Kept env own pg.flatten t (env.writeBack t₁
          (mpathProutReg allTgPtOn (env.ports t₁ pg) .reg { saKey := own }).ports)) ↔
      (OwnAccepted env allTgPtOn own pg t n → AllMade env allTgPtOn own pg t n) := by
  have hnodup' : (env.ports t₁ pg).flatten.Nodup := by
    rw [flatten_ports]
    exact hnodup.of_map.map fun pp qq h => congrArg Port.path h
  have hactive' : ∃ port ∈ (env.ports t₁ pg).flatten, port.path.isActive = true := by
    obtain ⟨pp, hpp, hact⟩ := hactive
    rw [flatten_ports]
    exact ⟨_, List.mem_map_of_mem hpp, hact⟩
  obtain ⟨hstatus, hports⟩ := mpathProutReg_success allTgPtOn own hnodup' hactive'
  have haccepted : (mpathProutReg allTgPtOn (env.ports t₁ pg) .reg { saKey := own }).status =
      .success ↔ OwnAccepted env allTgPtOn own pg t n := by
    rw [hstatus, flatten_ports, reached_ports, List.forall_mem_map]
    apply forall₂_congr
    intro pp _
    rw [RelEnv.port_first, RelEnv.port_key, ht₁.regOf_eq]
    rfl
  rw [← haccepted]
  apply imp_congr_right
  intro hsuccess
  obtain ⟨hown, hother⟩ := regOf_after_own hnodup (hports hsuccess)
  obtain ⟨pn, hpn, hpnexus⟩ := sender_mem hsender
  have hothers := others_iff env own t
    (pg.flatten.map fun pp => (env.nexus pp).initiator)
    (List.mem_map.mpr ⟨pn, hpn, by rw [hpnexus]⟩)
  unfold AllMade
  rw [← hothers]
  constructor
  · intro hkept
    constructor
    · intro r hr hinit
      rw [beforeOwn, ← ht₁.regOf_eq, ← hother r.nexus]
      · exact hkept.others r hr hinit
      · intro pp hpp heq
        exact hinit (List.mem_map.mpr ⟨pp, hpp, by rw [heq]⟩)
    · intro pp hpp hact hreg
      by_contra hskip
      have hkey := hkept.paths pp hpp hact hreg
      rw [hown pp hpp, if_neg hskip, ht₁.regOf_eq] at hkey
      exact beforeOwn_ne_own hzero (env.nexus pp) hkey
  · intro h
    refine ⟨holder_writeBack env t₁ _ ht₁.holder_eq, ?_, ?_⟩
    · intro r hr hinit
      rw [hother r.nexus, ht₁.regOf_eq]
      · exact h.1 r hr hinit
      · intro pp hpp heq
        exact hinit (List.mem_map.mpr ⟨pp, hpp, by rw [heq]⟩)
    · intro pp hpp hact hreg
      rw [hown pp hpp, if_pos (h.2 pp hpp hact hreg)]

/-- What CLEAR through the sender comes to. -/
theorem sendClear_success (hsender : env.sender pg = some n) :
    ((sendClear env own pg t).1 = .success ↔ ClearAccepted env own pg t) ∧
      (ClearAccepted env own pg t → sendClear env own pg t = (.success, t.cleared)) := by
  have haccepted : ClearAccepted env own pg t ↔ env.clear = .answered ∧ t.holds n own = true := by
    unfold ClearAccepted
    rw [hsender]
    simp
  rw [haccepted]
  unfold sendClear
  rw [hsender]
  dsimp only
  unfold Target.clear Fate.outcome
  cases env.clear with
  | noThread => simp
  | failed status applied => simp [status.2.1]
  | answered => cases t.holds n own <;> simp

theorem own_registered (hsender : env.sender pg = some n) (h : ClearAccepted env own pg t) :
    ∃ hzero : own ≠ 0, ⟨n, own, hzero⟩ ∈ t.regs := by
  obtain ⟨-, m, hm, hholds⟩ := h
  cases hsender.symm.trans hm
  obtain ⟨hzero, hreg⟩ : own ≠ 0 ∧ t.regOf n = registration own := by
    simpa [Target.holds] using hholds
  refine ⟨hzero, ?_⟩
  rw [← Target.regOf_eq_some_iff, hreg, registration, dif_pos hzero]

/-- The release from CLEAR on, if the descriptors have been decoded. -/
theorem restoreAll_keeps_iff (allTgPtOn : Bool) {ds : List Fulldescr}
    (hnodup : (pg.flatten.map env.nexus).Nodup) (hsender : env.sender pg = some n)
    (hactive : ∃ pp ∈ pg.flatten, pp.isActive = true) (hds : List.Forall₂ Describes t.regs ds)
    (hfew : ds.length ≤ 30) (haccept : ClearAccepted env own pg t) :
    (∃ status t', restoreAll env allTgPtOn own pg (BitVec.ofNat 32 ds.length) ds
        (sendClear env own pg t) = .returned (status, t') ∧
          (status = .success → Kept env own pg.flatten t t')) ↔
      (∀ i r, t.regs[i]? = some r → Sendable own (env.restore i) r) ∧
        (OwnAccepted env allTgPtOn own pg t n → AllMade env allTgPtOn own pg t n) := by
  obtain ⟨hzero, hreg⟩ := own_registered hsender haccept
  have hrounds : (BitVec.ofNat 32 ds.length).toInt.toNat = ds.length := by
    rw [BitVec.toInt_ofNat', Int.bmod_eq_of_le] <;> omega
  have hempty : Tracks n [] none t.cleared := by
    refine ⟨rfl, ?_⟩
    intro m
    rw [Target.regOf_cleared, restored]
    split <;> rfl
  obtain ⟨hsome, hrun⟩ := restoreLoop_tracks hzero hds
    (s := { target := t.cleared }) hempty
  rw [(sendClear_success hsender).2 haccept]
  unfold restoreAll
  rw [if_neg (not_not.mpr rfl), hsender, hrounds]
  dsimp only
  cases hloop : restoreLoop own (some n) ds.length ds env.restore { target := t.cleared } with
  | none =>
    rw [hloop] at hsome
    apply iff_of_false
    · intro h
      obtain ⟨_, _, h, -⟩ := h
      cases h
    · intro h
      simpa using hsome.mpr h.1
  | some s =>
    rw [hloop] at hsome
    obtain ⟨htracks, hfound⟩ := hrun s hloop
    rw [List.nil_append] at htracks
    rw [and_iff_right (hsome.mp rfl),
      ← kept_iff hnodup hzero hsender hactive htracks]
    dsimp only
    rw [if_pos (hfound.mpr (.inr ⟨_, hreg, rfl⟩))]
    constructor
    · intro h
      obtain ⟨_, _, h, hkept⟩ := h
      cases h
      exact hkept
    · intro h
      exact ⟨_, _, rfl, h⟩

/-- Without descriptors, the registrations are lost. -/
theorem restoreAll_nil (allTgPtOn : Bool) (num : BitVec 32) (hsender : env.sender pg = some n)
    (haccept : ClearAccepted env own pg t) :
    ¬ ∃ status t', restoreAll env allTgPtOn own pg num [] (sendClear env own pg t) =
      .returned (status, t') ∧ (status = .success → Kept env own pg.flatten t t') := by
  obtain ⟨hzero, hreg⟩ := own_registered hsender haccept
  obtain ⟨pp, hpp, hn⟩ := Option.map_eq_some_iff.mp hsender
  have hact : pp.isActive = true := List.find?_some hpp
  rw [(sendClear_success hsender).2 haccept]
  unfold restoreAll
  rw [if_neg (not_not.mpr rfl)]
  intro h
  obtain ⟨status, t', h, hkept⟩ := h
  cases hnum : num.toInt.toNat with
  | zero =>
    rw [hnum] at h
    have hret : (PrStatus.success, t.cleared) = (status, t') := Outcome.returned.inj h
    cases hret
    have hpath := (hkept rfl).paths pp (List.mem_of_find?_eq_some hpp) hact (by
      rw [hn, Target.regOf_eq_some_iff.mpr hreg]
      exact Option.some_ne_none _)
    rw [Target.regOf_cleared, registration, dif_pos hzero] at hpath
    cases hpath
  | succ m =>
    rw [hnum] at h
    cases h

end Kept

section Read
variable {env : RelEnv} {own : Key} {pg : List (List Path)} {t : Target}

/-- If another path holds the reservation and the target is read, the release comes to the
descriptors of the reply. -/
theorem mpathProutRel_read (allTgPtOn : Bool) (own key : Key) (scopeType : Byte)
    (hnodup : (pg.flatten.map env.nexus).Nodup)
    (hdown : ∃ pp ∈ pg.flatten, pp.isActive = false ∧ t.holder = some (env.nexus pp))
    (hresv : mpathPrinActivepath env.readResv .dmmpError pg.flatten = .success)
    (hfull : mpathPrinActivepath env.readFull .dmmpError pg.flatten = .success) :
    mpathProutRel env allTgPtOn own pg key scopeType t =
      match mpathFormatReadfullstatus mxTids t.fullStatus with
      | .running => .running
      | .fault => .fault
      | .returned (num, ds) =>
        if num = 0 then .returned (.success, t)
        else restoreAll env allTgPtOn own pg num ds (sendClear env own pg t) := by
  have hidle := idle_of_down hnodup hdown
  have hheld : t.holder ≠ none := by
    obtain ⟨pd, -, -, hholder⟩ := hdown
    rw [hholder]
    exact Option.some_ne_none _
  unfold mpathProutRel
  simp only [releaseAll_eq hidle]
  rw [if_neg (not_not.mpr hresv), if_neg hheld]
  exact (if_neg (not_not.mpr hfull)).trans rfl

theorem regs_ne_nil_of_down
    (hdown : ∃ pp ∈ pg.flatten, pp.isActive = false ∧ t.holder = some (env.nexus pp)) :
    t.regs ≠ [] := by
  obtain ⟨pd, -, -, hholder⟩ := hdown
  have hmem := t.holder_registered _ hholder
  intro hnil
  rw [hnil] at hmem
  cases hmem

theorem ofNat_ne_zero {m : ℕ} (hpos : 0 < m) (hlt : m < 2 ^ 32) : BitVec.ofNat 32 m ≠ 0 := by
  rw [ne_eq, ← BitVec.toNat_inj, BitVec.toNat_ofNat, Nat.mod_eq_of_lt hlt]
  exact Nat.ne_of_gt hpos

/-- The descriptors of up to thirty registrations. -/
theorem mpathProutRel_few (allTgPtOn : Bool) (own key : Key) (scopeType : Byte)
    (hnodup : (pg.flatten.map env.nexus).Nodup)
    (hdown : ∃ pp ∈ pg.flatten, pp.isActive = false ∧ t.holder = some (env.nexus pp))
    (hlen : t.statusData.length < 2 ^ 32)
    (hresv : mpathPrinActivepath env.readResv .dmmpError pg.flatten = .success)
    (hfull : mpathPrinActivepath env.readFull .dmmpError pg.flatten = .success)
    (hfew : t.regs.length ≤ 30) :
    ∃ ds, List.Forall₂ Describes t.regs ds ∧ mpathProutRel env allTgPtOn own pg key scopeType t =
      restoreAll env allTgPtOn own pg (BitVec.ofNat 32 ds.length) ds (sendClear env own pg t) := by
  obtain ⟨ds, hds, hdescribes⟩ := (mpathFormatReadfullstatus_fullStatus t hlen).1 hfew
  have hdslen := hdescribes.length_eq
  have hpos := List.length_pos_iff.mpr (regs_ne_nil_of_down hdown)
  refine ⟨ds, hdescribes, ?_⟩
  rw [mpathProutRel_read allTgPtOn own key scopeType hnodup hdown hresv hfull, hds]
  dsimp only
  rw [if_neg (ofNat_ne_zero (by omega) (by omega))]

theorem exists_sender (hresv : mpathPrinActivepath env.readResv .dmmpError pg.flatten = .success) :
    ∃ n, env.sender pg = some n := by
  obtain ⟨pp, hpp, hact⟩ := exists_active_of_success (by decide) hresv
  obtain ⟨qq, hqq⟩ := Option.isSome_iff_exists.mp
    (List.find?_isSome (p := Path.isActive).mpr ⟨pp, hpp, hact⟩)
  exact ⟨env.nexus qq, by rw [RelEnv.sender, hqq, Option.map_some]⟩

end Read

/-- The release keeps the registrations exactly if they can be restored. -/
theorem keepsRegistrations_iff (env : RelEnv) (allTgPtOn : Bool) (own : Key) (pg : List (List Path))
    (key : Key) (scopeType : Byte) (t : Target) (hnodup : (pg.flatten.map env.nexus).Nodup)
    (hdown : ∃ pp ∈ pg.flatten, pp.isActive = false ∧ t.holder = some (env.nexus pp))
    (hlen : t.statusData.length < 2 ^ 32) :
    KeepsRegistrations env allTgPtOn own pg key scopeType t ↔
      Restorable env allTgPtOn own pg t := by
  have hidle := idle_of_down hnodup hdown
  unfold KeepsRegistrations Restorable
  by_cases hresv : mpathPrinActivepath env.readResv .dmmpError pg.flatten = .success
  swap
  · refine iff_of_true ⟨.other, t, ?_, fun h => by cases h⟩ (.inl hresv)
    unfold mpathProutRel
    simp only [releaseAll_eq hidle]
    rw [if_pos hresv]
  by_cases hfull : mpathPrinActivepath env.readFull .dmmpError pg.flatten = .success
  swap
  · refine iff_of_true ⟨_, t, ?_, fun h => absurd h hfull⟩ (.inr (.inl hfull))
    have hheld : t.holder ≠ none := by
      obtain ⟨pd, -, -, hholder⟩ := hdown
      rw [hholder]
      exact Option.some_ne_none _
    unfold mpathProutRel
    simp only [releaseAll_eq hidle]
    rw [if_neg (not_not.mpr hresv), if_neg hheld, if_pos hfull]
  obtain ⟨n, hsender⟩ := exists_sender hresv
  have hactive := exists_active_of_success (by decide) hresv
  obtain ⟨hclear, -⟩ := sendClear_success (t := t) hsender
  have hgiveUp : ∀ num ds, ¬ ClearAccepted env own pg t →
      ∃ status t', restoreAll env allTgPtOn own pg num ds (sendClear env own pg t) =
        .returned (status, t') ∧ (status = .success → Kept env own pg.flatten t t') := by
    intro num ds haccept
    have hfailed := mt hclear.mp haccept
    exact ⟨_, _, if_pos hfailed, fun h => absurd h hfailed⟩
  by_cases hfew : t.regs.length ≤ 30
  · obtain ⟨ds, hds, hrel⟩ := mpathProutRel_few allTgPtOn own key scopeType hnodup hdown hlen hresv
      hfull hfew
    have hdslen := hds.length_eq
    rw [hrel]
    by_cases haccept : ClearAccepted env own pg t
    · rw [restoreAll_keeps_iff allTgPtOn hnodup hsender hactive hds (by omega) haccept]
      simp [hresv, hfull, haccept, hfew, hsender]
    · exact iff_of_true (hgiveUp _ _ haccept) (.inr (.inr (.inl ⟨haccept, .inl hfew⟩)))
  obtain ⟨-, hfault, hlong⟩ := mpathFormatReadfullstatus_fullStatus t hlen
  rw [mpathProutRel_read allTgPtOn own key scopeType hnodup hdown hresv hfull]
  by_cases hshort : t.statusData.length ≤ maxParamLen
  · rw [hfault (by omega) hshort]
    apply iff_of_false
    · intro h
      obtain ⟨_, _, h, -⟩ := h
      cases h
    · simp [hresv, hfull, hfew, hshort]
  · rw [hlong (by omega)]
    dsimp only
    rw [if_neg (ofNat_ne_zero (by omega) hlen)]
    by_cases haccept : ClearAccepted env own pg t
    · apply iff_of_false (restoreAll_nil allTgPtOn _ hsender haccept)
      simp [hresv, hfull, hfew, haccept]
    · exact iff_of_true (hgiveUp _ _ haccept) (.inr (.inr (.inl ⟨haccept, .inr (by omega)⟩)))

/-- A host with a path up at target port 1 and a path down at target port 2, which holds the
reservation. -/
def twoPaths : List (List Path) := [[{ state := .up }, { state := .down }]]

def twoPortsEnv : RelEnv where
  nexus pp := ⟨.fc ⟨[0, 0, 0, 0, 0, 0, 0, 1], rfl⟩, if pp.isActive then 1 else 2⟩

/-- Both paths are registered with the key 5, and another host with the key 7. -/
def twoHosts (port : BitVec 16) : Target where
  regs := [⟨⟨.fc ⟨[0, 0, 0, 0, 0, 0, 0, 1], rfl⟩, 1⟩, 5, by decide⟩,
    ⟨⟨.fc ⟨[0, 0, 0, 0, 0, 0, 0, 1], rfl⟩, 2⟩, 5, by decide⟩,
    ⟨⟨.fc ⟨[0, 0, 0, 0, 0, 0, 0, 2], rfl⟩, port⟩, 7, by decide⟩]
  holder := some ⟨.fc ⟨[0, 0, 0, 0, 0, 0, 0, 1], rfl⟩, 2⟩
  scopeType := 1
  nodup := by simp
  holder_registered := by simp

theorem twoHosts_statusData (port : BitVec 16) : (twoHosts port).statusData.length < 2 ^ 32 := by
  have hlen : (twoHosts port).statusData.length = 144 := by
    simp [Target.statusData, Target.statusDescriptor, twoHosts, WireId.image]
  omega

/-- The other host is registered at the target port of the usable path. -/
theorem keepsRegistrations_samePort :
    KeepsRegistrations twoPortsEnv false 5 twoPaths 5 1 (twoHosts 1) := by
  apply (keepsRegistrations_iff _ _ _ _ _ _ _ (by decide) ⟨{ state := .down }, by decide⟩
    (twoHosts_statusData 1)).mpr
  right; right; right
  refine ⟨by decide, ?_, ?_⟩
  · intro i r hr
    apply Or.inr
    apply Or.inr
    have hall : ∀ r ∈ (twoHosts 1).regs, r.nexus.initiator.Formattable := by decide
    exact hall r (List.mem_of_getElem? hr)
  · intro n hn
    cases hn
    intro _
    unfold AllMade
    decide

/-- The other host is registered at the other target port. -/
theorem keepsRegistrations_otherPort_fails :
    ¬ ∀ (env : RelEnv) (allTgPtOn : Bool) (own : Key) (pg : List (List Path)) (key : Key)
      (scopeType : Byte) (t : Target), (pg.flatten.map env.nexus).Nodup →
      (∃ pp ∈ pg.flatten, pp.isActive = false ∧ t.holder = some (env.nexus pp)) →
      t.statusData.length < 2 ^ 32 → KeepsRegistrations env allTgPtOn own pg key scopeType t := by
  intro h
  have hlen := twoHosts_statusData 2
  have hkeeps := h twoPortsEnv false 5 twoPaths 5 1 (twoHosts 2) (by decide)
    ⟨{ state := .down }, by decide⟩ hlen
  have hnodup : (twoPaths.flatten.map twoPortsEnv.nexus).Nodup := by decide
  have hresv : mpathPrinActivepath twoPortsEnv.readResv .dmmpError twoPaths.flatten = .success := by
    decide
  obtain ⟨ds, hds, hrel⟩ := mpathProutRel_few false 5 5 1 (t := twoHosts 2) hnodup
    ⟨{ state := .down }, by decide⟩ hlen hresv (by decide) (by decide)
  unfold KeepsRegistrations at hkeeps
  rw [hrel, restoreAll_keeps_iff false (by decide) rfl ⟨{ state := .up }, by decide⟩ hds
    (by rw [← hds.length_eq]; decide) ⟨rfl, _, rfl, by decide⟩] at hkeeps
  have haccepted : OwnAccepted twoPortsEnv false 5 twoPaths (twoHosts 2)
      (twoPortsEnv.nexus { state := .up }) := by
    unfold OwnAccepted
    decide
  have hmade := (hkeeps.2 haccepted).1 ⟨⟨.fc ⟨[0, 0, 0, 0, 0, 0, 0, 2], rfl⟩, 2⟩, 7, by decide⟩
  revert hmade
  decide

end MultipathTools.Persist
