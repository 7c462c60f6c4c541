import MultipathTools.Base.Run
import MultipathTools.Checkers.DirectioAccounts

/-! The directio checker over all sequences of calls: the accounts of the aio groups balance in every
state that is reached, and a completion concerns no other checker's request. -/
namespace MultipathTools.Directio

variable {w w' : World} {g : AioGroup} {ct : DirectioContext} {grp c r : ℕ}

/-- `set_aio_group` takes a group with room, which it may have added. -/
theorem setAioGroup_cases (h : Inv w) {setup : Bool} (hset : setAioGroup w setup = some (grp, w')) :
    ∃ w₀ : World, Inv w₀ ∧ w₀.contexts = w.contexts ∧ w₀.reqs = w.reqs ∧
      w₀.allocated = w.allocated ∧ w' = w₀.hold grp ∧
      ∃ g ∈ w₀.aioGrpList, g.ioctx = grp ∧ g.holders < aioGroupSize := by
  unfold setAioGroup at hset
  split at hset
  case h_1 g hfind =>
    cases hset
    have hroom : g.holders < aioGroupSize := by simpa using List.find?_some hfind
    exact ⟨w, h, rfl, rfl, rfl, rfl, g, List.mem_of_find?_eq_some hfind, rfl, hroom⟩
  case h_2 =>
    split at hset
    · cases hset
      refine ⟨addAioGroup w, ⟨h.toAccounts.add, ?_⟩, rfl, rfl, rfl, rfl, _, List.mem_cons_self, rfl,
        Int.natCast_pos.mpr (by decide)⟩
      intro g hg
      rcases List.mem_cons.mp hg with rfl | hg
      · exact (by decide : 0 < aioGroupSize)
      · exact h.usable g hg
    · cases hset

theorem putGroup_hold (w : World) (grp : ℕ) :
    ((w.hold grp).putGroup grp).aioGrpList = w.aioGrpList := by
  have hkeep : ∀ g : AioGroup, { g with holders := g.holders + 1 }.ioctx = g.ioctx := fun _ => rfl
  refine (updateKey_updateKey hkeep).trans ?_
  have hid : ((fun g => { g with holders := g.holders - 1 }) ∘
      fun g : AioGroup => { g with holders := g.holders + 1 }) = id := by
    funext g
    exact congrArg (fun n => { g with holders := n }) (add_sub_cancel_right g.holders 1)
  rw [hid, updateKey_id]

theorem usable_updateGroup {f : AioGroup → AioGroup}
    (hf : ∀ g, (f g).orphans.length ≤ g.orphans.length)
    (h : ∀ g ∈ w.aioGrpList, g.orphans.length < aioGroupSize) :
    ∀ g ∈ (w.updateGroup grp f).aioGrpList, g.orphans.length < aioGroupSize := by
  intro b hb
  obtain ⟨g, hg, rfl⟩ := mem_updateGroup hb
  split_ifs
  · exact (hf g).trans_lt (h g hg)
  · exact h g hg

theorem setMsgid_if (p : Prop) [Decidable p] (m : Msgid) : (if p then w.setMsgid c m else w) =
    { w with msgids := if p then Function.update w.msgids c m else w.msgids } := by
  split_ifs <;> rfl

/-- A failing `libcheck_init` gives back its hold on the group. -/
theorem inv_of_put (h : Inv w) {w₁ : World} (hw : w₁ = { w with
      allocated := w₁.allocated
      reqs := w₁.reqs
      msgids := w₁.msgids })
    (hinv : Accounts w₁) : Inv ((w₁.hold grp).putGroup grp) := by
  have hput : (w₁.hold grp).putGroup grp = w₁ :=
    congrArg (fun l => { w₁ with aioGrpList := l }) (putGroup_hold w₁ grp)
  rw [hput]
  exact ⟨hinv, hw ▸ h.usable⟩

/-- `libcheck_init` keeps the invariant, and the requests that there are. -/
theorem libcheckInit_spec (h : Inv w) (hc : c ∉ w.contexts.map DirectioContext.checker)
    (env : InitEnv) : Inv (libcheckInit w c env).1 ∧
      ∀ r < w.allocated, (libcheckInit w c env).1.reqs r = w.reqs r := by
  unfold libcheckInit
  split
  case isFalse => exact ⟨h, fun _ _ => rfl⟩
  case isTrue =>
    split
    case h_1 => exact ⟨h, fun _ _ => rfl⟩
    case h_2 grp w₁ hset =>
      obtain ⟨w₀, hinv, hcontexts, hreqs, hallocated, rfl, g, hg, rfl, hroom⟩ :=
        setAioGroup_cases h hset
      rw [← hcontexts] at hc
      rw [← hreqs, ← hallocated]
      have hne : ∀ q, ∀ r < w₀.allocated, Function.update w₀.reqs w₀.allocated q r = w₀.reqs r :=
        fun q r hr => Function.update_of_ne hr.ne q w₀.reqs
      have hfreed : (w₀.reqs w₀.allocated).freed = 0 := by
        have hr := hinv.freed w₀.allocated
        rw [if_neg (lt_irrefl _)] at hr
        omega
      simp only [setMsgid_if]
      split
      case isFalse =>
        exact ⟨inv_of_put hinv rfl hinv.toAccounts, fun _ _ => rfl⟩
      case isTrue =>
        split
        case isTrue =>
          refine ⟨⟨?_, ?_⟩, hne _⟩
          · refine hinv.toAccounts.adopt hg hroom hc ?_ ?_ _
            · exact hfreed
            · exact nofun
          · exact usable_updateGroup (w := w₀) (fun _ => le_rfl) hinv.usable
        case isFalse =>
          refine ⟨?_, ?_⟩
          · refine @inv_of_put _ _ hinv (World.freeReq { w₀ with
              allocated := w₀.allocated + 1
              reqs := Function.update w₀.reqs w₀.allocated _
              msgids := _ } w₀.allocated) rfl ?_
            apply hinv.toAccounts.malloc_free
            exact hfreed
          · intro r hr
            refine (Function.update_of_ne hr.ne _ _).trans ?_
            exact hne _ r hr

theorem find?_checker (h : Accounts w) :
    (w.contexts.find? fun ct => ct.checker = c) = some ct ↔ ct ∈ w.contexts ∧ ct.checker = c := by
  constructor
  · intro hfind
    exact ⟨List.mem_of_find?_eq_some hfind, key_eq_of_find? hfind⟩
  · rintro ⟨hct, rfl⟩
    exact find?_key h.checkers hct

/-- The removal of a group without a context commutes with the removal of a context. -/
theorem checkOrphanedGroup_dropContext (w : World) (grp c : ℕ) :
    (checkOrphanedGroup w grp).dropContext c = checkOrphanedGroup (w.dropContext c) grp := by
  cases hfind : w.aioGrpList.find? fun g => g.ioctx = grp with
  | none =>
    have hdrop : ((w.dropContext c).aioGrpList.find? fun g => g.ioctx = grp) = none := hfind
    rw [checkOrphanedGroup, checkOrphanedGroup, hfind, hdrop]
  | some g =>
    have hdrop : ((w.dropContext c).aioGrpList.find? fun g => g.ioctx = grp) = some g := hfind
    rw [checkOrphanedGroup, checkOrphanedGroup, hfind, hdrop]
    dsimp only
    split_ifs
    · rfl
    · rw [removeAioGroup_eq, removeAioGroup_eq]
      rfl
    · rfl

/-- After the check no group is full of orphans. -/
theorem checkOrphanedGroup_inv (h : Accounts w)
    (husable : ∀ g ∈ w.aioGrpList, g.ioctx ≠ grp → g.orphans.length < aioGroupSize) :
    Inv (checkOrphanedGroup w grp) := by
  unfold checkOrphanedGroup
  split
  case h_1 hnone =>
    refine ⟨h, fun g hg => husable g hg fun heq => ?_⟩
    have hno := List.find?_eq_none.mp hnone g hg
    exact hno (decide_eq_true heq)
  case h_2 g hfind =>
    have hg := List.mem_of_find?_eq_some hfind
    have hkey : g.ioctx = grp := key_eq_of_find? hfind
    have hinv (hroom : g.orphans.length < aioGroupSize) : Inv w := by
      refine ⟨h, fun g' hg' => ?_⟩
      by_cases heq : g'.ioctx = g.ioctx
      · rw [List.inj_on_of_nodup_map h.groups hg' hg heq]
        exact hroom
      · exact husable g' hg' (hkey ▸ heq)
    split_ifs with hroom hfull
    · refine hinv ?_
      have hholders := h.holders g hg
      omega
    · refine ⟨h.remove hg hfull, ?_⟩
      intro g' hg'
      rw [removeAioGroup_eq] at hg'
      obtain ⟨hmem, hne⟩ := mem_others.mp hg'
      exact husable g' hmem (hkey ▸ hne)
    · exact hinv (not_le.mp hfull)

/-- `libcheck_free` keeps the invariant. -/
theorem libcheckFree_inv (h : Inv w) (c : ℕ) (cancelled : Bool) :
    Inv (libcheckFree w c cancelled) := by
  unfold libcheckFree
  split
  case h_1 => exact h
  case h_2 ct hfind =>
    obtain ⟨hct, rfl⟩ := (find?_checker h.toAccounts).mp hfind
    obtain ⟨-, hio⟩ := h.running ct hct
    dsimp only
    by_cases hpending : ct.running ≠ 0 ∧ (w.reqs ct.req).state = .pending
    · by_cases hcancelled : cancelled = true
      · rw [if_neg fun hand => hand.2 hcancelled, if_pos hpending]
        refine ⟨h.toAccounts.release hct (h.once.erase ct.io) ?_ ?_, ?_⟩
        · exact fun io hne => List.mem_erase_of_ne hne
        · exact h.once.not_mem_erase
        · exact usable_updateGroup (w := w) (fun _ => le_rfl) h.usable
      · rw [if_pos ⟨hpending, hcancelled⟩]
        rw [checkOrphanedGroup_dropContext]
        refine checkOrphanedGroup_inv (h.toAccounts.orphan hct (hio.mpr hpending)) ?_
        intro b hb hne
        obtain ⟨g, hg, rfl⟩ := mem_updateGroup (w := w) hb
        split_ifs at hne ⊢ with heq
        · exact absurd heq hne
        · exact h.usable g hg
    · rw [if_neg fun hand => hpending hand.1, if_neg hpending]
      refine ⟨h.toAccounts.release hct h.once (fun _ _ => Iff.rfl) ?_, ?_⟩
      · exact fun hmem => hpending (hio.mp hmem)
      · exact usable_updateGroup (w := w) (fun _ => le_rfl) h.usable

theorem checkOrphanedGroup_reqs (w : World) (grp : ℕ) (hr : ∀ g ∈ w.aioGrpList, r ∉ g.orphans) :
    (checkOrphanedGroup w grp).reqs r = w.reqs r := by
  unfold checkOrphanedGroup
  split
  case h_1 => rfl
  case h_2 g hfind =>
    split_ifs
    · rfl
    · rw [removeAioGroup_eq]
      show { w.reqs r with freed := (w.reqs r).freed + g.orphans.count r } = w.reqs r
      rw [List.count_eq_zero.mpr (hr g (List.mem_of_find?_eq_some hfind))]
      rfl
    · rfl

/-- The requests that other checkers own are out of reach for `libcheck_free`. -/
theorem libcheckFree_reqs (h : Inv w) (c : ℕ) (cancelled : Bool) (hct : ct ∈ w.contexts)
    (hc : ct.checker ≠ c) : (libcheckFree w c cancelled).reqs ct.req = w.reqs ct.req := by
  unfold libcheckFree
  split
  case h_1 => rfl
  case h_2 ct' hfind =>
    obtain ⟨hct', rfl⟩ := (find?_checker h.toAccounts).mp hfind
    have hne : ct.req ≠ ct'.req := fun hreq => hc (h.req_inj hct hct' hreq ▸ rfl)
    dsimp only
    split_ifs with hleave hpending
    · refine (checkOrphanedGroup_reqs _ ct'.aioGrp ?_).trans (setState_of_ne hne)
      intro b hb
      obtain ⟨g, hg, rfl⟩ := mem_updateGroup (w := w) hb
      have hnot := h.req_not_mem_orphans hct hg
      split_ifs
      · exact List.not_mem_cons_of_ne_of_not_mem hne hnot
      · exact hnot
    · exact Function.update_of_ne hne _ _
    · exact Function.update_of_ne hne _ _

/-- A request after some completions: as before, if none is for it, and with the state that one of
them tells otherwise. -/
def Settled (r : ℕ) (xs : List Completion) (w w' : World) : Prop :=
  ((∀ x ∈ xs, x.req ≠ r) ∧ w'.reqs r = w.reqs r) ∨
    ∃ x ∈ xs, x.req = r ∧ w'.reqs r = { w.reqs r with state := outcome (w.reqs r) x.res }

theorem Settled.trans {xs ys : List Completion} {w₁ w₂ w₃ : World} (h : Settled r xs w₁ w₂)
    (h' : Settled r ys w₂ w₃) : Settled r (xs ++ ys) w₁ w₃ := by
  rcases h' with ⟨hnone', heq'⟩ | ⟨y, hy, hr, heq'⟩
  · rcases h with ⟨hnone, heq⟩ | ⟨x, hx, hr, heq⟩
    · refine .inl ⟨fun x hx => ?_, heq'.trans heq⟩
      rcases List.mem_append.mp hx with hx | hx
      · exact hnone x hx
      · exact hnone' x hx
    · exact .inr ⟨x, List.mem_append_left _ hx, hr, heq'.trans heq⟩
  · refine .inr ⟨y, List.mem_append_right _ hy, hr, heq'.trans ?_⟩
    rcases h with ⟨-, heq⟩ | ⟨x, -, -, heq⟩
    · rw [heq]
    · rw [heq]
      rfl

/-- What delivering completions keeps. -/
structure Polled (w : World) (xs : List Completion) (w' : World) : Prop where
  inv : Inv w'
  contexts : w'.contexts = w.contexts
  settled : ∀ ct ∈ w.contexts, Settled ct.req xs w w'

theorem Polled.refl (h : Inv w) : Polled w [] w :=
  ⟨h, rfl, fun _ _ => .inl ⟨fun _ hx => absurd hx List.not_mem_nil, rfl⟩⟩

theorem Polled.trans {xs ys : List Completion} {w₁ w₂ w₃ : World} (h : Polled w₁ xs w₂)
    (h' : Polled w₂ ys w₃) : Polled w₁ (xs ++ ys) w₃ :=
  ⟨h'.inv, h'.contexts.trans h.contexts,
    fun ct hct => (h.settled ct hct).trans (h'.settled ct (h.contexts ▸ hct))⟩

theorem setState_self (w : World) (r : ℕ) : w.setState r (w.reqs r).state = w :=
  congrArg (fun reqs => { w with reqs }) (Function.update_eq_self r w.reqs)

theorem setRunning_self (h : (w.contexts.map DirectioContext.checker).Nodup) (hct : ct ∈ w.contexts) :
    w.setRunning ct.checker ct.running = w := by
  refine congrArg (fun l => { w with contexts := l }) ?_
  refine (List.map_congr_left fun ct' hct' => ?_).trans (List.map_id _)
  split_ifs with hc
  · rw [List.inj_on_of_nodup_map h hct' hct hc]
    rfl
  · rfl

/-- The completion of a request. -/
theorem complete_polled (h : Inv w) {x : Completion} (hc : complete w grp x = some w') :
    Polled w [x] w' := by
  unfold complete at hc
  split_ifs at hc with hio
  dsimp only at hc
  split_ifs at hc with hstate
  · -- an orphan of the group
    obtain rfl := Option.some.inj hc
    rcases h.ios _ hio with ⟨ct, hct, heq⟩ | ⟨g, hg, heq, hr⟩
    · have hreq : ct.req = x.req := congrArg Io.req heq
      exact absurd hstate (hreq ▸ (h.running ct hct).1)
    · obtain rfl : g.ioctx = grp := heq
      have husable := @usable_updateGroup w g.ioctx
        (fun g => { g with orphans := g.orphans.erase x.req, holders := g.holders - 1 })
        (fun _ => List.length_erase_le) h.usable
      have hlist := congrArg World.aioGrpList (h.listDel_eq hg hr)
      have hinv : Inv ((((w.ioEnd ⟨x.req, g.ioctx⟩).listDel x.req).freeReq x.req).putGroup
          g.ioctx) := ⟨h.reap hg hr, hlist.symm ▸ husable⟩
      refine ⟨hinv, rfl, fun ct hct => .inl ⟨?_, ?_⟩⟩
      · intro y hy hreq
        obtain rfl := List.mem_singleton.mp hy
        exact h.req_not_mem_orphans hct hg (hreq ▸ hr)
      · have hne : ct.req ≠ x.req := fun hreq => h.req_not_mem_orphans hct hg (hreq ▸ hr)
        exact Function.update_of_ne hne _ _
  · -- the request of a context
    obtain rfl := Option.some.inj hc
    rcases h.ios _ hio with ⟨ct, hct, heq⟩ | ⟨g, hg, heq, hr⟩
    · obtain ⟨r, res⟩ := x
      obtain rfl : ct.req = r := congrArg Io.req heq
      obtain rfl : ct.aioGrp = grp := congrArg Io.ioctx heq
      have hne : outcome (w.reqs ct.req) res ≠ .removed ∧ outcome (w.reqs ct.req) res ≠ .pending := by
        unfold outcome
        split_ifs <;> decide
      have hstep := h.toAccounts.context_step hct hne.1 (h.once.erase ct.io)
        (fun io hio => List.mem_erase_of_ne hio)
        (iff_of_false h.once.not_mem_erase fun hpending => hne.2 hpending.2 : _ ↔ ct.running ≠ 0 ∧ _)
      have hsame := setRunning_self (w := (w.ioEnd ct.io).setState ct.req
        (outcome (w.reqs ct.req) res)) h.checkers hct
      refine ⟨⟨hsame ▸ hstep, h.usable⟩, rfl, fun ct' hct' => ?_⟩
      by_cases hreq : ct'.req = ct.req
      · refine .inr ⟨_, List.mem_singleton_self _, hreq.symm, ?_⟩
        rw [hreq]
        exact Function.update_self ..
      · refine .inl ⟨?_, Function.update_of_ne hreq _ _⟩
        intro y hy heq
        obtain rfl := List.mem_singleton.mp hy
        exact hreq heq.symm
    · exact absurd (h.orphaned g hg x.req hr).1 hstate

theorem foldlM_polled (xs : List Completion) : ∀ {w w' : World}, Inv w →
    xs.foldlM (fun w x => complete w grp x) w = some w' → Polled w xs w' := by
  induction xs with
  | nil =>
    intro w w' h hw
    obtain rfl := Option.some.inj hw
    exact .refl h
  | cons x xs ih =>
    intro w w' h hw
    rw [List.foldlM_cons] at hw
    obtain ⟨w₁, hw₁, hw⟩ := Option.bind_eq_some_iff.mp hw
    have hx := complete_polled h hw₁
    exact hx.trans (ih hx.inv hw)

theorem getEvents_polled (batches : List (List Completion)) : ∀ {w : World} {p : World × Bool},
    Inv w → getEvents grp batches w = some p → Polled w batches.flatten p.1 := by
  induction batches with
  | nil =>
    intro w p _ hp
    cases hp
  | cons batch batches ih =>
    intro w p h hp
    unfold getEvents at hp
    split_ifs at hp with hlength hmore hlast
    · obtain ⟨w₁, hw₁, hp⟩ := Option.bind_eq_some_iff.mp hp
      obtain ⟨q, hq, rfl⟩ := Option.map_eq_some_iff.mp hp
      have hbatch := foldlM_polled batch h hw₁
      have hrest := ih hbatch.inv hq
      exact hbatch.trans hrest
    · obtain ⟨w₁, hw₁, hp⟩ := Option.bind_eq_some_iff.mp hp
      obtain rfl := Option.some.inj hp
      have hbatch := foldlM_polled batch h hw₁
      rw [hlast]
      exact hbatch.trans (.refl hbatch.inv)
    · obtain ⟨w₁, hw₁, hp⟩ := Option.bind_eq_some_iff.mp hp
      cases hp

theorem pollEvents_polled {req : ℕ} (rounds : List Round) : ∀ {w w' : World}, Inv w →
    pollEvents grp req rounds w = some w' →
      Polled w (rounds.flatMap fun round => round.batches.flatten) w' := by
  induction rounds with
  | nil =>
    intro w w' _ hw
    cases hw
  | cons round rounds ih =>
    intro w w' h hw
    unfold pollEvents at hw
    obtain ⟨p, hp, hw⟩ := Option.bind_eq_some_iff.mp hw
    have hround := getEvents_polled round.batches h hp
    rw [List.flatMap_cons]
    dsimp only at hw
    split_ifs at hw with hleave hlast
    · obtain rfl := Option.some.inj hw
      rw [hlast]
      exact hround.trans (.refl hround.inv)
    · exact hround.trans (ih hround.inv hw)

/-- A change of `running` that agrees with what the kernel has. -/
theorem Inv.setRunning (h : Inv w) (hct : ct ∈ w.contexts) {n : ℕ}
    (hn : ct.io ∈ w.ios ↔ n ≠ 0 ∧ (w.reqs ct.req).state = .pending) :
    Inv (w.setRunning ct.checker n) := by
  have hstep := h.toAccounts.context_step hct (h.running ct hct).1 h.once (fun _ _ => Iff.rfl) hn
  rw [setState_self] at hstep
  exact ⟨hstep, h.usable⟩

/-- A successful `io_cancel` by the checker. -/
theorem Inv.cancel (h : Inv w) (hct : ct ∈ w.contexts) :
    Inv ((w.ioEnd ct.io).setRunning ct.checker 0) := by
  have hstep := h.toAccounts.context_step hct (h.running ct hct).1 (h.once.erase ct.io)
    (fun io hne => List.mem_erase_of_ne hne)
    (iff_of_false h.once.not_mem_erase fun hrunning => hrunning.1 rfl : _ ↔ 0 ≠ 0 ∧ _)
  have hself := setState_self (w.ioEnd ct.io) ct.req
  exact ⟨hself ▸ hstep, h.usable⟩

theorem finishCheck_inv (h : Inv w) (hct : ct ∈ w.contexts) (env : CheckEnv) :
    Inv (finishCheck w ct env).1 := by
  unfold finishCheck
  split_ifs with hstate
  · refine h.setRunning hct (iff_of_false ?_ fun hrunning => hrunning.1 rfl)
    exact fun hio => hstate ((h.running ct hct).2.mp hio).2
  · exact h.cancel hct
  · exact h
  · exact h

theorem finishCheck_reqs (w : World) (ct : DirectioContext) (env : CheckEnv) :
    (finishCheck w ct env).1.reqs = w.reqs := by
  unfold finishCheck
  split_ifs <;> rfl

theorem Settled.congr {xs : List Completion} {w₁ w₁' w₂ w₂' : World} (h : Settled r xs w₁ w₂)
    (h₁ : w₁.reqs r = w₁'.reqs r) (h₂ : w₂.reqs r = w₂'.reqs r) : Settled r xs w₁' w₂' := by
  unfold Settled at h ⊢
  rw [← h₁, ← h₂]
  exact h

theorem settled_nil (h : w'.reqs r = w.reqs r) : Settled r [] w w' :=
  .inl ⟨fun _ hx => absurd hx List.not_mem_nil, h⟩

theorem beginCheck_inv (h : Inv w) (hct : ct ∈ w.contexts)
    (hpending : ct.running ≠ 0 → (w.reqs ct.req).state = .pending) : Inv (beginCheck w ct) := by
  obtain ⟨-, hio⟩ := h.running ct hct
  unfold beginCheck
  dsimp only
  split_ifs with hrunning
  · have hidle : ct.io ∉ w.ios := fun hmem => (hio.mp hmem).1 hrunning
    refine ⟨h.toAccounts.context_step hct (by decide) (List.nodup_cons.mpr ⟨hidle, h.once⟩) ?_ ?_,
      h.usable⟩
    · intro io hne
      rw [List.mem_cons, or_iff_right hne]
    · exact iff_of_true List.mem_cons_self ⟨Nat.succ_ne_zero _, rfl⟩
  · have hmem := hio.mpr ⟨hrunning, hpending hrunning⟩
    exact h.setRunning hct (iff_of_true hmem ⟨Nat.succ_ne_zero _, hpending hrunning⟩)

theorem beginCheck_contexts (w : World) (ct : DirectioContext) :
    (beginCheck w ct).contexts = (w.setRunning ct.checker (ct.running + 1)).contexts := by
  unfold beginCheck
  dsimp only
  split_ifs <;> rfl

theorem beginCheck_reqs (hr : r ≠ ct.req) : (beginCheck w ct).reqs r = w.reqs r := by
  unfold beginCheck
  dsimp only
  split_ifs
  · exact setState_of_ne hr
  · rfl

theorem checkState_spec (h : Inv w) (hct : ct ∈ w.contexts) {env : CheckEnv}
    {p : World × PathState} (hp : checkState w ct env = some p) :
    Inv p.1 ∧ ∀ ct' ∈ w.contexts, ct'.checker ≠ ct.checker →
      Settled ct'.req env.completions w p.1 := by
  obtain ⟨hstate, hio⟩ := h.running ct hct
  have hreq : ∀ ct' ∈ w.contexts, ct'.checker ≠ ct.checker → ct'.req ≠ ct.req :=
    fun ct' hct' hc heq => hc (h.req_inj hct' hct heq ▸ rfl)
  have hnone : env.rounds = [] → env.completions = [] := fun hrounds => by
    rw [CheckEnv.completions, hrounds, List.flatMap_nil]
  unfold checkState at hp
  dsimp only at hp
  split_ifs at hp with hdone hrounds hfail hrounds
  · obtain rfl := Option.some.inj hp
    refine ⟨h.setRunning hct (iff_of_false ?_ fun hrunning => hrunning.1 rfl), ?_⟩
    · exact fun hmem => hdone.2 (hio.mp hmem).2
    · intro ct' _ _
      rw [hnone hrounds]
      exact settled_nil rfl
  · obtain rfl := Option.some.inj hp
    have hidle : ct.io ∉ w.ios := fun hmem => (hio.mp hmem).1 hfail.1
    have hstep := h.toAccounts.context_step hct (s := .pending) (by decide) h.once
      (fun _ _ => Iff.rfl) (iff_of_false hidle fun hrunning => hrunning.1 hfail.1)
    have hself := setRunning_self (w := w.setState ct.req .pending) h.checkers hct
    refine ⟨⟨hself ▸ hstep, h.usable⟩, fun ct' hct' hc => ?_⟩
    rw [hnone hrounds]
    exact settled_nil (setState_of_ne (hreq ct' hct' hc))
  · obtain ⟨w₁, hw₁, rfl⟩ := Option.map_eq_some_iff.mp hp
    have hpending : ct.running ≠ 0 → (w.reqs ct.req).state = .pending :=
      fun hrunning => not_not.mp fun hother => hdone ⟨hrunning, hother⟩
    have hpolled := pollEvents_polled env.rounds (beginCheck_inv h hct hpending) hw₁
    have hmem : { ct with running := ct.running + 1 } ∈ w₁.contexts := by
      rw [hpolled.contexts, beginCheck_contexts]
      exact mem_setRunning_self hct
    refine ⟨finishCheck_inv hpolled.inv hmem env, fun ct' hct' hc => ?_⟩
    have hmem' : ct' ∈ (beginCheck w ct).contexts := by
      rw [beginCheck_contexts]
      exact List.mem_map.mpr ⟨ct', hct', if_neg hc⟩
    refine (hpolled.settled ct' hmem').congr ?_ ?_
    · exact beginCheck_reqs (hreq ct' hct' hc)
    · rw [finishCheck_reqs]

theorem Inv.setMsgid (h : Inv w) (c : ℕ) (m : Msgid) : Inv (w.setMsgid c m) :=
  ⟨⟨h.checkers, h.groups, h.fresh, h.listed, h.holders, h.full, h.freed, h.running, h.orphaned,
    h.ios, h.once⟩, h.usable⟩

theorem libcheckCheck_spec (h : Inv w) {env : CheckEnv} {p : World × PathState}
    (hp : libcheckCheck w c env = some p) :
    Inv p.1 ∧ ∀ ct ∈ w.contexts, ct.checker ≠ c → Settled ct.req env.completions w p.1 := by
  unfold libcheckCheck at hp
  split at hp
  case h_1 =>
    split_ifs at hp with hrounds
    obtain rfl := Option.some.inj hp
    refine ⟨h, fun ct _ _ => ?_⟩
    rw [CheckEnv.completions, hrounds, List.flatMap_nil]
    exact settled_nil rfl
  case h_2 ct hfind =>
    obtain ⟨hct, rfl⟩ := (find?_checker h.toAccounts).mp hfind
    obtain ⟨q, hq, rfl⟩ := Option.map_eq_some_iff.mp hp
    obtain ⟨hinv, hsettled⟩ := checkState_spec h hct hq
    dsimp only
    split
    · exact ⟨hinv.setMsgid _ _, hsettled⟩
    · exact ⟨hinv, hsettled⟩

theorem step_spec (h : Inv w) {e : Event} (hstep : step w e = some w') :
    Inv w' ∧ ∀ ct ∈ w.contexts, ct.checker ≠ e.checker → Settled ct.req e.completions w w' := by
  cases e with
  | init c env =>
    unfold step at hstep
    dsimp only at hstep
    split_ifs at hstep with hc
    obtain rfl := Option.some.inj hstep
    obtain ⟨hinv, hreqs⟩ := libcheckInit_spec h hc env
    refine ⟨hinv, fun ct hct _ => settled_nil (hreqs ct.req ?_)⟩
    exact (h.of_mem_owned (Accounts.mem_owned_of_context hct)).2
  | check c env =>
    obtain ⟨p, hp, rfl⟩ := Option.map_eq_some_iff.mp hstep
    exact libcheckCheck_spec h hp
  | free c cancelled =>
    obtain rfl := Option.some.inj hstep
    refine ⟨libcheckFree_inv h c cancelled, fun ct hct hc => settled_nil ?_⟩
    exact libcheckFree_reqs h c cancelled hct hc

/-- What the checker promises in every state. A request has one owner, a context or a group, until it
is freed, once; and the kernel has no request that is freed. -/
structure Accounting (w : World) : Prop where
  holders : ∀ g ∈ w.aioGrpList,
    g.holders = w.contexts.countP (fun ct => ct.aioGrp = g.ioctx) + g.orphans.length
  full : ∀ g ∈ w.aioGrpList, g.holders ≤ aioGroupSize
  usable : ∀ g ∈ w.aioGrpList, g.orphans.length < aioGroupSize
  listed : ∀ ct ∈ w.contexts, ∃ g ∈ w.aioGrpList, g.ioctx = ct.aioGrp
  owner : w.owned.Nodup
  freed : ∀ r < w.allocated, (w.reqs r).freed = if r ∈ w.owned then 0 else 1
  kept : ∀ io ∈ w.ios, io.req < w.allocated ∧ (w.reqs io.req).freed = 0

theorem Inv.accounting (h : Inv w) : Accounting w where
  holders := h.holders
  full := h.full
  usable := h.usable
  listed := h.listed
  owner := h.nodup_owned
  freed := by
    intro r hr
    have hfreed := h.freed r
    rw [if_pos hr] at hfreed
    split_ifs with howned
    · exact (h.of_mem_owned howned).1
    · rw [List.count_eq_zero.mpr howned] at hfreed
      exact hfreed
  kept := fun _ hio => (h.of_mem_owned (h.mem_owned_of_io hio)).symm

/-- After any sequence of calls the accounts balance, and the next call leaves the requests of the
other checkers to the completions that are delivered for them. -/
theorem run_accounting {es : List Event} {w : World} (h : run step {} es = some w) :
    Accounting w ∧ ∀ e w', step w e = some w' → ∀ ct ∈ w.contexts, ct.checker ≠ e.checker →
      Settled ct.req e.completions w w' := by
  have hinv : Inv w := run_invariant Inv (fun _ _ _ hstep _ hi => (step_spec hi hstep).1) start_inv
    (along_true _ es) h
  exact ⟨hinv.accounting, fun _ _ hstep => (step_spec hinv hstep).2⟩

/-- A checker is freed while its request is under way, and another checker polls the group. -/
def orphanRun : List Event :=
  [.init 0 {}, .check 0 { rounds := [⟨[[]], true⟩] }, .free 0 false, .init 1 {},
    .check 1 { rounds := [⟨[[⟨0, 512⟩]], false⟩, ⟨[[⟨1, 0⟩]], false⟩] }]

theorem run_accounting_orphan : ∃ w, run step {} orphanRun = some w ∧ (w.reqs 0).freed = 1 ∧
    (w.reqs 1).state = .down ∧ Accounting w :=
  ⟨_, rfl, rfl, rfl, (@run_accounting orphanRun _ rfl).1⟩

end MultipathTools.Directio
