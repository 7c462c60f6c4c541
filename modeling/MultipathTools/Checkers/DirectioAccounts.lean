import Mathlib.Data.List.Count
import Mathlib.Algebra.Order.Group.Nat
import Mathlib.Data.Int.Order.Basic
import MultipathTools.Checkers.Directio

/-! What the aio groups account for: the holders of a group, the owner of each request, and the
requests that the kernel has. Each change of owner keeps the accounts. -/
namespace MultipathTools.Directio

/-- The requests of the contexts, and the orphans. -/
def World.owned (w : World) : List ℕ :=
  w.contexts.map DirectioContext.req ++ w.aioGrpList.flatMap AioGroup.orphans

def DirectioContext.io (ct : DirectioContext) : Io := ⟨ct.req, ct.aioGrp⟩

/-- What holds also while a group that is full of orphans waits for its removal. -/
structure Accounts (w : World) : Prop where
  checkers : (w.contexts.map DirectioContext.checker).Nodup
  groups : (w.aioGrpList.map AioGroup.ioctx).Nodup
  fresh : ∀ g ∈ w.aioGrpList, g.ioctx < w.ioctxs
  listed : ∀ ct ∈ w.contexts, ∃ g ∈ w.aioGrpList, g.ioctx = ct.aioGrp
  holders : ∀ g ∈ w.aioGrpList,
    g.holders = w.contexts.countP (fun ct => ct.aioGrp = g.ioctx) + g.orphans.length
  full : ∀ g ∈ w.aioGrpList, g.holders ≤ aioGroupSize
  freed : ∀ r, (w.reqs r).freed + w.owned.count r = if r < w.allocated then 1 else 0
  running : ∀ ct ∈ w.contexts, (w.reqs ct.req).state ≠ .removed ∧
    (ct.io ∈ w.ios ↔ ct.running ≠ 0 ∧ (w.reqs ct.req).state = .pending)
  orphaned : ∀ g ∈ w.aioGrpList, ∀ r ∈ g.orphans,
    (w.reqs r).state = .removed ∧ ⟨r, g.ioctx⟩ ∈ w.ios
  ios : ∀ io ∈ w.ios, (∃ ct ∈ w.contexts, ct.io = io) ∨
    ∃ g ∈ w.aioGrpList, g.ioctx = io.ioctx ∧ io.req ∈ g.orphans
  once : w.ios.Nodup

structure Inv (w : World) : Prop extends Accounts w where
  usable : ∀ g ∈ w.aioGrpList, g.orphans.length < aioGroupSize

theorem start_inv : Inv {} := by
  refine ⟨?_, by simp⟩
  constructor <;> simp [World.owned]

variable {w : World} {g : AioGroup} {ct : DirectioContext} {r : ℕ}

namespace Accounts

theorem mem_owned_of_context (hct : ct ∈ w.contexts) : ct.req ∈ w.owned :=
  List.mem_append_left _ (List.mem_map_of_mem hct)

theorem mem_owned_of_orphan (hg : g ∈ w.aioGrpList) (hr : r ∈ g.orphans) : r ∈ w.owned :=
  List.mem_append_right _ (List.mem_flatMap.mpr ⟨g, hg, hr⟩)

/-- A request with an owner is not freed. -/
theorem of_mem_owned (h : Accounts w) (hr : r ∈ w.owned) : (w.reqs r).freed = 0 ∧ r < w.allocated := by
  have hcount := List.count_pos_iff.mpr hr
  have hfreed := h.freed r
  split_ifs at hfreed with hlt
  · exact ⟨by omega, hlt⟩
  · omega

theorem nodup_owned (h : Accounts w) : w.owned.Nodup := by
  refine List.nodup_iff_count_le_one.mpr fun r => ?_
  have hfreed := h.freed r
  split_ifs at hfreed <;> omega

theorem req_inj (h : Accounts w) {ct' : DirectioContext} (hct : ct ∈ w.contexts)
    (hct' : ct' ∈ w.contexts) (hreq : ct.req = ct'.req) : ct = ct' :=
  List.inj_on_of_nodup_map (List.nodup_append.mp h.nodup_owned).1 hct hct' hreq

theorem req_not_mem_orphans (h : Accounts w) (hct : ct ∈ w.contexts) (hg : g ∈ w.aioGrpList) :
    ct.req ∉ g.orphans := by
  intro hr
  have hdisjoint := (List.nodup_append.mp h.nodup_owned).2.2
  exact hdisjoint _ (List.mem_map_of_mem hct) _ (List.mem_flatMap.mpr ⟨g, hg, hr⟩) rfl

/-- The request of a completion has an owner. -/
theorem mem_owned_of_io (h : Accounts w) {io : Io} (hio : io ∈ w.ios) : io.req ∈ w.owned := by
  rcases h.ios io hio with ⟨ct, hct, rfl⟩ | ⟨g, hg, -, hr⟩
  · exact mem_owned_of_context hct
  · exact mem_owned_of_orphan hg hr

end Accounts

@[simp] theorem setState_freed {s : PathState} {x : ℕ} :
    ((w.setState r s).reqs x).freed = (w.reqs x).freed := by
  by_cases hx : x = r
  · subst hx
    simp [World.setState, World.updateReq]
  · simp [World.setState, World.updateReq, hx]

theorem setState_state {s : PathState} : ((w.setState r s).reqs r).state = s := by
  simp [World.setState, World.updateReq]

theorem setState_of_ne {s : PathState} {x : ℕ} (hx : x ≠ r) :
    (w.setState r s).reqs x = w.reqs x := by
  simp [World.setState, World.updateReq, hx]

section Running

variable {c n : ℕ} {β : Type*} {p : DirectioContext → β}

theorem map_setRunning (hp : ∀ ct n, p { ct with running := n } = p ct) :
    (w.setRunning c n).contexts.map p = w.contexts.map p := by
  refine (List.map_map ..).trans (List.map_congr_left fun ct _ => ?_)
  show p (if ct.checker = c then { ct with running := n } else ct) = p ct
  split_ifs
  · exact hp ct n
  · rfl

theorem mem_setRunning {ct' : DirectioContext} (h : ct' ∈ (w.setRunning c n).contexts) :
    ∃ ct ∈ w.contexts, ct' = if ct.checker = c then { ct with running := n } else ct := by
  obtain ⟨ct, hct, rfl⟩ := List.mem_map.mp h
  exact ⟨ct, hct, rfl⟩

theorem mem_setRunning_self (hct : ct ∈ w.contexts) :
    { ct with running := n } ∈ (w.setRunning ct.checker n).contexts :=
  List.mem_map.mpr ⟨ct, hct, if_pos rfl⟩

end Running

/-- The accounts only tell how many contexts use a group. -/
theorem countP_eq_count (l : List DirectioContext) (grp : ℕ) :
    l.countP (fun ct => ct.aioGrp = grp) = (l.map DirectioContext.aioGrp).count grp := by
  rw [List.count, List.countP_map]
  exact List.countP_congr fun ct _ => by simp

namespace Accounts

/-- The steps of a context that keeps its request. -/
theorem context_step (h : Accounts w) (hct : ct ∈ w.contexts) {s : PathState} (hs : s ≠ .removed)
    {ios : List Io} (hnodup : ios.Nodup) (hother : ∀ io, io ≠ ct.io → (io ∈ ios ↔ io ∈ w.ios))
    {n : ℕ} (hn : ct.io ∈ ios ↔ n ≠ 0 ∧ s = .pending) :
    Accounts (({ w with ios }.setState ct.req s).setRunning ct.checker n) := by
  have hio : ∀ ct' ∈ w.contexts, ct' ≠ ct → ct'.req ≠ ct.req :=
    fun ct' hct' hne hreq => hne (h.req_inj hct' hct hreq)
  have hself : ∀ ct' ∈ w.contexts, ct'.checker = ct.checker → ct' = ct :=
    fun ct' hct' hc => List.inj_on_of_nodup_map h.checkers hct' hct hc
  constructor
  case checkers =>
    rw [map_setRunning fun _ _ => rfl]
    exact h.checkers
  case groups => exact h.groups
  case fresh => exact h.fresh
  case listed =>
    intro new hnew
    obtain ⟨ct', hct', rfl⟩ := mem_setRunning hnew
    split_ifs <;> exact h.listed ct' hct'
  case holders =>
    intro g hg
    rw [countP_eq_count, map_setRunning fun _ _ => rfl, ← countP_eq_count]
    exact h.holders g hg
  case full => exact h.full
  case freed =>
    intro r
    have howned : (({ w with ios }.setState ct.req s).setRunning ct.checker n).owned = w.owned :=
      congrArg (· ++ _) (map_setRunning fun _ _ => rfl)
    rw [howned]
    show (({ w with ios }.setState ct.req s).reqs r).freed + _ = _
    rw [setState_freed]
    exact h.freed r
  case running =>
    intro new hnew
    obtain ⟨ct', hct', rfl⟩ := mem_setRunning hnew
    by_cases hc : ct'.checker = ct.checker
    · obtain rfl := hself ct' hct' hc
      rw [if_pos rfl]
      show (({ w with ios }.setState ct'.req s).reqs ct'.req).state ≠ _ ∧ (_ ↔ n ≠ 0 ∧
        (({ w with ios }.setState ct'.req s).reqs ct'.req).state = _)
      rw [setState_state]
      exact ⟨hs, hn⟩
    · rw [if_neg hc]
      have hne := hio ct' hct' fun heq => hc (heq ▸ rfl)
      show (({ w with ios }.setState ct.req s).reqs ct'.req).state ≠ _ ∧ (_ ↔ ct'.running ≠ 0 ∧
        (({ w with ios }.setState ct.req s).reqs ct'.req).state = _)
      rw [setState_of_ne hne]
      exact ⟨(h.running ct' hct').1,
        (hother ct'.io fun heq => hne (congrArg Io.req heq)).trans (h.running ct' hct').2⟩
  case orphaned =>
    intro g hg r hr
    have hne : r ≠ ct.req := fun heq => h.req_not_mem_orphans hct hg (heq ▸ hr)
    show (({ w with ios }.setState ct.req s).reqs r).state = _ ∧ ⟨r, g.ioctx⟩ ∈ ios
    rw [setState_of_ne hne]
    obtain ⟨hstate, hmem⟩ := h.orphaned g hg r hr
    exact ⟨hstate, (hother ⟨r, g.ioctx⟩ fun heq => hne (congrArg Io.req heq)).mpr hmem⟩
  case ios =>
    intro io hmem
    by_cases heq : io = ct.io
    · exact .inl ⟨_, mem_setRunning_self hct, heq.symm⟩
    · rcases h.ios io ((hother io heq).mp hmem) with ⟨ct', hct', rfl⟩ | horphan
      · refine .inl ⟨ct', List.mem_map.mpr ⟨ct', hct', if_neg fun hc => ?_⟩, rfl⟩
        exact heq (hself ct' hct' hc ▸ rfl)
      · exact .inr horphan
  case once => exact hnodup

end Accounts

section Groups

variable {grp : ℕ} {f : AioGroup → AioGroup}

theorem mem_updateGroup {b : AioGroup} (h : b ∈ (w.updateGroup grp f).aioGrpList) :
    ∃ g ∈ w.aioGrpList, b = if g.ioctx = grp then f g else g := by
  obtain ⟨g, hg, rfl⟩ := List.mem_map.mp h
  exact ⟨g, hg, rfl⟩

theorem updateGroup_mem (hg : g ∈ w.aioGrpList) :
    (if g.ioctx = grp then f g else g) ∈ (w.updateGroup grp f).aioGrpList :=
  List.mem_map_of_mem hg

theorem nodup_updateGroup (hf : ∀ g, (f g).ioctx = g.ioctx)
    (h : (w.aioGrpList.map AioGroup.ioctx).Nodup) :
    ((w.updateGroup grp f).aioGrpList.map AioGroup.ioctx).Nodup :=
  (map_key_updateKey hf : (w.updateGroup grp f).aioGrpList.map _ = _) ▸ h

theorem fresh_updateGroup (hf : ∀ g, (f g).ioctx = g.ioctx) {n : ℕ}
    (h : ∀ g ∈ w.aioGrpList, g.ioctx < n) : ∀ g ∈ (w.updateGroup grp f).aioGrpList, g.ioctx < n := by
  intro b hb
  obtain ⟨g, hg, rfl⟩ := mem_updateGroup hb
  split_ifs
  · exact hf g ▸ h g hg
  · exact h g hg

theorem listed_updateGroup (hf : ∀ g, (f g).ioctx = g.ioctx) {n : ℕ}
    (h : ∃ g ∈ w.aioGrpList, g.ioctx = n) :
    ∃ g ∈ (w.updateGroup grp f).aioGrpList, g.ioctx = n := by
  obtain ⟨g, hg, heq⟩ := h
  refine ⟨_, updateGroup_mem hg, ?_⟩
  split_ifs
  · exact (hf g).trans heq
  · exact heq

/-- The owned requests by the group that changes. -/
theorem owned_updateGroup (h : (w.aioGrpList.map AioGroup.ioctx).Nodup) (hg : g ∈ w.aioGrpList) :
    (w.updateGroup g.ioctx f).owned.Perm ((f g).orphans ++ (w.contexts.map DirectioContext.req ++
      (others AioGroup.ioctx g.ioctx w.aioGrpList).flatMap AioGroup.orphans)) :=
  (((updateKey_perm h hg f).flatMap_right _).append_left _).trans (List.perm_append_comm_assoc ..)

theorem owned_group (h : (w.aioGrpList.map AioGroup.ioctx).Nodup) (hg : g ∈ w.aioGrpList) :
    w.owned.Perm (g.orphans ++ (w.contexts.map DirectioContext.req ++
      (others AioGroup.ioctx g.ioctx w.aioGrpList).flatMap AioGroup.orphans)) :=
  (((perm_cons_others h hg).flatMap_right _).append_left _).trans (List.perm_append_comm_assoc ..)

/-- A change that keeps the orphans keeps the owned requests. -/
theorem owned_updateGroup_of_orphans (hf : ∀ g, (f g).orphans = g.orphans) :
    (w.updateGroup grp f).owned = w.owned := by
  refine congrArg (_ ++ ·) ?_
  show (w.aioGrpList.map _).flatMap _ = _
  rw [List.flatMap_map]
  refine List.flatMap_congr fun g _ => ?_
  split_ifs
  · exact hf g
  · rfl

end Groups

theorem owned_dropContext (h : (w.contexts.map DirectioContext.checker).Nodup)
    (hct : ct ∈ w.contexts) : w.owned.Perm (ct.req :: (w.dropContext ct.checker).owned) :=
  ((perm_cons_others h hct).map _).append_right _

theorem countP_dropContext (h : (w.contexts.map DirectioContext.checker).Nodup)
    (hct : ct ∈ w.contexts) (grp : ℕ) : w.contexts.countP (fun ct => ct.aioGrp = grp) =
      (w.dropContext ct.checker).contexts.countP (fun ct => ct.aioGrp = grp) +
        if ct.aioGrp = grp then 1 else 0 := by
  rw [(perm_cons_others h hct).countP_eq, List.countP_cons]
  simp [World.dropContext]

@[simp] theorem freeReq_state {x : ℕ} : ((w.freeReq r).reqs x).state = (w.reqs x).state := by
  by_cases hx : x = r
  · subst hx
    simp [World.freeReq, World.updateReq]
  · simp [World.freeReq, World.updateReq, hx]

theorem freeReq_freed {x : ℕ} :
    ((w.freeReq r).reqs x).freed = (w.reqs x).freed + if x = r then 1 else 0 := by
  by_cases hx : x = r
  · subst hx
    simp [World.freeReq, World.updateReq]
  · simp [World.freeReq, World.updateReq, hx]

theorem freeReq_update (q : AsyncReq) : World.freeReq { w with reqs := Function.update w.reqs r q } r =
    { w with reqs := Function.update w.reqs r { q with freed := q.freed + 1 } } := by
  refine congrArg (fun reqs => { w with reqs }) ?_
  show Function.update (Function.update w.reqs r q) r
    { Function.update w.reqs r q r with freed := (Function.update w.reqs r q r).freed + 1 } = _
  rw [Function.update_self, Function.update_idem]

namespace Accounts

/-- The contexts that stay when one is dropped have requests of their own. -/
theorem kept (h : Accounts w) (hct : ct ∈ w.contexts) :
    ∀ ct' ∈ others DirectioContext.checker ct.checker w.contexts,
      ct' ∈ w.contexts ∧ ct'.req ≠ ct.req := by
  intro ct' hct'
  obtain ⟨hmem, hne⟩ := mem_others.mp hct'
  exact ⟨hmem, fun hreq => hne (h.req_inj hmem hct hreq ▸ rfl)⟩

/-- A context gives up its request, which the kernel does not have. -/
theorem release (h : Accounts w) (hct : ct ∈ w.contexts) {ios : List Io} (hnodup : ios.Nodup)
    (hother : ∀ io, io ≠ ct.io → (io ∈ ios ↔ io ∈ w.ios)) (hdone : ct.io ∉ ios) :
    Accounts ((({ w with ios }.freeReq ct.req).putGroup ct.aioGrp).dropContext ct.checker) := by
  have hkept := h.kept hct
  constructor
  case checkers => exact (others_sublist.map _).nodup h.checkers
  case groups => exact nodup_updateGroup (w := w) (fun _ => rfl) h.groups
  case fresh =>
    refine fresh_updateGroup (w := w) ?_ h.fresh
    intro _
    rfl
  case listed =>
    intro ct' hct'
    refine listed_updateGroup (w := w) ?_ (h.listed ct' (hkept ct' hct').1)
    intro _
    rfl
  case holders =>
    intro b hb
    obtain ⟨g, hg, rfl⟩ := mem_updateGroup hb
    have hholders := h.holders g hg
    rw [countP_dropContext h.checkers hct] at hholders
    by_cases heq : g.ioctx = ct.aioGrp
    · rw [if_pos heq.symm] at hholders
      rw [if_pos heq]
      show g.holders - 1 = ((w.dropContext ct.checker).contexts.countP
        (fun ct' => ct'.aioGrp = g.ioctx) : ℕ) + (g.orphans.length : ℤ)
      omega
    · rw [if_neg (Ne.symm heq)] at hholders
      rw [if_neg heq]
      exact hholders
  case full =>
    intro b hb
    obtain ⟨g, hg, rfl⟩ := mem_updateGroup hb
    have hfull := h.full g hg
    split_ifs
    · show g.holders - 1 ≤ _
      omega
    · exact hfull
  case freed =>
    intro r
    have howned := (owned_dropContext h.checkers hct).count_eq r
    rw [List.count_cons] at howned
    have heq : (((({ w with ios }.freeReq ct.req).putGroup ct.aioGrp).dropContext
        ct.checker).owned.count r) = (w.dropContext ct.checker).owned.count r :=
      congrArg (List.count r) (owned_updateGroup_of_orphans (w := w.dropContext ct.checker)
        fun _ => rfl)
    have hfreed := h.freed r
    rw [howned] at hfreed
    rw [heq]
    show (({ w with ios }.freeReq ct.req).reqs r).freed + _ = if r < w.allocated then 1 else 0
    rw [freeReq_freed, ← hfreed]
    by_cases hr : r = ct.req
    · rw [if_pos hr, if_pos (beq_iff_eq.mpr hr.symm)]
      show (w.reqs r).freed + 1 + _ = _
      omega
    · rw [if_neg hr, if_neg fun hbeq => hr (beq_iff_eq.mp hbeq).symm]
      rfl
  case running =>
    intro ct' hct'
    obtain ⟨hmem, hne⟩ := hkept ct' hct'
    show (({ w with ios }.freeReq ct.req).reqs ct'.req).state ≠ _ ∧ (ct'.io ∈ ios ↔
      ct'.running ≠ 0 ∧ (({ w with ios }.freeReq ct.req).reqs ct'.req).state = _)
    rw [freeReq_state]
    exact ⟨(h.running ct' hmem).1,
      (hother ct'.io fun heq => hne (congrArg Io.req heq)).trans (h.running ct' hmem).2⟩
  case orphaned =>
    intro b hb r hr
    obtain ⟨g, hg, rfl⟩ := mem_updateGroup hb
    have hr : r ∈ g.orphans := by split_ifs at hr <;> exact hr
    have hne : r ≠ ct.req := fun heq => h.req_not_mem_orphans hct hg (heq ▸ hr)
    obtain ⟨hstate, hmem⟩ := h.orphaned g hg r hr
    show (({ w with ios }.freeReq ct.req).reqs r).state = _ ∧ _ ∈ ios
    rw [freeReq_state]
    refine ⟨hstate, (hother _ fun heq => hne (congrArg Io.req heq)).mpr ?_⟩
    split_ifs <;> exact hmem
  case ios =>
    intro io hio
    have hne : io ≠ ct.io := fun heq => hdone (heq ▸ hio)
    rcases h.ios io ((hother io hne).mp hio) with ⟨ct', hct', rfl⟩ | ⟨g, hg, heq, hr⟩
    · refine .inl ⟨ct', mem_others.mpr ⟨hct', fun hc => hne ?_⟩, rfl⟩
      rw [List.inj_on_of_nodup_map h.checkers hct' hct hc]
    · refine .inr ⟨_, updateGroup_mem hg, ?_, ?_⟩
      · split_ifs <;> exact heq
      · split_ifs <;> exact hr
  case once => exact hnodup

/-- A context leaves its request to the group as an orphan. -/
theorem orphan (h : Accounts w) (hct : ct ∈ w.contexts) (hio : ct.io ∈ w.ios) :
    Accounts (((w.setState ct.req .removed).updateGroup ct.aioGrp fun g =>
      { g with orphans := ct.req :: g.orphans }).dropContext ct.checker) := by
  have hkept := h.kept hct
  constructor
  case checkers => exact (others_sublist.map _).nodup h.checkers
  case groups => exact nodup_updateGroup (w := w) (fun _ => rfl) h.groups
  case fresh =>
    refine fresh_updateGroup (w := w) ?_ h.fresh
    intro _
    rfl
  case listed =>
    intro ct' hct'
    refine listed_updateGroup (w := w) ?_ (h.listed ct' (hkept ct' hct').1)
    intro _
    rfl
  case holders =>
    intro b hb
    obtain ⟨g, hg, rfl⟩ := mem_updateGroup hb
    have hholders := h.holders g hg
    rw [countP_dropContext h.checkers hct] at hholders
    by_cases heq : g.ioctx = ct.aioGrp
    · rw [if_pos heq.symm] at hholders
      rw [if_pos heq]
      show g.holders = ((w.dropContext ct.checker).contexts.countP
        (fun ct' => ct'.aioGrp = g.ioctx) : ℕ) + ((ct.req :: g.orphans).length : ℤ)
      rw [List.length_cons]
      omega
    · rw [if_neg (Ne.symm heq)] at hholders
      rw [if_neg heq]
      exact hholders
  case full =>
    intro b hb
    obtain ⟨g, hg, rfl⟩ := mem_updateGroup hb
    split_ifs <;> exact h.full g hg
  case freed =>
    intro r
    obtain ⟨g, hg, heq⟩ := h.listed ct hct
    have hnew := (owned_updateGroup (w := w.dropContext ct.checker)
      (f := fun g => { g with orphans := ct.req :: g.orphans }) h.groups hg).count_eq r
    have hold := (owned_group (w := w.dropContext ct.checker) h.groups hg).count_eq r
    have hreq := (owned_dropContext h.checkers hct).count_eq r
    rw [heq, List.cons_append, List.count_cons] at hnew
    rw [heq] at hold
    rw [List.count_cons, hold] at hreq
    have hfreed := h.freed r
    rw [hreq, ← hnew] at hfreed
    show ((w.setState ct.req .removed).reqs r).freed + _ = _
    rw [setState_freed]
    exact hfreed
  case running =>
    intro ct' hct'
    obtain ⟨hmem, hne⟩ := hkept ct' hct'
    show ((w.setState ct.req .removed).reqs ct'.req).state ≠ _ ∧ (_ ↔
      ct'.running ≠ 0 ∧ ((w.setState ct.req .removed).reqs ct'.req).state = _)
    rw [setState_of_ne hne]
    exact h.running ct' hmem
  case orphaned =>
    intro b hb r hr
    obtain ⟨g, hg, rfl⟩ := mem_updateGroup hb
    by_cases hreq : r = ct.req
    · subst hreq
      refine ⟨setState_state, ?_⟩
      by_cases heq : g.ioctx = ct.aioGrp
      · rw [if_pos heq]
        show ⟨ct.req, g.ioctx⟩ ∈ w.ios
        rw [heq]
        exact hio
      · rw [if_neg heq] at hr
        exact absurd hr (h.req_not_mem_orphans hct hg)
    · have hr : r ∈ g.orphans := by
        split_ifs at hr
        · exact List.mem_of_ne_of_mem hreq hr
        · exact hr
      show ((w.setState ct.req .removed).reqs r).state = _ ∧ _ ∈ w.ios
      rw [setState_of_ne hreq]
      split_ifs <;> exact h.orphaned g hg r hr
  case ios =>
    intro io hmem
    obtain ⟨g, hg, heq⟩ := h.listed ct hct
    by_cases hself : io = ct.io
    · refine .inr ⟨_, updateGroup_mem hg, ?_⟩
      rw [if_pos heq, hself]
      exact ⟨heq, List.mem_cons_self⟩
    · rcases h.ios io hmem with ⟨ct', hct', rfl⟩ | ⟨g, hg, hioctx, hr⟩
      · refine .inl ⟨ct', mem_others.mpr ⟨hct', fun hc => hself ?_⟩, rfl⟩
        rw [List.inj_on_of_nodup_map h.checkers hct' hct hc]
      · refine .inr ⟨_, updateGroup_mem hg, ?_⟩
        split_ifs
        · exact ⟨hioctx, List.mem_cons_of_mem _ hr⟩
        · exact ⟨hioctx, hr⟩
  case once => exact h.once

/-- An orphan is in one group. -/
theorem orphans_inj (h : Accounts w) {g' : AioGroup} (hg : g ∈ w.aioGrpList)
    (hg' : g' ∈ w.aioGrpList) (hr : r ∈ g.orphans) (hr' : r ∈ g'.orphans) : g = g' := by
  by_contra hne
  have hkey : g'.ioctx ≠ g.ioctx :=
    fun heq => hne (List.inj_on_of_nodup_map h.groups hg hg' heq.symm)
  have hnodup := (owned_group h.groups hg).nodup_iff.mp h.nodup_owned
  have hrest : r ∈ (others AioGroup.ioctx g.ioctx w.aioGrpList).flatMap AioGroup.orphans :=
    List.mem_flatMap.mpr ⟨g', mem_others.mpr ⟨hg', hkey⟩, hr'⟩
  exact (List.nodup_append.mp hnodup).2.2 r hr r (List.mem_append_right _ hrest) rfl

theorem nodup_orphans (h : Accounts w) (hg : g ∈ w.aioGrpList) : g.orphans.Nodup :=
  (List.nodup_append.mp ((owned_group h.groups hg).nodup_iff.mp h.nodup_owned)).1

/-- The list that an orphan is deleted from is the one of the group. -/
theorem listDel_eq (h : Accounts w) (hg : g ∈ w.aioGrpList) (hr : r ∈ g.orphans) :
    (((w.ioEnd ⟨r, g.ioctx⟩).listDel r).freeReq r).putGroup g.ioctx =
      ((w.ioEnd ⟨r, g.ioctx⟩).freeReq r).updateGroup g.ioctx fun g =>
        { g with orphans := g.orphans.erase r, holders := g.holders - 1 } := by
  have hlist : updateKey AioGroup.ioctx g.ioctx (fun g => { g with holders := g.holders - 1 })
      (w.aioGrpList.map fun g => { g with orphans := g.orphans.erase r }) =
      updateKey AioGroup.ioctx g.ioctx (fun g =>
        { g with orphans := g.orphans.erase r, holders := g.holders - 1 }) w.aioGrpList := by
    rw [updateKey, updateKey, List.map_map]
    refine List.map_congr_left fun g' hg' => ?_
    by_cases heq : g'.ioctx = g.ioctx
    · rw [if_pos heq]
      exact if_pos heq
    · have hnot : r ∉ g'.orphans := fun hr' => heq (h.orphans_inj hg' hg hr' hr ▸ rfl)
      rw [if_neg heq]
      refine (if_neg heq).trans ?_
      rw [List.erase_of_not_mem hnot]
  exact congrArg (fun l => { (w.ioEnd ⟨r, g.ioctx⟩).freeReq r with aioGrpList := l }) hlist

/-- The completion of an orphan. -/
theorem reap (h : Accounts w) (hg : g ∈ w.aioGrpList) (hr : r ∈ g.orphans) :
    Accounts ((((w.ioEnd ⟨r, g.ioctx⟩).listDel r).freeReq r).putGroup g.ioctx) := by
  rw [h.listDel_eq hg hr]
  constructor
  case checkers => exact h.checkers
  case groups => exact nodup_updateGroup (w := w) (fun _ => rfl) h.groups
  case fresh =>
    refine fresh_updateGroup (w := w) ?_ h.fresh
    intro _
    rfl
  case listed =>
    intro ct hct
    refine listed_updateGroup (w := w) ?_ (h.listed ct hct)
    intro _
    rfl
  case holders =>
    intro b hb
    obtain ⟨g', hg', rfl⟩ := mem_updateGroup hb
    have hholders := h.holders g' hg'
    by_cases heq : g'.ioctx = g.ioctx
    · obtain rfl := List.inj_on_of_nodup_map h.groups hg' hg heq
      have hlength := List.length_erase_of_mem hr
      have hpos := List.length_pos_of_mem hr
      rw [if_pos rfl]
      show g'.holders - 1 = (w.contexts.countP (fun ct => ct.aioGrp = g'.ioctx) : ℕ) +
        ((g'.orphans.erase r).length : ℤ)
      omega
    · rw [if_neg heq]
      exact hholders
  case full =>
    intro b hb
    obtain ⟨g', hg', rfl⟩ := mem_updateGroup hb
    have hfull := h.full g' hg'
    split_ifs
    · show g'.holders - 1 ≤ _
      omega
    · exact hfull
  case freed =>
    intro x
    have hnew : _ = (g.orphans.erase r).count x + _ := ((owned_updateGroup (f := fun g =>
      { g with orphans := g.orphans.erase r, holders := g.holders - 1 }) h.groups hg).count_eq
        x).trans List.count_append
    have hold := (owned_group h.groups hg).count_eq x
    have horphans := (List.perm_cons_erase hr).count_eq x
    have hfreed := h.freed x
    rw [List.count_append] at hold
    rw [hold, horphans, List.count_cons] at hfreed
    show ((w.freeReq r).reqs x).freed + (w.updateGroup _ _).owned.count x = _
    rw [freeReq_freed, hnew]
    show _ = if x < w.allocated then 1 else 0
    rw [← hfreed]
    by_cases hx : x = r
    · rw [if_pos hx, if_pos (beq_iff_eq.mpr hx.symm)]
      omega
    · rw [if_neg hx, if_neg fun hbeq => hx (beq_iff_eq.mp hbeq).symm]
      omega
  case running =>
    intro ct hct
    have hne : ct.io ≠ ⟨r, g.ioctx⟩ := by
      intro heq
      have hreq : ct.req = r := congrArg Io.req heq
      exact h.req_not_mem_orphans hct hg (hreq ▸ hr)
    show ((w.freeReq r).reqs ct.req).state ≠ _ ∧ (ct.io ∈ w.ios.erase ⟨r, g.ioctx⟩ ↔
      ct.running ≠ 0 ∧ ((w.freeReq r).reqs ct.req).state = _)
    rw [freeReq_state, List.mem_erase_of_ne hne]
    exact h.running ct hct
  case orphaned =>
    intro b hb x hx
    obtain ⟨g', hg', rfl⟩ := mem_updateGroup hb
    have hx : x ∈ g'.orphans ∧ x ≠ r := by
      split_ifs at hx with heq
      · exact ((h.nodup_orphans hg').mem_erase_iff.mp hx).symm
      · exact ⟨hx, fun hxr => heq (h.orphans_inj hg' hg hx (hxr ▸ hr) ▸ rfl)⟩
    obtain ⟨hstate, hmem⟩ := h.orphaned g' hg' x hx.1
    show ((w.freeReq r).reqs x).state = _ ∧ _ ∈ w.ios.erase ⟨r, g.ioctx⟩
    rw [freeReq_state, List.mem_erase_of_ne fun heq => hx.2 (congrArg Io.req heq)]
    split_ifs <;> exact ⟨hstate, hmem⟩
  case ios =>
    intro io hio
    obtain ⟨hne, hmem⟩ := h.once.mem_erase_iff.mp hio
    rcases h.ios io hmem with hcontext | ⟨g', hg', heq, hx⟩
    · exact .inl hcontext
    · refine .inr ⟨_, updateGroup_mem hg', ?_⟩
      split_ifs with hsame
      · refine ⟨heq, (List.mem_erase_of_ne ?_).mpr hx⟩
        intro hreq
        obtain ⟨req, ioctx⟩ := io
        exact hne (congrArg₂ Io.mk hreq (heq.symm.trans hsame))
      · exact ⟨heq, hx⟩
  case once => exact h.once.erase _

end Accounts

theorem foldl_freeReq (l : List ℕ) (w : World) : l.foldl World.freeReq w =
    { w with reqs := fun x => { w.reqs x with freed := (w.reqs x).freed + l.count x } } := by
  induction l generalizing w with
  | nil => rfl
  | cons r l ih =>
    rw [List.foldl_cons, ih]
    have hreqs : (fun x => { (w.freeReq r).reqs x with
        freed := ((w.freeReq r).reqs x).freed + l.count x } : ℕ → AsyncReq) =
        fun x => { w.reqs x with freed := (w.reqs x).freed + (r :: l).count x } := by
      funext x
      rw [List.count_cons]
      by_cases hx : x = r
      · subst hx
        simp [World.freeReq, World.updateReq, Nat.add_assoc, Nat.add_comm 1]
      · simp [World.freeReq, World.updateReq, hx, Ne.symm hx]
    exact congrArg (fun reqs => { w with reqs }) hreqs

theorem removeAioGroup_eq (w : World) (g : AioGroup) : removeAioGroup w g = { w with
    aioGrpList := others AioGroup.ioctx g.ioctx w.aioGrpList
    ios := w.ios.filter fun io => io.ioctx ≠ g.ioctx
    reqs := fun x => { w.reqs x with freed := (w.reqs x).freed + g.orphans.count x } } := by
  rw [removeAioGroup, foldl_freeReq]
  rfl

namespace Accounts

/-- A group that is full of orphans has no context. -/
theorem aioGrp_ne_of_full (h : Accounts w) (hg : g ∈ w.aioGrpList)
    (hfull : aioGroupSize ≤ g.orphans.length) (hct : ct ∈ w.contexts) : ct.aioGrp ≠ g.ioctx := by
  intro heq
  have hpos : 0 < w.contexts.countP (fun ct => ct.aioGrp = g.ioctx) :=
    List.countP_pos_iff.mpr ⟨ct, hct, decide_eq_true heq⟩
  have hholders := h.holders g hg
  have hle := h.full g hg
  omega

/-- The removal of a group that is full of orphans. -/
theorem remove (h : Accounts w) (hg : g ∈ w.aioGrpList)
    (hfull : aioGroupSize ≤ g.orphans.length) : Accounts (removeAioGroup w g) := by
  rw [removeAioGroup_eq]
  constructor
  case checkers => exact h.checkers
  case groups => exact (others_sublist.map _).nodup h.groups
  case fresh => exact fun g' hg' => h.fresh g' (mem_others.mp hg').1
  case listed =>
    intro ct hct
    obtain ⟨g', hg', heq⟩ := h.listed ct hct
    have hne := h.aioGrp_ne_of_full hg hfull hct
    exact ⟨g', mem_others.mpr ⟨hg', heq ▸ hne⟩, heq⟩
  case holders => exact fun g' hg' => h.holders g' (mem_others.mp hg').1
  case full => exact fun g' hg' => h.full g' (mem_others.mp hg').1
  case freed =>
    intro x
    have hfreed := h.freed x
    rw [(owned_group h.groups hg).count_eq, List.count_append] at hfreed
    show (w.reqs x).freed + g.orphans.count x + List.count x (_ ++ _) = _
    rw [← hfreed]
    exact Nat.add_assoc ..
  case running =>
    intro ct hct
    have hmem : ct.io ∈ w.ios.filter (fun io => io.ioctx ≠ g.ioctx) ↔ ct.io ∈ w.ios := by
      rw [List.mem_filter, and_iff_left]
      exact decide_eq_true (h.aioGrp_ne_of_full hg hfull hct)
    exact ⟨(h.running ct hct).1, hmem.trans (h.running ct hct).2⟩
  case orphaned =>
    intro g' hg' x hx
    obtain ⟨hmem, hne⟩ := mem_others.mp hg'
    obtain ⟨hstate, hio⟩ := h.orphaned g' hmem x hx
    exact ⟨hstate, List.mem_filter.mpr ⟨hio, decide_eq_true hne⟩⟩
  case ios =>
    intro io hio
    obtain ⟨hmem, hne⟩ := List.mem_filter.mp hio
    rcases h.ios io hmem with hcontext | ⟨g', hg', heq, hx⟩
    · exact .inl hcontext
    · exact .inr ⟨g', mem_others.mpr ⟨hg', heq ▸ of_decide_eq_true hne⟩, heq, hx⟩
  case once => exact h.once.filter _

theorem add (h : Accounts w) : Accounts (addAioGroup w) := by
  constructor
  case checkers => exact h.checkers
  case groups =>
    refine List.nodup_cons.mpr ⟨?_, h.groups⟩
    intro hmem
    obtain ⟨g, hg, heq⟩ := List.mem_map.mp hmem
    exact (h.fresh g hg).ne heq
  case fresh =>
    intro g hg
    rcases List.mem_cons.mp hg with rfl | hg
    · exact Nat.lt_succ_self _
    · exact (h.fresh g hg).trans (Nat.lt_succ_self _)
  case listed =>
    intro ct hct
    obtain ⟨g, hg, heq⟩ := h.listed ct hct
    exact ⟨g, List.mem_cons_of_mem _ hg, heq⟩
  case holders =>
    intro g hg
    rcases List.mem_cons.mp hg with rfl | hg
    · have hnone : w.contexts.countP (fun ct => ct.aioGrp = w.ioctxs) = 0 := by
        refine List.countP_eq_zero.mpr fun ct hct hgrp => ?_
        obtain ⟨g, hg, heq⟩ := h.listed ct hct
        exact (h.fresh g hg).ne (heq.trans (of_decide_eq_true hgrp))
      show (0 : ℤ) = (w.contexts.countP (fun ct => ct.aioGrp = w.ioctxs) : ℕ) + (0 : ℕ)
      rw [hnone]
      rfl
    · exact h.holders g hg
  case full =>
    intro g hg
    rcases List.mem_cons.mp hg with rfl | hg
    · exact Int.natCast_nonneg _
    · exact h.full g hg
  case freed => exact h.freed
  case running => exact h.running
  case orphaned =>
    intro g hg r hr
    rcases List.mem_cons.mp hg with rfl | hg
    · cases hr
    · exact h.orphaned g hg r hr
  case ios =>
    intro io hio
    rcases h.ios io hio with hcontext | ⟨g, hg, horphan⟩
    · exact .inl hcontext
    · exact .inr ⟨g, List.mem_cons_of_mem _ hg, horphan⟩
  case once => exact h.once

theorem not_mem_owned (h : Accounts w) : w.allocated ∉ w.owned :=
  fun hr => (h.of_mem_owned hr).2.false

/-- A request that is allocated for nobody and freed. -/
theorem waste (h : Accounts w) {q : AsyncReq} (hq : q.freed = 1) (m : ℕ → Msgid) :
    Accounts { w with
      allocated := w.allocated + 1
      reqs := Function.update w.reqs w.allocated q
      msgids := m } := by
  have hold : ∀ r ∈ w.owned, Function.update w.reqs w.allocated q r = w.reqs r :=
    fun r hr => Function.update_of_ne (h.of_mem_owned hr).2.ne q w.reqs
  constructor
  case checkers => exact h.checkers
  case groups => exact h.groups
  case fresh => exact h.fresh
  case listed => exact h.listed
  case holders => exact h.holders
  case full => exact h.full
  case freed =>
    intro r
    have hfreed := h.freed r
    show (Function.update w.reqs w.allocated q r).freed + w.owned.count r =
      if r < w.allocated + 1 then 1 else 0
    by_cases hr : r = w.allocated
    · subst hr
      rw [Function.update_self, hq, List.count_eq_zero.mpr h.not_mem_owned,
        if_pos (Nat.lt_succ_self _)]
    · rw [Function.update_of_ne hr, hfreed]
      split_ifs <;> omega
  case running =>
    intro ct hct
    show (Function.update w.reqs w.allocated q ct.req).state ≠ _ ∧ (_ ↔ _ ∧
      (Function.update w.reqs w.allocated q ct.req).state = _)
    rw [hold ct.req (mem_owned_of_context hct)]
    exact h.running ct hct
  case orphaned =>
    intro g hg r hr
    show (Function.update w.reqs w.allocated q r).state = _ ∧ _
    rw [hold r (mem_owned_of_orphan hg hr)]
    exact h.orphaned g hg r hr
  case ios => exact h.ios
  case once => exact h.once

theorem malloc_free (h : Accounts w) {q : AsyncReq} (hq : q.freed = 0) (m : ℕ → Msgid) :
    Accounts (World.freeReq { w with
      allocated := w.allocated + 1
      reqs := Function.update w.reqs w.allocated q
      msgids := m } w.allocated) := by
  have hfree := freeReq_update (w := { w with allocated := w.allocated + 1, msgids := m })
    (r := w.allocated) q
  exact hfree ▸ h.waste (congrArg (· + 1) hq) m

/-- A request that is allocated for a new context. -/
theorem adopt (h : Accounts w) (hg : g ∈ w.aioGrpList) (hroom : g.holders < aioGroupSize) {c : ℕ}
    (hc : c ∉ w.contexts.map DirectioContext.checker) {q : AsyncReq} (hq : q.freed = 0)
    (hstate : q.state ≠ .removed) (m : ℕ → Msgid) :
    Accounts { w.hold g.ioctx with
      allocated := w.allocated + 1
      reqs := Function.update w.reqs w.allocated q
      contexts := { checker := c, aioGrp := g.ioctx, req := w.allocated } :: w.contexts
      msgids := m } := by
  have hold : ∀ r ∈ w.owned, Function.update w.reqs w.allocated q r = w.reqs r :=
    fun r hr => Function.update_of_ne (h.of_mem_owned hr).2.ne q w.reqs
  constructor
  case checkers => exact List.nodup_cons.mpr ⟨hc, h.checkers⟩
  case groups => exact nodup_updateGroup (w := w) (fun _ => rfl) h.groups
  case fresh =>
    refine fresh_updateGroup (w := w) ?_ h.fresh
    intro _
    rfl
  case listed =>
    intro ct hct
    refine listed_updateGroup (w := w) ?_ ?_
    · intro _
      rfl
    · rcases List.mem_cons.mp hct with rfl | hct
      · exact ⟨g, hg, rfl⟩
      · exact h.listed ct hct
  case holders =>
    intro b hb
    obtain ⟨g', hg', rfl⟩ := mem_updateGroup hb
    have hholders := h.holders g' hg'
    rw [List.countP_cons]
    by_cases heq : g'.ioctx = g.ioctx
    · rw [if_pos heq]
      show g'.holders + 1 = ((w.contexts.countP (fun ct => ct.aioGrp = g'.ioctx) +
        if decide (g.ioctx = g'.ioctx) then 1 else 0 : ℕ) : ℤ) + (g'.orphans.length : ℤ)
      rw [if_pos (decide_eq_true heq.symm)]
      omega
    · rw [if_neg heq, if_neg fun hdec => heq (of_decide_eq_true hdec).symm]
      exact hholders
  case full =>
    intro b hb
    obtain ⟨g', hg', rfl⟩ := mem_updateGroup hb
    have hfull := h.full g' hg'
    by_cases heq : g'.ioctx = g.ioctx
    · obtain rfl := List.inj_on_of_nodup_map h.groups hg' hg heq
      rw [if_pos rfl]
      show g'.holders + 1 ≤ _
      omega
    · rw [if_neg heq]
      exact hfull
  case freed =>
    intro r
    have hfreed := h.freed r
    have howned : (w.hold g.ioctx).owned = w.owned := owned_updateGroup_of_orphans fun _ => rfl
    show (Function.update w.reqs w.allocated q r).freed +
      (w.allocated :: (w.hold g.ioctx).owned).count r = if r < w.allocated + 1 then 1 else 0
    rw [howned, List.count_cons]
    by_cases hr : r = w.allocated
    · subst hr
      rw [Function.update_self, hq, List.count_eq_zero.mpr h.not_mem_owned,
        if_pos (Nat.lt_succ_self _), if_pos (beq_self_eq_true _)]
    · rw [Function.update_of_ne hr, if_neg fun hbeq => hr (beq_iff_eq.mp hbeq).symm, Nat.add_zero,
        hfreed]
      split_ifs <;> omega
  case running =>
    intro ct hct
    rcases List.mem_cons.mp hct with rfl | hct
    · refine ⟨?_, iff_of_false ?_ fun hrunning => hrunning.1 rfl⟩
      · show (Function.update w.reqs w.allocated q w.allocated).state ≠ _
        rw [Function.update_self]
        exact hstate
      · intro hio
        exact h.not_mem_owned (h.mem_owned_of_io hio)
    · show (Function.update w.reqs w.allocated q ct.req).state ≠ _ ∧ (_ ↔ _ ∧
        (Function.update w.reqs w.allocated q ct.req).state = _)
      rw [hold ct.req (mem_owned_of_context hct)]
      exact h.running ct hct
  case orphaned =>
    intro b hb r hr
    obtain ⟨g', hg', rfl⟩ := mem_updateGroup hb
    have hr : r ∈ g'.orphans := by split_ifs at hr <;> exact hr
    show (Function.update w.reqs w.allocated q r).state = _ ∧ _
    rw [hold r (mem_owned_of_orphan hg' hr)]
    split_ifs <;> exact h.orphaned g' hg' r hr
  case ios =>
    intro io hio
    rcases h.ios io hio with ⟨ct, hct, heq⟩ | ⟨g', hg', horphan⟩
    · exact .inl ⟨ct, List.mem_cons_of_mem _ hct, heq⟩
    · refine .inr ⟨_, updateGroup_mem hg', ?_⟩
      split_ifs <;> exact horphan
  case once => exact h.once

end Accounts

end MultipathTools.Directio
