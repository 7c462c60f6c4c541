import MultipathTools.Vecs.Removal

/-! The groups of a map are read from its table: `disassemble_map`, `update_pathvec_from_dm` and
`update_multipath_strings`. -/
namespace MultipathTools.Vecs

variable {E : Misuse → Prop} {env : Env} {s t u : Vectors} {m m' p q : ℕ} {pp pp' : OwnedPath}
  {mpp mpp' : OwnedMap}

section Pending

/-- The paths that a table tells are in the path vector, or are new and told once. -/
structure Pending (s : Vectors) (todo : List ℕ) : Prop where
  found : ∀ p ∈ todo, ∃ pp, s.path p = some pp ∧ (p ∈ s.pathvec ∨ pp.udev = false ∧ pp.devT ≠ [])
  once : ∀ p ∉ s.pathvec, todo.count p ≤ 1

theorem Pending.nil (s : Vectors) : Pending s [] :=
  ⟨fun _ hp => (List.not_mem_nil hp).elim, fun _ _ => by simp⟩

theorem Pending.tail {todo : List ℕ} (h : Pending s (p :: todo)) : Pending s todo :=
  ⟨fun q hq => h.found q (List.mem_cons_of_mem p hq), fun q hq =>
    (List.count_le_count_cons).trans (h.once q hq)⟩

/-- A new path is not told again. -/
theorem Pending.not_mem {todo : List ℕ} (h : Pending s (p :: todo)) (hp : p ∉ s.pathvec) : p ∉ todo := by
  have honce := h.once p hp
  rw [List.count_cons_self] at honce
  exact List.count_eq_zero.mp (by omega)

/-- The other paths are as before. -/
theorem Pending.other {todo : List ℕ} (h : Pending s todo) (hp : p ∉ todo)
    (hpath : ∀ q, q ≠ p → t.path q = s.path q) (hvec : ∀ q, q ≠ p → (q ∈ t.pathvec ↔ q ∈ s.pathvec)) :
    Pending t todo := by
  constructor
  · intro q hq
    have hne : q ≠ p := fun heq => hp (heq ▸ hq)
    obtain ⟨pp, hpp, hfound⟩ := h.found q hq
    exact ⟨pp, (hpath q hne).trans hpp, hfound.imp_left (hvec q hne).mpr⟩
  · intro q hq
    by_cases hne : q = p
    · subst hne
      rw [List.count_eq_zero.mpr hp]
      omega
    · exact h.once q fun hmem => hq ((hvec q hne).mpr hmem)

/-- A path of the path vector is written. -/
theorem Pending.setPath {todo : List ℕ} (h : Pending s todo) (hp : p ∈ s.pathvec) :
    Pending (s.setPath p pp') todo := by
  refine ⟨fun q hq => ?_, h.once⟩
  by_cases hne : q = p
  · subst hne
    exact ⟨pp', Vectors.setPath_self _ _ _, .inl hp⟩
  · obtain ⟨pp, hpp, hfound⟩ := h.found q hq
    exact ⟨pp, (Vectors.setPath_of_ne _ _ hne).trans hpp, hfound⟩

/-- A path that is told belongs to the map at `m` and has its WWID. -/
def Taken (m : ℕ) (mpp : OwnedMap) (s : Vectors) (p : ℕ) : Prop :=
  p ∈ s.pathvec ∧ ∃ pp, s.path p = some pp ∧ pp.mpp = some m ∧ pp.wwid = mpp.wwid

end Pending

section Disassembly

/-- While `disassemble_map` looks up the devices of a table and has found `told`. -/
structure Looking (m : ℕ) (s : Vectors) (told : List ℕ) (t : Vectors) : Prop where
  map : t.map = s.map
  touches : Touches m s t
  pending : Pending t told

theorem touches_allocPath (h : Owned s) (hnamed : pp.devT ≠ [] ∨ pp.dev ≠ []) (hmpp : pp.mpp = none) :
    Touches m s { s.setPath s.nextPath pp with nextPath := s.nextPath + 1 } := by
  refine ⟨h.allocPath hnamed hmpp, rfl, fun _ _ => rfl, fun mpp hm => ⟨mpp, hm, rfl⟩, fun q qq hq => ?_⟩
  by_cases hne : q = s.nextPath
  · subst hne
    obtain rfl := Option.some.inj ((s.setPath_self s.nextPath pp).symm.trans hq)
    exact .inl hmpp
  · exact .inr (.inr ⟨qq, (s.setPath_of_ne pp hne).symm.trans hq, rfl⟩)

theorem disassemblePath_spec {told : List ℕ} {devT : Devt} (h : Looking m s told t) :
    wp E (disassemblePath devT) (fun b t => Looking m s (told ++ b.toList) t) t := by
  have howned := h.touches.owned
  refine wp_get_bind ((findPathByDevt_spec fun q hq => howned.listedPath hq).bind ?_)
  rintro found u ⟨rfl, hfound, -⟩
  cases found with
  | some p =>
    obtain ⟨hmem, pp, hpp, -⟩ := hfound p rfl
    refine ⟨h.map, h.touches, fun q hq => ?_, fun q hq => ?_⟩
    · obtain hq | hq := List.mem_append.mp hq
      · exact h.pending.found q hq
      · rw [Option.toList_some, List.mem_singleton] at hq
        exact ⟨pp, hq ▸ hpp, .inl (hq ▸ hmem)⟩
    · have hne : p ≠ q := fun heq => hq (heq ▸ hmem)
      rw [List.count_append, Option.toList_some, List.count_singleton, beq_false_of_ne hne]
      exact h.pending.once q hq
  | none =>
    -- a path is made for the device
    have hfresh := howned.freshPath _ le_rfl
    have hnot : u.nextPath ∉ told := fun hmem => by
      obtain ⟨pp, hpp, -⟩ := h.pending.found _ hmem
      rw [hfresh] at hpp
      cases hpp
    have halloc : Touches m u { u.setPath u.nextPath { devT := devT.1 } with nextPath := u.nextPath + 1 } :=
      touches_allocPath howned (.inl devT.2) rfl
    have hpending := h.pending.other (t := { u.setPath u.nextPath { devT := devT.1 } with
      nextPath := u.nextPath + 1 }) hnot (fun q hne => u.setPath_of_ne _ hne) fun _ _ => Iff.rfl
    refine wp_bind.mpr (wp_get_bind ⟨h.map, h.touches.trans halloc, fun q hq => ?_, fun q hq => ?_⟩)
    · obtain hq | hq := List.mem_append.mp hq
      · exact hpending.found q hq
      · rw [Option.toList_some, List.mem_singleton] at hq
        exact ⟨{ devT := devT.1 }, hq ▸ u.setPath_self u.nextPath _, .inr ⟨rfl, devT.2⟩⟩
    · rw [List.count_append, Option.toList_some, List.count_singleton]
      by_cases hne : u.nextPath = q
      · subst hne
        rw [List.count_eq_zero.mpr hnot, beq_self_eq_true]
        rfl
      · rw [beq_false_of_ne hne]
        exact hpending.once q hq

/-- `disassemble_map` -/
theorem disassembleMap_spec (h : Owned s) (pgs : List (List Devt)) :
    wp E (disassembleMap pgs) (fun found t => Looking m s found.flatten t) s := by
  refine wp_keepM (fun found _ t => Looking m s found.flatten t) ?_ ⟨rfl, .refl h, .nil s⟩
  intro found pg _ t ht
  have hloop : wp E (keepM disassemblePath pg) (fun paths u => Looking m s (found.flatten ++ paths) u) t := by
    refine wp_keepM (fun paths _ u => Looking m s (found.flatten ++ paths) u) ?_ (by simpa using ht)
    intro paths devT _ u hu
    refine (disassemblePath_spec hu).mono fun b v hv => ?_
    rwa [← List.append_assoc]
  refine hloop.bind fun paths u hu => ?_
  show Looking m s (found ++ [paths]).flatten u
  rwa [List.flatten_append, List.flatten_cons, List.flatten_nil, List.append_nil]

end Disassembly

section Visits

/-- While `update_pathvec_from_dm` has come to `todo` and has kept `done`; the map at `m` has no
groups meanwhile. -/
structure Visiting (m : ℕ) (mpp : OwnedMap) (done todo : List ℕ) (s t : Vectors) : Prop where
  map : t.map = s.map
  touches : Touches m s t
  pending : Pending t todo
  taken : ∀ p ∈ done, Taken m mpp t p

/-- The path at the front is not kept. -/
theorem Visiting.skip {done todo : List ℕ} (h : Visiting m mpp done (p :: todo) s t) :
    Visiting m mpp done todo s t := ⟨h.map, h.touches, h.pending.tail, h.taken⟩

/-- The path at the front, which is in the path vector, is written. -/
theorem Visiting.write {done todo : List ℕ} (h : Visiting m mpp done (p :: todo) s t)
    (hp : t.path p = some pp) (hmem : p ∈ t.pathvec) (hwritten : Owned (t.setPath p pp'))
    (hmpp : pp'.mpp = none ∨ pp'.mpp = some m) (htaken : Taken m mpp t p → Taken m mpp (t.setPath p pp') p) :
    Visiting m mpp done todo s (t.setPath p pp') := by
  refine ⟨h.map, h.touches.trans (touches_setPath hp hwritten (hmpp.imp_right .inl)),
    h.pending.tail.setPath hmem, fun q hq => ?_⟩
  by_cases hne : q = p
  · subst hne
    exact htaken (h.taken q hq)
  · obtain ⟨hvec, qq, hqq, hrest⟩ := h.taken q hq
    exact ⟨hvec, qq, (Vectors.setPath_of_ne _ _ hne).trans hqq, hrest⟩

/-- The path at the front is kept. -/
theorem Visiting.push {done todo : List ℕ} (h : Visiting m mpp done todo s t) (hp : Taken m mpp t p) :
    Visiting m mpp (done ++ [p]) todo s t := by
  refine ⟨h.map, h.touches, h.pending, fun q hq => ?_⟩
  obtain hq | hq := List.mem_append.mp hq
  · exact h.taken q hq
  · exact List.mem_singleton.mp hq ▸ hp

/-- The new path at the front is freed. -/
theorem Visiting.free {done todo : List ℕ} (h : Visiting m mpp done (p :: todo) s t)
    (hnot : p ∉ t.pathvec) : Visiting m mpp done todo s (t.dropPath p) := by
  have howned := h.touches.owned
  have hfreed : Owned (({ t with pathvec := t.pathvec } : Vectors).dropPath p) :=
    howned.free (howned.unlisted_of_not_mem hnot) howned.nodup fun q =>
      ⟨fun hq => ⟨hq, fun heq => hnot (heq ▸ hq)⟩, And.left⟩
  refine ⟨h.map, h.touches.trans (touches_free hfreed),
    h.pending.tail.other (h.pending.not_mem hnot) (fun q hne => Function.update_of_ne hne _ _)
      (fun _ _ => Iff.rfl), fun q hq => ?_⟩
  obtain ⟨hvec, qq, hqq, hrest⟩ := h.taken q hq
  have hne : q ≠ p := fun heq => hnot (heq ▸ hvec)
  exact ⟨hvec, qq, (Function.update_of_ne hne _ _).trans hqq, hrest⟩

/-- The new path at the front is put into the path vector. -/
theorem Visiting.discover {done todo : List ℕ} (h : Visiting m mpp done (p :: todo) s t)
    (hm : s.map m = some mpp) (hp : t.path p = some pp) (hnot : p ∉ t.pathvec) (hudev : pp'.udev = true)
    (hnamed : pp'.devT ≠ [] ∨ pp'.dev ≠ [])
    (howner : pp'.mpp = none ∨ pp'.mpp = some m ∧ pp'.wwid = mpp.wwid) :
    Visiting m mpp done todo s ({ t with pathvec := t.pathvec ++ [p] }.setPath p pp') := by
  have howned := h.touches.owned
  have hunlisted := howned.unlisted_of_not_mem hnot
  have hnew : Owned (t.setPath p { pp' with mpp := none }) :=
    howned.setPath hp (fun _ => hudev) hnamed (.inl hunlisted) nofun
  have hpush := hnew.push (Vectors.setPath_self _ _ _) hudev hnot
  have hmap : t.map m = some mpp := h.map ▸ hm
  have hwritten : Owned (Vectors.setPath { t.setPath p { pp' with mpp := none } with
      pathvec := (t.setPath p { pp' with mpp := none }).pathvec ++ [p] } p pp') :=
    hpush.setPath (Vectors.setPath_self _ _ _) id hnamed
      (.inl fun m' mpp' hm' => hunlisted m' mpp' hm') fun m' hmpp => by
      obtain hnone | ⟨hsome, hwwid⟩ := howner
      · rw [hnone] at hmpp
        cases hmpp
      · obtain rfl := Option.some.inj (hsome.symm.trans hmpp)
        exact ⟨List.mem_append_right _ (List.mem_singleton_self p), mpp, hmap, fun _ => .inr hwwid⟩
  have hsame : Vectors.setPath { t.setPath p { pp' with mpp := none } with
      pathvec := (t.setPath p { pp' with mpp := none }).pathvec ++ [p] } p pp' =
      { t with pathvec := t.pathvec ++ [p] }.setPath p pp' := by
    unfold Vectors.setPath
    simp only [Function.update_idem]
  rw [hsame] at hwritten
  have hother (q : ℕ) (hne : q ≠ p) :
      (Vectors.setPath { t with pathvec := t.pathvec ++ [p] } p pp').path q = t.path q :=
    Vectors.setPath_of_ne _ _ hne
  refine ⟨h.map, h.touches.trans ⟨hwritten, rfl, fun _ _ => rfl, fun mpp hm => ⟨mpp, hm, rfl⟩,
    fun q qq hq => ?_⟩, h.pending.tail.other (h.pending.not_mem hnot) hother fun q hne => ?_, fun q hq => ?_⟩
  · by_cases hne : q = p
    · subst hne
      obtain rfl := Option.some.inj ((Vectors.setPath_self _ _ _).symm.trans hq)
      exact howner.imp_right fun hown => .inl hown.1
    · exact .inr (.inr ⟨qq, (hother q hne).symm.trans hq, rfl⟩)
  · show q ∈ t.pathvec ++ [p] ↔ q ∈ t.pathvec
    simp [hne]
  · obtain ⟨hvec, qq, hqq, hrest⟩ := h.taken q hq
    have hne : q ≠ p := fun heq => hnot (heq ▸ hvec)
    exact ⟨List.mem_append_left _ hvec, qq, (hother q hne).trans hqq, hrest⟩

theorem Visiting.calls {done todo : List ℕ} (h : Visiting m mpp done todo s t) (n : ℕ) :
    Visiting m mpp done todo s { t with calls := n } :=
  ⟨h.map, h.touches.calls n, ⟨h.pending.found, h.pending.once⟩, h.taken⟩

theorem compareWwid_spec (hp : s.path p = some pp) (hmpp : pp.mpp = some m) (hm : s.map m = some mpp)
    (hwwid : mpp.wwid ≠ []) :
    wp E (compareWwid m p) (fun b t =>
      b = none ∧ t = s.setPath p { pp with mpp := none } ∧ pp.wwid ≠ [] ∧ pp.wwid ≠ mpp.wwid ∨
      b = some p ∧ t = s.setPath p { pp with wwid := mpp.wwid }) s := by
  refine wp_load hp (wp_loadMap hm ?_)
  rw [if_neg hwwid]
  split_ifs with hother hempty
  · refine wp_bind.mpr (wp_load hp ?_)
    rw [hmpp]
    refine wp_bind.mpr (wp_loadMap hm (.inl ⟨rfl, rfl, hother.1, fun heq => hother.2 heq.symm⟩))
  · exact wp_write (.inr ⟨rfl, rfl⟩)
  · have hsame : mpp.wwid = pp.wwid := by
      by_contra hne
      exact hother ⟨hempty, hne⟩
    refine .inr ⟨rfl, ?_⟩
    rw [hsame]
    exact (setPath_eq_self hp).symm

/-- What `update_pathvec_from_dm` does with a new path. -/
inductive Discovered (s : Vectors) (p : ℕ) (mpp : Option ℕ) : Bool → Vectors → Prop where
  | freed (n : ℕ) : Discovered s p mpp false (({ s with calls := n } : Vectors).dropPath p)
  | stored (n : ℕ) (pp : OwnedPath) (hmpp : pp.mpp = mpp) (hudev : pp.udev = true)
      (hnamed : pp.devT ≠ [] ∨ pp.dev ≠ []) :
      Discovered s p mpp true (({ s with calls := n, pathvec := s.pathvec ++ [p] } : Vectors).setPath p pp)

theorem discoverPath_spec (hdevt : pp.devT ≠ []) :
    wp E (discoverPath env p) (Discovered s p pp.mpp) (s.setPath p pp) := by
  have hload (n : ℕ) : ({ s.setPath p pp with calls := n } : Vectors).path p = some pp := s.setPath_self p pp
  have hdrop (n : ℕ) : ({ s.setPath p pp with calls := n } : Vectors).dropPath p =
      ({ s with calls := n } : Vectors).dropPath p := by
    unfold Vectors.setPath Vectors.dropPath
    simp only [Function.update_idem]
  have hset (n : ℕ) (pp' : OwnedPath) :
      ({ ({ s.setPath p pp with calls := n } : Vectors).setPath p pp' with
        pathvec := s.pathvec ++ [p] } : Vectors) =
      ({ s with calls := n, pathvec := s.pathvec ++ [p] } : Vectors).setPath p pp' := by
    unfold Vectors.setPath
    simp only [Function.update_idem]
  have hfreed (n : ℕ) :
      Discovered s p pp.mpp false (({ s.setPath p pp with calls := n } : Vectors).dropPath p) := by
    rw [hdrop]
    exact .freed n
  refine wp_load (s.setPath_self p pp) (wp_ask ?_)
  cases env.udevDevice (s.setPath p pp).calls with
  | none => exact wp_bind.mpr (wp_load (hload _) (hfreed _))
  | some dev =>
    refine wp_ask ?_
    have hinfo := pathinfo_kept (env.pathinfo (s.calls + 1)) { sysfs := true, wwid := true, blacklist := true }
      { pp with udev := true, dev }
    dsimp only [Vectors.setPath]
    generalize pathinfo (env.pathinfo (s.calls + 1)) { sysfs := true, wwid := true, blacklist := true }
      { pp with udev := true, dev } = r at hinfo ⊢
    obtain ⟨pp', rc⟩ := r
    have hnamed := hinfo.named (.inl hdevt)
    split_ifs with hrc
    · exact wp_bind.mpr (wp_load (hload _) (hfreed _))
    · refine wp_write (wp_get_bind ?_)
      rw [storePath_of_named _ _ hnamed]
      have hstored := Discovered.stored (s := s) (p := p) (s.calls + 1 + 1) pp' hinfo.mpp hinfo.udev hnamed
      rw [← hset] at hstored
      exact wp_modify_bind hstored

/-- The path at the front has another WWID than the map. -/
theorem Visiting.orphan {done todo : List ℕ} (h : Visiting m mpp done (p :: todo) s t)
    (hp : t.path p = some pp) (hmem : p ∈ t.pathvec) (hslots : mpp.slots = []) (hm : t.map m = some mpp)
    (hmine : pp.mpp = none ∨ pp.mpp = some m) (hnonempty : pp.wwid ≠ []) (hdiffers : pp.wwid ≠ mpp.wwid) :
    Visiting m mpp done todo s (t.setPath p { pp with mpp := none }) := by
  have howned := h.touches.owned
  have hunlisted : Unlisted t p := by
    obtain hnone | hmpp := hmine
    · exact howned.unlisted_of_none hp hnone
    · intro m' mpp' hm'
      by_cases hne : m' = m
      · subst hne
        obtain rfl := Option.some.inj (hm.symm.trans hm')
        refine ⟨fun hlist => ?_, by simp [hslots]⟩
        obtain ⟨-, qq, hqq, -, hinit⟩ := howned.member m' mpp hm p hlist
        obtain rfl := Option.some.inj (hp.symm.trans hqq)
        obtain ⟨-, mm, hmm, hsame⟩ := howned.owner p pp m' hp hmpp
        obtain rfl := Option.some.inj (hm.symm.trans hmm)
        exact (hsame hinit).elim hnonempty hdiffers
      · exact howned.not_listed hp hmpp hm' hne
  have hwritten : Owned (t.setPath p { pp with mpp := none }) :=
    howned.setPath hp id (howned.named p pp hp) (.inl hunlisted) nofun
  refine h.write hp hmem hwritten (.inl rfl) fun htaken => ?_
  obtain ⟨-, qq, hqq, -, hsame⟩ := htaken
  obtain rfl := Option.some.inj (hp.symm.trans hqq)
  exact absurd hsame hdiffers

/-- The path at the front is taken by the map. -/
theorem Visiting.take {done todo : List ℕ} (h : Visiting m mpp done (p :: todo) s t)
    (hp : t.path p = some pp) (hmem : p ∈ t.pathvec) (hm : t.map m = some mpp)
    (hmine : pp.mpp = none ∨ pp.mpp = some m) :
    Visiting m mpp (done ++ [p]) todo s (t.setPath p { pp with mpp := some m, wwid := mpp.wwid }) := by
  have howned := h.touches.owned
  have htaken : Taken m mpp (t.setPath p { pp with mpp := some m, wwid := mpp.wwid }) p :=
    ⟨hmem, _, t.setPath_self p _, rfl, rfl⟩
  have hwritten : Owned (t.setPath p { pp with mpp := some m, wwid := mpp.wwid }) := by
    refine howned.setPath hp id (howned.named p pp hp) ?_ fun m' hmpp => ?_
    · obtain hnone | hmpp := hmine
      · exact .inl (howned.unlisted_of_none hp hnone)
      · exact .inr ⟨hmpp.symm, .inl⟩
    · obtain rfl := Option.some.inj hmpp
      exact ⟨hmem, mpp, hm, fun _ => .inr rfl⟩
  exact (h.write hp hmem hwritten (.inr rfl) fun _ => htaken).push htaken

theorem visitPath_spec {done todo : List ℕ} (h : Visiting m mpp done (p :: todo) s t)
    (hm : s.map m = some mpp) (hwwid : mpp.wwid ≠ []) (hslots : mpp.slots = []) :
    wp E (visitPath env m p) (fun b t => Visiting m mpp (done ++ b.toList) todo s t) t := by
  have howned := h.touches.owned
  have hmap : t.map m = some mpp := h.map ▸ hm
  obtain ⟨pp, hpp, hfound⟩ := h.pending.found p List.mem_cons_self
  refine wp_load hpp ?_
  split_ifs with hother hudev
  · obtain ⟨m', hm'⟩ := Option.ne_none_iff_exists'.mp hother.1
    obtain ⟨-, mpp', hmap', -⟩ := howned.owner p pp m' hpp hm'
    rw [hm']
    refine wp_bind.mpr (wp_loadMap hmap' ?_)
    show Visiting m mpp (done ++ []) todo s t
    rw [List.append_nil]
    exact h.skip
  · -- the path is known
    have hmem : p ∈ t.pathvec := hfound.resolve_right fun hnew => by simp [hnew.1] at hudev
    have hmine : pp.mpp = none ∨ pp.mpp = some m := by
      by_contra hne
      exact hother ⟨fun heq => hne (.inl heq), fun heq => hne (.inr heq)⟩
    refine wp_write ?_
    refine (compareWwid_spec (t.setPath_self p { pp with mpp := some m }) rfl hmap hwwid).mono ?_
    rintro b v (⟨rfl, rfl, hnonempty, hdiffers⟩ | ⟨rfl, rfl⟩)
    · show Visiting m mpp (done ++ []) todo s _
      rw [List.append_nil, setPath_setPath]
      have horphaned := h.orphan hpp hmem hslots hmap hmine hnonempty hdiffers
      exact horphaned
    · rw [setPath_setPath]
      have htaken := h.take hpp hmem hmap hmine
      exact htaken
  · -- the path is new
    have hmem : p ∉ t.pathvec := fun hmem => by
      obtain ⟨qq, hqq, hudev'⟩ := howned.listed p hmem
      obtain rfl := Option.some.inj (hpp.symm.trans hqq)
      exact hudev hudev'
    have hdevt := (hfound.resolve_left hmem).2
    refine wp_write ?_
    have hdiscover : wp E (discoverPath env p) (Discovered t p (some m))
        (t.setPath p { pp with mpp := some m }) := discoverPath_spec hdevt
    refine hdiscover.bind ?_
    intro there u hdone
    cases hdone with
    | freed n =>
      show Visiting m mpp (done ++ []) todo s _
      rw [List.append_nil]
      exact (h.calls n).free hmem
    | stored n pp' hmpp hudev' hnamed =>
      have hasked := h.calls n
      have hmap' : (({ t with calls := n, pathvec := t.pathvec ++ [p] } : Vectors).setPath p pp').map m =
          some mpp := hmap
      show wp E (compareWwid m p) _ _
      refine (compareWwid_spec (Vectors.setPath_self _ p pp') hmpp hmap' hwwid).mono ?_
      rintro b v (⟨rfl, rfl, -, -⟩ | ⟨rfl, rfl⟩)
      · show Visiting m mpp (done ++ []) todo s _
        rw [List.append_nil, setPath_setPath]
        exact hasked.discover hm hpp hmem hudev' hnamed (.inl rfl)
      · rw [setPath_setPath]
        refine (hasked.discover hm hpp hmem ?_ ?_ ?_).push
          ⟨List.mem_append_right _ (List.mem_singleton_self p), _,
          Vectors.setPath_self _ _ _, hmpp, rfl⟩
        · exact hudev'
        · exact hnamed
        · exact .inr ⟨hmpp, rfl⟩

/-- `update_pathvec_from_dm` -/
theorem updatePathvecFromDm_spec {found : List (List ℕ)} (h : Visiting m mpp [] found.flatten s t)
    (hm : s.map m = some mpp) (hslots : mpp.slots = []) :
    wp E (updatePathvecFromDm env m found) (fun pg t => Visiting m mpp pg.flatten [] s t) t := by
  have hmap : t.map m = some mpp := h.map ▸ hm
  have hwwid := h.touches.owned.wwid m mpp hmap
  have hguess : wp E (guessMppWwid m found) (fun _ u => u = t) t := by
    refine wp_loadMap hmap ?_
    rw [if_pos hwwid]
    rfl
  refine hguess.bind ?_
  rintro _ _ rfl
  have hloop (kept : List (List ℕ)) (pg : List ℕ) (todo : List (List ℕ)) (u : Vectors)
      (hu : Visiting m mpp kept.flatten (pg :: todo).flatten s u) :
      wp E (keepM (visitPath env m) pg)
        (fun paths v => Visiting m mpp (kept.flatten ++ paths) ([] ++ todo.flatten) s v) u := by
    refine wp_keepM (fun paths rest v =>
      Visiting m mpp (kept.flatten ++ paths) (rest ++ todo.flatten) s v) ?_ ?_
    · intro paths p rest v hv
      refine (visitPath_spec hv hm hwwid hslots).mono fun b w hw => ?_
      rwa [← List.append_assoc]
    · rwa [List.append_nil]
  refine wp_keepM (fun kept todo u => Visiting m mpp kept.flatten todo.flatten s u) ?_ h
  intro kept pg todo u hu
  refine (hloop kept pg todo u hu).bind fun paths v hv => ?_
  show Visiting m mpp (kept ++ (if paths = [] then none else some paths).toList).flatten todo.flatten s v
  split_ifs with hempty
  · rw [hempty, List.append_nil, List.nil_append] at hv
    show Visiting m mpp (kept ++ []).flatten todo.flatten s v
    rwa [List.append_nil]
  · rw [Option.toList_some, List.flatten_append, List.flatten_cons, List.flatten_nil, List.append_nil]
    exact hv

/-- `update_multipath_table` -/
theorem updateMultipathTable_spec (h : Owned s) (hm : s.map m = some mpp) (hslots : mpp.slots = []) :
    wp E (updateMultipathTable env m) (fun _ t => Touches m s t) s := by
  have hasked : Touches m s { s with calls := s.calls + 1 } := (Touches.refl h).calls _
  refine wp_ask ?_
  cases env.table s.calls with
  | notFound => exact hasked
  | error => exact hasked
  | table size pgs readable =>
    have hmap : ({ s with calls := s.calls + 1 } : Vectors).map m = some mpp := hm
    generalize ({ s with calls := s.calls + 1 } : Vectors) = u at hasked hmap ⊢
    have howned : Owned (u.setMap m { mpp with size }) :=
      hasked.owned.setMap hmap rfl (hasked.owned.distinct m mpp hmap) (hasked.owned.member m mpp hmap)
        (hasked.owned.grouped m mpp hmap)
    have hsized := hasked.trans (touches_setMap hmap howned rfl)
    have hmap' := u.setMap_self m { mpp with size }
    refine wp_loadMap hmap (wp_writeMap ((disassembleMap_spec (m := m) howned pgs).bind fun found v hv => ?_))
    have hlooked := hsized.trans hv.touches
    split_ifs with hreadable hempty
    · exact hlooked
    · exact hlooked
    · have hstart : Visiting m { mpp with size } [] found.flatten (u.setMap m { mpp with size }) v :=
        ⟨hv.map, hv.touches, hv.pending, nofun⟩
      refine (updatePathvecFromDm_spec hstart hmap' hslots).bind fun pg w hw => ?_
      have hmapw : w.map m = some { mpp with size } := hw.map ▸ hmap'
      have hgrouped : Owned (w.setMap m { { mpp with size } with pg := some pg }) := by
        have hdistinct := hw.touches.owned.distinct m _ hmapw
        have hmember := hw.touches.owned.member m _ hmapw
        refine hw.touches.owned.setMap hmapw rfl hdistinct hmember fun p hp => ?_
        obtain ⟨hmem, pp, hpp, hmpp, -⟩ := hw.taken p hp
        exact ⟨hmem, pp, hpp, hmpp⟩
      exact wp_loadMap hmapw ((hsized.trans hw.touches).trans (touches_setMap hmapw hgrouped rfl))

theorem usePaths_spec (h : Owned s) (hm : s.map m = some mpp) : wp E (usePaths m) (fun _ t => t = s) s := by
  refine wp_loadMap hm ?_
  have hstep (p : ℕ) (todo : List ℕ) (t : Vectors) (ht : t = s ∧ p :: todo ⊆ mpp.slots) :
      wp E (usePath p) (fun _ t => t = s ∧ todo ⊆ mpp.slots) t := by
    obtain ⟨rfl, hsub⟩ := ht
    obtain ⟨-, pp, hpp, -⟩ := h.grouped m mpp hm p (hsub List.mem_cons_self)
    exact wp_load hpp ⟨rfl, List.Subset.trans (List.subset_cons_self p todo) hsub⟩
  refine (wp_forM (fun todo t => t = s ∧ todo ⊆ mpp.slots) hstep ?_).mono fun _ _ ht => ht.1
  exact ⟨rfl, List.Subset.refl _⟩

/-- `update_multipath_strings` -/
theorem updateMultipathStrings_spec (h : Owned s) (hm : s.map m = some mpp) :
    wp E (updateMultipathStrings env m) (fun _ t => Touches m s t) s := by
  refine (updateMppPaths_spec h hm).bind ?_
  rintro _ u ⟨-, hgrown⟩
  have hu := hgrown.touches hm
  obtain ⟨mpp', hm', -⟩ := hu.same mpp hm
  have hbare : Owned (u.setMap m { mpp' with pg := none }) :=
    hu.owned.setMap hm' rfl (hu.owned.distinct m mpp' hm') (hu.owned.member m mpp' hm')
      fun _ hp => (List.not_mem_nil hp).elim
  have hfreed := hu.trans (touches_setMap hm' hbare rfl)
  refine wp_loadMap hm' (wp_writeMap ?_)
  refine (updateMultipathTable_spec hbare (u.setMap_self m _) rfl).bind fun rc v hv => ?_
  have hread := hfreed.trans hv
  split_ifs with hrc
  · exact hread
  obtain ⟨mpp'', hm'', -⟩ := hread.same mpp hm
  refine (syncPaths_spec hread.owned hm'').bind fun _ w hw => wp_ask ?_
  have hsynced := (hread.trans hw).calls (w.calls + 1)
  obtain ⟨mpp₂, hm₂, -⟩ := hsynced.same mpp hm
  refine (usePaths_spec hsynced.owned hm₂).bind ?_
  rintro _ _ rfl
  exact hsynced

end Visits

end MultipathTools.Vecs
