import MultipathTools.Vecs.Operations

/-! Maps and paths are removed: `orphan_paths`, `remove_map`, `verify_paths` and `sync_paths`. -/
namespace MultipathTools.Vecs

variable {E : Misuse → Prop} {env : Env} {s t u : Vectors} {m m' p q : ℕ} {pp pp' : OwnedPath}
  {mpp mpp' : OwnedMap}

section Orphans

/-- What `orphan_paths` leaves of a path. -/
def orphaned (m : ℕ) (pp : OwnedPath) : Option OwnedPath :=
  if pp.mpp = some m then
    if pp.initialized = .removed then none else some { pp with mpp := none }
  else some pp

namespace Vectors

/-- The paths of the map at `m` have no owner any more; the removed ones are freed. -/
def orphaned (s : Vectors) (m : ℕ) : Vectors :=
  { s with
    path := fun q => (s.path q).bind (Vecs.orphaned m)
    pathvec := s.pathvec.filter fun q => ((s.path q).bind (Vecs.orphaned m)).isSome }

/-- The same in the middle of the loop, when the paths of `done` have been visited. -/
def orphaning (s : Vectors) (m : ℕ) (done : List ℕ) : Vectors :=
  { s with path := fun q => if q ∈ done then (s.path q).bind (Vecs.orphaned m) else s.path q }

/-- A map that lists nothing, in the place of the map at `m`. -/
def stripped (s : Vectors) (m : ℕ) (mpp : OwnedMap) : Vectors :=
  s.setMap m { mpp with paths := [], pg := none }

end Vectors

theorem orphaned_mpp (h : orphaned m pp = some pp') : pp'.mpp ≠ some m := by
  unfold orphaned at h
  split_ifs at h with hmpp
  · obtain rfl := Option.some.inj h
    nofun
  · obtain rfl := Option.some.inj h
    exact hmpp

theorem orphaned_kept (h : orphaned m pp = some pp') :
    pp'.udev = pp.udev ∧ pp'.devT = pp.devT ∧ pp'.dev = pp.dev ∧ pp'.wwid = pp.wwid ∧
      pp'.initialized = pp.initialized ∧ (pp'.mpp = none ∨ pp'.mpp = pp.mpp) := by
  unfold orphaned at h
  split_ifs at h
  · obtain rfl := Option.some.inj h
    exact ⟨rfl, rfl, rfl, rfl, rfl, .inl rfl⟩
  · obtain rfl := Option.some.inj h
    exact ⟨rfl, rfl, rfl, rfl, rfl, .inr rfl⟩

theorem orphaned_eq_none_iff :
    orphaned m pp = none ↔ pp.mpp = some m ∧ pp.initialized = .removed := by
  unfold orphaned
  split_ifs with hmpp hremoved
  · exact iff_of_true rfl ⟨hmpp, hremoved⟩
  · exact iff_of_false nofun fun h => hremoved h.2
  · exact iff_of_false nofun fun h => hmpp h.1

theorem orphaned_of_owned (hmpp : pp.mpp = some m) (h : pp.initialized ≠ .removed) :
    orphaned m pp = some { pp with mpp := none } := by
  rw [orphaned, if_pos hmpp, if_neg h]

theorem orphaned_of_ne (h : pp.mpp ≠ some m) : orphaned m pp = some pp := if_neg h

theorem orphaning_path {done : List ℕ} (hnot : p ∉ done) :
    (s.orphaning m done).path p = s.path p := if_neg hnot

theorem orphaning_concat (done : List ℕ) (hp : s.path p = some pp) :
    s.orphaning m (done ++ [p]) = match orphaned m pp with
      | some pp' => (s.orphaning m done).setPath p pp'
      | none => (s.orphaning m done).dropPath p := by
  have hpath : (s.orphaning m (done ++ [p])).path =
      Function.update (s.orphaning m done).path p (orphaned m pp) := by
    funext q
    by_cases hq : q = p
    · subst hq
      simp [Vectors.orphaning, hp]
    · simp [Vectors.orphaning, hq]
  have hstate : s.orphaning m (done ++ [p]) = { s.orphaning m done with
      path := Function.update (s.orphaning m done).path p (orphaned m pp) } := by
    rw [← hpath]
    rfl
  rw [hstate]
  cases orphaned m pp <;> rfl

/-- The path is visited. -/
theorem orphanOwn_spec {done : List ℕ} (hp : s.path p = some pp) (hnot : p ∉ done)
    (hm : s.map m = some mpp) :
    wp E (orphanOwn m p) (fun b t => b = (if (orphaned m pp).isSome then some p else none) ∧
      t = s.orphaning m (done ++ [p])) (s.orphaning m done) := by
  have hload : (s.orphaning m done).path p = some pp := (orphaning_path hnot).trans hp
  refine wp_load hload ?_
  rw [orphaning_concat done hp]
  by_cases hmpp : pp.mpp = some m
  · rw [if_pos hmpp]
    by_cases hremoved : pp.initialized = .removed
    · rw [if_pos hremoved, orphaned_eq_none_iff.mpr ⟨hmpp, hremoved⟩]
      exact wp_bind.mpr (wp_load hload ⟨rfl, rfl⟩)
    · rw [if_neg hremoved, orphaned_of_owned hmpp hremoved]
      refine wp_bind.mpr (wp_load hload ?_)
      rw [hmpp]
      exact wp_bind.mpr (wp_loadMap hm ⟨rfl, rfl⟩)
  · rw [if_neg hmpp, orphaned_of_ne hmpp]
    refine ⟨rfl, ?_⟩
    show _ = Vectors.setPath _ p pp
    unfold Vectors.setPath
    rw [← hload, Function.update_eq_self]

/-- `orphan_paths` -/
theorem orphanPaths_run (hlisted : ∀ p ∈ s.pathvec, ∃ pp, s.path p = some pp) (hnodup : s.pathvec.Nodup)
    (howner : ∀ p pp, s.path p = some pp → pp.mpp = some m → p ∈ s.pathvec) (hm : s.map m = some mpp) :
    wp E (orphanPaths m) (fun _ t => t = s.orphaned m) s := by
  have hloop : wp E (keepM (orphanOwn m) s.pathvec) (fun v t => ∃ done,
      s.pathvec = done ++ [] ∧ v = done.filter (fun q => ((s.path q).bind (orphaned m)).isSome) ∧
        t = s.orphaning m done) s := by
    refine wp_keepM (fun v todo t => ∃ done, s.pathvec = done ++ todo ∧
      v = done.filter (fun q => ((s.path q).bind (orphaned m)).isSome) ∧ t = s.orphaning m done) ?_ ?_
    · rintro _ p todo _ ⟨done, hvec, rfl, rfl⟩
      have hmem : p ∈ s.pathvec := by simp [hvec]
      obtain ⟨pp, hpp⟩ := hlisted p hmem
      have hnot : p ∉ done := fun hp => by
        rw [hvec] at hnodup
        exact List.disjoint_of_nodup_append hnodup hp List.mem_cons_self
      refine (orphanOwn_spec hpp hnot hm).mono ?_
      rintro _ _ ⟨rfl, rfl⟩
      refine ⟨done ++ [p], by simp [hvec], ?_, rfl⟩
      rw [List.filter_append]
      cases hb : (orphaned m pp).isSome <;> simp [hpp, hb]
    · exact ⟨[], rfl, rfl, by simp [Vectors.orphaning]⟩
  refine wp_loadMap hm (wp_get_bind (hloop.bind ?_))
  rintro _ _ ⟨done, hvec, rfl, rfl⟩
  rw [List.append_nil] at hvec
  have hpath : (s.orphaning m done).path = (s.orphaned m).path := by
    funext q
    show (if q ∈ done then _ else _) = (s.path q).bind (orphaned m)
    split_ifs with hq
    · rfl
    · cases hpp : s.path q with
      | none => rfl
      | some pp =>
        have hmpp : pp.mpp ≠ some m := fun hmpp => hq (hvec ▸ howner q pp hpp hmpp)
        exact (orphaned_of_ne hmpp).symm
  have hkept : done.filter (fun q => ((s.path q).bind (orphaned m)).isSome) =
      (s.orphaned m).pathvec := by rw [← hvec]; rfl
  show ({ s.orphaning m done with pathvec := _ } : Vectors) = { s.orphaned m with }
  rw [hkept]
  show ({ s with path := (s.orphaning m done).path, pathvec := (s.orphaned m).pathvec } : Vectors) = _
  rw [hpath]
  rfl

theorem orphanPaths_spec (h : Owned s) (hm : s.map m = some mpp) :
    wp E (orphanPaths m) (fun _ t => t = s.orphaned m) s :=
  orphanPaths_run (fun _ hp => h.listedPath hp) h.nodup (fun p pp hp hmpp => (h.owner p pp m hp hmpp).1) hm

theorem Vectors.orphaned_owner (hp : (s.orphaned m).path p = some pp) : pp.mpp ≠ some m := by
  obtain ⟨pp', -, horphaned⟩ := Option.bind_eq_some_iff.mp hp
  exact orphaned_mpp horphaned

/-- Once more, it changes nothing. -/
theorem orphanPaths_again (h : Owned s) (hm : s.map m = some mpp) :
    wp E (orphanPaths m) (fun _ t => t = s.orphaned m) (s.orphaned m) := by
  have hlisted (p : ℕ) (hp : p ∈ (s.orphaned m).pathvec) : ∃ pp, (s.orphaned m).path p = some pp :=
    Option.isSome_iff_exists.mp (List.mem_filter.mp hp).2
  have hsame (q : ℕ) : ((s.orphaned m).path q).bind (Vecs.orphaned m) = (s.orphaned m).path q := by
    cases hq : (s.orphaned m).path q with
    | none => rfl
    | some pp => exact orphaned_of_ne (Vectors.orphaned_owner hq)
  have htwice : (s.orphaned m).orphaned m = s.orphaned m := by
    have hpath : ((s.orphaned m).orphaned m).path = (s.orphaned m).path := funext hsame
    have hvec : ((s.orphaned m).orphaned m).pathvec = (s.orphaned m).pathvec := by
      refine List.filter_eq_self.mpr fun q hq => ?_
      rw [hsame]
      exact (List.mem_filter.mp hq).2
    show ({ s.orphaned m with
      path := ((s.orphaned m).orphaned m).path
      pathvec := ((s.orphaned m).orphaned m).pathvec } : Vectors) = _
    rw [hpath, hvec]
  have hrun := orphanPaths_run (E := E) hlisted (h.nodup.filter _)
    (fun _ _ hp hmpp => absurd hmpp (Vectors.orphaned_owner hp))
    (show (s.orphaned m).map m = some mpp from hm)
  rwa [htwice] at hrun

/-- Then nothing but the map itself tells its paths. -/
theorem Owned.orphaned (h : Owned s) (hm : s.map m = some mpp) :
    Owned ((s.orphaned m).stripped m mpp) := by
  have hpath {q : ℕ} {qq : OwnedPath} (hq : (s.orphaned m).path q = some qq) :
      ∃ pp, s.path q = some pp ∧ Vecs.orphaned m pp = some qq := Option.bind_eq_some_iff.mp hq
  have hkeep {q : ℕ} {qq : OwnedPath} (hq : s.path q = some qq) (hmpp : qq.mpp ≠ some m) :
      (s.orphaned m).path q = some qq := by
    show (s.path q).bind _ = _
    rw [hq]
    exact orphaned_of_ne hmpp
  have hvec {q : ℕ} {qq : OwnedPath} (hmem : q ∈ s.pathvec) (hq : (s.orphaned m).path q = some qq) :
      q ∈ (s.orphaned m).pathvec :=
    List.mem_filter.mpr ⟨hmem, by rw [show (s.path q).bind _ = some qq from hq]; rfl⟩
  have hmap {m' : ℕ} {qq : OwnedMap} (hq : ((s.orphaned m).stripped m mpp).map m' = some qq) :
      (m' = m ∧ qq = { mpp with paths := [], pg := none }) ∨ m' ≠ m ∧ s.map m' = some qq := by
    by_cases hne : m' = m
    · subst hne
      exact .inl ⟨rfl, (Option.some.inj ((Vectors.setMap_self _ _ _).symm.trans hq)).symm⟩
    · exact .inr ⟨hne, (Vectors.setMap_of_ne _ _ hne).symm.trans hq⟩
  have hwwid {m' : ℕ} {qq : OwnedMap} (hq : ((s.orphaned m).stripped m mpp).map m' = some qq) :
      ∃ qq', s.map m' = some qq' ∧ qq'.wwid = qq.wwid := by
    obtain ⟨rfl, rfl⟩ | ⟨-, hq⟩ := hmap hq
    · exact ⟨mpp, hm, rfl⟩
    · exact ⟨qq, hq, rfl⟩
  have hback {m' : ℕ} {qq : OwnedMap} (hq : s.map m' = some qq) :
      ∃ qq', ((s.orphaned m).stripped m mpp).map m' = some qq' ∧ qq'.wwid = qq.wwid := by
    by_cases hne : m' = m
    · subst hne
      obtain rfl := Option.some.inj (hm.symm.trans hq)
      exact ⟨_, Vectors.setMap_self _ _ _, rfl⟩
    · exact ⟨qq, (Vectors.setMap_of_ne _ _ hne).trans hq, rfl⟩
  constructor
  case nodup => exact h.nodup.filter _
  case listed =>
    intro q hq
    obtain ⟨hmem, hsome⟩ := List.mem_filter.mp hq
    obtain ⟨qq, hqq⟩ := Option.isSome_iff_exists.mp hsome
    obtain ⟨pp, hpp, hor⟩ := hpath hqq
    obtain ⟨pp', hpp', hudev⟩ := h.listed q hmem
    obtain rfl := Option.some.inj (hpp.symm.trans hpp')
    exact ⟨qq, hqq, (orphaned_kept hor).1.trans hudev⟩
  case distinct =>
    intro m' qq hq
    obtain ⟨rfl, rfl⟩ | ⟨-, hq⟩ := hmap hq
    · exact List.nodup_nil
    · exact h.distinct m' qq hq
  case member =>
    intro m' qq hq p hp
    obtain ⟨rfl, rfl⟩ | ⟨hne, hq⟩ := hmap hq
    · cases hp
    · obtain ⟨hmem, pp, hpp, hmpp, hinit⟩ := h.member m' qq hq p hp
      have hother : pp.mpp ≠ some m := by
        rw [hmpp]
        exact fun heq => hne (Option.some.inj heq)
      have hpp' := hkeep hpp hother
      exact ⟨hvec hmem hpp', pp, hpp', hmpp, hinit⟩
  case grouped =>
    intro m' qq hq p hp
    obtain ⟨rfl, rfl⟩ | ⟨hne, hq⟩ := hmap hq
    · cases hp
    · obtain ⟨hmem, pp, hpp, hmpp⟩ := h.grouped m' qq hq p hp
      have hother : pp.mpp ≠ some m := by
        rw [hmpp]
        exact fun heq => hne (Option.some.inj heq)
      have hpp' := hkeep hpp hother
      exact ⟨hvec hmem hpp', pp, hpp', hmpp⟩
  case owner =>
    intro q qq m' hq hmpp
    obtain ⟨pp, hpp, hor⟩ := hpath hq
    obtain ⟨-, -, -, hw, hinit, hmpp' | hmpp'⟩ := orphaned_kept hor
    · rw [hmpp'] at hmpp
      cases hmpp
    · obtain ⟨hmem, mm, hmm, hrest⟩ := h.owner q pp m' hpp (hmpp'.symm.trans hmpp)
      obtain ⟨mm', hmm', hsame⟩ := hback hmm
      refine ⟨hvec hmem hq, mm', hmm', fun hr => ?_⟩
      rw [hw, hsame]
      exact hrest (hinit ▸ hr)
  case named =>
    intro q qq hq
    obtain ⟨pp, hpp, hor⟩ := hpath hq
    obtain ⟨-, hdevt, hdev, -⟩ := orphaned_kept hor
    rw [hdevt, hdev]
    exact h.named q pp hpp
  case wwid =>
    intro m' qq hq
    obtain ⟨qq', hq', hsame⟩ := hwwid hq
    exact hsame ▸ h.wwid m' qq' hq'
  case unique =>
    intro m₁ m₂ q₁ q₂ h₁ h₂ heq
    obtain ⟨q₁', h₁', hsame₁⟩ := hwwid h₁
    obtain ⟨q₂', h₂', hsame₂⟩ := hwwid h₂
    exact h.unique m₁ m₂ q₁' q₂' h₁' h₂' (hsame₁.trans (heq.trans hsame₂.symm))
  case mpvec => exact h.mpvec
  case registered =>
    intro m' hm'
    obtain ⟨qq, hq⟩ := h.registered m' hm'
    obtain ⟨qq', hq', -⟩ := hback hq
    exact ⟨qq', hq'⟩
  case freshPath =>
    intro q hq
    show (s.path q).bind _ = none
    rw [h.freshPath q hq]
    rfl

end Orphans

section Maps

/-- The map at `m` has been removed. -/
def Vectors.removed (s : Vectors) (m : ℕ) : Vectors :=
  ({ s.orphaned m with mpvec := s.mpvec.erase m } : Vectors).dropMap m

/-- A group of the map at `m` holds a path that is about to be removed. -/
def Vectors.HoldsRemoved (s : Vectors) (m : ℕ) : Prop :=
  ∃ mpp, s.map m = some mpp ∧ ∃ p ∈ mpp.slots, ∃ pp, s.path p = some pp ∧ pp.initialized = .removed

theorem Owned.removed (h : Owned s) (hm : s.map m = some mpp) : Owned (s.removed m) := by
  have hstripped := h.orphaned hm
  have hvec : Owned { (s.orphaned m).stripped m mpp with mpvec := s.mpvec.erase m } :=
    hstripped.setMpvec (h.mpvec.erase m) fun m' hm' => hstripped.registered m' (List.mem_of_mem_erase hm')
  have hdrop := hvec.dropMap (m := m) h.mpvec.not_mem_erase fun p pp hp => Vectors.orphaned_owner hp
  have hsame : ({ (s.orphaned m).stripped m mpp with mpvec := s.mpvec.erase m } : Vectors).dropMap m =
      s.removed m := by
    unfold Vectors.stripped Vectors.removed Vectors.setMap Vectors.dropMap
    simp only [Function.update_idem]
  rwa [hsame] at hdrop

/-- After `orphan_paths` a path of a group has no owner, or has been freed. -/
theorem forgetMap_spec (h : Owned s) (hm : s.map m = some mpp) (hp : p ∈ mpp.slots)
    (hpp : s.path p = some pp) (hpath : u.path = (s.orphaned m).path)
    (hfreed : pp.initialized = .removed → E .freedGroup) :
    wp E (forgetMap m p) (fun _ t => t = u ∧ pp.initialized ≠ .removed) u := by
  obtain ⟨-, pp', hpp', hmpp⟩ := h.grouped m mpp hm p hp
  obtain rfl := Option.some.inj (hpp.symm.trans hpp')
  have horphaned : u.path p = Vecs.orphaned m pp := by
    rw [hpath]
    show (s.path p).bind _ = _
    rw [hpp]
    rfl
  by_cases hremoved : pp.initialized = .removed
  · rw [orphaned_eq_none_iff.mpr ⟨hmpp, hremoved⟩] at horphaned
    exact wp_load_freed horphaned (hfreed hremoved)
  · rw [orphaned_of_owned hmpp hremoved] at horphaned
    exact wp_load horphaned ⟨rfl, hremoved⟩

/-- `remove_map` uses a path that it has freed when a group holds a removed path. -/
theorem removeMap_fails (h : Owned s) (hheld : s.HoldsRemoved m)
    (hstart : wp (· = .freedGroup) (orphanPaths m) (fun _ v => v = s.orphaned m) t) :
    wp (· = .freedGroup) (removeMap m) (fun _ _ => False) t := by
  obtain ⟨mpp, hm, p, hp, pp, hpp, hremoved⟩ := hheld
  refine hstart.bind ?_
  rintro _ _ rfl
  refine wp_get_bind (wp_modify_bind (wp_loadMap (show Vectors.map _ m = some mpp from hm) ?_))
  refine wp.bind (Q := fun _ _ => False) ?_ fun _ _ => False.elim
  generalize hu : ({ s.orphaned m with mpvec := (s.orphaned m).mpvec.erase m } : Vectors) = u
  have hpath : u.path = (s.orphaned m).path := by rw [← hu]
  refine (wp_forM (fun todo t => t = u ∧ p ∈ todo ∧ todo ⊆ mpp.slots) ?_ ⟨rfl, hp, List.Subset.refl _⟩).mono
    fun _ _ hend => by cases hend.2.1
  rintro q todo t ⟨rfl, hmem, hsub⟩
  obtain ⟨-, qq, hqq, -⟩ := h.grouped m mpp hm q (hsub List.mem_cons_self)
  refine (forgetMap_spec (E := (· = .freedGroup)) h hm (hsub List.mem_cons_self) hqq hpath
    fun _ => rfl).mono ?_
  rintro _ _ ⟨rfl, hkept⟩
  refine ⟨rfl, ?_, List.Subset.trans (List.subset_cons_self q todo) hsub⟩
  obtain rfl | hmem := List.mem_cons.mp hmem
  · obtain rfl := Option.some.inj (hpp.symm.trans hqq)
    exact absurd hremoved hkept
  · exact hmem

/-- Otherwise it removes the map. -/
theorem removeMap_spec (h : Owned s) (hm : s.map m = some mpp) (hheld : ¬s.HoldsRemoved m)
    (hstart : wp E (orphanPaths m) (fun _ v => v = s.orphaned m) t) :
    wp E (removeMap m) (fun _ v => v = s.removed m) t := by
  refine hstart.bind ?_
  rintro _ _ rfl
  refine wp_get_bind (wp_modify_bind (wp_loadMap (show Vectors.map _ m = some mpp from hm) ?_))
  show wp E _ _ ({ s.orphaned m with mpvec := s.mpvec.erase m } : Vectors)
  generalize hu : ({ s.orphaned m with mpvec := s.mpvec.erase m } : Vectors) = u
  have hpath : u.path = (s.orphaned m).path := by rw [← hu]
  have hstep (q : ℕ) (todo : List ℕ) (t : Vectors) (ht : t = u ∧ q :: todo ⊆ mpp.slots) :
      wp E (forgetMap m q) (fun _ t => t = u ∧ todo ⊆ mpp.slots) t := by
    obtain ⟨rfl, hsub⟩ := ht
    have hslot := hsub List.mem_cons_self
    obtain ⟨-, qq, hqq, -⟩ := h.grouped m mpp hm q hslot
    refine (forgetMap_spec h hm hslot hqq hpath fun hr => ?_).mono fun _ _ hend =>
      ⟨hend.1, List.Subset.trans (List.subset_cons_self q todo) hsub⟩
    exact absurd ⟨mpp, hm, q, hslot, qq, hqq, hr⟩ hheld
  refine (wp_forM (fun todo t => t = u ∧ todo ⊆ mpp.slots) hstep ⟨rfl, List.Subset.refl _⟩).bind ?_
  rintro _ _ ⟨rfl, -⟩
  rw [Vectors.removed, hu]
  rfl

end Maps

section Members

/-- A path of the map at `m` is not listed any more, and no group but its own holds it. -/
theorem Owned.unlist (h : Owned s) (hm : s.map m = some mpp) {paths : List ℕ}
    (hsub : paths.Sublist mpp.paths) :
    Owned (s.setMap m { mpp with paths }) :=
  h.setPaths hm ((h.distinct m mpp hm).sublist hsub) fun _ hp => .inl (hsub.subset hp)

/-- No other map lists a path of the map at `m`. -/
theorem Owned.not_listed (h : Owned s) (hp : s.path p = some pp) (hmpp : pp.mpp = some m)
    (hm : s.map m' = some mpp) (hne : m' ≠ m) : p ∉ mpp.paths ∧ p ∉ mpp.slots := by
  refine ⟨fun hmem => ?_, fun hmem => ?_⟩
  · obtain ⟨-, pp', hp', hmpp', -⟩ := h.member m' mpp hm p hmem
    obtain rfl := Option.some.inj (hp.symm.trans hp')
    exact hne (Option.some.inj (hmpp'.symm.trans hmpp))
  · obtain ⟨-, pp', hp', hmpp'⟩ := h.grouped m' mpp hm p hmem
    obtain rfl := Option.some.inj (hp.symm.trans hp')
    exact hne (Option.some.inj (hmpp'.symm.trans hmpp))

/-- While a loop over the paths of the map at `m` has come to `todo` and has kept `done`, the state
is as if the map listed no others. -/
structure Dropping (m : ℕ) (mpp : OwnedMap) (done todo : List ℕ) (s t : Vectors) : Prop where
  map : t.map = s.map
  touches : Touches m s (t.setMap m { mpp with paths := done ++ todo })

theorem Dropping.start (h : Owned s) (hm : s.map m = some mpp) : Dropping m mpp [] mpp.paths s s := by
  refine ⟨rfl, ?_⟩
  have hself : s.setMap m { mpp with paths := [] ++ mpp.paths } = s := setMap_eq_self hm
  rw [hself]
  exact .refl h

theorem Dropping.calls {done todo : List ℕ} (h : Dropping m mpp done todo s t) (n : ℕ) :
    Dropping m mpp done todo s { t with calls := n } := ⟨h.map, h.touches.calls n⟩

/-- The path at the front is kept. -/
theorem Dropping.keep {done todo : List ℕ} (h : Dropping m mpp done (p :: todo) s t) :
    Dropping m mpp (done ++ [p]) todo s t := by
  refine ⟨h.map, ?_⟩
  rw [List.append_assoc]
  exact h.touches

/-- The path at the front belongs to the map. -/
theorem Dropping.front {done todo : List ℕ} (h : Dropping m mpp done (p :: todo) s t) :
    p ∈ t.pathvec ∧ ∃ pp, t.path p = some pp ∧ pp.mpp = some m ∧ pp.initialized ≠ .removed :=
  h.touches.owned.member m _ (Vectors.setMap_self _ _ _) p (by simp)

/-- The device number of the path at the front is read again. -/
theorem Dropping.write {done todo : List ℕ} {devT : Devt} (h : Dropping m mpp done (p :: todo) s t)
    (hp : t.path p = some pp) :
    Dropping m mpp done (p :: todo) s (t.setPath p { pp with devT := devT.1 }) := by
  refine ⟨h.map, h.touches.trans (touches_setPath hp ?_ (.inr (.inr rfl)))⟩
  refine h.touches.owned.setPath hp id (.inl devT.2) (.inr ⟨rfl, .inl⟩) fun m' hmpp => ?_
  exact h.touches.owned.owner p pp m' hp hmpp

/-- The path at the front is dropped and written. -/
theorem Dropping.drop {done todo : List ℕ} (h : Dropping m mpp done (p :: todo) s t)
    (hp : t.path p = some pp) (hudev : pp'.udev = pp.udev) (hdevt : pp'.devT = pp.devT)
    (hdev : pp'.dev = pp.dev)
    (howner : pp'.mpp = some m ∧ pp'.initialized = .removed ∨ pp'.mpp = none ∧ p ∉ mpp.slots) :
    Dropping m mpp done todo s (t.setPath p pp') := by
  have howned := h.touches.owned
  have hself : (t.setMap m { mpp with paths := done ++ p :: todo }).map m = some _ :=
    Vectors.setMap_self _ _ _
  have hsub : (done ++ todo).Sublist (done ++ p :: todo) :=
    (List.Sublist.refl done).append (List.sublist_cons_self p todo)
  have hless := howned.unlist hself hsub
  rw [setMap_setMap] at hless
  obtain ⟨hmem, qq, hqq, hmpp, -⟩ := h.front
  obtain rfl := Option.some.inj (hp.symm.trans hqq)
  have hnot : p ∉ done ++ todo := by
    have hnodup : (done ++ p :: todo).Nodup := howned.distinct m _ hself
    exact (List.nodup_middle.mp hnodup).notMem
  have hother (m' : ℕ) (mpp' : OwnedMap)
      (hm' : (t.setMap m { mpp with paths := done ++ todo }).map m' = some mpp') : p ∉ mpp'.paths := by
    by_cases hne : m' = m
    · subst hne
      obtain rfl := Option.some.inj ((Vectors.setMap_self _ _ _).symm.trans hm')
      exact hnot
    · exact (hless.not_listed hp hmpp hm' hne).1
  have hwritten : Owned ((t.setMap m { mpp with paths := done ++ todo }).setPath p pp') := by
    refine hless.setPath hp (fun hu => hudev.trans hu) ?_ ?_ fun m' hmpp' => ?_
    · rw [hdevt, hdev]
      exact hless.named p pp hp
    · obtain ⟨hmpp', -⟩ | ⟨-, hslot⟩ := howner
      · exact .inr ⟨hmpp'.trans hmpp.symm, fun _ => .inr hother⟩
      · refine .inl fun m' mpp' hm' => ⟨hother m' mpp' hm', ?_⟩
        by_cases hne : m' = m
        · subst hne
          obtain rfl := Option.some.inj ((Vectors.setMap_self _ _ _).symm.trans hm')
          exact hslot
        · exact (hless.not_listed hp hmpp hm' hne).2
    · obtain ⟨hmpp'', hremoved⟩ | ⟨hnone, -⟩ := howner
      · obtain rfl := Option.some.inj (hmpp''.symm.trans hmpp')
        exact ⟨hmem, _, Vectors.setMap_self _ _ _, fun hr => absurd hremoved hr⟩
      · rw [hnone] at hmpp'
        cases hmpp'
  refine ⟨h.map, ?_⟩
  have htouched := h.touches
  have hmap : Touches m (t.setMap m { mpp with paths := done ++ p :: todo })
      (t.setMap m { mpp with paths := done ++ todo }) := by
    have hwhole : Owned ((t.setMap m { mpp with paths := done ++ p :: todo }).setMap m
        { mpp with paths := done ++ todo }) := by rwa [setMap_setMap]
    have htouch := touches_setMap hself hwhole rfl
    rwa [setMap_setMap] at htouch
  refine (htouched.trans hmap).trans (touches_setPath hp hwritten ?_)
  exact howner.elim (fun hown => .inr (.inl hown.1)) fun hown => .inl hown.1

/-- The map is written with the paths that have been kept. -/
theorem Dropping.finish {done : List ℕ} (h : Dropping m mpp done [] s t) :
    Touches m s (t.setMap m { mpp with paths := done }) := by
  have htouched := h.touches
  rwa [List.append_nil] at htouched

theorem verifyPath_spec {done todo : List ℕ} (h : Dropping m mpp done (p :: todo) s t)
    (hm : s.map m = some mpp) :
    wp E (verifyPath env p) (fun b t => Dropping m mpp (done ++ b.toList) todo s t) t := by
  obtain ⟨-, pp, hpp, hmpp, hinit⟩ := h.front
  refine wp_load hpp (wp_ask ?_)
  have hasked := h.calls (t.calls + 1)
  have hpp' : ({ t with calls := t.calls + 1 } : Vectors).path p = some pp := hpp
  generalize (if pp.udev then env.sysfsDev t.calls else none) = seen
  generalize ({ t with calls := t.calls + 1 } : Vectors) = u at hasked hpp' ⊢
  cases seen with
  | some devT => exact wp_write (hasked.write hpp').keep
  | none =>
    have hmap : u.map m = some mpp := hasked.map ▸ hm
    have hdropped : Dropping m mpp done todo s
        (u.setPath p { pp with mpp := some m, initialized := .removed }) :=
      hasked.drop hpp' rfl rfl rfl (.inl ⟨rfl, rfl⟩)
    refine wp_bind.mpr (wp_load hpp' (wp_bind.mpr (wp_load hpp' ?_)))
    rw [hmpp]
    refine wp_bind.mpr (wp_loadMap hmap ?_)
    have hsame := setPath_setPath u p { pp with mpp := none }
      { pp with mpp := some m, initialized := .removed }
    show Dropping m mpp (done ++ []) todo s ((u.setPath p { pp with mpp := none }).setPath p
      { pp with mpp := some m, initialized := .removed })
    rw [List.append_nil, hsame]
    exact hdropped

/-- `verify_paths` -/
theorem verifyPaths_spec (h : Owned s) (hm : s.map m = some mpp) :
    wp E (verifyPaths env m) (fun _ t => Touches m s t) s := by
  have hloop : wp E (keepM (verifyPath env) mpp.paths) (fun done t => Dropping m mpp done [] s t) s :=
    wp_keepM (fun done todo t => Dropping m mpp done todo s t)
      (fun _ _ _ _ ht => verifyPath_spec ht hm) (.start h hm)
  refine wp_loadMap hm (hloop.bind fun done t ht => ?_)
  have hmap : t.map m = some mpp := ht.map ▸ hm
  exact wp_loadMap hmap ht.finish

theorem dropMember_spec {done todo : List ℕ} (h : Dropping m mpp done (p :: todo) s t)
    (hm : s.map m = some mpp) :
    wp E (dropMember (mpp.pg.getD []) p) (fun b t => Dropping m mpp (done ++ b.toList) todo s t) t := by
  obtain ⟨-, pp, hpp, hmpp, hinit⟩ := h.front
  refine wp_load hpp ?_
  split_ifs with hslot
  · exact h.keep
  · have hmap : t.map m = some mpp := h.map ▸ hm
    refine wp_bind.mpr (wp_load hpp ?_)
    rw [hmpp]
    refine wp_bind.mpr (wp_loadMap hmap ?_)
    show Dropping m mpp (done ++ []) todo s _
    rw [List.append_nil]
    exact h.drop hpp rfl rfl rfl (.inr ⟨rfl, hslot⟩)

/-- While `check_removed_paths` has come to `todo` and has kept `done`. -/
structure Purging (m : ℕ) (done todo : List ℕ) (s t : Vectors) : Prop where
  map : t.map = s.map
  touches : Touches m s { t with pathvec := done ++ todo }

theorem touches_free {v : List ℕ} (h : Owned (({ s with pathvec := v } : Vectors).dropPath p)) :
    Touches m s (({ s with pathvec := v } : Vectors).dropPath p) := by
  refine ⟨h, rfl, fun _ _ => rfl, fun mpp hm => ⟨mpp, hm, rfl⟩, fun q qq hq => .inr (.inr ?_)⟩
  by_cases hne : q = p
  · subst hne
    rw [show (Vectors.dropPath _ q).path q = none from Function.update_self _ _ _] at hq
    cases hq
  · exact ⟨qq, (Function.update_of_ne hne _ _).symm.trans hq, rfl⟩

theorem Purging.start (h : Owned s) : Purging m [] s.pathvec s s := ⟨rfl, .refl h⟩

/-- The path at the front is freed. -/
theorem Purging.free {done todo : List ℕ} (h : Purging m done (p :: todo) s t)
    (hun : Unlisted { t with pathvec := done ++ p :: todo } p) :
    Purging m done todo s (t.dropPath p) := by
  have hnodup : (done ++ p :: todo).Nodup := h.touches.owned.nodup
  obtain ⟨hnot, hrest⟩ := List.nodup_cons.mp (List.nodup_middle.mp hnodup)
  have hmem (q : ℕ) : q ∈ done ++ todo ↔ q ∈ done ++ p :: todo ∧ q ≠ p := by
    constructor
    · intro hq
      refine ⟨?_, fun heq => hnot (heq ▸ hq)⟩
      simp only [List.mem_append, List.mem_cons] at hq ⊢
      tauto
    · rintro ⟨hq, hne⟩
      simp only [List.mem_append, List.mem_cons] at hq ⊢
      tauto
  exact ⟨h.map, h.touches.trans (touches_free (h.touches.owned.free hun hrest hmem))⟩

theorem checkRemovedPath_spec {done todo : List ℕ} (h : Purging m done (p :: todo) s t)
    (hm : s.map m = some mpp) :
    wp E (checkRemovedPath m p) (fun b t => Purging m (done ++ b.toList) todo s t) t := by
  have howned := h.touches.owned
  have hkeep : Purging m (done ++ [p]) todo s t := by
    refine ⟨h.map, ?_⟩
    rw [List.append_assoc]
    exact h.touches
  obtain ⟨pp, hpp, -⟩ := howned.listed p (by simp)
  have hmap : t.map m = some mpp := h.map ▸ hm
  have hmap' : ({ t with pathvec := done ++ p :: todo } : Vectors).map m = some mpp := hmap
  refine wp_load hpp ?_
  split_ifs with hother
  · exact hkeep
  · obtain ⟨hremoved, hmpp⟩ : pp.initialized = .removed ∧ pp.mpp = some m := by
      simpa [not_or] using hother
    refine wp_loadMap hmap ?_
    refine (findPathByDevt_spec fun q hq => ?_).bind ?_
    · obtain ⟨-, qq, hqq, -⟩ := howned.grouped m mpp hmap' q hq
      exact ⟨qq, hqq⟩
    · rintro found _ ⟨rfl, -, hfound⟩
      split_ifs with hsome
      · exact hkeep
      · -- nobody lists the path any more
        have hslot : p ∉ mpp.slots := fun hslot => hfound (by simpa using hsome) p hslot pp hpp rfl
        have hlist : p ∉ mpp.paths := fun hlist => by
          obtain ⟨-, qq, hqq, -, hinit⟩ := howned.member m mpp hmap' p hlist
          obtain rfl := Option.some.inj (hpp.symm.trans hqq)
          exact hinit hremoved
        have hun : Unlisted _ p := fun m' mpp' hm' => by
          by_cases hne : m' = m
          · subst hne
            obtain rfl := Option.some.inj (hmap'.symm.trans hm')
            exact ⟨hlist, hslot⟩
          · exact howned.not_listed hpp hmpp hm' hne
        refine wp_bind.mpr (wp_load hpp ?_)
        show Purging m (done ++ []) todo s _
        rw [List.append_nil]
        exact h.free hun

/-- `sync_paths` -/
theorem syncPaths_spec (h : Owned s) (hm : s.map m = some mpp) :
    wp E (syncPaths m) (fun _ t => Touches m s t) s := by
  have hdrop : wp E (keepM (dropMember (mpp.pg.getD [])) mpp.paths)
      (fun done t => Dropping m mpp done [] s t) s :=
    wp_keepM (fun done todo t => Dropping m mpp done todo s t)
      (fun _ _ _ _ ht => dropMember_spec ht hm) (.start h hm)
  refine wp_loadMap hm (hdrop.bind fun kept t ht => wp_writeMap (wp_get_bind ?_))
  have htouched := ht.finish
  obtain ⟨mpp', hm', -⟩ := htouched.same mpp hm
  generalize t.setMap m { mpp with paths := kept } = u at htouched hm' ⊢
  have hpurge : wp E (keepM (checkRemovedPath m) u.pathvec) (fun done t => Purging m done [] u t) u :=
    wp_keepM (fun done todo t => Purging m done todo u t)
      (fun _ _ _ _ hv => checkRemovedPath_spec hv hm') (.start htouched.owned)
  refine hpurge.bind fun kept' v hv => wp_modify_bind ?_
  have hpurged : Touches m s { v with pathvec := kept' } := by
    have := htouched.trans hv.touches
    rwa [List.append_nil] at this
  have hmv : ({ v with pathvec := kept' } : Vectors).map m = some mpp' := hv.map ▸ hm'
  generalize ({ v with pathvec := kept' } : Vectors) = v' at hpurged hmv ⊢
  refine (updateMppPaths_spec hpurged.owned hmv).bind ?_
  rintro _ w ⟨-, hgrown⟩
  have hgrown := hpurged.trans (hgrown.touches hmv)
  obtain ⟨mpp'', hm'', -⟩ := hgrown.same mpp hm
  refine wp_loadMap hm'' ?_
  -- the paths belong to the map already
  have hstep (p : ℕ) (todo : List ℕ) (t : Vectors) (ht : t = w ∧ p :: todo ⊆ mpp''.paths) :
      wp E (do let pp ← load .vector p; write p { pp with mpp := some m })
        (fun _ t => t = w ∧ todo ⊆ mpp''.paths) t := by
    obtain ⟨rfl, hsub⟩ := ht
    obtain ⟨-, pp, hpp, hmpp, -⟩ := hgrown.owned.member m mpp'' hm'' p (hsub List.mem_cons_self)
    refine wp_load hpp ⟨?_, List.Subset.trans (List.subset_cons_self p todo) hsub⟩
    rw [← hmpp]
    exact setPath_eq_self hpp
  refine (wp_forM (fun todo t => t = w ∧ todo ⊆ mpp''.paths) hstep ⟨rfl, List.Subset.refl _⟩).mono ?_
  rintro _ _ ⟨rfl, -⟩
  exact hgrown

end Members

end MultipathTools.Vecs
