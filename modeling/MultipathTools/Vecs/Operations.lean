import MultipathTools.Vecs.Owned

/-! What the operations on a map do: they use nothing that is freed, keep the owners consistent and
leave the other maps alone. -/
namespace MultipathTools.Vecs
open StructsVec (PathinfoRc)

variable {E : Misuse → Prop} {env : Env} {s t u : Vectors} {m m' p q : ℕ} {pp pp' : OwnedPath}
  {mpp mpp' : OwnedMap} {α β : Type}

section Primitives
variable {Q : α → Vectors → Prop} {e : Misuse}

theorem wp_get_bind {f : Vectors → VecsM α} (h : wp E (f s) Q s) : wp E (get >>= f) Q s := h

theorem wp_load {f : OwnedPath → VecsM α} (hp : s.path p = some pp) (h : wp E (f pp) Q s) :
    wp E (load e p >>= f) Q s := by
  refine wp_bind.mpr (wp_get_bind ?_)
  rw [hp]
  exact h

theorem wp_load_freed {f : OwnedPath → VecsM α} (hp : s.path p = none) (h : E e) :
    wp E (load e p >>= f) Q s := by
  refine wp_bind.mpr (wp_get_bind ?_)
  rw [hp]
  exact h

theorem wp_loadMap {f : OwnedMap → VecsM α} (hm : s.map m = some mpp) (h : wp E (f mpp) Q s) :
    wp E (loadMap m >>= f) Q s := by
  refine wp_bind.mpr (wp_get_bind ?_)
  rw [hm]
  exact h

theorem wp_modify_bind {g : Vectors → Vectors} {f : PUnit → VecsM α} (h : wp E (f ⟨⟩) Q (g s)) :
    wp E (modify g >>= f) Q s := h

theorem wp_write {f : PUnit → VecsM α} (h : wp E (f ⟨⟩) Q (s.setPath p pp)) :
    wp E (write p pp >>= f) Q s := h

theorem wp_writeMap {f : PUnit → VecsM α} (h : wp E (f ⟨⟩) Q (s.setMap m mpp)) :
    wp E (writeMap m mpp >>= f) Q s := h

theorem wp_ask {g : ℕ → β} {f : β → VecsM α}
    (h : wp E (f (g s.calls)) Q { s with calls := s.calls + 1 }) : wp E (ask g >>= f) Q s := h

end Primitives

section Frame

/-- Only the map at `m` and its paths are changed. -/
structure Touches (m : ℕ) (s t : Vectors) : Prop where
  owned : Owned t
  mpvec : t.mpvec = s.mpvec
  other : ∀ m', m' ≠ m → t.map m' = s.map m'
  same : ∀ mpp, s.map m = some mpp → ∃ mpp', t.map m = some mpp' ∧ mpp'.wwid = mpp.wwid
  owner : ∀ p pp', t.path p = some pp' →
    pp'.mpp = none ∨ pp'.mpp = some m ∨ ∃ pp, s.path p = some pp ∧ pp'.mpp = pp.mpp

theorem Touches.refl (h : Owned s) : Touches m s s :=
  ⟨h, rfl, fun _ _ => rfl, fun mpp hm => ⟨mpp, hm, rfl⟩, fun _ pp hp => .inr (.inr ⟨pp, hp, rfl⟩)⟩

theorem Touches.trans (h : Touches m s t) (h' : Touches m t u) : Touches m s u := by
  refine ⟨h'.owned, h'.mpvec.trans h.mpvec,
    fun m' hm' => (h'.other m' hm').trans (h.other m' hm'), fun mpp hm => ?_, fun p pp'' hp => ?_⟩
  · obtain ⟨mpp', hm', hwwid⟩ := h.same mpp hm
    obtain ⟨mpp'', hm'', hwwid'⟩ := h'.same mpp' hm'
    exact ⟨mpp'', hm'', hwwid'.trans hwwid⟩
  · obtain hmpp | hmpp | ⟨pp', hp', hmpp⟩ := h'.owner p pp'' hp
    · exact .inl hmpp
    · exact .inr (.inl hmpp)
    · obtain hmpp' | hmpp' | ⟨pp, hp, hmpp'⟩ := h.owner p pp' hp'
      · exact .inl (hmpp.trans hmpp')
      · exact .inr (.inl (hmpp.trans hmpp'))
      · exact .inr (.inr ⟨pp, hp, hmpp.trans hmpp'⟩)

theorem Touches.calls (h : Touches m s t) (n : ℕ) : Touches m s { t with calls := n } :=
  ⟨h.owned.calls n, h.mpvec, h.other, h.same, h.owner⟩

theorem touches_setPath (hp : s.path p = some pp) (howned : Owned (s.setPath p pp'))
    (hmpp : pp'.mpp = none ∨ pp'.mpp = some m ∨ pp'.mpp = pp.mpp) :
    Touches m s (s.setPath p pp') := by
  refine ⟨howned, rfl, fun _ _ => rfl, fun mpp hm => ⟨mpp, hm, rfl⟩, fun q qq hq => ?_⟩
  by_cases hne : q = p
  · subst hne
    obtain rfl := Option.some.inj ((s.setPath_self q pp').symm.trans hq)
    exact hmpp.imp_right (Or.imp_right fun hsame => ⟨pp, hp, hsame⟩)
  · exact .inr (.inr ⟨qq, (s.setPath_of_ne pp' hne).symm.trans hq, rfl⟩)

theorem touches_setMap (hm : s.map m = some mpp) (howned : Owned (s.setMap m mpp'))
    (hwwid : mpp'.wwid = mpp.wwid) : Touches m s (s.setMap m mpp') := by
  refine ⟨howned, rfl, fun m' hne => s.setMap_of_ne mpp' hne, fun qq hq => ?_,
    fun _ pp hp => .inr (.inr ⟨pp, hp, rfl⟩)⟩
  obtain rfl := Option.some.inj (hm.symm.trans hq)
  exact ⟨mpp', s.setMap_self m mpp', hwwid⟩

theorem setMap_eq_self (hm : s.map m = some mpp) : s.setMap m mpp = s := by
  unfold Vectors.setMap
  rw [← hm, Function.update_eq_self]

theorem setMap_setMap (s : Vectors) (m : ℕ) (mpp mpp' : OwnedMap) :
    (s.setMap m mpp).setMap m mpp' = s.setMap m mpp' := by
  unfold Vectors.setMap
  rw [Function.update_idem]

theorem setPath_eq_self (hp : s.path p = some pp) : s.setPath p pp = s := by
  unfold Vectors.setPath
  rw [← hp, Function.update_eq_self]

theorem setPath_setPath (s : Vectors) (p : ℕ) (pp pp' : OwnedPath) :
    (s.setPath p pp).setPath p pp' = s.setPath p pp' := by
  unfold Vectors.setPath
  rw [Function.update_idem]

/-- A map lists other paths, of its own. -/
theorem Owned.setPaths (h : Owned s) (hm : s.map m = some mpp) {paths : List ℕ}
    (hdistinct : paths.Nodup) (hmember : ∀ p ∈ paths, p ∈ mpp.paths ∨ p ∈ s.pathvec ∧
      ∃ pp, s.path p = some pp ∧ pp.mpp = some m ∧ pp.initialized ≠ .removed) :
    Owned (s.setMap m { mpp with paths }) :=
  h.setMap hm rfl hdistinct (fun p hp => (hmember p hp).elim (h.member m mpp hm p) id)
    (h.grouped m mpp hm)

end Frame

section Members

def Vectors.hasDevt (s : Vectors) (devT : CStr) (p : ℕ) : Bool := (s.path p).any fun pp => pp.devT = devT

theorem findPathByDevt_spec {v : List ℕ} {devT : CStr} (h : ∀ p ∈ v, ∃ pp, s.path p = some pp) :
    wp E (findPathByDevt v devT) (fun r t => t = s ∧
      (∀ p, r = some p → p ∈ v ∧ ∃ pp, s.path p = some pp ∧ pp.devT = devT) ∧
      (r = none → ∀ p ∈ v, ∀ pp, s.path p = some pp → pp.devT ≠ devT)) s := by
  have hfind : wp E (findPathByDevt v devT) (fun r t => r = v.find? (s.hasDevt devT) ∧ t = s) s := by
    refine wp_findM fun p hp => ?_
    obtain ⟨pp, hpp⟩ := h p hp
    refine wp_load hpp ⟨?_, rfl⟩
    simp [Vectors.hasDevt, hpp]
  refine hfind.mono ?_
  rintro r t ⟨rfl, rfl⟩
  refine ⟨rfl, fun p hr => ?_, fun hr p hp pp hpp => ?_⟩
  · have hmem := List.mem_of_find?_eq_some hr
    have htest := List.find?_some hr
    obtain ⟨pp, hpp⟩ := h p hmem
    exact ⟨hmem, pp, hpp, by simpa [Vectors.hasDevt, hpp] using htest⟩
  · have htest := List.find?_eq_none.mp hr p hp
    simpa [Vectors.hasDevt, hpp] using htest

theorem Owned.listedPath (h : Owned s) (hp : p ∈ s.pathvec) : ∃ pp, s.path p = some pp := by
  obtain ⟨pp, hpp, -⟩ := h.listed p hp
  exact ⟨pp, hpp⟩

theorem Owned.memberPath (h : Owned s) (hm : s.map m = some mpp) (hp : p ∈ mpp.paths) :
    ∃ pp, s.path p = some pp := h.listedPath (h.member m mpp hm p hp).1

theorem storePath_of_named (v : List ℕ) (p : ℕ) (h : pp.devT ≠ [] ∨ pp.dev ≠ []) :
    storePath v p pp = some (v ++ [p]) := by
  refine if_neg fun hempty => ?_
  exact h.elim (fun hdevt => hdevt hempty.1) fun hdev => hdev hempty.2

/-- The map at `m` lists more paths of its groups. -/
def Grown (s : Vectors) (m : ℕ) (mpp : OwnedMap) (t : Vectors) : Prop :=
  ∃ paths, t = s.setMap m { mpp with paths } ∧ Owned t ∧ ∀ q ∈ paths, q ∈ mpp.paths ∨ q ∈ mpp.slots

theorem Grown.refl (h : Owned s) (hm : s.map m = some mpp) : Grown s m mpp s :=
  ⟨mpp.paths, (setMap_eq_self hm).symm, h, fun _ => .inl⟩

theorem Grown.touches (h : Grown s m mpp t) (hm : s.map m = some mpp) : Touches m s t := by
  obtain ⟨paths, rfl, howned, -⟩ := h
  exact touches_setMap hm howned rfl

theorem addMember_spec (h : Owned s) (hm : s.map m = some mpp) (hp : p ∈ mpp.slots) :
    wp E (addMember m p) (fun r t => r = none ∧ Grown s m mpp t) s := by
  obtain ⟨hlisted, pp, hpp, hmpp⟩ := h.grouped m mpp hm p hp
  refine wp_load hpp (wp_loadMap hm ?_)
  refine (findPathByDevt_spec fun q hq => h.memberPath hm hq).bind ?_
  rintro found _ ⟨rfl, -, hfound⟩
  split_ifs with hsome
  · exact ⟨rfl, .refl h hm⟩
  · have hnot : p ∉ mpp.paths := fun hmem =>
      hfound (by simpa using hsome) p hmem pp hpp rfl
    refine wp_get_bind ?_
    refine (findPathByDevt_spec fun q hq => h.listedPath hq).bind ?_
    rintro known _ ⟨rfl, -, -⟩
    split_ifs with hadd
    · rw [storePath_of_named _ _ (h.named p pp hpp)]
      refine wp_writeMap ⟨rfl, mpp.paths ++ [p], rfl, h.setPaths hm ?_ fun q hq => ?_, fun q hq => ?_⟩
      · refine (h.distinct m mpp hm).append (List.nodup_singleton p) fun a ha hb => hnot ?_
        rwa [← List.mem_singleton.mp hb]
      · obtain hq | hq := List.mem_append.mp hq
        · exact .inl hq
        · rw [List.mem_singleton.mp hq]
          exact .inr ⟨hlisted, pp, hpp, hmpp, hadd.2⟩
      · obtain hq | hq := List.mem_append.mp hq
        · exact .inl hq
        · exact .inr (List.mem_singleton.mp hq ▸ hp)
    · exact ⟨rfl, .refl h hm⟩

/-- `update_mpp_paths` cannot fail. -/
theorem updateMppPaths_spec (h : Owned s) (hm : s.map m = some mpp) :
    wp E (updateMppPaths m) (fun b t => b = false ∧ Grown s m mpp t) s := by
  refine wp_loadMap hm ?_
  cases hpg : mpp.pg with
  | none => exact ⟨rfl, .refl h hm⟩
  | some pg =>
    have hloop : wp E (keepM (addMember m) pg.flatten)
        (fun bs t => bs = [] ∧ Grown s m mpp t ∧ ∀ p ∈ ([] : List ℕ), p ∈ mpp.slots) s := by
      refine wp_keepM (fun bs todo t => bs = [] ∧ Grown s m mpp t ∧ ∀ p ∈ todo, p ∈ mpp.slots) ?_ ?_
      · rintro _ p todo _ ⟨rfl, ⟨paths, rfl, howned, hpaths⟩, htodo⟩
        have hadd := addMember_spec (E := E) howned (s.setMap_self m _) (htodo p List.mem_cons_self)
        refine hadd.mono ?_
        rintro _ _ ⟨rfl, paths', rfl, howned', hpaths'⟩
        refine ⟨rfl, ⟨paths', setMap_setMap _ _ _ _, howned', fun q hq => ?_⟩, fun q hq =>
          htodo q (List.mem_cons_of_mem p hq)⟩
        exact (hpaths' q hq).elim (hpaths q) .inr
      · refine ⟨rfl, .refl h hm, fun p hp => ?_⟩
        rwa [OwnedMap.slots, hpg]
    refine hloop.bind ?_
    rintro _ t ⟨rfl, ht, -⟩
    exact ⟨rfl, ht⟩

/-- `pathinfo` keeps the owner, and a WWID unless it loses it. -/
structure InfoKept (mask : DiMask) (pp pp' : OwnedPath) : Prop where
  mpp : pp'.mpp = pp.mpp
  udev : pp'.udev = pp.udev
  named : pp.devT ≠ [] ∨ pp.dev ≠ [] → pp'.devT ≠ [] ∨ pp'.dev ≠ []
  removed : pp'.initialized = .removed → pp.initialized = .removed
  wwid : mask.wwid = false → pp'.wwid = [] ∨ pp'.wwid = pp.wwid

theorem InfoKept.refl (mask : DiMask) (pp : OwnedPath) : InfoKept mask pp pp :=
  ⟨rfl, rfl, id, id, fun _ => .inr rfl⟩

theorem readWwid_kept (seen : PathinfoSeen) (mask : DiMask) (pp : OwnedPath) :
    InfoKept mask pp (readWwid seen mask pp).1 := by
  have hread : InfoKept mask pp
      (if mask.wwid && pp.wwid = [] then { pp with wwid := seen.wwid } else pp) := by
    split_ifs with hasked
    · refine ⟨rfl, rfl, id, id, fun hmask => ?_⟩
      simp [hmask] at hasked
    · exact .refl _ _
  unfold readWwid
  dsimp only
  generalize (if mask.wwid && pp.wwid = [] then { pp with wwid := seen.wwid } else pp) = pp' at hread
  obtain ⟨hmpp, hudev, hnamed, hremoved, hwwid⟩ := hread
  split_ifs
  all_goals first
    | exact ⟨hmpp, hudev, hnamed, hremoved, hwwid⟩
    | exact ⟨hmpp, hudev, hnamed, nofun, hwwid⟩

theorem pathinfo_kept (seen : PathinfoSeen) (mask : DiMask) (pp : OwnedPath) :
    InfoKept mask pp (pathinfo seen mask pp).1 := by
  have hread (sysfs : Bool) : InfoKept mask pp
      (if sysfs ∧ seen.sysfsRead then { pp with devT := seen.devT, size := seen.size } else pp) := by
    split_ifs
    · exact ⟨rfl, rfl, fun _ => .inl seen.devT.2, id, fun _ => .inr rfl⟩
    · exact .refl _ _
  unfold pathinfo
  dsimp only
  generalize (mask.sysfs || decide (pp.devT = [])) = sysfs
  have hread := hread sysfs
  generalize (if sysfs ∧ seen.sysfsRead then { pp with devT := seen.devT, size := seen.size } else pp) =
    pp' at hread
  have hrest := readWwid_kept seen mask pp'
  have hpp' := hread
  obtain ⟨hmpp, hudev, hnamed, hremoved, hwwid⟩ := hread
  split_ifs
  · exact .refl _ _
  · exact .refl _ _
  · exact hpp'
  · exact hpp'
  · exact hpp'
  · exact ⟨hmpp, hudev, hnamed, hremoved, fun _ => .inl rfl⟩
  · exact hpp'
  · exact hpp'
  · refine ⟨hrest.mpp.trans hmpp, hrest.udev.trans hudev, hrest.named ∘ hnamed, hremoved ∘ hrest.removed,
      fun hmask => ?_⟩
    obtain hnone | hsame := hrest.wwid hmask
    · exact .inl hnone
    · rw [hsame]
      exact hwwid hmask

theorem adoptPath_spec (h : Owned s) (hm : s.map m = some mpp) (hp : p ∈ s.pathvec) :
    wp E (adoptPath env m p) (fun b t => b = false ∧ Touches m s t ∧ t.pathvec = s.pathvec) s := by
  obtain ⟨pp, hpp, hudev⟩ := h.listed p hp
  refine wp_load hpp (wp_loadMap hm ?_)
  split_ifs with hother hsize hremoved
  · exact ⟨rfl, .refl h, rfl⟩
  · exact ⟨rfl, .refl h, rfl⟩
  · exact ⟨rfl, .refl h, rfl⟩
  have hwwid : pp.wwid = mpp.wwid := (not_not.mp hother).symm
  -- the path has no other owner, as that map would have the same WWID
  have howner (m' : ℕ) (hmpp : pp.mpp = some m') : m' = m := by
    obtain ⟨-, mpp', hm', hsame⟩ := h.owner p pp m' hpp hmpp
    refine h.unique m' m mpp' mpp hm' hm ?_
    obtain hnone | hsame := hsame hremoved
    · exact absurd (hwwid.symm.trans hnone) (h.wwid m mpp hm)
    · exact hsame.symm.trans hwwid
  refine wp_ask ?_
  have hinfo := pathinfo_kept (env.pathinfo s.calls) {} pp
  generalize pathinfo (env.pathinfo s.calls) {} pp = r at hinfo
  obtain ⟨pp', rc⟩ := r
  have hasked : Touches m s { s with calls := s.calls + 1 } := (Touches.refl h).calls _
  have hvec : ({ s with calls := s.calls + 1 } : Vectors).pathvec = s.pathvec := rfl
  rw [← hvec] at hp
  have hm' : ({ s with calls := s.calls + 1 } : Vectors).map m = some mpp := hm
  have hpp' : ({ s with calls := s.calls + 1 } : Vectors).path p = some pp := hpp
  have h' := h.calls (s.calls + 1)
  generalize ({ s with calls := s.calls + 1 } : Vectors) = u at hp hasked hvec hm' hpp' h' ⊢
  have hinit : pp'.initialized ≠ .removed := fun hr => hremoved (hinfo.removed hr)
  have hwwid' : pp'.wwid = [] ∨ pp'.wwid = mpp.wwid := hwwid ▸ hinfo.wwid rfl
  have hnamed := hinfo.named (h'.named p pp hpp')
  have hread : Owned (u.setPath p pp') := by
    refine h'.setPath hpp' (fun hudev => hinfo.udev.trans hudev) hnamed
      (.inr ⟨hinfo.mpp, fun hr => absurd hr hinit⟩) fun m' hmpp => ?_
    obtain rfl := howner m' (hinfo.mpp.symm.trans hmpp)
    exact ⟨hp, mpp, hm', fun _ => hwwid'⟩
  have htaken : Owned ((u.setPath p pp').setPath p { pp' with mpp := some m }) := by
    refine hread.setPath (u.setPath_self p pp') id hnamed ?_ fun m' hmpp => ?_
    · cases hmpp : pp'.mpp with
      | none => exact .inl (hread.unlisted_of_none (u.setPath_self p pp') hmpp)
      | some m' =>
        obtain rfl := howner m' (hinfo.mpp.symm.trans hmpp)
        exact .inr ⟨rfl, fun hr => absurd hr hinit⟩
    · cases hmpp
      exact ⟨hp, mpp, hm', fun _ => hwwid'⟩
  have htouched : Touches m s (u.setPath p pp') :=
    hasked.trans (touches_setPath hpp' hread (.inr (.inr hinfo.mpp)))
  have htouched' : Touches m s ((u.setPath p pp').setPath p { pp' with mpp := some m }) :=
    htouched.trans (touches_setPath (u.setPath_self p pp') htaken (.inr (.inl rfl)))
  refine wp_write ?_
  split_ifs with hrc
  · exact ⟨rfl, htouched, hvec⟩
  refine (findPathByDevt_spec fun q hq => hread.memberPath hm' hq).bind ?_
  rintro found _ ⟨rfl, -, hfound⟩
  split_ifs with hsome
  · exact wp_write ⟨rfl, htouched', hvec⟩
  · have hnot : p ∉ mpp.paths := fun hmem =>
      hfound (by simpa using hsome) p hmem pp' (u.setPath_self p pp') rfl
    rw [storePath_of_named _ _ hnamed]
    refine wp_writeMap (wp_write ⟨rfl, ?_, hvec⟩)
    have hlisted : Owned (((u.setPath p pp').setPath p { pp' with mpp := some m }).setMap m
        { mpp with paths := mpp.paths ++ [p] }) := by
      refine htaken.setPaths hm' ?_ fun q hq => ?_
      · refine (h'.distinct m mpp hm').append (List.nodup_singleton p) fun a ha hb => hnot ?_
        rwa [← List.mem_singleton.mp hb]
      · obtain hq | hq := List.mem_append.mp hq
        · exact .inl hq
        · rw [List.mem_singleton.mp hq]
          exact .inr ⟨hp, _, Vectors.setPath_self _ _ _, rfl, hinit⟩
    exact htouched'.trans (touches_setMap hm' hlisted rfl)

/-- While `adopt_paths` has come to `todo`. -/
def Adopting (m : ℕ) (s : Vectors) (todo : List ℕ) (t : Vectors) : Prop :=
  Touches m s t ∧ t.pathvec = s.pathvec ∧ ∀ p ∈ todo, p ∈ s.pathvec

/-- `adopt_paths` cannot fail. -/
theorem adoptPaths_spec (h : Owned s) (hm : s.map m = some mpp) :
    wp E (adoptPaths env m) (fun b t => b = false ∧ Touches m s t ∧ t.pathvec = s.pathvec) s := by
  refine (updateMppPaths_spec h hm).bind ?_
  rintro _ u ⟨rfl, hgrown⟩
  have hu := hgrown.touches hm
  have hvec : u.pathvec = s.pathvec := by
    obtain ⟨paths, rfl, -⟩ := hgrown
    rfl
  refine wp_get_bind ?_
  have hstep (p : ℕ) (todo : List ℕ) (t : Vectors) (ht : Adopting m s (p :: todo) t) :
      wp E (adoptPath env m p) (fun b t => if b = true then False else Adopting m s todo t) t := by
    obtain ⟨ht, hvec', htodo⟩ := ht
    obtain ⟨mpp', hm', -⟩ := ht.same mpp hm
    refine (adoptPath_spec ht.owned hm' (hvec' ▸ htodo p List.mem_cons_self)).mono ?_
    rintro _ v ⟨rfl, hv, hvec''⟩
    exact ⟨ht.trans hv, hvec''.trans hvec', fun q hq => htodo q (List.mem_cons_of_mem p hq)⟩
  refine (wp_anyM (Adopting m s) (fun _ => False) hstep ⟨hu, hvec, fun p hp => hvec ▸ hp⟩).mono ?_
  intro b t hb
  cases b with
  | true => exact hb.elim
  | false => exact ⟨rfl, hb.1, hb.2.1⟩

end Members

end MultipathTools.Vecs
