import MultipathTools.Configure.CoalesceSpec

/-! What one iteration of `coalesce_paths` can do, and the invariant of its loop. -/
namespace MultipathTools.Configure

variable {env : CoalesceEnv} {curmp : List Multipath} {forceReload : Bool}

/-- What `should_multipath` says of a WWID. -/
def Multipathed (env : CoalesceEnv) (curmp : List Multipath) (pathvec : List Path)
    (wwid : CStr) : Prop :=
  (env.findMultipaths = .off ∨ env.findMultipaths = .greedy) ∨
  (env.findMultipaths ≠ .strict ∧
    (alreadyMultipathed env curmp wwid ∨ 2 ≤ (pathvec.map Path.wwid).count wwid)) ∨
  env.inWwidsFile wwid = true

theorem shouldMultipath_iff {k : ℕ} {pp1 : Path} {pathvec : List Path}
    (hv : ∀ pp ∈ pathvec, ValidPath env pp) (hpp : pathvec[k]? = some pp1) :
    shouldMultipath env k pp1 pathvec curmp = true ↔ Multipathed env curmp pathvec pp1.wwid := by
  obtain ⟨hk, rfl⟩ := List.getElem?_eq_some_iff.mp hpp
  have hother : ((pathvec.eraseIdx k).any fun pp2 =>
      strncmpEq pathvec[k].wwid pp2.wwid wwidSize) = true ↔
      2 ≤ (pathvec.map Path.wwid).count pathvec[k].wwid := by
    have hcount : (pathvec.map Path.wwid).count pathvec[k].wwid =
        ((pathvec.eraseIdx k).map Path.wwid).count pathvec[k].wwid + 1 := by
      rw [← ((List.getElem_cons_eraseIdx_perm hk).map Path.wwid).count_eq, List.map_cons,
        List.count_cons_self]
    have htwo : 2 ≤ (pathvec.map Path.wwid).count pathvec[k].wwid ↔
        0 < ((pathvec.eraseIdx k).map Path.wwid).count pathvec[k].wwid := by omega
    rw [htwo, List.count_pos_iff, List.mem_map, List.any_eq_true]
    refine exists_congr fun pp2 => and_congr_right fun hmem => ?_
    rw [strncmpEq_iff (hv _ (List.getElem_mem hk)).wwid
      (hv pp2 (List.mem_of_mem_eraseIdx hmem)).wwid]
    exact eq_comm
  unfold shouldMultipath Multipathed
  split_ifs with h₁ h₂
  · exact iff_of_true rfl (Or.inl h₁)
  · rw [hother] at h₂
    exact iff_of_true rfl (Or.inr (Or.inl h₂))
  · rw [hother] at h₂
    tauto

/-- What holds of the loop before iteration `k`. -/
structure LoopInv (env : CoalesceEnv) (pathvec : List Path) (k : ℕ) (st : CoalesceState) :
    Prop where
  wwids : st.pathvec.map Path.wwid = pathvec.map Path.wwid
  valid : ∀ pp ∈ st.pathvec, ValidPath env pp
  owner : ∀ pp ∈ st.pathvec, ∀ j, pp.mpp = some j → j < k ∧ pp.wwid ≠ []
  alive : ∀ mpp ∈ st.newmp, deadmap mpp = false

/-- An iteration that leaves everything as it is, with the reason. -/
structure Skips (env : CoalesceEnv) (curmp : List Multipath) (pathvec : List Path) (k : ℕ)
    (pp1 : Path) (st st' : CoalesceState) : Prop where
  same : st' = st
  reason : pp1.wwid = [] ∨ pp1.mpp ≠ none ∨ k ∈ st.sizeMismatchSeen ∨
    ¬Multipathed env curmp pathvec pp1.wwid

/-- An iteration that makes a map for its path. -/
structure Makes (env : CoalesceEnv) (curmp : List Multipath) (pathvec : List Path) (k : ℕ)
    (pp1 : Path) (st : CoalesceState) : Prop where
  wwid : pp1.wwid ≠ []
  free : pp1.mpp = none
  unseen : k ∉ st.sizeMismatchSeen
  multipathed : Multipathed env curmp pathvec pp1.wwid

structure Loads (env : CoalesceEnv) (k : ℕ) (pp1 : Path) (st st' : CoalesceState) : Prop where
  size : sizeOfMap pp1 (st.pathvec.drop (k + 1)) ≠ 0
  noConflict : conflictsAfter k pp1 st.pathvec = []
  state : ∃ mpp, mpp.wwid = pp1.wwid ∧ deadmap mpp = false ∧
    st' = { st with
      pathvec := adoptedBy env k pp1 st.pathvec
      newmp := st.newmp ++ [mpp] }

structure Rejects (env : CoalesceEnv) (k : ℕ) (pp1 : Path) (st st' : CoalesceState) : Prop where
  conflict : ¬(sizeOfMap pp1 (st.pathvec.drop (k + 1)) ≠ 0 ∧
    conflictsAfter k pp1 st.pathvec = [])
  state : st' = { st with
    pathvec := (adoptedBy env k pp1 st.pathvec).map (released k)
    sizeMismatchSeen := st.sizeMismatchSeen ++ conflictsAfter k pp1 st.pathvec }

theorem set_orphanPath {st : CoalesceState} {k : ℕ} {pp1 : Path}
    (hpp : st.pathvec[k]? = some pp1) (hfree : pp1.mpp = none) :
    { st with pathvec := st.pathvec.set k (orphanPath pp1) } = st := by
  obtain ⟨hk, rfl⟩ := List.getElem?_eq_some_iff.mp hpp
  have horphan : orphanPath st.pathvec[k] = st.pathvec[k] := by
    unfold orphanPath
    rw [← hfree]
  rw [horphan, List.set_getElem_self]

/-- What an iteration can do. -/
theorem coalesceStep_cases (curmp : List Multipath) (forceReload : Bool) (henv : Succeeds env)
    {pathvec : List Path} {k : ℕ} {st : CoalesceState} {pp1 : Path} (hi : LoopInv env pathvec k st)
    (hpp : st.pathvec[k]? = some pp1) :
    Skips env curmp pathvec k pp1 st (coalesceStep env curmp forceReload k st) ∨
      Makes env curmp pathvec k pp1 st ∧
        (Loads env k pp1 st (coalesceStep env curmp forceReload k st) ∨
          Rejects env k pp1 st (coalesceStep env curmp forceReload k st)) := by
  have hmem : pp1 ∈ st.pathvec := List.mem_of_getElem? hpp
  have hvalid := hi.valid pp1 hmem
  have hshould : shouldMultipath env k pp1 st.pathvec curmp = true ↔
      Multipathed env curmp pathvec pp1.wwid := by
    rw [shouldMultipath_iff hi.valid hpp, Multipathed, Multipathed, hi.wwids]
  unfold coalesceStep
  rw [hpp]
  dsimp only
  by_cases hwwid : pp1.wwid = []
  · have hfree : pp1.mpp = none := by
      cases hmpp : pp1.mpp with
      | none => rfl
      | some j => exact absurd hwwid (hi.owner pp1 hmem j hmpp).2
    rw [if_pos hwwid, set_orphanPath hpp hfree]
    exact Or.inl ⟨rfl, Or.inl hwwid⟩
  rw [if_neg hwwid, if_neg (by simp [hvalid.filter])]
  by_cases hskip : pp1.mpp.isSome = true ∨ k ∈ st.sizeMismatchSeen
  · rw [if_pos hskip]
    refine Or.inl ⟨rfl, ?_⟩
    rcases hskip with hsome | hseen
    · exact Or.inr (Or.inl (Option.isSome_iff_ne_none.mp hsome))
    · exact Or.inr (Or.inr (Or.inl hseen))
  rw [if_neg hskip, if_neg hvalid.state]
  obtain ⟨hnone, hunseen⟩ := not_or.mp hskip
  have hfree : pp1.mpp = none := by simpa using hnone
  by_cases hm : Multipathed env curmp pathvec pp1.wwid
  · rw [if_neg (by simp [hshould.mpr hm])]
    refine Or.inr ⟨⟨hwwid, hfree, hunseen, hm⟩, ?_⟩
    rcases coalesceMap_cases curmp forceReload henv hi.valid hmem with
      ⟨hsize, hno, hst⟩ | ⟨hconf, hst⟩
    · exact Or.inl ⟨hsize, hno, hst⟩
    · exact Or.inr ⟨hconf, hst⟩
  · rw [if_pos (by simpa using mt hshould.mp hm), set_orphanPath hpp hfree]
    exact Or.inl ⟨rfl, Or.inr (Or.inr (Or.inr hm))⟩

/-- A path of another WWID keeps its map. -/
theorem adopted_mpp_other {k : ℕ} {pp1 pp : Path} (hv : ValidPath env pp)
    (hw : pp1.wwid.length < wwidSize) (hne : pp.wwid ≠ pp1.wwid) :
    (adopted env (newMap env k pp1) pp).mpp = pp.mpp := by
  rw [adopted_mpp hv hw]
  exact if_neg fun h => hne h.1

/-- A path without a map has none or the new one. -/
theorem adopted_mpp_free (k : ℕ) {pp1 pp : Path} (hv : ValidPath env pp)
    (hw : pp1.wwid.length < wwidSize) (hfree : pp.mpp = none) :
    (adopted env (newMap env k pp1) pp).mpp = none ∨
      (adopted env (newMap env k pp1) pp).mpp = some k := by
  rw [adopted_mpp hv hw]
  split_ifs
  · exact Or.inr rfl
  · exact Or.inl hfree

@[simp] theorem released_wwid (addr : ℕ) (pp : Path) : (released addr pp).wwid = pp.wwid := by
  unfold released
  split_ifs <;> rfl

@[simp] theorem released_size (addr : ℕ) (pp : Path) : (released addr pp).size = pp.size := by
  unfold released
  split_ifs <;> rfl

theorem released_mpp (addr : ℕ) (pp : Path) :
    (released addr pp).mpp = if pp.mpp = some addr then none else pp.mpp := by
  unfold released
  split_ifs <;> rfl

theorem LoopInv.succ {pathvec : List Path} {k : ℕ} {st : CoalesceState}
    (hi : LoopInv env pathvec k st) : LoopInv env pathvec (k + 1) st :=
  ⟨hi.wwids, hi.valid, fun pp hpp j hj => ⟨(hi.owner pp hpp j hj).1.trans (Nat.lt_succ_self k),
    (hi.owner pp hpp j hj).2⟩, hi.alive⟩

/-- The path vector after a map was made keeps what the invariant says of it. -/
theorem LoopInv.adoptedBy {pathvec : List Path} {k : ℕ} {st : CoalesceState} {pp1 : Path}
    (hi : LoopInv env pathvec k st) (hpp : pp1 ∈ st.pathvec) (hwwid : pp1.wwid ≠ []) :
    LoopInv env pathvec (k + 1) { st with pathvec := adoptedBy env k pp1 st.pathvec } := by
  refine ⟨?_, ?_, ?_, hi.alive⟩
  · rw [← hi.wwids, Configure.adoptedBy, List.map_map]
    exact List.map_congr_left fun pp _ => (adopted_key env (newMap env k pp1) pp).1
  · intro pp hmem
    obtain ⟨q, hq, rfl⟩ := List.mem_map.mp hmem
    exact (hi.valid q hq).adopted _
  · rintro pp hmem j hj
    obtain ⟨q, hq, rfl⟩ := List.mem_map.mp hmem
    rw [adopted_mpp (hi.valid q hq) (hi.valid pp1 hpp).wwid] at hj
    rw [(adopted_key env (newMap env k pp1) q).1]
    split_ifs at hj with hadopt
    · obtain rfl : k = j := Option.some.inj hj
      exact ⟨Nat.lt_succ_self k, fun h => hwwid (hadopt.1.symm.trans h)⟩
    · exact hi.succ.owner q hq j hj

theorem LoopInv.released {pathvec : List Path} {k : ℕ} {st : CoalesceState} (addr : ℕ)
    (hi : LoopInv env pathvec k st) :
    LoopInv env pathvec k { st with pathvec := st.pathvec.map (released addr) } := by
  refine ⟨?_, ?_, ?_, hi.alive⟩
  · rw [← hi.wwids, List.map_map]
    exact List.map_congr_left fun pp _ => released_wwid addr pp
  · intro pp hmem
    obtain ⟨q, hq, rfl⟩ := List.mem_map.mp hmem
    exact (hi.valid q hq).released addr
  · rintro pp hmem j hj
    obtain ⟨q, hq, rfl⟩ := List.mem_map.mp hmem
    rw [released_mpp] at hj
    rw [released_wwid]
    split_ifs at hj with hown
    exact hi.owner q hq j hj

theorem coalesceStep_inv (henv : Succeeds env) {pathvec : List Path} {k : ℕ}
    {st : CoalesceState} (hi : LoopInv env pathvec k st) :
    LoopInv env pathvec (k + 1) (coalesceStep env curmp forceReload k st) := by
  cases hpp : st.pathvec[k]? with
  | none =>
    have hsame : coalesceStep env curmp forceReload k st = st := by rw [coalesceStep, hpp]
    rw [hsame]
    exact hi.succ
  | some pp1 =>
    have hmem := List.mem_of_getElem? hpp
    rcases coalesceStep_cases curmp forceReload henv hi hpp with
      hskip | ⟨hmakes, hload | hreject⟩
    · rw [hskip.same]
      exact hi.succ
    · obtain ⟨mpp, -, halive, hst⟩ := hload.state
      have had := hi.adoptedBy hmem hmakes.wwid
      rw [hst]
      refine ⟨had.wwids, had.valid, had.owner, fun m hm => ?_⟩
      rcases List.mem_append.mp hm with hold | hnew
      · exact hi.alive m hold
      · exact List.mem_singleton.mp hnew ▸ halive
    · have had := (hi.adoptedBy hmem hmakes.wwid).released k
      rw [hreject.state]
      exact ⟨had.wwids, had.valid, had.owner, had.alive⟩

/-- The invariant holds before every iteration. -/
theorem coalesceLoop_inv (curmp : List Multipath) (forceReload : Bool) (henv : Succeeds env)
    {pathvec : List Path} (hv : ∀ pp ∈ pathvec, ValidPath env pp) (k : ℕ) :
    LoopInv env pathvec k (coalesceLoop env curmp forceReload pathvec k) := by
  induction k with
  | zero =>
    refine ⟨by simp [coalesceLoop], ?_, ?_, by simp [coalesceLoop]⟩
    · intro pp hmem
      obtain ⟨q, hq, rfl⟩ := List.mem_map.mp hmem
      have h := hv q hq
      exact ⟨h.wwid, h.dev, h.filter, h.sysfs, h.info, h.initialized, h.state⟩
    · rintro pp hmem j hj
      obtain ⟨q, -, rfl⟩ := List.mem_map.mp hmem
      simp at hj
  | succ k ih => exact coalesceStep_inv henv ih

end MultipathTools.Configure
