import MultipathTools.Configure.CoalesceStep

/-! For which path vectors `coalesce_paths` makes the same maps in every order of the paths: the
loop refines the search of `makesMap` among the sizes of one WWID. -/
namespace MultipathTools.Configure

variable {env : CoalesceEnv} {curmp : List Multipath} {forceReload : Bool}

/-- The paths of a WWID from position `k` on, with the bits that are set. -/
def seenFrom (wwid : CStr) (k : ℕ) (pathvec : List Path) (bits : List ℕ) : List Seen :=
  (((pathvec.drop k).zipIdx k).filter (·.1.wwid = wwid)).map fun x =>
    (x.1.size, decide (x.2 ∈ bits))

theorem seenFrom_cons {k : ℕ} {pathvec : List Path} {pp1 : Path} (hpp : pathvec[k]? = some pp1)
    (wwid : CStr) (bits : List ℕ) :
    seenFrom wwid k pathvec bits =
      if pp1.wwid = wwid then
        (pp1.size, decide (k ∈ bits)) :: seenFrom wwid (k + 1) pathvec bits
      else seenFrom wwid (k + 1) pathvec bits := by
  obtain ⟨hk, rfl⟩ := List.getElem?_eq_some_iff.mp hpp
  unfold seenFrom
  rw [List.drop_eq_getElem_cons hk, List.zipIdx_cons]
  split_ifs with h <;> simp [h]

theorem seenFrom_end {k : ℕ} {pathvec : List Path} (hpp : pathvec[k]? = none) (wwid : CStr)
    (bits : List ℕ) : seenFrom wwid k pathvec bits = [] := by
  rw [List.getElem?_eq_none_iff] at hpp
  simp [seenFrom, List.drop_eq_nil_of_le hpp]

theorem seenFrom_fst (wwid : CStr) (k : ℕ) (pathvec : List Path) (bits : List ℕ) :
    (seenFrom wwid k pathvec bits).map Prod.fst = sizesOf wwid (pathvec.drop k) := by
  have hzip (pathvec : List Path) (i : ℕ) :
      ((pathvec.zipIdx i).filter (·.1.wwid = wwid)).map (fun x => x.1.size) =
        sizesOf wwid pathvec := by
    induction pathvec generalizing i with
    | nil => rfl
    | cons pp pathvec ih =>
      rw [List.zipIdx_cons, sizesOf_cons, ← ih (i + 1)]
      split_ifs with h <;> simp [h]
  rw [seenFrom, List.map_map]
  exact hzip _ k

/-- Changes to the paths that keep WWID and size are not seen. -/
theorem seenFrom_map {f : Path → Path} (hw : ∀ pp, (f pp).wwid = pp.wwid)
    (hs : ∀ pp, (f pp).size = pp.size) (wwid : CStr) (k : ℕ) (pathvec : List Path)
    (bits : List ℕ) : seenFrom wwid k (pathvec.map f) bits = seenFrom wwid k pathvec bits := by
  simp only [seenFrom, ← List.map_drop, List.zipIdx_map, List.filter_map, List.map_map]
  simp [Function.comp_def, hw, hs]

theorem mem_conflicts_iff {wwid : CStr} {size i : ℕ} {pathvec : List Path} {x : Path × ℕ}
    (hx : x ∈ pathvec.zipIdx i) :
    x.2 ∈ conflicts wwid size (pathvec.zipIdx i) ↔ x.1.wwid = wwid ∧ Conflict size x.1.size := by
  rw [conflicts, List.mem_map]
  constructor
  · rintro ⟨y, hy, heq⟩
    obtain ⟨hmem, hconf⟩ := List.mem_filter.mp hy
    have hget := (List.mem_zipIdx_iff_le_and_getElem?_sub.mp hmem).2
    have hget' := (List.mem_zipIdx_iff_le_and_getElem?_sub.mp hx).2
    rw [heq, hget'] at hget
    rw [Option.some.inj hget]
    simpa using hconf
  · intro h
    exact ⟨x, List.mem_filter.mpr ⟨hx, by simpa using h⟩, rfl⟩

/-- The bits of an iteration discard the conflicting paths of its WWID, and no other. -/
theorem seenFrom_conflictsAfter (wwid : CStr) (k : ℕ) (pp1 : Path) (pathvec : List Path)
    (bits : List ℕ) :
    seenFrom wwid (k + 1) pathvec (bits ++ conflictsAfter k pp1 pathvec) =
      if pp1.wwid = wwid then
        (seenFrom wwid (k + 1) pathvec bits).map
          (discard (sizeOfMap pp1 (pathvec.drop (k + 1))))
      else seenFrom wwid (k + 1) pathvec bits := by
  have hbit : ∀ x ∈ ((pathvec.drop (k + 1)).zipIdx (k + 1)).filter (·.1.wwid = wwid),
      decide (x.2 ∈ bits ++ conflictsAfter k pp1 pathvec) =
        (decide (x.2 ∈ bits) || decide (pp1.wwid = wwid ∧
          Conflict (sizeOfMap pp1 (pathvec.drop (k + 1))) x.1.size)) := by
    intro x hx
    obtain ⟨hmem, hw⟩ := List.mem_filter.mp hx
    have hw : x.1.wwid = wwid := by simpa using hw
    rw [conflictsAfter, ← Bool.decide_or]
    refine decide_eq_decide.mpr ?_
    rw [List.mem_append, mem_conflicts_iff hmem, hw]
    exact or_congr_right (and_congr_left fun _ => eq_comm)
  unfold seenFrom
  split_ifs with h
  · rw [List.map_map]
    refine List.map_congr_left fun x hx => ?_
    dsimp only [Function.comp_apply]
    rw [hbit x hx]
    simp [discard, h]
  · refine List.map_congr_left fun x hx => ?_
    rw [hbit x hx]
    simp [h]

theorem conflictsAfter_eq_nil_iff (k : ℕ) (pp1 : Path) (pathvec : List Path) (bits : List ℕ) :
    conflictsAfter k pp1 pathvec = [] ↔
      ∀ p ∈ seenFrom pp1.wwid (k + 1) pathvec bits,
        ¬Conflict (sizeOfMap pp1 (pathvec.drop (k + 1))) p.1 := by
  simp only [conflictsAfter, conflicts, seenFrom, List.map_eq_nil_iff, List.filter_eq_nil_iff,
    List.forall_mem_map, List.mem_filter, decide_eq_true_eq]
  exact ⟨fun h x hx hc => h x hx.1 ⟨hx.2, hc⟩, fun h x hx hc => h x ⟨hx, hc.1⟩ hc.2⟩

/-- No map of the WWID yet, and the paths to come decide whether there will be one. -/
structure Waiting (wwid : CStr) (made : Bool) (k : ℕ) (st : CoalesceState) : Prop where
  noMap : ∀ mpp ∈ st.newmp, mpp.wwid ≠ wwid
  free : ∀ pp ∈ st.pathvec, pp.wwid = wwid → pp.mpp = none
  made : makesMap (seenFrom wwid k st.pathvec st.sizeMismatchSeen) = made

/-- There is a map of the WWID, and all paths to come have it. -/
structure Loaded (wwid : CStr) (k : ℕ) (st : CoalesceState) : Prop where
  map : ∃ mpp ∈ st.newmp, mpp.wwid = wwid
  owned : ∀ pp ∈ st.pathvec.drop k, pp.wwid = wwid → pp.mpp ≠ none

theorem seenFrom_adoptedBy (wwid : CStr) (i k : ℕ) (pp1 : Path) (pathvec : List Path)
    (bits : List ℕ) :
    seenFrom wwid i (adoptedBy env k pp1 pathvec) bits = seenFrom wwid i pathvec bits :=
  seenFrom_map (fun pp => (adopted_key env _ pp).1) (fun pp => (adopted_key env _ pp).2.1) ..

/-- A later path of the WWID that does not conflict is adopted by the map. -/
theorem adopted_later {k : ℕ} {pp1 pp : Path} {pathvec : List Path}
    (hv : ValidPath env pp) (hw : pp1.wwid.length < wwidSize) (hwwid : pp.wwid = pp1.wwid)
    (hsize : sizeOfMap pp1 (pathvec.drop (k + 1)) ≠ 0)
    (hno : conflictsAfter k pp1 pathvec = []) (hpp : pp ∈ pathvec.drop (k + 1)) :
    (adopted env (newMap env k pp1) pp).mpp ≠ none := by
  have hagree : ¬Conflict (sizeOfMap pp1 (pathvec.drop (k + 1))) pp.size := by
    have hmem : pp.size ∈ (seenFrom pp1.wwid (k + 1) pathvec []).map Prod.fst := by
      rw [seenFrom_fst]
      exact List.mem_map_of_mem (List.mem_filter.mpr ⟨hpp, by simpa using hwwid⟩)
    obtain ⟨p, hp, hps⟩ := List.mem_map.mp hmem
    exact hps ▸ (conflictsAfter_eq_nil_iff k pp1 pathvec []).mp hno p hp
  have hadopt : ¬Conflict pp1.size pp.size := by
    rintro ⟨h0, hc⟩
    have hfirst : sizeOfMap pp1 (pathvec.drop (k + 1)) = pp1.size := if_pos h0
    exact hagree ⟨hsize, hfirst ▸ hc⟩
  rw [adopted_mpp hv hw, if_pos ⟨hwwid, hadopt⟩]
  exact Option.some_ne_none _

/-- An iteration that makes a map is a step of `makesMap`. -/
theorem makesMap_step {k : ℕ} {pp1 : Path} {pathvec : List Path} {bits : List ℕ}
    (hpp : pathvec[k]? = some pp1) (hunseen : k ∉ bits) :
    makesMap (seenFrom pp1.wwid k pathvec bits) =
      (decide (sizeOfMap pp1 (pathvec.drop (k + 1)) ≠ 0 ∧ conflictsAfter k pp1 pathvec = []) ||
        makesMap ((seenFrom pp1.wwid (k + 1) pathvec bits).map
          (discard (sizeOfMap pp1 (pathvec.drop (k + 1)))))) := by
  have hsize : mapSize pp1.size ((seenFrom pp1.wwid (k + 1) pathvec bits).map Prod.fst) =
      sizeOfMap pp1 (pathvec.drop (k + 1)) := by rw [seenFrom_fst, sizeOfMap]
  rw [seenFrom_cons hpp, if_pos rfl, decide_eq_false hunseen, makesMap_cons_false, hsize]
  congr 1
  refine decide_eq_decide.mpr (and_congr_right fun _ => ?_)
  exact (conflictsAfter_eq_nil_iff k pp1 pathvec bits).symm

theorem Loaded.step (henv : Succeeds env) {pathvec : List Path} {k : ℕ} {st : CoalesceState}
    {wwid : CStr} (hi : LoopInv env pathvec k st) (hl : Loaded wwid k st) :
    Loaded wwid (k + 1) (coalesceStep env curmp forceReload k st) := by
  have hsub : st.pathvec.drop (k + 1) ⊆ st.pathvec.drop k :=
    (List.drop_sublist_drop_left st.pathvec (Nat.le_succ k)).subset
  cases hpp : st.pathvec[k]? with
  | none =>
    have hsame : coalesceStep env curmp forceReload k st = st := by rw [coalesceStep, hpp]
    rw [hsame]
    exact ⟨hl.map, fun pp h => hl.owned pp (hsub h)⟩
  | some pp1 =>
    obtain ⟨hk, hget⟩ := List.getElem?_eq_some_iff.mp hpp
    have hmem := List.mem_of_getElem? hpp
    have hfirst : pp1 ∈ st.pathvec.drop k := by
      rw [List.drop_eq_getElem_cons hk, hget]
      exact List.mem_cons_self
    have hw := (hi.valid pp1 hmem).wwid
    -- A path of this WWID has a map, so an iteration for it makes no other one.
    have hkeep : pp1.mpp = none → ∀ pp ∈ st.pathvec.drop (k + 1), pp.wwid = wwid →
        (adopted env (newMap env k pp1) pp).mpp = pp.mpp := by
      intro hfree pp hp hwwid
      refine adopted_mpp_other (hi.valid pp (List.mem_of_mem_drop hp)) hw fun heq => ?_
      exact hl.owned pp1 hfirst (heq ▸ hwwid) hfree
    rcases coalesceStep_cases curmp forceReload henv hi hpp with
      hskip | ⟨hmakes, hload | hreject⟩
    · rw [hskip.same]
      exact ⟨hl.map, fun pp h => hl.owned pp (hsub h)⟩
    · obtain ⟨mpp, -, -, hst⟩ := hload.state
      rw [hst]
      refine ⟨hl.map.imp fun m hm => ⟨List.mem_append_left _ hm.1, hm.2⟩, ?_⟩
      intro pp hp hwwid
      rw [adoptedBy, ← List.map_drop] at hp
      obtain ⟨q, hq, rfl⟩ := List.mem_map.mp hp
      rw [(adopted_key env _ q).1] at hwwid
      rw [hkeep hmakes.free q hq hwwid]
      exact hl.owned q (hsub hq) hwwid
    · rw [hreject.state]
      refine ⟨hl.map, ?_⟩
      intro pp hp hwwid
      rw [adoptedBy, List.map_map, ← List.map_drop] at hp
      obtain ⟨q, hq, rfl⟩ := List.mem_map.mp hp
      rw [Function.comp_apply, released_wwid, (adopted_key env _ q).1] at hwwid
      rw [Function.comp_apply, released_mpp, hkeep hmakes.free q hq hwwid]
      have hown : q.mpp ≠ some k := fun h =>
        (hi.owner q (List.mem_of_mem_drop hq) k h).1.ne rfl
      rw [if_neg hown]
      exact hl.owned q (hsub hq) hwwid

theorem Waiting.step (henv : Succeeds env) {pathvec : List Path} {k : ℕ} {st : CoalesceState}
    {wwid : CStr} {made : Bool} (hne : wwid ≠ []) (hm : Multipathed env curmp pathvec wwid)
    (hi : LoopInv env pathvec k st) (hwait : Waiting wwid made k st) :
    Waiting wwid made (k + 1) (coalesceStep env curmp forceReload k st) ∨
      made = true ∧ Loaded wwid (k + 1) (coalesceStep env curmp forceReload k st) := by
  cases hpp : st.pathvec[k]? with
  | none =>
    have hsame : coalesceStep env curmp forceReload k st = st := by rw [coalesceStep, hpp]
    have hend : st.pathvec[k + 1]? = none := by
      rw [List.getElem?_eq_none_iff] at hpp ⊢
      omega
    rw [hsame]
    refine Or.inl ⟨hwait.noMap, hwait.free, ?_⟩
    rw [seenFrom_end hend, ← hwait.made, seenFrom_end hpp]
  | some pp1 =>
    have hmem := List.mem_of_getElem? hpp
    have hw := (hi.valid pp1 hmem).wwid
    have hview := seenFrom_cons hpp wwid st.sizeMismatchSeen
    rcases coalesceStep_cases curmp forceReload henv hi hpp with
      hskip | ⟨hmakes, hload | hreject⟩
    · rw [hskip.same]
      refine Or.inl ⟨hwait.noMap, hwait.free, ?_⟩
      rw [← hwait.made, hview]
      split_ifs with hwwid
      · have hseen : k ∈ st.sizeMismatchSeen := by
          rcases hskip.reason with h | h | h | h
          · exact absurd (hwwid.symm.trans h) hne
          · exact absurd (hwait.free pp1 hmem hwwid) h
          · exact h
          · exact absurd (hwwid ▸ hm) h
        rw [decide_eq_true hseen, makesMap_cons_true]
      · rfl
    · obtain ⟨mpp, hmpp, -, hst⟩ := hload.state
      rw [hst]
      by_cases hwwid : pp1.wwid = wwid
      · subst hwwid
        have hmade := makesMap_step hpp hmakes.unseen
        rw [decide_eq_true ⟨hload.size, hload.noConflict⟩, Bool.true_or, hwait.made] at hmade
        refine Or.inr ⟨hmade, ⟨mpp, List.mem_append_right _ (List.mem_singleton_self mpp), hmpp⟩,
          ?_⟩
        intro pp hp hwwid
        rw [adoptedBy, ← List.map_drop] at hp
        obtain ⟨q, hq, rfl⟩ := List.mem_map.mp hp
        rw [(adopted_key env _ q).1] at hwwid
        exact adopted_later (hi.valid q (List.mem_of_mem_drop hq)) hw hwwid hload.size
          hload.noConflict hq
      · refine Or.inl ⟨?_, ?_, ?_⟩
        · intro m hmem
          rcases List.mem_append.mp hmem with hold | hnew
          · exact hwait.noMap m hold
          · rw [List.mem_singleton.mp hnew, hmpp]
            exact hwwid
        · intro pp hp hpw
          obtain ⟨q, hq, rfl⟩ := List.mem_map.mp hp
          rw [(adopted_key env _ q).1] at hpw
          rw [adopted_mpp_other (hi.valid q hq) hw fun heq => hwwid (heq ▸ hpw)]
          exact hwait.free q hq hpw
        · rw [seenFrom_adoptedBy, ← hwait.made, hview, if_neg hwwid]
    · rw [hreject.state]
      refine Or.inl ⟨hwait.noMap, ?_, ?_⟩
      · intro pp hp hpw
        rw [adoptedBy, List.map_map] at hp
        obtain ⟨q, hq, rfl⟩ := List.mem_map.mp hp
        rw [Function.comp_apply, released_wwid, (adopted_key env _ q).1] at hpw
        rw [Function.comp_apply, released_mpp]
        rcases adopted_mpp_free k (hi.valid q hq) hw (hwait.free q hq hpw) with h | h <;> simp [h]
      · rw [seenFrom_map (released_wwid k) (released_size k),
          seenFrom_adoptedBy, seenFrom_conflictsAfter, ← hwait.made]
        split_ifs with hwwid
        · subst hwwid
          rw [makesMap_step hpp hmakes.unseen, decide_eq_false hreject.conflict, Bool.false_or]
        · rw [hview, if_neg hwwid]

/-- Before every iteration a WWID has its map, or waits for it. -/
theorem coalesceLoop_waiting_or_loaded (henv : Succeeds env) {pathvec : List Path}
    (hv : ∀ pp ∈ pathvec, ValidPath env pp) {wwid : CStr} (hne : wwid ≠ [])
    (hm : Multipathed env curmp pathvec wwid) (k : ℕ) :
    Waiting wwid (makesMap (unseen (sizesOf wwid pathvec))) k
        (coalesceLoop env curmp forceReload pathvec k) ∨
      makesMap (unseen (sizesOf wwid pathvec)) = true ∧
        Loaded wwid k (coalesceLoop env curmp forceReload pathvec k) := by
  induction k with
  | zero =>
    refine Or.inl ⟨by simp [coalesceLoop], by simp [coalesceLoop], ?_⟩
    have hview : seenFrom wwid 0 pathvec [] = unseen (sizesOf wwid pathvec) := by
      rw [← List.drop_zero (l := pathvec), ← seenFrom_fst wwid 0 pathvec [], List.drop_zero]
      simp [seenFrom, unseen, Function.comp_def]
    rw [← hview, coalesceLoop]
    exact congrArg makesMap
      (seenFrom_map (f := fun pp => { pp with mpp := none }) (fun _ => rfl) (fun _ => rfl) ..)
  | succ k ih =>
    have hi := coalesceLoop_inv curmp forceReload henv hv k
    rcases ih with hwait | ⟨hmade, hl⟩
    · exact hwait.step henv hne hm hi
    · exact Or.inr ⟨hmade, hl.step henv hi⟩

theorem coalescePaths_newmp (henv : Succeeds env) {pathvec : List Path}
    (hv : ∀ pp ∈ pathvec, ValidPath env pp) :
    (coalescePaths env curmp forceReload pathvec).newmp =
      (coalesceLoop env curmp forceReload pathvec pathvec.length).newmp := by
  have hi := coalesceLoop_inv curmp forceReload henv hv pathvec.length
  exact List.filter_eq_self.mpr fun mpp hmpp => by simp [hi.alive mpp hmpp]

/-- `coalesce_paths` leaves a map of the WWID in `newmp`. -/
def Creates (env : CoalesceEnv) (curmp : List Multipath) (forceReload : Bool)
    (pathvec : List Path) (wwid : CStr) : Prop :=
  ∃ mpp ∈ (coalescePaths env curmp forceReload pathvec).newmp, mpp.wwid = wwid

/-- Whether a WWID that is multipathed gets a map depends only on the sizes of its paths. -/
theorem creates_iff_makesMap (henv : Succeeds env) {pathvec : List Path}
    (hv : ∀ pp ∈ pathvec, ValidPath env pp) {wwid : CStr} (hne : wwid ≠ [])
    (hm : Multipathed env curmp pathvec wwid) :
    Creates env curmp forceReload pathvec wwid ↔
      makesMap (unseen (sizesOf wwid pathvec)) = true := by
  have hi := coalesceLoop_inv curmp forceReload henv hv pathvec.length
  rw [Creates, coalescePaths_newmp henv hv]
  rcases coalesceLoop_waiting_or_loaded henv hv hne hm pathvec.length with hwait | ⟨hmade, hl⟩
  · have hlen : (coalesceLoop env curmp forceReload pathvec pathvec.length).pathvec.length =
        pathvec.length := by simpa using congrArg List.length hi.wwids
    have hmade := hwait.made
    rw [seenFrom_end (List.getElem?_eq_none_iff.mpr hlen.le), makesMap_nil] at hmade
    rw [← hmade]
    exact iff_of_false (fun ⟨mpp, hmem, hw⟩ => hwait.noMap mpp hmem hw) Bool.false_ne_true
  · exact iff_of_true hl.map hmade

/-- A WWID that is empty or not to be multipathed gets no map. -/
theorem not_creates (forceReload : Bool) (henv : Succeeds env) {pathvec : List Path}
    (hv : ∀ pp ∈ pathvec, ValidPath env pp) {wwid : CStr}
    (hnot : wwid = [] ∨ ¬Multipathed env curmp pathvec wwid) :
    ¬Creates env curmp forceReload pathvec wwid := by
  have hloop (k : ℕ) : ∀ mpp ∈ (coalesceLoop env curmp forceReload pathvec k).newmp,
      mpp.wwid ≠ wwid := by
    induction k with
    | zero => simp [coalesceLoop]
    | succ k ih =>
      have hi := coalesceLoop_inv curmp forceReload henv hv k
      rw [coalesceLoop]
      cases hpp : (coalesceLoop env curmp forceReload pathvec k).pathvec[k]? with
      | none => rwa [coalesceStep, hpp]
      | some pp1 =>
        rcases coalesceStep_cases curmp forceReload henv hi hpp with
          hskip | ⟨hmakes, hload | hreject⟩
        · rwa [hskip.same]
        · obtain ⟨mpp, hmpp, -, hst⟩ := hload.state
          rw [hst]
          intro m hmem
          rcases List.mem_append.mp hmem with hold | hnew
          · exact ih m hold
          · rw [List.mem_singleton.mp hnew, hmpp]
            rintro rfl
            exact hnot.elim hmakes.wwid fun h => h hmakes.multipathed
        · rwa [hreject.state]
  rw [Creates, coalescePaths_newmp henv hv]
  intro h
  obtain ⟨mpp, hmem, hw⟩ := h
  exact hloop _ mpp hmem hw

theorem sizesOf_perm {pathvec pathvec' : List Path} (h : pathvec'.Perm pathvec) (wwid : CStr) :
    (sizesOf wwid pathvec').Perm (sizesOf wwid pathvec) := (h.filter _).map _

/-- Every order of the sizes of a WWID is that of some order of the paths. -/
theorem exists_perm_sizesOf {pathvec : List Path} {wwid : CStr} {l : List ℕ}
    (h : l.Perm (sizesOf wwid pathvec)) :
    ∃ pathvec', pathvec'.Perm pathvec ∧ sizesOf wwid pathvec' = l := by
  have hmap : List.Forall₂ (fun s pp => Path.size pp = s) (sizesOf wwid pathvec)
      (pathvec.filter (·.wwid = wwid)) := by
    rw [sizesOf, List.forall₂_map_left_iff]
    exact List.forall₂_same.mpr fun _ _ => rfl
  obtain ⟨paths, hsizes, hperm⟩ := List.perm_comp_forall₂ h hmap
  have hwwids : ∀ pp ∈ paths, pp.wwid = wwid := fun pp hpp => by
    simpa using (List.mem_filter.mp (hperm.subset hpp)).2
  refine ⟨paths ++ pathvec.filter (fun pp => ¬pp.wwid = wwid), ?_, ?_⟩
  · refine (hperm.append_right _).trans ?_
    simpa using List.filter_append_perm (fun pp => decide (pp.wwid = wwid)) pathvec
  · have hothers : (pathvec.filter (fun pp => ¬pp.wwid = wwid)).filter (·.wwid = wwid) = [] := by
      simp [List.filter_filter]
    have hpaths : paths.filter (·.wwid = wwid) = paths :=
      List.filter_eq_self.mpr fun pp hpp => by simpa using hwwids pp hpp
    rw [sizesOf, List.filter_append, hothers, hpaths, List.append_nil]
    clear hpaths hothers hwwids hperm h
    induction hsizes with
    | nil => rfl
    | cons hs _ ih => rw [List.map_cons, hs, ih]

theorem Multipathed.perm {pathvec pathvec' : List Path} (h : pathvec'.Perm pathvec)
    {wwid : CStr} :
    Multipathed env curmp pathvec' wwid ↔ Multipathed env curmp pathvec wwid := by
  rw [Multipathed, Multipathed, (h.map Path.wwid).count_eq]

/-- The order of the paths does not matter for the map of a WWID, and its paths agree in size if
there is one, exactly if no map is wanted, the sizes agree, or all are known and distinct. -/
theorem coalescePaths_order_iff (env : CoalesceEnv) (curmp : List Multipath) (forceReload : Bool)
    (pathvec : List Path) (wwid : CStr) (henv : Succeeds env)
    (hv : ∀ pp ∈ pathvec, ValidPath env pp) :
    (∀ pathvec' : List Path, pathvec'.Perm pathvec →
        (Creates env curmp forceReload pathvec' wwid ↔
          Creates env curmp forceReload pathvec wwid) ∧
        (Creates env curmp forceReload pathvec' wwid → Agree (sizesOf wwid pathvec'))) ↔
      (wwid = [] ∨ ¬Multipathed env curmp pathvec wwid) ∨ Agree (sizesOf wwid pathvec) ∨
        (0 ∉ sizesOf wwid pathvec ∧ (sizesOf wwid pathvec).Nodup) := by
  have hv' : ∀ pathvec' : List Path, pathvec'.Perm pathvec → ∀ pp ∈ pathvec', ValidPath env pp :=
    fun pathvec' hp pp hpp => hv pp (hp.subset hpp)
  by_cases hnot : wwid = [] ∨ ¬Multipathed env curmp pathvec wwid
  · refine iff_of_true (fun pathvec' hp => ?_) (Or.inl hnot)
    have hnot' : wwid = [] ∨ ¬Multipathed env curmp pathvec' wwid := by
      rwa [Multipathed.perm hp]
    have hno := not_creates forceReload henv (hv' pathvec' hp) hnot'
    have hno' := not_creates forceReload henv hv hnot
    exact ⟨iff_of_false hno hno', fun h => absurd h hno⟩
  · rw [or_iff_right hnot, ← makesMap_order_iff]
    obtain ⟨hne, hm⟩ := not_or.mp hnot
    rw [not_not] at hm
    have hcreates : ∀ pathvec' : List Path, pathvec'.Perm pathvec →
        (Creates env curmp forceReload pathvec' wwid ↔
          makesMap (unseen (sizesOf wwid pathvec')) = true) := fun pathvec' hp =>
      creates_iff_makesMap henv (hv' pathvec' hp) hne ((Multipathed.perm hp).mpr hm)
    constructor
    · intro h l hl
      obtain ⟨pathvec', hp, rfl⟩ := exists_perm_sizesOf hl
      have hthis := h pathvec' hp
      rw [hcreates pathvec' hp, hcreates pathvec (List.Perm.refl _)] at hthis
      exact ⟨Bool.eq_iff_iff.mpr hthis.1, hthis.2⟩
    · intro h pathvec' hp
      rw [hcreates pathvec' hp, hcreates pathvec (List.Perm.refl _)]
      have hthis := h (sizesOf wwid pathvec') (sizesOf_perm hp wwid)
      exact ⟨Bool.eq_iff_iff.mp hthis.1, hthis.2⟩

/-- A system without maps in which everything succeeds. -/
def plainEnv : CoalesceEnv where
  linuxVersionCode := 0
  isMppKnownToUdev := fun _ => true
  mpathDeviceReady := fun _ => none
  findMultipaths := .off
  dmGetUuid := fun _ => none
  inWwidsFile := fun _ => true
  filterPath := fun _ _ => false
  pathinfo := fun _ => some (.up, 1)
  inSysfs := fun _ => true
  selectAlias := fun mpp => mpp.wwid
  setupPathgroups := fun mpp => some { mpp with pg := some [⟨0, mpp.paths.getD []⟩] }
  dmMapPresent := fun _ => false
  dmAliasUuid := fun _ => none
  dmLoad := fun _ => true

theorem plainEnv_succeeds : Succeeds plainEnv where
  setup mpp := ⟨_, rfl, rfl, rfl, rfl, fun pp hpp =>
    ⟨_, List.mem_singleton_self _, pp, hpp, rfl⟩⟩
  uuid _ _ h := by simp [plainEnv] at h
  load _ := rfl

/-- A path of the WWID `w`. -/
def samplePath (dev : String) (size : ℕ) : Path :=
  { dev := dev.toList, devT := dev.toList, wwid := "w".toList, size := size }

theorem samplePath_valid {dev : String} (hdev : dev.toList ≠ []) (size : ℕ) :
    ValidPath plainEnv (samplePath dev size) where
  wwid := by simp [samplePath, wwidSize]
  dev := hdev
  filter := rfl
  sysfs := rfl
  info := ⟨_, rfl, by decide⟩
  initialized := by simp [samplePath]
  state := by simp [samplePath]

/-- Three paths of different sizes: there is no map in any order. -/
theorem coalescePaths_order_three_paths :
    let paths := [samplePath "sda" 100, samplePath "sdb" 200, samplePath "sdc" 300]
    let others := [samplePath "sdc" 300, samplePath "sda" 100, samplePath "sdb" 200]
    (Creates plainEnv [] false others "w".toList ↔ Creates plainEnv [] false paths "w".toList) ∧
      (Creates plainEnv [] false others "w".toList → Agree (sizesOf "w".toList others)) := by
  have hvalid : ∀ pp ∈ [samplePath "sda" 100, samplePath "sdb" 200, samplePath "sdc" 300],
      ValidPath plainEnv pp := by
    simp only [List.forall_mem_cons, List.not_mem_nil, false_implies, implies_true, and_true]
    exact ⟨samplePath_valid (by decide) 100, samplePath_valid (by decide) 200,
      samplePath_valid (by decide) 300⟩
  have hdistinct : 0 ∉ sizesOf "w".toList [samplePath "sda" 100, samplePath "sdb" 200,
      samplePath "sdc" 300] ∧ (sizesOf "w".toList [samplePath "sda" 100, samplePath "sdb" 200,
        samplePath "sdc" 300]).Nodup := by decide
  exact (coalescePaths_order_iff plainEnv [] false _ _ plainEnv_succeeds hvalid).mpr
    (.inr (.inr hdistinct)) _ (by decide)

/-- With the odd size between the others there is a map of paths that disagree; with the odd
size behind them there is none. -/
theorem coalescePaths_odd_size :
    [samplePath "sda" 100, samplePath "sdc" 100, samplePath "sdb" 200].Perm
        [samplePath "sda" 100, samplePath "sdb" 200, samplePath "sdc" 100] ∧
      (∀ pp ∈ [samplePath "sda" 100, samplePath "sdb" 200, samplePath "sdc" 100],
        ValidPath plainEnv pp) ∧
      Creates plainEnv [] false
        [samplePath "sda" 100, samplePath "sdb" 200, samplePath "sdc" 100] "w".toList ∧
      ¬Agree (sizesOf "w".toList
        [samplePath "sda" 100, samplePath "sdb" 200, samplePath "sdc" 100]) ∧
      ¬Creates plainEnv [] false
        [samplePath "sda" 100, samplePath "sdc" 100, samplePath "sdb" 200] "w".toList := by
  refine ⟨by decide, ?_, ?_, by decide, ?_⟩
  · simp only [List.forall_mem_cons, List.not_mem_nil, false_implies, implies_true, and_true]
    exact ⟨samplePath_valid (by decide) 100, samplePath_valid (by decide) 200,
      samplePath_valid (by decide) 100⟩
  · unfold Creates
    decide
  · unfold Creates
    decide

end MultipathTools.Configure
