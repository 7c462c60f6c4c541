import MultipathTools.Vecs.Tables

/-! What `multipathd` does with paths and maps when an event comes, and which objects it uses that it
has freed before. -/
namespace MultipathTools.Vecs

section Handlers
variable (env : Env)

/-- `setup_map` -/
def setupMap (m : ℕ) : VecsM Bool := do
  let mpp ← loadMap m
  let seen ← ask fun n => env.setup n mpp.paths
  match seen with
  | .unready => pure false
  | .ungrouped =>
    writeMap m { mpp with pg := none }
    pure false
  | .grouped pgs assembled =>
    -- `group_paths` frees the list of the paths
    writeMap m { mpp with paths := [], pg := some pgs }
    pure assembled

/-- `setup_multipath`; it tells whether the map is gone. -/
def setupMultipath (m : ℕ) : VecsM Bool := do
  let info ← ask env.yes
  if info = false then
    removeMap m
    pure true
  else
    let rc ← updateMultipathStrings env m
    if rc ≠ .ok then
      removeMap m
      pure true
    else pure false

/-- `update_multipath` -/
def updateMultipath (aliasName : CStr) : VecsM PUnit := do
  let found ← findMpByAlias aliasName
  match found with
  | none => pure ⟨⟩
  | some m =>
    let gone ← setupMultipath env m
    if gone then pure ⟨⟩ else usePaths m

/-- `flush_map`; it tells whether the map is gone. -/
def flushMap (m : ℕ) : VecsM Bool := do
  let flushed ← ask env.yes
  if flushed then
    orphanPaths m
    removeMap m
    pure true
  else pure false

/-- One attempt of `update_map`; it tells whether `domap` has failed. -/
def tryMap (m : ℕ) : VecsM Bool := do
  let failed ← adoptPaths env m
  if failed then pure false
  else
    verifyPaths env m
    let ready ← setupMap env m
    if ready = false then pure false
    else
      let rc ← ask env.domap
      pure (rc = .fail)

def retryMap (m : ℕ) : ℕ → VecsM PUnit
  | 0 => do
    let _ ← tryMap env m
    pure ⟨⟩
  | retries + 1 => do
    let failed ← tryMap env m
    if failed then retryMap m retries else pure ⟨⟩

/-- `update_map`, for a map that is not new; it tells whether the map is gone. -/
def updateMap (m : ℕ) : VecsM Bool := do
  retryMap env m 3
  let gone ← setupMultipath env m
  if gone then pure true
  else
    usePaths m
    pure false

/-- What has been delayed until the uevent of a map comes. -/
def delayedActions (m : ℕ) : VecsM Bool := do
  let mpp ← loadMap m
  if 1 < mpp.waitForUdev then updateMap env m else pure false

/-- `ev_add_map`, for a map that is registered. -/
def evAddMap (aliasName : CStr) : VecsM PUnit := do
  let found ← findMpByAlias aliasName
  match found with
  | none => pure ⟨⟩
  | some m =>
    let gone ← delayedActions env m
    if gone then pure ⟨⟩
    else
      let mpp ← loadMap m
      writeMap m { mpp with waitForUdev := 0 }

/-- The path is marked as removed, and its map does not list it any more. -/
def markRemoved (m p : ℕ) : VecsM PUnit := do
  setPathRemoved p
  let mpp ← loadMap m
  writeMap m { mpp with paths := mpp.paths.erase p }

/-- A map is flushed if it lists no path any more. -/
def flushIfEmpty (m : ℕ) : VecsM Bool := do
  let mpp ← loadMap m
  if mpp.paths = [] then flushMap env m else pure false

/-- The table of the map is loaded without the path that has been removed. -/
def reloadWithout (m p : ℕ) : VecsM Bool := do
  let rc ← ask env.domap
  if rc = .fail then pure true
  else
    usePath p
    let gone ← setupMultipath env m
    if gone then pure true
    else
      usePaths m
      pure false

/-- `ev_remove_path`, for a path that belongs to the map at `m`. -/
def removeMember (m p : ℕ) (needDoMap : Bool) : VecsM Bool := do
  let failed ← updateMppPaths m
  if failed then
    removeMap m
    pure true
  else
    markRemoved m p
    let gone ← flushIfEmpty env m
    if gone then pure false
    else
      let ready ← setupMap env m
      if ready = false then
        removeMap m
        pure true
      else
        let mpp ← loadMap m
        if mpp.waitForUdev ≠ 0 then
          writeMap m { mpp with waitForUdev := 2 }
          pure false
        else if needDoMap = false then pure false
        else reloadWithout env m p

/-- `ev_remove_path` -/
def evRemovePath (p : ℕ) (needDoMap : Bool) : VecsM Bool := do
  let pp ← load .vector p
  match pp.mpp with
  | some m => removeMember env m p needDoMap
  | none =>
    let s ← get
    setPathvec (s.pathvec.erase p)
    freePath .vector p
    pure false

/-- `uev_remove_path` -/
def uevRemovePath (dev : CStr) (needDoMap : Bool) : VecsM PUnit := do
  let found ← findPathByDev dev
  match found with
  | none => pure ⟨⟩
  | some p =>
    let _ ← evRemovePath env p needDoMap
    pure ⟨⟩

/-- `find_mp_by_minor` -/
def findMpByMinor (hasMinor : ℕ → Bool) : VecsM (Option ℕ) := do
  let s ← get
  s.mpvec.findM? fun m => do
    let _ ← loadMap m
    pure (hasMinor m)

/-- `uev_remove_map` removes a map that is gone; `ev_remove_map` flushes one. -/
def onMap (hasMinor : ℕ → Bool) (aliasName : CStr) (act : ℕ → VecsM PUnit) : VecsM PUnit := do
  let found ← findMpByMinor hasMinor
  match found with
  | none => pure ⟨⟩
  | some m =>
    let mpp ← loadMap m
    if mpp.aliasName ≠ aliasName then pure ⟨⟩ else act m

def uevRemoveMap (hasMinor : ℕ → Bool) (aliasName : CStr) : VecsM PUnit :=
  onMap hasMinor aliasName removeMap

def evRemoveMap (hasMinor : ℕ → Bool) (aliasName : CStr) : VecsM PUnit :=
  onMap hasMinor aliasName fun m => do
    let _ ← flushMap env m
    pure ⟨⟩

/-- What is handled while the lock on the vectors is held. -/
inductive VecsEvent where
  | removePath (dev : CStr) (needDoMap : Bool)
  | addMap (aliasName : CStr)
  | removeMap (hasMinor : ℕ → Bool) (aliasName : CStr)
  | flush (hasMinor : ℕ → Bool) (aliasName : CStr)
  | update (aliasName : CStr)

def handle : Env × VecsEvent → VecsM PUnit
  | (env, .removePath dev needDoMap) => uevRemovePath env dev needDoMap
  | (env, .addMap aliasName) => evAddMap env aliasName
  | (_, .removeMap hasMinor aliasName) => uevRemoveMap hasMinor aliasName
  | (env, .flush hasMinor aliasName) => evRemoveMap env hasMinor aliasName
  | (env, .update aliasName) => updateMultipath env aliasName

end Handlers

variable {E : Misuse → Prop} {env : Env} {s t u : Vectors} {m m' p q : ℕ} {pp pp' : OwnedPath}
  {mpp mpp' : OwnedMap}

section Steps

/-- Paths and owners are consistent, and every map is registered. -/
structure Registered (s : Vectors) : Prop where
  owned : Owned s
  all : ∀ m mpp, s.map m = some mpp → m ∈ s.mpvec

/-- The fault that can happen. -/
def AtFree (e : Misuse) : Prop := e = .freedGroup

theorem Touches.registered (h : Touches m s t) (hs : Registered s) (hm : s.map m = some mpp) :
    Registered t := by
  refine ⟨h.owned, fun m' mpp' hm' => ?_⟩
  rw [h.mpvec]
  by_cases hne : m' = m
  · exact hne ▸ hs.all m mpp hm
  · exact hs.all m' mpp' ((h.other m' hne).symm.trans hm')

theorem Registered.removed (h : Registered s) (hm : s.map m = some mpp) : Registered (s.removed m) := by
  refine ⟨h.owned.removed hm, fun m' mpp' hm' => ?_⟩
  by_cases hne : m' = m
  · subst hne
    rw [show (s.removed m').map m' = none from Function.update_self _ _ _] at hm'
    cases hm'
  · have hm' : s.map m' = some mpp' := (Function.update_of_ne hne _ _).symm.trans hm'
    exact (List.mem_erase_of_ne hne).mpr (h.all m' mpp' hm')

theorem removeMap_step (h : Registered s) (hm : s.map m = some mpp)
    (hstart : wp AtFree (orphanPaths m) (fun _ v => v = s.orphaned m) t) :
    wp AtFree (removeMap m) (fun _ v => Registered v) t := by
  by_cases hheld : s.HoldsRemoved m
  · exact (removeMap_fails h.owned hheld hstart).mono fun _ _ => False.elim
  · refine (removeMap_spec h.owned hm hheld hstart).mono ?_
    rintro _ _ rfl
    exact h.removed hm

theorem removeMap_registered (h : Registered s) (hm : s.map m = some mpp) :
    wp AtFree (removeMap m) (fun _ v => Registered v) s :=
  removeMap_step h hm (orphanPaths_spec h.owned hm)

/-- The map is gone, or it is still there. -/
def GoneOr (m : ℕ) (s : Vectors) (gone : Bool) (t : Vectors) : Prop :=
  Registered t ∧ (gone = false → Touches m s t)

theorem setupMultipath_spec (h : Registered s) (hm : s.map m = some mpp) :
    wp AtFree (setupMultipath env m) (GoneOr m s) s := by
  have hasked : Touches m s { s with calls := s.calls + 1 } := (Touches.refl h.owned).calls _
  refine wp_ask ?_
  have hm' : ({ s with calls := s.calls + 1 } : Vectors).map m = some mpp := hm
  generalize ({ s with calls := s.calls + 1 } : Vectors) = u at hasked hm' ⊢
  split_ifs with hinfo
  · exact (removeMap_registered (hasked.registered h hm) hm').bind fun _ _ ht => ⟨ht, nofun⟩
  · refine (updateMultipathStrings_spec hasked.owned hm').bind fun rc v hv => ?_
    have hread := hasked.trans hv
    obtain ⟨mpp', hm'', -⟩ := hread.same mpp hm
    split_ifs with hrc
    · exact (removeMap_registered (hread.registered h hm) hm'').bind fun _ _ ht => ⟨ht, nofun⟩
    · exact ⟨hread.registered h hm, fun _ => hread⟩

/-- The map is gone, or it is still there with its paths. -/
def GoneOrSame (m : ℕ) (s : Vectors) (gone : Bool) (t : Vectors) : Prop :=
  GoneOr m s gone t ∧ (gone = false → t.path = s.path)

theorem flushMap_spec (h : Registered s) (hm : s.map m = some mpp) :
    wp AtFree (flushMap env m) (GoneOrSame m s) s := by
  have hsame : ({ s with calls := s.calls + 1 } : Vectors).path = s.path := rfl
  have hasked : Touches m s { s with calls := s.calls + 1 } := (Touches.refl h.owned).calls _
  refine wp_ask ?_
  have hm' : ({ s with calls := s.calls + 1 } : Vectors).map m = some mpp := hm
  generalize ({ s with calls := s.calls + 1 } : Vectors) = u at hsame hasked hm' ⊢
  split_ifs with hflushed
  · refine (orphanPaths_spec hasked.owned hm').bind ?_
    rintro _ _ rfl
    have hstart := orphanPaths_again (E := AtFree) hasked.owned hm'
    exact (removeMap_step (hasked.registered h hm) hm' hstart).bind fun _ _ ht => ⟨⟨ht, nofun⟩, nofun⟩
  · exact ⟨⟨hasked.registered h hm, fun _ => hasked⟩, fun _ => hsame⟩

theorem setupMap_spec (h : Owned s) (hm : s.map m = some mpp) :
    wp E (setupMap env m) (fun _ t => Touches m s t ∧ t.path = s.path) s := by
  have hsame : ({ s with calls := s.calls + 1 } : Vectors).path = s.path := rfl
  have hasked : Touches m s { s with calls := s.calls + 1 } := (Touches.refl h).calls _
  refine wp_loadMap hm (wp_ask ?_)
  have hm' : ({ s with calls := s.calls + 1 } : Vectors).map m = some mpp := hm
  have hmem := env.setup_mem s.calls mpp.paths
  generalize env.setup s.calls mpp.paths = seen at hmem
  generalize ({ s with calls := s.calls + 1 } : Vectors) = u at hsame hasked hm' ⊢
  have hgroup (paths : List ℕ) (pg : Option (List (List ℕ))) (hpaths : paths.Sublist mpp.paths)
      (hpg : ∀ p ∈ (pg.getD []).flatten, p ∈ mpp.paths) :
      Touches m s (u.setMap m { mpp with paths, pg }) := by
    have hdistinct := hasked.owned.distinct m mpp hm'
    have hmember := hasked.owned.member m mpp hm'
    refine hasked.trans (touches_setMap hm' (hasked.owned.setMap hm' rfl (hdistinct.sublist hpaths)
      (fun p hp => hmember p (hpaths.subset hp)) fun p hp => ?_) rfl)
    obtain ⟨hlisted, pp, hpp, hmpp, -⟩ := hmember p (hpg p hp)
    exact ⟨hlisted, pp, hpp, hmpp⟩
  cases seen with
  | unready => exact ⟨hasked, hsame⟩
  | ungrouped =>
    exact wp_writeMap ⟨hgroup _ none (.refl _) fun _ hp => (List.not_mem_nil hp).elim, hsame⟩
  | grouped pgs assembled =>
    exact wp_writeMap ⟨hgroup [] (some pgs) (List.nil_sublist _) (hmem pgs assembled rfl), hsame⟩

theorem tryMap_spec (h : Owned s) (hm : s.map m = some mpp) :
    wp E (tryMap env m) (fun _ t => Touches m s t) s := by
  refine (adoptPaths_spec h hm).bind ?_
  rintro _ u ⟨rfl, hu, -⟩
  obtain ⟨mpp₁, hm₁, -⟩ := hu.same mpp hm
  refine (verifyPaths_spec hu.owned hm₁).bind fun _ v hv => ?_
  have hverified := hu.trans hv
  obtain ⟨mpp₂, hm₂, -⟩ := hverified.same mpp hm
  refine (setupMap_spec hverified.owned hm₂).bind fun ready w hw => ?_
  split_ifs with hready
  · exact hverified.trans hw.1
  · exact wp_ask ((hverified.trans hw.1).calls _)

theorem retryMap_spec (retries : ℕ) (h : Owned s) (hm : s.map m = some mpp) :
    wp E (retryMap env m retries) (fun _ t => Touches m s t) s := by
  induction retries generalizing s mpp with
  | zero => exact (tryMap_spec h hm).bind fun _ _ ht => ht
  | succ retries ih =>
    refine (tryMap_spec h hm).bind fun failed t ht => ?_
    split_ifs with hfailed
    · obtain ⟨mpp', hm', -⟩ := ht.same mpp hm
      exact (ih ht.owned hm').mono fun _ _ hu => ht.trans hu
    · exact ht

theorem updateMap_spec (h : Registered s) (hm : s.map m = some mpp) :
    wp AtFree (updateMap env m) (GoneOr m s) s := by
  refine (retryMap_spec 3 h.owned hm).bind fun _ t ht => ?_
  obtain ⟨mpp', hm', -⟩ := ht.same mpp hm
  refine (setupMultipath_spec (ht.registered h hm) hm').bind fun gone u hu => ?_
  split_ifs with hgone
  · exact ⟨hu.1, nofun⟩
  · have htouched := ht.trans (hu.2 (by simpa using hgone))
    obtain ⟨mpp'', hm'', -⟩ := htouched.same mpp hm
    refine (usePaths_spec htouched.owned hm'').bind ?_
    rintro _ _ rfl
    exact ⟨hu.1, fun _ => htouched⟩

theorem markRemoved_spec (h : Owned s) (hm : s.map m = some mpp) (hp : s.path p = some pp)
    (hmpp : pp.mpp = some m) :
    wp E (markRemoved m p) (fun _ t => Touches m s t ∧
      t.path p = some { pp with initialized := .removed } ∧
      t.map m = some { mpp with paths := mpp.paths.erase p } ∧ t.calls = s.calls) s := by
  have hless : Owned (s.setMap m { mpp with paths := mpp.paths.erase p }) := h.unlist hm List.erase_sublist
  have hself := s.setMap_self m { mpp with paths := mpp.paths.erase p }
  have hnot (m' : ℕ) (mpp' : OwnedMap)
      (hm' : (s.setMap m { mpp with paths := mpp.paths.erase p }).map m' = some mpp') : p ∉ mpp'.paths := by
    by_cases hne : m' = m
    · subst hne
      obtain rfl := Option.some.inj (hself.symm.trans hm')
      exact (h.distinct m' mpp hm).not_mem_erase
    · exact (hless.not_listed hp hmpp hm' hne).1
  have hwritten : Owned ((s.setMap m { mpp with paths := mpp.paths.erase p }).setPath p
      { pp with initialized := .removed }) := by
    refine hless.setPath hp id (h.named p pp hp) (.inr ⟨rfl, fun _ => .inr hnot⟩) fun m' hmpp' => ?_
    obtain ⟨hmem, mpp', hm', -⟩ := hless.owner p pp m' hp hmpp'
    exact ⟨hmem, mpp', hm', fun hr => absurd rfl hr⟩
  have hmarked := (touches_setMap hm hless rfl).trans (touches_setPath hp hwritten (.inr (.inr rfl)))
  have hwrite : wp E (setPathRemoved p)
      (fun _ t => t = s.setPath p { pp with mpp := some m, initialized := .removed }) s := by
    refine wp_load hp (wp_bind.mpr (wp_load hp ?_))
    rw [hmpp]
    refine wp_bind.mpr (wp_loadMap hm ?_)
    exact setPath_setPath s p { pp with mpp := none } { pp with mpp := some m, initialized := .removed }
  refine hwrite.bind ?_
  rintro _ _ rfl
  have hsame : ({ pp with mpp := some m, initialized := .removed } : OwnedPath) =
      { pp with initialized := .removed } := by rw [← hmpp]
  rw [hsame]
  exact wp_loadMap (show Vectors.map _ m = some mpp from hm)
    ⟨hmarked, Vectors.setPath_self _ _ _, Vectors.setMap_self _ _ _, rfl⟩

theorem flushIfEmpty_spec (h : Registered s) (hm : s.map m = some mpp) :
    wp AtFree (flushIfEmpty env m) (GoneOrSame m s) s := by
  refine wp_loadMap hm ?_
  split_ifs
  · exact flushMap_spec h hm
  · exact ⟨⟨h, fun _ => .refl h.owned⟩, fun _ => rfl⟩

theorem reloadWithout_spec (h : Registered s) (hm : s.map m = some mpp) (hp : s.path p = some pp) :
    wp AtFree (reloadWithout env m p) (fun _ t => Registered t) s := by
  have hasked : Touches m s { s with calls := s.calls + 1 } := (Touches.refl h.owned).calls _
  refine wp_ask ?_
  have hm' : ({ s with calls := s.calls + 1 } : Vectors).map m = some mpp := hm
  have hp' : ({ s with calls := s.calls + 1 } : Vectors).path p = some pp := hp
  generalize ({ s with calls := s.calls + 1 } : Vectors) = u at hasked hm' hp' ⊢
  have hu := hasked.registered h hm
  split_ifs with hrc
  · exact hu
  refine wp_bind.mpr (wp_load hp' ?_)
  refine (setupMultipath_spec hu hm').bind fun gone v hv => ?_
  split_ifs with hgone
  · exact hv.1
  · obtain ⟨mpp', hmv, -⟩ := (hv.2 (by simpa using hgone)).same mpp hm'
    refine (usePaths_spec hv.1.owned hmv).bind ?_
    rintro _ _ rfl
    exact hv.1

theorem removeMember_spec (b : Bool) (h : Registered s) (hm : s.map m = some mpp) (hp : s.path p = some pp)
    (hmpp : pp.mpp = some m) :
    wp AtFree (removeMember env m p b) (fun _ t => Registered t) s := by
  refine (updateMppPaths_spec h.owned hm).bind ?_
  rintro _ u ⟨rfl, hgrown⟩
  have hu := hgrown.touches hm
  obtain ⟨paths, rfl, howned, -⟩ := hgrown
  refine (markRemoved_spec howned (s.setMap_self m _) hp hmpp).bind ?_
  rintro _ v ⟨hv, hpv, hmv, -⟩
  have hmarked := hu.trans hv
  refine (flushIfEmpty_spec (hmarked.registered h hm) hmv).bind fun gone w hw => ?_
  by_cases hgone : gone = true
  · rw [if_pos hgone]
    exact hw.1.1
  rw [if_neg hgone]
  have hw' := hmarked.trans (hw.1.2 (by simpa using hgone))
  have hpw := hw.2 (by simpa using hgone)
  obtain ⟨mpp₁, hm₁, -⟩ := hw'.same mpp hm
  refine (setupMap_spec hw'.owned hm₁).bind ?_
  rintro ready x ⟨hx, hpx⟩
  have hx' := hw'.trans hx
  obtain ⟨mpp₂, hm₂, -⟩ := hx'.same mpp hm
  have hreg := hx'.registered h hm
  by_cases hready : ready = false
  · rw [if_pos hready]
    exact (removeMap_registered hreg hm₂).bind fun _ _ ht => ht
  rw [if_neg hready]
  refine wp_loadMap hm₂ ?_
  split_ifs with hwait
  · have hwritten : Owned (x.setMap m { mpp₂ with waitForUdev := 2 }) :=
      hreg.owned.setMap hm₂ rfl (hreg.owned.distinct m mpp₂ hm₂) (hreg.owned.member m mpp₂ hm₂)
        (hreg.owned.grouped m mpp₂ hm₂)
    exact wp_writeMap ((touches_setMap hm₂ hwritten rfl).registered hreg hm₂)
  · exact hreg
  · have hpx' : x.path p = some { pp with initialized := .removed } := by
      rw [hpx, hpw]
      exact hpv
    exact reloadWithout_spec hreg hm₂ hpx'

theorem evRemovePath_spec (b : Bool) (h : Registered s) (hp : s.path p = some pp) :
    wp AtFree (evRemovePath env p b) (fun _ t => Registered t) s := by
  refine wp_load hp ?_
  cases hmpp : pp.mpp with
  | some m =>
    obtain ⟨-, mpp, hm, -⟩ := h.owned.owner p pp m hp hmpp
    exact removeMember_spec b h hm hp hmpp
  | none =>
    have hfreed : Owned (({ s with pathvec := s.pathvec.erase p } : Vectors).dropPath p) := by
      refine h.owned.free (h.owned.unlisted_of_none hp hmpp) (h.owned.nodup.erase p) fun q => ?_
      rw [h.owned.nodup.mem_erase_iff]
      exact and_comm
    refine wp_get_bind (wp_modify_bind (wp_bind.mpr (wp_load hp ?_)))
    exact ⟨hfreed, h.all⟩

section Lookups

theorem findPathByDev_spec (h : Owned s) (dev : CStr) :
    wp E (findPathByDev dev) (fun r t => t = s ∧ ∀ p, r = some p → p ∈ s.pathvec) s := by
  refine wp_get_bind (wp_findM_mem fun p hp => ?_)
  obtain ⟨pp, hpp⟩ := h.listedPath hp
  exact wp_load hpp rfl

theorem findMpByAlias_spec (h : Owned s) (aliasName : CStr) :
    wp E (findMpByAlias aliasName) (fun r t => t = s ∧ ∀ m, r = some m → m ∈ s.mpvec) s := by
  refine wp_get_bind (wp_findM_mem fun m hm => ?_)
  obtain ⟨mpp, hmpp⟩ := h.registered m hm
  exact wp_loadMap hmpp rfl

theorem findMpByMinor_spec (h : Owned s) (hasMinor : ℕ → Bool) :
    wp E (findMpByMinor hasMinor) (fun r t => t = s ∧ ∀ m, r = some m → m ∈ s.mpvec) s := by
  refine wp_get_bind (wp_findM_mem fun m hm => ?_)
  obtain ⟨mpp, hmpp⟩ := h.registered m hm
  exact wp_loadMap hmpp rfl

end Lookups

theorem uevRemovePath_spec (h : Registered s) (dev : CStr) (b : Bool) :
    wp AtFree (uevRemovePath env dev b) (fun _ t => Registered t) s := by
  refine (findPathByDev_spec h.owned dev).bind ?_
  rintro r _ ⟨rfl, hr⟩
  cases r with
  | none => exact h
  | some p =>
    obtain ⟨pp, hpp⟩ := h.owned.listedPath (hr p rfl)
    exact (evRemovePath_spec b h hpp).bind fun _ _ ht => ht

theorem onMap_spec (h : Registered s) (hasMinor : ℕ → Bool) (aliasName : CStr) {act : ℕ → VecsM PUnit}
    (hact : ∀ m mpp, s.map m = some mpp → wp AtFree (act m) (fun _ t => Registered t) s) :
    wp AtFree (onMap hasMinor aliasName act) (fun _ t => Registered t) s := by
  refine (findMpByMinor_spec h.owned hasMinor).bind ?_
  rintro r t ⟨rfl, hr⟩
  cases r with
  | none => exact h
  | some m =>
    obtain ⟨mpp, hm⟩ := h.owned.registered m (hr m rfl)
    refine wp_loadMap hm ?_
    split_ifs
    · exact h
    · exact hact m mpp hm

theorem updateMultipath_spec (h : Registered s) (aliasName : CStr) :
    wp AtFree (updateMultipath env aliasName) (fun _ t => Registered t) s := by
  refine (findMpByAlias_spec h.owned aliasName).bind ?_
  rintro r _ ⟨rfl, hr⟩
  cases r with
  | none => exact h
  | some m =>
    obtain ⟨mpp, hm⟩ := h.owned.registered m (hr m rfl)
    refine (setupMultipath_spec h hm).bind fun gone u hu => ?_
    split_ifs with hgone
    · exact hu.1
    · obtain ⟨mpp', hm', -⟩ := (hu.2 (by simpa using hgone)).same mpp hm
      refine (usePaths_spec hu.1.owned hm').mono ?_
      rintro _ _ rfl
      exact hu.1

theorem evAddMap_spec (h : Registered s) (aliasName : CStr) :
    wp AtFree (evAddMap env aliasName) (fun _ t => Registered t) s := by
  refine (findMpByAlias_spec h.owned aliasName).bind ?_
  rintro r t ⟨rfl, hr⟩
  cases r with
  | none => exact h
  | some m =>
    obtain ⟨mpp, hm⟩ := h.owned.registered m (hr m rfl)
    have hdelayed : wp AtFree (delayedActions env m) (GoneOr m t) t := by
      refine wp_loadMap hm ?_
      split_ifs
      · exact updateMap_spec h hm
      · exact ⟨h, fun _ => .refl h.owned⟩
    refine hdelayed.bind fun gone u hu => ?_
    split_ifs with hgone
    · exact hu.1
    · obtain ⟨mpp', hm', -⟩ := (hu.2 (by simpa using hgone)).same mpp hm
      have howned := hu.1.owned
      have hwritten : Owned (u.setMap m { mpp' with waitForUdev := 0 }) :=
        howned.setMap hm' rfl (howned.distinct m mpp' hm') (howned.member m mpp' hm')
          (howned.grouped m mpp' hm')
      exact wp_loadMap hm' ((touches_setMap hm' hwritten rfl).registered hu.1 hm')

theorem handle_spec (h : Registered s) (e : Env × VecsEvent) :
    wp AtFree (handle e) (fun _ t => Registered t) s := by
  obtain ⟨env, e⟩ := e
  cases e with
  | removePath dev needDoMap => exact uevRemovePath_spec h dev needDoMap
  | addMap aliasName => exact evAddMap_spec h aliasName
  | removeMap hasMinor aliasName =>
    exact onMap_spec h hasMinor aliasName fun m mpp hm => removeMap_registered h hm
  | flush hasMinor aliasName =>
    exact onMap_spec h hasMinor aliasName fun m mpp hm => (flushMap_spec h hm).bind fun _ _ ht => ht.1.1
  | update aliasName => exact updateMultipath_spec h aliasName

end Steps

section Runs
variable {es : List (Env × VecsEvent)}

/-- Events are handled one after the other. -/
def runEvents (es : List (Env × VecsEvent)) : VecsM PUnit := es.forM handle

theorem runEvents_spec (h : Registered s) (es : List (Env × VecsEvent)) :
    wp AtFree (runEvents es) (fun _ t => Registered t) s :=
  wp_forM (fun _ t => Registered t) (fun e _ _ ht => handle_spec ht e) h

/-- Whatever is said from outside, paths and owners stay consistent, and nothing that has been freed
is used, unless `free_multipath` does it. -/
theorem run_registered (h : Registered s) (es : List (Env × VecsEvent)) :
    (∃ t, runEvents es s = .ok (⟨⟩, t) ∧ Registered t) ∨ runEvents es s = .error .freedGroup := by
  obtain ⟨_, t, hrun, ht⟩ | ⟨e, hrun, rfl⟩ := wp_iff.mp (runEvents_spec h es)
  · exact .inl ⟨t, hrun, ht⟩
  · exact .inr hrun

def samplePath (c : Char) : OwnedPath :=
  { dev := [c], devT := [c], wwid := ['w'], mpp := some 0, initialized := .ok, udev := true }

def sampleMap : OwnedMap := { aliasName := ['m'], wwid := ['w'], paths := [0, 1], pg := some [[0], [1]] }

/-- A map with two paths. -/
def sampleVectors : Vectors where
  path p := if p = 0 then some (samplePath 'a') else if p = 1 then some (samplePath 'b') else none
  map m := if m = 0 then some sampleMap else none
  pathvec := [0, 1]
  mpvec := [0]
  nextPath := 2

theorem sampleVectors_registered : Registered sampleVectors := by
  have hpath {p : ℕ} {pp : OwnedPath} (hp : sampleVectors.path p = some pp) :
      (p = 0 ∨ p = 1) ∧ ∃ c, pp = samplePath c := by
    simp only [sampleVectors] at hp
    split_ifs at hp with h0 h1
    · exact ⟨.inl h0, _, (Option.some.inj hp).symm⟩
    · exact ⟨.inr h1, _, (Option.some.inj hp).symm⟩
  have hmap {m : ℕ} {mpp : OwnedMap} (hm : sampleVectors.map m = some mpp) : m = 0 ∧ mpp = sampleMap := by
    simp only [sampleVectors] at hm
    split_ifs at hm with h0
    exact ⟨h0, (Option.some.inj hm).symm⟩
  have hmem {p : ℕ} (hp : p = 0 ∨ p = 1) : p ∈ sampleVectors.pathvec ∧
      ∃ c, sampleVectors.path p = some (samplePath c) := by
    obtain rfl | rfl := hp
    · exact ⟨by simp [sampleVectors], 'a', rfl⟩
    · exact ⟨by simp [sampleVectors], 'b', rfl⟩
  refine ⟨?_, fun m mpp hm => by simp [(hmap hm).1, sampleVectors]⟩
  constructor
  case nodup => decide
  case listed =>
    intro p hp
    obtain ⟨-, c, hc⟩ := hmem (by simpa [sampleVectors] using hp)
    exact ⟨_, hc, rfl⟩
  case distinct =>
    intro m mpp hm
    rw [(hmap hm).2]
    decide
  case member =>
    intro m mpp hm p hp
    obtain ⟨rfl, rfl⟩ := hmap hm
    obtain ⟨hlisted, c, hc⟩ := hmem (by simpa [sampleMap] using hp)
    exact ⟨hlisted, _, hc, rfl, by simp [samplePath]⟩
  case grouped =>
    intro m mpp hm p hp
    obtain ⟨rfl, rfl⟩ := hmap hm
    obtain ⟨hlisted, c, hc⟩ := hmem (by simpa [OwnedMap.slots, sampleMap] using hp)
    exact ⟨hlisted, _, hc, rfl⟩
  case owner =>
    intro p pp m hp hmpp
    obtain ⟨hlisted, c, rfl⟩ := hpath hp
    obtain rfl := Option.some.inj hmpp
    exact ⟨(hmem hlisted).1, _, rfl, fun _ => .inr rfl⟩
  case named =>
    intro p pp hp
    obtain ⟨-, c, rfl⟩ := hpath hp
    exact .inl (List.cons_ne_nil c [])
  case wwid =>
    intro m mpp hm
    obtain ⟨-, rfl⟩ := hmap hm
    exact List.cons_ne_nil 'w' []
  case unique => exact fun m m' mpp mpp' hm hm' _ => (hmap hm).1.trans (hmap hm').1.symm
  case mpvec => simp [sampleVectors]
  case registered => simp [sampleVectors]
  case freshPath =>
    intro p hp
    have hle : 2 ≤ p := hp
    simp only [sampleVectors]
    rw [if_neg (by omega), if_neg (by omega)]

/-- Every call succeeds; the table that is read lists the devices `pgs`. -/
def sampleEnv (pgs : List (List Devt)) : Env where
  yes _ := true
  pathinfo _ := { devT := ⟨['a'], nofun⟩, size := 0 }
  udevDevice _ := none
  sysfsDev _ := none
  table _ := .table 0 pgs true
  status _ := .ok
  setup _ paths := .grouped [paths] true
  domap _ := .ok
  setup_mem n paths pgs assembled h := by
    obtain ⟨rfl, -⟩ := SetupSeen.grouped.inj h
    simp

/-- The first path is removed, and the table is loaded without it. -/
def removedFirst (pgs : List (List Devt)) : Env × VecsEvent := (sampleEnv pgs, .removePath ['a'] true)

/-- What the events leave, if they come to an end. -/
def sampleAfter (es : List (Env × VecsEvent)) : Vectors :=
  match runEvents es sampleVectors with
  | .ok (_, t) => t
  | .error _ => sampleVectors

theorem run_registered_sample :
    (∃ t, runEvents [removedFirst [[⟨['b'], nofun⟩]], (sampleEnv [], .update ['m'])] sampleVectors =
      .ok (⟨⟩, t) ∧ Registered t) ∨
      runEvents [removedFirst [[⟨['b'], nofun⟩]], (sampleEnv [], .update ['m'])] sampleVectors =
        .error .freedGroup :=
  run_registered sampleVectors_registered _

/-- `remove_map` uses what it has freed exactly when a removed path is in a group of the map. -/
theorem run_removeMap_iff (h : Registered s) (hrun : runEvents es s = .ok (⟨⟩, t))
    (hm : t.map m = some mpp) : removeMap m t = .error .freedGroup ↔ t.HoldsRemoved m := by
  have ht : Registered t := (runEvents_spec h es).ok hrun
  have hstart := orphanPaths_spec (E := AtFree) ht.owned hm
  constructor
  · intro hfault
    by_contra hheld
    have hremoved := removeMap_spec (E := fun _ => False) ht.owned hm hheld (orphanPaths_spec ht.owned hm)
    exact hremoved.error hfault
  · intro hheld
    obtain ⟨_, _, -, hfalse⟩ | ⟨e, hfault, rfl⟩ := wp_iff.mp (removeMap_fails ht.owned hheld hstart)
    · exact hfalse.elim
    · exact hfault

/-- The table still lists the path that has been removed. -/
theorem run_removeMap_iff_sample : ∃ t,
    runEvents [removedFirst [[⟨['a'], nofun⟩], [⟨['b'], nofun⟩]]] sampleVectors = .ok (⟨⟩, t) ∧
      removeMap 0 t = .error .freedGroup := by
  have hrun : runEvents [removedFirst [[⟨['a'], nofun⟩], [⟨['b'], nofun⟩]]] sampleVectors =
      .ok (⟨⟩, sampleAfter [removedFirst [[⟨['a'], nofun⟩], [⟨['b'], nofun⟩]]]) := rfl
  refine ⟨_, hrun, (run_removeMap_iff sampleVectors_registered hrun rfl).mpr ?_⟩
  exact ⟨_, rfl, 0, by decide, _, rfl, rfl⟩

/-- The last path of a map is removed, and device-mapper has flushed the map: then `flush_map` frees
the path, and the map, of which a group still holds it, is freed after it. -/
theorem run_evRemovePath_fails (b : Bool) (h : Registered s) (hrun : runEvents es s = .ok (⟨⟩, t))
    (hp : t.path p = some pp) (hmpp : pp.mpp = some m) (hm : t.map m = some mpp) (hslot : p ∈ mpp.slots)
    (hlast : ∀ q, q ∈ mpp.paths ∨ q ∈ mpp.slots → q = p ∨ ∀ qq, t.path q = some qq → qq.initialized = .removed)
    (hflush : env.yes t.calls = true) : evRemovePath env p b t = .error .freedGroup := by
  have ht : Registered t := (runEvents_spec h es).ok hrun
  suffices hfails : wp AtFree (evRemovePath env p b) (fun _ _ => False) t by
    obtain ⟨_, _, -, hfalse⟩ | ⟨e, hfault, rfl⟩ := wp_iff.mp hfails
    · exact hfalse.elim
    · exact hfault
  refine wp_load hp ?_
  rw [hmpp]
  refine (updateMppPaths_spec ht.owned hm).bind ?_
  rintro _ u ⟨rfl, hgrown⟩
  have hu := hgrown.touches hm
  obtain ⟨paths, rfl, howned, hpaths⟩ := hgrown
  have hself := t.setMap_self m { mpp with paths }
  refine (markRemoved_spec howned hself hp hmpp).bind ?_
  rintro _ v ⟨hv, hpv, hmv, hcalls⟩
  have hmarked := hu.trans hv
  -- no other path is listed, as a removed path never is
  have hempty : paths.erase p = [] := by
    refine List.eq_nil_iff_forall_not_mem.mpr fun q hq => ?_
    obtain ⟨hne, hq⟩ := (howned.distinct m _ hself).mem_erase_iff.mp hq
    obtain ⟨-, qq, hqq, -, hinit⟩ := howned.member m _ hself q hq
    exact (hlast q (hpaths q hq)).elim hne fun hremoved => hinit (hremoved qq hqq)
  have hreg := hmarked.registered ht hm
  have hasked : Owned { v with calls := v.calls + 1 } := hreg.owned.calls _
  have hheld : ({ v with calls := v.calls + 1 } : Vectors).HoldsRemoved m :=
    ⟨_, hmv, p, hslot, _, hpv, rfl⟩
  have hflushed : wp AtFree (flushIfEmpty env m) (fun _ _ => False) v := by
    refine wp_loadMap hmv ?_
    rw [if_pos hempty]
    have hyes : env.yes v.calls = true := hcalls ▸ hflush
    refine wp_ask ?_
    rw [if_pos hyes]
    refine (orphanPaths_spec hasked hmv).bind ?_
    rintro _ _ rfl
    exact (removeMap_fails hasked hheld (orphanPaths_again hasked hmv)).bind fun _ _ => False.elim
  exact hflushed.bind fun _ _ => False.elim

/-- The second path is removed after the first one. -/
theorem run_evRemovePath_fails_sample : ∃ t,
    runEvents [removedFirst [[⟨['b'], nofun⟩]]] sampleVectors = .ok (⟨⟩, t) ∧
      evRemovePath (sampleEnv []) 1 true t = .error .freedGroup := by
  have hrun : runEvents [removedFirst [[⟨['b'], nofun⟩]]] sampleVectors =
      .ok (⟨⟩, sampleAfter [removedFirst [[⟨['b'], nofun⟩]]]) := rfl
  refine ⟨_, hrun, run_evRemovePath_fails true sampleVectors_registered hrun rfl rfl rfl ?_ ?_ rfl⟩
  · decide
  · exact fun q hq => .inl (by simpa [OwnedMap.slots] using hq)

end Runs

end MultipathTools.Vecs
