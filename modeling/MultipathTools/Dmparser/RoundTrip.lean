import MultipathTools.Dmparser.Read

/-! Which maps come back from a table that `assemble_map` wrote for them. -/
namespace MultipathTools.Dmparser

open MultipathTools.Features

variable {pathvec : List Path} {mp : Multipath} (alloc : CStr → BitVec 64)

/-- A map that is set up for a table: a well-formed feature string and hardware handler, a
selector without arguments, and path groups whose paths the reader knows. -/
structure Writable (pathvec : List Path) (mp : Multipath) (fs hs : List CStr) (sel : CStr) :
    Prop where
  features : mp.features = some (render fs)
  featureWords : ∀ f ∈ fs, IsWord f
  featureCount : fs.length + 2 < 2 ^ 31
  hwhandler : mp.hwhandler = some (render hs)
  hwhandlerWords : ∀ h ∈ hs, IsWord h
  selector : mp.selector = some (mergeWords sel "0".toList)
  selectorWord : IsWord sel
  groups : ∀ pgp ∈ mp.pg.getD [], pgp.paths ≠ []
  paths : ∀ pgp ∈ mp.pg.getD [], ∀ pp ∈ pgp.paths, Readable pathvec mp pp
  minio : IsInt mp.minio
  bestpg : IsInt mp.bestpg

theorem addFeature_words {n : CStr} {fs : List CStr} (hn : IsFeature n)
    (hf : ∀ f ∈ fs, IsWord f) (hlen : fs.length + 1 < 2 ^ 31) :
    ∃ fs', (addFeature (some (render fs)) n).1 = some (render fs') ∧ (∀ f ∈ fs', IsWord f) ∧
      fs'.length ≤ fs.length + 1 := by
  rw [addFeature_render hn hf hlen]
  split_ifs
  · exact ⟨fs, rfl, hf, by omega⟩
  · refine ⟨fs ++ [n], rfl, ?_, by simp⟩
    intro f hmem
    rcases List.mem_append.mp hmem with hmem | hmem
    · exact hf f hmem
    · exact List.mem_singleton.mp hmem ▸ hn.word

/-- The features that `assemble_map` adds leave the rest of the map as it is. -/
theorem addMapFeatures_eq {fs hs : List CStr} {selector : CStr} (ver : ℕ)
    (hw : Writable pathvec mp fs hs selector) :
    ∃ fs', addMapFeatures mp ver = { mp with features := some (render fs') } ∧
      (∀ f ∈ fs', IsWord f) ∧ fs'.length < 2 ^ 31 := by
  obtain ⟨fs₁, h₁, hf₁, hlen₁⟩ :=
    addFeature_words isFeature_queue hw.featureWords (by have := hw.featureCount; omega)
  have hcount := hw.featureCount
  unfold addMapFeatures
  rw [hw.features, h₁]
  dsimp only
  split_ifs with hq hr hr
  · obtain ⟨fs₂, h₂, hf₂, hlen₂⟩ := addFeature_words isFeature_retain hf₁ (by omega)
    exact ⟨fs₂, by rw [h₂], hf₂, by omega⟩
  · exact ⟨fs₁, rfl, hf₁, by omega⟩
  · obtain ⟨fs₂, h₂, hf₂, hlen₂⟩ := addFeature_words isFeature_retain hw.featureWords (by omega)
    exact ⟨fs₂, by rw [hw.features, h₂], hf₂, by omega⟩
  · exact ⟨fs, by rw [← hw.features], hw.featureWords, by omega⟩

/-- The map that was written is read back. -/
structure RoundTrip (mp mpp : Multipath) : Prop where
  features : mpp.features = mp.features
  hwhandler : mpp.hwhandler = mp.hwhandler
  selector : mpp.selector = mp.selector
  nextpg : mpp.nextpg = mp.bestpg
  groups : (mpp.pg.getD []).map devices = (mp.pg.getD []).map devices
  minio : mpp.minio = mp.minio

/-- The map that was written is read back into an empty one exactly if there is a path, and the
repeat count of the last path was multiplied and divided by the same number, or is 0. -/
theorem disassembleMap_assembleMap_iff (pathvec : List Path) (w : RrWeight) (len ver : ℕ)
    {mp mp' : Multipath} {fs hs : List CStr} {sel table : CStr}
    (hw : Writable pathvec mp fs hs sel) (hlen : len < 2 ^ 31)
    (htable : assembleMap mp len ver = (mp', some table)) :
    ((disassembleMap alloc pathvec table (emptyMap w)).2 = 0 ∧
        RoundTrip mp' (disassembleMap alloc pathvec table (emptyMap w)).1) ↔
      ∃ pp, lastPath mp = some pp ∧ (mp.minio = 0 ∨
        multiplier mp.rrWeight pp = divisor w (mergeWords sel "0".toList) pp) := by
  obtain ⟨fs', hmap, hfs', -⟩ := addMapFeatures_eq ver hw
  have hmp : mp' = { mp with features := some (render fs') } :=
    (congrArg Prod.fst htable).symm.trans hmap
  have hfeatures : mp'.features = some (render fs') := by rw [hmp]
  have hhwhandler : mp'.hwhandler = some (render hs) := by rw [hmp, ← hw.hwhandler]
  have hselector : mp'.selector = some (mergeWords sel "0".toList) := by rw [hmp, ← hw.selector]
  have hpg : mp'.pg = mp.pg := by rw [hmp]
  have hminio : mp'.minio = mp.minio := by rw [hmp]
  have hbestpg : mp'.bestpg = mp.bestpg := by rw [hmp]
  have hlast : lastPath mp' = lastPath mp := by rw [lastPath, lastPath, hpg]
  have htmp : ∀ pp, tmpMinio mp' pp = tmpMinio mp pp := fun pp => by rw [hmp]; rfl
  have hpp : ∀ pgp ∈ mp'.pg.getD [], ∀ pp ∈ pgp.paths, Readable pathvec mp' pp := by
    rw [hpg]
    intro pgp hpgp pp hmem
    have h := hw.paths pgp hpgp pp hmem
    exact ⟨h.devT, h.found, hminio ▸ h.minio⟩
  obtain ⟨htext, htlen⟩ := assembleMap_eq htable hfeatures hhwhandler hselector
  have hnum : (fs' ++ itoa hs.length :: (hs ++ groupWords mp' sel)).length < 2 ^ 31 := by
    have hwords := length_le_unwords (fs' ++ itoa hs.length :: (hs ++ groupWords mp' sel))
    rw [htext, List.length_append] at htlen
    omega
  obtain ⟨mpp, hread, hf, hh, hback⟩ := disassembleMap_at alloc w hfs' hw.hwhandlerWords
    (hminio ▸ hw.minio) (hbestpg ▸ hw.bestpg) hw.selectorWord hpp hnum htext
  have hgroups := hback.groups
  have hm := hback.minio
  have hsel := hback.selector
  have hnext := hback.nextpg
  simp only [hlast, htmp, hpg, hbestpg] at hm hsel hnext
  rw [hread]
  by_cases hnil : mp.pg.getD [] = []
  · have hnone : lastPath mp = none := by rw [lastPath, hnil]; rfl
    rw [if_pos hnil] at hsel
    refine iff_of_false (fun h => ?_) (by simp [hnone])
    have hthis := h.2.selector
    rw [hsel, hselector] at hthis
    cases hthis
  · obtain ⟨pp, hpp'⟩ : ∃ pp, lastPath mp = some pp := by
      obtain ⟨pgp, pg, hcons⟩ := List.exists_cons_of_ne_nil hnil
      have hne : (mp.pg.getD []).flatMap Pathgroup.paths ≠ [] := by
        rw [hcons, List.flatMap_cons]
        have := hw.groups pgp (hcons ▸ List.mem_cons_self)
        simp [this]
      exact ⟨_, List.getLast?_eq_some_getLast hne⟩
    have hmem : ∃ pgp ∈ mp.pg.getD [], pp ∈ pgp.paths :=
      List.mem_flatMap.mp (List.mem_of_getLast? hpp')
    obtain ⟨pgp, hpgp, hmem⟩ := hmem
    have htimes := (tmpMinio_eq hw.minio (hw.paths pgp hpgp pp hmem).minio).1
    rw [hpp', Option.map_some, Option.getD_some, htimes] at hm
    rw [if_neg hnil] at hsel
    rw [if_pos (mt List.length_eq_zero_iff.mp hnil)] at hnext
    have hiff := tdiv_divisor_eq_iff (m := mp.minio) mp.rrWeight w
      (mergeWords sel "0".toList) pp
    constructor
    · intro h
      refine ⟨pp, hpp', hiff.mp ?_⟩
      rw [← hm, h.2.minio, hminio]
    · rintro ⟨pp', hpp'', hcond⟩
      obtain rfl : pp = pp' := Option.some.inj (hpp'.symm.trans hpp'')
      exact ⟨rfl, hf.trans hfeatures.symm, hh.trans hhwhandler.symm, hsel.trans hselector.symm,
        hnext.trans hbestpg.symm, hgroups, by rw [hm, hiff.mpr hcond, hminio]⟩

/-- A path of the maps below. -/
def weightedPath (devT : String) (priority : ℤ) : Path := { devT := devT.toList, priority := priority }

/-- A map with one path, whose repeat count is weighted by priority. -/
def weightedMap (priority : ℤ) : Multipath :=
  { features := some "0".toList, hwhandler := some "0".toList, minio := 10, rrWeight := .prio,
    selector := some "round-robin 0".toList, pg := some [⟨0, [weightedPath "8:0" priority]⟩] }

theorem weightedMap_writable {priority : ℤ} (h : IsInt (10 * priority)) :
    Writable [weightedPath "8:0" priority] (weightedMap priority) [] [] "round-robin".toList where
  features := rfl
  featureWords := by simp
  featureCount := by simp
  hwhandler := rfl
  hwhandlerWords := by simp
  selector := rfl
  selectorWord := by decide
  groups := by simp [weightedMap]
  paths := by
    simp only [weightedMap, Option.getD_some, List.mem_singleton, forall_eq]
    exact ⟨(by decide : IsWord "8:0".toList), by simp [findPathByDevt], h⟩
  minio := (by decide : IsInt 10)
  bestpg := (by decide : IsInt 1)

/-- The paths of two groups, the last one of priority 1. -/
def groupedPaths : List Path := [weightedPath "8:0" 50, weightedPath "8:16" 10, weightedPath "8:32" 1]

def groupedMap : Multipath :=
  { features := some "2 pg_init_retries 50".toList, hwhandler := some "1 alua".toList, minio := 10,
    rrWeight := .prio, selector := some "round-robin 0".toList
    pg := some [⟨0, groupedPaths.take 2⟩, ⟨0, groupedPaths.drop 2⟩] }

theorem groupedMap_writable : Writable groupedPaths groupedMap
    ["pg_init_retries".toList, "50".toList] ["alua".toList] "round-robin".toList where
  features := by decide
  featureWords := by decide
  featureCount := by decide
  hwhandler := by decide
  hwhandlerWords := by decide
  selector := rfl
  selectorWord := by decide
  groups := by decide
  paths := by
    have hreadable : ∀ pp ∈ groupedPaths, Readable groupedPaths groupedMap pp := by
      simp only [groupedPaths, List.forall_mem_cons, List.not_mem_nil, false_implies, implies_true,
        and_true]
      exact ⟨⟨by decide, by decide, by decide⟩, ⟨by decide, by decide, by decide⟩,
        ⟨by decide, by decide, by decide⟩⟩
    intro pgp hpgp pp hpp
    obtain rfl | rfl : pgp = ⟨0, groupedPaths.take 2⟩ ∨ pgp = ⟨0, groupedPaths.drop 2⟩ := by
      simpa [groupedMap] using hpgp
    · exact hreadable pp (List.mem_of_mem_take hpp)
    · exact hreadable pp (List.mem_of_mem_drop hpp)
  minio := (by decide : IsInt 10)
  bestpg := (by decide : IsInt 1)

def groupedTable : CStr := ("2 pg_init_retries 50 1 alua 2 1 round-robin 0 2 1 8:0 500 8:16 100 " ++
  "round-robin 0 1 1 8:32 10").toList

theorem disassembleMap_priority_groups :
    (disassembleMap (fun _ => 0) groupedPaths groupedTable (emptyMap .undef)).2 = 0 ∧
      RoundTrip groupedMap
        (disassembleMap (fun _ => 0) groupedPaths groupedTable (emptyMap .undef)).1 := by
  have htable : assembleMap groupedMap 4096 0 = (groupedMap, some groupedTable) := by decide +kernel
  exact (disassembleMap_assembleMap_iff (fun _ => 0) _ _ 4096 0 groupedMap_writable (by decide)
    htable).mpr ⟨_, rfl, .inr (by decide)⟩

/-- An empty map has no weighting, so that the repeat count of a path with priority 2 is read
back doubled. -/
theorem disassembleMap_priority_two :
    Writable [weightedPath "8:0" 2] (weightedMap 2) [] [] "round-robin".toList ∧
      assembleMap (weightedMap 2) 4096 0 =
        (weightedMap 2, some "0 0 1 1 round-robin 0 1 1 8:0 20".toList) ∧
      ¬RoundTrip (weightedMap 2) (disassembleMap (fun _ => 0) [weightedPath "8:0" 2]
          "0 0 1 1 round-robin 0 1 1 8:0 20".toList (emptyMap .undef)).1 := by
  refine ⟨weightedMap_writable (by decide), by decide, fun h => ?_⟩
  have hminio := h.minio
  revert hminio
  decide

end MultipathTools.Dmparser
