import MultipathTools.Configure.Coalesce
import MultipathTools.Configure.SizeScan

/-! What the helpers of `coalesce_paths` do to the path vector, and what one iteration does when
all paths are valid and neither `setup_map` nor `domap` fails. -/
namespace MultipathTools.Configure

open MultipathTools.Features

variable {env : CoalesceEnv} {curmp : List Multipath} {forceReload : Bool}

/-- A path as it is while `coalesce_paths` runs: found, usable and not blacklisted. -/
structure ValidPath (env : CoalesceEnv) (pp : Path) : Prop where
  wwid : pp.wwid.length < wwidSize
  dev : pp.dev ≠ []
  filter : env.filterPath pp.dev pp.wwid = false
  sysfs : env.inSysfs pp.dev = true
  info : ∃ info, env.pathinfo pp.dev = some info ∧ info.1 ≠ .removed
  initialized : pp.initialized ≠ .removed
  state : pp.state ≠ .removed

/-- `setup_map` and `domap` succeed: the path groups of a map hold its paths, no other map has
its alias, and the kernel takes its table. -/
structure Succeeds (env : CoalesceEnv) : Prop where
  setup : ∀ mpp, ∃ mpp', env.setupPathgroups mpp = some mpp' ∧ mpp'.addr = mpp.addr ∧
    mpp'.wwid = mpp.wwid ∧ mpp'.action = mpp.action ∧
    ∀ pp ∈ mpp.paths.getD [], ∃ pgp ∈ mpp'.pg.getD [], ∃ pp' ∈ pgp.paths, pp'.dev = pp.dev
  uuid : ∀ mpp wwid, env.dmMapPresent mpp = true → env.dmAliasUuid mpp = some wwid →
    strncmpEq mpp.wwid wwid wwidSize = true
  load : ∀ mpp, env.dmLoad mpp = true

/-- The sizes of the paths with a WWID, in their order. -/
def sizesOf (wwid : CStr) (pathvec : List Path) : List ℕ :=
  (pathvec.filter (·.wwid = wwid)).map Path.size

theorem strncmpEq_iff {a b : CStr} {n : ℕ} (ha : a.length < n) (hb : b.length < n) :
    strncmpEq a b n = true ↔ a = b := by
  simp [strncmpEq, List.take_of_length_le ha.le, List.take_of_length_le hb.le]

/-- A path after `adopt_paths`. -/
def adopted (env : CoalesceEnv) (mpp : Multipath) (pp : Path) : Path :=
  if !strncmpEq mpp.wwid pp.wwid wwidSize ∨ sizeMismatch mpp pp ∨ pp.initialized = .removed then pp
  else
    match env.pathinfo pp.dev with
    | none => pp
    | some info => { pp with state := info.1, priority := info.2, mpp := some mpp.addr }

theorem adoptPaths_pathvec (pathvec : List Path) (mpp : Multipath) :
    (adoptPaths env pathvec mpp).2 = pathvec.map (adopted env mpp) := by
  induction pathvec generalizing mpp with
  | nil => rfl
  | cons pp pathvec ih =>
    unfold adoptPaths
    rw [List.map_cons]
    by_cases h : !strncmpEq mpp.wwid pp.wwid wwidSize ∨ sizeMismatch mpp pp ∨
        pp.initialized = .removed
    · have hpp : adopted env mpp pp = pp := if_pos h
      rw [if_pos h, hpp]
      dsimp only
      rw [ih]
    · have hpp : adopted env mpp pp = match env.pathinfo pp.dev with
          | none => pp
          | some info => { pp with state := info.1, priority := info.2, mpp := some mpp.addr } :=
        if_neg h
      rw [if_neg h, hpp]
      cases env.pathinfo pp.dev with
      | none =>
        dsimp only
        rw [ih]
        rfl
      | some info =>
        dsimp only
        rw [ih]
        rfl

/-- `adopt_paths` changes nothing else than the paths of the map. -/
theorem adoptPaths_map (env : CoalesceEnv) (pathvec : List Path) (mpp : Multipath) :
    (adoptPaths env pathvec mpp).1 =
      { mpp with paths := (adoptPaths env pathvec mpp).1.paths } := by
  induction pathvec generalizing mpp with
  | nil => rfl
  | cons pp pathvec ih =>
    unfold adoptPaths
    split_ifs with h
    · exact ih mpp
    · cases env.pathinfo pp.dev with
      | none => exact ih _
      | some info => exact ih _

theorem adoptPaths_mem {pathvec : List Path} {mpp : Multipath} {pp : Path}
    (h : pp ∈ (adoptPaths env pathvec mpp).1.paths.getD []) :
    pp ∈ mpp.paths.getD [] ∨ ∃ pp' ∈ pathvec, pp'.dev = pp.dev := by
  induction pathvec generalizing mpp with
  | nil => exact Or.inl h
  | cons p pathvec ih =>
    unfold adoptPaths at h
    split_ifs at h with hskip
    · exact (ih h).imp_right fun ⟨q, hq, hd⟩ => ⟨q, List.mem_cons_of_mem p hq, hd⟩
    · cases hinfo : env.pathinfo p.dev with
      | none =>
        rw [hinfo] at h
        exact (ih h).imp_right fun ⟨q, hq, hd⟩ => ⟨q, List.mem_cons_of_mem p hq, hd⟩
      | some info =>
        rw [hinfo] at h
        rcases ih h with hold | ⟨q, hq, hd⟩
        · simp only [Option.getD_some] at hold
          split_ifs at hold with hdup
          · exact Or.inl hold
          · rcases List.mem_append.mp hold with hold | hnew
            · exact Or.inl hold
            · exact Or.inr ⟨p, List.mem_cons_self, by rw [List.mem_singleton.mp hnew]⟩
        · exact Or.inr ⟨q, List.mem_cons_of_mem p hq, hd⟩

/-- A map keeps the paths that it has. -/
theorem adoptPaths_paths_ne_nil {pathvec : List Path} {mpp : Multipath}
    (h : mpp.paths.getD [] ≠ []) : (adoptPaths env pathvec mpp).1.paths.getD [] ≠ [] := by
  induction pathvec generalizing mpp with
  | nil => exact h
  | cons p pathvec ih =>
    unfold adoptPaths
    split_ifs with hskip
    · exact ih h
    · cases env.pathinfo p.dev with
      | none => exact ih h
      | some info =>
        refine ih ?_
        dsimp only [Option.getD_some]
        split_ifs
        · exact h
        · simp

/-- The path that a map is made for is one of its paths. -/
theorem adoptPaths_adopts {pathvec : List Path} {mpp : Multipath} {pp : Path} (hpp : pp ∈ pathvec)
    (hv : ValidPath env pp) (hw : mpp.wwid = pp.wwid) (hs : mpp.size = pp.size) :
    (adoptPaths env pathvec mpp).1.paths.getD [] ≠ [] := by
  induction pathvec generalizing mpp with
  | nil => simp at hpp
  | cons p pathvec ih =>
    unfold adoptPaths
    rcases List.mem_cons.mp hpp with rfl | hpp
    · obtain ⟨info, hinfo, -⟩ := hv.info
      rw [if_neg (by simp [strncmpEq, hw, sizeMismatch, hs, hv.initialized]), hinfo]
      refine adoptPaths_paths_ne_nil ?_
      dsimp only [Option.getD_some]
      split_ifs with hdup
      · rintro hnil
        simp [hnil] at hdup
      · simp
    · split_ifs with hskip
      · exact ih hpp hw hs
      · cases env.pathinfo p.dev with
        | none => exact ih hpp hw hs
        | some info => exact ih hpp hw hs

theorem sizesOf_cons (wwid : CStr) (pp : Path) (pathvec : List Path) :
    sizesOf wwid (pp :: pathvec) =
      if pp.wwid = wwid then pp.size :: sizesOf wwid pathvec else sizesOf wwid pathvec := by
  unfold sizesOf
  split_ifs with h <;> simp [h]

/-- The size of a map may as well be set to a first size that is known. -/
theorem mapSize_cons (s t : ℕ) (later : List ℕ) :
    mapSize s (t :: later) = mapSize (if s = 0 ∧ t ≠ 0 then t else s) later := by
  by_cases hs : s = 0 <;> by_cases ht : t = 0 <;> simp [mapSize, hs, ht]

/-- The bits that the scan sets. -/
def conflicts (wwid : CStr) (size : ℕ) (later : List (Path × ℕ)) : List ℕ :=
  (later.filter fun x => x.1.wwid = wwid ∧ Conflict size x.1.size).map Prod.snd

theorem conflicts_cons (wwid : CStr) (size i : ℕ) (pp : Path) (later : List (Path × ℕ)) :
    conflicts wwid size ((pp, i) :: later) =
      if pp.wwid = wwid ∧ Conflict size pp.size then i :: conflicts wwid size later
      else conflicts wwid size later := by
  unfold conflicts
  split_ifs with h
  · rw [List.filter_cons_of_pos (by simpa using h), List.map_cons]
  · rw [List.filter_cons_of_neg (by simpa using h)]

theorem sizeMismatch_iff {mpp : Multipath} {pp : Path} :
    sizeMismatch mpp pp = true ↔ Conflict mpp.size pp.size := by
  simp only [sizeMismatch, Conflict, decide_eq_true_eq]
  tauto

/-- The check of one path sees the size that the map has in the end. -/
theorem conflict_mapSize {s t : ℕ} (later : List ℕ) (h : s = 0 → t = 0) :
    Conflict (mapSize s later) t ↔ Conflict s t := by
  by_cases hs : s = 0
  · simp [Conflict, h hs]
  · rw [mapSize, if_pos hs]

/-- The scan gives the map the size of the first path that has one, marks the others that
conflict with it, and rejects the map if there are any. -/
theorem scanSizes_eq (pp1 : Path) (later : List Path) (i : ℕ) (mpp : Multipath) :
    scanSizes pp1 later i mpp =
      ({ mpp with
          size := mapSize mpp.size (sizesOf pp1.wwid later)
          action :=
            if conflicts pp1.wwid (mapSize mpp.size (sizesOf pp1.wwid later)) (later.zipIdx i) = []
            then mpp.action else .reject },
        conflicts pp1.wwid (mapSize mpp.size (sizesOf pp1.wwid later)) (later.zipIdx i)) := by
  induction later generalizing i mpp with
  | nil =>
    have hsize : mapSize mpp.size [] = mpp.size := by simp +contextual [mapSize, eq_comm]
    simp [scanSizes, conflicts, sizesOf, hsize]
  | cons pp2 later ih =>
    unfold scanSizes
    rw [sizesOf_cons, List.zipIdx_cons]
    by_cases hw : pp1.wwid = pp2.wwid
    · have hset : (if mpp.size = 0 ∧ pp2.size ≠ 0 then { mpp with size := pp2.size } else mpp) =
          { mpp with size := if mpp.size = 0 ∧ pp2.size ≠ 0 then pp2.size else mpp.size } := by
        split_ifs <;> rfl
      rw [if_neg (not_not.mpr hw), if_pos hw.symm, mapSize_cons, hset]
      generalize hs : (if mpp.size = 0 ∧ pp2.size ≠ 0 then pp2.size else mpp.size) = size
      have hknown : size = 0 → pp2.size = 0 := by
        split_ifs at hs <;> omega
      have hiff := conflict_mapSize (sizesOf pp1.wwid later) hknown
      have hbits := conflicts_cons pp1.wwid (mapSize size (sizesOf pp1.wwid later)) i pp2
        (later.zipIdx (i + 1))
      dsimp only
      by_cases hc : Conflict size pp2.size
      · rw [if_pos ⟨hw.symm, hiff.mpr hc⟩] at hbits
        rw [if_pos (sizeMismatch_iff.mpr hc), ih, hbits]
        simp
      · rw [if_neg fun h => hc (hiff.mp h.2)] at hbits
        rw [if_neg (mt sizeMismatch_iff.mp hc), ih, hbits]
    · have hw' : ¬pp2.wwid = pp1.wwid := fun h => hw h.symm
      have hbits := conflicts_cons pp1.wwid (mapSize mpp.size (sizesOf pp1.wwid later)) i pp2
        (later.zipIdx (i + 1))
      rw [if_neg fun h => hw' h.1] at hbits
      rw [if_pos hw, if_neg hw', hbits, ih]

/-- A path after `remove_map` of the map with an address. -/
def released (addr : ℕ) (pp : Path) : Path :=
  if pp.mpp = some addr then orphanPath pp else pp

theorem orphanPaths_eq {mpp : Multipath} {pathvec : List Path}
    (hv : ∀ pp ∈ pathvec, ValidPath env pp) :
    orphanPaths mpp pathvec = pathvec.map (released mpp.addr) := by
  rw [orphanPaths, ← List.filterMap_eq_map]
  refine List.filterMap_congr fun pp hpp => ?_
  simp only [released, Function.comp_apply, (hv pp hpp).initialized, ↓reduceIte]
  split_ifs <;> rfl

theorem verifyPaths_eq {mpp : Multipath} {pathvec : List Path}
    (hv : ∀ pp ∈ pathvec, ValidPath env pp)
    (hp : ∀ pp ∈ mpp.paths.getD [], env.inSysfs pp.dev = true) :
    verifyPaths env mpp pathvec = (mpp, pathvec) := by
  have hpaths : (mpp.paths.map fun paths => paths.filter fun pp => env.inSysfs pp.dev) =
      mpp.paths := by
    cases h : mpp.paths with
    | none => rfl
    | some paths =>
      rw [h, Option.getD_some] at hp
      rw [Option.map_some, List.filter_eq_self.mpr hp]
  have hpathvec : (pathvec.map fun pp =>
      if (mpp.paths.getD []).any (fun p => p.addr = pp.addr) ∧ !env.inSysfs pp.dev then
        { pp with initialized := .removed }
      else pp) = pathvec := by
    refine (List.map_congr_left fun pp hpp => ?_).trans (List.map_id pathvec)
    exact if_neg (by simp [(hv pp hpp).sysfs])
  rw [verifyPaths, hpaths, hpathvec]

theorem adopted_key (env : CoalesceEnv) (mpp : Multipath) (pp : Path) :
    (adopted env mpp pp).wwid = pp.wwid ∧ (adopted env mpp pp).size = pp.size ∧
      (adopted env mpp pp).dev = pp.dev ∧ (adopted env mpp pp).initialized = pp.initialized := by
  unfold adopted
  split_ifs
  · exact ⟨rfl, rfl, rfl, rfl⟩
  · cases env.pathinfo pp.dev <;> exact ⟨rfl, rfl, rfl, rfl⟩

theorem ValidPath.adopted {pp : Path} (h : ValidPath env pp) (mpp : Multipath) :
    ValidPath env (adopted env mpp pp) := by
  obtain ⟨info, hinfo, hstate⟩ := h.info
  unfold Configure.adopted
  split_ifs
  · exact h
  · rw [hinfo]
    exact ⟨h.wwid, h.dev, h.filter, h.sysfs, ⟨info, hinfo, hstate⟩, h.initialized, hstate⟩

theorem ValidPath.released {pp : Path} (h : ValidPath env pp) (addr : ℕ) :
    ValidPath env (released addr pp) := by
  unfold Configure.released
  split_ifs
  · exact ⟨h.wwid, h.dev, h.filter, h.sysfs, h.info, h.initialized, h.state⟩
  · exact h

/-- A valid path is adopted by a map of its WWID unless the two sizes conflict. -/
theorem adopted_mpp {mpp : Multipath} {pp : Path} (h : ValidPath env pp)
    (hw : mpp.wwid.length < wwidSize) :
    (adopted env mpp pp).mpp =
      if pp.wwid = mpp.wwid ∧ ¬Conflict mpp.size pp.size then some mpp.addr else pp.mpp := by
  obtain ⟨info, hinfo, -⟩ := h.info
  have hskip : (!strncmpEq mpp.wwid pp.wwid wwidSize ∨ sizeMismatch mpp pp ∨
      pp.initialized = .removed) ↔ ¬(pp.wwid = mpp.wwid ∧ ¬Conflict mpp.size pp.size) := by
    rw [Bool.not_eq_true', ← Bool.not_eq_true, strncmpEq_iff hw h.wwid, sizeMismatch_iff]
    have := h.initialized
    tauto
  unfold adopted
  by_cases hadopt : pp.wwid = mpp.wwid ∧ ¬Conflict mpp.size pp.size
  · rw [if_neg (hskip.not.mpr (not_not.mpr hadopt)), hinfo, if_pos hadopt]
  · rw [if_pos (hskip.mpr hadopt), if_neg hadopt]

theorem deadmap_congr (mpp mpp' : Multipath)
    (h : (mpp'.pg.getD []).map Pathgroup.paths = (mpp.pg.getD []).map Pathgroup.paths) :
    deadmap mpp' = deadmap mpp := by
  have hall (mpp : Multipath) : deadmap mpp =
      ((mpp.pg.getD []).map Pathgroup.paths).all fun paths => paths.all fun pp => pp.dev = [] := by
    rw [List.all_map]
    rfl
  rw [hall, hall, h]

theorem checkMapPresent_eq (henv : Succeeds env) (mpp : Multipath) :
    checkMapPresent env mpp = mpp ∨
      checkMapPresent env mpp = { mpp with action := .reload } := by
  unfold checkMapPresent
  split_ifs with h
  · cases huuid : env.dmAliasUuid mpp with
    | none => exact Or.inl rfl
    | some wwid => exact Or.inr (if_pos (henv.uuid mpp wwid h.2 huuid))
  · exact Or.inl rfl

/-- `domap` keeps a map for which an action was selected. -/
theorem domap_eq_some (henv : Succeeds env) {mpp : Multipath}
    (ha : mpp.action ≠ .undef ∧ mpp.action ≠ .reject ∧ mpp.action ≠ .dryRun) :
    ∃ mpp', domap env mpp = some mpp' ∧ mpp'.wwid = mpp.wwid ∧ mpp'.pg = mpp.pg ∧
      mpp'.action ≠ .reject := by
  obtain ⟨hundef, hreject, hdry⟩ := ha
  unfold domap
  rcases checkMapPresent_eq henv mpp with h | h
  · rw [h]
    cases haction : mpp.action <;> simp_all [henv.load]
  · rw [h]
    simp [henv.load]

theorem domap_reject {mpp : Multipath} (h : mpp.action = .reject) : domap env mpp = some mpp := by
  have hcheck : checkMapPresent env mpp = mpp := if_neg (by simp [h])
  simp [domap, hcheck, h]

theorem orphanPaths_congr {mpp mpp' : Multipath} (h : mpp'.addr = mpp.addr) (pathvec : List Path) :
    orphanPaths mpp' pathvec = orphanPaths mpp pathvec := by
  rw [orphanPaths, orphanPaths, h]

/-- A map whose paths do not conflict is loaded, if its size is known. -/
theorem setupAndLoad_loads (curmp : List Multipath) (forceReload : Bool) (henv : Succeeds env)
    {mpp : Multipath} (st : CoalesceState) (hsize : mpp.size ≠ 0)
    (haction : mpp.action = .undef) (hpaths : ∃ pp ∈ mpp.paths.getD [], pp.dev ≠ []) :
    ∃ mpp', mpp'.wwid = mpp.wwid ∧ deadmap mpp' = false ∧
      setupAndLoad env curmp forceReload mpp st = { st with newmp := st.newmp ++ [mpp'] } := by
  obtain ⟨m₁, hsetup, -, hwwid, haction₁, hgroups⟩ := henv.setup mpp
  obtain ⟨pp, hpp, hdev⟩ := hpaths
  have halive : deadmap m₁ = false := by
    obtain ⟨pgp, hpgp, pp', hpp', hdev'⟩ := hgroups pp hpp
    rw [deadmap, List.all_eq_false]
    refine ⟨pgp, hpgp, ?_⟩
    rw [Bool.not_eq_true, List.all_eq_false]
    exact ⟨pp', hpp', by simpa [hdev'] using hdev⟩
  have hsel := selectAction_selected env.toActionEnv m₁ curmp forceReload
  obtain ⟨m₂, hdomap, hwwid₂, hpg₂, haction₂⟩ := domap_eq_some henv hsel.action
  refine ⟨m₂, by rw [hwwid₂, hsel.wwid, hwwid], ?_, ?_⟩
  · rw [deadmap_congr m₁ m₂ (by rw [hpg₂, hsel.paths]), halive]
  · simp [setupAndLoad, setupMap, hsize, hsetup, haction₁, haction, hdomap, haction₂]

/-- A map that is rejected, or whose size is not known, is removed again. -/
theorem setupAndLoad_removes (henv : Succeeds env) {mpp : Multipath} {st : CoalesceState}
    (h : mpp.size = 0 ∨ mpp.action = .reject) :
    setupAndLoad env curmp forceReload mpp st =
      { st with pathvec := orphanPaths mpp st.pathvec } := by
  unfold setupAndLoad setupMap
  by_cases hsize : mpp.size = 0
  · rw [if_pos hsize]
  · obtain ⟨m₁, hsetup, haddr, -, haction₁, -⟩ := henv.setup mpp
    have haction := haction₁.trans (h.resolve_left hsize)
    rw [if_neg hsize, hsetup]
    simp [haction, domap_reject haction, orphanPaths_congr haddr]

theorem sizesOf_map {f : Path → Path} (hw : ∀ pp, (f pp).wwid = pp.wwid)
    (hs : ∀ pp, (f pp).size = pp.size) (wwid : CStr) (pathvec : List Path) :
    sizesOf wwid (pathvec.map f) = sizesOf wwid pathvec := by
  induction pathvec with
  | nil => rfl
  | cons pp pathvec ih => rw [List.map_cons, sizesOf_cons, sizesOf_cons, ih, hw, hs]

theorem conflicts_map {f : Path → Path} (hw : ∀ pp, (f pp).wwid = pp.wwid)
    (hs : ∀ pp, (f pp).size = pp.size) (wwid : CStr) (size i : ℕ) (pathvec : List Path) :
    conflicts wwid size ((pathvec.map f).zipIdx i) = conflicts wwid size (pathvec.zipIdx i) := by
  induction pathvec generalizing i with
  | nil => rfl
  | cons pp pathvec ih =>
    rw [List.map_cons, List.zipIdx_cons, List.zipIdx_cons, conflicts_cons, conflicts_cons, ih, hw,
      hs]

/-- The path vector after a map was made for `pp1` at position `k`. -/
def adoptedBy (env : CoalesceEnv) (k : ℕ) (pp1 : Path) (pathvec : List Path) : List Path :=
  pathvec.map (adopted env (newMap env k pp1))

/-- The size of the map that is made for `pp1`, when the paths after it are `later`. -/
def sizeOfMap (pp1 : Path) (later : List Path) : ℕ :=
  mapSize pp1.size (sizesOf pp1.wwid later)

/-- The paths after position `k` that conflict with the map that is made for `pp1`. -/
def conflictsAfter (k : ℕ) (pp1 : Path) (pathvec : List Path) : List ℕ :=
  conflicts pp1.wwid (sizeOfMap pp1 (pathvec.drop (k + 1)))
    ((pathvec.drop (k + 1)).zipIdx (k + 1))

/-- The map that is made for `pp1`, after the scan of the later paths. -/
def mapFor (env : CoalesceEnv) (k : ℕ) (pp1 : Path) (pathvec : List Path) : Multipath :=
  { (addMapWithPath env k pp1 pathvec).1 with
    size := sizeOfMap pp1 (pathvec.drop (k + 1))
    action := if conflictsAfter k pp1 pathvec = [] then .undef else .reject }

/-- An iteration for a valid path without a map either loads a map with all paths of its WWID, or
sets the bits of the conflicting paths and removes the map. -/
theorem coalesceMap_cases (curmp : List Multipath) (forceReload : Bool) (henv : Succeeds env)
    {k : ℕ} {pp1 : Path} {st : CoalesceState} (hv : ∀ pp ∈ st.pathvec, ValidPath env pp)
    (hpp : pp1 ∈ st.pathvec) :
    (sizeOfMap pp1 (st.pathvec.drop (k + 1)) ≠ 0 ∧ conflictsAfter k pp1 st.pathvec = [] ∧
      ∃ mpp, mpp.wwid = pp1.wwid ∧ deadmap mpp = false ∧
        coalesceMap env curmp forceReload k pp1 st =
          { st with pathvec := adoptedBy env k pp1 st.pathvec, newmp := st.newmp ++ [mpp] }) ∨
    (¬(sizeOfMap pp1 (st.pathvec.drop (k + 1)) ≠ 0 ∧ conflictsAfter k pp1 st.pathvec = []) ∧
      coalesceMap env curmp forceReload k pp1 st =
        { st with
          pathvec := (adoptedBy env k pp1 st.pathvec).map (released k)
          sizeMismatchSeen := st.sizeMismatchSeen ++ conflictsAfter k pp1 st.pathvec }) := by
  have hkey (pp : Path) := adopted_key env (newMap env k pp1) pp
  have hpathvec : (addMapWithPath env k pp1 st.pathvec).2 = adoptedBy env k pp1 st.pathvec :=
    adoptPaths_pathvec st.pathvec (newMap env k pp1)
  have hvalid : ∀ pp ∈ adoptedBy env k pp1 st.pathvec, ValidPath env pp := by
    intro pp hmem
    obtain ⟨q, hq, rfl⟩ := List.mem_map.mp hmem
    exact (hv q hq).adopted _
  have hmap := adoptPaths_map env st.pathvec (newMap env k pp1)
  have hpaths : (addMapWithPath env k pp1 st.pathvec).1.paths.getD [] ≠ [] :=
    adoptPaths_adopts hpp (hv pp1 hpp) rfl rfl
  have hsome : (addMapWithPath env k pp1 st.pathvec).1.paths ≠ none := by
    intro hnone
    exact hpaths (by rw [hnone]; rfl)
  have hdev : ∀ pp ∈ (addMapWithPath env k pp1 st.pathvec).1.paths.getD [],
      pp.dev ≠ [] ∧ env.inSysfs pp.dev = true := by
    intro pp hmem
    rcases adoptPaths_mem hmem with hnone | ⟨q, hq, hdev⟩
    · simp [newMap, allocMultipath] at hnone
    · exact hdev ▸ ⟨(hv q hq).dev, (hv q hq).sysfs⟩
  have hscan : scanSizes pp1 ((adoptedBy env k pp1 st.pathvec).drop (k + 1)) (k + 1)
      (addMapWithPath env k pp1 st.pathvec).1 =
      (mapFor env k pp1 st.pathvec, conflictsAfter k pp1 st.pathvec) := by
    have hsize : (addMapWithPath env k pp1 st.pathvec).1.size = pp1.size :=
      congrArg Multipath.size hmap
    have haction : (addMapWithPath env k pp1 st.pathvec).1.action = .undef :=
      congrArg Multipath.action hmap
    rw [scanSizes_eq, hsize, haction, adoptedBy, ← List.map_drop,
      sizesOf_map (fun pp => (hkey pp).1) fun pp => (hkey pp).2.1,
      conflicts_map (fun pp => (hkey pp).1) fun pp => (hkey pp).2.1]
    rfl
  have hverify : verifyPaths env (mapFor env k pp1 st.pathvec) (adoptedBy env k pp1 st.pathvec) =
      (mapFor env k pp1 st.pathvec, adoptedBy env k pp1 st.pathvec) :=
    verifyPaths_eq hvalid fun pp hmem => (hdev pp hmem).2
  have hstep : coalesceMap env curmp forceReload k pp1 st =
      setupAndLoad env curmp forceReload (mapFor env k pp1 st.pathvec)
        { st with
          pathvec := adoptedBy env k pp1 st.pathvec
          sizeMismatchSeen := st.sizeMismatchSeen ++ conflictsAfter k pp1 st.pathvec } := by
    unfold coalesceMap
    dsimp only
    rw [if_neg hsome, hpathvec, hscan]
    dsimp only
    rw [hverify]
  rw [hstep]
  by_cases hmade : sizeOfMap pp1 (st.pathvec.drop (k + 1)) ≠ 0 ∧
      conflictsAfter k pp1 st.pathvec = []
  · obtain ⟨pp, hmem⟩ := List.exists_mem_of_ne_nil _ hpaths
    have haction : (mapFor env k pp1 st.pathvec).action = .undef := if_pos hmade.2
    obtain ⟨mpp, hwwid, halive, hload⟩ := setupAndLoad_loads curmp forceReload henv
      { st with
        pathvec := adoptedBy env k pp1 st.pathvec
        sizeMismatchSeen := st.sizeMismatchSeen ++ conflictsAfter k pp1 st.pathvec }
      hmade.1 haction ⟨pp, hmem, (hdev pp hmem).1⟩
    refine Or.inl ⟨hmade.1, hmade.2, mpp, ?_, halive, ?_⟩
    · rw [hwwid]
      exact congrArg Multipath.wwid hmap
    · rw [hload, hmade.2, List.append_nil]
  · refine Or.inr ⟨hmade, ?_⟩
    rw [setupAndLoad_removes henv, orphanPaths_eq hvalid,
      show (mapFor env k pp1 st.pathvec).addr = k from congrArg Multipath.addr hmap]
    rcases not_and_or.mp hmade with hsize | hbits
    · exact Or.inl (not_not.mp hsize)
    · exact Or.inr (if_neg hbits)

end MultipathTools.Configure
