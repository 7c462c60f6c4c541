import MultipathTools.Dmparser.Table

/-! What `disassemble_map` reads of a table of words. -/
namespace MultipathTools.Dmparser

open MultipathTools.Features

/-- By what `assemble_map` multiplies the repeat count of a path. -/
def multiplier (w : RrWeight) (pp : Path) : ℤ :=
  if w = .prio ∧ 0 < pp.priority then pp.priority else 1

/-- By what `disassemble_map` divides it. -/
def divisor (w : RrWeight) (selector : CStr) (pp : Path) : ℤ :=
  if strncmpEq selector "round-robin".toList 11 ∧ w = .prio ∧ 0 < pp.priority then pp.priority
  else 1

theorem defMinio_eq (mpp : Multipath) (pp : Path) (word : CStr) :
    defMinio mpp pp word = (atoi word).tdiv (divisor mpp.rrWeight (printStr mpp.selector) pp) := by
  unfold defMinio divisor
  split_ifs
  · rfl
  · rw [Int.tdiv_one]

theorem tmpMinio_eq {mp : Multipath} {pp : Path} (hm : IsInt mp.minio)
    (hp : IsInt (mp.minio * pp.priority)) :
    tmpMinio mp pp = mp.minio * multiplier mp.rrWeight pp ∧ IsInt (tmpMinio mp pp) := by
  unfold tmpMinio multiplier
  split_ifs
  · exact ⟨toInt_of_isInt hp, toInt_isInt _⟩
  · exact ⟨(mul_one _).symm, hm⟩

/-- The repeat count is the one that was written, for a path, exactly if it was multiplied and
divided by the same number; 0 is always read back. -/
theorem tdiv_divisor_eq_iff {m : ℤ} (w w' : RrWeight) (selector : CStr) (pp : Path) :
    (m * multiplier w pp).tdiv (divisor w' selector pp) = m ↔
      m = 0 ∨ multiplier w pp = divisor w' selector pp := by
  by_cases hm : m = 0
  · simp [hm]
  have hcases : ∀ q : ℤ, q = 1 ∨ q = pp.priority ∧ 0 < pp.priority → 0 < q := by omega
  have hmul : multiplier w pp = 1 ∨ multiplier w pp = pp.priority ∧ 0 < pp.priority := by
    unfold multiplier
    split_ifs with h
    · exact Or.inr ⟨rfl, h.2⟩
    · exact Or.inl rfl
  have hdiv : divisor w' selector pp = 1 ∨
      divisor w' selector pp = pp.priority ∧ 0 < pp.priority := by
    unfold divisor
    split_ifs with h
    · exact Or.inr ⟨rfl, h.2.2⟩
    · exact Or.inl rfl
  rw [or_iff_right hm]
  rcases hdiv with hd | ⟨hd, hpos⟩
  · rw [hd, Int.tdiv_one]
    exact ⟨fun h => mul_left_cancel₀ hm (h.trans (mul_one m).symm), fun h => by rw [h, mul_one]⟩
  · rcases hmul with hk | ⟨hk, -⟩
    · rw [hd, hk, mul_one]
      constructor
      · intro h
        by_contra hne
        have habs : (m.tdiv pp.priority).natAbs = m.natAbs / pp.priority.natAbs :=
          Int.natAbs_tdiv m pp.priority
        have hlt : m.natAbs / pp.priority.natAbs < m.natAbs :=
          Nat.div_lt_self (by omega) (by omega)
        rw [h] at habs
        exact hlt.ne habs.symm
      · intro h
        rw [← h, Int.tdiv_one]
    · rw [hd, hk]
      exact iff_of_true (Int.mul_tdiv_cancel m (by omega)) rfl

/-- The repeat count that is read back for a path. -/
def minioBack (mp mpp : Multipath) (selector : CStr) (pp : Path) : ℤ :=
  (tmpMinio mp pp).tdiv (divisor mpp.rrWeight selector pp)

/-- A path that the table names and the reader finds. -/
structure Readable (pathvec : List Path) (mp : Multipath) (pp : Path) : Prop where
  devT : IsWord pp.devT
  found : findPathByDevt pathvec pp.devT = some pp
  minio : IsInt (mp.minio * pp.priority)

/-- The paths of a group, but for the number of their group. -/
def devices (pgp : Pathgroup) : List Path := pgp.paths.map fun pp => { pp with pgindex := 0 }

variable {pathvec : List Path} {mp : Multipath} (alloc : CStr → BitVec 64)

theorem pathWords_isWord {pp : Path} (h : Readable pathvec mp pp) :
    ∀ w ∈ pathWords mp pp, IsWord w := by
  simp only [pathWords, List.forall_mem_cons, List.not_mem_nil, false_implies, implies_true,
    and_true]
  exact ⟨h.devT, isWord_itoa _⟩

theorem readPaths_at {p : CStr} {paths : List Path} {rest : List CStr} (mpp : Multipath)
    (pgp : Pathgroup) (i : ℕ) (hm : IsInt mp.minio) (hpp : ∀ pp ∈ paths, Readable pathvec mp pp)
    (hrest : ∀ w ∈ rest, IsWord w) (hp : At p (paths.flatMap (pathWords mp) ++ rest)) :
    ∃ pgp' p', readPaths alloc pathvec i 1 paths.length mpp pgp p =
        ({ mpp with
            minio := paths.foldl (fun _ => minioBack mp mpp (printStr mpp.selector)) mpp.minio },
          some (pgp', p')) ∧
      devices pgp' = devices pgp ++ devices { paths := paths } ∧ At p' rest := by
  induction paths generalizing p mpp pgp with
  | nil => exact ⟨pgp, p, rfl, by simp [devices], hp⟩
  | cons pp paths ih =>
    rw [List.forall_mem_cons] at hpp
    have hwords : ∀ w ∈ paths.flatMap (pathWords mp) ++ rest, IsWord w := by
      intro w hw
      rcases List.mem_append.mp hw with hw | hw
      · obtain ⟨q, hq, hw⟩ := List.mem_flatMap.mp hw
        exact pathWords_isWord (hpp.2 q hq) w hw
      · exact hrest w hw
    have hnum : ∀ w ∈ itoa (tmpMinio mp pp) :: (paths.flatMap (pathWords mp) ++ rest), IsWord w :=
      List.forall_mem_cons.mpr ⟨isWord_itoa _, hwords⟩
    obtain ⟨q, hq, hat⟩ := getWord_at (List.forall_mem_cons.mpr ⟨hpp.1.devT, hnum⟩) hp
    obtain ⟨q', hq', hat'⟩ := getWord_at hnum hat
    have hargs : readPathArgs mpp pp 1 q =
        ({ mpp with minio := minioBack mp mpp (printStr mpp.selector) pp }, some q') := by
      change readPathArgs mpp pp (0 + 1) q = _
      rw [readPathArgs, hq']
      dsimp only
      rw [defMinio_eq, atoi_itoa_self (tmpMinio_eq hm hpp.1.minio).2]
      rfl
    obtain ⟨pgp', p', hread, hdev, hend⟩ := ih
      { mpp with minio := minioBack mp mpp (printStr mpp.selector) pp }
      { id := pgp.id ^^^ pp.addr, paths := pgp.paths ++ [{ pp with pgindex := i + 1 }] }
      hpp.2 hat'
    refine ⟨pgp', p', ?_, ?_, hend⟩
    · have hstored : storeFails pp = false := by simp [storeFails, hpp.1.devT.1]
      rw [List.length_cons, readPaths, hq]
      dsimp only
      rw [hpp.1.found, Option.getD_some, hstored, if_neg Bool.false_ne_true, hargs]
      exact hread
    · rw [hdev]
      simp [devices]

theorem readSelector_at {p selector : CStr} {rest : List CStr} {mpp : Multipath} {n : ℤ}
    (hsel : mpp.selector = none ∨ mpp.selector = some (mergeWords selector "0".toList) ∧ n = 0)
    (hw : ∀ w ∈ selector :: "0".toList :: rest, IsWord w)
    (hp : At p (selector :: "0".toList :: rest)) :
    ∃ p', readSelector mpp n p =
        ({ mpp with selector := some (mergeWords selector "0".toList) }, some (0, p')) ∧
      At p' rest := by
  have hw' := (List.forall_mem_cons.mp hw).2
  rcases hsel with hnone | ⟨hsome, rfl⟩
  · obtain ⟨q, hq, hat⟩ := getWord_at hw hp
    obtain ⟨q', hq', hat'⟩ := getWord_at hw' hat
    refine ⟨q', ?_, hat'⟩
    unfold readSelector
    rw [hnone, hq]
    dsimp only
    rw [hq']
    rfl
  · refine ⟨_, ?_, skipWord_at hw' (skipWord_at hw hp)⟩
    unfold readSelector
    rw [hsome]
    dsimp only
    rw [← hsome]

theorem pathgroupWords_isWord {selector : CStr} {pgp : Pathgroup} (hsel : IsWord selector)
    (hpp : ∀ pp ∈ pgp.paths, Readable pathvec mp pp) :
    ∀ w ∈ pathgroupWords mp selector pgp, IsWord w := by
  simp only [pathgroupWords, List.forall_mem_cons]
  refine ⟨hsel, by decide, isWord_itoa _, by decide, fun w hw => ?_⟩
  obtain ⟨pp, hmem, hw⟩ := List.mem_flatMap.mp hw
  exact pathWords_isWord (hpp pp hmem) w hw

/-- What one group of the table does to the map that is read. -/
theorem readPathgroup_at {p selector : CStr} {pgp : Pathgroup} {rest : List CStr}
    {mpp : Multipath} {n : ℤ} (i : ℕ) (hm : IsInt mp.minio) (hword : IsWord selector)
    (hpp : ∀ pp ∈ pgp.paths, Readable pathvec mp pp) (hlen : pgp.paths.length < 2 ^ 31)
    (hsel : mpp.selector = none ∨ mpp.selector = some (mergeWords selector "0".toList) ∧ n = 0)
    (hrest : ∀ w ∈ rest, IsWord w) (hp : At p (pathgroupWords mp selector pgp ++ rest)) :
    ∃ pgp' p', readPathgroup alloc pathvec i mpp n p =
        ({ mpp with
            selector := some (mergeWords selector "0".toList)
            minio := pgp.paths.foldl
              (fun _ => minioBack mp mpp (mergeWords selector "0".toList)) mpp.minio
            pg := some (mpp.pg.getD [] ++ [pgp']) }, some (0, p')) ∧
      devices pgp' = devices pgp ∧ At p' rest := by
  have hw : ∀ w ∈ pathgroupWords mp selector pgp ++ rest, IsWord w := by
    intro w hw
    rcases List.mem_append.mp hw with hw | hw
    · exact pathgroupWords_isWord hword hpp w hw
    · exact hrest w hw
  obtain ⟨q, hq, hat⟩ := readSelector_at hsel hw hp
  have hw₂ := (List.forall_mem_cons.mp (List.forall_mem_cons.mp hw).2).2
  obtain ⟨q₂, hq₂, hat₂⟩ := getWord_at hw₂ hat
  have hw₃ := (List.forall_mem_cons.mp hw₂).2
  obtain ⟨q₃, hq₃, hat₃⟩ := getWord_at hw₃ hat₂
  obtain ⟨pgp', p', hread, hdev, hend⟩ := readPaths_at alloc
    { mpp with selector := some (mergeWords selector "0".toList) } {} i hm hpp hrest hat₃
  refine ⟨pgp', p', ?_, by simpa [devices] using hdev, hend⟩
  unfold readPathgroup
  rw [hq]
  dsimp only [Int.toNat_zero, skipWords]
  rw [hq₂]
  dsimp only
  rw [hq₃]
  dsimp only
  rw [atoi_itoa_self (isInt_natCast hlen), Int.toNat_natCast,
    show (atoi "1".toList).toNat = 1 by decide, hread]
  rfl

/-- What `disassemble_map` reads of all groups. -/
structure GroupsRead (mp : Multipath) (sel : CStr) (pg : List Pathgroup)
    (mpp mpp' : Multipath) : Prop where
  features : mpp'.features = mpp.features
  hwhandler : mpp'.hwhandler = mpp.hwhandler
  nextpg : mpp'.nextpg = mpp.nextpg
  selector : mpp'.selector = if pg = [] then mpp.selector else some sel
  groups : (mpp'.pg.getD []).map devices = (mpp.pg.getD []).map devices ++ pg.map devices
  minio : mpp'.minio =
    (pg.flatMap Pathgroup.paths).foldl (fun _ => minioBack mp mpp sel) mpp.minio

theorem readPathgroups_at {p selector : CStr} {pg : List Pathgroup} (mpp : Multipath) {n : ℤ}
    (i : ℕ) (hm : IsInt mp.minio) (hword : IsWord selector)
    (hpp : ∀ pgp ∈ pg, ∀ pp ∈ pgp.paths, Readable pathvec mp pp)
    (hlen : ∀ pgp ∈ pg, pgp.paths.length < 2 ^ 31)
    (hsel : mpp.selector = none ∨ mpp.selector = some (mergeWords selector "0".toList) ∧ n = 0)
    (hp : At p (pg.flatMap (pathgroupWords mp selector))) :
    ∃ mpp', readPathgroups alloc pathvec pg.length i mpp n p = (mpp', true) ∧
      GroupsRead mp (mergeWords selector "0".toList) pg mpp mpp' := by
  induction pg generalizing p mpp n i with
  | nil => exact ⟨mpp, rfl, rfl, rfl, rfl, by simp, by simp, rfl⟩
  | cons pgp pg ih =>
    rw [List.forall_mem_cons] at hpp hlen
    have hrest : ∀ w ∈ pg.flatMap (pathgroupWords mp selector), IsWord w := by
      intro w hw
      obtain ⟨q, hq, hw⟩ := List.mem_flatMap.mp hw
      exact pathgroupWords_isWord hword (hpp.2 q hq) w hw
    obtain ⟨pgp', q, hread, hdev, hat⟩ :=
      readPathgroup_at alloc i hm hword hpp.1 hlen.1 hsel hrest hp
    obtain ⟨mpp', hall, hgr⟩ := ih
      { mpp with
        selector := some (mergeWords selector "0".toList)
        minio := pgp.paths.foldl
          (fun _ => minioBack mp mpp (mergeWords selector "0".toList)) mpp.minio
        pg := some (mpp.pg.getD [] ++ [pgp']) }
      (i + 1) hpp.2 hlen.2 (Or.inr ⟨rfl, rfl⟩) hat
    refine ⟨mpp', ?_, hgr.features, hgr.hwhandler, hgr.nextpg, ?_, ?_, ?_⟩
    · rw [List.length_cons, readPathgroups, hread]
      exact hall
    · rw [hgr.selector, if_neg (List.cons_ne_nil pgp pg)]
      split_ifs <;> rfl
    · rw [hgr.groups]
      simp [hdev]
    · rw [hgr.minio, List.flatMap_cons, List.foldl_append]
      rfl

/-- The last path of the last group. -/
def lastPath (mp : Multipath) : Option Path :=
  ((mp.pg.getD []).flatMap Pathgroup.paths).getLast?

theorem foldl_last {f : Path → ℤ} (paths : List Path) (m : ℤ) :
    paths.foldl (fun _ => f) m = (paths.getLast?.map f).getD m := by
  induction paths using List.reverseRecOn with
  | nil => rfl
  | append_singleton paths pp _ => simp

/-- An empty map, with the weighting of the map that is to be compared or none. -/
def emptyMap (w : RrWeight) : Multipath := { allocMultipath with rrWeight := w }

/-- What is read behind the hardware handler of a table for `mp`. -/
structure GroupsBack (mp : Multipath) (sel : CStr) (w : RrWeight) (mpp : Multipath) : Prop where
  nextpg : mpp.nextpg = if (mp.pg.getD []).length ≠ 0 then mp.bestpg else 0
  selector : mpp.selector = if mp.pg.getD [] = [] then none else some sel
  groups : (mpp.pg.getD []).map devices = (mp.pg.getD []).map devices
  minio : mpp.minio = ((lastPath mp).map fun pp => (tmpMinio mp pp).tdiv (divisor w sel pp)).getD 0

theorem readGroups_at {p sel : CStr} (mpp : Multipath) (hm : IsInt mp.minio)
    (hb : IsInt mp.bestpg) (hword : IsWord sel)
    (hpp : ∀ pgp ∈ mp.pg.getD [], ∀ pp ∈ pgp.paths, Readable pathvec mp pp)
    (hnum : (groupWords mp sel).length < 2 ^ 31) (hsel : mpp.selector = none)
    (hpg : mpp.pg = none) (hminio : mpp.minio = 0) (hp : At p (groupWords mp sel)) :
    ∃ mpp', readGroups alloc pathvec p mpp = (mpp', 0) ∧ mpp'.features = mpp.features ∧
      mpp'.hwhandler = mpp.hwhandler ∧
      GroupsBack mp (mergeWords sel "0".toList) mpp.rrWeight mpp' := by
  obtain ⟨hcount, hcounts⟩ := pathgroups_length_le mp sel (mp.pg.getD [])
  simp only [groupWords, List.length_cons] at hnum
  have hgw : ∀ w ∈ (mp.pg.getD []).flatMap (pathgroupWords mp sel), IsWord w := by
    intro w hw
    obtain ⟨q, hq, hw⟩ := List.mem_flatMap.mp hw
    exact pathgroupWords_isWord hword (hpp q hq) w hw
  have hw₁ := List.forall_mem_cons.mpr
    ⟨isWord_itoa (if (mp.pg.getD []).length ≠ 0 then mp.bestpg else 0), hgw⟩
  obtain ⟨q, hq, hat⟩ := getWord_at (List.forall_mem_cons.mpr ⟨isWord_itoa _, hw₁⟩) hp
  obtain ⟨q', hq', hat'⟩ := getWord_at hw₁ hat
  have hbest : IsInt (if (mp.pg.getD []).length ≠ 0 then mp.bestpg else 0) := by
    split_ifs
    · exact hb
    · decide
  obtain ⟨mpp', hread, hgr⟩ := readPathgroups_at alloc
    { mpp with
      pg := if 0 < ((mp.pg.getD []).length : ℤ) then some (mpp.pg.getD []) else none
      nextpg := if (mp.pg.getD []).length ≠ 0 then mp.bestpg else 0 }
    (n := 0) 0 hm hword hpp (fun pgp hmem => by have := hcounts pgp hmem; omega) (Or.inl hsel) hat'
  refine ⟨mpp', ?_, hgr.features, hgr.hwhandler, hgr.nextpg, ?_, ?_, ?_⟩
  · unfold readGroups
    rw [hq]
    dsimp only
    rw [hq']
    dsimp only
    rw [atoi_itoa_self (isInt_natCast (by omega)), atoi_itoa_self hbest, Int.toNat_natCast, hread]
  · rw [hgr.selector, hsel]
  · rw [hgr.groups, hpg]
    split_ifs <;> simp
  · rw [hgr.minio, foldl_last, hminio]
    rfl

/-- What is read of a whole table. -/
theorem disassembleMap_at {fs hs : List CStr} {table sel : CStr} (w : RrWeight)
    (hf : ∀ f ∈ fs, IsWord f) (hh : ∀ h ∈ hs, IsWord h) (hm : IsInt mp.minio)
    (hb : IsInt mp.bestpg) (hword : IsWord sel)
    (hpp : ∀ pgp ∈ mp.pg.getD [], ∀ pp ∈ pgp.paths, Readable pathvec mp pp)
    (hnum : (fs ++ itoa hs.length :: (hs ++ groupWords mp sel)).length < 2 ^ 31)
    (htable : table =
      itoa fs.length ++ unwords (fs ++ itoa hs.length :: (hs ++ groupWords mp sel))) :
    ∃ mpp, disassembleMap alloc pathvec table (emptyMap w) = (mpp, 0) ∧
      mpp.features = some (render fs) ∧ mpp.hwhandler = some (render hs) ∧
      GroupsBack mp (mergeWords sel "0".toList) w mpp := by
  simp only [List.length_append, List.length_cons] at hnum
  have hgroups : ∀ v ∈ groupWords mp sel, IsWord v := by
    simp only [groupWords, List.forall_mem_cons]
    refine ⟨isWord_itoa _, isWord_itoa _, fun v hv => ?_⟩
    obtain ⟨q, hq, hv⟩ := List.mem_flatMap.mp hv
    exact pathgroupWords_isWord hword (hpp q hq) v hv
  have hhs : ∀ v ∈ hs ++ groupWords mp sel, IsWord v :=
    List.forall_mem_append.mpr ⟨hh, hgroups⟩
  have hfs : ∀ v ∈ fs ++ itoa hs.length :: (hs ++ groupWords mp sel), IsWord v :=
    List.forall_mem_append.mpr ⟨hf, List.forall_mem_cons.mpr ⟨isWord_itoa _, hhs⟩⟩
  have hat : At table (itoa fs.length :: (fs ++ itoa hs.length :: (hs ++ groupWords mp sel))) := by
    rw [htable]
    exact at_word (isWord_itoa _) _
  obtain ⟨p, hp, hat₁⟩ := readArgs_at (by omega) hfs hat
  obtain ⟨q, hq, hat₂⟩ := readArgs_at (by omega) hhs hat₁
  obtain ⟨mpp, hread, hfeatures, hhwhandler, hback⟩ := readGroups_at alloc
    { emptyMap w with features := some (render fs), hwhandler := some (render hs) }
    hm hb hword hpp (by omega) rfl rfl rfl hat₂
  refine ⟨mpp, ?_, hfeatures, hhwhandler, hback⟩
  unfold disassembleMap
  rw [hp]
  dsimp only
  rw [hq]
  exact hread

end MultipathTools.Dmparser
