import MultipathTools.Dmparser.Cursor

/-! The paths that `disassemble_map` puts into the groups of a map, and what it leaves alone. -/
namespace MultipathTools.Dmparser

variable {alloc : CStr → BitVec 64} {pathvec : List Path} {mpp m : Multipath} {p q params : CStr}

/-- The arguments of a path only change the repeat count. -/
theorem readPathArgs_minio {pp : Path} {n : ℕ} :
    ∃ minio, (readPathArgs mpp pp n p).1 = { mpp with minio := minio } := by
  cases n with
  | zero => exact ⟨mpp.minio, rfl⟩
  | succ n =>
    rw [readPathArgs]
    rcases getWord p with ⟨_ | w, r⟩
    · exact ⟨mpp.minio, rfl⟩
    · exact ⟨_, rfl⟩

theorem readPaths_minio {i na n : ℕ} {pgp : Pathgroup} :
    ∃ minio, (readPaths alloc pathvec i na n mpp pgp p).1 = { mpp with minio := minio } := by
  induction n generalizing mpp pgp p with
  | zero => exact ⟨mpp.minio, rfl⟩
  | succ n ih =>
    rw [readPaths]
    rcases getWord p with ⟨_ | w, r⟩
    · exact ⟨mpp.minio, rfl⟩
    · dsimp only
      generalize (findPathByDevt pathvec w).getD (unknownPath alloc w) = pp
      split_ifs
      · exact ⟨mpp.minio, rfl⟩
      · obtain ⟨minio, hargs⟩ := @readPathArgs_minio mpp r pp na
        generalize readPathArgs mpp pp na r = args at hargs ⊢
        obtain ⟨m, _ | r'⟩ := args
        · exact ⟨minio, hargs⟩
        · obtain rfl : m = { mpp with minio := minio } := hargs
          exact ih

theorem suffix_of_readSelector {numPgArgs num : ℤ} {q : CStr} {m : Multipath}
    (h : readSelector mpp numPgArgs p = (m, some (num, q))) : m.selector ≠ none ∧ q <:+ p := by
  unfold readSelector at h
  rcases hsel : mpp.selector with _ | selector
  · rw [hsel] at h
    rcases hw : getWord p with ⟨_ | w, r⟩
    · rw [hw] at h
      cases h
    · rw [hw] at h
      dsimp only at h
      rcases hv : getWord r with ⟨_ | v, r'⟩
      · rw [hv] at h
        cases h
      · rw [hv] at h
        cases h
        exact ⟨Option.some_ne_none _, (suffix_of_getWord hv).trans (suffix_of_getWord hw)⟩
  · rw [hsel] at h
    cases h
    exact ⟨hsel ▸ Option.some_ne_none _, (skipWord_suffix _).trans (skipWord_suffix _)⟩

theorem readSelector_pg {numPgArgs : ℤ} : (readSelector mpp numPgArgs p).1.pg = mpp.pg := by
  unfold readSelector
  rcases mpp.selector with _ | selector
  · rcases getWord p with ⟨_ | w, r⟩
    · rfl
    · dsimp only
      rcases getWord r with ⟨_ | v, r'⟩
      · rfl
      · rfl
  · rfl

theorem infix_of_getWord {w : CStr} (h : getWord p = (some w, q)) : w <:+: p := by
  unfold getWord at h
  dsimp only at h
  split_ifs at h
  all_goals cases h
  all_goals
    exact (List.rdropWhile_prefix _ _).isInfix.trans
      ((List.takeWhile_prefix _).isInfix.trans (List.dropWhile_suffix _).isInfix)

/-- A path that the table `params` names: the path vector has it, or it is new. -/
def Named (alloc : CStr → BitVec 64) (pathvec : List Path) (params : CStr) (pp : Path) : Prop :=
  (∃ q ∈ pathvec, ∃ i, pp = { q with pgindex := i }) ∨
    ∃ word, word <:+: params ∧ ∃ i, pp = { unknownPath alloc word with pgindex := i }

theorem named_getD {word : CStr} (hword : word <:+: params) (i : ℕ) :
    Named alloc pathvec params
      { (findPathByDevt pathvec word).getD (unknownPath alloc word) with pgindex := i } := by
  cases h : findPathByDevt pathvec word with
  | some q => exact Or.inl ⟨q, List.mem_of_find?_eq_some h, i, rfl⟩
  | none => exact Or.inr ⟨word, hword, i, rfl⟩

theorem suffix_of_readPathArgs {pp : Path} {n : ℕ}
    (h : (readPathArgs mpp pp n p).2 = some q) : q <:+ p := by
  cases n with
  | zero =>
    obtain rfl := Option.some.inj h
    exact List.suffix_rfl
  | succ n =>
    rw [readPathArgs] at h
    rcases hw : getWord p with ⟨_ | w, r⟩
    · rw [hw] at h
      cases h
    · rw [hw] at h
      obtain rfl := Option.some.inj h
      exact (skipWords_suffix n r).trans (suffix_of_getWord hw)

theorem readPaths_named {i na n : ℕ} {pgp : Pathgroup} (hp : p <:+ params)
    (hpgp : ∀ pp ∈ pgp.paths, Named alloc pathvec params pp) :
    ∀ r ∈ (readPaths alloc pathvec i na n mpp pgp p).2, r.2 <:+ params ∧
      ∀ pp ∈ r.1.paths, Named alloc pathvec params pp := by
  induction n generalizing mpp pgp p with
  | zero =>
    intro r hr
    obtain rfl := Option.some.inj hr
    exact ⟨hp, hpgp⟩
  | succ n ih =>
    rw [readPaths]
    rcases hw : getWord p with ⟨_ | w, r⟩
    · intro r hr
      cases hr
    · have hword : w <:+: params := (infix_of_getWord hw).trans hp.isInfix
      have hnext : ∀ pp ∈ pgp.paths ++
          [{ (findPathByDevt pathvec w).getD (unknownPath alloc w) with pgindex := i + 1 }],
          Named alloc pathvec params pp := by
        intro pp hpp
        rcases List.mem_append.mp hpp with hpp | hpp
        · exact hpgp pp hpp
        · rw [List.mem_singleton.mp hpp]
          exact named_getD hword (i + 1)
      dsimp only
      generalize (findPathByDevt pathvec w).getD (unknownPath alloc w) = pp at hnext ⊢
      split_ifs
      · intro r hr
        cases hr
      · have hsuffix {q : CStr} := @suffix_of_readPathArgs mpp r q pp na
        generalize readPathArgs mpp pp na r = args at hsuffix ⊢
        obtain ⟨m, _ | r'⟩ := args
        · intro r hr
          cases hr
        · exact ih ((hsuffix rfl).trans ((suffix_of_getWord hw).trans hp)) hnext

/-- All paths in the groups of a map are named by the table. -/
def GroupsNamed (alloc : CStr → BitVec 64) (pathvec : List Path) (params : CStr)
    (mpp : Multipath) : Prop :=
  ∀ pgp ∈ mpp.pg.getD [], ∀ pp ∈ pgp.paths, Named alloc pathvec params pp

theorem groupsNamed_of_pg (hpg : GroupsNamed alloc pathvec params mpp) (h : m.pg = mpp.pg) :
    GroupsNamed alloc pathvec params m := by
  rw [GroupsNamed, h]
  exact hpg

theorem groupsNamed_none (h : m.pg = none) : GroupsNamed alloc pathvec params m := by
  rw [GroupsNamed, h]
  exact fun _ hpgp => absurd hpgp List.not_mem_nil

theorem readPathgroup_named {i : ℕ} {numPgArgs : ℤ} (hp : p <:+ params)
    (hpg : GroupsNamed alloc pathvec params mpp) :
    GroupsNamed alloc pathvec params (readPathgroup alloc pathvec i mpp numPgArgs p).1 ∧
      ∀ r ∈ (readPathgroup alloc pathvec i mpp numPgArgs p).2, r.2 <:+ params := by
  have hselector := @readSelector_pg mpp p numPgArgs
  unfold readPathgroup
  rcases hs : readSelector mpp numPgArgs p with ⟨m, _ | ⟨k, r⟩⟩
  · rw [hs] at hselector
    exact ⟨groupsNamed_of_pg hpg hselector, by simp⟩
  · obtain ⟨-, hr⟩ := suffix_of_readSelector hs
    rw [hs] at hselector
    have hm : GroupsNamed alloc pathvec params m := groupsNamed_of_pg hpg hselector
    dsimp only
    rcases hn : getWord (skipWords k.toNat r) with ⟨_ | w, r'⟩
    · exact ⟨hm, by simp⟩
    · dsimp only
      rcases ha : getWord r' with ⟨_ | v, r''⟩
      · exact ⟨hm, by simp⟩
      · have hempty : ∀ pp ∈ ({} : Pathgroup).paths, Named alloc pathvec params pp :=
          fun _ hpp => absurd hpp List.not_mem_nil
        have hsuffix : r'' <:+ params := (suffix_of_getWord ha).trans
          ((suffix_of_getWord hn).trans ((skipWords_suffix _ _).trans (hr.trans hp)))
        dsimp only
        generalize (atoi v).toNat = na
        generalize (atoi w).toNat = n
        have hpaths := @readPaths_named alloc pathvec m r'' params i na n {} hsuffix hempty
        obtain ⟨minio, hminio⟩ := @readPaths_minio alloc pathvec m r'' i na n {}
        generalize readPaths alloc pathvec i na n m {} r'' = t at hpaths hminio ⊢
        obtain ⟨m', t⟩ := t
        have hpg' := congrArg Multipath.pg hminio
        have hm' : GroupsNamed alloc pathvec params m' := groupsNamed_of_pg hm hpg'
        rcases t with _ | x
        · exact ⟨hm', by simp⟩
        · obtain ⟨hx, hnamed⟩ := hpaths x rfl
          refine ⟨fun g hg => ?_, fun y hy => ?_⟩
          · rcases List.mem_append.mp hg with hg | hg
            · exact hm' g hg
            · rw [List.mem_singleton.mp hg]
              exact hnamed
          · obtain rfl := Option.some.inj hy
            exact hx

theorem readPathgroups_named {n i : ℕ} {numPgArgs : ℤ} (hp : p <:+ params)
    (hpg : GroupsNamed alloc pathvec params mpp) :
    GroupsNamed alloc pathvec params (readPathgroups alloc pathvec n i mpp numPgArgs p).1 := by
  induction n generalizing i mpp numPgArgs p with
  | zero => exact hpg
  | succ n ih =>
    have hgroup := @readPathgroup_named alloc pathvec mpp p params i numPgArgs hp hpg
    rw [readPathgroups]
    generalize readPathgroup alloc pathvec i mpp numPgArgs p = r at hgroup ⊢
    obtain ⟨m, _ | x⟩ := r
    · exact hgroup.1
    · exact ih (hgroup.2 x rfl) hgroup.1

theorem readGroups_named (hp : p <:+ params) (hpg : GroupsNamed alloc pathvec params mpp) :
    GroupsNamed alloc pathvec params (readGroups alloc pathvec p mpp).1 := by
  unfold readGroups
  rcases hn : getWord p with ⟨_ | numPg, r⟩
  · exact hpg
  · dsimp only
    rcases hx : getWord r with ⟨_ | nextpg, r'⟩
    · exact groupsNamed_none rfl
    · have hsuffix : r' <:+ params :=
        (suffix_of_getWord hx).trans ((suffix_of_getWord hn).trans hp)
      have hstart : GroupsNamed alloc pathvec params { mpp with
          pg := if 0 < atoi numPg then some (mpp.pg.getD []) else none, nextpg := atoi nextpg } := by
        split_ifs
        · exact hpg
        · exact groupsNamed_none rfl
      have hgroups := @readPathgroups_named alloc pathvec _ r' params (atoi numPg).toNat 0 0 hsuffix
        hstart
      dsimp only
      generalize readPathgroups alloc pathvec (atoi numPg).toNat 0 _ 0 r' = t at hgroups ⊢
      rcases t with ⟨m, _ | _⟩
      · exact groupsNamed_none rfl
      · exact hgroups

/-- The groups of a map that had none before. -/
theorem disassembleMap_named (h : mpp.pg = none) :
    GroupsNamed alloc pathvec params (disassembleMap alloc pathvec params mpp).1 := by
  unfold disassembleMap
  dsimp only
  rcases hf : (readArgs params).2 with _ | r
  · exact groupsNamed_none h
  · dsimp only
    rcases hh : (readArgs r).2 with _ | r'
    · exact groupsNamed_none h
    · exact readGroups_named ((suffix_of_readArgs hh).trans (suffix_of_readArgs hf))
        (groupsNamed_none h)

end MultipathTools.Dmparser
