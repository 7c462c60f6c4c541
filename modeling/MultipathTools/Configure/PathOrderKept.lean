import MultipathTools.Base.BinarySum
import MultipathTools.Configure.PathOrder

/-! The order for round robin loses no path (`configure.c`). -/
namespace MultipathTools.Configure

/-- An element of a list is replaced by one that has `xs` less. -/
theorem flatMap_set_perm {α β : Type*} {f : α → List β} {l : List α} {i : ℕ} {a b : α}
    {xs : List β} (h : l[i]? = some a) (hab : (f a).Perm (xs ++ f b)) :
    (l.flatMap f).Perm (xs ++ (l.set i b).flatMap f) := by
  induction l generalizing i with
  | nil => cases h
  | cons c l ih =>
    cases i with
    | zero =>
      obtain rfl : c = a := Option.some.inj h
      rw [List.set_cons_zero, List.flatMap_cons, List.flatMap_cons, ← List.append_assoc]
      exact hab.append_right _
    | succ i =>
      rw [List.set_cons_succ, List.flatMap_cons, List.flatMap_cons]
      refine ((ih (by simpa using h)).append_left (f c)).trans ?_
      rw [← List.append_assoc, ← List.append_assoc]
      exact List.perm_append_comm.append_right _

section Grouping

/-- `store_path` takes the path. -/
def HasName (pp : SgPath) : Prop := ¬ (pp.devT = [] ∧ pp.dev = [])

structure HostGroup.Sound (hgp : HostGroup) : Prop where
  count : hgp.numPaths = hgp.paths.length
  named : ∀ pp ∈ hgp.paths, HasName pp

structure AdapterGroup.Sound (agp : AdapterGroup) : Prop where
  hosts : agp.numHosts = agp.hostGroups.length
  next : agp.nextHostIndex < agp.numHosts
  groups : ∀ hgp ∈ agp.hostGroups, hgp.Sound

variable {v w : List SgPath} {pp : SgPath} {agp : AdapterGroup} {hgps hgps' : List HostGroup}

theorem storeSgPath_of_hasName (h : HasName pp) : storeSgPath v pp = some (v ++ [pp]) := if_neg h

theorem storeSgPath_eq_some (h : storeSgPath v pp = some w) : w = v ++ [pp] ∧ HasName pp := by
  unfold storeSgPath at h
  split_ifs at h with hnone
  exact ⟨(Option.some.inj h).symm, hnone⟩

theorem newHostGroup_sound (pp : SgPath) (hhosts : agp.numHosts = agp.hostGroups.length)
    (hnext : agp.nextHostIndex ≤ agp.numHosts) (hgroups : ∀ hgp ∈ agp.hostGroups, hgp.Sound) :
    (newHostGroup agp pp).2.Sound := by
  have hadd {hgp : HostGroup} (h : hgp.Sound) : ∀ g ∈ agp.hostGroups ++ [hgp], g.Sound := by
    intro g hg
    rcases List.mem_append.mp hg with hg | hg
    · exact hgroups g hg
    · exact (List.mem_singleton.mp hg) ▸ h
  unfold newHostGroup
  cases hstore : storeSgPath [] pp with
  | none =>
    refine ⟨?_, Nat.lt_succ_of_le hnext, hadd ⟨rfl, List.forall_mem_nil _⟩⟩
    dsimp only
    rw [List.length_append, List.length_singleton, hhosts]
  | some paths =>
    obtain ⟨rfl, hname⟩ := storeSgPath_eq_some hstore
    refine ⟨?_, Nat.lt_succ_of_le hnext, hadd ⟨rfl, ?_⟩⟩
    · dsimp only
      rw [List.length_append, List.length_singleton, hhosts]
    · exact List.forall_mem_singleton.mpr hname

theorem newHostGroup_members (agp : AdapterGroup) (pp : SgPath) :
    (newHostGroup agp pp).2.members.Perm
      (if (newHostGroup agp pp).1 then pp :: agp.members else agp.members) := by
  unfold newHostGroup AdapterGroup.members
  cases hstore : storeSgPath [] pp with
  | none => simp
  | some paths =>
    obtain ⟨rfl, -⟩ := storeSgPath_eq_some hstore
    dsimp only
    rw [if_pos rfl, List.flatMap_append]
    simp

theorem addToHost_eq_some (h : addToHost pp hgps = some (some hgps')) :
    hgps'.length = hgps.length ∧ (hgps'.flatMap (·.paths)).Perm (pp :: hgps.flatMap (·.paths)) ∧
      ((∀ hgp ∈ hgps, hgp.Sound) → ∀ hgp ∈ hgps', hgp.Sound) := by
  induction hgps generalizing hgps' with
  | nil => cases h
  | cons hgp hgps ih =>
    rw [addToHost] at h
    split_ifs at h with hno
    · obtain ⟨paths, hstore, rfl⟩ := Option.map_eq_some_iff.mp (Option.some.inj h)
      obtain ⟨rfl, hname⟩ := storeSgPath_eq_some hstore
      refine ⟨rfl, ?_, fun hsound => ?_⟩
      · rw [List.flatMap_cons, List.flatMap_cons]
        simp
      · rw [List.forall_mem_cons] at hsound ⊢
        refine ⟨⟨?_, ?_⟩, hsound.2⟩
        · dsimp only
          rw [List.length_append, hsound.1.count, List.length_singleton]
        · intro p hp
          rcases List.mem_append.mp hp with hp | hp
          · exact hsound.1.named p hp
          · exact (List.mem_singleton.mp hp) ▸ hname
    · obtain ⟨o, ho, hmap⟩ := Option.map_eq_some_iff.mp h
      obtain ⟨rest, rfl, rfl⟩ := Option.map_eq_some_iff.mp hmap
      obtain ⟨hlength, hperm, hkeep⟩ := ih ho
      refine ⟨by rw [List.length_cons, hlength, List.length_cons], ?_, fun hsound => ?_⟩
      · rw [List.flatMap_cons, List.flatMap_cons]
        exact (hperm.append_left hgp.paths).trans List.perm_middle
      · rw [List.forall_mem_cons] at hsound ⊢
        exact ⟨hsound.1, hkeep hsound.2⟩

theorem addToAdapter_sound (pp : SgPath) (h : agp.Sound) : (addToAdapter agp pp).2.Sound := by
  unfold addToAdapter
  cases hadd : addToHost pp agp.hostGroups with
  | none => exact newHostGroup_sound pp h.hosts h.next.le h.groups
  | some o =>
    cases o with
    | none => exact h
    | some hgps =>
      obtain ⟨hlength, -, hkeep⟩ := addToHost_eq_some hadd
      exact ⟨h.hosts.trans hlength.symm, h.next, hkeep h.groups⟩

theorem addToAdapter_members (agp : AdapterGroup) (pp : SgPath) :
    (addToAdapter agp pp).2.members.Perm
      (if (addToAdapter agp pp).1 then pp :: agp.members else agp.members) := by
  unfold addToAdapter
  cases hadd : addToHost pp agp.hostGroups with
  | none => exact newHostGroup_members agp pp
  | some o =>
    cases o with
    | none => exact List.Perm.refl _
    | some hgps => exact (addToHost_eq_some hadd).2.1

variable {sysfs : SysfsHosts} {adapterName1 : CStr} {i call : ℕ} {paths : List SgPath}

theorem gather_sound (h : agp.Sound) : (gather sysfs adapterName1 i call paths agp).agp.Sound := by
  fun_induction gather sysfs adapterName1 i call paths agp with
  | case1 => exact h
  | case2 i call paths agp hi _ _ _ ih => exact ih (addToAdapter_sound _ h)
  | case3 => exact addToAdapter_sound _ h
  | case4 i call paths agp hi _ _ _ ih => exact ih h
  | case5 => exact h

/-- What leaves the path group comes into the adapter group. -/
theorem gather_perm :
    ((gather sysfs adapterName1 i call paths agp).agp.members ++
      (gather sysfs adapterName1 i call paths agp).paths).Perm (agp.members ++ paths) := by
  fun_induction gather sysfs adapterName1 i call paths agp with
  | case1 => exact List.Perm.refl _
  | case2 i call paths agp hi _ hr _ ih =>
    have hmembers := addToAdapter_members agp paths[i]
    rw [if_pos hr] at hmembers
    refine ih.trans ((hmembers.append_right _).trans ?_)
    rw [List.cons_append]
    exact List.perm_middle.symm.trans ((List.getElem_cons_eraseIdx_perm hi).append_left _)
  | case3 i call paths agp hi _ hr =>
    have hmembers := addToAdapter_members agp paths[i]
    rw [if_neg hr] at hmembers
    exact hmembers.append_right _
  | case4 i call paths agp hi _ _ _ ih => exact ih
  | case5 => exact List.Perm.refl _

/-- The paths of all adapters. -/
def grouped (adapters : List AdapterGroup) : List SgPath := adapters.flatMap (·.members)

variable {adapters : List AdapterGroup}

theorem grouped_concat : grouped (adapters ++ [agp]) = grouped adapters ++ agp.members := by
  rw [grouped, List.flatMap_append, List.flatMap_singleton]
  rfl

theorem sound_concat (hsound : ∀ a ∈ adapters, a.Sound) (h : agp.Sound) :
    ∀ a ∈ adapters ++ [agp], a.Sound := by
  intro a ha
  rcases List.mem_append.mp ha with ha | ha
  · exact hsound a ha
  · exact (List.mem_singleton.mp ha) ▸ h

/-- The first path of an adapter. -/
theorem firstHost_sound (pp : SgPath) (name : CStr) :
    (newHostGroup { adapterName := name } pp).2.Sound :=
  newHostGroup_sound pp rfl (Nat.le_refl 0) (List.forall_mem_nil _)

/-- What the group of a new adapter has when it has gathered its paths. -/
theorem gather_grouped (adapters : List AdapterGroup) (pp : SgPath) (rest : List SgPath) (name : CStr)
    (call : ℕ) (hr : (newHostGroup { adapterName := name.take (slotNameSize - 1) } pp).1 = true) :
    (grouped (adapters ++ [(gather sysfs name 0 (call + 1) rest
      (newHostGroup { adapterName := name.take (slotNameSize - 1) } pp).2).agp]) ++
      (gather sysfs name 0 (call + 1) rest
        (newHostGroup { adapterName := name.take (slotNameSize - 1) } pp).2).paths).Perm
      (grouped adapters ++ pp :: rest) := by
  have hmembers := newHostGroup_members { adapterName := name.take (slotNameSize - 1) } pp
  rw [if_pos hr] at hmembers
  rw [grouped_concat, List.append_assoc]
  exact (gather_perm.trans (hmembers.append_right rest)).append_left _

theorem groupLoop_kept (hsound : ∀ a ∈ adapters, a.Sound) :
    (∀ a ∈ (groupLoop sysfs call paths adapters).2.2, a.Sound) ∧
    (grouped (groupLoop sysfs call paths adapters).2.2 ++
      (groupLoop sysfs call paths adapters).2.1).Perm (grouped adapters ++ paths) ∧
    ((groupLoop sysfs call paths adapters).1 = true →
      (groupLoop sysfs call paths adapters).2.1 = []) := by
  fun_induction groupLoop sysfs call paths adapters with
  | case1 call adapters => exact ⟨hsound, List.Perm.refl _, fun _ => rfl⟩
  | case2 call adapters pp rest hname =>
    exact ⟨hsound, List.Perm.refl _, fun hok => nomatch hok⟩
  | case3 call adapters pp rest name _ r hr g _ ih =>
    obtain ⟨hall, hperm, hend⟩ := ih (sound_concat hsound (gather_sound (firstHost_sound pp _)))
    exact ⟨hall, hperm.trans (gather_grouped adapters pp rest name call hr), hend⟩
  | case4 call adapters pp rest name _ r hr g =>
    exact ⟨sound_concat hsound (gather_sound (firstHost_sound pp _)),
      gather_grouped adapters pp rest name call hr, fun hok => nomatch hok⟩
  | case5 call adapters pp rest name _ r hr =>
    have hmembers := newHostGroup_members { adapterName := name.take (slotNameSize - 1) } pp
    rw [if_neg hr] at hmembers
    refine ⟨sound_concat hsound (firstHost_sound pp _), ?_, fun hok => nomatch hok⟩
    rw [grouped_concat, hmembers.eq_nil, List.append_nil]

theorem grouped_named (hsound : ∀ a ∈ adapters, a.Sound) : ∀ pp ∈ grouped adapters, HasName pp := by
  intro pp hpp
  obtain ⟨a, ha, hpp⟩ := List.mem_flatMap.mp hpp
  obtain ⟨hgp, hhgp, hpp⟩ := List.mem_flatMap.mp hpp
  exact ((hsound a ha).groups hgp hhgp).named pp hpp

theorem restore_eq (hsound : ∀ a ∈ adapters, a.Sound) (paths : List SgPath) :
    restore paths adapters = paths ++ grouped adapters := by
  have hfold (l : List SgPath) (hl : ∀ pp ∈ l, HasName pp) (v : List SgPath) :
      l.foldl (fun v pp => (storeSgPath v pp).getD v) v = v ++ l := by
    induction l generalizing v with
    | nil => exact (List.append_nil v).symm
    | cons pp l ih =>
      rw [List.forall_mem_cons] at hl
      rw [List.foldl_cons, storeSgPath_of_hasName hl.1, Option.getD_some, ih hl.2]
      simp
  exact hfold _ (grouped_named hsound) paths

theorem groupByHostAdapter_kept (sysfs : SysfsHosts) (paths : List SgPath) :
    ((groupByHostAdapter sysfs paths).1 = 1 ∧ (groupByHostAdapter sysfs paths).2.1.Perm paths) ∨
    (groupByHostAdapter sysfs paths).1 = 0 ∧ (groupByHostAdapter sysfs paths).2.1 = [] ∧
      (∀ a ∈ (groupByHostAdapter sysfs paths).2.2, a.Sound) ∧
      (grouped (groupByHostAdapter sysfs paths).2.2).Perm paths := by
  obtain ⟨hsound, hperm, hend⟩ :=
    @groupLoop_kept sysfs 0 paths [] (List.forall_mem_nil _)
  cases hok : (groupLoop sysfs 0 paths []).1 with
  | true =>
    have heq : groupByHostAdapter sysfs paths = (0, (groupLoop sysfs 0 paths []).2) := if_pos hok
    rw [hend hok, List.append_nil] at hperm
    rw [heq]
    exact .inr ⟨rfl, hend hok, hsound, hperm⟩
  | false =>
    have hfail : ¬ (groupLoop sysfs 0 paths []).1 = true := by simp [hok]
    have heq : groupByHostAdapter sysfs paths = (1, restore (groupLoop sysfs 0 paths []).2.1
      (groupLoop sysfs 0 paths []).2.2, []) := if_neg hfail
    rw [heq]
    refine .inl ⟨rfl, ?_⟩
    rw [restore_eq hsound]
    exact List.perm_append_comm.trans hperm

end Grouping

section Ordering

variable {adapters : List AdapterGroup} {agp : AdapterGroup} {hgp : HostGroup} {pp : SgPath}
  {pgPaths paths : List SgPath} {next total fuel : ℕ}

/-- The adapter after a turn at it. -/
def AdapterGroup.advance (agp : AdapterGroup) : AdapterGroup :=
  { agp with nextHostIndex := (agp.nextHostIndex + 1) % agp.numHosts }

theorem AdapterGroup.Sound.advance (h : agp.Sound) : agp.advance.Sound :=
  ⟨h.hosts, Nat.mod_lt _ (Nat.zero_lt_of_lt h.next), h.groups⟩

/-- The adapter after the first path of its next host has been taken. -/
def AdapterGroup.take (agp : AdapterGroup) (hgp : HostGroup) (paths : List SgPath) :
    AdapterGroup :=
  { agp.advance with
    hostGroups := agp.hostGroups.set agp.nextHostIndex
      { hgp with numPaths := hgp.numPaths - 1, paths := paths } }

theorem AdapterGroup.Sound.take (h : agp.Sound) (hget : agp.hostGroups[agp.nextHostIndex]? = some hgp)
    (hpaths : hgp.paths = pp :: paths) : (agp.take hgp paths).Sound := by
  have hhgp := h.groups hgp (List.mem_of_getElem? hget)
  have hcount := hhgp.count
  have hnamed := hhgp.named
  rw [hpaths, List.length_cons] at hcount
  rw [hpaths, List.forall_mem_cons] at hnamed
  refine ⟨h.hosts.trans (List.length_set ..).symm, h.advance.next, fun g hg => ?_⟩
  rcases List.mem_or_eq_of_mem_set hg with hg | rfl
  · exact h.groups g hg
  · refine ⟨?_, hnamed.2⟩
    dsimp only
    omega

theorem members_take (hget : agp.hostGroups[agp.nextHostIndex]? = some hgp)
    (hpaths : hgp.paths = pp :: paths) : agp.members.Perm ([pp] ++ (agp.take hgp paths).members) := by
  refine flatMap_set_perm (f := fun hgp : HostGroup => hgp.paths) hget ?_
  rw [hpaths]
  exact List.Perm.refl _

theorem sound_set {agp' : AdapterGroup} (hsound : ∀ a ∈ adapters, a.Sound) (h : agp'.Sound) :
    ∀ a ∈ adapters.set next agp', a.Sound := by
  intro a ha
  rcases List.mem_or_eq_of_mem_set ha with ha | rfl
  · exact hsound a ha
  · exact h

/-- At an adapter whose next host has no paths. -/
theorem order_advance (hadapter : adapters[next]? = some agp)
    (hhost : agp.hostGroups[agp.nextHostIndex]? = some hgp) (hempty : hgp.numPaths = 0) :
    orderPathsInPgByAltAdapters (fuel + 1) pgPaths adapters (total + 1) next =
      orderPathsInPgByAltAdapters fuel pgPaths (adapters.set next agp.advance) (total + 1)
        ((next + 1) % adapters.length) := by
  rw [orderPathsInPgByAltAdapters, hadapter]
  dsimp only
  rw [hhost]
  dsimp only
  rw [if_pos hempty]
  rfl

/-- At an adapter whose next host has a path. -/
theorem order_take (hadapter : adapters[next]? = some agp)
    (hhost : agp.hostGroups[agp.nextHostIndex]? = some hgp) (hnum : hgp.numPaths ≠ 0)
    (hpaths : hgp.paths = pp :: paths) (hname : HasName pp) :
    orderPathsInPgByAltAdapters (fuel + 1) pgPaths adapters (total + 1) next =
      orderPathsInPgByAltAdapters fuel (pgPaths ++ [pp]) (adapters.set next (agp.take hgp paths))
        total ((next + 1) % adapters.length) := by
  rw [orderPathsInPgByAltAdapters, hadapter]
  dsimp only
  rw [hhost]
  dsimp only
  rw [if_neg hnum, hpaths]
  dsimp only
  rw [storeSgPath_of_hasName hname]
  rfl

/-- The loop ends with code 0, however many turns it may take, and puts all paths back. -/
def Completes (pgPaths : List SgPath) (adapters : List AdapterGroup) (total next : ℕ) : Prop :=
  ∃ out n, (∀ fuel, n ≤ fuel →
    orderPathsInPgByAltAdapters fuel pgPaths adapters total next = .done (0, out)) ∧
    out.Perm (pgPaths ++ grouped adapters)

/-- What holds between the turns. -/
structure Ordered (adapters : List AdapterGroup) (total next : ℕ) : Prop where
  sound : ∀ a ∈ adapters, a.Sound
  left : total = (grouped adapters).length
  cursor : total ≠ 0 → next < adapters.length

theorem Ordered.advance (h : Ordered adapters (total + 1) next)
    (hadapter : adapters[next]? = some agp) :
    Ordered (adapters.set next agp.advance) (total + 1) ((next + 1) % adapters.length) ∧
      (grouped adapters).Perm (grouped (adapters.set next agp.advance)) := by
  have hperm : (grouped adapters).Perm ([] ++ grouped (adapters.set next agp.advance)) :=
    flatMap_set_perm hadapter (List.Perm.refl _)
  have hlt := h.cursor (Nat.succ_ne_zero total)
  refine ⟨⟨sound_set h.sound (h.sound agp (List.mem_of_getElem? hadapter)).advance, ?_, ?_⟩, hperm⟩
  · exact h.left.trans hperm.length_eq
  · intro _
    rw [List.length_set]
    exact Nat.mod_lt _ (Nat.zero_lt_of_lt hlt)

theorem Ordered.take (h : Ordered adapters (total + 1) next)
    (hadapter : adapters[next]? = some agp)
    (hhost : agp.hostGroups[agp.nextHostIndex]? = some hgp) (hpaths : hgp.paths = pp :: paths) :
    Ordered (adapters.set next (agp.take hgp paths)) total ((next + 1) % adapters.length) ∧
      (grouped adapters).Perm (pp :: grouped (adapters.set next (agp.take hgp paths))) := by
  have hperm : (grouped adapters).Perm
      ([pp] ++ grouped (adapters.set next (agp.take hgp paths))) :=
    flatMap_set_perm hadapter (members_take hhost hpaths)
  have hlt := h.cursor (Nat.succ_ne_zero total)
  have hagp := h.sound agp (List.mem_of_getElem? hadapter)
  refine ⟨⟨sound_set h.sound (hagp.take hhost hpaths), ?_, ?_⟩, hperm⟩
  · have hlength := hperm.length_eq
    rw [← h.left, List.length_append, List.length_singleton] at hlength
    omega
  · intro _
    rw [List.length_set]
    exact Nat.mod_lt _ (Nat.zero_lt_of_lt hlt)

/-- Some host of some adapter has a path as long as paths are left. -/
theorem Ordered.exists_host (h : Ordered adapters (total + 1) next) :
    ∃ (k : ℕ) (a : AdapterGroup) (i : ℕ) (g : HostGroup), adapters[k]? = some a ∧
      a.hostGroups[i]? = some g ∧ g.paths ≠ [] := by
  have hne : grouped adapters ≠ [] := by
    intro hnil
    have htotal := h.left
    rw [hnil] at htotal
    cases htotal
  obtain ⟨pp, hpp⟩ := List.exists_mem_of_ne_nil _ hne
  obtain ⟨a, ha, hpp⟩ := List.mem_flatMap.mp hpp
  obtain ⟨g, hg, hpp⟩ := List.mem_flatMap.mp hpp
  obtain ⟨k, hk⟩ := List.getElem?_of_mem ha
  obtain ⟨i, hi⟩ := List.getElem?_of_mem hg
  exact ⟨k, a, i, g, hk, hi, List.ne_nil_of_mem hpp⟩

/-- The cursors come to a host that has a path: each turn that takes none brings them nearer. -/
theorem completes_of_host (ih : ∀ {pgPaths adapters next}, Ordered adapters total next →
      Completes pgPaths adapters total next)
    {k i : ℕ} {a : AdapterGroup} {g : HostGroup} (hk : adapters[k]? = some a)
    (hi : a.hostGroups[i]? = some g) (hg : g.paths ≠ []) (h : Ordered adapters (total + 1) next) :
    Completes pgPaths adapters (total + 1) next := by
  induction hd : stepsToBoth adapters.length k a.hostGroups.length i next a.nextHostIndex
    using Nat.strongRecOn generalizing adapters next a with
  | ind d near =>
    have hlt := h.cursor (Nat.succ_ne_zero total)
    have hadapter := List.getElem?_eq_getElem hlt
    have hagp := h.sound _ (List.mem_of_getElem? hadapter)
    generalize adapters[next] = agp at hadapter hagp
    have hhostlt : agp.nextHostIndex < agp.hostGroups.length := hagp.hosts ▸ hagp.next
    have hhost := List.getElem?_eq_getElem hhostlt
    have hhgp := hagp.groups _ (List.mem_of_getElem? hhost)
    generalize agp.hostGroups[agp.nextHostIndex] = hgp at hhost hhgp
    cases hpaths : hgp.paths with
    | nil =>
      have hempty : hgp.numPaths = 0 := by rw [hhgp.count, hpaths, List.length_nil]
      obtain ⟨hordered, hperm⟩ := h.advance hadapter
      have hcompletes : Completes pgPaths (adapters.set next agp.advance) (total + 1)
          ((next + 1) % adapters.length) := by
        have hklt : k < adapters.length := (List.getElem?_eq_some_iff.mp hk).1
        by_cases hne : next = k
        · subst hne
          obtain rfl : agp = a := Option.some.inj (hadapter.symm.trans hk)
          have hilt : i < agp.hostGroups.length := (List.getElem?_eq_some_iff.mp hi).1
          have hother : agp.nextHostIndex ≠ i := by
            rintro rfl
            obtain rfl : hgp = g := Option.some.inj (hhost.symm.trans hi)
            exact hg hpaths
          have hnearer := stepsToBoth_there hklt hilt hhostlt hother
          rw [hd] at hnearer
          refine near _ ?_ (List.getElem?_set_self hlt) hi hordered rfl
          rw [List.length_set]
          show stepsToBoth _ _ _ _ _ ((agp.nextHostIndex + 1) % agp.numHosts) < d
          rw [hagp.hosts]
          exact hnearer
        · have hnearer := stepsToBoth_elsewhere (m := a.hostGroups.length) (h := i)
            (j := a.nextHostIndex) hklt hlt hne
          rw [hd] at hnearer
          have hget : (adapters.set next agp.advance)[k]? = some a := by
            rw [List.getElem?_set_ne hne, hk]
          refine near _ ?_ hget hi hordered rfl
          rw [List.length_set]
          exact hnearer
      obtain ⟨out, n, hdone, hout⟩ := hcompletes
      refine ⟨out, n + 1, fun fuel hfuel => ?_, hout.trans (hperm.symm.append_left pgPaths)⟩
      obtain ⟨fuel, rfl⟩ := Nat.exists_eq_add_of_le' (Nat.le_trans (Nat.le_add_left 1 n) hfuel)
      rw [order_advance hadapter hhost hempty]
      exact hdone fuel (by omega)
    | cons pp paths =>
      have hnum : hgp.numPaths ≠ 0 := by
        rw [hhgp.count, hpaths]
        exact Nat.succ_ne_zero _
      have hname : HasName pp := hhgp.named pp (hpaths ▸ List.mem_cons_self ..)
      obtain ⟨hordered, hperm⟩ := h.take hadapter hhost hpaths
      obtain ⟨out, n, hdone, hout⟩ := @ih (pgPaths ++ [pp]) _ _ hordered
      refine ⟨out, n + 1, fun fuel hfuel => ?_, hout.trans ?_⟩
      · obtain ⟨fuel, rfl⟩ := Nat.exists_eq_add_of_le' (Nat.le_trans (Nat.le_add_left 1 n) hfuel)
        rw [order_take hadapter hhost hnum hpaths hname]
        exact hdone fuel (by omega)
      · rw [List.append_assoc]
        exact hperm.symm.append_left pgPaths

theorem completes_of_ordered (h : Ordered adapters total next) :
    Completes pgPaths adapters total next := by
  induction total generalizing adapters next pgPaths with
  | zero =>
    refine ⟨pgPaths, 0, fun fuel _ => by cases fuel <;> rfl, ?_⟩
    rw [List.eq_nil_of_length_eq_zero h.left.symm, List.append_nil]
  | succ total ih =>
    obtain ⟨k, a, i, g, hk, hi, hg⟩ := h.exists_host
    exact completes_of_host ih hk hi hg h

end Ordering

/-- The function ends with code 0, and the path group has the paths that it had. -/
theorem rrOptimizePathOrder_kept (sysfs : SysfsHosts) (paths : List SgPath) :
    ∃ out n, (∀ fuel, n ≤ fuel → rrOptimizePathOrder sysfs fuel paths = .done (0, out)) ∧
      out.Perm paths := by
  unfold rrOptimizePathOrder
  split_ifs with hproto
  · exact ⟨paths, 0, fun _ _ => rfl, List.Perm.refl _⟩
  · rcases groupByHostAdapter_kept sysfs paths with ⟨hrc, hperm⟩ | ⟨hrc, hempty, hsound, hperm⟩
    · refine ⟨_, 0, fun fuel _ => ?_, hperm⟩
      dsimp only
      rw [hrc]
      rfl
    · have hordered : Ordered (groupByHostAdapter sysfs paths).2.2 paths.length 0 := by
        refine ⟨hsound, hperm.length_eq.symm, fun hne => ?_⟩
        rw [← hperm.length_eq] at hne
        refine List.length_pos_of_ne_nil fun hnil => hne ?_
        rw [hnil]
        rfl
      obtain ⟨out, n, hdone, hout⟩ := @completes_of_ordered _ [] _ _ hordered
      refine ⟨out, n, fun fuel hfuel => ?_, hout.trans hperm⟩
      dsimp only
      rw [hrc, hempty, if_neg (by decide), hdone fuel hfuel]
      rfl

end MultipathTools.Configure
