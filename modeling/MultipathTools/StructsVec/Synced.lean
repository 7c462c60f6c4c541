import Mathlib.Data.List.Nodup
import MultipathTools.StructsVec.SyncPaths

/-! What `sync_paths` leaves: the members of the map are paths of its groups, each once, and nothing
that has been freed is still referenced. -/
namespace MultipathTools.StructsVec

variable {mpp : ℕ} {pg : Option (List PgObj)} {s : Heap} {a : BitVec 64}

theorem groups_any_iff : ((pg.getD []).any fun pgp => findSlot (pgp.paths.getD []) a) = true ↔
    a ∈ slotsOfGroups pg := by
  simp [findSlot, slotsOfGroups]

theorem findPathByDevt_eq_none {v : List (BitVec 64)} {devT : CStr} :
    s.findPathByDevt v devT = none ↔ ∀ b ∈ v, (s.path b).devT ≠ devT := by
  simp [Heap.findPathByDevt]

theorem findDevtInPathgroups_eq_none {devT : CStr} :
    s.findDevtInPathgroups pg devT = none ↔ ∀ b ∈ slotsOfGroups pg, (s.path b).devT ≠ devT := by
  simp only [Heap.findDevtInPathgroups, List.findSome?_eq_none_iff, findPathByDevt_eq_none, slotsOfGroups,
    List.mem_flatMap]
  constructor
  · rintro h b ⟨pgp, hpgp, hb⟩
    exact h pgp hpgp b hb
  · intro h pgp hpgp b hb
    exact h b ⟨pgp, hpgp, hb⟩

/-- What is left of a path that has been orphaned. -/
def orphaned (pp : PathRec) : PathRec := uninitializePath { pp with mpp := none }

theorem orphaned_orphaned (pp : PathRec) : orphaned (orphaned pp) = orphaned pp := by
  simp only [orphaned, uninitializePath]
  congr 1
  split_ifs <;> rfl

@[simp] theorem orphaned_devT (pp : PathRec) : (orphaned pp).devT = pp.devT := rfl
@[simp] theorem orphaned_dev (pp : PathRec) : (orphaned pp).dev = pp.dev := rfl
@[simp] theorem orphaned_initialized (pp : PathRec) :
    (orphaned pp).initialized = pp.initialized := rfl

theorem dropMember_kept (h : a ∈ slotsOfGroups pg) : dropMember mpp pg s a = (s, some a) :=
  if_pos (groups_any_iff.mpr h)

/-- A member that is in no group is orphaned, and nothing else happens to a path. -/
theorem dropMember_dropped (h : a ∉ slotsOfGroups pg) : ∃ s', dropMember mpp pg s a = (s', none) ∧
    s'.path = Function.update s.path a (orphaned (s.path a)) ∧ s'.pathvec = s.pathvec ∧
    s'.freed = s.freed := by
  refine ⟨_, if_neg (mt groups_any_iff.mp h), ?_⟩
  split_ifs <;> exact ⟨rfl, rfl, rfl⟩

/-- The loop over the members. -/
structure Dropped (pg : Option (List PgObj)) (old : List (BitVec 64)) (s s' : Heap) : Prop where
  path : ∀ a, s'.path a = if a ∈ old ∧ a ∉ slotsOfGroups pg then orphaned (s.path a) else s.path a
  pathvec : s'.pathvec = s.pathvec
  freed : s'.freed = s.freed

theorem sweep_dropMember (mpp : ℕ) (pg : Option (List PgObj)) (old : List (BitVec 64)) (s : Heap) :
    Dropped pg old s (sweep (dropMember mpp pg) old s).1 ∧
      (sweep (dropMember mpp pg) old s).2 = old.filter (· ∈ slotsOfGroups pg) := by
  induction old generalizing s with
  | nil => exact ⟨⟨fun a => by simp [sweep], rfl, rfl⟩, rfl⟩
  | cons b old ih =>
    rw [sweep]
    by_cases hb : b ∈ slotsOfGroups pg
    · obtain ⟨hdropped, hkept⟩ := ih s
      rw [dropMember_kept hb]
      refine ⟨⟨fun a => ?_, hdropped.pathvec, hdropped.freed⟩, ?_⟩
      · rw [hdropped.path]
        by_cases hab : a = b
        · subst hab
          simp [hb]
        · simp [hab]
      · rw [hkept, List.filter_cons_of_pos (by simpa using hb)]
        rfl
    · obtain ⟨s', hs', hpath, hpathvec, hfreed⟩ := @dropMember_dropped mpp pg s b hb
      obtain ⟨hdropped, hkept⟩ := ih s'
      rw [hs']
      refine ⟨⟨fun a => ?_, hdropped.pathvec.trans hpathvec, hdropped.freed.trans hfreed⟩, ?_⟩
      · rw [hdropped.path, hpath]
        by_cases hab : a = b
        · subst hab
          rw [Function.update_self, orphaned_orphaned]
          simp [hb]
        · rw [Function.update_of_ne hab]
          simp [hab]
      · rw [hkept, List.filter_cons_of_neg (by simpa using hb)]
        rfl

/-- The loop over the path vector frees paths that no group has. -/
theorem sweep_checkRemovedPath (mpp : ℕ) (pg : Option (List PgObj)) (v : List (BitVec 64))
    (s : Heap) :
    ∃ freed, (sweep (checkRemovedPath mpp pg) v s).1 = { s with freed := freed ++ s.freed } ∧
      (∀ a ∈ freed, a ∉ slotsOfGroups pg) ∧
      (∀ a ∈ (sweep (checkRemovedPath mpp pg) v s).2, a ∈ v) ∧
      ∀ a ∈ v, (s.path a).initialized ≠ .removed → a ∈ (sweep (checkRemovedPath mpp pg) v s).2 := by
  induction v generalizing s with
  | nil =>
    exact ⟨[], rfl, List.forall_mem_nil _, List.forall_mem_nil _, List.forall_mem_nil _⟩
  | cons b v ih =>
    by_cases hkeep : checkRemovedPath mpp pg s b = (s, some b)
    · obtain ⟨freed, hs, hfreed, hsub, hv⟩ := ih s
      rw [sweep, hkeep]
      refine ⟨freed, hs, hfreed, ?_, ?_⟩
      · intro a ha
        obtain ha | ha := List.mem_append.mp ha
        · rw [Option.some.inj (Option.mem_toList.mp ha)]
          exact List.mem_cons_self
        · exact List.mem_cons_of_mem b (hsub a ha)
      · intro a ha hinit
        obtain rfl | ha := List.mem_cons.mp ha
        · exact List.mem_append_left _ (by simp)
        · exact List.mem_append_right _ (hv a ha hinit)
    · have hfree : (s.path b).initialized = .removed ∧
          checkRemovedPath mpp pg s b = ({ s with freed := b :: s.freed }, none) ∧
          b ∉ slotsOfGroups pg := by
        unfold checkRemovedPath at hkeep ⊢
        dsimp only at hkeep ⊢
        split_ifs at hkeep ⊢ with hother hgroup
        · exact absurd rfl hkeep
        · refine ⟨not_not.mp (not_or.mp hother).1, rfl, fun hb => ?_⟩
          exact findDevtInPathgroups_eq_none.mp hgroup b hb rfl
        · exact absurd rfl hkeep
      obtain ⟨hinit, heq, hgroup⟩ := hfree
      obtain ⟨freed, hs, hfreed, hsub, hv⟩ := ih { s with freed := b :: s.freed }
      rw [sweep, heq]
      refine ⟨freed ++ [b], ?_, ?_, fun a ha => List.mem_cons_of_mem b (hsub a ha), ?_⟩
      · rw [hs]
        simp
      · intro a ha
        obtain ha | ha := List.mem_append.mp ha
        · exact hfreed a ha
        · rw [List.mem_singleton.mp ha]
          exact hgroup
      · intro a ha hne
        obtain rfl | ha := List.mem_cons.mp ha
        · exact absurd hinit hne
        · exact List.mem_append_right _ (hv a ha hne)

/-- The members while paths of the groups are added: no number is there twice, and all members are
in a group. -/
structure Members (s : Heap) (groups paths : List (BitVec 64)) : Prop where
  nodup : (paths.map fun a => (s.path a).devT).Nodup
  group : ∀ a ∈ paths, a ∈ groups

section AddMember

variable {groups paths : List (BitVec 64)}

theorem addMember_mem {b : BitVec 64} (h : b ∈ paths) : b ∈ s.addMember paths a := by
  unfold Heap.addMember Heap.storePath
  dsimp only
  split_ifs
  · exact h
  · exact List.mem_append_left _ h
  · exact h
  · exact h

theorem Members.addMember (h : Members s groups paths) (ha : a ∈ groups) :
    Members s groups (s.addMember paths a) := by
  unfold Heap.addMember Heap.storePath
  dsimp only
  split_ifs with hnew _ _
  · exact h
  · have hother := findPathByDevt_eq_none.mp hnew
    constructor
    · rw [List.map_append, List.map_singleton, ← List.concat_eq_append]
      refine List.Nodup.concat ?_ h.nodup
      intro hmem
      obtain ⟨b, hb, hdevt⟩ := List.mem_map.mp hmem
      exact hother b hb hdevt
    · intro b hb
      obtain hb | hb := List.mem_append.mp hb
      · exact h.group b hb
      · rw [List.mem_singleton.mp hb]
        exact ha
  · exact h
  · exact h

/-- A path of the groups is a member then, if the path vector has it and it is not removed. -/
theorem Members.addMember_self (h : Members s groups paths)
    (hone : ∀ b ∈ groups, (s.path b).devT = (s.path a).devT → b = a) (hvec : a ∈ s.pathvec)
    (hinit : (s.path a).initialized ≠ .removed)
    (hstored : (s.path a).devT ≠ [] ∨ (s.path a).dev ≠ []) : a ∈ s.addMember paths a := by
  have hfound : s.findPathByDevt s.pathvec (s.path a).devT ≠ none := fun hnone =>
    findPathByDevt_eq_none.mp hnone a hvec rfl
  unfold Heap.addMember Heap.storePath
  dsimp only
  by_cases hnew : s.findPathByDevt paths (s.path a).devT = none
  · rw [if_pos hnew, if_pos ⟨hfound, hinit⟩, if_neg fun hempty => ?_]
    · simp
    · exact hstored.elim (fun hne => hne hempty.1) fun hne => hne hempty.2
  · rw [if_neg hnew]
    obtain ⟨b, hb, hdevt⟩ : ∃ b ∈ paths, (s.path b).devT = (s.path a).devT := by
      simpa [findPathByDevt_eq_none] using hnew
    rwa [← hone b (h.group b hb) hdevt]

/-- The loop over the paths of the groups. -/
theorem foldl_addMember (h : Members s groups paths)
    (hone : ∀ a ∈ groups, ∀ b ∈ groups, (s.path b).devT = (s.path a).devT → b = a)
    (hstored : ∀ a ∈ s.pathvec, (s.path a).devT ≠ [] ∨ (s.path a).dev ≠ [])
    {todo : List (BitVec 64)} (htodo : ∀ a ∈ todo, a ∈ groups) :
    Members s groups (todo.foldl s.addMember paths) ∧
      (∀ a ∈ paths, a ∈ todo.foldl s.addMember paths) ∧
      ∀ a ∈ todo, a ∈ s.pathvec → (s.path a).initialized ≠ .removed →
        a ∈ todo.foldl s.addMember paths := by
  induction todo generalizing paths with
  | nil => exact ⟨h, fun _ ha => ha, List.forall_mem_nil _⟩
  | cons b todo ih =>
    obtain ⟨hb, htodo⟩ := List.forall_mem_cons.mp htodo
    obtain ⟨hmembers, hmono, hadded⟩ := ih (h.addMember hb) htodo
    rw [List.foldl_cons]
    refine ⟨hmembers, fun a ha => hmono a (addMember_mem ha), ?_⟩
    intro a ha hvec hinit
    obtain rfl | ha := List.mem_cons.mp ha
    · exact hmono a (h.addMember_self (hone a hb) hvec hinit (hstored a hvec))
    · exact hadded a ha hvec hinit

end AddMember

/-- The loop that sets the owner of the members. -/
theorem foldl_setOwner (mpp : ℕ) (paths : List (BitVec 64)) (s : Heap) :
    (∀ a, (paths.foldl (setOwner mpp) s).path a =
      if a ∈ paths then { s.path a with mpp := some mpp } else s.path a) ∧
      (paths.foldl (setOwner mpp) s).freed = s.freed := by
  induction paths generalizing s with
  | nil => exact ⟨fun a => rfl, rfl⟩
  | cons b paths ih =>
    obtain ⟨hpath, hfreed⟩ := ih (setOwner mpp s b)
    rw [List.foldl_cons]
    refine ⟨fun a => ?_, hfreed⟩
    rw [hpath]
    by_cases hab : a = b
    · subst hab
      simp [setOwner]
    · simp [setOwner, hab]

theorem extractHweFromPath_path (mpp : ℕ) (s : Heap) (paths : Option (List (BitVec 64))) :
    (extractHweFromPath mpp s paths).path = s.path ∧
      (extractHweFromPath mpp s paths).freed = s.freed := by
  unfold extractHweFromPath
  split
  · exact ⟨rfl, rfl⟩
  · split_ifs
    · exact ⟨rfl, rfl⟩
    · split
      · exact ⟨rfl, rfl⟩
      · split <;> exact ⟨rfl, rfl⟩

theorem updateMppPaths_getD (pg : Option (List PgObj)) (s : Heap)
    (paths : Option (List (BitVec 64))) :
    (updateMppPaths pg s paths).getD [] = (slotsOfGroups pg).foldl s.addMember (paths.getD []) := by
  cases pg with
  | none => rfl
  | some pg =>
    rw [slotsOfGroups, List.foldl_flatMap]
    rfl

/-- The steps of `sync_paths`: the members that it leaves, and the paths. -/
theorem syncPaths_eq (mpp : ℕ) (pg : Option (List PgObj)) (paths : Option (List (BitVec 64)))
    (s : Heap) :
    let s₁ := (sweep (dropMember mpp pg) (paths.getD []) s).1
    let s₂ := checkRemovedPaths mpp pg s₁
    let members := (slotsOfGroups pg).foldl s₂.addMember ((paths.getD []).filter (· ∈ slotsOfGroups pg))
    (syncPaths mpp pg paths s).2.getD [] = members ∧
      (syncPaths mpp pg paths s).1.path = (members.foldl (setOwner mpp) s₂).path ∧
      (syncPaths mpp pg paths s).1.freed = (members.foldl (setOwner mpp) s₂).freed := by
  intro s₁ s₂ members
  have hold : (paths.map fun _ => (paths.getD []).filter (· ∈ slotsOfGroups pg)).getD [] =
      (paths.getD []).filter (· ∈ slotsOfGroups pg) := by
    cases paths <;> rfl
  have hmembers : (updateMppPaths pg s₂
      (paths.map fun _ => (paths.getD []).filter (· ∈ slotsOfGroups pg))).getD [] = members := by
    rw [updateMppPaths_getD, hold]
  unfold syncPaths
  rw [foreachSlot_eq]
  dsimp only
  rw [(sweep_dropMember mpp pg (paths.getD []) s).2, hmembers]
  refine ⟨rfl, ?_⟩
  split_ifs
  · exact extractHweFromPath_path mpp _ _
  · exact ⟨rfl, rfl⟩

/-- What `check_removed_paths` leaves of the path vector. -/
structure Checked (pg : Option (List PgObj)) (s s' : Heap) : Prop where
  path : s'.path = s.path
  freed : ∃ freed, s'.freed = freed ++ s.freed ∧ ∀ a ∈ freed, a ∉ slotsOfGroups pg
  pathvec : ∀ a ∈ s'.pathvec, a ∈ s.pathvec
  kept : ∀ a ∈ s.pathvec, (s.path a).initialized ≠ .removed → a ∈ s'.pathvec

theorem checkRemovedPaths_checked (mpp : ℕ) (pg : Option (List PgObj)) (s : Heap) :
    Checked pg s (checkRemovedPaths mpp pg s) := by
  obtain ⟨freed, hs, hfreed, hsub, hv⟩ := sweep_checkRemovedPath mpp pg s.pathvec s
  unfold checkRemovedPaths
  rw [foreachSlot_eq]
  dsimp only
  constructor
  · rw [hs]
  · exact ⟨freed, by rw [hs], hfreed⟩
  · exact hsub
  · exact hv

/-- There is one path object for each device number in the groups of the map, and one member for
each. -/
structure OnePerDevt (s : Heap) (pg : Option (List PgObj)) (paths : List (BitVec 64)) : Prop where
  groups : ∀ a ∈ slotsOfGroups pg, ∀ b ∈ slotsOfGroups pg, (s.path b).devT = (s.path a).devT → b = a
  members : (paths.map fun a => (s.path a).devT).Nodup

/-- How `sync_paths` leaves the members of a map; `old` are those before. -/
structure Synced (mpp : ℕ) (pg : Option (List PgObj)) (old : List (BitVec 64)) (s s' : Heap)
    (paths : List (BitVec 64)) : Prop where
  nodup : paths.Nodup
  group : ∀ a ∈ paths, a ∈ slotsOfGroups pg
  complete : ∀ a ∈ slotsOfGroups pg, a ∈ s.pathvec → (s.path a).initialized ≠ .removed → a ∈ paths
  owner : ∀ a ∈ paths, (s'.path a).mpp = some mpp
  orphaned : ∀ a ∈ old, a ∉ slotsOfGroups pg → s'.path a = orphaned (s.path a)
  freed : ∃ freed, s'.freed = freed ++ s.freed ∧ ∀ a ∈ freed, a ∉ paths ∧ a ∉ slotsOfGroups pg

/-- `sync_paths` for paths of the path vector that `store_path` accepts. -/
theorem syncPaths_synced (mpp : ℕ) (pg : Option (List PgObj)) (paths : Option (List (BitVec 64)))
    (s : Heap) (hone : OnePerDevt s pg (paths.getD []))
    (hstored : ∀ a ∈ s.pathvec, (s.path a).devT ≠ [] ∨ (s.path a).dev ≠ []) :
    Synced mpp pg (paths.getD []) s (syncPaths mpp pg paths s).1
      ((syncPaths mpp pg paths s).2.getD []) := by
  obtain ⟨hmem, hpath, hfreed⟩ := syncPaths_eq mpp pg paths s
  have hdropped := (sweep_dropMember mpp pg (paths.getD []) s).1
  generalize (sweep (dropMember mpp pg) (paths.getD []) s).1 = s₁ at hdropped hmem hpath hfreed
  have hchecked := checkRemovedPaths_checked mpp pg s₁
  generalize checkRemovedPaths mpp pg s₁ = s₂ at hchecked hmem hpath hfreed
  have hsame : ∀ a, (s₂.path a).devT = (s.path a).devT ∧ (s₂.path a).dev = (s.path a).dev ∧
      (s₂.path a).initialized = (s.path a).initialized := by
    intro a
    rw [hchecked.path, hdropped.path]
    split_ifs <;> exact ⟨rfl, rfl, rfl⟩
  have hstart : Members s₂ (slotsOfGroups pg) ((paths.getD []).filter (· ∈ slotsOfGroups pg)) := by
    constructor
    · have hdevt : (fun a => (s₂.path a).devT) = fun a => (s.path a).devT :=
        funext fun a => (hsame a).1
      rw [hdevt]
      exact hone.members.sublist (List.filter_sublist.map _)
    · intro a ha
      simpa using (List.mem_filter.mp ha).2
  obtain ⟨hmembers, -, hadded⟩ := foldl_addMember hstart
    (fun a ha b hb hdevt => hone.groups a ha b hb (by rwa [(hsame a).1, (hsame b).1] at hdevt))
    (fun a ha => by
      rw [(hsame a).1, (hsame a).2.1]
      exact hstored a (hdropped.pathvec ▸ hchecked.pathvec a ha))
    (fun a ha => ha)
  rw [hmem]
  generalize (slotsOfGroups pg).foldl s₂.addMember _ = members at hmembers hadded hpath hfreed
  obtain ⟨howner, hkeeps⟩ := foldl_setOwner mpp members s₂
  have hmembersGroup := hmembers.group
  constructor
  · exact hmembers.nodup.of_map _
  · exact hmembersGroup
  · intro a ha hvec hinit
    refine hadded a ha (hchecked.kept a ?_ ?_) ?_
    · rw [hdropped.pathvec]
      exact hvec
    · rwa [← hchecked.path, (hsame a).2.2]
    · rwa [(hsame a).2.2]
  · intro a ha
    rw [hpath, howner, if_pos ha]
  · intro a ha hgroup
    rw [hpath, howner, if_neg fun hm => hgroup (hmembersGroup a hm), hchecked.path, hdropped.path,
      if_pos ⟨ha, hgroup⟩]
  · obtain ⟨freed, hnew, hout⟩ := hchecked.freed
    refine ⟨freed, ?_, fun a ha => ⟨fun hm => hout a ha (hmembersGroup a hm), hout a ha⟩⟩
    rw [hfreed, hkeeps, hnew, hdropped.freed]

/-- Two members, of which the map has one in its group. -/
def twoPaths : Heap where
  path a := { devT := if a = 5 then ['5'] else ['7'], mpp := some 1 }
  hwe _ := none
  pathvec := [5, 7]

def oneGroup : Option (List PgObj) := some [{ paths := some [5] }]

theorem syncPaths_synced_two : Synced 1 oneGroup ((some [5, 7]).getD []) twoPaths
    (syncPaths 1 oneGroup (some [5, 7]) twoPaths).1
    ((syncPaths 1 oneGroup (some [5, 7]) twoPaths).2.getD []) := by
  refine syncPaths_synced 1 oneGroup (some [5, 7]) twoPaths ⟨?_, ?_⟩ ?_
  · have hgroup : slotsOfGroups oneGroup = [5] := rfl
    intro a ha b hb _
    rw [hgroup, List.mem_singleton] at ha hb
    rw [ha, hb]
  · have hmap : (([5, 7] : List (BitVec 64)).map fun a => (twoPaths.path a).devT) = [['5'], ['7']] := by
      decide
    show (([5, 7] : List (BitVec 64)).map fun a => (twoPaths.path a).devT).Nodup
    rw [hmap]
    decide
  · intro a _
    refine .inl ?_
    show (if a = 5 then ['5'] else ['7']) ≠ []
    split_ifs <;> decide

end MultipathTools.StructsVec
