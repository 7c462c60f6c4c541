import MultipathTools.Configure.SelectAction
import Mathlib.Data.Finset.Dedup

/-! When a map that `select_action` leaves alone is the one that the kernel has. -/
namespace MultipathTools.Configure

open MultipathTools.Features MultipathTools.Dmparser

/-- The paths of a group, as a set. -/
def pathSet (pgp : Pathgroup) : Finset (BitVec 64) := (pgp.paths.map Path.addr).toFinset

/-- The path group with a number, counted from 1 as the kernel does. -/
def pathgroupAt (pg : List Pathgroup) (n : ℤ) : Option Pathgroup :=
  if 0 < n then pg[(n - 1).toNat]? else none

/-- The kernel's map has the groups of the new one, in its order, and uses its best group next. -/
structure Intended (mpp cmpp : Multipath) : Prop where
  groups : (mpp.pg.getD []).map pathSet = (cmpp.pg.getD []).map pathSet
  next : (pathgroupAt (mpp.pg.getD []) mpp.bestpg).map pathSet =
    (pathgroupAt (cmpp.pg.getD []) cmpp.nextpg).map pathSet

/-- Everything that `select_action` compares is the same; for the path groups this is that each
group of the new map has some group of the kernel with the same id and all of its paths. -/
structure Unchanged (env : ActionEnv) (mpp cmpp : Multipath) : Prop where
  size : cmpp.size = mpp.size
  settings : settingsDiffer env mpp cmpp = false
  known : env.isMppKnownToUdev cmpp = true
  nextpg : cmpp.nextpg = mpp.bestpg
  pg : cmpp.pg ≠ none
  pgNumber : (cmpp.pg.getD []).length = (mpp.pg.getD []).length
  pgMatch : ∀ pgp ∈ mpp.pg.getD [], ∃ cpgp ∈ cmpp.pg.getD [],
    (computePgid pgp).id = cpgp.id ∧ pathcmp pgp cpgp = 0

/-- The groups at each position hold each other's paths. -/
def InPlace (mpp cmpp : Multipath) : Prop :=
  List.Forall₂ (fun pgp cpgp => pathcmp pgp cpgp = 0 ∧ pathcmp cpgp pgp = 0) (mpp.pg.getD [])
    (cmpp.pg.getD [])

theorem pathcmp_eq_zero_iff {pgp cpgp : Pathgroup} :
    pathcmp pgp cpgp = 0 ↔ pathSet pgp ⊆ pathSet cpgp := by
  have hle := List.countP_le_length (p := fun pp : Path =>
    cpgp.paths.any fun cpp => pp.addr = cpp.addr) (l := pgp.paths)
  have hiff : pathcmp pgp cpgp = 0 ↔ pgp.paths.countP (fun pp : Path =>
      cpgp.paths.any fun cpp => pp.addr = cpp.addr) = pgp.paths.length := by
    unfold pathcmp
    omega
  rw [hiff, List.countP_eq_length]
  simp only [Finset.subset_iff, pathSet, List.mem_toFinset, List.mem_map, List.any_eq_true,
    decide_eq_true_eq]
  constructor
  · rintro h addr ⟨pp, hpp, rfl⟩
    obtain ⟨cpp, hcpp, haddr⟩ := h pp hpp
    exact ⟨cpp, hcpp, haddr.symm⟩
  · intro h pp hpp
    obtain ⟨cpp, hcpp, haddr⟩ := h ⟨pp, hpp, rfl⟩
    exact ⟨cpp, hcpp, haddr.symm⟩

theorem pathSet_eq_iff {pgp cpgp : Pathgroup} :
    pathSet pgp = pathSet cpgp ↔ pathcmp pgp cpgp = 0 ∧ pathcmp cpgp pgp = 0 := by
  rw [pathcmp_eq_zero_iff, pathcmp_eq_zero_iff, Finset.Subset.antisymm_iff]

/-- The search of one group ends with 0 exactly at a match, or at once without groups. -/
theorem pgcmpGroup_eq_zero_iff (pgp : Pathgroup) (cpg : List Pathgroup) (r : ℕ) :
    pgcmpGroup pgp cpg r = 0 ↔
      (∃ cpgp ∈ cpg, pgp.id = cpgp.id ∧ pathcmp pgp cpgp = 0) ∨ cpg = [] ∧ r = 0 := by
  induction cpg generalizing r with
  | nil => simp [pgcmpGroup]
  | cons cpgp cpg ih =>
    unfold pgcmpGroup
    split_ifs with h
    · simp [h]
    · rw [ih]
      simp [h]

theorem pgcmp_eq_zero_iff {cpg pg : List Pathgroup} (hne : cpg ≠ []) :
    (pgcmp cpg pg).1 = 0 ↔ ∀ pgp ∈ pg, ∃ cpgp ∈ cpg,
      (computePgid pgp).id = cpgp.id ∧ pathcmp pgp cpgp = 0 := by
  have hpaths : ∀ pgp cpgp, pathcmp (computePgid pgp) cpgp = pathcmp pgp cpgp := fun _ _ => rfl
  induction pg with
  | nil => simp [pgcmp]
  | cons pgp pg ih =>
    have hgroup := pgcmpGroup_eq_zero_iff (computePgid pgp) cpg 0
    simp only [hne, false_and, or_false, hpaths] at hgroup
    unfold pgcmp
    dsimp only
    by_cases h : pgcmpGroup (computePgid pgp) cpg 0 = 0
    · rw [if_neg (not_not.mpr h), List.forall_mem_cons]
      exact ih.trans (and_iff_right (hgroup.mp h)).symm
    · rw [if_pos h, List.forall_mem_cons]
      exact iff_of_false h fun hall => h (hgroup.mpr hall.1)

/-- `select_action` leaves the map alone exactly when all that it compares is the same. -/
theorem selectTableAction_eq_nothing_iff {env : ActionEnv} {mpp cmpp : Multipath} :
    (selectTableAction env mpp cmpp).action = .nothing ↔ Unchanged env mpp cmpp := by
  have hpgcmp : (cmpp.pg.getD []).length = (mpp.pg.getD []).length →
      ((pgcmp (cmpp.pg.getD []) (mpp.pg.getD [])).1 = 0 ↔ ∀ pgp ∈ mpp.pg.getD [],
        ∃ cpgp ∈ cmpp.pg.getD [], (computePgid pgp).id = cpgp.id ∧ pathcmp pgp cpgp = 0) := by
    intro hlen
    by_cases hne : cmpp.pg.getD [] = []
    · have hnil : mpp.pg.getD [] = [] := by
        rw [hne, List.length_nil] at hlen
        exact List.length_eq_zero_iff.mp hlen.symm
      simp [hnil, pgcmp]
    · exact pgcmp_eq_zero_iff hne
  unfold selectTableAction
  by_cases hsize : cmpp.size = mpp.size
  swap
  · rw [if_pos hsize]
    exact iff_of_false (by simp) fun h => hsize h.size
  rw [if_neg (not_not.mpr hsize)]
  by_cases hset : settingsDiffer env mpp cmpp = true
  · rw [if_pos hset]
    exact iff_of_false (by simp [selectReloadAction]) fun h => by simp [h.settings] at hset
  rw [if_neg hset]
  by_cases hpg : cmpp.pg = none ∨ (cmpp.pg.getD []).length ≠ (mpp.pg.getD []).length
  · rw [if_pos hpg]
    exact iff_of_false (by simp [selectReloadAction]) fun h => hpg.elim h.pg fun hn => hn h.pgNumber
  rw [if_neg hpg]
  obtain ⟨hpg, hnum⟩ := not_or.mp hpg
  rw [not_not] at hnum
  have hmatch := hpgcmp hnum
  dsimp only
  by_cases hcmp : (pgcmp (cmpp.pg.getD []) (mpp.pg.getD [])).1 = 0
  swap
  · rw [if_pos hcmp]
    exact iff_of_false (by simp [selectReloadAction]) fun h => hcmp (hmatch.mpr h.pgMatch)
  rw [if_neg (not_not.mpr hcmp)]
  by_cases hnext : cmpp.nextpg = mpp.bestpg
  swap
  · rw [if_pos hnext]
    exact iff_of_false (by simp) fun h => hnext h.nextpg
  rw [if_neg (not_not.mpr hnext)]
  cases hknown : env.isMppKnownToUdev cmpp with
  | false => exact iff_of_false (by simp) fun h => by simp [h.known] at hknown
  | true =>
    exact iff_of_true rfl
      ⟨hsize, Bool.eq_false_iff.mpr hset, hknown, hnext, hpg, hnum, hmatch.mp hcmp⟩

/-- Groups that hold each other's paths position by position are the same lists of sets. -/
theorem map_pathSet_eq_iff {pg cpg : List Pathgroup} :
    pg.map pathSet = cpg.map pathSet ↔
      List.Forall₂ (fun pgp cpgp => pathcmp pgp cpgp = 0 ∧ pathcmp cpgp pgp = 0) pg cpg := by
  simp_rw [← pathSet_eq_iff]
  induction pg generalizing cpg with
  | nil => cases cpg <;> simp
  | cons pgp pg ih => cases cpg <;> simp [ih]

theorem pathgroupAt_map (pg : List Pathgroup) (n : ℤ) :
    (pathgroupAt pg n).map pathSet = if 0 < n then (pg.map pathSet)[(n - 1).toNat]? else none := by
  unfold pathgroupAt
  split_ifs <;> simp

/-- With the same number as next group, equal lists of groups are all that can differ. -/
theorem intended_iff {mpp cmpp : Multipath} (hnext : cmpp.nextpg = mpp.bestpg) :
    Intended mpp cmpp ↔ InPlace mpp cmpp := by
  rw [InPlace, ← map_pathSet_eq_iff]
  refine ⟨Intended.groups, fun h => ⟨h, ?_⟩⟩
  rw [pathgroupAt_map, pathgroupAt_map, h, hnext]

theorem selectAction_table {env : ActionEnv} {mpp cmpp : Multipath} {curmp : List Multipath}
    (hw : findMpByWwid curmp mpp.wwid = some cmpp)
    (ha : findMpByAlias curmp mpp.aliasName = some cmpp) :
    selectAction env mpp curmp false = selectTableAction env mpp cmpp := by
  simp [selectAction, hw, ha]

/-- A map that is left alone is the intended one exactly if, as far as all that is compared is
the same, the kernel has each group at the position it has in the new map. -/
theorem selectAction_sound_iff (env : ActionEnv) (mpp cmpp : Multipath) (curmp : List Multipath)
    (hw : findMpByWwid curmp mpp.wwid = some cmpp)
    (ha : findMpByAlias curmp mpp.aliasName = some cmpp) :
    ((selectAction env mpp curmp false).action = .nothing → Intended mpp cmpp) ↔
      (Unchanged env mpp cmpp → InPlace mpp cmpp) := by
  rw [selectAction_table hw ha, selectTableAction_eq_nothing_iff]
  constructor
  · intro h hunchanged
    exact (intended_iff hunchanged.nextpg).mp (h hunchanged)
  · intro h hunchanged
    exact (intended_iff hunchanged.nextpg).mpr (h hunchanged)

/-- A system that knows every map and asks for no reload of its own. -/
def settledEnv : ActionEnv where
  linuxVersionCode := kernelVersion 5 0 0
  isMppKnownToUdev := fun _ => true
  mpathDeviceReady := fun _ => some "1".toList

/-- A map of two groups of one path each, with the given addresses. -/
def twoGroupMap (a b : BitVec 64) : Multipath :=
  { addr := 1, wwid := "w".toList, aliasName := "mpatha".toList, nextpg := 1, bestpg := 1,
    selector := some "service-time 0".toList, features := some "0".toList,
    hwhandler := some "0".toList
    pg := some [⟨a, [{ addr := a }]⟩, ⟨b, [{ addr := b }]⟩] }

/-- The same map before the ids of its groups are computed. -/
def newTwoGroupMap (a b : BitVec 64) : Multipath :=
  { twoGroupMap a b with pg := some [⟨0, [{ addr := a }]⟩, ⟨0, [{ addr := b }]⟩] }

theorem selectAction_sound_same_order :
    ((selectAction settledEnv (newTwoGroupMap 16 32) [twoGroupMap 16 32] false).action = .nothing →
      Intended (newTwoGroupMap 16 32) (twoGroupMap 16 32)) ↔
    (Unchanged settledEnv (newTwoGroupMap 16 32) (twoGroupMap 16 32) →
      InPlace (newTwoGroupMap 16 32) (twoGroupMap 16 32)) :=
  selectAction_sound_iff _ _ _ _ (by decide) (by decide)

/-- The kernel has the two groups the other way round, and its next group is the worst. -/
theorem selectAction_nothing_reversed :
    (selectAction settledEnv (newTwoGroupMap 16 32) [twoGroupMap 32 16] false).action = .nothing ∧
      ¬Intended (newTwoGroupMap 16 32) (twoGroupMap 32 16) := by
  refine ⟨by decide, fun h => ?_⟩
  have hgroups := h.groups
  revert hgroups
  decide

end MultipathTools.Configure
