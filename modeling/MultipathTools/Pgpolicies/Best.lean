import MultipathTools.Base.Merit
import MultipathTools.Pgpolicies.Grouping
import MultipathTools.Pgpolicies.Switchgroup

/-! Which group `select_path_group` chooses, and that the order of the path groups agrees with it. -/
namespace MultipathTools.Pgpolicies

/-- The groups with enabled paths, with their numbers from `n` on. -/
def candidates (pg : List Pathgroup) (n : ℕ) : List (Pathgroup × ℕ) :=
  (pg.zipIdx n).filter (·.1.enabledPaths ≠ 0)

section Candidates

variable {pgp : Pathgroup} {pg : List Pathgroup} {n : ℕ}

theorem candidates_disabled (h : pgp.enabledPaths = 0) :
    candidates (pgp :: pg) n = candidates pg (n + 1) := by
  rw [candidates, List.zipIdx_cons, List.filter_cons_of_neg (by simpa using h), candidates]

theorem candidates_enabled (h : pgp.enabledPaths ≠ 0) :
    candidates (pgp :: pg) n = (pgp, n) :: candidates pg (n + 1) := by
  rw [candidates, List.zipIdx_cons, List.filter_cons_of_pos (by simpa using h), candidates]

theorem mem_candidates_iff :
    (∃ i, (pgp, i) ∈ candidates pg n) ↔ pgp ∈ pg ∧ pgp.enabledPaths ≠ 0 := by
  constructor
  · rintro ⟨i, hi⟩
    obtain ⟨hmem, henabled⟩ := List.mem_filter.mp hi
    exact ⟨List.fst_mem_of_mem_zipIdx hmem, by simpa using henabled⟩
  · rintro ⟨hmem, henabled⟩
    obtain ⟨i, hi, rfl⟩ := List.mem_iff_getElem.mp hmem
    have hzip : (pg[i], n + i) ∈ pg.zipIdx n := List.mk_add_mem_zipIdx_iff_getElem?.mpr
      (List.getElem?_eq_getElem hi)
    exact ⟨n + i, List.mem_filter.mpr ⟨hzip, by simpa using henabled⟩⟩

end Candidates

/-- The number, from 1 on, of the first group of the highest merit among those with enabled
paths. -/
def IsBest (pg : List Pathgroup) (n : ℕ) : Prop :=
  ∃ pgp, IsFirstMax (fun c : Pathgroup × ℕ => merit c.1) (candidates pg 1) (pgp, n)

namespace Selection

/-- The merit of the best group so far. -/
def value (s : Selection) : Bool ×ₗ ℤ ×ₗ ℕ :=
  toLex (s.normalPgp, toLex (s.maxPriority, s.maxEnabledPaths))

/-- The better one of the best group so far and a group with enabled paths. -/
def better (s : Selection) (c : Pathgroup × ℕ) : Selection :=
  if s.value < merit c.1 then
    { normalPgp := !c.1.marginal, maxPriority := c.1.priority,
      maxEnabledPaths := c.1.enabledPaths, bestpg := c.2 }
  else s

theorem value_better {s : Selection} {c : Pathgroup × ℕ} (h : s.value < merit c.1) :
    (s.better c).value = merit c.1 := by
  rw [better, if_pos h]
  rfl

theorem better_keep {s : Selection} {c : Pathgroup × ℕ} (h : merit c.1 ≤ s.value) :
    s.better c = s := if_neg (not_lt.mpr h)

theorem value_lt_iff {s : Selection} {pgp : Pathgroup} :
    s.value < merit pgp ↔ (s.normalPgp = false ∧ pgp.marginal = false) ∨
      s.normalPgp = !pgp.marginal ∧ (s.maxPriority < pgp.priority ∨
        s.maxPriority = pgp.priority ∧ s.maxEnabledPaths < pgp.enabledPaths) := by
  unfold value merit
  rw [Prod.Lex.toLex_lt_toLex, Prod.Lex.toLex_lt_toLex]
  cases s.normalPgp <;> cases pgp.marginal <;> simp

end Selection

/-- A group without enabled paths is passed over. -/
theorem selectStep_disabled {s : Selection} {pgp : Pathgroup} {i : ℕ}
    (h : (pathGroupPrioUpdate pgp).enabledPaths = 0) : selectStep s pgp i = s := by
  unfold selectStep
  simp [h]

/-- A group with enabled paths becomes the best so far exactly if its merit is higher. -/
theorem selectStep_enabled {s : Selection} {pgp : Pathgroup} {i : ℕ}
    (h : (pathGroupPrioUpdate pgp).enabledPaths ≠ 0) :
    selectStep s pgp i = s.better (pathGroupPrioUpdate pgp, i + 1) := by
  have hpaths : pgp.paths ≠ none := by
    intro hnone
    apply h
    rw [pathGroupPrioUpdate, hnone]
  generalize hg : pathGroupPrioUpdate pgp = g at h
  obtain ⟨normal, maxPriority, bestpg, maxEnabled⟩ := s
  unfold selectStep Selection.better
  rw [if_neg hpaths]
  simp only [hg, Selection.value_lt_iff]
  rcases lt_trichotomy maxPriority g.priority with hlt | heq | hgt
  · cases hm : g.marginal <;> cases normal <;> simp [h, hlt]
  · by_cases hmore : maxEnabled < g.enabledPaths
    · cases hm : g.marginal <;> cases normal <;> simp [h, heq, hmore]
    · cases hm : g.marginal <;> cases normal <;> simp [h, heq, hmore]
  · cases hm : g.marginal <;> cases normal <;> simp [h, hgt.not_gt, hgt.ne, hgt.ne']

theorem selectLoop_eq (pg : List Pathgroup) (i : ℕ) (s : Selection) :
    selectLoop pg i s =
      (candidates (pg.map pathGroupPrioUpdate) (i + 1)).foldl Selection.better s := by
  induction pg generalizing i s with
  | nil => rfl
  | cons pgp pg ih =>
    rw [selectLoop, ih, List.map_cons]
    by_cases h : (pathGroupPrioUpdate pgp).enabledPaths = 0
    · rw [selectStep_disabled h, candidates_disabled h]
    · rw [selectStep_enabled h, candidates_enabled h, List.foldl_cons]

section Select

variable {pg : List Pathgroup}

theorem selectPathGroup_eq :
    selectPathGroup (some pg) =
      ((candidates (pg.map pathGroupPrioUpdate) 1).foldl Selection.better {}).bestpg := by
  rw [selectPathGroup, selectLoop_eq]

/-- A best group above the start values is found. -/
theorem selectPathGroup_of_lt {pgp : Pathgroup} {n : ℕ}
    (h : IsFirstMax (fun c : Pathgroup × ℕ => merit c.1)
      (candidates (pg.map pathGroupPrioUpdate) 1) (pgp, n))
    (hlt : ({} : Selection).value < merit pgp) : selectPathGroup (some pg) = n := by
  obtain ⟨s, hs, hfold⟩ := h.foldl Selection.value (fun _ _ => Selection.value_better)
    (fun _ _ => Selection.better_keep) hlt
  rw [selectPathGroup_eq, hfold, Selection.better, if_pos hs]

/-- If no group is above the start values, the first group of the map is chosen. -/
theorem selectPathGroup_of_le
    (h : ∀ c ∈ candidates (pg.map pathGroupPrioUpdate) 1, merit c.1 ≤ ({} : Selection).value) :
    selectPathGroup (some pg) = 1 := by
  rw [selectPathGroup_eq]
  suffices hfold : (candidates (pg.map pathGroupPrioUpdate) 1).foldl Selection.better {} = {} by
    rw [hfold]
  revert h
  generalize candidates (pg.map pathGroupPrioUpdate) 1 = cs
  intro h
  induction cs with
  | nil => rfl
  | cons c cs ih =>
    rw [List.foldl_cons, Selection.better_keep (h c List.mem_cons_self)]
    exact ih fun d hd => h d (List.mem_cons_of_mem c hd)

/-- The first group of the map is chosen where it is the best. -/
theorem selectPathGroup_of_first (h : IsBest (pg.map pathGroupPrioUpdate) 1) :
    selectPathGroup (some pg) = 1 := by
  obtain ⟨pgp, hmax⟩ := h
  rcases lt_or_ge ({} : Selection).value (merit pgp) with hlt | hle
  · exact selectPathGroup_of_lt hmax hlt
  · exact selectPathGroup_of_le fun c hc => le_trans (hmax.le hc) hle

/-- A group with enabled paths that the start values do not hide. -/
def Visible (pgp : Pathgroup) : Prop :=
  pgp.enabledPaths ≠ 0 ∧
    (pgp.marginal = false ∨ 0 < pgp.priority ∨ pgp.priority = 0 ∧ 1 < pgp.enabledPaths)

theorem start_lt_iff {pgp : Pathgroup} :
    ({} : Selection).value < merit pgp ↔
      pgp.marginal = false ∨ 0 < pgp.priority ∨ pgp.priority = 0 ∧ 1 < pgp.enabledPaths := by
  rw [Selection.value_lt_iff]
  cases pgp.marginal <;> simp [eq_comm]

/-- The best group is chosen if and only if there is a group with enabled paths that is not
marginal, or has a positive priority, or priority 0 and two enabled paths, or the best one is
the first of the map. -/
theorem selectPathGroup_isBest_iff :
    IsBest (pg.map pathGroupPrioUpdate) (selectPathGroup (some pg)) ↔
      (∃ pgp ∈ pg.map pathGroupPrioUpdate, Visible pgp) ∨
        IsBest (pg.map pathGroupPrioUpdate) 1 := by
  constructor
  · intro hbest
    by_cases hvisible : ∃ pgp ∈ pg.map pathGroupPrioUpdate, Visible pgp
    · exact Or.inl hvisible
    · right
      rwa [selectPathGroup_of_le] at hbest
      intro c hc
      by_contra hlt
      obtain ⟨hmem, henabled⟩ := mem_candidates_iff.mp ⟨c.2, hc⟩
      exact hvisible ⟨c.1, hmem, henabled, start_lt_iff.mp (not_le.mp hlt)⟩
  · rintro (⟨pgp, hmem, henabled, hvisible⟩ | hfirst)
    · obtain ⟨i, hi⟩ := mem_candidates_iff.mpr ⟨hmem, henabled⟩
      obtain ⟨best, hmax⟩ := exists_isFirstMax (r := fun c : Pathgroup × ℕ => merit c.1)
        (List.ne_nil_of_mem hi)
      have hlt : ({} : Selection).value < merit best.1 :=
        lt_of_lt_of_le (start_lt_iff.mpr hvisible) (hmax.le hi)
      rw [selectPathGroup_of_lt hmax hlt]
      exact ⟨best.1, hmax⟩
    · rw [selectPathGroup_of_first hfirst]
      exact hfirst

/-- A path that is up, with no priority known, and marginal. -/
def marginalPath : Path := { state := .up, priority := -1, marginal := true }

/-- A group of one path that is down, and one of a marginal path that is up. -/
def downAndMarginal : List Pathgroup :=
  [{ paths := some [{ state := .down }] }, { paths := some [marginalPath] }]

/-- The group without enabled paths is chosen. -/
theorem selectPathGroup_isBest_fails :
    IsBest (downAndMarginal.map pathGroupPrioUpdate) 2 ∧
      ¬ IsBest (downAndMarginal.map pathGroupPrioUpdate)
        (selectPathGroup (some downAndMarginal)) := by
  have hcandidates : candidates (downAndMarginal.map pathGroupPrioUpdate) 1 =
      [({ priority := -1, enabledPaths := 1, marginal := true, paths := some [marginalPath] },
        2)] := rfl
  constructor
  · refine ⟨_, [], [], hcandidates, List.forall_mem_nil _, List.forall_mem_nil _⟩
  · rintro ⟨pgp, hmax⟩
    have hmem := hmax.mem
    rw [hcandidates, List.mem_singleton] at hmem
    have hnumber : selectPathGroup (some downAndMarginal) = 2 := congrArg Prod.snd hmem
    exact absurd hnumber (by decide)

end Select

/-- One of the paths of the group is up. -/
def Pathgroup.HasEnabled (pgp : Pathgroup) : Prop :=
  ∃ paths, pgp.paths = some paths ∧ ∃ pp ∈ paths, pp.enabled = true

theorem pathGroupPrioUpdate_enabledPaths {pgp : Pathgroup} (h : pgp.HasEnabled) :
    (pathGroupPrioUpdate pgp).enabledPaths ≠ 0 := by
  obtain ⟨paths, hpaths, pp, hpp, henabled⟩ := h
  have hcount : (pathGroupPrioUpdate pgp).enabledPaths = paths.countP Path.enabled := by
    rw [pathGroupPrioUpdate, hpaths]
  rw [hcount]
  exact (List.countP_pos_iff.mpr ⟨pp, hpp, henabled⟩).ne'

section Sorted

variable {pg rest : List Pathgroup} {first : Pathgroup}

/-- Sorted groups have been updated, so that another update changes nothing. -/
theorem sorted_update {s : List Pathgroup}
    (h : StableSorted merit (pg.map pathGroupPrioUpdate) s) : s.map pathGroupPrioUpdate = s := by
  apply (List.map_congr_left _).trans (List.map_id s)
  intro pgp hpgp
  obtain ⟨old, -, rfl⟩ := List.mem_map.mp (h.perm.subset hpgp)
  exact pathGroupPrioUpdate_idem old

/-- The first of sorted groups is the best, if it has an enabled path. -/
theorem sorted_isBest
    (h : StableSorted merit (pg.map pathGroupPrioUpdate) (first :: rest))
    (henabled : first.HasEnabled) :
    IsBest ((first :: rest).map pathGroupPrioUpdate) 1 := by
  have hcount := pathGroupPrioUpdate_enabledPaths henabled
  have hmap := sorted_update h
  rw [List.map_cons] at hmap
  obtain ⟨hfirst, -⟩ := List.cons.inj hmap
  rw [hfirst] at hcount
  rw [List.map_cons, hmap, IsBest, candidates_enabled hcount]
  refine ⟨first, [], _, rfl, List.forall_mem_nil _, ?_⟩
  intro c hc
  have hmem : c.1 ∈ rest := List.fst_mem_of_mem_zipIdx (List.mem_filter.mp hc).1
  exact (List.pairwise_cons.mp h.sorted).1 c.1 hmem

/-- If the first of the sorted groups has an enabled path, it is the one that is chosen. -/
theorem selectPathGroup_of_sorted {v : List Pathgroup}
    (hsort : sortPathgroups (some v) = some (first :: rest)) (henabled : first.HasEnabled) :
    selectPathGroup (some (first :: rest)) = 1 := by
  have hsorted : StableSorted merit (v.map pathGroupPrioUpdate) (first :: rest) := by
    rw [← Option.some.inj hsort]
    exact sortLoop_sorted stableSorted_nil
  exact selectPathGroup_of_first (sorted_isBest hsorted henabled)

/-- The order of the groups and the choice agree: behind `sort_pathgroups`, and so in the table
that `group_paths` makes for a new map, the first group is chosen if it has an enabled path. -/
theorem sortPathgroups_agrees (first : Pathgroup) (rest : List Pathgroup)
    (henabled : first.HasEnabled) :
    (∀ v, sortPathgroups (some v) = some (first :: rest) →
      selectPathGroup (some (first :: rest)) = 1) ∧
    ∀ m mp marginalPathgroups, mp.pg = none →
      (groupPaths m mp marginalPathgroups).2.pg = some (first :: rest) →
        selectPathGroup (groupPaths m mp marginalPathgroups).2.pg = 1 := by
  constructor
  · intro v hsort
    exact selectPathGroup_of_sorted hsort henabled
  · intro m mp marginalPathgroups hnew hpg
    rcases groupPaths_cases m mp marginalPathgroups with hfail | ⟨pg, hgroup, hsort⟩
    · rw [hfail] at hpg
      cases hpg
    · rw [hgroup] at hpg ⊢
      obtain ⟨v, hv⟩ := hsort hnew
      dsimp only at hpg ⊢
      rw [hpg] at hv ⊢
      exact selectPathGroup_of_sorted hv henabled

/-- A group of one path with this priority, which is up. -/
def upGroup (priority : ℤ) : Pathgroup :=
  { priority := priority, enabledPaths := 1,
    paths := some [{ dev := ['a'], state := .up, priority := priority }] }

theorem sortPathgroups_agrees_sample :
    sortPathgroups (some [upGroup 1, upGroup 2]) = some [upGroup 2, upGroup 1] ∧
      selectPathGroup (some [upGroup 2, upGroup 1]) = 1 :=
  ⟨by decide, (sortPathgroups_agrees (upGroup 2) [upGroup 1]
    ⟨_, rfl, _, List.mem_singleton_self _, rfl⟩).1 [upGroup 1, upGroup 2] (by decide)⟩

end Sorted

end MultipathTools.Pgpolicies
