import MultipathTools.Dmparser.Members
import MultipathTools.Dmparser.StatusMissing

/-! When `disassemble_map` and `disassemble_status` use a word that is missing. -/
namespace MultipathTools.Dmparser

open MultipathTools.Features

section Maps

variable {alloc : CStr → BitVec 64} {pathvec : List Path} {mpp m : Multipath} {p params : CStr}

theorem readPathgroup_selector {i : ℕ} {num : ℤ} {x : ℤ × CStr}
    (h : readPathgroup alloc pathvec i mpp num p = (m, some x)) : m.selector ≠ none := by
  unfold readPathgroup at h
  rcases hs : readSelector mpp num p with ⟨m', _ | ⟨k, q⟩⟩
  · rw [hs] at h
    cases h
  · obtain ⟨hsel, -⟩ := suffix_of_readSelector hs
    rw [hs] at h
    dsimp only at h
    rcases hn : getWord (skipWords k.toNat q) with ⟨_ | w, q'⟩
    · rw [hn] at h
      cases h
    · rw [hn] at h
      dsimp only at h
      rcases ha : getWord q' with ⟨_ | v, q''⟩
      · rw [ha] at h
        cases h
      · rw [ha] at h
        dsimp only at h
        rcases hp : readPaths alloc pathvec i (atoi v).toNat (atoi w).toNat m' {} q'' with
          ⟨m'', _ | ⟨pgp, r⟩⟩
        · rw [hp] at h
          cases h
        · rw [hp] at h
          obtain ⟨minio, hminio⟩ :=
            @readPaths_minio alloc pathvec m' q'' i (atoi v).toNat (atoi w).toNat {}
          rw [hp] at hminio
          have hm := congrArg Multipath.selector hminio
          cases h
          exact hm ▸ hsel

theorem readPathgroups_selector {n i : ℕ} {num : ℤ} (hn : 0 < n ∨ mpp.selector ≠ none)
    (h : readPathgroups alloc pathvec n i mpp num p = (m, true)) : m.selector ≠ none := by
  induction n generalizing i mpp num p with
  | zero =>
    cases h
    exact hn.resolve_left (Nat.lt_irrefl 0)
  | succ n ih =>
    rw [readPathgroups] at h
    rcases hg : readPathgroup alloc pathvec i mpp num p with ⟨m', _ | x⟩
    · rw [hg] at h
      cases h
    · rw [hg] at h
      exact ih (Or.inr (readPathgroup_selector hg)) h

theorem readGroups_selector (hsel : mpp.pg.getD [] ≠ [] → mpp.selector ≠ none)
    (hpg : (readGroups alloc pathvec p mpp).1.pg.getD [] ≠ []) :
    (readGroups alloc pathvec p mpp).1.selector ≠ none := by
  unfold readGroups at hpg ⊢
  rcases hn : getWord p with ⟨_ | numPg, q⟩
  · rw [hn] at hpg
    exact hsel hpg
  · rw [hn] at hpg
    dsimp only at hpg ⊢
    rcases hx : getWord q with ⟨_ | nextpg, q'⟩
    · rw [hx] at hpg
      exact absurd rfl hpg
    · rw [hx] at hpg
      dsimp only at hpg ⊢
      rcases hg : readPathgroups alloc pathvec (atoi numPg).toNat 0
        { mpp with pg := if 0 < atoi numPg then some (mpp.pg.getD []) else none
                   nextpg := atoi nextpg } 0 q' with ⟨m, _ | _⟩
      · rw [hg] at hpg
        exact absurd rfl hpg
      · rw [hg] at hpg
        refine readPathgroups_selector ?_ hg
        by_contra hno
        rw [not_or, not_lt, Nat.le_zero] at hno
        have hle : ¬0 < atoi numPg := by omega
        rw [hno.1, if_neg hle] at hg
        cases hg
        exact hpg rfl

/-- Groups that were read have a selector. -/
theorem disassembleMap_selector (hsel : mpp.pg.getD [] ≠ [] → mpp.selector ≠ none)
    (hpg : (disassembleMap alloc pathvec params mpp).1.pg.getD [] ≠ []) :
    (disassembleMap alloc pathvec params mpp).1.selector ≠ none := by
  unfold disassembleMap at hpg ⊢
  dsimp only at hpg ⊢
  rcases hf : (readArgs params).2 with _ | q
  · rw [hf] at hpg
    exact hsel hpg
  · rw [hf] at hpg
    dsimp only at hpg ⊢
    rcases hh : (readArgs q).2 with _ | q'
    · rw [hh] at hpg
      exact hsel hpg
    · rw [hh] at hpg
      exact readGroups_selector hsel hpg

/-- A map whose path groups were read by `disassemble_map`. Since then, some may have been
removed. -/
inductive FromMap : Multipath → Prop
  | fresh {mpp : Multipath} (hpg : mpp.pg = none) : FromMap mpp
  | read {mpp : Multipath} {alloc : CStr → BitVec 64} {pathvec : List Path} {params : CStr}
      {r : Multipath × ℤ} (h : FromMap mpp) (hr : checkedMap alloc pathvec params mpp = .ok r) :
      FromMap r.1
  | kept {mpp mpp' : Multipath} (h : FromMap mpp) (hsel : mpp'.selector = mpp.selector)
      (hpg : (mpp'.pg.getD []).length ≤ (mpp.pg.getD []).length) : FromMap mpp'

theorem FromMap.selector (h : FromMap mpp) : mpp.pg.getD [] ≠ [] → mpp.selector ≠ none := by
  induction h with
  | fresh hpg =>
    intro hne
    rw [hpg] at hne
    exact absurd rfl hne
  | read _ hr ih =>
    rw [← checkedMap_ok hr]
    exact disassembleMap_selector ih
  | kept _ hsel hpg ih =>
    intro hne
    rw [hsel]
    refine ih fun hnil => hne ?_
    rw [hnil] at hpg
    exact List.length_eq_zero_iff.mp (Nat.le_zero.mp hpg)

end Maps

/-- What `disassemble_status` sees of a map. -/
structure Sees (st : StatusMultipath) (mpp : Multipath) : Prop where
  selector : st.selector = mpp.selector
  sizes : sizesOf (st.pg.getD []) = (mpp.pg.getD []).map fun pgp => pgp.paths.length

/-- The two readers use nothing that is missing, unless the text ends with a blank where an
argument was announced: directly behind a device, if no device is refused, or, for the
"least-pending" selector, among the arguments of a path in the status. -/
theorem disassemble_ok_iff {mpp : Multipath} {st : StatusMultipath} (h : FromMap mpp)
    (hst : Sees st mpp) (alloc : CStr → BitVec 64) (pathvec : List Path) (params : CStr) :
    ((∃ r, checkedMap alloc pathvec params mpp = .ok r) ↔
      ¬(params.getLast? = some ' ' ∧
        TableStored pathvec mpp.selector.isSome none (splitWords params) ∧
        EndsAtDeviceOf mpp.selector.isSome (splitWords params))) ∧
    ((∃ r, disassembleStatus params st = .ok r) ↔
      ¬(params.getLast? = some ' ' ∧ mpp.selector.any isLeastPending = true ∧
        StatusEndsInArgs ((mpp.pg.getD []).map fun pgp => pgp.paths.length)
          (splitWords params))) := by
  have hsel : HasSelector st := by
    intro hne
    rw [hst.selector]
    refine h.selector fun hnil => hne ?_
    have hsizes := hst.sizes
    rw [hnil] at hsizes
    exact List.map_eq_nil_iff.mp hsizes
  refine ⟨checkedMap_ok_iff, ?_⟩
  rw [← hst.sizes, ← hst.selector]
  exact disassembleStatus_ok_iff hsel

/-- A table that is cut off behind its device. -/
theorem disassemble_fails :
    ¬∀ (mpp : Multipath) (st : StatusMultipath), FromMap mpp → Sees st mpp →
      ∀ (alloc : CStr → BitVec 64) (pathvec : List Path) (params : CStr),
        (∃ r, checkedMap alloc pathvec params mpp = .ok r) ∧
          ∃ r, disassembleStatus params st = .ok r := by
  intro h
  obtain ⟨⟨r, hr⟩, -⟩ := h {} {} (.fresh rfl) ⟨rfl, rfl⟩ (fun _ => 0) []
    "0 0 1 1 round-robin 0 1 1 8:0 ".toList
  cases hr

/-- The map of the table "0 0 1 1 least-pending 0 1 1 8:0 5", and a status that is cut off behind
the fail count. -/
theorem disassemble_ok_iff_cut :
    let mpp := (disassembleMap (fun _ => 0) [] "0 0 1 1 least-pending 0 1 1 8:0 5".toList {}).1
    let params := "0 0 1 1 A 0 1 1 8:0 A 0 ".toList
    (∃ r, disassembleStatus params
        { pg := some [{ paths := [{}] }], selector := some "least-pending 0".toList } = .ok r) ↔
      ¬(params.getLast? = some ' ' ∧ mpp.selector.any isLeastPending = true ∧
        StatusEndsInArgs ((mpp.pg.getD []).map fun pgp => pgp.paths.length)
          (splitWords params)) := by
  have hread : checkedMap (fun _ => 0) [] "0 0 1 1 least-pending 0 1 1 8:0 5".toList {} =
      .ok (disassembleMap (fun _ => 0) [] "0 0 1 1 least-pending 0 1 1 8:0 5".toList {}) := rfl
  exact (disassemble_ok_iff (.read (.fresh rfl) hread) ⟨rfl, rfl⟩ (fun _ => 0) [] _).2

end MultipathTools.Dmparser
