import MultipathTools.Vecs.State

/-! Paths and their owners are consistent, and every operation on a map keeps it so. -/
namespace MultipathTools.Vecs

/-- The paths in the groups of a map. -/
def OwnedMap.slots (mpp : OwnedMap) : List ℕ := (mpp.pg.getD []).flatten

/-- The paths that the vectors, the groups and the owners tell are there; a path that a map lists or
has in a group belongs to it and is in the path vector; the maps have different WWIDs, and a path of a
map has the WWID of the map, or none, unless it is about to be removed. -/
structure Owned (s : Vectors) : Prop where
  nodup : s.pathvec.Nodup
  listed : ∀ p ∈ s.pathvec, ∃ pp, s.path p = some pp ∧ pp.udev = true
  distinct : ∀ m mpp, s.map m = some mpp → mpp.paths.Nodup
  member : ∀ m mpp, s.map m = some mpp → ∀ p ∈ mpp.paths, p ∈ s.pathvec ∧
    ∃ pp, s.path p = some pp ∧ pp.mpp = some m ∧ pp.initialized ≠ .removed
  grouped : ∀ m mpp, s.map m = some mpp → ∀ p ∈ mpp.slots, p ∈ s.pathvec ∧
    ∃ pp, s.path p = some pp ∧ pp.mpp = some m
  owner : ∀ p pp m, s.path p = some pp → pp.mpp = some m → p ∈ s.pathvec ∧
    ∃ mpp, s.map m = some mpp ∧
      (pp.initialized ≠ .removed → pp.wwid = [] ∨ pp.wwid = mpp.wwid)
  named : ∀ p pp, s.path p = some pp → pp.devT ≠ [] ∨ pp.dev ≠ []
  wwid : ∀ m mpp, s.map m = some mpp → mpp.wwid ≠ []
  unique : ∀ m m' mpp mpp', s.map m = some mpp → s.map m' = some mpp' → mpp.wwid = mpp'.wwid → m = m'
  mpvec : s.mpvec.Nodup
  registered : ∀ m ∈ s.mpvec, ∃ mpp, s.map m = some mpp
  freshPath : ∀ p, s.nextPath ≤ p → s.path p = none

section Updates
variable {s t : Vectors} {p q m m' : ℕ} {pp pp' : OwnedPath} {mpp mpp' : OwnedMap}

namespace Vectors

@[simp] theorem setPath_self (s : Vectors) (p : ℕ) (pp : OwnedPath) :
    (s.setPath p pp).path p = some pp := Function.update_self _ _ _

theorem setPath_of_ne (s : Vectors) (pp : OwnedPath) (h : q ≠ p) :
    (s.setPath p pp).path q = s.path q := Function.update_of_ne h _ _

@[simp] theorem setMap_self (s : Vectors) (m : ℕ) (mpp : OwnedMap) :
    (s.setMap m mpp).map m = some mpp := Function.update_self _ _ _

theorem setMap_of_ne (s : Vectors) (mpp : OwnedMap) (h : m' ≠ m) :
    (s.setMap m mpp).map m' = s.map m' := Function.update_of_ne h _ _

end Vectors

/-- No map lists the path or has it in a group. -/
def Unlisted (s : Vectors) (p : ℕ) : Prop :=
  ∀ m mpp, s.map m = some mpp → p ∉ mpp.paths ∧ p ∉ mpp.slots

theorem Owned.unlisted (h : Owned s) (hp : s.path p = some pp)
    (howner : ∀ m mpp, s.map m = some mpp → pp.mpp ≠ some m) : Unlisted s p := by
  refine fun m mpp hm => ⟨fun hmem => ?_, fun hmem => ?_⟩
  · obtain ⟨-, pp', hp', hmpp, -⟩ := h.member m mpp hm p hmem
    obtain rfl := Option.some.inj (hp.symm.trans hp')
    exact howner m mpp hm hmpp
  · obtain ⟨-, pp', hp', hmpp⟩ := h.grouped m mpp hm p hmem
    obtain rfl := Option.some.inj (hp.symm.trans hp')
    exact howner m mpp hm hmpp

/-- A path is written. -/
theorem Owned.setPath (h : Owned s) (hp : s.path p = some pp) (hudev : pp.udev → pp'.udev)
    (hnamed : pp'.devT ≠ [] ∨ pp'.dev ≠ [])
    (hlists : Unlisted s p ∨ pp'.mpp = pp.mpp ∧ (pp'.initialized = .removed →
      pp.initialized = .removed ∨ ∀ m mpp, s.map m = some mpp → p ∉ mpp.paths))
    (howner : ∀ m, pp'.mpp = some m → p ∈ s.pathvec ∧ ∃ mpp, s.map m = some mpp ∧
      (pp'.initialized ≠ .removed → pp'.wwid = [] ∨ pp'.wwid = mpp.wwid)) :
    Owned (s.setPath p pp') := by
  have hself := s.setPath_self p pp'
  have hother (q : ℕ) (hq : q ≠ p) := s.setPath_of_ne pp' hq
  constructor
  case nodup => exact h.nodup
  case distinct => exact h.distinct
  case wwid => exact h.wwid
  case unique => exact h.unique
  case mpvec => exact h.mpvec
  case registered => exact h.registered
  case listed =>
    intro q hq
    obtain ⟨qq, hqq, hq'⟩ := h.listed q hq
    by_cases heq : q = p
    · subst heq
      obtain rfl := Option.some.inj (hp.symm.trans hqq)
      exact ⟨pp', hself, hudev hq'⟩
    · exact ⟨qq, (hother q heq).trans hqq, hq'⟩
  case member =>
    intro m mpp hm q hq
    obtain ⟨hmem, qq, hqq, hmpp, hinit⟩ := h.member m mpp hm q hq
    refine ⟨hmem, ?_⟩
    by_cases heq : q = p
    · subst heq
      obtain rfl := Option.some.inj (hp.symm.trans hqq)
      obtain hun | ⟨hsame, hremoved⟩ := hlists
      · exact absurd hq (hun m mpp hm).1
      · refine ⟨pp', hself, hsame.trans hmpp, fun hr => ?_⟩
        obtain hr | hr := hremoved hr
        · exact hinit hr
        · exact hr m mpp hm hq
    · exact ⟨qq, (hother q heq).trans hqq, hmpp, hinit⟩
  case grouped =>
    intro m mpp hm q hq
    obtain ⟨hmem, qq, hqq, hmpp⟩ := h.grouped m mpp hm q hq
    refine ⟨hmem, ?_⟩
    by_cases heq : q = p
    · subst heq
      obtain rfl := Option.some.inj (hp.symm.trans hqq)
      obtain hun | ⟨hsame, -⟩ := hlists
      · exact absurd hq (hun m mpp hm).2
      · exact ⟨pp', hself, hsame.trans hmpp⟩
    · exact ⟨qq, (hother q heq).trans hqq, hmpp⟩
  case owner =>
    intro q qq m hq hmpp
    by_cases heq : q = p
    · subst heq
      obtain rfl := Option.some.inj (hself.symm.trans hq)
      exact howner m hmpp
    · exact h.owner q qq m ((hother q heq).symm.trans hq) hmpp
  case named =>
    intro q qq hq
    by_cases heq : q = p
    · subst heq
      obtain rfl := Option.some.inj (hself.symm.trans hq)
      exact hnamed
    · exact h.named q qq ((hother q heq).symm.trans hq)
  case freshPath =>
    intro q hq
    by_cases heq : q = p
    · subst heq
      rw [h.freshPath q hq] at hp
      cases hp
    · exact (hother q heq).trans (h.freshPath q hq)

theorem Owned.lt_nextPath (h : Owned s) (hp : s.path p = some pp) : p < s.nextPath := by
  by_contra hle
  rw [h.freshPath p (not_lt.mp hle)] at hp
  cases hp

theorem Owned.unlisted_of_not_mem (h : Owned s) (hnot : p ∉ s.pathvec) : Unlisted s p := fun m mpp hm =>
  ⟨fun hp => hnot (h.member m mpp hm p hp).1, fun hp => hnot (h.grouped m mpp hm p hp).1⟩

theorem Owned.unlisted_of_none (h : Owned s) (hp : s.path p = some pp) (hmpp : pp.mpp = none) :
    Unlisted s p := h.unlisted hp fun _ _ _ => by rw [hmpp]; nofun

theorem Owned.calls (h : Owned s) (n : ℕ) : Owned { s with calls := n } :=
  ⟨h.nodup, h.listed, h.distinct, h.member, h.grouped, h.owner, h.named, h.wwid, h.unique, h.mpvec,
    h.registered, h.freshPath⟩

/-- A path is allocated. -/
theorem Owned.allocPath (h : Owned s) (hnamed : pp.devT ≠ [] ∨ pp.dev ≠ []) (hmpp : pp.mpp = none) :
    Owned { s.setPath s.nextPath pp with nextPath := s.nextPath + 1 } := by
  have hfresh := h.freshPath s.nextPath le_rfl
  have hnew (q : ℕ) {qq : OwnedPath} (hq : s.path q = some qq) :
      (s.setPath s.nextPath pp).path q = some qq := by
    rw [s.setPath_of_ne pp (h.lt_nextPath hq).ne, hq]
  have hold (q : ℕ) {qq : OwnedPath} (hq : (s.setPath s.nextPath pp).path q = some qq)
      (hne : q ≠ s.nextPath) : s.path q = some qq := (s.setPath_of_ne pp hne).symm.trans hq
  constructor
  case nodup => exact h.nodup
  case distinct => exact h.distinct
  case wwid => exact h.wwid
  case unique => exact h.unique
  case mpvec => exact h.mpvec
  case registered => exact h.registered
  case listed =>
    intro q hq
    obtain ⟨qq, hqq, hudev⟩ := h.listed q hq
    exact ⟨qq, hnew q hqq, hudev⟩
  case member =>
    intro m mpp hm q hq
    obtain ⟨hmem, qq, hqq, hmpp, hinit⟩ := h.member m mpp hm q hq
    exact ⟨hmem, qq, hnew q hqq, hmpp, hinit⟩
  case grouped =>
    intro m mpp hm q hq
    obtain ⟨hmem, qq, hqq, hmpp⟩ := h.grouped m mpp hm q hq
    exact ⟨hmem, qq, hnew q hqq, hmpp⟩
  case owner =>
    intro q qq m hq hm
    by_cases hne : q = s.nextPath
    · subst hne
      obtain rfl := Option.some.inj ((s.setPath_self s.nextPath pp).symm.trans hq)
      rw [hmpp] at hm
      cases hm
    · exact h.owner q qq m (hold q hq hne) hm
  case named =>
    intro q qq hq
    by_cases hne : q = s.nextPath
    · subst hne
      obtain rfl := Option.some.inj ((s.setPath_self s.nextPath pp).symm.trans hq)
      exact hnamed
    · exact h.named q qq (hold q hq hne)
  case freshPath =>
    intro q hq
    have hle : s.nextPath + 1 ≤ q := hq
    exact (s.setPath_of_ne pp (by omega)).trans (h.freshPath q (by omega))

/-- A path is put into the path vector. -/
theorem Owned.push (h : Owned s) (hp : s.path p = some pp) (hudev : pp.udev = true)
    (hnot : p ∉ s.pathvec) : Owned { s with pathvec := s.pathvec ++ [p] } := by
  have hweaken {q : ℕ} (hq : q ∈ s.pathvec) : q ∈ s.pathvec ++ [p] := List.mem_append_left _ hq
  constructor
  case nodup =>
    have hsingle := List.nodup_singleton p
    refine h.nodup.append hsingle fun a ha hb => hnot ?_
    rwa [← List.mem_singleton.mp hb]
  case listed =>
    intro q hq
    obtain hq | hq := List.mem_append.mp hq
    · exact h.listed q hq
    · exact ⟨pp, List.mem_singleton.mp hq ▸ hp, hudev⟩
  case member => exact fun m mpp hm q hq => (h.member m mpp hm q hq).imp_left hweaken
  case grouped => exact fun m mpp hm q hq => (h.grouped m mpp hm q hq).imp_left hweaken
  case owner => exact fun q qq m hq hm => (h.owner q qq m hq hm).imp_left hweaken
  case distinct => exact h.distinct
  case named => exact h.named
  case wwid => exact h.wwid
  case unique => exact h.unique
  case mpvec => exact h.mpvec
  case registered => exact h.registered
  case freshPath => exact h.freshPath

/-- A path that no map lists is taken out of the path vector and freed. -/
theorem Owned.free {v : List ℕ} (h : Owned s) (hun : Unlisted s p) (hnodup : v.Nodup)
    (hv : ∀ q, q ∈ v ↔ q ∈ s.pathvec ∧ q ≠ p) :
    Owned (({ s with pathvec := v } : Vectors).dropPath p) := by
  have hother (q : ℕ) (hq : q ≠ p) : Function.update s.path p none q = s.path q :=
    Function.update_of_ne hq _ _
  have hself : Function.update s.path p none p = none := Function.update_self _ _ _
  have hold {q : ℕ} {qq : OwnedPath} (hq : Function.update s.path p none q = some qq) :
      q ≠ p ∧ s.path q = some qq := by
    have hne : q ≠ p := by
      rintro rfl
      rw [hself] at hq
      cases hq
    exact ⟨hne, hother q hne ▸ hq⟩
  constructor
  case nodup => exact hnodup
  case distinct => exact h.distinct
  case wwid => exact h.wwid
  case unique => exact h.unique
  case mpvec => exact h.mpvec
  case registered => exact h.registered
  case listed =>
    intro q hq
    obtain ⟨hq, hne⟩ := (hv q).mp hq
    obtain ⟨qq, hqq, hudev⟩ := h.listed q hq
    exact ⟨qq, (hother q hne).trans hqq, hudev⟩
  case member =>
    intro m mpp hm q hq
    obtain ⟨hmem, qq, hqq, hrest⟩ := h.member m mpp hm q hq
    have hne : q ≠ p := fun heq => (hun m mpp hm).1 (heq ▸ hq)
    exact ⟨(hv q).mpr ⟨hmem, hne⟩, qq, (hother q hne).trans hqq, hrest⟩
  case grouped =>
    intro m mpp hm q hq
    obtain ⟨hmem, qq, hqq, hrest⟩ := h.grouped m mpp hm q hq
    have hne : q ≠ p := fun heq => (hun m mpp hm).2 (heq ▸ hq)
    exact ⟨(hv q).mpr ⟨hmem, hne⟩, qq, (hother q hne).trans hqq, hrest⟩
  case owner =>
    intro q qq m hq hm
    obtain ⟨hne, hq⟩ := hold hq
    obtain ⟨hmem, hmap⟩ := h.owner q qq m hq hm
    exact ⟨(hv q).mpr ⟨hmem, hne⟩, hmap⟩
  case named => exact fun q qq hq => h.named q qq (hold hq).2
  case freshPath =>
    intro q hq
    by_cases hne : q = p
    · exact hne ▸ hself
    · exact (hother q hne).trans (h.freshPath q hq)

/-- A map is written. -/
theorem Owned.setMap (h : Owned s) (hm : s.map m = some mpp) (hwwid : mpp'.wwid = mpp.wwid)
    (hdistinct : mpp'.paths.Nodup)
    (hmember : ∀ p ∈ mpp'.paths, p ∈ s.pathvec ∧
      ∃ pp, s.path p = some pp ∧ pp.mpp = some m ∧ pp.initialized ≠ .removed)
    (hgrouped : ∀ p ∈ mpp'.slots, p ∈ s.pathvec ∧ ∃ pp, s.path p = some pp ∧ pp.mpp = some m) :
    Owned (s.setMap m mpp') := by
  -- every map is as before, but for what it lists
  have hold (m' : ℕ) (qq : OwnedMap) (hq : (s.setMap m mpp').map m' = some qq) :
      (m' = m ∧ qq = mpp') ∨ s.map m' = some qq := by
    by_cases hne : m' = m
    · subst hne
      exact .inl ⟨rfl, (Option.some.inj ((s.setMap_self m' mpp').symm.trans hq)).symm⟩
    · exact .inr ((s.setMap_of_ne mpp' hne).symm.trans hq)
  have hwwids (m' : ℕ) (qq : OwnedMap) (hq : (s.setMap m mpp').map m' = some qq) :
      ∃ qq', s.map m' = some qq' ∧ qq'.wwid = qq.wwid := by
    obtain ⟨rfl, rfl⟩ | hq := hold m' qq hq
    · exact ⟨mpp, hm, hwwid.symm⟩
    · exact ⟨qq, hq, rfl⟩
  have hnew (m' : ℕ) (qq : OwnedMap) (hq : s.map m' = some qq) :
      ∃ qq', (s.setMap m mpp').map m' = some qq' ∧ qq'.wwid = qq.wwid := by
    by_cases hne : m' = m
    · subst hne
      obtain rfl := Option.some.inj (hm.symm.trans hq)
      exact ⟨mpp', s.setMap_self m' mpp', hwwid⟩
    · exact ⟨qq, (s.setMap_of_ne mpp' hne).trans hq, rfl⟩
  constructor
  case nodup => exact h.nodup
  case listed => exact h.listed
  case mpvec => exact h.mpvec
  case named => exact h.named
  case freshPath => exact h.freshPath
  case distinct =>
    intro m' qq hq
    obtain ⟨rfl, rfl⟩ | hq := hold m' qq hq
    · exact hdistinct
    · exact h.distinct m' qq hq
  case member =>
    intro m' qq hq
    obtain ⟨rfl, rfl⟩ | hq := hold m' qq hq
    · exact hmember
    · exact h.member m' qq hq
  case grouped =>
    intro m' qq hq
    obtain ⟨rfl, rfl⟩ | hq := hold m' qq hq
    · exact hgrouped
    · exact h.grouped m' qq hq
  case owner =>
    intro q qq m' hq hmpp
    obtain ⟨hmem, mm, hmm, hrest⟩ := h.owner q qq m' hq hmpp
    obtain ⟨mm', hmm', hsame⟩ := hnew m' mm hmm
    exact ⟨hmem, mm', hmm', hsame ▸ hrest⟩
  case wwid =>
    intro m' qq hq
    obtain ⟨qq', hq', hsame⟩ := hwwids m' qq hq
    exact hsame ▸ h.wwid m' qq' hq'
  case unique =>
    intro m₁ m₂ q₁ q₂ h₁ h₂ heq
    obtain ⟨q₁', h₁', hsame₁⟩ := hwwids m₁ q₁ h₁
    obtain ⟨q₂', h₂', hsame₂⟩ := hwwids m₂ q₂ h₂
    exact h.unique m₁ m₂ q₁' q₂' h₁' h₂' (hsame₁.trans (heq.trans hsame₂.symm))
  case registered =>
    intro m' hm'
    obtain ⟨qq, hq⟩ := h.registered m' hm'
    obtain ⟨qq', hq', -⟩ := hnew m' qq hq
    exact ⟨qq', hq'⟩

/-- A map that is not registered and owns no path is freed. -/
theorem Owned.dropMap (h : Owned s) (hnot : m ∉ s.mpvec)
    (hown : ∀ p pp, s.path p = some pp → pp.mpp ≠ some m) : Owned (s.dropMap m) := by
  have hold {m' : ℕ} {qq : OwnedMap} (hq : (s.dropMap m).map m' = some qq) : s.map m' = some qq := by
    by_cases hne : m' = m
    · subst hne
      rw [show (s.dropMap m').map m' = none from Function.update_self _ _ _] at hq
      cases hq
    · exact (Function.update_of_ne hne _ _).symm.trans hq
  have hkeep {m' : ℕ} {qq : OwnedMap} (hq : s.map m' = some qq) (hne : m' ≠ m) :
      (s.dropMap m).map m' = some qq := (Function.update_of_ne hne _ _).trans hq
  constructor
  case nodup => exact h.nodup
  case listed => exact h.listed
  case mpvec => exact h.mpvec
  case named => exact h.named
  case freshPath => exact h.freshPath
  case distinct => exact fun m' qq hq => h.distinct m' qq (hold hq)
  case member => exact fun m' qq hq => h.member m' qq (hold hq)
  case grouped => exact fun m' qq hq => h.grouped m' qq (hold hq)
  case owner =>
    intro q qq m' hq hmpp
    obtain ⟨hmem, mm, hmm, hrest⟩ := h.owner q qq m' hq hmpp
    refine ⟨hmem, mm, hkeep hmm ?_, hrest⟩
    rintro rfl
    exact hown q qq hq hmpp
  case wwid => exact fun m' qq hq => h.wwid m' qq (hold hq)
  case unique => exact fun m₁ m₂ q₁ q₂ h₁ h₂ => h.unique m₁ m₂ q₁ q₂ (hold h₁) (hold h₂)
  case registered =>
    intro m' hm'
    obtain ⟨qq, hq⟩ := h.registered m' hm'
    refine ⟨qq, hkeep hq ?_⟩
    rintro rfl
    exact hnot hm'

/-- Other maps are registered. -/
theorem Owned.setMpvec (h : Owned s) {v : List ℕ} (hnodup : v.Nodup)
    (hv : ∀ m ∈ v, ∃ mpp, s.map m = some mpp) : Owned { s with mpvec := v } :=
  ⟨h.nodup, h.listed, h.distinct, h.member, h.grouped, h.owner, h.named, h.wwid, h.unique, hnodup,
    hv, h.freshPath⟩

end Updates

end MultipathTools.Vecs
