import Mathlib.Data.List.Duplicate
import Mathlib.Data.List.Perm.Basic

/-! The sizes of the paths of one WWID, in the order in which `coalesce_paths` meets them. A size
of 0 is not known. A path is discarded when its size is not that of the map that was tried. -/
namespace MultipathTools.Configure

/-- Two paths agree in size unless both sizes are known and differ. -/
def Agree (l : List ℕ) : Prop := ∀ a ∈ l, ∀ b ∈ l, a = 0 ∨ b = 0 ∨ a = b

instance (l : List ℕ) : Decidable (Agree l) := by unfold Agree; infer_instance

/-- The size of a map: that of its first path, or the first one known among the later paths. -/
def mapSize (s : ℕ) (later : List ℕ) : ℕ :=
  if s ≠ 0 then s else (later.find? (· ≠ 0)).getD 0

/-- The later path is not one for a map of this size. -/
def Conflict (size s : ℕ) : Prop := size ≠ 0 ∧ s ≠ 0 ∧ s ≠ size

instance (size s : ℕ) : Decidable (Conflict size s) := by unfold Conflict; infer_instance

/-- A path with the mark that it was seen and discarded. -/
abbrev Seen := ℕ × Bool

def discard (size : ℕ) (p : Seen) : Seen := (p.1, p.2 || decide (Conflict size p.1))

/-- Some path that was not discarded by an earlier one makes a map without a conflict. -/
def makesMap : List Seen → Bool
  | [] => false
  | (_, true) :: later => makesMap later
  | (s, false) :: later =>
    let size := mapSize s (later.map Prod.fst)
    if size ≠ 0 ∧ ∀ p ∈ later, ¬Conflict size p.1 then true
    else makesMap (later.map (discard size))
termination_by l => l.length

/-- The paths before any was discarded. -/
def unseen (l : List ℕ) : List Seen := l.map (·, false)

@[simp] theorem makesMap_nil : makesMap [] = false := by rw [makesMap]

@[simp] theorem makesMap_cons_true (s : ℕ) (later : List Seen) :
    makesMap ((s, true) :: later) = makesMap later := by rw [makesMap]

theorem makesMap_cons_false (s : ℕ) (later : List Seen) :
    makesMap ((s, false) :: later) =
      (decide (mapSize s (later.map Prod.fst) ≠ 0 ∧
          ∀ p ∈ later, ¬Conflict (mapSize s (later.map Prod.fst)) p.1) ||
        makesMap (later.map (discard (mapSize s (later.map Prod.fst))))) := by
  rw [makesMap]
  by_cases h : mapSize s (later.map Prod.fst) ≠ 0 ∧
      ∀ p ∈ later, ¬Conflict (mapSize s (later.map Prod.fst)) p.1
  · rw [if_pos h, decide_eq_true h, Bool.true_or]
  · rw [if_neg h, decide_eq_false h, Bool.false_or]

/-- The size of a map is that of one of its paths, as far as one is known. -/
theorem mapSize_mem {s : ℕ} {later : List ℕ} (h : mapSize s later ≠ 0) :
    mapSize s later ∈ s :: later := by
  unfold mapSize at h ⊢
  split_ifs at h ⊢ with hs
  · exact List.mem_cons_self
  · cases hfind : later.find? (· ≠ 0) with
    | none =>
      rw [hfind] at h
      exact absurd rfl h
    | some t => exact List.mem_cons_of_mem _ (List.mem_of_find?_eq_some hfind)

theorem mapSize_eq_zero {s : ℕ} {later : List ℕ} :
    mapSize s later = 0 ↔ ∀ t ∈ s :: later, t = 0 := by
  unfold mapSize
  split_ifs with hs
  · simp [hs]
  · cases hfind : later.find? (· ≠ 0) with
    | none =>
      have hall : ∀ t ∈ later, t = 0 := by simpa using hfind
      exact iff_of_true rfl (List.forall_mem_cons.mpr ⟨not_not.mp hs, hall⟩)
    | some t =>
      have ht := List.find?_some hfind
      have hmem := List.mem_of_find?_eq_some hfind
      refine iff_of_false (by simpa using ht) fun hall => ?_
      simp [hall t (List.mem_cons_of_mem _ hmem)] at ht

/-- Paths whose sizes are all unknown make no map. -/
theorem makesMap_zeros {l : List Seen} (h : ∀ p ∈ l, p.1 = 0) : makesMap l = false := by
  induction hn : l.length generalizing l with
  | zero => simp [List.length_eq_zero_iff.mp hn]
  | succ n ih =>
    obtain ⟨⟨s, d⟩, later, rfl⟩ := List.exists_cons_of_length_eq_add_one hn
    rw [List.forall_mem_cons] at h
    have hlen : later.length = n := by simpa using hn
    cases d with
    | true => rw [makesMap_cons_true, ih h.2 hlen]
    | false =>
      have hsize : mapSize s (later.map Prod.fst) = 0 :=
        mapSize_eq_zero.mpr (List.forall_mem_cons.mpr ⟨h.1, List.forall_mem_map.mpr h.2⟩)
      have hrest : makesMap (later.map (discard 0)) = false :=
        ih (List.forall_mem_map.mpr h.2) (by simpa using hlen)
      rw [makesMap_cons_false, hsize, hrest]
      simp

/-- Paths that agree make a map as soon as one size is known. -/
theorem makesMap_agree {l : List ℕ} (h : Agree l) :
    makesMap (unseen l) = true ↔ ∃ s ∈ l, s ≠ 0 := by
  constructor
  · intro hm
    by_contra hall
    push Not at hall
    rw [makesMap_zeros (by simpa [unseen] using hall)] at hm
    exact Bool.false_ne_true hm
  · rintro ⟨t, ht, ht0⟩
    obtain _ | ⟨s, later⟩ := l
    · simp at ht
    have hfst : (unseen later).map Prod.fst = later := by simp [unseen, Function.comp_def]
    have hsize : mapSize s later ≠ 0 := fun h0 => ht0 (mapSize_eq_zero.mp h0 t ht)
    have hagree : ∀ p ∈ unseen later, ¬Conflict (mapSize s later) p.1 := by
      rintro p hp ⟨-, hp0, hne⟩
      have hmem : p.1 ∈ later := by
        rw [← hfst]
        exact List.mem_map_of_mem hp
      rcases h p.1 (List.mem_cons_of_mem _ hmem) _ (mapSize_mem hsize) with h0 | h0 | h0
      · exact hp0 h0
      · exact hsize h0
      · exact hne h0
    change makesMap ((s, false) :: unseen later) = true
    rw [makesMap_cons_false, hfst, decide_eq_true ⟨hsize, hagree⟩, Bool.true_or]

theorem makesMap_seen {l : List Seen} (h : ∀ p ∈ l, p.2 = true) : makesMap l = false := by
  induction l with
  | nil => exact makesMap_nil
  | cons p l ih =>
    obtain ⟨s, d⟩ := p
    rw [List.forall_mem_cons] at h
    obtain rfl : d = true := h.1
    rw [makesMap_cons_true, ih h.2]

/-- With known and distinct sizes, the first path discards all the others. -/
theorem makesMap_distinct {l : List ℕ} (hzero : 0 ∉ l) (hnodup : l.Nodup) (h : ¬Agree l) :
    makesMap (unseen l) = false := by
  obtain _ | ⟨s, later⟩ := l
  · simp [unseen]
  rw [List.nodup_cons] at hnodup
  simp only [List.mem_cons, not_or] at hzero
  have hs : s ≠ 0 := fun h0 => hzero.1 h0.symm
  have hsize : mapSize s later = s := if_pos hs
  have hfst : (unseen later).map Prod.fst = later := by simp [unseen, Function.comp_def]
  have hconflict : ∀ t ∈ later, Conflict s t := fun t ht =>
    ⟨hs, fun h0 => hzero.2 (h0 ▸ ht), fun he => hnodup.1 (he ▸ ht)⟩
  have hlater : later ≠ [] := by
    rintro rfl
    exact h (by simp [Agree])
  obtain ⟨t, ht⟩ := List.exists_mem_of_ne_nil later hlater
  change makesMap ((s, false) :: unseen later) = false
  rw [makesMap_cons_false, hfst, hsize, decide_eq_false, Bool.false_or]
  · refine makesMap_seen fun p hp => ?_
    obtain ⟨q, hq, rfl⟩ := List.mem_map.mp hp
    obtain ⟨t, ht, rfl⟩ := List.mem_map.mp hq
    simp [discard, hconflict t ht]
  · exact fun hall => hall.2 (t, false) (List.mem_map_of_mem ht) (hconflict t ht)

/-- A path of unknown size is never discarded; before a last path of known size it makes a map. -/
theorem makesMap_unknown_last {l : List Seen} {a : ℕ} {d : Bool} (ha : a ≠ 0) :
    makesMap (l ++ [(0, false), (a, d)]) = true := by
  induction hn : l.length generalizing l d with
  | zero =>
    rw [List.length_eq_zero_iff.mp hn, List.nil_append, makesMap_cons_false]
    simp [mapSize, ha, Conflict]
  | succ n ih =>
    obtain ⟨⟨s, b⟩, later, rfl⟩ := List.exists_cons_of_length_eq_add_one hn
    have hlen : later.length = n := by simpa using hn
    rw [List.cons_append]
    cases b with
    | true => rw [makesMap_cons_true, ih hlen]
    | false =>
      have hrest (size : ℕ) :
          makesMap ((later ++ [(0, false), (a, d)]).map (discard size)) = true := by
        have hunknown : discard size (0, false) = (0, false) := by simp [discard, Conflict]
        rw [List.map_append, List.map_cons, List.map_cons, List.map_nil, hunknown]
        exact ih (by simpa using hlen)
      rw [makesMap_cons_false, hrest, Bool.or_true]

/-- As long as only paths of the last one's size are left, that size is the map's. -/
theorem makesMap_same_last {l : List Seen} {a : ℕ} (ha : a ≠ 0)
    (h : ∀ p ∈ l, p.2 = false → p.1 = a) : makesMap (l ++ [(a, false)]) = true := by
  induction hn : l.length generalizing l with
  | zero =>
    rw [List.length_eq_zero_iff.mp hn, List.nil_append, makesMap_cons_false]
    simp [mapSize, ha]
  | succ n ih =>
    obtain ⟨⟨s, b⟩, later, rfl⟩ := List.exists_cons_of_length_eq_add_one hn
    have hlen : later.length = n := by simpa using hn
    rw [List.forall_mem_cons] at h
    rw [List.cons_append]
    cases b with
    | true => rw [makesMap_cons_true, ih h.2 hlen]
    | false =>
      obtain rfl : s = a := h.1 rfl
      have hsize (later : List ℕ) : mapSize s later = s := if_pos ha
      have hlast : discard s (s, false) = (s, false) := by simp [discard, Conflict]
      rw [makesMap_cons_false, hsize, List.map_append, List.map_cons, List.map_nil, hlast,
        ih _ (by simpa using hlen), Bool.or_true]
      rintro p hp hseen
      obtain ⟨q, hq, rfl⟩ := List.mem_map.mp hp
      exact h.2 q hq (Bool.or_eq_false_iff.mp hseen).1

/-- Two paths of one size, first and last, make a map whatever is between them. -/
theorem makesMap_same_ends {l : List ℕ} {a : ℕ} (ha : a ≠ 0) (hzero : 0 ∉ l) :
    makesMap (unseen (a :: (l ++ [a]))) = true := by
  have hsize (later : List ℕ) : mapSize a later = a := if_pos ha
  have hlast : discard a (a, false) = (a, false) := by simp [discard, Conflict]
  have hunseen : unseen (a :: (l ++ [a])) = (a, false) :: (unseen l ++ [(a, false)]) := by
    simp [unseen]
  rw [hunseen, makesMap_cons_false, hsize, List.map_append, List.map_cons, List.map_nil, hlast,
    makesMap_same_last ha, Bool.or_true]
  rintro p hp hseen
  obtain ⟨q, hq, rfl⟩ := List.mem_map.mp hp
  obtain ⟨t, ht, rfl⟩ := List.mem_map.mp hq
  have ht0 : t ≠ 0 := fun h0 => hzero (h0 ▸ ht)
  simpa [discard, Conflict, ha, ht0] using hseen

/-- Sizes that do not agree make a map in some order, unless they are known and distinct. -/
theorem exists_perm_makesMap {l : List ℕ} (h : ¬Agree l) (hsome : ¬(0 ∉ l ∧ l.Nodup)) :
    ∃ l', l'.Perm l ∧ makesMap (unseen l') = true := by
  by_cases hzero : 0 ∈ l
  · have hknown : ∃ a ∈ l, a ≠ 0 := by
      by_contra hall
      push Not at hall
      exact h fun a ha _ _ => Or.inl (hall a ha)
    obtain ⟨a, ha, ha0⟩ := hknown
    have hmem : a ∈ l.erase 0 := (List.mem_erase_of_ne ha0).mpr ha
    refine ⟨(l.erase 0).erase a ++ [0, a], ?_, ?_⟩
    · calc (l.erase 0).erase a ++ [0, a]
          |>.Perm ([0, a] ++ (l.erase 0).erase a) := List.perm_append_comm
        _ |>.Perm (0 :: l.erase 0) := ((List.perm_cons_erase hmem).symm).cons 0
        _ |>.Perm l := (List.perm_cons_erase hzero).symm
    · rw [unseen, List.map_append]
      exact makesMap_unknown_last ha0
  · have hdup : ¬l.Nodup := fun hn => hsome ⟨hzero, hn⟩
    rw [List.nodup_iff_forall_not_duplicate] at hdup
    push Not at hdup
    obtain ⟨a, ha⟩ := hdup
    have hmem : a ∈ l := ha.mem
    have ha0 : a ≠ 0 := fun h0 => hzero (h0 ▸ hmem)
    have hagain : a ∈ l.erase a := by
      rw [← List.count_pos_iff, List.count_erase_self]
      have := List.duplicate_iff_two_le_count.mp ha
      omega
    refine ⟨a :: ((l.erase a).erase a ++ [a]), ?_, makesMap_same_ends ha0 ?_⟩
    · exact ((List.perm_append_comm.trans (List.perm_cons_erase hagain).symm).cons a).trans
        (List.perm_cons_erase hmem).symm
    · exact fun h0 => hzero (List.mem_of_mem_erase (List.mem_of_mem_erase h0))

theorem Agree.perm {l l' : List ℕ} (h : Agree l) (hp : l'.Perm l) : Agree l' :=
  fun a ha b hb => h a (hp.subset ha) b (hp.subset hb)

/-- The order of the paths does not matter, and a map tells that they agree, exactly when they do
agree or no order makes a map. -/
theorem makesMap_order_iff {l : List ℕ} :
    (∀ l', l'.Perm l → (makesMap (unseen l') = makesMap (unseen l)) ∧
        (makesMap (unseen l') = true → Agree l')) ↔
      Agree l ∨ (0 ∉ l ∧ l.Nodup) := by
  constructor
  · intro h
    by_contra hnot
    obtain ⟨hagree, hsome⟩ := not_or.mp hnot
    obtain ⟨l', hp, hm⟩ := exists_perm_makesMap hagree hsome
    exact hagree (((h l' hp).2 hm).perm hp.symm)
  · rintro hl l' hp
    by_cases hagree : Agree l
    · refine ⟨?_, fun _ => hagree.perm hp⟩
      rw [Bool.eq_iff_iff, makesMap_agree (hagree.perm hp), makesMap_agree hagree]
      exact exists_congr fun s => and_congr_left fun _ => hp.mem_iff
    · obtain ⟨hzero, hnodup⟩ := hl.resolve_left hagree
      have hagree' : ¬Agree l' := fun h => hagree (h.perm hp.symm)
      have hm := makesMap_distinct (hp.mem_iff.not.mpr hzero) (hp.nodup_iff.mpr hnodup) hagree'
      rw [hm, makesMap_distinct hzero hnodup hagree]
      exact ⟨rfl, fun h => absurd h Bool.false_ne_true⟩

end MultipathTools.Configure
