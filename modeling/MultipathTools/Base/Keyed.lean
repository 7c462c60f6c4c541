import Mathlib.Data.List.DropRight
import Mathlib.Data.List.Nodup
import Mathlib.Data.List.Perm.Basic
import Mathlib.Order.Lattice

/-! Lists whose entries have a key. Where no key occurs twice, a list is, up to the order, one of its
entries and the entries with other keys; where the keys are sorted, a search from the end finds the place
of an entry. -/
namespace MultipathTools

section Keys

variable {α κ : Type*} [DecidableEq κ]

/-- The entries with another key. -/
def others (key : α → κ) (k : κ) (l : List α) : List α :=
  l.filter fun a => key a ≠ k

/-- The entry with key `k` is changed by `f`. -/
def updateKey (key : α → κ) (k : κ) (f : α → α) (l : List α) : List α :=
  l.map fun a => if key a = k then f a else a

variable {key : α → κ} {k : κ} {l : List α} {a : α}

theorem mem_others : a ∈ others key k l ↔ a ∈ l ∧ key a ≠ k := by simp [others]

theorem others_sublist : List.Sublist (others key k l) l := List.filter_sublist

theorem map_key_updateKey {f : α → α} (hf : ∀ a, key (f a) = key a) :
    (updateKey key k f l).map key = l.map key := by
  rw [updateKey, List.map_map]
  refine List.map_congr_left fun a _ => ?_
  show key (if key a = k then f a else a) = key a
  split_ifs
  · exact hf a
  · rfl

theorem updateKey_updateKey {f g : α → α} (hf : ∀ a, key (f a) = key a) :
    updateKey key k g (updateKey key k f l) = updateKey key k (g ∘ f) l := by
  rw [updateKey, updateKey, List.map_map]
  refine List.map_congr_left fun a _ => ?_
  show (if key (if key a = k then f a else a) = k then _ else _) = _
  by_cases ha : key a = k
  · simp [ha, hf]
  · simp [ha]

theorem updateKey_id : updateKey key k id l = l := by simp [updateKey]

theorem updateKey_of_not_mem {f : α → α} (h : k ∉ l.map key) : updateKey key k f l = l := by
  rw [updateKey]
  refine (List.map_congr_left fun a ha => if_neg ?_).trans (List.map_id l)
  rintro rfl
  exact h (List.mem_map_of_mem ha)

theorem others_of_not_mem (h : k ∉ l.map key) : others key k l = l := by
  refine List.filter_eq_self.mpr fun a ha => decide_eq_true ?_
  rintro rfl
  exact h (List.mem_map_of_mem ha)

/-- The changed list, up to the order. -/
theorem updateKey_perm (hl : (l.map key).Nodup) (ha : a ∈ l) (f : α → α) :
    (updateKey key (key a) f l).Perm (f a :: others key (key a) l) := by
  induction l with
  | nil => cases ha
  | cons b l ih =>
    rw [List.map_cons, List.nodup_cons] at hl
    rcases List.mem_cons.mp ha with rfl | ha
    · have hupdate : updateKey key (key a) f (a :: l) = f a :: updateKey key (key a) f l := by
        simp [updateKey]
      have hothers : others key (key a) (a :: l) = others key (key a) l := by
        simp [others]
      rw [hupdate, hothers, updateKey_of_not_mem hl.1, others_of_not_mem hl.1]
    · have hne : key b ≠ key a := fun h => hl.1 (h ▸ List.mem_map_of_mem ha)
      have hupdate : updateKey key (key a) f (b :: l) = b :: updateKey key (key a) f l := by
        simp [updateKey, hne]
      have hothers : others key (key a) (b :: l) = b :: others key (key a) l := by
        simp [others, hne]
      rw [hupdate, hothers]
      exact ((ih hl.2 ha).cons b).trans (List.Perm.swap (f a) b _)

theorem perm_cons_others (hl : (l.map key).Nodup) (ha : a ∈ l) :
    l.Perm (a :: others key (key a) l) := by
  simpa [updateKey_id] using updateKey_perm hl ha id

/-- A search by key finds the entry. -/
theorem find?_key (hl : (l.map key).Nodup) (ha : a ∈ l) :
    l.find? (fun b => key b = key a) = some a := by
  induction l with
  | nil => cases ha
  | cons b l ih =>
    rw [List.map_cons, List.nodup_cons] at hl
    rcases List.mem_cons.mp ha with rfl | ha
    · exact List.find?_cons_of_pos (by simp)
    · have hne : key b ≠ key a := fun h => hl.1 (h ▸ List.mem_map_of_mem ha)
      rw [List.find?_cons_of_neg (by simpa using hne)]
      exact ih hl.2 ha

theorem key_eq_of_find? (h : l.find? (fun b => key b = k) = some a) : key a = k := by
  simpa using List.find?_some h

end Keys

section Sorted

variable {α κ : Type*} [LinearOrder κ] {key : α → κ} {k : κ} {a : α} {l : List α}

def SortedKeys (key : α → κ) (l : List α) : Prop := l.Pairwise fun a b => key a < key b

/-- What is left of a list when a search from the end has passed the greater keys. -/
def upTo (key : α → κ) (k : κ) (l : List α) : List α := l.rdropWhile fun a => k < key a

/-- What the search has passed. -/
def above (key : α → κ) (k : κ) (l : List α) : List α := l.rtakeWhile fun a => k < key a

theorem upTo_append_above (key : α → κ) (k : κ) (l : List α) : upTo key k l ++ above key k l = l :=
  List.rdropWhile_append_rtakeWhile

theorem upTo_sublist (key : α → κ) (k : κ) (l : List α) : (upTo key k l).Sublist l := by
  conv_rhs => rw [← upTo_append_above key k l]
  exact List.sublist_append_left _ _

theorem lt_of_mem_above (h : a ∈ above key k l) : k < key a := by
  have hp := List.mem_rtakeWhile_imp h
  exact of_decide_eq_true hp

theorem le_of_getLast? {b : α} (hl : SortedKeys key l) (hb : l.getLast? = some b) (ha : a ∈ l) :
    key a ≤ key b := by
  obtain ⟨init, rfl⟩ := List.getLast?_eq_some_iff.mp hb
  rcases List.mem_append.mp ha with hmem | hmem
  · exact ((List.pairwise_append.mp hl).2.2 a hmem b (List.mem_singleton_self _)).le
  · rw [List.mem_singleton.mp hmem]

theorem le_of_getLast?_upTo (h : (upTo key k l).getLast? = some a) : key a ≤ k := by
  have hne : upTo key k l ≠ [] := by
    intro hnil
    rw [hnil] at h
    cases h
  have hnot := List.rdropWhile_last_not (fun a => decide (k < key a)) l hne
  rw [List.getLast?_eq_some_getLast hne] at h
  obtain rfl := Option.some.inj h
  exact not_lt.mp fun hlt => hnot (decide_eq_true hlt)

theorem le_of_mem_upTo (hl : SortedKeys key l) (h : a ∈ upTo key k l) : key a ≤ k := by
  have hlast := List.getLast?_eq_some_getLast (List.ne_nil_of_mem h)
  exact (le_of_getLast? (hl.sublist (upTo_sublist key k l)) hlast h).trans
    (le_of_getLast?_upTo hlast)

/-- If the key is there, the search stops at it. -/
theorem mem_keys_iff (hl : SortedKeys key l) :
    k ∈ l.map key ↔ ∃ b, (upTo key k l).getLast? = some b ∧ key b = k := by
  constructor
  · intro h
    obtain ⟨a, ha, rfl⟩ := List.mem_map.mp h
    rw [← upTo_append_above key (key a) l] at ha
    rcases List.mem_append.mp ha with hup | habove
    · have hlast := List.getLast?_eq_some_getLast (List.ne_nil_of_mem hup)
      refine ⟨_, hlast, le_antisymm (le_of_getLast?_upTo hlast) ?_⟩
      exact le_of_getLast? (hl.sublist (upTo_sublist key (key a) l)) hlast hup
    · exact absurd (lt_of_mem_above habove) (lt_irrefl _)
  · rintro ⟨b, hb, rfl⟩
    exact List.mem_map_of_mem ((upTo_sublist key (key b) l).subset (List.mem_of_getLast? hb))

/-- An entry with a new key comes to where the search stops. -/
theorem sortedKeys_insert (hl : SortedKeys key l) (ha : key a ∉ l.map key) :
    SortedKeys key (upTo key (key a) l ++ a :: above key (key a) l) := by
  have hparts := hl
  rw [← upTo_append_above key (key a) l] at hparts
  obtain ⟨hup, habove, hcross⟩ := List.pairwise_append.mp hparts
  refine List.pairwise_append.mpr ⟨hup, List.pairwise_cons.mpr ⟨?_, habove⟩, ?_⟩
  · exact fun b hb => lt_of_mem_above hb
  · intro b hb c hc
    rcases List.mem_cons.mp hc with rfl | hc
    · refine lt_of_le_of_ne (le_of_mem_upTo hl hb) fun heq => ha ?_
      exact heq ▸ List.mem_map_of_mem ((upTo_sublist key _ l).subset hb)
    · exact hcross b hb c hc

theorem mem_insert {b : α} : b ∈ upTo key k l ++ a :: above key k l ↔ b = a ∨ b ∈ l := by
  rw [List.mem_append, List.mem_cons, or_left_comm, ← List.mem_append, upTo_append_above]

theorem SortedKeys.nodup (hl : SortedKeys key l) : (l.map key).Nodup :=
  List.pairwise_map.mpr (hl.imp fun hlt => hlt.ne)

theorem SortedKeys.eq_of_mem {b : α} (hl : SortedKeys key l) (ha : a ∈ l) (hb : b ∈ l)
    (h : key a = key b) : a = b :=
  List.inj_on_of_nodup_map hl.nodup ha hb h

/-- A search from the end of a list of smaller keys passes nothing. -/
theorem upTo_of_lt (h : ∀ b ∈ l, key b < k) : upTo key k l = l ∧ above key k l = [] := by
  have habove : above key k l = [] := by
    refine List.eq_nil_iff_forall_not_mem.mpr fun b hb => ?_
    have hmem : b ∈ l := by
      rw [← upTo_append_above key k l]
      exact List.mem_append_right _ hb
    exact lt_asymm (h b hmem) (lt_of_mem_above hb)
  have happend := upTo_append_above key k l
  rw [habove, List.append_nil] at happend
  exact ⟨happend, habove⟩

end Sorted

end MultipathTools
