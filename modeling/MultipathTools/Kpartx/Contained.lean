import Mathlib.Algebra.Order.BigOperators.Group.List
import Mathlib.Algebra.Order.Ring.Nat
import Mathlib.Data.List.GetD
import MultipathTools.Kpartx.Containers

/-! When the slices of BSD and Sun labels lie in their containers (`bsd.c`, `sun.c`). -/
namespace MultipathTools.Kpartx

section Relations

/-- The end of a slice in 32 bits. -/
def Slice.last (s : Slice) : ℕ := (s.start + s.size) % 2 ^ 32

/-- `b` begins in `a` and ends behind it. -/
def Crosses (a b : Slice) : Prop :=
  a.start < b.start ∧ b.start < a.last ∧ a.last < b.start + b.size

/-- `a` lies in `b`, by the end in 32 bits. -/
def Covers (a b : Slice) : Prop := b.start ≤ a.start ∧ a.last ≤ b.start + b.size

variable (l : List Slice)

/-- Slice `i` is not empty, and none that is not empty either at its turn begins in it and ends
behind it. -/
def Kept (i : ℕ) : Prop :=
  (slot l i).size ≠ 0 ∧ (∀ j, j < i → Crosses (slot l i) (slot l j) → ¬ Kept j) ∧
    ∀ j, i < j → Crosses (slot l i) (slot l j) → (slot l j).size = 0
termination_by i

/-- Slice `j` is not empty at the turn of slice `i`. -/
def Present (i j : ℕ) : Prop := (j < i ∧ Kept l j) ∨ i < j ∧ (slot l j).size ≠ 0

/-- Slice `j` is the last one that covers slice `i`. -/
def LastCover (i j : ℕ) : Prop :=
  Present l i j ∧ Covers (slot l i) (slot l j) ∧
    ∀ k, j < k → Present l i k → ¬ Covers (slot l i) (slot l k)

/-- The last slice that covers a slice includes it without a wrap-around, stays, and is not itself
covered last by it. -/
def Clean : Prop :=
  ∀ i j, Kept l i → LastCover l i j →
    (slot l i).start + (slot l i).size ≤ (slot l j).start + (slot l j).size ∧ Kept l j ∧
      ¬ LastCover l j i

end Relations

section Results

/-- From slice `i` on, the containers lead to a slice without container. -/
inductive Grounded (sp : List Slice) : ℕ → Prop
  | top {i : ℕ} : (slot sp i).container = 0 → Grounded sp i
  | inside {i j : ℕ} : (slot sp i).container = j + 1 → Grounded sp j → Grounded sp i

/-- Every slice that is not empty leads to one without container, and its container is not empty and
includes it. -/
def Nested (sp : List Slice) : Prop :=
  ∀ i, (slot sp i).size ≠ 0 → Grounded sp i ∧
    ∀ j, (slot sp i).container = j + 1 → (slot sp j).size ≠ 0 ∧
      (slot sp j).start ≤ (slot sp i).start ∧
      (slot sp i).start + (slot sp i).size ≤ (slot sp j).start + (slot sp j).size

end Results

section Relations

variable {l : List Slice} {i j k : ℕ}

theorem lt_length_of_size (h : (slot l i).size ≠ 0) : i < l.length := by
  by_contra hge
  refine h ?_
  rw [slot, List.getD_eq_default _ _ (Nat.not_lt.mp hge)]

theorem kept_iff : Kept l i ↔
    (slot l i).size ≠ 0 ∧ ¬ ∃ j, Present l i j ∧ Crosses (slot l i) (slot l j) := by
  rw [Kept]
  constructor
  · rintro ⟨hsize, hbefore, hbehind⟩
    refine ⟨hsize, ?_⟩
    rintro ⟨j, ⟨hj, hkept⟩ | ⟨hj, hne⟩, hcross⟩
    · exact hbefore j hj hcross hkept
    · exact hne (hbehind j hj hcross)
  · rintro ⟨hsize, hnot⟩
    refine ⟨hsize, fun j hj hcross hkept => hnot ⟨j, .inl ⟨hj, hkept⟩, hcross⟩,
      fun j hj hcross => ?_⟩
    by_contra hne
    exact hnot ⟨j, .inr ⟨hj, hne⟩, hcross⟩

theorem Kept.size (h : Kept l i) : (slot l i).size ≠ 0 := (kept_iff.mp h).1

theorem Present.size (h : Present l i j) : (slot l j).size ≠ 0 := by
  rcases h with ⟨-, hkept⟩ | ⟨-, hne⟩
  · exact hkept.size
  · exact hne

theorem Present.ne (h : Present l i j) : j ≠ i := by
  rcases h with ⟨hlt, -⟩ | ⟨hlt, -⟩ <;> omega

/-- A slice that stays is there at the turn of every other one. -/
theorem Kept.present (h : Kept l j) (hne : j ≠ i) : Present l i j := by
  rcases Nat.lt_or_gt_of_ne hne with hlt | hgt
  · exact .inl ⟨hlt, h⟩
  · exact .inr ⟨hgt, h.size⟩

theorem last_le (a : Slice) : a.last ≤ a.start + a.size := Nat.mod_le _ _

/-- The range of sectors is the same. -/
def SameRange (a b : Slice) : Prop := a.start = b.start ∧ a.size = b.size

theorem SameRange.covers {a b : Slice} (h : SameRange a b) : Covers a b := by
  have hlast := last_le a
  obtain ⟨hstart, hsize⟩ := h
  exact ⟨hstart.ge, by omega⟩

theorem SameRange.covers_iff {a b c : Slice} (h : SameRange a b) : Covers a c ↔ Covers b c := by
  rw [Covers, Covers, Slice.last, Slice.last, h.1, h.2]

/-- Of slices with the same range, two that are each covered last by the other one are the only ones
in a row. -/
theorem not_row (hclean : Clean l) (hi : Kept l i) (hj : Kept l j) (hk : Kept l k)
    (hij : LastCover l i j) (hjk : LastCover l j k) (hsame : SameRange (slot l i) (slot l j))
    (hsame' : SameRange (slot l j) (slot l k)) : False := by
  have hback : ¬ LastCover l j i := (hclean i j hi hij).2.2
  have hne : j ≠ i := hij.1.ne
  -- j is covered by i, so k is behind i
  have hik : i < k := by
    have hcovers : Covers (slot l j) (slot l i) := SameRange.covers ⟨hsame.1.symm, hsame.2.symm⟩
    have hle : ¬ k < i := fun hlt => hjk.2.2 i hlt (hi.present hne.symm) hcovers
    have hki : k ≠ i := by
      rintro rfl
      exact hback hjk
    omega
  have hsame'' : SameRange (slot l i) (slot l k) :=
    ⟨hsame.1.trans hsame'.1, hsame.2.trans hsame'.2⟩
  -- i is covered by k, so k is before j
  have hkj : k < j := by
    have hle : ¬ j < k := fun hlt => hij.2.2 k hlt (hk.present (by omega)) hsame''.covers
    have hkj := hjk.1.ne
    omega
  refine (hclean j k hj hjk).2.2 ⟨hj.present (by omega), ?_, fun m hm hpresent hcovers => ?_⟩
  · exact SameRange.covers ⟨hsame'.1.symm, hsame'.2.symm⟩
  · exact hij.2.2 m hm (.inr ⟨by omega, hpresent.size⟩) (hsame''.covers_iff.mpr hcovers)

end Relations

section Nesting

variable {l sp : List Slice} {i j : ℕ}

/-- What the loops leave of a slice. -/
structure Settled (l sp : List Slice) (i : ℕ) : Prop where
  start : (slot sp i).start = (slot l i).start
  kept : Kept l i → (slot sp i).size = (slot l i).size
  emptied : ¬ Kept l i → (slot sp i).size = 0
  container : Kept l i → ∀ j, (slot sp i).container = j + 1 ↔ LastCover l i j

theorem Settled.size_iff (h : Settled l sp i) : (slot sp i).size ≠ 0 ↔ Kept l i := by
  constructor
  · intro hsize
    by_contra hnot
    exact hsize (h.emptied hnot)
  · intro hkept
    rw [h.kept hkept]
    exact hkept.size

theorem Grounded.not_back (h : Grounded sp i) (hi : (slot sp i).container = j + 1)
    (hj : (slot sp j).container = i + 1) : False := by
  induction h generalizing j with
  | top htop =>
    rw [htop] at hi
    cases hi
  | inside hin _ ih =>
    obtain rfl := Nat.succ.inj (hin.symm.trans hi)
    exact ih hj hi

theorem clean_of_nested (hsettled : ∀ i, Settled l sp i) (h : Nested sp) : Clean l := by
  intro i j hi hij
  have hcontainer := ((hsettled i).container hi j).mpr hij
  obtain ⟨hgrounded, hinside⟩ := h i ((hsettled i).size_iff.mpr hi)
  obtain ⟨hsize, -, hend⟩ := hinside j hcontainer
  have hj := (hsettled j).size_iff.mp hsize
  rw [(hsettled i).start, (hsettled j).start, (hsettled i).kept hi, (hsettled j).kept hj] at hend
  refine ⟨hend, hj, fun hji => ?_⟩
  exact hgrounded.not_back hcontainer (((hsettled j).container hj i).mpr hji)

theorem grounded_of_clean (hsettled : ∀ i, Settled l sp i) (h : Clean l) (hi : Kept l i) :
    Grounded sp i := by
  have hbound (i : ℕ) : (slot l i).size ≤ (l.map Slice.size).sum := by
    rcases Nat.lt_or_ge i l.length with hlt | hge
    · refine List.le_sum_of_mem (List.mem_map_of_mem ?_)
      rw [slot, List.getD_eq_getElem _ _ hlt]
      exact List.getElem_mem hlt
    · rw [slot, List.getD_eq_default _ _ hge]
      exact Nat.zero_le _
  -- two steps in a row lead to a larger slice
  induction hd : (l.map Slice.size).sum - (slot l i).size using Nat.strongRecOn generalizing i with
  | ind d ih =>
    have htop {i : ℕ} (hi : Kept l i) (hnone : ¬ ∃ j, LastCover l i j) : Grounded sp i := by
      refine .top ?_
      cases hc : (slot sp i).container with
      | zero => rfl
      | succ j => exact absurd ⟨j, ((hsettled i).container hi j).mp hc⟩ hnone
    have hlarger {k : ℕ} (hk : Kept l k) (hlt : (slot l i).size < (slot l k).size) :
        Grounded sp k := by
      have hki := hbound k
      exact ih _ (by omega) hk rfl
    by_cases hcover : ∃ j, LastCover l i j
    · obtain ⟨j, hij⟩ := hcover
      obtain ⟨hend, hj, -⟩ := h i j hi hij
      refine .inside (((hsettled i).container hi j).mpr hij) ?_
      have hstart := hij.2.1.1
      by_cases hlt : (slot l i).size < (slot l j).size
      · exact hlarger hj hlt
      · by_cases hcover' : ∃ k, LastCover l j k
        · obtain ⟨k, hjk⟩ := hcover'
          obtain ⟨hend', hk, -⟩ := h j k hj hjk
          have hstart' := hjk.2.1.1
          refine .inside (((hsettled j).container hj k).mpr hjk) (hlarger hk ?_)
          by_contra hnot
          exact not_row h hi hj hk hij hjk ⟨by omega, by omega⟩ ⟨by omega, by omega⟩
        · exact htop hj hcover'
    · exact htop hi hcover

theorem nested_iff_clean (hsettled : ∀ i, Settled l sp i) : Nested sp ↔ Clean l := by
  refine ⟨clean_of_nested hsettled, fun h i hsize => ?_⟩
  have hi := (hsettled i).size_iff.mp hsize
  refine ⟨grounded_of_clean hsettled h hi, fun j hcontainer => ?_⟩
  have hij := ((hsettled i).container hi j).mp hcontainer
  obtain ⟨hend, hj, -⟩ := h i j hi hij
  rw [(hsettled i).start, (hsettled j).start, (hsettled i).kept hi, (hsettled j).kept hj]
  exact ⟨hj.size, hij.2.1.1, hend⟩

end Nesting

section Loops

variable {l sp : List Slice} {i j n last : ℕ} {s : Slice}

theorem slot_set_self (hi : i < sp.length) (s : Slice) : slot (sp.set i s) i = s := by
  rw [slot, List.getD_eq_getElem?_getD, List.getElem?_set_self hi]
  rfl

theorem slot_set_ne (hne : i ≠ j) (s : Slice) : slot (sp.set i s) j = slot sp j := by
  rw [slot, slot, List.getD_eq_getElem?_getD, List.getD_eq_getElem?_getD, List.getElem?_set_ne hne]

/-- A turn of the inner loop, for slice `i` alone. -/
def settleTurn (sp : List Slice) (i last : ℕ) (s : Slice) (j : ℕ) : Slice :=
  if i = j ∨ (slot sp j).size = 0 then s
  else if s.start < (slot sp j).start then
    if (slot sp j).start < last ∧ last < (slot sp j).start + (slot sp j).size then
      { s with size := 0 }
    else s
  else if last ≤ (slot sp j).start + (slot sp j).size then { s with container := j + 1 }
  else s

theorem containTurn_set (hi : i < sp.length) (s : Slice) (j : ℕ) :
    containTurn i last (sp.set i s) j = sp.set i (settleTurn sp i last s j) := by
  unfold containTurn settleTurn
  dsimp only
  rw [slot_set_self hi]
  by_cases hij : i = j
  · rw [if_pos hij, if_pos (.inl hij)]
  · rw [if_neg hij, slot_set_ne hij]
    by_cases hsize : (slot sp j).size = 0
    · rw [if_pos hsize, if_pos (.inr hsize)]
    · rw [if_neg hsize, if_neg (not_or.mpr ⟨hij, hsize⟩)]
      split_ifs <;> simp

/-- The inner loop changes slice `i` alone. -/
theorem foldl_containTurn (hi : i < sp.length) (js : List ℕ) (s : Slice) :
    js.foldl (containTurn i last) (sp.set i s) = sp.set i (js.foldl (settleTurn sp i last) s) := by
  induction js generalizing s with
  | nil => rfl
  | cons j js ih => rw [List.foldl_cons, List.foldl_cons, containTurn_set hi, ih]

/-- Slice `j` empties a slice that starts at `start`. -/
def Empties (sp : List Slice) (i start last j : ℕ) : Prop :=
  j ≠ i ∧ (slot sp j).size ≠ 0 ∧ start < (slot sp j).start ∧ (slot sp j).start < last ∧
    last < (slot sp j).start + (slot sp j).size

/-- Slice `j` becomes its container. -/
def Holds (sp : List Slice) (i start last j : ℕ) : Prop :=
  j ≠ i ∧ (slot sp j).size ≠ 0 ∧ (slot sp j).start ≤ start ∧
    last ≤ (slot sp j).start + (slot sp j).size

/-- What the inner loop has made of a slice after `n` turns. -/
structure Turned (sp : List Slice) (i last n : ℕ) (a s : Slice) : Prop where
  start : s.start = a.start
  emptied : (∃ j < n, Empties sp i a.start last j) → s.size = 0
  kept : (¬ ∃ j < n, Empties sp i a.start last j) → s.size = a.size
  container : ∀ j, s.container = j + 1 ↔ j < n ∧ Holds sp i a.start last j ∧
    ∀ k, j < k → k < n → ¬ Holds sp i a.start last k

theorem Turned.container_skip {a : Slice} (h : Turned sp i last n a s)
    (hholds : ¬ Holds sp i a.start last n) (j : ℕ) :
    s.container = j + 1 ↔ j < n + 1 ∧ Holds sp i a.start last j ∧
      ∀ k, j < k → k < n + 1 → ¬ Holds sp i a.start last k := by
  rw [h.container]
  constructor
  · rintro ⟨hj, hhj, hlast⟩
    refine ⟨by omega, hhj, fun k hjk hk hhk => ?_⟩
    have hne : k ≠ n := by
      rintro rfl
      exact hholds hhk
    exact hlast k hjk (by omega) hhk
  · rintro ⟨hj, hhj, hlast⟩
    have hne : j ≠ n := by
      rintro rfl
      exact hholds hhj
    exact ⟨by omega, hhj, fun k hjk hk => hlast k hjk (by omega)⟩

theorem exists_empties_succ {start : ℕ} (hempties : ¬ Empties sp i start last n) :
    (∃ j < n + 1, Empties sp i start last j) ↔ ∃ j < n, Empties sp i start last j := by
  constructor
  · rintro ⟨j, hj, hej⟩
    have hne : j ≠ n := by
      rintro rfl
      exact hempties hej
    exact ⟨j, by omega, hej⟩
  · rintro ⟨j, hj, hej⟩
    exact ⟨j, by omega, hej⟩

theorem Turned.skip {a : Slice} (h : Turned sp i last n a s)
    (hempties : ¬ Empties sp i a.start last n) (hholds : ¬ Holds sp i a.start last n) :
    Turned sp i last (n + 1) a s := by
  refine ⟨h.start, ?_, ?_, h.container_skip hholds⟩
  · rw [exists_empties_succ hempties]
    exact h.emptied
  · rw [exists_empties_succ hempties]
    exact h.kept

theorem settleTurn_turned {a : Slice} (h : Turned sp i last n a s) :
    Turned sp i last (n + 1) a (settleTurn sp i last s n) := by
  unfold settleTurn
  rw [h.start]
  split_ifs with hskip hstart hcross hcover
  · exact h.skip (fun he => hskip.elim (fun heq => he.1 heq.symm) he.2.1)
      (fun hh => hskip.elim (fun heq => hh.1 heq.symm) hh.2.1)
  · obtain ⟨hne, hsize⟩ := not_or.mp hskip
    have hempties : Empties sp i a.start last n := ⟨Ne.symm hne, hsize, hstart, hcross⟩
    have hholds : ¬ Holds sp i a.start last n := fun hh => Nat.not_lt.mpr hh.2.2.1 hstart
    exact ⟨rfl, fun _ => rfl, fun hnone => absurd ⟨n, Nat.lt_succ_self n, hempties⟩ hnone,
      h.container_skip hholds⟩
  · exact h.skip (fun he => hcross he.2.2.2) fun hh => Nat.not_lt.mpr hh.2.2.1 hstart
  · obtain ⟨hne, hsize⟩ := not_or.mp hskip
    have hholds : Holds sp i a.start last n := ⟨Ne.symm hne, hsize, by omega, hcover⟩
    have hempties : ¬ Empties sp i a.start last n := fun he => hstart he.2.2.1
    refine ⟨rfl, ?_, ?_, fun j => ?_⟩
    · rw [exists_empties_succ hempties]
      exact h.emptied
    · rw [exists_empties_succ hempties]
      exact h.kept
    · constructor
      · intro hj
        obtain rfl : n = j := Nat.succ.inj hj
        exact ⟨Nat.lt_succ_self n, hholds, fun k hk hk' => by omega⟩
      · rintro ⟨hj, -, hlast⟩
        have heq : j = n := by
          by_contra hne
          exact hlast n (by omega) (Nat.lt_succ_self n) hholds
        rw [heq]
  · exact h.skip (fun he => hstart he.2.2.1) fun hh => hcover hh.2.2.2

theorem foldl_settleTurn (hzero : s.container = 0) (n : ℕ) :
    Turned sp i last n s ((List.range n).foldl (settleTurn sp i last) s) := by
  induction n with
  | zero =>
    refine ⟨rfl, ?_, fun _ => rfl, fun j => ?_⟩
    · rintro ⟨j, hj, -⟩
      exact absurd hj (Nat.not_lt_zero j)
    · rw [List.range_zero, List.foldl_nil, hzero]
      constructor
      · intro hj
        cases hj
      · rintro ⟨hj, -⟩
        exact absurd hj (Nat.not_lt_zero j)
  | succ n ih =>
    rw [List.range_succ, List.foldl_append]
    exact settleTurn_turned ih

/-- What holds after the turns of the outer loop up to slice `k`. -/
structure Reached (l : List Slice) (k : ℕ) (sp : List Slice) : Prop where
  length : sp.length = l.length
  done : ∀ i < k, Settled l sp i
  todo : ∀ i, k ≤ i → slot sp i = slot l i

theorem Settled.congr (h : Settled l sp i) {sp' : List Slice} (heq : slot sp' i = slot sp i) :
    Settled l sp' i := by
  refine ⟨?_, ?_, ?_, ?_⟩
  · rw [heq]
    exact h.start
  · rw [heq]
    exact h.kept
  · rw [heq]
    exact h.emptied
  · rw [heq]
    exact h.container

variable {k : ℕ}

/-- A slice that is there at the turn of slice `k` has the range that it has in the label. -/
theorem Reached.present_iff (h : Reached l k sp) :
    (j ≠ k ∧ (slot sp j).size ≠ 0) ↔ Present l k j := by
  rcases Nat.lt_or_ge j k with hlt | hge
  · rw [(h.done j hlt).size_iff]
    constructor
    · exact fun hj => .inl ⟨hlt, hj.2⟩
    · rintro (⟨-, hkept⟩ | ⟨hgt, -⟩)
      · exact ⟨by omega, hkept⟩
      · omega
  · rw [h.todo j hge]
    constructor
    · exact fun hj => .inr ⟨by omega, hj.2⟩
    · rintro (⟨hlt, -⟩ | ⟨hgt, hsize⟩)
      · omega
      · exact ⟨by omega, hsize⟩

theorem Reached.sameRange (h : Reached l k sp) (hj : Present l k j) :
    SameRange (slot sp j) (slot l j) := by
  rcases hj with ⟨hlt, hkept⟩ | ⟨hgt, -⟩
  · exact ⟨(h.done j hlt).start, (h.done j hlt).kept hkept⟩
  · rw [h.todo j (by omega)]
    exact ⟨rfl, rfl⟩

theorem Reached.empties_iff (h : Reached l k sp) :
    Empties sp k (slot l k).start (slot l k).last j ↔
      Present l k j ∧ Crosses (slot l k) (slot l j) := by
  rw [Empties, ← and_assoc, h.present_iff]
  refine and_congr_right fun hj => ?_
  obtain ⟨hstart, hsize⟩ := h.sameRange hj
  rw [hstart, hsize, Crosses]

theorem Reached.holds_iff (h : Reached l k sp) :
    Holds sp k (slot l k).start (slot l k).last j ↔
      Present l k j ∧ Covers (slot l k) (slot l j) := by
  rw [Holds, ← and_assoc, h.present_iff]
  refine and_congr_right fun hj => ?_
  obtain ⟨hstart, hsize⟩ := h.sameRange hj
  rw [hstart, hsize, Covers]

theorem Turned.settled {sp' : List Slice} (hs : Turned sp k (slot l k).last n (slot l k) s)
    (h : Reached l k sp) (hn : l.length ≤ n) (hsize : (slot l k).size ≠ 0)
    (hslot : slot sp' k = s) : Settled l sp' k := by
  have hlt {j : ℕ} (hj : Present l k j) : j < n :=
    Nat.lt_of_lt_of_le (lt_length_of_size hj.size) hn
  have hempties : (∃ j < n, Empties sp k (slot l k).start (slot l k).last j) ↔
      ∃ j, Present l k j ∧ Crosses (slot l k) (slot l j) := by
    constructor
    · rintro ⟨j, -, hj⟩
      exact ⟨j, h.empties_iff.mp hj⟩
    · rintro ⟨j, hj⟩
      exact ⟨j, hlt hj.1, h.empties_iff.mpr hj⟩
  rw [← hslot] at hs
  refine ⟨hs.start, fun hkept => hs.kept ?_, fun hnot => hs.emptied ?_, fun _ j => ?_⟩
  · rw [hempties]
    exact (kept_iff.mp hkept).2
  · rw [hempties]
    by_contra hnone
    exact hnot (kept_iff.mpr ⟨hsize, hnone⟩)
  · rw [hs.container, h.holds_iff, LastCover]
    constructor
    · rintro ⟨-, ⟨hpresent, hcovers⟩, hlast⟩
      refine ⟨hpresent, hcovers, fun m hm hpm hcm => ?_⟩
      exact hlast m hm (hlt hpm) (h.holds_iff.mpr ⟨hpm, hcm⟩)
    · rintro ⟨hpresent, hcovers, hlast⟩
      refine ⟨hlt hpresent, ⟨hpresent, hcovers⟩, fun m hm _ hholds => ?_⟩
      obtain ⟨hpm, hcm⟩ := h.holds_iff.mp hholds
      exact hlast m hm hpm hcm

theorem containSlice_reached (hzero : ∀ i, (slot l i).container = 0) (hn : l.length ≤ n)
    (h : Reached l k sp) : Reached l (k + 1) (containSlice n sp k) := by
  have hk := h.todo k (Nat.le_refl k)
  unfold containSlice
  dsimp only
  rw [hk]
  split_ifs with hsize
  · refine ⟨h.length, fun i hi => ?_, fun i hi => h.todo i (by omega)⟩
    by_cases heq : i = k
    · subst heq
      have hnot : ¬ Kept l i := fun hkept => hkept.size hsize
      refine ⟨by rw [hk], fun hkept => absurd hkept hnot, fun _ => by rw [hk, hsize],
        fun hkept => absurd hkept hnot⟩
    · exact h.done i (by omega)
  · have hlt : k < sp.length := h.length ▸ lt_length_of_size hsize
    have hloop := @foldl_containTurn _ _ (slot l k).last hlt (List.range n) (slot sp k)
    have hself : sp.set k (slot sp k) = sp := by
      rw [slot, List.getD_eq_getElem _ _ hlt, List.set_getElem_self]
    rw [hself, hk] at hloop
    have hturned := @foldl_settleTurn sp k (slot l k).last _ (hzero k) n
    rw [Slice.last] at hloop hturned
    rw [hloop]
    refine ⟨by rw [List.length_set, h.length], fun i hi => ?_, fun i hi => ?_⟩
    · by_cases heq : i = k
      · subst heq
        exact Turned.settled hturned h hn hsize (slot_set_self hlt _)
      · exact (h.done i (by omega)).congr (slot_set_ne (Ne.symm heq) _)
    · rw [slot_set_ne (by omega), h.todo i (by omega)]

theorem containSlices_settled (hzero : ∀ s ∈ l, s.container = 0) (hn : l.length ≤ n) (i : ℕ) :
    Settled l (containSlices n l) i := by
  have hzero' (i : ℕ) : (slot l i).container = 0 := by
    rcases Nat.lt_or_ge i l.length with hlt | hge
    · rw [slot, List.getD_eq_getElem _ _ hlt]
      exact hzero _ (List.getElem_mem hlt)
    · rw [slot, List.getD_eq_default _ _ hge]
  have hreached (k : ℕ) : Reached l k ((List.range k).foldl (containSlice n) l) := by
    induction k with
    | zero => exact ⟨rfl, fun i hi => absurd hi (Nat.not_lt_zero i), fun _ _ => rfl⟩
    | succ k ih =>
      rw [List.range_succ, List.foldl_append]
      exact containSlice_reached hzero' hn ih
  rcases Nat.lt_or_ge i n with hlt | hge
  · exact (hreached n).done i hlt
  · -- the slices behind the last one are empty
    have hslot : slot (containSlices n l) i = slot l i := (hreached n).todo i hge
    have hempty : (slot l i).size = 0 := by
      by_contra hne
      exact absurd (lt_length_of_size hne) (by omega)
    have hnot : ¬ Kept l i := fun hkept => hkept.size hempty
    exact ⟨by rw [hslot], fun hkept => absurd hkept hnot, fun _ => by rw [hslot, hempty],
      fun hkept => absurd hkept hnot⟩

end Loops

theorem containSlices_nested_iff {l : List Slice} {n : ℕ} (hzero : ∀ s ∈ l, s.container = 0)
    (hn : l.length ≤ n) : Nested (containSlices n l) ↔ Clean l :=
  nested_iff_clean (containSlices_settled hzero hn)

/-- For every label that a reader accepts, its slices lie in their containers exactly if the last
slices that cover them by their ends in 32 bits do. -/
theorem labels_nested_iff (disk : Disk) (offset : BitVec 32) (ns : ℕ) :
    (∀ l, bsdDisklabel disk offset = some l →
      ∃ sp, readBsdPt disk offset ns = some sp ∧ (Nested sp ↔ Clean (bsdSlices l ns))) ∧
    ∀ l, sunDiskLabel disk offset = some l →
      ∃ sp, readSunPt disk offset ns = some sp ∧ (Nested sp ↔ Clean (sunSlices l offset ns)) := by
  constructor
  · intro l hl
    refine ⟨_, by rw [readBsdPt, hl, Option.map_some], containSlices_nested_iff ?_ (Nat.le_refl _)⟩
    intro s hs
    obtain ⟨k, -, rfl⟩ := List.mem_map.mp hs
    rfl
  · intro l hl
    refine ⟨_, by rw [readSunPt, hl, Option.map_some], containSlices_nested_iff ?_ ?_⟩
    · intro s hs
      obtain ⟨k, -, rfl⟩ := List.mem_map.mp hs
      rfl
    · rw [sunSlices, List.length_map]
      exact List.length_take_le' ns (List.range sunDiskMaxpartitions)

/-- A block with a BSD label that has two partitions of the first ten sectors. -/
def twinLabel : List Byte :=
  [0x57, 0x45, 0x56, 0x82] ++ List.replicate 134 0 ++ [2, 0] ++ List.replicate 8 0 ++
    ([10, 0, 0, 0] ++ List.replicate 8 0 ++ [7, 0, 0, 0]) ++
    ([10, 0, 0, 0] ++ List.replicate 8 0 ++ [7, 0, 0, 0]) ++ List.replicate 332 0

/-- Two slices with the same range are containers of each other. -/
theorem readBsdPt_nested_fails :
    ¬ ∀ (disk : Disk) (offset : BitVec 32) (ns : ℕ) (sp : List Slice),
      readBsdPt disk offset ns = some sp → Nested sp := by
  intro h
  have hread : readBsdPt (fun _ => some ⟨twinLabel, by decide +kernel⟩) 0 256 =
      some [{ size := 10, container := 2 }, { size := 10, container := 1 }] := by decide
  have hnested := h _ 0 256 _ hread 0 (by decide)
  exact hnested.1.not_back (j := 1) rfl rfl

end MultipathTools.Kpartx
