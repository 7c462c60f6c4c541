import Mathlib.Data.List.InsertIdx
import MultipathTools.Config.Factorize

/-! The hardware table after `factorize_hwtable`, for any table and any number of built-in
entries. -/
namespace MultipathTools.Config

/-- The loops of `factorize_hwtable`, with the value that the number of built-in entries has at
their end. -/
def factorizeBoundary (hw : List Hwentry) (n i : ℕ) : List Hwentry × ℕ :=
  if h : i < hw.length then
    let hwe1 := hw[i]
    if n ≤ i ∧ (hwe1.str .vendor = none ∨ hwe1.str .product = none) then
      factorizeBoundary (hw.eraseIdx i) n i
    else
      match findDuplicate hw hwe1 (if n > i + 1 then n else i + 1) with
      | some j =>
        factorizeBoundary ((hw.modify j fun hwe2 => mergeHwe hwe2 hwe1).eraseIdx i)
          (if i < n then n - 1 else n) 0
      | none => factorizeBoundary hw n (i + 1)
  else (hw, n)
termination_by (hw.length, hw.length - i)
decreasing_by
  · exact Prod.Lex.left _ _ (by rw [List.length_eraseIdx_of_lt h]; omega)
  · refine Prod.Lex.left _ _ ?_
    rw [List.length_eraseIdx_of_lt (by rwa [List.length_modify]), List.length_modify]
    omega
  · exact Prod.Lex.right _ (by omega)

theorem factorizeBoundary_fst (hw : List Hwentry) (n i : ℕ) :
    (factorizeBoundary hw n i).1 = factorizeFrom hw n i := by
  fun_induction factorizeBoundary hw n i with
  | case1 hw n i h hwe1 hdrop ih =>
    rw [factorizeFrom, dif_pos h]
    dsimp only
    rw [if_pos hdrop, ih]
  | case2 hw n i h hwe1 hdrop j hj ih =>
    simp only [dite_eq_ite] at hj ih
    rw [factorizeFrom, dif_pos h]
    change _ = if _ then _ else match findDuplicate hw hwe1 _ with | some _ => _ | none => _
    rw [if_neg hdrop, hj, ih]
  | case3 hw n i h hwe1 hdrop hj ih =>
    simp only [dite_eq_ite] at hj
    rw [factorizeFrom, dif_pos h]
    change _ = if _ then _ else match findDuplicate hw hwe1 _ with | some _ => _ | none => _
    rw [if_neg hdrop, hj, ih]
  | case4 hw n i h => rw [factorizeFrom, dif_neg h]

/-- The table and the number of built-in entries after one change. -/
inductive FactorizeStep : List Hwentry × ℕ → List Hwentry × ℕ → Prop
  | drop {hw : List Hwentry} {n i : ℕ} {hwe1 : Hwentry} (hi : hw[i]? = some hwe1) (hn : n ≤ i)
      (hcomplete : ¬ hwe1.ident.Complete) : FactorizeStep (hw, n) (hw.eraseIdx i, n)
  | merge {hw : List Hwentry} {n i j : ℕ} {hwe1 hwe2 : Hwentry} (hi : hw[i]? = some hwe1)
      (hj : hw[j]? = some hwe2) (hij : i < j) (hn : n ≤ j) (hident : hwe2.ident = hwe1.ident) :
      FactorizeStep (hw, n) ((hw.modify j fun hwe2 => mergeHwe hwe2 hwe1).eraseIdx i,
        if i < n then n - 1 else n)

theorem incomplete_iff {hwe : Hwentry} :
    (hwe.str .vendor = none ∨ hwe.str .product = none) ↔ ¬ hwe.ident.Complete := by
  rw [Ident.Complete, not_and_or, not_not, not_not]
  exact Iff.rfl

theorem findDuplicate_some {hw : List Hwentry} {hwe1 : Hwentry} {s j : ℕ}
    (h : findDuplicate hw hwe1 s = some j) :
    s ≤ j ∧ ∃ hwe2, hw[j]? = some hwe2 ∧ hwe2.ident = hwe1.ident := by
  obtain ⟨k, hk, rfl⟩ := Option.map_eq_some_iff.mp h
  obtain ⟨hlt, hmatch, -⟩ := List.findIdx?_eq_some_iff_getElem.mp hk
  rw [List.length_drop] at hlt
  refine ⟨Nat.le_add_right s k, hw[s + k], List.getElem?_eq_getElem (by omega), ?_⟩
  rw [List.getElem_drop] at hmatch
  exact hweStrmatch_eq_zero.mp (of_decide_eq_true hmatch)

theorem findDuplicate_none {hw : List Hwentry} {hwe1 : Hwentry} {s : ℕ}
    (h : findDuplicate hw hwe1 s = none) {j : ℕ} {hwe2 : Hwentry} (hs : s ≤ j)
    (hj : hw[j]? = some hwe2) : hwe2.ident ≠ hwe1.ident := by
  intro hident
  have hno := List.findIdx?_eq_none_iff.mp (Option.map_eq_none_iff.mp h) hwe2
    (List.mem_of_getElem? (i := j - s) (by rw [List.getElem?_drop, Nat.add_sub_cancel' hs, hj]))
  rw [hweStrmatch_decide] at hno
  exact of_decide_eq_false hno hident

/-- The loops are a sequence of such changes. -/
theorem factorizeBoundary_steps (hw : List Hwentry) (n i : ℕ) :
    Relation.ReflTransGen FactorizeStep (hw, n) (factorizeBoundary hw n i) := by
  fun_induction factorizeBoundary hw n i with
  | case1 hw n i h hwe1 hdrop ih =>
    apply Relation.ReflTransGen.head _ ih
    exact .drop (List.getElem?_eq_getElem h) hdrop.1 (incomplete_iff.mp hdrop.2)
  | case2 hw n i h hwe1 hdrop j hj ih =>
    obtain ⟨hle, hwe2, hget, hident⟩ := findDuplicate_some hj
    apply Relation.ReflTransGen.head _ ih
    exact .merge (List.getElem?_eq_getElem h) hget (by split_ifs at hle <;> omega)
      (by split_ifs at hle <;> omega) hident
  | case3 hw n i h hwe1 hdrop hj ih => exact ih
  | case4 hw n i h => exact .refl

/-- An entry after some entries with the same strings were merged into it. -/
def MergedFrom (hwe r : Hwentry) : Prop :=
  Relation.ReflTransGen (fun a b => ∃ src : Hwentry, src.ident = a.ident ∧ b = mergeHwe a src) hwe r

theorem MergedFrom.ident {hwe r : Hwentry} (h : MergedFrom hwe r) : r.ident = hwe.ident := by
  induction h with
  | refl => rfl
  | tail _ hstep ih =>
    obtain ⟨src, hsrc, rfl⟩ := hstep
    rw [mergeHwe_ident hsrc.symm, ih]

/-- The entries that remain stem from entries before, in the same order. -/
def StemsFrom (hw' hw : List Hwentry) : Prop :=
  List.SublistForall₂ (fun r hwe => MergedFrom hwe r) hw' hw

instance : IsTrans Hwentry fun r hwe => MergedFrom hwe r :=
  ⟨fun _ _ _ h h' => h'.trans h⟩

theorem StemsFrom.refl (hw : List Hwentry) : StemsFrom hw hw := by
  induction hw with
  | nil => exact .nil
  | cons hwe hw ih => exact .cons .refl ih

theorem StemsFrom.trans {a b c : List Hwentry} (h : StemsFrom a b) (h' : StemsFrom b c) :
    StemsFrom a c := by
  have htrans : IsTrans (List Hwentry) StemsFrom := List.SublistForall₂.is_trans
  exact htrans.trans a b c h h'

theorem StemsFrom.eraseIdx {hw' hw : List Hwentry} (h : StemsFrom hw' hw) (i : ℕ) :
    StemsFrom (hw'.eraseIdx i) hw := by
  induction h generalizing i with
  | nil => exact .nil
  | cons hr h ih =>
    cases i with
    | zero => exact .cons_right h
    | succ i => exact .cons hr (ih i)
  | cons_right _ ih => exact .cons_right (ih i)

theorem stemsFrom_modify {hw : List Hwentry} {j : ℕ} {hwe1 : Hwentry}
    (h : ∀ hwe2, hw[j]? = some hwe2 → hwe2.ident = hwe1.ident) :
    StemsFrom (hw.modify j fun hwe2 => mergeHwe hwe2 hwe1) hw := by
  induction hw generalizing j with
  | nil =>
    rw [List.modify_nil]
    exact .nil
  | cons hwe hw ih =>
    cases j with
    | zero =>
      rw [List.modify_zero_cons]
      exact .cons (.single ⟨hwe1, (h hwe rfl).symm, rfl⟩) (StemsFrom.refl hw)
    | succ j =>
      rw [List.modify_succ_cons]
      exact .cons .refl (ih fun hwe2 hj => h hwe2 hj)

theorem FactorizeStep.stems {s s' : List Hwentry × ℕ} (h : FactorizeStep s s') :
    StemsFrom s'.1 s.1 := by
  cases h with
  | drop => exact (StemsFrom.refl _).eraseIdx _
  | @merge hw n i j hwe1 hwe2 hi hj hij hn hident =>
    apply StemsFrom.eraseIdx
    apply stemsFrom_modify
    intro hwe hget
    rw [hj] at hget
    rw [← Option.some.inj hget, hident]

/-- The strings of the entries, in the order of the table. -/
def idents (hw : List Hwentry) : List Ident := hw.map Hwentry.ident

theorem getElem?_idents (hw : List Hwentry) (k : ℕ) :
    (idents hw)[k]? = hw[k]?.map Hwentry.ident := List.getElem?_map

theorem idents_eraseIdx (hw : List Hwentry) (i : ℕ) :
    idents (hw.eraseIdx i) = (idents hw).eraseIdx i := (List.eraseIdx_map Hwentry.ident hw i).symm

/-- A merge does not change the strings. -/
theorem idents_merge {hw : List Hwentry} {j : ℕ} {hwe1 hwe2 : Hwentry} (hj : hw[j]? = some hwe2)
    (hident : hwe2.ident = hwe1.ident) :
    idents (hw.modify j fun hwe2 => mergeHwe hwe2 hwe1) = idents hw := by
  apply List.ext_getElem?
  intro k
  rw [getElem?_idents, getElem?_idents, List.getElem?_modify]
  by_cases hk : j = k
  · subst hk
    simp [hj, mergeHwe_ident hident]
  · simp [hk]

/-- The strings are among those of the built-in entries, and not among the others. -/
def BuiltinOnly (s : List Hwentry × ℕ) (t : Ident) : Prop :=
  (∃ k < s.2, (idents s.1)[k]? = some t) ∧ ∀ k, s.2 ≤ k → (idents s.1)[k]? ≠ some t

/-- The step lemma for strings that are to remain. -/
theorem FactorizeStep.kept {s s' : List Hwentry × ℕ} (h : FactorizeStep s s') {t : Ident} :
    (t.Complete → t ∈ idents s.1 → t ∈ idents s'.1) ∧ (BuiltinOnly s t → BuiltinOnly s' t) := by
  cases h with
  | @drop hw n i hwe1 hi hn hcomplete =>
    have hget : (idents hw)[i]? = some hwe1.ident := by rw [getElem?_idents, hi, Option.map_some]
    dsimp only [BuiltinOnly]
    rw [idents_eraseIdx]
    constructor
    · intro ht hmem
      obtain ⟨k, hk⟩ := List.mem_iff_getElem?.mp hmem
      have hne : k ≠ i := by
        rintro rfl
        rw [hget] at hk
        exact hcomplete (Option.some.inj hk ▸ ht)
      exact List.mem_eraseIdx_iff_getElem?.mpr ⟨k, hne, hk⟩
    · rintro ⟨⟨k, hk, hkt⟩, hno⟩
      refine ⟨⟨k, hk, ?_⟩, fun k' hk' => ?_⟩
      · rw [List.getElem?_eraseIdx_of_lt (by omega), hkt]
      · rw [List.getElem?_eraseIdx]
        split_ifs
        · exact hno k' hk'
        · exact hno (k' + 1) (by omega)
  | @merge hw n i j hwe1 hwe2 hi hj hij hn hident =>
    have hgeti : (idents hw)[i]? = some hwe1.ident := by rw [getElem?_idents, hi, Option.map_some]
    have hgetj : (idents hw)[j]? = some hwe1.ident := by
      rw [getElem?_idents, hj, Option.map_some, hident]
    dsimp only [BuiltinOnly]
    rw [idents_eraseIdx, idents_merge hj hident]
    constructor
    · intro _ hmem
      obtain ⟨k, hk⟩ := List.mem_iff_getElem?.mp hmem
      by_cases hki : k = i
      · -- the strings of the deleted entry are those of the one it was merged into
        refine List.mem_eraseIdx_iff_getElem?.mpr ⟨j, by omega, ?_⟩
        rw [hgetj, ← hgeti, ← hki, hk]
      · exact List.mem_eraseIdx_iff_getElem?.mpr ⟨k, hki, hk⟩
    · rintro ⟨⟨k, hk, hkt⟩, hno⟩
      have hne : k ≠ i := by
        rintro rfl
        rw [hgeti, ← hgetj] at hkt
        exact hno j hn hkt
      by_cases hin : i < n
      · rw [if_pos hin]
        constructor
        · by_cases hki : k < i
          · exact ⟨k, by omega, by rw [List.getElem?_eraseIdx_of_lt hki, hkt]⟩
          · refine ⟨k - 1, by omega, ?_⟩
            rw [List.getElem?_eraseIdx_of_ge (by omega), Nat.sub_add_cancel (by omega), hkt]
        · intro k' hk'
          rw [List.getElem?_eraseIdx_of_ge (by omega)]
          exact hno (k' + 1) (by omega)
      · rw [if_neg hin]
        refine ⟨⟨k, hk, ?_⟩, fun k' hk' => ?_⟩
        · rw [List.getElem?_eraseIdx_of_lt (by omega), hkt]
        · rw [List.getElem?_eraseIdx]
          split_ifs
          · exact hno k' hk'
          · exact hno (k' + 1) (by omega)

/-- The entries before slot `i` need no change. -/
def CleanUpTo (hw : List Hwentry) (n i : ℕ) : Prop :=
  ∀ k < i, ∀ hwe, hw[k]? = some hwe →
    (n ≤ k → hwe.ident.Complete) ∧
      ∀ j hwe2, k < j → n ≤ j → hw[j]? = some hwe2 → hwe2.ident ≠ hwe.ident

theorem CleanUpTo.drop {hw : List Hwentry} {n i : ℕ} (h : CleanUpTo hw n i) :
    CleanUpTo (hw.eraseIdx i) n i := by
  intro k hk hwe hget
  rw [List.getElem?_eraseIdx_of_lt hk] at hget
  obtain ⟨hcomplete, hdiffer⟩ := h k hk hwe hget
  refine ⟨hcomplete, fun j hwe2 hkj hnj hj => ?_⟩
  rw [List.getElem?_eraseIdx] at hj
  split_ifs at hj
  · exact hdiffer j hwe2 hkj hnj hj
  · exact hdiffer (j + 1) hwe2 (by omega) (by omega) hj

theorem CleanUpTo.succ {hw : List Hwentry} {n i : ℕ} {hwe1 : Hwentry} (h : CleanUpTo hw n i)
    (hi : hw[i]? = some hwe1) (hcomplete : n ≤ i → hwe1.ident.Complete)
    (hnone : findDuplicate hw hwe1 (if n > i + 1 then n else i + 1) = none) :
    CleanUpTo hw n (i + 1) := by
  intro k hk hwe hget
  obtain hlt | rfl := Nat.lt_succ_iff_lt_or_eq.mp hk
  · exact h k hlt hwe hget
  · rw [hi] at hget
    obtain rfl := Option.some.inj hget
    refine ⟨hcomplete, fun j hwe2 hkj hnj hj => ?_⟩
    exact findDuplicate_none hnone (by split_ifs <;> omega) hj

/-- The last pass over the table changes none of the entries that it leaves behind. -/
theorem factorizeBoundary_clean (hw : List Hwentry) (n i : ℕ) (h : CleanUpTo hw n i) :
    CleanUpTo (factorizeBoundary hw n i).1 (factorizeBoundary hw n i).2
      (factorizeBoundary hw n i).1.length := by
  fun_induction factorizeBoundary hw n i with
  | case1 hw n i hi hwe1 hdrop ih => exact ih h.drop
  | case2 hw n i hi hwe1 hdrop j hj ih =>
    apply ih
    intro k hk
    omega
  | case3 hw n i hi hwe1 hdrop hj ih =>
    apply ih
    simp only [dite_eq_ite] at hj
    refine h.succ (List.getElem?_eq_getElem hi) (fun hn => ?_) hj
    by_contra hcomplete
    exact hdrop ⟨hn, incomplete_iff.mpr hcomplete⟩
  | case4 hw n i hi =>
    intro k hk
    exact h k (by dsimp only at hk; omega)

theorem steps_kept {s s' : List Hwentry × ℕ} (h : Relation.ReflTransGen FactorizeStep s s')
    {t : Ident} :
    (t.Complete → t ∈ idents s.1 → t ∈ idents s'.1) ∧ (BuiltinOnly s t → BuiltinOnly s' t) := by
  induction h with
  | refl => exact ⟨fun _ ht => ht, id⟩
  | tail _ hstep ih =>
    obtain ⟨hmem, hbuiltin⟩ := hstep.kept (t := t)
    exact ⟨fun ht h => hmem ht (ih.1 ht h), fun h => hbuiltin (ih.2 h)⟩

theorem steps_stem {s s' : List Hwentry × ℕ} (h : Relation.ReflTransGen FactorizeStep s s') :
    StemsFrom s'.1 s.1 := by
  induction h with
  | refl => exact StemsFrom.refl _
  | tail _ hstep ih => exact hstep.stems.trans ih

theorem builtinOnly_of_mem {hw : List Hwentry} {n : ℕ} {t : Ident} (ht : t ∈ idents (hw.take n))
    (hno : t ∉ idents (hw.drop n)) : BuiltinOnly (hw, n) t := by
  constructor
  · obtain ⟨k, hk⟩ := List.mem_iff_getElem?.mp ht
    rw [getElem?_idents, List.getElem?_take] at hk
    split_ifs at hk with hlt
    · exact ⟨k, hlt, by rw [getElem?_idents]; exact hk⟩
    · simp at hk
  · intro k hk hget
    apply hno
    apply List.mem_of_getElem? (i := k - n)
    rw [getElem?_idents, List.getElem?_drop, Nat.add_sub_cancel' hk, ← getElem?_idents]
    exact hget

/-- The table after `factorize_hwtable`: from the number of built-in entries on, no entry lacks a
vendor or a product or has the strings of an earlier one; no strings with a vendor and a product
are lost, nor are those of built-in entries that no other entry has; and the entries that remain
keep their order. -/
theorem factorizeHwtable_spec (hw : List Hwentry) (n : ℕ) :
    factorizeHwtable hw n = (factorizeBoundary hw n 0).1 ∧
    (∀ k hwe, (factorizeBoundary hw n 0).2 ≤ k → (factorizeHwtable hw n)[k]? = some hwe →
      hwe.str .vendor ≠ none ∧ hwe.str .product ≠ none) ∧
    (∀ k j hwe hwe2, k < j → (factorizeBoundary hw n 0).2 ≤ j →
      (factorizeHwtable hw n)[k]? = some hwe → (factorizeHwtable hw n)[j]? = some hwe2 →
        hwe2.ident ≠ hwe.ident) ∧
    (∀ t, (t.Complete ∧ t ∈ idents hw) ∨
        (t ∈ idents (hw.take n) ∧ t ∉ idents (hw.drop n)) → t ∈ idents (factorizeHwtable hw n)) ∧
    StemsFrom (factorizeHwtable hw n) hw := by
  have heq : factorizeHwtable hw n = (factorizeBoundary hw n 0).1 :=
    (factorizeBoundary_fst hw n 0).symm
  have hsteps := factorizeBoundary_steps hw n 0
  have hclean := factorizeBoundary_clean hw n 0 (fun k hk => absurd hk (Nat.not_lt_zero k))
  rw [heq]
  refine ⟨rfl, ?_, ?_, ?_, steps_stem hsteps⟩
  · intro k hwe hk hget
    exact (hclean k (List.getElem?_eq_some_iff.mp hget).1 hwe hget).1 hk
  · intro k j hwe hwe2 hkj hj hget hget2
    exact (hclean k (List.getElem?_eq_some_iff.mp hget).1 hwe hget).2 j hwe2 hkj hj hget2
  · rintro t (⟨ht, hmem⟩ | ⟨ht, hno⟩)
    · exact (steps_kept hsteps).1 ht hmem
    · obtain ⟨⟨k, -, hk⟩, -⟩ := (steps_kept hsteps).2 (builtinOnly_of_mem ht hno)
      exact List.mem_of_getElem? hk

/-- An entry without a product, once built-in and once not. -/
def withoutProduct : Hwentry := { str := fun s => if s = .vendor then some "IBM".toList else none }

/-- The built-in one is merged into the other, which is dropped then. -/
theorem factorizeHwtable_lost : ¬ ∀ (hw : List Hwentry) (n : ℕ) (t : Ident),
    (t.Complete ∧ t ∈ idents hw) ∨ t ∈ idents (hw.take n) → t ∈ idents (factorizeHwtable hw n) := by
  intro h
  have hmem := h [withoutProduct, withoutProduct] 1 withoutProduct.ident (.inr (by decide))
  have hident : (mergeHwe withoutProduct withoutProduct).ident = withoutProduct.ident :=
    mergeHwe_ident rfl
  have hproduct : (mergeHwe withoutProduct withoutProduct).str .product = none :=
    congrArg Ident.product hident
  have hdup : findDuplicate [withoutProduct, withoutProduct] withoutProduct 1 = some 1 := by decide
  have hempty : factorizeHwtable [withoutProduct, withoutProduct] 1 = [] := by
    rw [factorizeHwtable, factorizeFrom]
    simp [hdup, factorizeFrom, hproduct]
  rw [hempty] at hmem
  cases hmem

end MultipathTools.Config
