import MultipathTools.Base.Collapse
import MultipathTools.Config.Hwtable

/-! What `factorize_hwtable` does to the attributes that a device gets from the hardware table. -/
namespace MultipathTools.Config

open Features

theorem strDiffers_eq_false {a b : Option CStr} : strDiffers a b = false ↔ a = b := by
  cases a <;> cases b <;> simp [strDiffers]

theorem hweStrmatch_eq_zero {hwe1 hwe2 : Hwentry} :
    hweStrmatch hwe1 hwe2 = 0 ↔ hwe1.ident = hwe2.ident := by
  have hident : hwe1.ident = hwe2.ident ↔ hwe1.str .vendor = hwe2.str .vendor ∧
      hwe1.str .product = hwe2.str .product ∧ hwe1.str .revision = hwe2.str .revision := by
    simp [Hwentry.ident]
  rw [hident, ← strDiffers_eq_false, ← strDiffers_eq_false, ← strDiffers_eq_false, hweStrmatch]
  split_ifs <;> simp_all

theorem nodup_hweStrs : hweStrs.Nodup := by decide

section Merge

variable {dst src : Hwentry}

/-- An attribute that `merge_hwe` comes to before it returns. -/
def Reached (dst src : Hwentry) : HweAttr → Prop
  | .str s => s ∈ reached dst.str src.str hweStrs
  | .num _ => reached dst.str src.str hweStrs = hweStrs

theorem mergeHwe_str {s : HweStr} (hs : s ≠ .features) : (mergeHwe dst src).str s =
    if s ∈ reached dst.str src.str hweStrs then (dst.str s).or (src.str s) else dst.str s := by
  unfold mergeHwe
  rw [mergeStrs_eq nodup_hweStrs]
  dsimp only
  split
  · dsimp only
    rw [Function.update_of_ne hs]
  · rfl

theorem mergeHwe_num (x : HweNum) : (mergeHwe dst src).num x =
    if reached dst.str src.str hweStrs = hweStrs then mergeNum (dst.num x) (src.num x)
    else dst.num x := by
  unfold mergeHwe
  rw [mergeStrs_eq nodup_hweStrs]
  dsimp only
  split_ifs with h h' h' <;> simp_all

theorem itoa_ne_nil (c : ℤ) : itoa c ≠ [] := by
  unfold itoa
  split_ifs
  · exact List.cons_ne_nil _ _
  · exact Nat.toDigits_ne_nil

theorem takeFeature_eq_nil {f : Option CStr} {n : CStr} :
    (takeFeature f n).2 = some [] ↔ f = some [] := by
  have hremove (s : CStr) : (removeFeature (some s) n).1 = some [] ↔ s = [] := by
    constructor
    · intro h
      unfold removeFeature at h
      dsimp only at h
      split_ifs at h
      · exact Option.some.inj h
      · exact Option.some.inj h
      · exact Option.some.inj h
      · exact Option.some.inj h
      · cases Option.some.inj h
      · split at h
        · exact Option.some.inj h
        · have hnil := Option.some.inj h
          rw [List.append_eq_nil_iff, List.append_eq_nil_iff] at hnil
          exact absurd hnil.1.1 (itoa_ne_nil _)
      · split at h <;> exact Option.some.inj h
    · rintro rfl
      unfold removeFeature
      dsimp only
      have hend : (strtoul []).2.length = ([] : CStr).length := rfl
      rw [if_pos hend]
      split_ifs <;> rfl
  match f with
  | none => exact Iff.rfl
  | some s =>
    unfold takeFeature
    dsimp only
    split_ifs
    · exact (hremove s).trans (Option.some_inj).symm
    · exact Iff.rfl

/-- A string that a merge leaves empty is one of the destination. -/
theorem mergeHwe_str_eq_nil {s : HweStr} :
    (mergeHwe dst src).str s = some [] ↔ dst.str s = some [] := by
  by_cases hs : s = .features
  · subst hs
    unfold mergeHwe
    rw [mergeStrs_eq nodup_hweStrs]
    dsimp only
    split
    · dsimp only
      rw [Function.update_self]
      unfold reconcileFeaturesWithOptions
      dsimp only
      rw [takeFeature_eq_nil, takeFeature_eq_nil]
      exact merged_eq_nil
    · exact merged_eq_nil
  · rw [mergeHwe_str hs]
    exact merged_eq_nil

variable {a : HweAttr}

theorem HweAttr.Plain.ne_features {s : HweStr} (h : (HweAttr.str s).Plain) : s ≠ .features := by
  rintro rfl
  exact h (by decide)

theorem mergeHwe_get_reached (ha : a.Plain) (h : Reached dst src a) :
    (mergeHwe dst src).get a = (dst.get a).or (src.get a) := by
  cases a with
  | str s =>
    have hmem : s ∈ reached dst.str src.str hweStrs := h
    show ((mergeHwe dst src).str s).map _ = ((dst.str s).map _).or ((src.str s).map _)
    rw [mergeHwe_str ha.ne_features, if_pos hmem, Option.map_or]
  | num x =>
    have hall : reached dst.str src.str hweStrs = hweStrs := h
    unfold Hwentry.get
    dsimp only
    rw [mergeHwe_num, if_pos hall]
    exact mergeNum_or Value.num

theorem mergeHwe_get_lost (ha : a.Plain) (h : ¬Reached dst src a) :
    (mergeHwe dst src).get a = dst.get a := by
  cases a with
  | str s =>
    have hnot : s ∉ reached dst.str src.str hweStrs := h
    show ((mergeHwe dst src).str s).map _ = (dst.str s).map _
    rw [mergeHwe_str ha.ne_features, if_neg hnot]
  | num x =>
    have hnot : ¬reached dst.str src.str hweStrs = hweStrs := h
    unfold Hwentry.get
    dsimp only
    rw [mergeHwe_num, if_neg hnot]

theorem reached_mergeHwe (e dst src : Hwentry) : Reached e (mergeHwe dst src) a ↔ Reached e dst a := by
  have hcongr : reached e.str (mergeHwe dst src).str hweStrs = reached e.str dst.str hweStrs :=
    reached_congr fun _ => mergeHwe_str_eq_nil
  cases a with
  | str s => rw [Reached, Reached, hcongr]
  | num x => rw [Reached, Reached, hcongr]

theorem mergeHwe_ident (h : dst.ident = src.ident) : (mergeHwe dst src).ident = dst.ident := by
  have hstr {s : HweStr} (hs : s ≠ .features) (heq : dst.str s = src.str s) :
      (mergeHwe dst src).str s = dst.str s := by
    rw [mergeHwe_str hs, heq, Option.or_self, ite_self]
  obtain ⟨hvendor, hproduct, hrevision⟩ := Ident.mk.inj h
  show Ident.mk _ _ _ = Ident.mk _ _ _
  rw [hstr (by decide) hvendor, hstr (by decide) hproduct, hstr (by decide) hrevision]

end Merge

/-- The strings that a configured entry must have. -/
def Ident.Complete (i : Ident) : Prop := i.vendor ≠ none ∧ i.product ≠ none

instance (i : Ident) : Decidable i.Complete := inferInstanceAs (Decidable (_ ∧ _))

/-- The entries that are not dropped. -/
def complete (hw : List Hwentry) : List Hwentry := hw.filter fun hwe => hwe.ident.Complete

section Loop

variable {hw kept rest : List Hwentry} {hwe : Hwentry} {n k m : ℕ}

theorem hweStrmatch_decide (hwe1 hwe2 : Hwentry) :
    decide (hweStrmatch hwe1 hwe2 = 0) = decide (hwe1.ident = hwe2.ident) := by
  rw [decide_eq_decide]
  exact hweStrmatch_eq_zero

/-- A search that leaves out entries without the strings finds the same. -/
theorem findDuplicate_eq (hskip : hwe.ident ∉ (rest.take m).map Hwentry.ident) :
    findDuplicate (kept ++ hwe :: rest) hwe (kept.length + 1 + m) =
      (rest.findIdx? fun hwe2 => hwe2.ident = hwe.ident).map (kept.length + 1 + ·) := by
  have hdrop : (kept ++ hwe :: rest).drop (kept.length + 1 + m) = rest.drop m := by
    have hassoc : kept ++ hwe :: rest = (kept ++ [hwe]) ++ rest := by simp
    have hlength : (kept ++ [hwe]).length = kept.length + 1 := by simp
    rw [hassoc, ← hlength, ← List.drop_drop, List.drop_left]
  have hnone : (rest.take m).findIdx? (fun hwe2 => hwe2.ident = hwe.ident) = none := by
    rw [List.findIdx?_eq_none_iff]
    intro e he
    refine decide_eq_false fun heq => hskip ?_
    exact heq ▸ List.mem_map_of_mem he
  unfold findDuplicate
  simp only [hweStrmatch_decide]
  rw [hdrop]
  conv_rhs => rw [← List.take_append_drop m rest, List.findIdx?_append, hnone, Option.none_or]
  by_cases hm : m ≤ rest.length
  · rw [List.length_take, Nat.min_eq_left hm, Option.map_map]
    refine congrArg (Option.map · _) (funext fun k => ?_)
    show kept.length + 1 + m + k = kept.length + 1 + (k + m)
    omega
  · rw [List.drop_eq_nil_of_le (by omega)]
    rfl

/-- The loop body of `factorize_hwtable`. -/
theorem factorizeFrom_cons
    (hskip : hwe.ident ∉ (rest.take (n - (kept.length + 1))).map Hwentry.ident) :
    factorizeFrom (kept ++ hwe :: rest) n kept.length =
      if n ≤ kept.length ∧ ¬hwe.ident.Complete then factorizeFrom (kept ++ rest) n kept.length
      else if hwe.ident ∈ rest.map Hwentry.ident then
        factorizeFrom (kept ++ mergeFirst Hwentry.ident mergeHwe hwe rest)
          (if kept.length < n then n - 1 else n) 0
      else factorizeFrom (kept ++ hwe :: rest) n (kept.length + 1) := by
  have hlength : kept.length < (kept ++ hwe :: rest).length := by simp
  have hget : (kept ++ hwe :: rest)[kept.length] = hwe := by simp
  have hfrom : (if n > kept.length + 1 then n else kept.length + 1) =
      kept.length + 1 + (n - (kept.length + 1)) := by split_ifs <;> omega
  have hinvalid : (hwe.str .vendor = none ∨ hwe.str .product = none) ↔ ¬hwe.ident.Complete := by
    rw [Ident.Complete, not_and_or, not_not, not_not]
    exact Iff.rfl
  rw [factorizeFrom, dif_pos hlength, hget, hfrom]
  dsimp only
  rw [findDuplicate_eq hskip]
  simp only [hinvalid]
  refine if_congr Iff.rfl ?_ ?_
  · rw [List.eraseIdx_append_of_length_le le_rfl, Nat.sub_self, List.eraseIdx_cons_zero]
  · cases hfind : rest.findIdx? fun hwe2 => hwe2.ident = hwe.ident with
    | none =>
      rw [if_neg (findIdx?_key_eq_none.mp hfind)]
      rfl
    | some k =>
      have hmem : hwe.ident ∈ rest.map Hwentry.ident := by
        by_contra hnot
        rw [findIdx?_key_eq_none.mpr hnot] at hfind
        cases hfind
      rw [if_pos hmem, ← modify_findIdx? hfind]
      show factorizeFrom (((kept ++ hwe :: rest).modify (kept.length + 1 + k) _).eraseIdx _) _ 0 = _
      rw [eraseIdx_modify]

/-- After a restart the entries that were kept are passed again. -/
theorem factorizeFrom_restart {last : List Hwentry} (hcomplete : ∀ e ∈ last, e.ident.Complete)
    (hnodup : (last.map Hwentry.ident).Nodup)
    (hrest : ∀ e ∈ last, e.ident ∉ rest.map Hwentry.ident) :
    factorizeFrom (kept ++ (last ++ rest)) n kept.length =
      factorizeFrom (kept ++ (last ++ rest)) n (kept.length + last.length) := by
  induction last generalizing kept with
  | nil => rfl
  | cons e last ih =>
    rw [List.map_cons, List.nodup_cons] at hnodup
    have hnot : e.ident ∉ (last ++ rest).map Hwentry.ident := by
      rw [List.map_append, List.mem_append, not_or]
      exact ⟨hnodup.1, hrest e List.mem_cons_self⟩
    have hstep : factorizeFrom (kept ++ e :: (last ++ rest)) n kept.length =
        factorizeFrom (kept ++ e :: (last ++ rest)) n (kept.length + 1) := by
      rw [factorizeFrom_cons fun h => hnot (((List.take_sublist _ _).map _).subset h),
        if_neg fun hand => hand.2 (hcomplete e List.mem_cons_self), if_neg hnot]
    have htail := @ih (kept ++ [e]) (fun e he => hcomplete e (List.mem_cons_of_mem _ he))
      hnodup.2 fun e he => hrest e (List.mem_cons_of_mem _ he)
    have hlength : kept.length + [e].length + last.length = kept.length + (e :: last).length := by
      simp only [List.length_cons, List.length_nil]
      omega
    rw [List.append_assoc, List.length_append, hlength] at htail
    rw [List.cons_append, hstep]
    exact htail

/-- What callers promise: the built-in entries have the mandatory strings, and no two of them the
same strings. -/
structure Builtin (hw : List Hwentry) (n : ℕ) : Prop where
  complete : ∀ i ∈ (hw.map Hwentry.ident).take n, i.Complete
  nodup : ((hw.map Hwentry.ident).take n).Nodup

theorem builtin_zero (hw : List Hwentry) : Builtin hw 0 := ⟨nofun, List.nodup_nil⟩

theorem complete_cons_of_complete (h : hwe.ident.Complete) :
    complete (hwe :: rest) = hwe :: complete rest := List.filter_cons_of_pos (decide_eq_true h)

theorem complete_cons_of_not (h : ¬hwe.ident.Complete) : complete (hwe :: rest) = complete rest :=
  List.filter_cons_of_neg fun hdec => h (of_decide_eq_true hdec)

theorem complete_mergeFirst (h : hwe.ident.Complete) :
    complete (mergeFirst Hwentry.ident mergeHwe hwe rest) =
      mergeFirst Hwentry.ident mergeHwe hwe (complete rest) := by
  induction rest with
  | nil => rfl
  | cons e rest ih =>
    by_cases heq : e.ident = hwe.ident
    · have hmerged : (mergeHwe e hwe).ident.Complete := by
        rw [mergeHwe_ident heq, heq]
        exact h
      rw [mergeFirst_cons_of_eq heq, complete_cons_of_complete hmerged,
        complete_cons_of_complete (heq ▸ h), mergeFirst_cons_of_eq heq]
    · rw [mergeFirst_cons_of_ne heq]
      by_cases he : e.ident.Complete
      · rw [complete_cons_of_complete he, complete_cons_of_complete he, mergeFirst_cons_of_ne heq, ih]
      · rw [complete_cons_of_not he, complete_cons_of_not he, ih]

theorem mem_map_complete {i : Ident} :
    i ∈ (complete rest).map Hwentry.ident ↔ i.Complete ∧ i ∈ rest.map Hwentry.ident := by
  simp only [complete, List.mem_map, List.mem_filter, decide_eq_true_eq]
  constructor
  · rintro ⟨e, ⟨he, hc⟩, rfl⟩
    exact ⟨hc, e, he, rfl⟩
  · rintro ⟨hc, e, he, rfl⟩
    exact ⟨e, ⟨he, hc⟩, rfl⟩

/-- The loops merge every entry that is not dropped into the next one with the same strings. -/
theorem factorizeFrom_eq (hbuiltin : Builtin rest (n - kept.length))
    (hcomplete : ∀ e ∈ kept, e.ident.Complete) (hnodup : (kept.map Hwentry.ident).Nodup)
    (hrest : ∀ e ∈ kept, e.ident ∉ rest.map Hwentry.ident) :
    factorizeFrom (kept ++ rest) n kept.length =
      kept ++ collapse Hwentry.ident mergeHwe (complete rest) := by
  induction hlen : rest.length generalizing kept rest n with
  | zero =>
    obtain rfl := List.eq_nil_of_length_eq_zero hlen
    rw [factorizeFrom, dif_neg (by simp)]
    simp [complete, collapse]
  | succ l ih =>
    obtain ⟨hwe, rest, rfl⟩ := List.exists_cons_of_length_eq_add_one hlen
    rw [List.length_cons, Nat.add_right_cancel_iff] at hlen
    -- what is known of a built-in entry
    have hfirst : kept.length < n → hwe.ident.Complete ∧
        hwe.ident ∉ (rest.map Hwentry.ident).take (n - (kept.length + 1)) ∧
        Builtin rest (n - (kept.length + 1)) := by
      intro hlt
      have hsub : n - kept.length = n - (kept.length + 1) + 1 := by omega
      obtain ⟨hc, hn⟩ := hbuiltin
      rw [hsub, List.map_cons, List.take_succ_cons] at hc hn
      rw [List.nodup_cons] at hn
      exact ⟨hc _ List.mem_cons_self, hn.1, fun i hi => hc i (List.mem_cons_of_mem _ hi), hn.2⟩
    have hzero : n ≤ kept.length → n - (kept.length + 1) = 0 := fun hle => by omega
    have hskip : hwe.ident ∉ (rest.take (n - (kept.length + 1))).map Hwentry.ident := by
      rw [List.map_take]
      rcases Nat.lt_or_ge kept.length n with hlt | hle
      · exact (hfirst hlt).2.1
      · rw [hzero hle]
        exact List.not_mem_nil
    have hnext : Builtin rest (n - (kept.length + 1)) := by
      rcases Nat.lt_or_ge kept.length n with hlt | hle
      · exact (hfirst hlt).2.2
      · rw [hzero hle]
        exact builtin_zero rest
    have htail : ∀ e ∈ kept, e.ident ≠ hwe.ident ∧ e.ident ∉ rest.map Hwentry.ident := by
      intro e he
      have hnot := hrest e he
      rw [List.map_cons, List.mem_cons, not_or] at hnot
      exact hnot
    rw [factorizeFrom_cons hskip]
    by_cases hdropped : n ≤ kept.length ∧ ¬hwe.ident.Complete
    · -- an entry that is dropped
      have hsub : n - kept.length = 0 := by omega
      rw [if_pos hdropped, complete_cons_of_not hdropped.2]
      exact ih (hsub ▸ builtin_zero rest) hcomplete hnodup (fun e he => (htail e he).2) hlen
    have hc : hwe.ident.Complete := by
      by_contra hno
      rcases Nat.lt_or_ge kept.length n with hlt | hle
      · exact hno (hfirst hlt).1
      · exact hdropped ⟨hle, hno⟩
    rw [if_neg hdropped, complete_cons_of_complete hc]
    by_cases hdup : hwe.ident ∈ rest.map Hwentry.ident
    · -- an entry that is merged
      have hidents : (mergeFirst Hwentry.ident mergeHwe hwe rest).map Hwentry.ident =
          rest.map Hwentry.ident := map_mergeFirst fun b hb => mergeHwe_ident hb
      have hpassed : ∀ e ∈ kept,
          e.ident ∉ (mergeFirst Hwentry.ident mergeHwe hwe rest).map Hwentry.ident :=
        fun e he => hidents ▸ (htail e he).2
      have hrestart : ∀ m, factorizeFrom (kept ++ mergeFirst Hwentry.ident mergeHwe hwe rest) m 0 =
          factorizeFrom (kept ++ mergeFirst Hwentry.ident mergeHwe hwe rest) m kept.length := by
        intro m
        have hlast := @factorizeFrom_restart [] _ m kept hcomplete hnodup hpassed
        rwa [List.nil_append, List.length_nil, Nat.zero_add] at hlast
      rw [if_pos hdup, hrestart, collapse_cons_of_mem (mem_map_complete.mpr ⟨hc, hdup⟩),
        ← complete_mergeFirst hc]
      refine ih ?_ hcomplete hnodup hpassed (by rw [length_mergeFirst, hlen])
      have hsub : (if kept.length < n then n - 1 else n) - kept.length =
          n - (kept.length + 1) := by split_ifs <;> omega
      rw [hsub]
      exact ⟨hidents ▸ hnext.complete, hidents ▸ hnext.nodup⟩
    · -- an entry that stays
      have hkept := @ih (kept ++ [hwe]) rest n ?_ ?_ ?_ ?_ hlen
      · rw [List.append_assoc, List.length_append] at hkept
        rw [if_neg hdup, collapse_cons_of_not_mem fun hmem => hdup (mem_map_complete.mp hmem).2]
        refine Eq.trans hkept ?_
        rw [List.append_assoc]
        rfl
      · rw [List.length_append]
        exact hnext
      · intro e he
        rcases List.mem_append.mp he with he | he
        · exact hcomplete e he
        · rw [List.mem_singleton.mp he]
          exact hc
      · rw [List.map_append, List.nodup_append]
        refine ⟨hnodup, List.nodup_singleton _, ?_⟩
        intro i hi i' hi'
        obtain ⟨e, he, rfl⟩ := List.mem_map.mp hi
        obtain rfl := List.mem_singleton.mp hi'
        exact (htail e he).1
      · intro e he
        rcases List.mem_append.mp he with he | he
        · exact (htail e he).2
        · rw [List.mem_singleton.mp he]
          exact hdup

end Loop

end MultipathTools.Config
