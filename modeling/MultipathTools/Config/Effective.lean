import MultipathTools.Config.Factorize

/-! The attributes of a device before and after the factorisation of the hardware table. -/
namespace MultipathTools.Config

variable {hw : List Hwentry} {n : ℕ} {a : HweAttr} {i : Ident}

/-- `factorize_hwtable` drops the invalid entries, and merges the others into the last ones with the
same strings. -/
theorem factorizeHwtable_eq (h : Builtin hw n) :
    factorizeHwtable hw n = collapse Hwentry.ident mergeHwe (complete hw) :=
  @factorizeFrom_eq [] hw n h nofun List.nodup_nil nofun

theorem effective_eq_lookup (hw : List Hwentry) (matches_ : Ident → Bool) (a : HweAttr) :
    effective hw matches_ a = lookup Hwentry.ident (fun hwe => hwe.get a) hw matches_ := by
  rw [effective, findHwe, List.filter_reverse]
  rfl

theorem ofKey_complete : ofKey Hwentry.ident i (complete hw) =
    if i.Complete then ofKey Hwentry.ident i hw else [] := by
  rw [ofKey, complete, List.filter_filter]
  split_ifs with hi
  · refine List.filter_congr fun e _ => ?_
    by_cases he : e.ident = i
    · simp [he, hi]
    · simp [he]
  · refine List.filter_eq_nil_iff.mpr fun e _ hand => hi ?_
    rw [Bool.and_eq_true, decide_eq_true_eq, decide_eq_true_eq] at hand
    exact hand.1 ▸ hand.2

/-- What a device that matches one set of strings gets after the factorisation. -/
theorem lookup_collapse (hw : List Hwentry) (a : HweAttr) (i : Ident) :
    (lookup Hwentry.ident (fun hwe => hwe.get a) (collapse Hwentry.ident mergeHwe (complete hw))
      fun i' => i' = i) =
    if i.Complete then (mergeAll mergeHwe (ofKey Hwentry.ident i hw)).bind fun hwe => hwe.get a
    else none := by
  show lastSome _ (ofKey Hwentry.ident i _) = _
  rw [ofKey_collapse fun src dst h => mergeHwe_ident h, ofKey_complete]
  split_ifs
  · cases mergeAll mergeHwe (ofKey Hwentry.ident i hw) with
    | none => rfl
    | some hwe =>
      rw [Option.toList_some, lastSome_cons]
      rfl
  · rfl

/-- The condition on an attribute. -/
structure Keeps (hw : List Hwentry) (a : HweAttr) : Prop where
  dropped : ∀ hwe ∈ hw, ¬hwe.ident.Complete → hwe.get a = none
  passed : ∀ i : Ident, i.Complete →
    Passed Hwentry.get Reached a (ofKey Hwentry.ident i hw).reverse
  order : ∀ i i', [i, i'].Sublist (setters Hwentry.ident (fun hwe => hwe.get a) hw) →
    effective hw (fun x => x = i) a ≠ effective hw (fun x => x = i') a →
    [i, i'].Sublist (hw.map Hwentry.ident).dedup

theorem lookup_complete_iff (ha : a.Plain) (hi : i.Complete) :
    (lookup Hwentry.ident (fun hwe => hwe.get a) (collapse Hwentry.ident mergeHwe (complete hw))
      (fun i' => i' = i) = lookup Hwentry.ident (fun hwe => hwe.get a) hw fun i' => i' = i) ↔
    Passed Hwentry.get Reached a (ofKey Hwentry.ident i hw).reverse := by
  have hmerge : ((mergeAll mergeHwe (ofKey Hwentry.ident i hw).reverse.reverse).bind fun hwe =>
      hwe.get a) = lastSome (fun hwe => hwe.get a) (ofKey Hwentry.ident i hw).reverse.reverse ↔
      Passed Hwentry.get Reached a (ofKey Hwentry.ident i hw).reverse := by
    apply mergeAll_get_iff
    · exact fun _ _ => mergeHwe_get_reached ha
    · exact fun _ _ => mergeHwe_get_lost ha
    · exact fun e dst src => reached_mergeHwe e dst src
  rw [List.reverse_reverse] at hmerge
  rw [lookup_collapse, if_pos hi]
  exact hmerge

theorem lookup_not_complete_iff (hi : ¬i.Complete) :
    (lookup Hwentry.ident (fun hwe => hwe.get a) (collapse Hwentry.ident mergeHwe (complete hw))
      (fun i' => i' = i) = lookup Hwentry.ident (fun hwe => hwe.get a) hw fun i' => i' = i) ↔
    ∀ hwe ∈ hw, hwe.ident = i → hwe.get a = none := by
  rw [lookup_collapse, if_neg hi, eq_comm, lookup, ← Option.not_isSome_iff_eq_none, lastSome_isSome]
  simp

/-- For every device the attribute survives, exactly if the table meets the condition. -/
theorem lookup_collapse_iff (ha : a.Plain) :
    (∀ M, lookup Hwentry.ident (fun hwe => hwe.get a)
      (collapse Hwentry.ident mergeHwe (complete hw)) M =
      lookup Hwentry.ident (fun hwe => hwe.get a) hw M) ↔ Keeps hw a := by
  have hmerge : ∀ src dst : Hwentry, dst.ident = src.ident → (mergeHwe dst src).ident = dst.ident :=
    fun src dst h => mergeHwe_ident h
  have hsub : (setters Hwentry.ident (fun hwe => hwe.get a)
      (collapse Hwentry.ident mergeHwe (complete hw))).Sublist (hw.map Hwentry.ident).dedup := by
    have hidents : (complete hw).map Hwentry.ident =
        (hw.map Hwentry.ident).filter fun i => i.Complete := by
      rw [List.filter_map]
      rfl
    refine (List.dedup_sublist _).trans ((List.filter_sublist.map _).trans ?_)
    rw [map_collapse hmerge, hidents, dedup_filter]
    exact List.filter_sublist
  rw [lookup_eq_iff]
  constructor
  · rintro ⟨hkeys, horder⟩
    refine ⟨fun hwe hmem hi => ?_, fun i hi => ?_, fun i i' hpair hne => ?_⟩
    · exact (lookup_not_complete_iff hi).mp (hkeys _) hwe hmem rfl
    · exact (lookup_complete_iff ha hi).mp (hkeys i)
    · rw [effective_eq_lookup, effective_eq_lookup] at hne
      exact (horder i i' hpair hne).trans hsub
  · intro h
    have hkeys : ∀ i, (lookup Hwentry.ident (fun hwe => hwe.get a)
        (collapse Hwentry.ident mergeHwe (complete hw)) fun i' => i' = i) =
        lookup Hwentry.ident (fun hwe => hwe.get a) hw fun i' => i' = i := by
      intro i
      by_cases hi : i.Complete
      · exact (lookup_complete_iff ha hi).mpr (h.passed i hi)
      · exact (lookup_not_complete_iff hi).mpr fun hwe hmem heq => h.dropped hwe hmem (heq ▸ hi)
    refine ⟨hkeys, fun i i' hpair hne => ?_⟩
    have hmem {x : Ident} (hx : x ∈ setters Hwentry.ident (fun hwe => hwe.get a) hw) :
        x ∈ setters Hwentry.ident (fun hwe => hwe.get a)
          (collapse Hwentry.ident mergeHwe (complete hw)) := by
      rw [mem_setters] at hx ⊢
      rw [hkeys]
      exact hx
    refine pair_sublist_of_sublist (List.nodup_dedup _) hsub
      (hmem (hpair.subset List.mem_cons_self))
      (hmem (hpair.subset (List.mem_cons_of_mem _ List.mem_cons_self))) ?_ ?_
    · rintro rfl
      exact hne rfl
    · refine h.order i i' hpair ?_
      rw [effective_eq_lookup, effective_eq_lookup]
      exact hne

/-- A device gets the same values before and after `factorize_hwtable`, exactly if every attribute
meets the condition. -/
theorem factorizeHwtable_effective_iff (h : Builtin hw n) :
    (∀ a : HweAttr, a.Plain → ∀ matches_,
      effective (factorizeHwtable hw n) matches_ a = effective hw matches_ a) ↔
    ∀ a : HweAttr, a.Plain → Keeps hw a := by
  refine forall_congr' fun a => forall_congr' fun ha => ?_
  rw [← lookup_collapse_iff ha, factorizeHwtable_eq h]
  simp only [effective_eq_lookup]

/-- Entries with the vendor foo that set one string. -/
def foo (product : CStr) (attr : HweStr) (value : CStr) (pgpolicy : ℤ) : Hwentry where
  str s :=
    if s = .vendor then some ['f', 'o', 'o']
    else if s = .product then some product
    else if s = attr then some value
    else none
  num x := if x = .pgpolicy then pgpolicy else 0

/-- A built-in entry, a configured one that matches more devices, and a configured one with the
strings of the first. -/
def movedTable : List Hwentry :=
  [foo ['b', 'a', 'r'] .checkerName ['h', 'p'] 0, foo ['b', 'a', '.'] .checkerName ['t', 'u', 'r'] 0,
    foo ['b', 'a', 'r'] .prioName ['e', 'm', 'c'] 0]

/-- An entry that sets an empty string, and another with the same strings. -/
def emptyTable : List Hwentry :=
  [foo ['b', 'a', 'r'] .prioArgs [] 2, foo ['b', 'a', 'r'] .prioName ['e', 'm', 'c'] 0]

theorem movedTable_builtin : Builtin movedTable 1 := ⟨by decide, by decide⟩

theorem factorizeHwtable_effective_iff_movedTable :
    (∀ a : HweAttr, a.Plain → ∀ matches_,
      effective (factorizeHwtable movedTable 1) matches_ a = effective movedTable matches_ a) ↔
    ∀ a : HweAttr, a.Plain → Keeps movedTable a :=
  factorizeHwtable_effective_iff movedTable_builtin

/-- The value of the built-in entry comes before that of the configured one, and all that
`merge_hwe` merges after the empty string is lost. -/
theorem factorizeHwtable_effective_fails :
    effective (factorizeHwtable movedTable 1) (fun _ => true) (.str .checkerName) ≠
      effective movedTable (fun _ => true) (.str .checkerName) ∧
    effective (factorizeHwtable emptyTable 0) (fun _ => true) (.num .pgpolicy) ≠
      effective emptyTable (fun _ => true) (.num .pgpolicy) := by
  constructor
  · rw [factorizeHwtable_eq movedTable_builtin]
    have hcomplete : complete movedTable = movedTable := rfl
    rw [hcomplete, movedTable, collapse_cons_of_mem (by decide), mergeFirst_cons_of_ne (by decide),
      mergeFirst_cons_of_eq (by decide), collapse_cons_of_not_mem (by decide),
      collapse_cons_of_not_mem (by decide), collapse_nil]
    decide
  · rw [factorizeHwtable_eq (builtin_zero _)]
    have hcomplete : complete emptyTable = emptyTable := rfl
    rw [hcomplete, emptyTable, collapse_cons_of_mem (by decide), mergeFirst_cons_of_eq (by decide),
      collapse_cons_of_not_mem (by decide), collapse_nil]
    decide

section Callers

/-- `setup_default_hwtable`. -/
def setupDefaultHwtable (defaultHw : List Hwentry) : List Hwentry :=
  defaultHw.foldl (fun hw hwe => (storeHwe hw hwe).1) []

/-- The table after the configuration files: the entries of each are appended, and then the table is
factorised. -/
def processFiles (hw : List Hwentry) (files : List (List Hwentry)) : List Hwentry :=
  files.foldl (fun hw entries => factorizeHwtable (hw ++ entries) hw.length) hw

theorem builtin_length : Builtin hw hw.length ↔
    (∀ hwe ∈ hw, hwe.ident.Complete) ∧ (hw.map Hwentry.ident).Nodup := by
  constructor
  · rintro ⟨hc, hn⟩
    rw [← List.length_map (f := Hwentry.ident), List.take_length] at hc hn
    exact ⟨fun hwe hmem => hc _ (List.mem_map_of_mem hmem), hn⟩
  · rintro ⟨hc, hn⟩
    constructor
    · intro i hi
      obtain ⟨hwe, hmem, rfl⟩ := List.mem_map.mp (List.mem_of_mem_take hi)
      exact hc hwe hmem
    · exact (List.take_sublist _ _).nodup hn

theorem builtin_append (h : Builtin hw hw.length) (entries : List Hwentry) :
    Builtin (hw ++ entries) hw.length := by
  have htake : ((hw ++ entries).map Hwentry.ident).take hw.length =
      (hw.map Hwentry.ident).take hw.length := by
    rw [List.map_append, List.take_append_of_le_length (by rw [List.length_map])]
  exact ⟨htake ▸ h.complete, htake ▸ h.nodup⟩

theorem storeHwe_builtin (h : Builtin hw hw.length) (hwe : Hwentry) :
    Builtin (storeHwe hw hwe).1 (storeHwe hw hwe).1.length := by
  unfold storeHwe
  split_ifs with hany hmissing
  · exact h
  · exact h
  · obtain ⟨hc, hn⟩ := builtin_length.mp h
    obtain ⟨hvendor, hmissing⟩ := not_or.mp hmissing
    have hident : hwe.ident.Complete := ⟨hvendor, (not_or.mp hmissing).1⟩
    refine builtin_length.mpr ⟨?_, ?_⟩
    · intro e he
      rcases List.mem_append.mp he with he | he
      · exact hc e he
      · rw [List.mem_singleton.mp he]
        exact hident
    · rw [List.map_append, List.nodup_append]
      refine ⟨hn, List.nodup_singleton _, ?_⟩
      intro i hi i' hi' heq
      obtain ⟨e, he, rfl⟩ := List.mem_map.mp hi
      obtain rfl := List.mem_singleton.mp hi'
      exact hany (List.any_eq_true.mpr ⟨e, he, decide_eq_true (hweStrmatch_eq_zero.mpr heq)⟩)

theorem factorizeHwtable_builtin (h : Builtin hw n) :
    Builtin (factorizeHwtable hw n) (factorizeHwtable hw n).length := by
  have hkeys : (factorizeHwtable hw n).map Hwentry.ident =
      ((complete hw).map Hwentry.ident).dedup := by
    rw [factorizeHwtable_eq h]
    exact map_collapse (fun src dst h => mergeHwe_ident h) _
  refine builtin_length.mpr ⟨fun hwe hmem => ?_, ?_⟩
  · have hident := List.mem_map_of_mem (f := Hwentry.ident) hmem
    rw [hkeys, List.mem_dedup] at hident
    exact (mem_map_complete.mp hident).1
  · rw [hkeys]
    exact List.nodup_dedup _

/-- Whatever is built in and configured, `factorize_hwtable` is called as it expects. -/
theorem processFiles_builtin (defaultHw : List Hwentry) (files : List (List Hwentry))
    (entries : List Hwentry) : Builtin (processFiles (setupDefaultHwtable defaultHw) files ++ entries)
      (processFiles (setupDefaultHwtable defaultHw) files).length := by
  have hdefault : ∀ hw, Builtin hw hw.length →
      Builtin (defaultHw.foldl (fun hw hwe => (storeHwe hw hwe).1) hw)
        (defaultHw.foldl (fun hw hwe => (storeHwe hw hwe).1) hw).length := by
    induction defaultHw with
    | nil => exact fun _ h => h
    | cons hwe defaultHw ih => exact fun hw h => ih _ (storeHwe_builtin h hwe)
  have hfiles : ∀ hw, Builtin hw hw.length →
      Builtin (processFiles hw files) (processFiles hw files).length := by
    induction files with
    | nil => exact fun _ h => h
    | cons entries files ih =>
      exact fun hw h => ih _ (factorizeHwtable_builtin (builtin_append h entries))
  exact builtin_append (hfiles _ (hdefault [] (builtin_zero []))) entries

end Callers

end MultipathTools.Config
