import MultipathTools.Config.Mptable

/-! What is left of the attributes of the `multipath` sections when those with the same WWID have been
merged. -/
namespace MultipathTools.Config

variable {mptable kept rest l : List Mpentry} {dst src mpe : Mpentry} {a : MpeAttr} {o : MpeOwner}

section Loop

theorem mergeMptableFrom_cons : mergeMptableFrom (kept ++ mpe :: rest) kept.length =
    if mpe.wwid ∈ rest.map Mpentry.wwid then
      mergeMptableFrom (kept ++ mergeFirst Mpentry.wwid mergeMpe mpe rest) kept.length
    else mergeMptableFrom (kept ++ mpe :: rest) (kept.length + 1) := by
  have hlength : kept.length < (kept ++ mpe :: rest).length := by simp
  have hget : (kept ++ mpe :: rest)[kept.length] = mpe := by simp
  have hdrop : (kept ++ mpe :: rest).drop (kept.length + 1) = rest := by simp
  rw [mergeMptableFrom, dif_pos hlength, hget, hdrop]
  dsimp only
  cases hfind : rest.findIdx? fun mp2 => mp2.wwid = mpe.wwid with
  | none => rw [if_neg (findIdx?_key_eq_none.mp hfind)]
  | some k =>
    have hmem : mpe.wwid ∈ rest.map Mpentry.wwid := by
      by_contra hnot
      rw [findIdx?_key_eq_none.mpr hnot] at hfind
      cases hfind
    dsimp only
    rw [if_pos hmem, eraseIdx_modify, modify_findIdx? hfind]

theorem mergeMptableFrom_eq (kept rest : List Mpentry) :
    mergeMptableFrom (kept ++ rest) kept.length = kept ++ collapse Mpentry.wwid mergeMpe rest := by
  induction hlen : rest.length generalizing kept rest with
  | zero =>
    obtain rfl := List.eq_nil_of_length_eq_zero hlen
    rw [mergeMptableFrom, dif_neg (by simp), collapse_nil]
  | succ n ih =>
    obtain ⟨mpe, rest, rfl⟩ := List.exists_cons_of_length_eq_add_one hlen
    rw [List.length_cons, Nat.add_right_cancel_iff] at hlen
    rw [mergeMptableFrom_cons]
    split_ifs with hmem
    · rw [collapse_cons_of_mem hmem]
      apply ih
      rw [length_mergeFirst, hlen]
    · have htail := ih (kept ++ [mpe]) rest hlen
      rw [List.append_assoc, List.length_append] at htail
      rw [collapse_cons_of_not_mem hmem]
      refine htail.trans ?_
      rw [List.append_assoc]
      rfl

theorem mergeMptable_eq (mptable : List Mpentry) :
    mergeMptable mptable = collapse Mpentry.wwid mergeMpe mptable :=
  mergeMptableFrom_eq [] mptable

end Loop

section Reached

/-- An attribute that `merge_mpe` comes to before it returns. -/
def Mpentry.Reached (dst src : Mpentry) : MpeAttr → Prop
  | .str s => s ∈ reached dst.str src.str mpeStrs
  | _ => MergesAll dst src

theorem mergeMpe_get_reached (ha : ∀ o, a ≠ .owner o) (h : dst.Reached src a) :
    (mergeMpe dst src).get a = (dst.get a).or (src.get a) := by
  cases a with
  | str s =>
    have hmem : s ∈ reached dst.str src.str mpeStrs := h
    show ((mergeMpe dst src).str s).map _ = ((dst.str s).map _).or ((src.str s).map _)
    rw [mergeMpe_str, if_pos hmem, Option.map_or]
  | num x =>
    have hall : MergesAll dst src := h
    unfold Mpentry.get
    dsimp only
    rw [mergeMpe_num, if_pos hall]
    exact mergeNum_or MpeValue.num
  | reservation =>
    have hall : MergesAll dst src := h
    unfold Mpentry.get
    dsimp only
    rw [mergeMpe_reservation, if_pos hall]
    by_cases hdst : dst.reservation.source = .none
    · by_cases hsrc : src.reservation.source = .none
      · simp [hdst, hsrc]
      · simp [hdst, hsrc]
    · simp [hdst]
  | owner o => exact absurd rfl (ha o)

theorem mergeMpe_get_lost (ha : ∀ o, a ≠ .owner o) (h : ¬dst.Reached src a) :
    (mergeMpe dst src).get a = dst.get a := by
  cases a with
  | str s =>
    have hnot : s ∉ reached dst.str src.str mpeStrs := h
    show ((mergeMpe dst src).str s).map _ = (dst.str s).map _
    rw [mergeMpe_str, if_neg hnot]
  | num x =>
    have hnot : ¬MergesAll dst src := h
    unfold Mpentry.get
    dsimp only
    rw [mergeMpe_num, if_neg hnot]
  | reservation =>
    have hnot : ¬MergesAll dst src := h
    unfold Mpentry.get
    dsimp only
    rw [mergeMpe_reservation, if_neg hnot]
  | owner o => exact absurd rfl (ha o)

theorem mergeMpe_str_eq_nil {s : MpeStr} :
    (mergeMpe dst src).str s = some [] ↔ dst.str s = some [] := by
  rw [mergeMpe_str]
  exact merged_eq_nil

theorem reached_mergeMpe (e dst src : Mpentry) :
    reached e.str (mergeMpe dst src).str mpeStrs = reached e.str dst.str mpeStrs :=
  reached_congr fun _ => mergeMpe_str_eq_nil

theorem mergesAll_mergeMpe {e : Mpentry} : MergesAll e (mergeMpe dst src) ↔ MergesAll e dst := by
  rw [MergesAll, MergesAll, reached_mergeMpe]

theorem Mpentry.reached_merge (e dst src : Mpentry) :
    e.Reached (mergeMpe dst src) a ↔ e.Reached dst a := by
  cases a with
  | str s => rw [Mpentry.Reached, Mpentry.Reached, reached_mergeMpe]
  | num x => exact mergesAll_mergeMpe
  | reservation => exact mergesAll_mergeMpe
  | owner o => exact mergesAll_mergeMpe

/-- What is left of an attribute other than uid, gid and mode. -/
theorem mergeAll_get_eq_iff (ha : ∀ o, a ≠ .owner o) (l : List Mpentry) :
    ((mergeAll mergeMpe l.reverse).bind fun mpe => mpe.get a) =
      lastSome (fun mpe => mpe.get a) l.reverse ↔ Passed Mpentry.get Mpentry.Reached a l := by
  apply mergeAll_get_iff
  · exact fun _ _ => mergeMpe_get_reached ha
  · exact fun _ _ => mergeMpe_get_lost ha
  · exact Mpentry.reached_merge

end Reached

section Owner

/-- The sections that `merge_mpe` merges the numbers of, in a list with the last one first. -/
def mergedRun : List Mpentry → List Mpentry
  | e :: src :: l => if MergesAll e src then e :: mergedRun (src :: l) else [e]
  | l => l

/-- The first value other than 0, or 0. -/
def firstSet {α : Type*} [Zero α] [DecidableEq α] (l : List α) : α := (l.find? (· ≠ 0)).getD 0

/-- The condition for uid, gid and mode: the last section that sets it is merged into the last one,
no section after it has any flag, and of the values other than 0 the last is its own. -/
def OwnerPassed (o : MpeOwner) (l : List Mpentry) : Prop :=
  ∀ e, l.find? (·.hasOwner o) = some e →
    (∃ l₁ l₂, mergedRun l = l₁ ++ e :: l₂ ∧ ∀ c ∈ l₁, c.attributeFlags = 0) ∧
    ∀ v, ((mergedRun l).map (·.owner o)).find? (· ≠ 0) = some v → v = e.owner o

variable {α : Type*} [Zero α] [DecidableEq α]

theorem firstSet_cons (v : α) (vs : List α) : firstSet (v :: vs) = mergeNum v (firstSet vs) := by
  unfold firstSet
  by_cases hv : v = 0
  · subst hv
    rw [mergeNum_zero, List.find?_cons_of_neg (by simp)]
  · rw [mergeNum_of_ne hv, List.find?_cons_of_pos (by simpa using hv), Option.getD_some]

theorem firstSet_singleton (v : α) : firstSet [v] = v := by
  have hnil : firstSet ([] : List α) = 0 := rfl
  rw [firstSet_cons, hnil]
  by_cases hv : v = 0
  · rw [hv, mergeNum_zero]
  · exact mergeNum_of_ne hv

theorem firstSet_map {f : Mpentry → α} {l₁ l₂ : List Mpentry} (hc : f mpe ≠ 0)
    (hl₁ : ∀ c ∈ l₁, f c = 0) : firstSet ((l₁ ++ mpe :: l₂).map f) = f mpe := by
  induction l₁ with
  | nil => rw [List.nil_append, List.map_cons, firstSet_cons, mergeNum_of_ne hc]
  | cons c l₁ ih =>
    rw [List.cons_append, List.map_cons, firstSet_cons, hl₁ c List.mem_cons_self, mergeNum_zero]
    exact ih fun d hd => hl₁ d (List.mem_cons_of_mem _ hd)

theorem exists_of_firstSet_ne {f : Mpentry → α} (h : firstSet (l.map f) ≠ 0) :
    ∃ l₁ c l₂, l = l₁ ++ c :: l₂ ∧ f c = firstSet (l.map f) ∧ ∀ d ∈ l₁, f d = 0 := by
  induction l with
  | nil => exact absurd rfl h
  | cons c l ih =>
    rw [List.map_cons, firstSet_cons] at h ⊢
    by_cases hc : f c = 0
    · rw [hc, mergeNum_zero] at h ⊢
      obtain ⟨l₁, d, l₂, rfl, hd, hl₁⟩ := ih h
      refine ⟨c :: l₁, d, l₂, rfl, hd, ?_⟩
      rintro d (_ | ⟨_, hd⟩)
      · exact hc
      · exact hl₁ d hd
    · exact ⟨[], c, l, rfl, (mergeNum_of_ne hc).symm, nofun⟩

/-- What is left of a number. -/
theorem mergeAll_num {f : Mpentry → α} (hf : ∀ dst src, f (mergeMpe dst src) =
    if MergesAll dst src then mergeNum (f dst) (f src) else f dst) (e : Mpentry) (l : List Mpentry) :
    ∃ m, mergeAll mergeMpe (e :: l).reverse = some m ∧ f m = firstSet ((mergedRun (e :: l)).map f) ∧
      ∀ c, MergesAll c m ↔ MergesAll c e := by
  induction l generalizing e with
  | nil =>
    exact ⟨e, rfl, (firstSet_singleton (f e)).symm, fun _ => Iff.rfl⟩
  | cons src l ih =>
    obtain ⟨m, hm, hvalue, hmerges⟩ := ih src
    refine ⟨mergeMpe e m, ?_, ?_, fun _ => mergesAll_mergeMpe⟩
    · rw [List.reverse_cons, mergeAll_concat, hm]
      rfl
    · have hsplit : mergedRun (e :: src :: l) =
          if MergesAll e src then e :: mergedRun (src :: l) else [e] := rfl
      rw [hf, hsplit, if_congr (hmerges e) rfl rfl]
      split_ifs with hall
      · rw [List.map_cons, firstSet_cons, hvalue]
      · exact (firstSet_singleton (f e)).symm

theorem mergedRun_append (l : List Mpentry) : ∃ l', l = mergedRun l ++ l' := by
  match l with
  | [] => exact ⟨[], rfl⟩
  | [e] => exact ⟨[], rfl⟩
  | e :: src :: l =>
    unfold mergedRun
    split_ifs
    · obtain ⟨l', hl'⟩ := mergedRun_append (src :: l)
      exact ⟨l', congrArg (List.cons e) hl'⟩
    · exact ⟨src :: l, rfl⟩

theorem not_hasOwner (h : mpe.attributeFlags = 0) (o : MpeOwner) : mpe.hasOwner o = false := by
  simp [Mpentry.hasOwner, h]

theorem hasOwner_congr (h : dst.attributeFlags = src.attributeFlags) (o : MpeOwner) :
    dst.hasOwner o = src.hasOwner o := by
  rw [Mpentry.hasOwner, h, Mpentry.hasOwner]

theorem findSome?_get_owner (o : MpeOwner) (l : List Mpentry) :
    (l.findSome? fun mpe => mpe.get (.owner o)) =
      (l.find? fun mpe => mpe.hasOwner o).map fun mpe => .owner (mpe.owner o) := by
  induction l with
  | nil => rfl
  | cons mpe l ih =>
    rw [List.findSome?_cons, List.find?_cons, ih]
    unfold Mpentry.get
    dsimp only
    cases mpe.hasOwner o <;> rfl

/-- Which section the flags are left of. -/
theorem hasOwner_merged_iff {m : Mpentry}
    (hflags : m.attributeFlags = firstSet ((mergedRun l).map Mpentry.attributeFlags))
    (o : MpeOwner) : m.hasOwner o = true ↔ ∃ e, (l.find? fun mpe => mpe.hasOwner o) = some e ∧
      ∃ l₁ l₂, mergedRun l = l₁ ++ e :: l₂ ∧ ∀ c ∈ l₁, c.attributeFlags = 0 := by
  constructor
  · intro hm
    have hne : firstSet ((mergedRun l).map Mpentry.attributeFlags) ≠ 0 := by
      intro hzero
      rw [not_hasOwner (hflags.trans hzero)] at hm
      cases hm
    obtain ⟨l₁, e, l₂, hrun, he, hl₁⟩ := exists_of_firstSet_ne hne
    refine ⟨e, ?_, l₁, l₂, hrun, hl₁⟩
    obtain ⟨l', hl'⟩ := mergedRun_append l
    rw [hl', hrun, List.append_assoc, List.cons_append, List.find?_append,
      List.find?_eq_none.mpr fun c hc => by simp [not_hasOwner (hl₁ c hc)], Option.none_or]
    apply List.find?_cons_of_pos
    exact (hasOwner_congr (he.trans hflags.symm) o).trans hm
  · rintro ⟨e, he, l₁, l₂, hrun, hl₁⟩
    have howner : e.hasOwner o = true := by simpa using List.find?_some he
    have hne : e.attributeFlags ≠ 0 := by
      intro hzero
      rw [not_hasOwner hzero] at howner
      cases howner
    rw [hrun, firstSet_map hne hl₁] at hflags
    exact (hasOwner_congr hflags o).trans howner

/-- What is left of uid, gid and mode. -/
theorem mergeAll_owner_iff (o : MpeOwner) (l : List Mpentry) :
    ((mergeAll mergeMpe l.reverse).bind fun mpe => mpe.get (.owner o)) =
      lastSome (fun mpe => mpe.get (.owner o)) l.reverse ↔ OwnerPassed o l := by
  cases l with
  | nil =>
    refine iff_of_true rfl fun e he => ?_
    cases he
  | cons e l =>
  obtain ⟨m, hm, hflags, -⟩ :=
    @mergeAll_num (BitVec 32) _ _ Mpentry.attributeFlags (fun _ _ => mergeMpe_attributeFlags) e l
  obtain ⟨m', hm', hvalue, -⟩ :=
    @mergeAll_num (BitVec 32) _ _ (fun mpe => mpe.owner o) (fun _ _ => mergeMpe_owner o) e l
  obtain rfl := Option.some.inj (hm.symm.trans hm')
  rw [hm, lastSome, List.reverse_reverse, findSome?_get_owner]
  show (if m.hasOwner o then some _ else none) = _ ↔ _
  generalize e :: l = l at hflags hvalue
  have hflags := hasOwner_merged_iff hflags o
  cases hfind : l.find? fun mpe => mpe.hasOwner o with
  | none =>
    refine iff_of_true (if_neg fun h => ?_) fun e he => ?_
    · obtain ⟨e, he, -⟩ := hflags.mp h
      rw [hfind] at he
      cases he
    · rw [hfind] at he
      cases he
  | some e =>
    have hset : m.hasOwner o = true ↔
        ∃ l₁ l₂, mergedRun l = l₁ ++ e :: l₂ ∧ ∀ c ∈ l₁, c.attributeFlags = 0 := by
      rw [hflags, hfind]
      simp
    have hpassed : OwnerPassed o l ↔
        (∃ l₁ l₂, mergedRun l = l₁ ++ e :: l₂ ∧ ∀ c ∈ l₁, c.attributeFlags = 0) ∧
        ∀ v, ((mergedRun l).map (·.owner o)).find? (· ≠ 0) = some v → v = e.owner o := by
      unfold OwnerPassed
      rw [hfind]
      simp
    rw [hpassed, ← hset]
    by_cases hm : m.hasOwner o = true
    · rw [if_pos hm, and_iff_right hm, Option.map_some, Option.some_inj, MpeValue.owner.injEq,
        hvalue]
      obtain ⟨l₁, l₂, hrun, -⟩ := hset.mp hm
      unfold firstSet
      cases hfirst : ((mergedRun l).map (·.owner o)).find? (· ≠ 0) with
      | some v =>
        constructor
        · rintro hv _ ⟨⟩
          exact hv
        · exact fun hv => hv v rfl
      | none =>
        refine iff_of_true ?_ fun v hv => ?_
        swap
        · cases hv
        have hmem : e ∈ mergedRun l := hrun ▸ List.mem_append_right _ List.mem_cons_self
        have hzero : e.owner o = 0 := by
          simpa using List.find?_eq_none.mp hfirst (e.owner o) (List.mem_map_of_mem hmem)
        exact hzero.symm
    · rw [if_neg hm]
      refine iff_of_false (fun h => ?_) fun hand => hm hand.1
      cases h

end Owner

/-- The condition for an attribute in the sections of one WWID, with the last one first. -/
def AttrPassed : MpeAttr → List Mpentry → Prop
  | .owner o, l => OwnerPassed o l
  | a, l => Passed Mpentry.get Mpentry.Reached a l

/-- What is expected of `merge_mptable`. -/
structure Merged (mptable out : List Mpentry) : Prop where
  nodup : (out.map Mpentry.wwid).Nodup
  /-- The WWIDs are in the order of their last occurrences. -/
  order : out.map Mpentry.wwid = (mptable.map Mpentry.wwid).dedup
  last : ∀ mpe ∈ out, ∀ a, mpe.get a =
    lastSome (fun mpe' => mpe'.get a) (ofKey Mpentry.wwid mpe.wwid mptable)

theorem mergeAll_attr_iff (a : MpeAttr) (l : List Mpentry) :
    ((mergeAll mergeMpe l).bind fun mpe => mpe.get a) = lastSome (fun mpe => mpe.get a) l ↔
      AttrPassed a l.reverse := by
  rw [← List.reverse_reverse l, List.reverse_reverse l.reverse]
  cases a with
  | str s => exact mergeAll_get_eq_iff (a := .str s) (fun _ => nofun) _
  | num x => exact mergeAll_get_eq_iff (a := .num x) (fun _ => nofun) _
  | reservation => exact mergeAll_get_eq_iff (a := .reservation) (fun _ => nofun) _
  | owner o => exact mergeAll_owner_iff o _

/-- Each WWID is left once, at its last place. -/
theorem mergeMptable_wwids (mptable : List Mpentry) :
    (mergeMptable mptable).map Mpentry.wwid = (mptable.map Mpentry.wwid).dedup := by
  rw [mergeMptable_eq]
  exact map_collapse (fun src dst _ => mergeMpe_wwid dst src) mptable

/-- What is left of a WWID is the merger of all of its sections. -/
theorem mem_mergeMptable_iff : mpe ∈ mergeMptable mptable ↔
    mergeAll mergeMpe (ofKey Mpentry.wwid mpe.wwid mptable) = some mpe := by
  have hleft := ofKey_collapse (fun src dst _ => mergeMpe_wwid dst src) mpe.wwid mptable
  rw [← Option.mem_toList, ← hleft, mergeMptable_eq]
  simp [ofKey]

theorem mergeMptable_merged_iff (mptable : List Mpentry) :
    Merged mptable (mergeMptable mptable) ↔
      ∀ wwid a, AttrPassed a (ofKey Mpentry.wwid wwid mptable).reverse := by
  constructor
  · intro h wwid a
    rw [← mergeAll_attr_iff]
    cases hleft : mergeAll mergeMpe (ofKey Mpentry.wwid wwid mptable) with
    | none =>
      cases hof : ofKey Mpentry.wwid wwid mptable with
      | nil => rfl
      | cons mpe l =>
        rw [hof] at hleft
        cases hleft
    | some mpe =>
      have hwwid : mpe.wwid = wwid := by
        have hmem : mpe ∈ ofKey Mpentry.wwid wwid (mergeMptable mptable) := by
          rw [mergeMptable_eq, ofKey_collapse fun src dst _ => mergeMpe_wwid dst src, hleft]
          exact List.mem_singleton_self _
        simpa using (List.mem_filter.mp hmem).2
      subst hwwid
      exact h.last mpe (mem_mergeMptable_iff.mpr hleft) a
  · intro h
    have horder := mergeMptable_wwids mptable
    refine ⟨horder ▸ List.nodup_dedup _, horder, fun mpe hmpe a => ?_⟩
    have hleft := (mergeAll_attr_iff a _).mpr (h mpe.wwid a)
    rw [mem_mergeMptable_iff.mp hmpe] at hleft
    exact hleft

/-- Two sections of one WWID: the owner is set in one and the mode in the other. -/
def flagsTable : List Mpentry :=
  [{ wwid := ['a'], attributeFlags := 1, owner := fun o => if o = .uid then 5 else 0 },
    { wwid := ['a'], attributeFlags := 4, owner := fun o => if o = .mode then 0o600 else 0 }]

/-- The last section sets the owner to root. -/
def rootTable : List Mpentry :=
  [{ wwid := ['a'], attributeFlags := 1, owner := fun o => if o = .uid then 5 else 0 },
    { wwid := ['a'], attributeFlags := 1 }]

/-- The first section sets an empty string and a number. -/
def emptyStringTable : List Mpentry :=
  [{ wwid := ['a']
     str := fun s => if s = .prioArgs then some [] else none
     num := fun x => if x = .minio then 10 else 0 },
    { wwid := ['a'] }]

theorem mergeMptable_pair {mpe1 mpe2 : Mpentry} (h : mpe2.wwid = mpe1.wwid) :
    mergeMptable [mpe1, mpe2] = [mergeMpe mpe2 mpe1] := by
  rw [mergeMptable_eq, collapse_cons_of_mem (by simp [h]), mergeFirst_cons_of_eq h,
    collapse_cons_of_not_mem List.not_mem_nil, collapse_nil]

/-- The uid of the first section is lost, the uid 0 of the last one is overwritten, and the number of
the first one is lost. -/
theorem mergeMptable_merged_fails : ¬Merged flagsTable (mergeMptable flagsTable) ∧
    ¬Merged rootTable (mergeMptable rootTable) ∧
    ¬Merged emptyStringTable (mergeMptable emptyStringTable) := by
  refine ⟨fun h => ?_, fun h => ?_, fun h => ?_⟩
  · rw [flagsTable, mergeMptable_pair (by decide)] at h
    exact absurd (h.last _ List.mem_cons_self (.owner .uid)) (by decide)
  · rw [rootTable, mergeMptable_pair (by decide)] at h
    exact absurd (h.last _ List.mem_cons_self (.owner .uid)) (by decide)
  · rw [emptyStringTable, mergeMptable_pair (by decide)] at h
    exact absurd (h.last _ List.mem_cons_self (.num .minio)) (by decide)

end MultipathTools.Config
