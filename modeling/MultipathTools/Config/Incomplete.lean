import MultipathTools.Alias.LineWords
import MultipathTools.Config.Sections

/-! The `multipath` sections, with a WWID or without one, and the comparisons of strings that may be
NULL. A computation is `none` if it compares a NULL string. -/
namespace MultipathTools.Config
open Alias (MpeAlias Binding)

/-- `struct mpentry`; the WWID is NULL unless it has been set. -/
structure MpSection extends Mpentry where
  hasWwid : Bool := true

/-- `mpe->wwid`. -/
def MpSection.wwid? (mpe : MpSection) : Option CStr :=
  if mpe.hasWwid then some mpe.wwid else none

/-- What `alias.c` reads of a section. -/
def MpSection.toAlias (mpe : MpSection) : MpeAlias := ⟨mpe.wwid?, mpe.str .aliasName⟩

/-- `!strcmp`. -/
def strcmpEq : Option CStr → Option CStr → Option Bool
  | some a, some b => some (a = b)
  | _, _ => none

/-- `find_mpe`. -/
def findMpe (mptable : List MpSection) (wwid : Option CStr) : Option (Option MpSection) :=
  if wwid = none then some none
  else
    match mptable with
    | [] => some none
    | mpe :: rest =>
      if mpe.wwid? ≠ none then
        (strcmpEq mpe.wwid? wwid).bind fun same =>
          if same then some (some mpe) else findMpe rest wwid
      else findMpe rest wwid

/-- `get_mpe_wwid`. -/
def getMpeWwid (mptable : List MpeAlias) (aliasName : Option CStr) : Option (Option CStr) :=
  if aliasName = none then some none
  else
    match mptable with
    | [] => some none
    | mpe :: rest =>
      if mpe.aliasName ≠ none then
        (strcmpEq mpe.aliasName aliasName).bind fun same =>
          if same then some mpe.wwid else getMpeWwid rest aliasName
      else getMpeWwid rest aliasName

/-- `merge_mpe` does not touch the WWID. -/
def mergeSection (dst src : MpSection) : MpSection :=
  { dst with toMpentry := mergeMpe dst.toMpentry src.toMpentry }

/-- The inner loop of `merge_mptable`. -/
def findSameWwid (mp1 : MpSection) : List MpSection → Option (Option ℕ)
  | [] => some none
  | mp2 :: rest =>
    (strcmpEq mp1.wwid? mp2.wwid?).bind fun same =>
      if same then some (some 0) else (findSameWwid mp1 rest).map fun k => k.map (· + 1)

/-- The loops of `merge_mptable` from slot `i` on. -/
def mergeSectionsFrom (mptable : List MpSection) (i : ℕ) : Option (List MpSection) :=
  if h : i < mptable.length then
    let mp1 := mptable[i]
    match findSameWwid mp1 (mptable.drop (i + 1)) with
    | none => none
    | some (some k) =>
      mergeSectionsFrom ((mptable.modify (i + 1 + k) fun mp2 => mergeSection mp2 mp1).eraseIdx i) i
    | some none => mergeSectionsFrom mptable (i + 1)
  else some mptable
termination_by mptable.length - i
decreasing_by
  · rw [List.length_eraseIdx_of_lt (by rwa [List.length_modify]), List.length_modify]
    omega
  · omega

/-- `merge_mptable`. -/
def mergeSections (mptable : List MpSection) : Option (List MpSection) :=
  mergeSectionsFrom mptable 0

/-- `add_binding`, which compares both strings. -/
def addBinding (bindings : List Binding) (aliasName wwid : Option CStr) :
    Option (Alias.Added × List Binding) :=
  aliasName.bind fun aliasName => wwid.map fun wwid => Alias.addBinding bindings aliasName wwid

/-- One section in `check_alias_settings`. -/
def checkSection (s : List Binding × List MpeAlias) (mpe : MpeAlias) :
    Option (List Binding × List MpeAlias) :=
  if mpe.wwid = none ∨ mpe.aliasName = none then some (s.1, s.2 ++ [mpe])
  else
    (addBinding s.1 mpe.aliasName mpe.wwid).map fun r =>
      (r.2, s.2 ++ [if r.1 = .conflict then { mpe with aliasName := none } else mpe])

/-- One line in `_check_bindings_file`. -/
def checkLine (mptable : List MpeAlias) (s : ℤ × List Binding) (line : CStr) :
    Option (ℤ × List Binding) :=
  match Alias.lineWords line with
  | some (aliasName, some wwid) =>
    (getMpeWwid mptable (some aliasName)).bind fun mpeWwid =>
      (if mpeWwid ≠ none then strcmpEq mpeWwid (some wwid) else some true).bind fun same =>
        if !same then some (-1, s.2)
        else
          (addBinding s.2 (some aliasName) (some wwid)).map fun r =>
            (if r.1 = .conflict then -1 else s.1, r.2)
  | _ => some s

/-- `check_alias_settings`: the return code, the sections and the file. -/
def checkAliasSettings (io : Alias.Io) (repair : Alias.RepairIo) (mptable : List MpeAlias)
    (content : CStr) (bindingsReadOnly : Bool) : Option (ℤ × List MpeAlias × CStr) :=
  (mptable.foldlM checkSection ([], [])).bind fun checked =>
    let f := Alias.openFile io content Alias.bindingsFileHeader
    if !f.1 || !repair.fdopen then some (0, checked.2, f.2)
    else
      ((getlines f.2).foldlM (checkLine checked.2) (0, [])).map fun r =>
        if r.1 = -1 ∧ io.canWrite = true ∧ bindingsReadOnly = false then
          let g := Alias.fixBindingsFile repair f.2 r.2
          (g.1, checked.2, g.2)
        else (r.1, checked.2, f.2)

/-! The functions that guard their comparisons never compare a NULL string. -/

section Guarded

theorem findMpe_none (mptable : List MpSection) : findMpe mptable none = some none := by
  cases mptable <;> rfl

theorem getMpeWwid_none (mptable : List MpeAlias) : getMpeWwid mptable none = some none := by
  cases mptable <;> rfl

theorem findMpe_eq (mptable : List MpSection) (wwid : CStr) :
    findMpe mptable (some wwid) = some (mptable.find? fun mpe => mpe.wwid? = some wwid) := by
  induction mptable with
  | nil => rfl
  | cons mpe rest ih =>
    rw [findMpe, if_neg (by simp), List.find?_cons]
    cases hw : mpe.wwid? with
    | none => simpa [hw] using ih
    | some w =>
      by_cases heq : w = wwid
      · simp [heq, strcmpEq]
      · simpa [hw, heq, strcmpEq] using ih

theorem getMpeWwid_eq (mptable : List MpeAlias) (aliasName : CStr) :
    getMpeWwid mptable (some aliasName) = some (Alias.getMpeWwid mptable aliasName) := by
  induction mptable with
  | nil => rfl
  | cons mpe rest ih =>
    rw [getMpeWwid, if_neg (by simp)]
    unfold Alias.getMpeWwid at ih ⊢
    rw [List.find?_cons]
    cases ha : mpe.aliasName with
    | none => simpa [ha] using ih
    | some a =>
      by_cases heq : a = aliasName
      · simp [heq, strcmpEq]
      · simpa [heq, strcmpEq] using ih

theorem checkSection_eq (s : List Binding × List MpeAlias) (mpe : MpeAlias) :
    checkSection s mpe = some (Alias.checkSection s mpe) := by
  unfold checkSection Alias.checkSection
  cases hw : mpe.wwid with
  | none => simp
  | some w =>
    cases ha : mpe.aliasName with
    | none => simp
    | some a => simp [addBinding]

theorem checkLine_eq (mptable : List MpeAlias) (s : ℤ × List Binding) (line : CStr) :
    checkLine mptable s line = some (Alias.checkLine mptable s line) := by
  unfold checkLine Alias.checkLine
  match Alias.lineWords line with
  | none => rfl
  | some (aliasName, none) => rfl
  | some (aliasName, some wwid) =>
    dsimp only
    rw [getMpeWwid_eq, Option.bind_some]
    cases Alias.getMpeWwid mptable aliasName with
    | none => simp [addBinding]
    | some w =>
      by_cases heq : w = wwid
      · simp [heq, strcmpEq, addBinding]
      · simp [heq, strcmpEq]

theorem foldlM_some {α β : Type*} {f : β → α → Option β} {g : β → α → β}
    (h : ∀ b a, f b a = some (g b a)) (l : List α) (b : β) : l.foldlM f b = some (l.foldl g b) := by
  induction l generalizing b with
  | nil => rfl
  | cons a l ih =>
    rw [List.foldlM_cons, h, List.foldl_cons]
    exact ih (g b a)

/-- `check_alias_settings` compares no NULL string. -/
theorem checkAliasSettings_eq (io : Alias.Io) (repair : Alias.RepairIo) (mptable : List MpeAlias)
    (content : CStr) (bindingsReadOnly : Bool) :
    checkAliasSettings io repair mptable content bindingsReadOnly =
      some (Alias.checkAliasSettings io repair mptable content bindingsReadOnly) := by
  unfold checkAliasSettings Alias.checkAliasSettings
  rw [foldlM_some checkSection_eq, Option.bind_some]
  dsimp only
  rw [foldlM_some (checkLine_eq _), Option.map_some]
  by_cases hopen : (!(Alias.openFile io content Alias.bindingsFileHeader).1 || !repair.fdopen) = true
  · rw [if_pos hopen, if_pos hopen]
  · rw [if_neg hopen, if_neg hopen, Alias.checkBindingsFile, apply_ite some]

end Guarded

section Merge

/-- A section with its WWID. -/
def ofMpentry (mpe : Mpentry) : MpSection := { mpe with }

/-- The sections that have a WWID. -/
def withWwid (mptable : List MpSection) : List MpSection := mptable.filter (·.hasWwid)

theorem eq_ofMpentry {mpe : MpSection} (h : mpe.hasWwid = true) : ofMpentry mpe.toMpentry = mpe := by
  obtain ⟨m, w⟩ := mpe
  cases h
  rfl

theorem map_ofMpentry {mptable : List MpSection} (h : ∀ mpe ∈ mptable, mpe.hasWwid = true) :
    (mptable.map MpSection.toMpentry).map ofMpentry = mptable := by
  rw [List.map_map]
  exact (List.map_congr_left fun mpe hmpe => eq_ofMpentry (h mpe hmpe)).trans (List.map_id _)

theorem findSameWwid_ofMpentry (mp1 : Mpentry) (l : List Mpentry) :
    findSameWwid (ofMpentry mp1) (l.map ofMpentry) =
      some (l.findIdx? fun mp2 => mp2.wwid = mp1.wwid) := by
  induction l with
  | nil => rfl
  | cons mp2 l ih =>
    rw [List.map_cons, findSameWwid, ih, List.findIdx?_cons]
    by_cases heq : mp2.wwid = mp1.wwid
    · simp [ofMpentry, MpSection.wwid?, strcmpEq, heq]
    · simp [ofMpentry, MpSection.wwid?, strcmpEq, heq, Ne.symm heq]

/-- Sections that all have a WWID are merged as in the model of complete sections. -/
theorem mergeSectionsFrom_ofMpentry (l : List Mpentry) (i : ℕ) :
    mergeSectionsFrom (l.map ofMpentry) i = some ((mergeMptableFrom l i).map ofMpentry) := by
  fun_induction mergeMptableFrom l i with
  | case1 l i h mp1 k hk ih =>
    have hlen : i < (l.map ofMpentry).length := by rwa [List.length_map]
    have hmodify : (((l.map ofMpentry).modify (i + 1 + k) fun mp2 =>
        mergeSection mp2 (ofMpentry l[i])).eraseIdx i) =
          ((l.modify (i + 1 + k) fun mp2 => mergeMpe mp2 mp1).eraseIdx i).map ofMpentry := by
      rw [← List.eraseIdx_map]
      congr 1
      apply List.ext_getElem?
      intro j
      simp only [List.getElem?_modify, List.getElem?_map]
      by_cases hj : i + 1 + k = j
      · cases l[j]? with
        | none => simp
        | some mpe =>
          simp only [Option.map_some, hj, if_true]
          rfl
      · cases l[j]? <;> simp [hj]
    rw [mergeSectionsFrom, dif_pos hlen]
    dsimp only
    rw [List.getElem_map, ← List.map_drop, findSameWwid_ofMpentry, hk]
    dsimp only
    rw [hmodify, ih]
  | case2 l i h mp1 hk ih =>
    have hlen : i < (l.map ofMpentry).length := by rwa [List.length_map]
    rw [mergeSectionsFrom, dif_pos hlen]
    dsimp only
    rw [List.getElem_map, ← List.map_drop, findSameWwid_ofMpentry, hk]
    exact ih
  | case3 l i h => rw [mergeSectionsFrom, dif_neg (by simpa using h)]

theorem strcmpEq_wwid {mp1 mp2 : MpSection} {same : Bool}
    (h : strcmpEq mp1.wwid? mp2.wwid? = some same) : mp1.hasWwid = true ∧ mp2.hasWwid = true := by
  cases h1 : mp1.hasWwid <;> cases h2 : mp2.hasWwid <;>
    simp [MpSection.wwid?, h1, h2, strcmpEq] at h ⊢

/-- The inner loop compares with all sections up to the one with the same WWID. -/
theorem findSameWwid_eq_some {mp1 : MpSection} {l : List MpSection} {r : Option ℕ}
    (h : findSameWwid mp1 l = some r) :
    ∀ mp2 ∈ l.take (r.elim l.length (· + 1)), mp1.hasWwid = true ∧ mp2.hasWwid = true := by
  induction l generalizing r with
  | nil => simp
  | cons mp2 l ih =>
    obtain ⟨same, hsame, h⟩ := Option.bind_eq_some_iff.mp h
    have hhead := strcmpEq_wwid hsame
    cases same with
    | true =>
      obtain rfl := Option.some.inj h
      simpa using hhead
    | false =>
      obtain ⟨k, hk, rfl⟩ := Option.map_eq_some_iff.mp h
      have htake : (mp2 :: l).take ((k.map (· + 1)).elim (mp2 :: l).length (· + 1)) =
          mp2 :: l.take (k.elim l.length (· + 1)) := by
        cases k <;> simp
      rw [htake, List.forall_mem_cons]
      exact ⟨hhead, ih hk⟩

/-- The section at slot `i` and those up to the one that is found have been compared. -/
theorem compared_hasWwid {l : List MpSection} {i d : ℕ} {mp1 mpe : MpSection} {r : Option ℕ}
    (hi : l[i]? = some mp1) (hlen : i + 2 ≤ l.length)
    (h : findSameWwid mp1 (l.drop (i + 1)) = some r) (hd : l[i + d]? = some mpe)
    (hle : ∀ k ∈ r, d ≤ k + 1) : mpe.hasWwid = true := by
  have hcompared := findSameWwid_eq_some h
  have hpos : ∀ j, i + 1 + j < l.length → (∀ k ∈ r, j ≤ k) →
      j < r.elim (l.drop (i + 1)).length (· + 1) := by
    intro j hj hjk
    cases r with
    | none =>
      rw [Option.elim_none, List.length_drop]
      omega
    | some k => exact Nat.lt_succ_of_le (hjk k rfl)
  have hmem : ∀ j mp2, l[i + 1 + j]? = some mp2 → (∀ k ∈ r, j ≤ k) →
      mp2 ∈ (l.drop (i + 1)).take (r.elim (l.drop (i + 1)).length (· + 1)) := by
    intro j mp2 hj hjk
    have hlt := (List.getElem?_eq_some_iff.mp hj).1
    apply List.mem_of_getElem? (i := j)
    rw [List.getElem?_take, if_pos (hpos j hlt hjk), List.getElem?_drop, hj]
  cases d with
  | zero =>
    rw [Nat.add_zero, hi] at hd
    obtain rfl := Option.some.inj hd
    have hnext : l[i + 1 + 0]? = some l[i + 1] := List.getElem?_eq_getElem (by omega)
    exact (hcompared _ (hmem 0 _ hnext fun k _ => Nat.zero_le k)).1
  | succ d =>
    rw [Nat.add_comm d 1, ← Nat.add_assoc] at hd
    exact (hcompared mpe (hmem d mpe hd fun k hk => Nat.le_of_succ_le_succ (hle k hk))).2

/-- Of two sections or more one without a WWID makes `merge_mptable` compare a NULL string. -/
theorem mergeSectionsFrom_none {l : List MpSection} {i : ℕ} (hlen : i + 2 ≤ l.length)
    (hmiss : ∃ mpe ∈ l.drop i, mpe.hasWwid = false) : mergeSectionsFrom l i = none := by
  fun_induction mergeSectionsFrom l i with
  | case1 l i h mp1 hk => rfl
  | case2 l i h mp1 k hk ih =>
    obtain ⟨mpe, hmpe, hno⟩ := hmiss
    obtain ⟨d, hd⟩ := List.mem_iff_getElem?.mp hmpe
    rw [List.getElem?_drop] at hd
    have hbeyond : k + 1 < d := by
      by_contra hle
      have hhas := compared_hasWwid (List.getElem?_eq_getElem h) hlen hk hd
        (fun k' hk' => by obtain rfl := Option.some.inj hk'; omega)
      exact Bool.false_ne_true (hno.symm.trans hhas)
    have hlt := (List.getElem?_eq_some_iff.mp hd).1
    apply ih
    · rw [List.length_eraseIdx_of_lt (by rwa [List.length_modify]), List.length_modify]
      omega
    · refine ⟨mpe, List.mem_of_getElem? (i := d - 1) ?_, hno⟩
      have hindex : i + (d - 1) + 1 = i + d := by omega
      rw [List.getElem?_drop, List.getElem?_eraseIdx_of_ge (by omega), hindex,
        List.getElem?_modify_ne _ _ (by omega), hd]
  | case3 l i h mp1 hk ih =>
    obtain ⟨mpe, hmpe, hno⟩ := hmiss
    obtain ⟨d, hd⟩ := List.mem_iff_getElem?.mp hmpe
    rw [List.getElem?_drop] at hd
    have hhas := compared_hasWwid (List.getElem?_eq_getElem h) hlen hk hd (by simp)
    exact absurd (hno.symm.trans hhas) Bool.false_ne_true
  | case4 l i h => omega

end Merge

/-- A table is treated as if the sections without a WWID were absent, and no NULL string is
compared. -/
structure Harmless (mptable : List MpSection) : Prop where
  merge : ∃ merged, mergeSections mptable = some merged ∧
    mergeSections (withWwid mptable) = some (withWwid merged)
  find : ∀ wwid, ∃ mpe, findMpe mptable wwid = some mpe ∧ findMpe (withWwid mptable) wwid = some mpe
  wwid : ∀ aliasName, ∃ wwid,
    getMpeWwid (mptable.map MpSection.toAlias) aliasName = some wwid ∧
      getMpeWwid ((withWwid mptable).map MpSection.toAlias) aliasName = some wwid
  check : ∀ io repair content bindingsReadOnly, ∃ rc checked file,
    checkAliasSettings io repair (mptable.map MpSection.toAlias) content bindingsReadOnly =
        some (rc, checked, file) ∧
      checkAliasSettings io repair ((withWwid mptable).map MpSection.toAlias) content
        bindingsReadOnly = some (rc, checked.filter (·.wwid.isSome), file)

theorem exists_findMpe (mptable : List MpSection) (wwid : Option CStr) :
    ∃ mpe, findMpe mptable wwid = some mpe := by
  cases wwid with
  | none => exact ⟨none, findMpe_none mptable⟩
  | some wwid => exact ⟨_, findMpe_eq mptable wwid⟩

theorem exists_getMpeWwid (mptable : List MpeAlias) (aliasName : Option CStr) :
    ∃ wwid, getMpeWwid mptable aliasName = some wwid := by
  cases aliasName with
  | none => exact ⟨none, getMpeWwid_none mptable⟩
  | some aliasName => exact ⟨_, getMpeWwid_eq mptable aliasName⟩

/-- `check_alias_settings` takes away aliases only. -/
theorem foldl_checkSection_wwid (mptable : List MpeAlias) (s : List Binding × List MpeAlias) :
    (mptable.foldl Alias.checkSection s).2.map MpeAlias.wwid =
      s.2.map MpeAlias.wwid ++ mptable.map MpeAlias.wwid := by
  induction mptable generalizing s with
  | nil => simp
  | cons mpe mptable ih =>
    have hstep : (Alias.checkSection s mpe).2.map MpeAlias.wwid =
        s.2.map MpeAlias.wwid ++ [mpe.wwid] := by
      unfold Alias.checkSection
      split
      · rw [List.map_append, List.map_singleton]
        split_ifs <;> rfl
      · rw [List.map_append, List.map_singleton]
    rw [List.foldl_cons, ih, hstep, List.map_cons, List.append_assoc, List.singleton_append]

theorem checkAliasSettings_wwid (io : Alias.Io) (repair : Alias.RepairIo) (mptable : List MpeAlias)
    (content : CStr) (bindingsReadOnly : Bool) :
    (Alias.checkAliasSettings io repair mptable content bindingsReadOnly).2.1.map MpeAlias.wwid =
      mptable.map MpeAlias.wwid := by
  have hmptable : (Alias.checkAliasSettings io repair mptable content bindingsReadOnly).2.1 =
      (mptable.foldl Alias.checkSection ([], [])).2 := by
    unfold Alias.checkAliasSettings
    dsimp only
    split_ifs <;> rfl
  rw [hmptable, foldl_checkSection_wwid, List.map_nil, List.nil_append]

theorem harmless_of_all {mptable : List MpSection} (h : ∀ mpe ∈ mptable, mpe.hasWwid = true) :
    Harmless mptable := by
  have hwith : withWwid mptable = mptable := List.filter_eq_self.mpr h
  constructor
  case merge =>
    have hmerge := mergeSectionsFrom_ofMpentry (mptable.map MpSection.toMpentry) 0
    rw [map_ofMpentry h] at hmerge
    refine ⟨_, hmerge, ?_⟩
    have hmerged : ∀ l : List Mpentry, withWwid (l.map ofMpentry) = l.map ofMpentry := by
      intro l
      apply List.filter_eq_self.mpr
      intro mpe hmpe
      obtain ⟨m, -, rfl⟩ := List.mem_map.mp hmpe
      rfl
    rw [hwith, hmerged]
    exact hmerge
  case find =>
    intro wwid
    rw [hwith]
    obtain ⟨mpe, hmpe⟩ := exists_findMpe mptable wwid
    exact ⟨mpe, hmpe, hmpe⟩
  case wwid =>
    intro aliasName
    rw [hwith]
    obtain ⟨wwid, hwwid⟩ := exists_getMpeWwid (mptable.map MpSection.toAlias) aliasName
    exact ⟨wwid, hwwid, hwwid⟩
  case check =>
    intro io repair content readOnly
    rw [hwith, checkAliasSettings_eq]
    have hkeep : ∀ mpe ∈ (Alias.checkAliasSettings io repair (mptable.map MpSection.toAlias) content
        readOnly).2.1, mpe.wwid.isSome = true := by
      intro mpe hmpe
      have hmem := List.mem_map_of_mem (f := MpeAlias.wwid) hmpe
      rw [checkAliasSettings_wwid, List.map_map] at hmem
      obtain ⟨sec, hsec, hw⟩ := List.mem_map.mp hmem
      rw [← hw]
      simp [MpSection.toAlias, MpSection.wwid?, h sec hsec]
    generalize Alias.checkAliasSettings io repair (mptable.map MpSection.toAlias) content readOnly
      = result at hkeep
    obtain ⟨rc, checked, file⟩ := result
    exact ⟨rc, checked, file, rfl, by rw [List.filter_eq_self.mpr hkeep]⟩

/-- A single section without a WWID. -/
theorem harmless_singleton {mpe : MpSection} (h : mpe.hasWwid = false) : Harmless [mpe] := by
  have hwith : withWwid [mpe] = [] := by simp [withWwid, h]
  have hnull : mpe.wwid? = none := by simp [MpSection.wwid?, h]
  have hwwid : mpe.toAlias.wwid = none := hnull
  have hget : ∀ aliasName, Alias.getMpeWwid [mpe.toAlias] aliasName = none := by
    intro aliasName
    unfold Alias.getMpeWwid
    rw [List.find?_singleton]
    split_ifs
    · exact hwwid
    · rfl
  constructor
  case merge =>
    have hone : mergeSections [mpe] = some [mpe] := by
      rw [mergeSections, mergeSectionsFrom, dif_pos (by simp)]
      dsimp only
      rw [List.getElem_cons_zero, Nat.zero_add, List.drop_one, List.tail_cons, findSameWwid]
      dsimp only
      rw [mergeSectionsFrom, dif_neg (by simp)]
    have hnil : mergeSections [] = some [] := by
      rw [mergeSections, mergeSectionsFrom, dif_neg (by simp)]
    exact ⟨[mpe], hone, by rw [hwith]; exact hnil⟩
  case find =>
    intro wwid
    rw [hwith]
    cases wwid with
    | none => exact ⟨none, findMpe_none _, findMpe_none _⟩
    | some wwid =>
      rw [findMpe_eq, findMpe_eq]
      refine ⟨none, ?_, rfl⟩
      simp [hnull]
  case wwid =>
    intro aliasName
    rw [hwith]
    cases aliasName with
    | none => exact ⟨none, getMpeWwid_none _, getMpeWwid_none _⟩
    | some aliasName =>
      rw [getMpeWwid_eq, getMpeWwid_eq]
      exact ⟨none, congrArg some (hget aliasName), rfl⟩
  case check =>
    intro io repair content readOnly
    have hline : Alias.checkLine [mpe.toAlias] = Alias.checkLine [] := by
      funext s line
      unfold Alias.checkLine
      simp only [hget]
      rfl
    have hsections : [mpe.toAlias].foldl Alias.checkSection ([], []) = ([], [mpe.toAlias]) := by
      simp [Alias.checkSection, hwwid]
    rw [hwith, checkAliasSettings_eq, checkAliasSettings_eq]
    unfold Alias.checkAliasSettings
    rw [List.map_singleton, hsections]
    simp only [List.map_nil, List.foldl_nil, Alias.checkBindingsFile, hline]
    split_ifs
    · exact ⟨_, _, _, rfl, by simp [hwwid]⟩
    · exact ⟨_, _, _, rfl, by simp [hwwid]⟩
    · exact ⟨_, _, _, rfl, by simp [hwwid]⟩

/-- Sections without a WWID are harmless exactly if there are none, or no other section. -/
theorem harmless_iff (mptable : List MpSection) :
    Harmless mptable ↔ (∀ mpe ∈ mptable, mpe.hasWwid = true) ∨ mptable.length ≤ 1 := by
  constructor
  · intro h
    by_contra hcond
    push Not at hcond
    obtain ⟨⟨mpe, hmpe, hno⟩, hlen⟩ := hcond
    obtain ⟨merged, hmerge, -⟩ := h.merge
    have hnone : mergeSections mptable = none :=
      mergeSectionsFrom_none (i := 0) hlen ⟨mpe, by simpa using hmpe, by simpa using hno⟩
    rw [hnone] at hmerge
    cases hmerge
  · rintro (hall | hlen)
    · exact harmless_of_all hall
    · cases mptable with
      | nil => exact harmless_of_all (by simp)
      | cons mpe rest =>
        obtain rfl : rest = [] := List.eq_nil_of_length_eq_zero (by simpa using hlen)
        by_cases h : mpe.hasWwid = true
        · exact harmless_of_all (by simpa using h)
        · exact harmless_singleton (by simpa using h)

/-- A section with a WWID after one with an alias only. -/
def aliasOnlyFirst : List MpSection :=
  [{ wwid := [], str := fun s => if s = .aliasName then some "data".toList else none,
     hasWwid := false },
   { wwid := "3600".toList, str := fun s => if s = .aliasName then some "data".toList else none }]

theorem harmless_aliasOnly : ¬ ∀ mptable : List MpSection, Harmless mptable := by
  intro h
  obtain ⟨merged, hmerge, -⟩ := (h aliasOnlyFirst).merge
  have hnone : mergeSections aliasOnlyFirst = none :=
    mergeSectionsFrom_none (by decide) ⟨_, List.mem_cons_self, rfl⟩
  rw [hnone] at hmerge
  cases hmerge

end MultipathTools.Config
