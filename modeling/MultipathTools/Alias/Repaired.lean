import MultipathTools.Alias.LineWords
import MultipathTools.Alias.FileBindings

/-! What `_check_bindings_file` reads from the bindings file, and from the one that
`fix_bindings_file` writes. -/
namespace MultipathTools.Alias

variable {mptable : List MpeAlias} {bindings : List Binding} {aliasName wwid line content : CStr}
  {bnd : Binding}

/-- The binding in a line. -/
def readBinding (line : CStr) : Option Binding := (lineBinding line).map fun b => ⟨b.1, b.2⟩

/-- The bindings in the lines of a file. -/
def readBindings (content : CStr) : List Binding := (getlines content).filterMap readBinding

theorem readBinding_eq_some :
    readBinding line = some bnd ↔ lineWords line = some (bnd.aliasName, some bnd.wwid) := by
  rw [← lineBinding_eq_some, readBinding, Option.map_eq_some_iff]
  constructor
  · rintro ⟨b, hb, rfl⟩
    exact hb
  · exact fun h => ⟨_, h, rfl⟩

/-- A section has the alias of the binding and another WWID. -/
def Contradicts (mptable : List MpeAlias) (bnd : Binding) : Prop :=
  ∃ mpe ∈ mptable, mpe.aliasName = some bnd.aliasName ∧ ∃ w ∈ mpe.wwid, w ≠ bnd.wwid

instance (mptable : List MpeAlias) (bnd : Binding) : Decidable (Contradicts mptable bnd) :=
  inferInstanceAs (Decidable (∃ mpe ∈ mptable, _ ∧ ∃ w ∈ mpe.wwid, _))

/-- The first line with the alias that does not contradict the sections. -/
def firstBinding (mptable : List MpeAlias) (l : List Binding) (aliasName : CStr) : Option Binding :=
  l.find? fun bnd => bnd.aliasName = aliasName ∧ ¬Contradicts mptable bnd

theorem of_firstBinding {l : List Binding} (h : firstBinding mptable l aliasName = some bnd) :
    bnd ∈ l ∧ bnd.aliasName = aliasName ∧ ¬Contradicts mptable bnd := by
  unfold firstBinding at h
  have hp := List.find?_some h
  exact ⟨List.mem_of_find?_eq_some h, of_decide_eq_true hp⟩

section Add

theorem addBinding_of_mem (h : SortedKeys Binding.aliasName bindings) (hb : bnd ∈ bindings) :
    addBinding bindings bnd.aliasName wwid =
      (if bnd.wwid ≠ wwid then .conflict else .already, bindings) := by
  obtain ⟨b, hlast, hkey⟩ := (mem_keys_iff h).mp (List.mem_map_of_mem hb)
  obtain rfl : b = bnd :=
    h.eq_of_mem ((upTo_sublist _ _ _).subset (List.mem_of_getLast? hlast)) hb hkey
  unfold addBinding
  dsimp only
  rw [hlast]
  dsimp only
  rw [if_pos rfl]

theorem addBinding_of_not_mem (h : SortedKeys Binding.aliasName bindings)
    (ha : aliasName ∉ bindings.map Binding.aliasName) : addBinding bindings aliasName wwid =
      (.added, upTo Binding.aliasName aliasName bindings ++
        ⟨aliasName, wwid⟩ :: above Binding.aliasName aliasName bindings) := by
  unfold addBinding
  dsimp only
  cases hlast : (upTo Binding.aliasName aliasName bindings).getLast? with
  | none => rfl
  | some b =>
    dsimp only
    rw [if_neg fun hkey => ha ((mem_keys_iff h).mpr ⟨b, hlast, hkey⟩)]

/-- `add_binding` keeps the vector sorted, and adds a binding if there is none for the alias. -/
theorem addBinding_spec (h : SortedKeys Binding.aliasName bindings) (aliasName wwid : CStr) :
    SortedKeys Binding.aliasName (addBinding bindings aliasName wwid).2 ∧
    (∀ b, b ∈ (addBinding bindings aliasName wwid).2 ↔ b ∈ bindings ∨
      b = ⟨aliasName, wwid⟩ ∧ aliasName ∉ bindings.map Binding.aliasName) ∧
    ((addBinding bindings aliasName wwid).1 ≠ .conflict ↔
      ⟨aliasName, wwid⟩ ∈ (addBinding bindings aliasName wwid).2) := by
  by_cases ha : aliasName ∈ bindings.map Binding.aliasName
  · obtain ⟨bnd, hb, rfl⟩ := List.mem_map.mp ha
    rw [addBinding_of_mem h hb]
    refine ⟨h, fun b => ?_, ?_⟩
    · simp [ha]
    · dsimp only
      split_ifs with hw
      · refine iff_of_false (fun hne => hne rfl) fun hmem => hw ?_
        exact congrArg Binding.wwid (h.eq_of_mem hb hmem rfl)
      · rw [← not_not.mp hw]
        exact iff_of_true nofun hb
  · rw [addBinding_of_not_mem h ha]
    refine ⟨sortedKeys_insert (a := ⟨aliasName, wwid⟩) h ha, fun b => ?_, ?_⟩
    · rw [mem_insert, or_comm, and_iff_left ha]
    · exact iff_of_true nofun (mem_insert.mpr (.inl rfl))

end Add

section Read

theorem eq_of_aliasName {mpe mpe' : MpeAlias} (hdup : (mptable.filterMap MpeAlias.aliasName).Nodup)
    (h : mpe ∈ mptable) (h' : mpe' ∈ mptable) (ha : mpe.aliasName = some aliasName)
    (ha' : mpe'.aliasName = some aliasName) : mpe = mpe' := by
  induction mptable with
  | nil => cases h
  | cons m l ih =>
    have hmem {x : MpeAlias} (hx : x ∈ l) (hxa : x.aliasName = some aliasName) :
        aliasName ∈ l.filterMap MpeAlias.aliasName := List.mem_filterMap.mpr ⟨x, hx, hxa⟩
    have hhead (hm : m.aliasName = some aliasName) : aliasName ∉ l.filterMap MpeAlias.aliasName := by
      rw [List.filterMap_cons_some hm] at hdup
      exact (List.nodup_cons.mp hdup).1
    have htail : (l.filterMap MpeAlias.aliasName).Nodup :=
      hdup.sublist ((List.sublist_cons_self m l).filterMap _)
    rcases List.mem_cons.mp h with rfl | hl
    · rcases List.mem_cons.mp h' with rfl | hl'
      · rfl
      · exact absurd (hmem hl' ha') (hhead ha)
    · rcases List.mem_cons.mp h' with rfl | hl'
      · exact absurd (hmem hl ha) (hhead ha')
      · exact ih htail hl hl'

theorem getMpeWwid_any_iff (hdup : (mptable.filterMap MpeAlias.aliasName).Nodup) :
    (getMpeWwid mptable aliasName).any (· ≠ wwid) = true ↔
      Contradicts mptable ⟨aliasName, wwid⟩ := by
  unfold getMpeWwid
  cases hfind : mptable.find? fun mpe => mpe.aliasName = some aliasName with
  | none =>
    refine iff_of_false nofun ?_
    rintro ⟨mpe, hmem, ha, -⟩
    exact List.find?_eq_none.mp hfind mpe hmem (decide_eq_true ha)
  | some mpe =>
    have ha : mpe.aliasName = some aliasName := by simpa using List.find?_some hfind
    have hmem := List.mem_of_find?_eq_some hfind
    have hany : mpe.wwid.any (· ≠ wwid) = true ↔ ∃ w ∈ mpe.wwid, w ≠ wwid := by
      cases mpe.wwid <;> simp
    refine Iff.trans hany ?_
    constructor
    · exact fun h => ⟨mpe, hmem, ha, h⟩
    · rintro ⟨mpe', hmem', ha', h⟩
      exact eq_of_aliasName hdup hmem hmem' ha ha' ▸ h

theorem checkLine_of_none (h : readBinding line = none) (s : ℤ × List Binding) :
    checkLine mptable s line = s := by
  unfold checkLine
  rcases hwords : lineWords line with _ | ⟨aliasName, _ | wwid⟩
  · rfl
  · rfl
  · rw [(@readBinding_eq_some _ ⟨aliasName, wwid⟩).mpr hwords] at h
    cases h

theorem checkLine_of_some (hdup : (mptable.filterMap MpeAlias.aliasName).Nodup)
    (h : readBinding line = some bnd) (s : ℤ × List Binding) : checkLine mptable s line =
      if Contradicts mptable bnd then (-1, s.2)
      else
        (if (addBinding s.2 bnd.aliasName bnd.wwid).1 = .conflict then -1 else s.1,
          (addBinding s.2 bnd.aliasName bnd.wwid).2) := by
  unfold checkLine
  rw [readBinding_eq_some.mp h]
  dsimp only
  exact if_congr (getMpeWwid_any_iff hdup) rfl rfl

/-- What `_check_bindings_file` has read after some lines. -/
theorem foldl_checkLine (hdup : (mptable.filterMap MpeAlias.aliasName).Nodup) (lines : List CStr) :
    SortedKeys Binding.aliasName (lines.foldl (checkLine mptable) (0, [])).2 ∧
    ∀ b, b ∈ (lines.foldl (checkLine mptable) (0, [])).2 ↔
      firstBinding mptable (lines.filterMap readBinding) b.aliasName = some b := by
  induction lines using List.reverseRecOn with
  | nil =>
    refine ⟨List.Pairwise.nil, fun b => iff_of_false List.not_mem_nil nofun⟩
  | append_singleton lines line ih =>
    obtain ⟨hsorted, hmem⟩ := ih
    rw [List.foldl_append, List.foldl_cons, List.foldl_nil, List.filterMap_append]
    cases hline : readBinding line with
    | none =>
      rw [checkLine_of_none hline, List.filterMap_cons_none hline, List.filterMap_nil,
        List.append_nil]
      exact ⟨hsorted, hmem⟩
    | some bnd =>
      rw [checkLine_of_some hdup hline, List.filterMap_cons_some hline, List.filterMap_nil]
      have hfirst (a : CStr) : firstBinding mptable (lines.filterMap readBinding ++ [bnd]) a =
          (firstBinding mptable (lines.filterMap readBinding) a).or
            (if bnd.aliasName = a ∧ ¬Contradicts mptable bnd then some bnd else none) := by
        unfold firstBinding
        rw [List.find?_append, List.find?_singleton]
        simp only [decide_eq_true_eq]
      have hkeys (a : CStr) : a ∈ (lines.foldl (checkLine mptable) (0, [])).2.map
          Binding.aliasName ↔ (firstBinding mptable (lines.filterMap readBinding) a).isSome := by
        constructor
        · intro ha
          obtain ⟨b, hb, rfl⟩ := List.mem_map.mp ha
          rw [(hmem b).mp hb]
          rfl
        · intro ha
          obtain ⟨b, hb⟩ := Option.isSome_iff_exists.mp ha
          have hab := (of_firstBinding hb).2.1
          exact List.mem_map.mpr ⟨b, (hmem b).mpr (hab ▸ hb), hab⟩
      simp only [hfirst]
      by_cases hc : Contradicts mptable bnd
      · rw [if_pos hc]
        refine ⟨hsorted, fun b => ?_⟩
        rw [hmem, if_neg fun hand => hand.2 hc, Option.or_none]
      · rw [if_neg hc]
        obtain ⟨hadd, hmemAdd, -⟩ := addBinding_spec hsorted bnd.aliasName bnd.wwid
        refine ⟨hadd, fun b => ?_⟩
        rw [hmemAdd, hmem, hkeys]
        constructor
        · rintro (hb | ⟨rfl, hnone⟩)
          · rw [hb, Option.some_or]
          · rw [Option.not_isSome_iff_eq_none.mp hnone, if_pos ⟨rfl, hc⟩, Option.none_or]
        · intro h
          cases hF : firstBinding mptable (lines.filterMap readBinding) b.aliasName with
          | some b' =>
            rw [hF, Option.some_or] at h
            exact .inl h
          | none =>
            rw [hF, Option.none_or] at h
            split_ifs at h with hand
            obtain rfl := Option.some.inj h
            exact .inr ⟨rfl, Option.not_isSome_iff_eq_none.mpr hF⟩

theorem readBinding_fields (h : readBinding line = some bnd) :
    IsField bnd.aliasName ∧ IsField bnd.wwid := by
  have hwords := readBinding_eq_some.mp h
  exact ⟨lineWords_alias hwords, lineWords_wwid_field hwords⟩

/-- The file that `write_bindings_file` writes is read back, binding for binding. -/
theorem foldl_bindingText (hdup : (mptable.filterMap MpeAlias.aliasName).Nodup)
    {l₁ l₂ : List Binding} (hsorted : SortedKeys Binding.aliasName (l₁ ++ l₂))
    (hfields : ∀ b ∈ l₂, IsField b.aliasName ∧ IsField b.wwid)
    (hno : ∀ b ∈ l₂, ¬Contradicts mptable b) :
    (l₂.map bindingText).foldl (checkLine mptable) (0, l₁) = (0, l₁ ++ l₂) := by
  induction l₂ generalizing l₁ with
  | nil => rw [List.append_nil]; rfl
  | cons b l₂ ih =>
    obtain ⟨hname, hwwid⟩ := hfields b List.mem_cons_self
    have hline : readBinding (bindingText b) = some b := by
      have htext : bindingText b = [] ++ (b.aliasName ++ ' ' :: b.wwid) ++ ['\n'] := by
        simp [bindingText]
      rw [readBinding_eq_some, htext, lineWords_binding (by simp [Blank]) hname hwwid (.inr rfl)]
    obtain ⟨hl₁, -, hcross⟩ := List.pairwise_append.mp hsorted
    have hlt : ∀ c ∈ l₁, c.aliasName < b.aliasName := fun c hc => hcross c hc b List.mem_cons_self
    have hnew : b.aliasName ∉ l₁.map Binding.aliasName := by
      intro hmem
      obtain ⟨c, hc, heq⟩ := List.mem_map.mp hmem
      exact (hlt c hc).ne heq
    obtain ⟨hup, habove⟩ := upTo_of_lt hlt
    rw [List.map_cons, List.foldl_cons, checkLine_of_some hdup hline,
      if_neg (hno b List.mem_cons_self)]
    dsimp only
    rw [addBinding_of_not_mem hl₁ hnew, hup, habove]
    dsimp only
    have hadded : ¬Added.added = .conflict := by decide
    rw [if_neg hadded]
    have hassoc : l₁ ++ b :: l₂ = (l₁ ++ [b]) ++ l₂ := by simp
    rw [hassoc] at hsorted ⊢
    exact ih hsorted (fun c hc => hfields c (List.mem_cons_of_mem _ hc))
      fun c hc => hno c (List.mem_cons_of_mem _ hc)

end Read

section Write

theorem writeBindings_eq {room : ℕ} {text : CStr} (h : writeBindings room bindings = some text) :
    text = bindings.flatMap bindingText := by
  induction bindings generalizing room text with
  | nil => exact (Option.some.inj h).symm
  | cons bnd bindings ih =>
    unfold writeBindings at h
    dsimp only at h
    split_ifs at h
    obtain ⟨tail, htail, rfl⟩ := Option.map_eq_some_iff.mp h
    rw [List.flatMap_cons, ih htail]

theorem fixBindingsFile_eq {io : RepairIo} {content' : CStr}
    (h : fixBindingsFile io content bindings = (0, content')) :
    content' = bindingsFileHeader ++ bindings.flatMap bindingText := by
  unfold fixBindingsFile at h
  cases htext : writeBindingsFile io.room bindings with
  | none =>
    rw [htext] at h
    split_ifs at h <;> cases (Prod.mk.inj h).1
  | some text =>
    rw [htext] at h
    dsimp only at h
    split_ifs at h
    · cases (Prod.mk.inj h).1
    · obtain rfl := (Prod.mk.inj h).2
      unfold writeBindingsFile at htext
      split_ifs at htext
      obtain ⟨tail, htail, rfl⟩ := Option.map_eq_some_iff.mp htext
      rw [writeBindings_eq htail]
    · cases (Prod.mk.inj h).1

theorem not_mem_of_isField {s : CStr} (h : IsField s) : '\n' ∉ s := fun hmem =>
  absurd (h.2 _ hmem) (by decide)

theorem getlines_bindings (hfields : ∀ b ∈ bindings, IsField b.aliasName ∧ IsField b.wwid) :
    getlines (bindingsFileHeader ++ bindings.flatMap bindingText) =
      headerLines.map (· ++ ['\n']) ++ bindings.map bindingText := by
  have htext : bindings.flatMap bindingText =
      (bindings.map fun b => b.aliasName ++ ' ' :: b.wwid).flatMap (· ++ ['\n']) ++ [] := by
    rw [List.flatMap_map, List.append_nil]
    refine congrArg (List.flatMap · bindings) (funext fun b => ?_)
    simp [bindingText]
  rw [bindingsFileHeader, getlines_flatMap fun l hl => (headerLines_comment l hl).2.1, htext,
    getlines_flatMap]
  · rw [getlines, List.append_nil, List.map_map]
    refine congrArg (_ ++ List.map · bindings) (funext fun b => ?_)
    simp [bindingText]
  · intro l hl
    obtain ⟨b, hb, rfl⟩ := List.mem_map.mp hl
    have hname := not_mem_of_isField (hfields b hb).1
    have hwwid := not_mem_of_isField (hfields b hb).2
    simp [hname, hwwid]

theorem foldl_header (s : ℤ × List Binding) :
    (headerLines.map (· ++ ['\n'])).foldl (checkLine mptable) s = s := by
  have hnone : ∀ l ∈ headerLines, readBinding (l ++ ['\n']) = none := by
    intro l hl
    rw [readBinding, lineBinding, lineWords_comment (headerLines_comment l hl).1]
    rfl
  generalize headerLines = ls at hnone
  induction ls with
  | nil => rfl
  | cons l ls ih =>
    rw [List.map_cons, List.foldl_cons, checkLine_of_none (hnone l List.mem_cons_self)]
    exact ih fun l hl => hnone l (List.mem_cons_of_mem _ hl)

end Write

section Sections

/-- No alias is bound to two WWIDs. -/
def Unambiguous (mptable : List MpeAlias) : Prop :=
  ∀ mpe ∈ mptable, ∀ mpe' ∈ mptable, ∀ a w w', mpe.aliasName = some a → mpe'.aliasName = some a →
    mpe.wwid = some w → mpe'.wwid = some w' → w = w'

/-- The sections that have been passed have their bindings in the vector. -/
theorem foldl_checkSection (mptable : List MpeAlias) :
    SortedKeys Binding.aliasName (mptable.foldl checkSection ([], [])).1 ∧
    ∀ mpe ∈ (mptable.foldl checkSection ([], [])).2, ∀ a w, mpe.aliasName = some a →
      mpe.wwid = some w → ⟨a, w⟩ ∈ (mptable.foldl checkSection ([], [])).1 := by
  induction mptable using List.reverseRecOn with
  | nil => exact ⟨List.Pairwise.nil, nofun⟩
  | append_singleton l mpe ih =>
    obtain ⟨hsorted, hmem⟩ := ih
    rw [List.foldl_append, List.foldl_cons, List.foldl_nil]
    generalize l.foldl checkSection ([], []) = s at hsorted hmem
    unfold checkSection
    split
    · next wwid aliasName hwwid hname =>
      obtain ⟨hadd, hmemAdd, hconflict⟩ := addBinding_spec hsorted aliasName wwid
      refine ⟨hadd, fun m hm a w ha hw => ?_⟩
      rcases List.mem_append.mp hm with hm | hm
      · exact (hmemAdd _).mpr (.inl (hmem m hm a w ha hw))
      · obtain rfl := List.mem_singleton.mp hm
        split_ifs at ha hw with hc
        rw [hname] at ha
        rw [hwwid] at hw
        obtain rfl := Option.some.inj ha
        obtain rfl := Option.some.inj hw
        exact hconflict.mp hc
    · next hnone =>
      refine ⟨hsorted, fun m hm a w ha hw => ?_⟩
      rcases List.mem_append.mp hm with hm | hm
      · exact hmem m hm a w ha hw
      · obtain rfl := List.mem_singleton.mp hm
        exact absurd ha (hnone w a hw)

theorem unambiguous_checkSections (mptable : List MpeAlias) :
    Unambiguous (mptable.foldl checkSection ([], [])).2 := by
  obtain ⟨hsorted, hmem⟩ := foldl_checkSection mptable
  intro mpe hmpe mpe' hmpe' a w w' ha ha' hw hw'
  have heq := hsorted.eq_of_mem (hmem mpe hmpe a w ha hw) (hmem mpe' hmpe' a w' ha' hw') rfl
  exact congrArg Binding.wwid heq

theorem checkAliasSettings_mptable (io : Io) (repair : RepairIo) (mptable : List MpeAlias)
    (content : CStr) (bindingsReadOnly : Bool) :
    (checkAliasSettings io repair mptable content bindingsReadOnly).2.1 =
      (mptable.foldl checkSection ([], [])).2 := by
  unfold checkAliasSettings
  dsimp only
  split_ifs <;> rfl

end Sections

/-- What is expected of the repair of the bindings file. -/
structure Repaired (mptable : List MpeAlias) (content : CStr) : Prop where
  sorted : SortedKeys Binding.aliasName (checkBindingsFile mptable content).2
  /-- For each alias there is the first line that does not contradict the sections. -/
  first : ∀ b, b ∈ (checkBindingsFile mptable content).2 ↔
    firstBinding mptable (readBindings content) b.aliasName = some b
  /-- The file that has been rewritten has the same bindings, and nothing is wrong with it. -/
  rewritten : ∀ io new,
    fixBindingsFile io content (checkBindingsFile mptable content).2 = (0, new) →
      checkBindingsFile mptable new = (0, (checkBindingsFile mptable content).2)

theorem checkBindingsFile_repaired (hdup : (mptable.filterMap MpeAlias.aliasName).Nodup)
    (content : CStr) : Repaired mptable content ∧ ∀ io repair table file bindingsReadOnly,
      Unambiguous (checkAliasSettings io repair table file bindingsReadOnly).2.1 := by
  obtain ⟨hsorted, hmem⟩ := foldl_checkLine hdup (getlines content)
  refine ⟨⟨hsorted, hmem, fun io new hfix => ?_⟩, fun io repair table file readOnly => ?_⟩
  · have hfields : ∀ b ∈ (checkBindingsFile mptable content).2,
        IsField b.aliasName ∧ IsField b.wwid := by
      intro b hb
      obtain ⟨line, -, hline⟩ := List.mem_filterMap.mp (of_firstBinding ((hmem b).mp hb)).1
      exact readBinding_fields hline
    have hno : ∀ b ∈ (checkBindingsFile mptable content).2, ¬Contradicts mptable b :=
      fun b hb => (of_firstBinding ((hmem b).mp hb)).2.2
    have hread := @foldl_bindingText _ hdup [] _ hsorted hfields hno
    rw [List.nil_append] at hread
    rw [fixBindingsFile_eq hfix, checkBindingsFile, getlines_bindings hfields, List.foldl_append,
      foldl_header]
    exact hread
  · rw [checkAliasSettings_mptable]
    exact unambiguous_checkSections table

/-- The WWID 2 contradicts the section. -/
theorem checkBindingsFile_repaired_conflict :
    Repaired [⟨some ['3'], some ['b']⟩] "b 2\na 1\nb 3\n".toList ∧
    ∀ io repair table file bindingsReadOnly,
      Unambiguous (checkAliasSettings io repair table file bindingsReadOnly).2.1 :=
  checkBindingsFile_repaired (by decide) _

end MultipathTools.Alias
