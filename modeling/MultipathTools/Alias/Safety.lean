import MultipathTools.Alias.Append

/-! What the lookups find after a binding has been appended to the file. -/
namespace MultipathTools.Alias

theorem letters_clean {u : CStr} (h : IsLetters u) :
    ∀ c ∈ u, isDelim c = false ∧ isLineEnd c = false := by
  intro c hc
  have ha := (h c hc).1
  constructor
  · refine decide_eq_false ?_
    rintro (rfl | rfl) <;> exact absurd ha (by decide)
  · refine decide_eq_false ?_
    rintro (h0 | rfl | rfl | rfl)
    · exact absurd (show 'a'.toNat ≤ c.toNat from ha) (by rw [h0]; decide)
    all_goals exact absurd ha (by decide)

/-- The name is a word of the file if the prefix is part of one. -/
theorem isField_name_iff {id : ℤ} {len : ℕ} {pre name : CStr}
    (h : formatDevname id len pre = some name) (hid : id ≤ intMax) :
    IsField name ↔ ∀ c ∈ pre, isDelim c = false ∧ isLineEnd c = false := by
  obtain ⟨-, -, u, rfl, hne, hu⟩ := formatDevname_spec h hid
  constructor
  · exact fun hf c hc => ⟨hf.1.2 c (List.mem_append_left u hc), hf.2 c (List.mem_append_left u hc)⟩
  · intro hp
    have hall := List.forall_mem_append.mpr ⟨hp, letters_clean hu⟩
    exact ⟨⟨by simp [hne], fun c hc => (hall c hc).1⟩, fun c hc => (hall c hc).2⟩

/-- The lines before and after text is appended. -/
theorem fileLines_append (content : CStr) :
    ∃ ls, ¬ Full (lineMax - 1) (unfinished (lineMax - 1) content) ∧
      fileLines content =
        ls ++ readLines (lineMax - 1) (unfinished (lineMax - 1) content) ∧
      ∀ t, fileLines (content ++ t) =
        ls ++ readLines (lineMax - 1) (unfinished (lineMax - 1) content ++ t) := by
  obtain ⟨ls, hls⟩ := exists_readLines_append (n := lineMax - 1) (by decide) content
  refine ⟨ls, unfinished_not_full (by decide) content, ?_, hls⟩
  simpa [fileLines] using hls []

theorem readLines_blank {n : ℕ} {r : CStr} (hn : n ≠ 0) (hr : ¬ Full n r) (hb : Blank r) :
    ∀ l ∈ readLines n r, lineWords l = none := by
  rw [readLines_of_not_full hn hr]
  split_ifs
  · simp
  · simpa using lineWords_eq_none hb

theorem foldlM_append_error {wwid : CStr} {pre : Option CStr} {s : Ids} {ls : List CStr}
    {e : Lookup} (h : ls.foldlM (lookupLine wwid pre) s = .error e) (ls' : List CStr) :
    (ls ++ ls').foldlM (lookupLine wwid pre) s = .error e := by
  rw [List.foldlM_append, h]
  rfl

theorem foldlM_append_ok {wwid : CStr} {pre : Option CStr} {s t : Ids} {ls : List CStr}
    (h : ls.foldlM (lookupLine wwid pre) s = .ok t) (ls' : List CStr) :
    (ls ++ ls').foldlM (lookupLine wwid pre) s = ls'.foldlM (lookupLine wwid pre) t := by
  rw [List.foldlM_append, h]
  rfl

/-- After blanks, bindings that are there are found before what is appended. -/
theorem lookupBinding_append {content wwid b : CStr} {pre : Option CStr}
    (hb : Blank (unfinished (lineMax - 1) content))
    (h : lookupBinding content wwid pre = .bound b) (t : CStr) :
    lookupBinding (content ++ t) wwid pre = .bound b := by
  obtain ⟨ls, hr, hls, happ⟩ := fileLines_append content
  unfold lookupBinding at h ⊢
  rw [happ]
  rw [hls] at h
  cases hf : ls.foldlM (lookupLine wwid pre) {} with
  | error e =>
    rw [foldlM_append_error hf] at h ⊢
    exact h
  | ok s =>
    rw [foldlM_append_ok hf, foldlM_of_blank (readLines_blank (by decide) hr hb)] at h
    exact absurd h (Ids.result_ne_bound s b)

/-- The condition on the ids says that the counter does not get to the last one. -/
theorem intMax_le_id_iff {ids : List ℤ} :
    intMax ≤ (ids.foldl Ids.note {}).id ↔ (idsFrom 1 (intMax - 1).toNat).Sublist ids := by
  rw [← le_note_id_iff (s := {})]
  simp [intMax]

section
variable {content wwid pre name : CStr} {id : ℤ}

/-- The lookup after a binding has been appended: the loop breaks on the last id of all. -/
theorem lookupBinding_appended (hfree : lookupBinding content wwid (some pre) = .free id)
    (hname : formatDevname id lineMax pre = some name) (hn : IsField name) (hw : IsField wwid)
    (hb : Blank (unfinished (lineMax - 1) content))
    (hfit : (unfinished (lineMax - 1) content).length + name.length + 1 + wwid.length ≤ lineMax - 1) :
    lookupBinding (content ++ (name ++ ' ' :: (wwid ++ ['\n']))) wwid (some pre) = .bound name ↔
      ¬ (idsFrom 1 (intMax - 1).toNat).Sublist (lineIds (some pre) (fileLines content)) := by
  obtain ⟨ls, hr, hls, happ⟩ := fileLines_append content
  obtain ⟨l, ls', hl, hlw⟩ := readLines_binding hb hn hw hfit
  obtain ⟨s, hs, rfl, hids, hscan⟩ := lookupBinding_free hfree
  obtain ⟨hpos, hcurr, -⟩ := formatDevname_spec hname hscan.free_le
  have hok : ls.foldlM (lookupLine wwid (some pre)) {} = .ok s := by
    rw [hls] at hs
    cases hf : ls.foldlM (lookupLine wwid (some pre)) {} with
    | error e => rw [foldlM_append_error hf] at hs; cases hs
    | ok t =>
      rw [foldlM_append_ok hf, foldlM_of_blank (readLines_blank (by decide) hr hb)] at hs
      exact hs
  have hline : lookupLine wwid (some pre) s l =
      if intMax ≤ s.id then .error ({ s with id := -1 } : Ids).result else .error (.bound name) := by
    rw [lookupLine, hlw]
    dsimp only
    rw [hcurr]
    by_cases hm : intMax ≤ s.id
    · rw [if_pos ⟨hscan.free_eq_intMax hm hpos, hm⟩, if_pos hm]
    · rw [if_neg fun h => hm h.2, if_neg hm, if_pos rfl]
  rw [← intMax_le_id_iff, ← hids, lookupBinding, happ, foldlM_append_ok hok, hl,
    List.foldlM_cons, hline]
  by_cases hm : intMax ≤ s.id
  · rw [if_pos hm]
    exact iff_of_false (Ids.result_ne_bound _ name) (not_not_intro hm)
  · rw [if_neg hm]
    exact iff_of_true rfl hm

theorem rlookupLine_eq_some {buf a w : CStr} :
    rlookupLine a buf = some w ↔ lineWords buf = some (a, some w) ∧ w.length ≤ wwidSize - 1 := by
  unfold rlookupLine
  split
  next b v hbv =>
    by_cases hlen : wwidSize - 1 < v.length
    · rw [if_pos hlen]
      simp only [hbv, Option.some.injEq, Prod.mk.injEq, reduceCtorEq, false_iff]
      rintro ⟨⟨-, rfl⟩, h⟩
      omega
    · rw [if_neg hlen]
      by_cases hb : b = a
      · simp only [hbv, hb, if_true, Option.some.injEq, Prod.mk.injEq, true_and]
        exact ⟨fun h => ⟨h, h ▸ not_lt.mp hlen⟩, And.left⟩
      · simp [hbv, hb]
  next hno =>
    simp only [reduceCtorEq, false_iff]
    exact fun h => hno a w h.1

/-- A binding that is appended after blanks under a fresh name is found by its name. -/
theorem rlookupBinding_appended (hn : IsField name) (hw : IsField wwid)
    (hfresh : ∀ l ∈ fileLines content, ∀ w, lineWords l ≠ some (name, w))
    (hb : Blank (unfinished (lineMax - 1) content))
    (hfit : (unfinished (lineMax - 1) content).length + name.length + 1 + wwid.length ≤ lineMax - 1)
    (hlen : wwid.length ≤ wwidSize - 1) :
    rlookupBinding (content ++ (name ++ ' ' :: (wwid ++ ['\n']))) name = some wwid := by
  obtain ⟨ls, -, hls, happ⟩ := fileLines_append content
  obtain ⟨l, ls', hl, hlw⟩ := readLines_binding hb hn hw hfit
  have hno : ls.findSome? (rlookupLine name) = none := by
    rw [List.findSome?_eq_none_iff]
    intro l' hl'
    by_contra hne
    obtain ⟨w, hw⟩ := Option.ne_none_iff_exists'.mp hne
    exact hfresh l' (by rw [hls]; exact List.mem_append_left _ hl') _ (rlookupLine_eq_some.mp hw).1
  rw [rlookupBinding, happ, hl, List.findSome?_append, hno, Option.none_or, List.findSome?_cons,
    rlookupLine_eq_some.mpr ⟨hlw, hlen⟩]

/-- A name that is found again for the new WWID has been appended after blanks. -/
theorem blank_of_rlookupBinding (hw : IsField wwid)
    (hfresh : ∀ l ∈ fileLines content, ∀ w, lineWords l ≠ some (name, w))
    (hlen : name.length + wwid.length + 2 < lineMax)
    (h : rlookupBinding (content ++ (name ++ ' ' :: (wwid ++ ['\n']))) name = some wwid) :
    IsField name ∧ Blank (unfinished (lineMax - 1) content) ∧
      (unfinished (lineMax - 1) content).length + name.length + 1 + wwid.length ≤ lineMax - 1 ∧
      wwid.length ≤ wwidSize - 1 := by
  obtain ⟨ls, hr, hls, happ⟩ := fileLines_append content
  obtain ⟨l, hl, hlw⟩ := List.exists_of_findSome?_eq_some h
  obtain ⟨hwords, hsize⟩ := rlookupLine_eq_some.mp hlw
  rw [happ] at hl
  have hrest : ∀ w, lineWords (unfinished (lineMax - 1) content) ≠ some (name, w) := by
    intro w hw
    have hne : unfinished (lineMax - 1) content ≠ [] := by
      intro hnil
      rw [hnil, lineWords_eq_none (by simp [Blank])] at hw
      cases hw
    refine hfresh _ ?_ w hw
    rw [hls, readLines_of_not_full (by decide) hr, if_neg hne]
    simp
  obtain hl | hl := List.mem_append.mp hl
  · exact absurd hwords (hfresh l (by rw [hls]; exact List.mem_append_left _ hl) _)
  · obtain ⟨hb, hfit⟩ := blank_of_mem_readLines hr hw (by omega) hrest hl hwords
    exact ⟨lineWords_alias hwords, hb, hfit, hsize⟩

end

end MultipathTools.Alias

/-! A binding that `get_user_friendly_alias` allocates: the file is read back as it should be
exactly if nothing but blanks is left of an unfinished last line. -/
namespace MultipathTools.Alias

/-- What is to hold of the file after `a` has been allocated for `wwid`. -/
structure Found (content wwid pre a content' : CStr) : Prop where
  kept : ∀ w q b, lookupBinding content w q = .bound b → lookupBinding content' w q = .bound b
  forward : lookupBinding content' wwid (some pre) = .bound a
  back : rlookupBinding content' a = some wwid

/-- The file, the WWID and the prefix are such that a new binding is read back. -/
structure Appendable (content wwid pre : CStr) : Prop where
  clean : ∀ c ∈ pre, isDelim c = false ∧ isLineEnd c = false
  blank : Blank (unfinished (lineMax - 1) content)
  fits : ∀ id name, lookupBinding content wwid (some pre) = .free id →
    formatDevname id lineMax pre = some name →
    (unfinished (lineMax - 1) content).length + name.length + 1 + wwid.length ≤ lineMax - 1
  wwid_le : wwid.length ≤ wwidSize - 1
  ids : ¬ (idsFrom 1 (intMax - 1).toNat).Sublist (lineIds (some pre) (fileLines content))

/-- `open_file` changes nothing that is found in the file. -/
theorem openFile_spec {io : Io} {content : CStr}
    (h : (openFile io content bindingsFileHeader).1 = true) :
    (openFile io content bindingsFileHeader).2 = content ∨
      content = [] ∧ (openFile io content bindingsFileHeader).2 = bindingsFileHeader := by
  unfold openFile at h ⊢
  by_cases hc : content = []
  · subst hc
    refine .inr ⟨rfl, ?_⟩
    unfold Io.append at h ⊢
    split_ifs at h ⊢ <;> simp_all
  · split_ifs <;> simp_all

/-- The lines of the header are comments. -/
theorem headerLines_comment :
    ∀ l ∈ headerLines, l.head? = some '#' ∧ '\n' ∉ l ∧ l.length < lineMax - 1 := by
  decide

theorem lineWords_comment {l : CStr} (h : l.head? = some '#') : lineWords (l ++ ['\n']) = none := by
  cases l with
  | nil => cases h
  | cons c l =>
    obtain rfl := Option.some.inj h
    simp [lineWords, lineText, isLineEnd, strtok]

theorem header_lineWords : ∀ l ∈ fileLines bindingsFileHeader, lineWords l = none := by
  have hlines : fileLines bindingsFileHeader = headerLines.map (· ++ ['\n']) :=
    readLines_flatMap fun l hl => (headerLines_comment l hl).2
  rw [hlines]
  intro l hl
  obtain ⟨l', hl', rfl⟩ := List.mem_map.mp hl
  exact lineWords_comment (headerLines_comment l' hl').1

theorem openFile_lines {io : Io} {content : CStr}
    (h : (openFile io content bindingsFileHeader).1 = true) :
    (∀ w q, lookupBinding (openFile io content bindingsFileHeader).2 w q = lookupBinding content w q) ∧
      (∀ q, lineIds q (fileLines (openFile io content bindingsFileHeader).2) =
        lineIds q (fileLines content)) ∧
      unfinished (lineMax - 1) (openFile io content bindingsFileHeader).2 =
        unfinished (lineMax - 1) content := by
  obtain he | ⟨rfl, he⟩ := openFile_spec h
  · simp [he]
  · have hnone := header_lineWords
    have hempty : fileLines [] = [] := readLines_nil _
    rw [he]
    refine ⟨fun w q => ?_, fun q => ?_, ?_⟩
    · rw [lookupBinding, foldlM_of_blank hnone, lookupBinding, hempty]
      rfl
    · rw [hempty, lineIds, List.filterMap_eq_nil_iff.mpr fun l hl => by rw [hnone l hl, Option.map_none]]
      rfl
    · rw [bindingsFileHeader, unfinished_flatMap (by decide) fun l hl => (headerLines_comment l hl).2]
      rw [unfinished, dif_neg (by decide)]

/-- A new alias can be found exactly if the file, the WWID and the prefix allow it. A prefix
with a blank never does so, but for names that make up the WWID by accident. -/
theorem getUserFriendlyAlias_found_iff {io : Io} {content wwid pre a content' : CStr}
    {bindingsReadOnly : Bool} (hw : IsField wwid)
    (hnew : ∀ b, lookupBinding content wwid (some pre) ≠ .bound b)
    (h : getUserFriendlyAlias io content wwid pre bindingsReadOnly = (some a, content')) :
    (Appendable content wwid pre → Found content wwid pre a content') ∧
      (' ' ∉ pre → Found content wwid pre a content' → Appendable content wwid pre) := by
  obtain ⟨ho, id, hfree, halloc⟩ : (openFile io content bindingsFileHeader).1 = true ∧ _ := by
    by_cases ho : (openFile io content bindingsFileHeader).1 = true
    · exact getUserFriendlyAlias_allocates h fun b => by
        rw [(openFile_lines ho).1]
        exact hnew b
    · simp [getUserFriendlyAlias, hw.1.1, ho] at h
  obtain ⟨hlook, hids, hunf⟩ := openFile_lines ho
  obtain ⟨name, hname, hsize, rfl, rfl⟩ := allocateBinding_spec halloc
  have hfresh := name_fresh hfree hname
  have hle : id ≤ intMax := by
    obtain ⟨s, -, rfl, -, hs⟩ := lookupBinding_free hfree
    exact hs.free_le
  have hfield := isField_name_iff hname hle
  have hblank : ' ' ∉ name → name.takeWhile (· ≠ ' ') = name := fun hb =>
    List.takeWhile_eq_self_iff.mpr fun c hc => decide_eq_true fun he => hb (he ▸ hc)
  constructor
  · rintro ⟨hclean, hb, hfit, hlen, hnids⟩
    have hn := hfield.mpr hclean
    have hfit := hfit id name (hlook _ _ ▸ hfree) hname
    rw [hblank fun hm => absurd (hn.1.2 _ hm) (by decide)]
    rw [← hunf] at hb hfit
    rw [← hids] at hnids
    exact ⟨fun w q b hbound => lookupBinding_append hb (hlook w q ▸ hbound) _,
      (lookupBinding_appended hfree hname hn hw hb hfit).mpr hnids,
      rlookupBinding_appended hn hw hfresh hb hfit hlen⟩
  · rintro hpre ⟨-, hforward, hback⟩
    have hb : ' ' ∉ name := by
      obtain ⟨-, -, u, rfl, -, hu⟩ := formatDevname_spec hname hle
      rw [List.mem_append]
      rintro (hm | hm)
      · exact hpre hm
      · exact absurd (letters_clean hu _ hm).1 (by decide)
    rw [hblank hb] at hforward hback
    obtain ⟨hn, hb, hfit, hlen⟩ := blank_of_rlookupBinding hw hfresh hsize hback
    have hnids := (lookupBinding_appended hfree hname hn hw hb hfit).mp hforward
    rw [hunf] at hb hfit
    rw [hids] at hnids
    refine ⟨hfield.mp hn, hb, fun id' name' hfree' hname' => ?_, hlen, hnids⟩
    obtain rfl := Lookup.free.inj ((hlook _ _ ▸ hfree).symm.trans hfree')
    obtain rfl := Option.some.inj (hname.symm.trans hname')
    exact hfit

/-- A second binding after a line that is complete. -/
theorem getUserFriendlyAlias_found_second :
    getUserFriendlyAlias { room := 4096 } "mpatha W1\n".toList "W2".toList "mpath".toList false =
        (some "mpathb".toList, "mpatha W1\nmpathb W2\n".toList) ∧
      Found "mpatha W1\n".toList "W2".toList "mpath".toList "mpathb".toList
        "mpatha W1\nmpathb W2\n".toList := by
  have hfree : lookupBinding "mpatha W1\n".toList "W2".toList (some "mpath".toList) = .free 2 := by
    decide +kernel
  have h : getUserFriendlyAlias { room := 4096 } "mpatha W1\n".toList "W2".toList "mpath".toList
      false = (some "mpathb".toList, "mpatha W1\nmpathb W2\n".toList) := by
    decide +kernel
  refine ⟨h, (getUserFriendlyAlias_found_iff (by decide) (fun b => by rw [hfree]; exact nofun) h).1 ?_⟩
  have hunf : unfinished (lineMax - 1) "mpatha W1\n".toList = [] := by decide +kernel
  constructor
  case ids =>
    intro hsub
    have hlen : (lineIds (some "mpath".toList) (fileLines "mpatha W1\n".toList)).length = 1 := by
      decide +kernel
    have hle := hsub.length_le
    rw [hlen, idsFrom_length] at hle
    exact absurd hle (by decide)
  case fits =>
    intro id name hid hname
    obtain rfl := Lookup.free.inj (hfree.symm.trans hid)
    have hname' : formatDevname 2 lineMax "mpath".toList = some "mpathb".toList := by decide
    obtain rfl := Option.some.inj (hname'.symm.trans hname)
    rw [hunf]
    decide
  all_goals decide +kernel

/-- The last line of the file has no line break: the new binding is glued to it. -/
theorem getUserFriendlyAlias_lost :
    IsField "W2".toList ∧
      lookupBinding "mpatha W1".toList "W2".toList (some "mpath".toList) = .free 2 ∧
      getUserFriendlyAlias { room := 4096 } "mpatha W1".toList "W2".toList "mpath".toList false =
        (some "mpathb".toList, "mpatha W1mpathb W2\n".toList) ∧
      ¬ Found "mpatha W1".toList "W2".toList "mpath".toList "mpathb".toList
        "mpatha W1mpathb W2\n".toList := by
  refine ⟨by decide, by decide +kernel, by decide +kernel, fun h => ?_⟩
  have hlost : lookupBinding "mpatha W1mpathb W2\n".toList "W2".toList (some "mpath".toList) ≠
      .bound "mpathb".toList := by
    decide +kernel
  exact hlost h.forward

end MultipathTools.Alias
