import MultipathTools.Alias.Codec
import MultipathTools.Alias.Safety

/-! The bindings of the file, line by line, and which of them `lookup_binding` finds. -/
namespace MultipathTools.Alias

/-- The alias and the WWID that a line binds it to. -/
def lineBinding (buf : CStr) : Option (CStr × CStr) :=
  match lineWords buf with
  | some (aliasName, some wwid) => some (aliasName, wwid)
  | _ => none

/-- The bindings of the file, in the order of the lines. -/
def fileBindings (content : CStr) : List (CStr × CStr) := (fileLines content).filterMap lineBinding

/-- No two lines bind an alias to different WWIDs. -/
def Unique (content : CStr) : Prop :=
  ∀ a w w', (a, w) ∈ fileBindings content → (a, w') ∈ fileBindings content → w = w'

/-- The alias that the file binds to the WWID first. -/
def firstAlias (content wwid : CStr) : Option CStr :=
  ((fileBindings content).find? (·.2 = wwid)).map Prod.fst

/-- The characters of a word, and no line break. -/
def IsPlain (s : CStr) : Prop := ∀ c ∈ s, isDelim c = false ∧ c ≠ '\n'

instance (s : CStr) : Decidable (IsPlain s) := inferInstanceAs (Decidable (∀ _ ∈ _, _))

theorem lineBinding_eq_some {buf a w : CStr} :
    lineBinding buf = some (a, w) ↔ lineWords buf = some (a, some w) := by
  unfold lineBinding
  constructor
  · intro h
    split at h
    next hlw => simpa [hlw] using h
    next => cases h
  · intro h
    rw [h]

theorem mem_fileBindings {content a w : CStr} :
    (a, w) ∈ fileBindings content ↔ ∃ l ∈ fileLines content, lineWords l = some (a, some w) := by
  simp only [fileBindings, List.mem_filterMap, lineBinding_eq_some]

/-- A line appended to whole lines is one more line. -/
theorem fileLines_append_line {content s : CStr} (hc : Terminated content) (hs : '\n' ∉ s)
    (hlen : s.length < lineMax - 1) :
    fileLines (content ++ (s ++ ['\n'])) = fileLines content ++ [s ++ ['\n']] := by
  obtain ⟨ls, -, hls, happ⟩ := fileLines_append content
  have hn : lineMax - 1 ≠ 0 := by decide
  rw [hc.unfinished_eq hn, readLines_nil, List.append_nil] at hls
  rw [happ, hc.unfinished_eq hn, List.nil_append, hls, readLines_line hn hs (by omega), if_pos hlen]

/-- The file that is opened has the same bindings. -/
theorem openFile_bindings {io : Io} (hio : io.truncates = true) {content : CStr}
    (hc : Terminated content) :
    Terminated (openFile io content bindingsFileHeader).2 ∧
      fileBindings (openFile io content bindingsFileHeader).2 = fileBindings content := by
  obtain he | ⟨rfl, he⟩ : (openFile io content bindingsFileHeader).2 = content ∨
      content = [] ∧ (openFile io content bindingsFileHeader).2 = bindingsFileHeader := by
    unfold openFile Io.append
    split_ifs <;> simp_all
  · rw [he]
    exact ⟨hc, rfl⟩
  · rw [he]
    constructor
    · exact Terminated.flatMap headerLines
    · have hempty : fileLines [] = [] := readLines_nil _
      rw [fileBindings, fileBindings, hempty, List.filterMap_nil, List.filterMap_eq_nil_iff]
      intro l hl
      rw [lineBinding, header_lineWords l hl]

/-- The line for a plain name binds the name, unless it is cut off as a comment before. -/
theorem lineBinding_new {name wwid : CStr} (hne : name ≠ []) (hn : IsPlain name)
    (hw : IsField wwid) :
    lineBinding (name ++ ' ' :: wwid ++ ['\n']) = some (name, wwid) ∨
      lineBinding (name ++ ' ' :: wwid ++ ['\n']) = none := by
  by_cases hend : ∀ c ∈ name, isLineEnd c = false
  · apply Or.inl
    rw [lineBinding_eq_some]
    simpa using lineWords_binding (b := []) (by simp [Blank])
      ⟨⟨hne, fun c hc => (hn c hc).1⟩, hend⟩ hw (.inr rfl)
  · apply Or.inr
    push Not at hend
    obtain ⟨c, hc, he⟩ := hend
    have htext : lineText (name ++ ' ' :: wwid ++ ['\n']) = lineText name := by
      rw [List.append_assoc]
      exact lineText_append_of_mem hc (by simpa using he) _
    have hsub : ∀ d ∈ lineText name, isDelim d = false := fun d hd =>
      (hn d ((List.takeWhile_prefix _).subset hd)).1
    by_cases hnil : lineText name = []
    · rw [lineBinding, lineWords, htext, hnil]
      rfl
    · have htok := strtok_token (b := []) (r := []) (by simp [Blank]) ⟨hnil, hsub⟩ (by simp)
      rw [List.nil_append, List.append_nil] at htok
      rw [lineBinding, lineWords, htext, htok]
      rfl

/-- The lines up to the first one that binds the WWID, and this one. -/
def linesThrough (wwid : CStr) : List CStr → List CStr
  | [] => []
  | l :: ls =>
    if (lineBinding l).any (·.2 = wwid) then [l] else l :: linesThrough wwid ls

/-- A lookup that has read all lines has found no binding. -/
theorem foldlM_ok_unbound {wwid : CStr} {pre : Option CStr} {s t : Ids} {ls : List CStr}
    (h : ls.foldlM (lookupLine wwid pre) s = .ok t) :
    ∀ l ∈ ls, ∀ a, lineBinding l ≠ some (a, wwid) := by
  induction ls generalizing s with
  | nil => simp
  | cons l ls ih =>
    rw [List.foldlM_cons] at h
    cases hl : lookupLine wwid pre s l with
    | error e => rw [hl] at h; cases h
    | ok s' =>
      rw [hl] at h
      rw [List.forall_mem_cons]
      constructor
      · intro a hb
        rw [lookupLine, lineBinding_eq_some.mp hb] at hl
        dsimp only at hl
        rw [if_pos rfl] at hl
        split_ifs at hl
      · exact ih h

theorem lineIds_through (wwid : CStr) (pre : Option CStr) (l : CStr) (ls : List CStr) :
    ∃ rest, lineIds pre (linesThrough wwid (l :: ls)) = lineIds pre [l] ++ rest ∧
      ((∀ a, lineBinding l ≠ some (a, wwid)) → rest = lineIds pre (linesThrough wwid ls)) := by
  by_cases hany : (lineBinding l).any (·.2 = wwid) = true
  · have heq : linesThrough wwid (l :: ls) = [l] := if_pos hany
    refine ⟨[], by rw [heq, List.append_nil], fun hno => ?_⟩
    cases hl : lineBinding l with
    | none => simp [hl] at hany
    | some b =>
      have hb : b.2 = wwid := by simpa [hl] using hany
      exact (hno b.1 (by rw [hl, ← hb])).elim
  · have heq : linesThrough wwid (l :: ls) = l :: linesThrough wwid ls := if_neg hany
    rw [heq]
    exact ⟨_, lineIds_cons pre l _, fun _ => rfl⟩

/-- The lookup gets to the first line for the WWID, unless the ids run out before. -/
theorem foldlM_first {wwid a : CStr} (pre : Option CStr) {s : Ids} {ls : List CStr}
    (hs : s.id ≤ intMax)
    (h : ((ls.filterMap lineBinding).find? (·.2 = wwid)).map Prod.fst = some a) :
    ls.foldlM (lookupLine wwid pre) s = .error (.bound a) ∨
      (idsFrom s.id (intMax - s.id + 1).toNat).Sublist (lineIds pre (linesThrough wwid ls)) := by
  induction ls generalizing s with
  | nil => simp at h
  | cons l ls ih =>
    obtain ⟨rest, hrest, hno⟩ := lineIds_through wwid pre l ls
    rw [hrest, List.foldlM_cons, lookupLine]
    cases hw : lineWords l with
    | none =>
      have hb : lineBinding l = none := by rw [lineBinding, hw]
      rw [List.filterMap_cons, hb] at h
      have hids : lineIds pre [l] = [] := by simp [lineIds, hw]
      rw [hno (by simp [hb]), hids]
      exact ih hs h
    | some w =>
      have hids : lineIds pre [l] = [scanDevname w.1 pre] := by simp [lineIds, hw]
      dsimp only
      rw [hids]
      by_cases hbreak : scanDevname w.1 pre = s.id ∧ intMax ≤ s.id
      · apply Or.inr
        have hn : (intMax - s.id + 1).toNat = 1 := by omega
        rw [hn, hbreak.1]
        exact (List.nil_sublist rest).cons_cons s.id
      · rw [if_neg hbreak]
        by_cases hfound : w.2 = some wwid
        · apply Or.inl
          have hb : lineBinding l = some (w.1, wwid) := lineBinding_eq_some.mpr (by rw [hw, ← hfound])
          rw [if_pos hfound]
          simp only [List.filterMap_cons, hb, List.find?_cons, decide_true, Option.map_some,
            Option.some.injEq] at h
          rw [h]
          rfl
        · have hb : ∀ b, lineBinding l ≠ some (b, wwid) := by
            intro b hb
            rw [lineBinding_eq_some, hw, Option.some.injEq] at hb
            exact hfound (by rw [hb])
          have h' : ((ls.filterMap lineBinding).find? (·.2 = wwid)).map Prod.fst = some a := by
            rw [← h, List.filterMap_cons]
            cases hl : lineBinding l with
            | none => rfl
            | some b =>
              have hne : ¬ b.2 = wwid := fun he => hb b.1 (by rw [hl, ← he])
              simp [hne]
          rw [if_neg hfound, hno hb]
          have hs' : (s.note (scanDevname w.1 pre)).id ≤ intMax := by
            rw [note_id]
            split_ifs <;> omega
          apply (ih hs' h').imp_right
          intro hsub
          rw [note_id] at hsub
          split_ifs at hsub with hcurr
          · have hn : (intMax - s.id + 1).toNat = (intMax - (s.id + 1) + 1).toNat + 1 := by omega
            rw [hn, hcurr]
            exact hsub.cons_cons s.id
          · exact hsub.cons (scanDevname w.1 pre)

end MultipathTools.Alias
