import MultipathTools.Alias.FileBindings
import MultipathTools.Base.Run

/-! Runs of calls that allocate aliases: no alias is bound to two WWIDs, and bound WWIDs keep their
aliases. -/
namespace MultipathTools.Alias

/-- A call that may append to the bindings file. -/
inductive Call where
  | getUserFriendlyAlias (io : Io) (wwid pre : CStr) (bindingsReadOnly : Bool)
  | useExistingAlias (io : Io) (wwid aliasOld pre : CStr) (bindingsReadOnly : Bool)

/-- The call's result, and the file. -/
def Call.exec (content : CStr) : Call → Option CStr × CStr
  | .getUserFriendlyAlias io wwid pre ro => Alias.getUserFriendlyAlias io content wwid pre ro
  | .useExistingAlias io wwid aliasOld pre ro =>
    Alias.useExistingAlias io content wwid aliasOld pre ro

def Call.io : Call → Io
  | .getUserFriendlyAlias io _ _ _ => io
  | .useExistingAlias io _ _ _ _ => io

def Call.wwid : Call → CStr
  | .getUserFriendlyAlias _ wwid _ _ => wwid
  | .useExistingAlias _ wwid _ _ _ => wwid

/-- One call as a step on the content of the file. -/
def callStep (content : CStr) (c : Call) : Option CStr := some (c.exec content).2

/-- No operation on the file fails. -/
structure Io.NoErrors (io : Io) : Prop where
  opens : io.opens = true
  room : lineMax ≤ io.room
  truncates : io.truncates = true

/-- A WWID as the callers pass it. -/
def IsWwid (wwid : CStr) : Prop := IsField wwid ∧ wwid.length < wwidSize

/-- The prefix is part of a word, and so is the old alias, which no line binds. Nothing is asked for
if the call does not come to allocate: the bindings are not to be written, the WWID is bound, or there
is no id left for it; or the old alias is no name with the prefix, or `rlookup_binding` finds it. -/
def CallOk (content : CStr) : Call → Prop
  | .getUserFriendlyAlias io wwid pre ro =>
    (io.canWrite && !ro) = false ∨ (∃ a, (a, wwid) ∈ fileBindings content) ∨
      lookupBinding (openFile io content bindingsFileHeader).2 wwid (some pre) = .error ∨ IsPlain pre
  | .useExistingAlias io wwid aliasOld pre ro =>
    (io.canWrite && !ro) = false ∨ (∃ a, (a, wwid) ∈ fileBindings content) ∨
      scanDevname aliasOld (some pre) ≤ 0 ∨
      (∃ w, (aliasOld, w) ∈ fileBindings content ∧ w.length ≤ wwidSize - 1) ∨
      IsPlain aliasOld ∧ ∀ w, (aliasOld, w) ∉ fileBindings content

/-- `allocate_binding` leaves the file as it is, or with one more line. -/
theorem allocateBinding_file {io : Io} (hio : io.truncates = true) (content wwid pre : CStr)
    (id : ℤ) :
    (allocateBinding io content wwid id pre).2 = content ∨
      ∃ name, formatDevname id lineMax pre = some name ∧
        name.length + wwid.length + 2 < lineMax ∧
        (allocateBinding io content wwid id pre).2 = content ++ (name ++ ' ' :: wwid ++ ['\n']) := by
  unfold allocateBinding bindingLine
  by_cases hid : id ≤ 0
  · simp [hid]
  cases hn : formatDevname id lineMax pre with
  | none => simp [hid]
  | some name =>
    by_cases hlen : lineMax - name.length ≤ wwid.length + 2
    · simp [hid, hlen]
    · by_cases hroom : (name ++ ' ' :: (wwid ++ ['\n'])).length ≤ io.room
      · apply Or.inr
        refine ⟨name, rfl, by omega, ?_⟩
        simp only [hid, hlen, Io.append, if_pos hroom, if_false]
        simp
      · apply Or.inl
        simp only [hid, hlen, Io.append, if_neg hroom, if_false, hio, if_true]

/-- A WWID that the lookup finds free is not bound. -/
theorem not_bound_of_free {content wwid : CStr} {pre : Option CStr} {id : ℤ}
    (h : lookupBinding content wwid pre = .free id) : ∀ a, (a, wwid) ∉ fileBindings content := by
  obtain ⟨s, hs, -⟩ := lookupBinding_free h
  intro a hm
  obtain ⟨l, hl, hw⟩ := mem_fileBindings.mp hm
  exact foldlM_ok_unbound hs l hl a (lineBinding_eq_some.mpr hw)

theorem lookupBinding_first {content wwid a : CStr} {pre : Option CStr}
    (h : firstAlias content wwid = some a)
    (hids : ¬ (idsFrom 1 intMax.toNat).Sublist
      (lineIds pre (linesThrough wwid (fileLines content)))) :
    lookupBinding content wwid pre = .bound a := by
  obtain hf | hsub := foldlM_first pre (s := {}) (by decide) h
  · rw [lookupBinding, hf]
  · exact absurd hsub hids

/-- Without a prefix no id is counted, so that every binding is found. -/
theorem lookupBinding_none {content wwid a : CStr} (h : (a, wwid) ∈ fileBindings content) :
    ∃ b, lookupBinding content wwid none = .bound b := by
  obtain ⟨b, hb⟩ : ∃ b, firstAlias content wwid = some b := by
    rw [firstAlias, ← Option.isSome_iff_exists, Option.isSome_map, List.find?_isSome]
    exact ⟨(a, wwid), h, by simp⟩
  refine ⟨b, lookupBinding_first hb fun hsub => ?_⟩
  have hone : (1 : ℤ) ∈ idsFrom 1 intMax.toNat := by
    rw [show intMax.toNat = (intMax.toNat - 1) + 1 by decide, idsFrom]
    exact List.mem_cons_self
  obtain ⟨l, -, hl⟩ := List.mem_filterMap.mp (hsub.subset hone)
  obtain ⟨w, -, hw⟩ := Option.map_eq_some_iff.mp hl
  exact absurd hw (by rw [scanDevname]; decide)

/-- An alias that `rlookup_binding` does not find is bound to WWIDs that are too large only. -/
theorem rlookupBinding_eq_none {content aliasName : CStr}
    (h : rlookupBinding content aliasName = none) :
    ∀ w, (aliasName, w) ∈ fileBindings content → wwidSize - 1 < w.length := by
  intro w hm
  obtain ⟨l, hl, hw⟩ := mem_fileBindings.mp hm
  by_contra hlen
  have hno := List.findSome?_eq_none_iff.mp h l hl
  rw [rlookupLine_eq_some.mpr ⟨hw, not_lt.mp hlen⟩] at hno
  cases hno

/-- `get_user_friendly_alias` opens the file, or it allocates a free id as well. -/
theorem getUserFriendlyAlias_file (io : Io) (content : CStr) {wwid : CStr} (hw : wwid ≠ [])
    (pre : CStr) (ro : Bool) :
    let opened := (openFile io content bindingsFileHeader).2
    (getUserFriendlyAlias io content wwid pre ro).2 = opened ∨
      ∃ id, (io.canWrite && !ro) = true ∧ lookupBinding opened wwid (some pre) = .free id ∧
        (getUserFriendlyAlias io content wwid pre ro).2 =
          (allocateBinding io opened wwid id pre).2 := by
  unfold getUserFriendlyAlias
  dsimp only
  rw [if_neg hw]
  by_cases ho : (!(openFile io content bindingsFileHeader).1) = true
  · rw [if_pos ho]
    exact .inl rfl
  · rw [if_neg ho]
    split
    next => exact .inl rfl
    next => exact .inl rfl
    next id hfree =>
      by_cases hwrite : (io.canWrite && !ro) = true
      · rw [if_pos hwrite]
        exact .inr ⟨id, hwrite, hfree, rfl⟩
      · rw [if_neg hwrite]
        exact .inl rfl

/-- `use_existing_alias` opens the file, or it allocates the id of the old alias as well. -/
theorem useExistingAlias_file (io : Io) (content wwid aliasOld pre : CStr) (ro : Bool) :
    let opened := (openFile io content bindingsFileHeader).2
    (useExistingAlias io content wwid aliasOld pre ro).2 = opened ∨
      (io.canWrite && !ro) = true ∧ rlookupBinding opened aliasOld = none ∧
        (∀ b, lookupBinding opened wwid none ≠ .bound b) ∧
        0 < scanDevname aliasOld (some pre) ∧
        (useExistingAlias io content wwid aliasOld pre ro).2 =
          (allocateBinding io opened wwid (scanDevname aliasOld (some pre)) pre).2 := by
  unfold useExistingAlias
  dsimp only
  by_cases ho : (!(openFile io content bindingsFileHeader).1) = true
  · rw [if_pos ho]
    exact .inl rfl
  · rw [if_neg ho]
    split
    next => exact .inl rfl
    next hr =>
      split
      next => exact .inl rfl
      next hno =>
        by_cases hid : scanDevname aliasOld (some pre) ≤ 0
        · rw [if_pos hid]
          exact .inl rfl
        · rw [if_neg hid]
          by_cases hwrite : (io.canWrite && !ro) = true
          · rw [if_pos hwrite]
            exact .inr ⟨hwrite, hr, hno, not_le.mp hid, rfl⟩
          · rw [if_neg hwrite]
            exact .inl rfl

theorem isPlain_letters {u : CStr} (h : IsLetters u) : IsPlain u := by
  intro c hc
  obtain ⟨hd, he⟩ := letters_clean h c hc
  refine ⟨hd, fun hn => ?_⟩
  rw [hn] at he
  exact absurd he (by decide)

/-- What a call does to the file: nothing but to open it, or it appends one line under a name
that no line binds. -/
theorem call_file {content : CStr} {c : Call} (hc : Terminated content) (hw : IsWwid c.wwid)
    (hio : c.io.NoErrors) (hok : CallOk content c) :
    let opened := (openFile c.io content bindingsFileHeader).2
    (c.exec content).2 = opened ∨ ∃ name, IsPlain name ∧ name ≠ [] ∧
      name.length + c.wwid.length + 2 < lineMax ∧ (∀ w, (name, w) ∉ fileBindings content) ∧
      (c.exec content).2 = opened ++ (name ++ ' ' :: c.wwid ++ ['\n']) := by
  have hbind := (openFile_bindings hio.truncates hc).2
  cases c with
  | getUserFriendlyAlias io wwid pre ro =>
    obtain h | ⟨id, hwrite, hfree, h⟩ := getUserFriendlyAlias_file io content hw.1.1.1 pre ro
    · exact .inl h
    obtain hal | ⟨name, hname, hlen, hal⟩ := allocateBinding_file hio.truncates
      (openFile io content bindingsFileHeader).2 wwid pre id
    · exact .inl (h.trans hal)
    have hpre : IsPlain pre := by
      obtain hread | ⟨a, ha⟩ | herror | hpre := hok
      · rw [hread] at hwrite
        cases hwrite
      · exact absurd (hbind ▸ ha) (not_bound_of_free hfree a)
      · cases hfree.symm.trans herror
      · exact hpre
    have hle : id ≤ intMax := by
      obtain ⟨s, -, rfl, -, hs⟩ := lookupBinding_free hfree
      exact hs.free_le
    obtain ⟨-, -, u, hu, hne, hlet⟩ := formatDevname_spec hname hle
    refine .inr ⟨name, ?_, by simp [hu, hne], hlen, fun w hm => ?_, h.trans hal⟩
    · rw [hu]
      exact List.forall_mem_append.mpr ⟨hpre, isPlain_letters hlet⟩
    · obtain ⟨l, hl, hlw⟩ := mem_fileBindings.mp (hbind ▸ hm)
      exact name_fresh hfree hname l hl _ hlw
  | useExistingAlias io wwid aliasOld pre ro =>
    obtain h | ⟨hwrite, hr, hno, hid, h⟩ := useExistingAlias_file io content wwid aliasOld pre ro
    · exact .inl h
    obtain hal | ⟨name, hname, hlen, hal⟩ := allocateBinding_file hio.truncates
      (openFile io content bindingsFileHeader).2 wwid pre (scanDevname aliasOld (some pre))
    · exact .inl (h.trans hal)
    obtain hread | ⟨a, ha⟩ | hle | ⟨w, hold, hshort⟩ | ⟨hplain, hnew⟩ := hok
    · rw [hread] at hwrite
      cases hwrite
    · obtain ⟨b, hb⟩ := lookupBinding_none (hbind ▸ ha)
      exact absurd hb (hno b)
    · omega
    · have hlarge := rlookupBinding_eq_none hr w (hbind ▸ hold)
      omega
    · obtain ⟨s, hs, hns⟩ := formatDevname_scanDevname hid hname
      have hword : s.takeWhile (!isDelim ·) = s := by
        rw [List.takeWhile_eq_self_iff]
        intro c hcs
        rw [(hplain c (by rw [hs]; exact List.mem_append_right pre hcs)).1]
        rfl
      have hold : name = aliasOld := by rw [hns, hword, hs]
      subst hold
      refine .inr ⟨name, hplain, ?_, hlen, hnew, h.trans hal⟩
      intro hnil
      obtain ⟨t, ht, hne, -⟩ := scanDevname_pos hid
      rw [hnil, List.nil_eq, List.append_eq_nil_iff] at ht
      exact hne ht.2

/-- What a step keeps, and the bindings that were there stay in front. -/
theorem callStep_keeps {content : CStr} {c : Call} (hc : Terminated content)
    (hu : Unique content) (hw : IsWwid c.wwid) (hio : c.io.NoErrors) (hok : CallOk content c) :
    Terminated (c.exec content).2 ∧ Unique (c.exec content).2 ∧
      fileBindings content <+: fileBindings (c.exec content).2 := by
  obtain ⟨hopen, hbind⟩ := openFile_bindings hio.truncates hc
  obtain h | ⟨name, hplain, hne, hlen, hfresh, h⟩ := call_file hc hw hio hok
  · rw [h, hbind]
    refine ⟨hopen, ?_, List.prefix_refl _⟩
    rwa [Unique, hbind]
  · have hnl : '\n' ∉ name ++ ' ' :: c.wwid := by
      have hname : '\n' ∉ name := fun hm => (hplain _ hm).2 rfl
      simp [hname, newline_not_mem hw.1]
    have hsize : (name ++ ' ' :: c.wwid).length < lineMax - 1 := by
      simp only [List.length_append, List.length_cons]
      omega
    have hnew : fileBindings (c.exec content).2 =
        fileBindings content ++ (lineBinding (name ++ ' ' :: c.wwid ++ ['\n'])).toList := by
      rw [h, fileBindings, fileLines_append_line hopen hnl hsize, List.filterMap_append,
        ← fileBindings, hbind, List.filterMap_cons]
      cases lineBinding (name ++ ' ' :: c.wwid ++ ['\n']) <;> rfl
    rw [hnew]
    refine ⟨?_, ?_, List.prefix_append _ _⟩
    · rw [h]
      exact Terminated.append_line _ _
    · rw [Unique, hnew]
      obtain hb | hb := lineBinding_new hne hplain hw.1
      · rw [hb]
        intro a w w' ha ha'
        simp only [Option.toList_some, List.mem_append, List.mem_singleton, Prod.mk.injEq] at ha ha'
        obtain ha | ⟨rfl, rfl⟩ := ha
        · obtain ha' | ⟨rfl, -⟩ := ha'
          · exact hu a w w' ha ha'
          · exact absurd ha (hfresh w)
        · obtain ha' | ⟨-, rfl⟩ := ha'
          · exact absurd ha' (hfresh w')
          · rfl
      · rw [hb, Option.toList_none, List.append_nil]
        exact hu

theorem firstAlias_of_kept {content content' wwid a : CStr}
    (hp : fileBindings content <+: fileBindings content') (h : firstAlias content wwid = some a) :
    firstAlias content' wwid = some a := by
  obtain ⟨ext, hext⟩ := hp
  obtain ⟨b, hb, rfl⟩ := Option.map_eq_some_iff.mp h
  rw [firstAlias, ← hext, List.find?_append, hb]
  rfl

/-- A bound WWID gets the alias that the file bound it to first. -/
theorem getUserFriendlyAlias_first {io : Io} {content wwid a pre : CStr} {ro : Bool}
    (hio : io.NoErrors) (h : firstAlias content wwid = some a)
    (hids : ¬ (idsFrom 1 intMax.toNat).Sublist
      (lineIds (some pre) (linesThrough wwid (fileLines content)))) :
    (getUserFriendlyAlias io content wwid pre ro).1 = some a := by
  obtain ⟨b, hb, -⟩ := Option.map_eq_some_iff.mp h
  have hmem := List.mem_of_find?_eq_some hb
  have hwwid : b.2 = wwid := by simpa using List.find?_some hb
  obtain ⟨l, hl, hlw⟩ := mem_fileBindings.mp (show (b.1, b.2) ∈ fileBindings content from hmem)
  have hlook := lookupBinding_first h hids
  have hne : wwid ≠ [] := by
    rw [← hwwid]
    exact (lineWords_wwid hlw).1
  have hcont : content ≠ [] := by
    intro hnil
    rw [hnil, fileLines, readLines_nil] at hl
    cases hl
  have hopen : openFile io content bindingsFileHeader = (true, content) := by
    simp [openFile, hio.opens, hcont]
  simp [getUserFriendlyAlias, hne, hopen, hlook]

/-- A call without errors for a WWID, with a prefix and an old alias that are words. -/
def CallAllowed (content : CStr) (c : Call) (_ : CStr) : Prop :=
  IsWwid c.wwid ∧ c.io.NoErrors ∧ CallOk content c

/-- The lookup of the WWID does not come to the name of the last id after all others. -/
def IdsLeft (content wwid pre : CStr) : Prop :=
  ¬ (idsFrom 1 intMax.toNat).Sublist (lineIds (some pre) (linesThrough wwid (fileLines content)))

/-- What is known of every file in a run that starts with `content`. -/
structure RunInv (content content' : CStr) : Prop where
  terminated : Terminated content'
  unique : Unique content'
  kept : fileBindings content <+: fileBindings content'

theorem runCalls_inv {content content' : CStr} {cs : List Call} (hc : Terminated content)
    (hu : Unique content) (ha : Along callStep CallAllowed content cs)
    (hr : run callStep content cs = some content') : RunInv content content' := by
  apply run_invariant (P := CallAllowed) (RunInv content) ?_ ?_ ha hr
  · intro s c s' hs hok hinv
    have hs' : (c.exec s).2 = s' := Option.some.inj hs
    obtain ⟨ht, hu', hp⟩ := callStep_keeps hinv.terminated hinv.unique hok.1 hok.2.1 hok.2.2
    rw [hs'] at ht hu' hp
    exact ⟨ht, hu', hinv.kept.trans hp⟩
  · exact ⟨hc, hu, List.prefix_refl _⟩

/-- In every run no alias is bound to two WWIDs, and a WWID that is bound at some time gets
the alias that it was bound to first from then on. -/
theorem runCalls_unique {content mid last : CStr} {cs ds : List Call} (hc : Terminated content)
    (hu : Unique content) (ha : Along callStep CallAllowed content (cs ++ ds))
    (hcs : run callStep content cs = some mid) (hds : run callStep mid ds = some last) :
    Unique last ∧ ∀ wwid a, firstAlias mid wwid = some a → ∀ io pre ro, io.NoErrors →
      IdsLeft last wwid pre → (getUserFriendlyAlias io last wwid pre ro).1 = some a := by
  obtain ⟨hac, had⟩ := along_append.mp ha
  have hmid := runCalls_inv hc hu hac hcs
  have hlast := runCalls_inv hmid.terminated hmid.unique (had mid hcs) hds
  constructor
  · exact hlast.unique
  · intro wwid a h io pre ro hio hids
    exact getUserFriendlyAlias_first hio (firstAlias_of_kept hlast.kept h) hids

/-- A file system without errors. -/
def goodIo : Io := { room := 4096 }

theorem goodIo_noErrors : goodIo.NoErrors := ⟨rfl, by decide, rfl⟩

/-- A call that binds `W2` to `mpathb`, and one that uses `mpathd` for `W3`. -/
def callW2 : Call := .getUserFriendlyAlias goodIo "W2".toList "mpath".toList false

def callW3 : Call := .useExistingAlias goodIo "W3".toList "mpathd".toList "mpath".toList false

theorem unique_of_eq {content : CStr} {bs : List (CStr × CStr)} (h : fileBindings content = bs)
    (hbs : ∀ b ∈ bs, ∀ b' ∈ bs, b.1 = b'.1 → b.2 = b'.2) : Unique content := by
  intro a w w' ha ha'
  rw [h] at ha ha'
  exact hbs _ ha _ ha' rfl

/-- A new alias, and then the existing alias of another map. -/
theorem runCalls_unique_mpath :
    Unique "mpatha W1\nmpathb W2\nmpathd W3\n".toList ∧
      (getUserFriendlyAlias goodIo "mpatha W1\nmpathb W2\nmpathd W3\n".toList "W2".toList
        "mpath".toList false).1 = some "mpathb".toList := by
  have hfirst : fileBindings "mpatha W1\n".toList = [("mpatha".toList, "W1".toList)] := by
    decide +kernel
  have hsecond : fileBindings "mpatha W1\nmpathb W2\n".toList =
      [("mpatha".toList, "W1".toList), ("mpathb".toList, "W2".toList)] := by
    decide +kernel
  have hW2 : callStep "mpatha W1\n".toList callW2 = some "mpatha W1\nmpathb W2\n".toList := by
    decide +kernel
  have hW3 : callStep "mpatha W1\nmpathb W2\n".toList callW3 =
      some "mpatha W1\nmpathb W2\nmpathd W3\n".toList := by
    decide +kernel
  have hallowed : Along callStep CallAllowed "mpatha W1\n".toList ([callW2] ++ [callW3]) := by
    intro s hs
    obtain rfl := Option.some.inj (hW2.symm.trans hs)
    refine ⟨⟨⟨by decide, by decide⟩, goodIo_noErrors, .inr (.inr (.inr (by decide)))⟩,
      fun t ht => ⟨⟨⟨by decide, by decide⟩, goodIo_noErrors, .inr (.inr (.inr (.inr ?_)))⟩,
        trivial⟩⟩
    refine ⟨by decide, fun w hw => ?_⟩
    rw [hsecond] at hw
    exact absurd hw (by simp)
  have hunique := unique_of_eq hfirst (by simp)
  have hterm : Terminated "mpatha W1\n".toList := by decide
  have hW2run : run callStep "mpatha W1\n".toList [callW2] =
      some "mpatha W1\nmpathb W2\n".toList := by rw [run_cons, hW2]; rfl
  have hW3run : run callStep "mpatha W1\nmpathb W2\n".toList [callW3] =
      some "mpatha W1\nmpathb W2\nmpathd W3\n".toList := by rw [run_cons, hW3]; rfl
  obtain ⟨hlast, hget⟩ := runCalls_unique hterm hunique hallowed hW2run hW3run
  refine ⟨hlast, hget "W2".toList "mpathb".toList ?_ goodIo "mpath".toList false goodIo_noErrors ?_⟩
  · rw [firstAlias, hsecond]
    decide
  · intro hsub
    have hlen : (lineIds (some "mpath".toList) (linesThrough "W2".toList
        (fileLines "mpatha W1\nmpathb W2\nmpathd W3\n".toList))).length = 2 := by
      decide +kernel
    have hle := hsub.length_le
    rw [hlen, idsFrom_length] at hle
    exact absurd hle (by decide)

/-- Prefixes with a blank: both lines bind the alias `a`. -/
theorem runCalls_blank_prefix :
    let c : Call := .getUserFriendlyAlias goodIo "W2".toList "a b".toList false
    let c' : Call := .getUserFriendlyAlias goodIo "W3".toList "a c".toList false
    Terminated "mpatha W1\n".toList ∧ Unique "mpatha W1\n".toList ∧
      (IsWwid c.wwid ∧ c.io.NoErrors) ∧ (IsWwid c'.wwid ∧ c'.io.NoErrors) ∧
      run callStep "mpatha W1\n".toList [c, c'] = some "mpatha W1\na ba W2\na ca W3\n".toList ∧
      ¬ Unique "mpatha W1\na ba W2\na ca W3\n".toList := by
  have hfirst : fileBindings "mpatha W1\n".toList = [("mpatha".toList, "W1".toList)] := by
    decide +kernel
  have hlast : fileBindings "mpatha W1\na ba W2\na ca W3\n".toList =
      [("mpatha".toList, "W1".toList), ("a".toList, "ba".toList), ("a".toList, "ca".toList)] := by
    decide +kernel
  refine ⟨by decide, unique_of_eq hfirst (by simp), ⟨⟨by decide, by decide⟩,
    goodIo_noErrors⟩, ⟨⟨by decide, by decide⟩, goodIo_noErrors⟩, by decide +kernel, ?_⟩
  intro hu
  have hsame := hu "a".toList "ba".toList "ca".toList (by rw [hlast]; simp) (by rw [hlast]; simp)
  exact absurd hsame (by decide)

end MultipathTools.Alias
