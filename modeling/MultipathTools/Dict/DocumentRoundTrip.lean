import MultipathTools.Dict.Document
import MultipathTools.Dict.RoundTrip
import MultipathTools.Parser.Quoting

/-! A configuration that is printed as a whole is read as it was. -/
namespace MultipathTools.Dict
open MultipathTools.Parser

theorem tokens_inQuotes {s : CStr} (h : '"' ∉ s) : Tokens (inQuotes s)
    (.quoteMarker :: ((if s = [] then [] else [.word s]) ++ [.quoteMarker])) s := by
  rw [← quoted_eq_inQuotes h]
  exact .quoted s

section Sections

/-- Lines that are read without an error, and without anything being logged, wherever they stand. -/
def Reads (keywords : List (KeywordTree Configuration)) (uniques : List CStr) (lines : List CStr)
    (c c' : Configuration) : Prop :=
  ∀ inside nr, Means inside keywords uniques nr lines c 0 c' [] false

variable {keywords sub : List (KeywordTree Configuration)} {uniques lines tail body : List CStr}
  {c d e c' : Configuration} {keyword : KeywordTree Configuration}

theorem reads_nil : Reads keywords uniques [] c c := fun _ _ => .nil

theorem reads_option {strvec : List Token} {buf : CStr}
    (hbuf : ∀ inside nr, OptionLine inside nr buf strvec [])
    (hkey : lookupKeyword keywords (optionName strvec) = some keyword) (hsub : keyword.sub = none)
    (hdup : ∀ nr, keyword.duplicates nr uniques = [])
    (hhandle : ∀ nr, keyword.handle nr buf strvec c = (0, d, []))
    (htail : Reads keywords (keyword.addUnique uniques) tail d c') :
    Reads keywords uniques (buf :: tail) c c' := by
  intro inside nr
  have hrest : Means inside keywords (keyword.addUnique uniques) (nr + 1) tail
      (keyword.handle (nr + 1) buf strvec c).2.1 0 c' [] false := by
    rw [hhandle]
    exact htail inside (nr + 1)
  have h := Means.option (hbuf inside (nr + 1)) hkey hsub hrest
  rwa [hdup, hhandle] at h

theorem reads_section {name : String} {level : ℕ} (hname : IsBareWord name.toList)
    (hkey : lookupKeyword keywords name.toList = some keyword) (hsub : keyword.sub = some sub)
    (hdup : ∀ nr, keyword.duplicates nr uniques = [])
    (hhandle : ∀ nr buf strvec, keyword.handle nr buf strvec c = (0, d, []))
    (hbody : Reads sub [] body d e) (htail : Reads keywords (keyword.addUnique uniques) tail e c') :
    Reads keywords uniques (sectionLines level name body ++ tail) c c' := by
  intro inside nr
  have hline : OptionLine inside (nr + 1) (List.replicate level '\t' ++
      (name.toList ++ " \x7b".toList)) [.word name.toList, .word ['{']] [] :=
    optionLine_open hname level
  have hinner : Means true sub [] (nr + 1) body (keyword.handle (nr + 1) (List.replicate level '\t' ++
      (name.toList ++ " \x7b".toList)) [.word name.toList, .word ['{']] c).2.1 0 e [] false := by
    rw [hhandle]
    exact hbody true (nr + 1)
  have h := Means.sub hline hkey hsub hinner (closingLine_close level)
    (htail inside (nr + 1 + body.length + 1))
  rw [hdup, hhandle] at h
  have hlines : sectionLines level name body ++ tail =
      (List.replicate level '\t' ++ (name.toList ++ " \x7b".toList)) ::
        (body ++ (List.replicate level '\t' ++ ['}']) :: tail) := by
    simp [sectionLines]
  rw [hlines]
  exact h

theorem handle_eq {handler : List Token → Configuration → ℤ × Configuration × List Message}
    (h : keyword.handler = some handler) {strvec : List Token} (hr : handler strvec c = (0, d, []))
    (nr : ℕ) (buf : CStr) : keyword.handle nr buf strvec c = (0, d, []) := by
  unfold KeywordTree.handle
  rw [h]
  dsimp only
  rw [hr]
  rfl

theorem duplicates_of_not_mem (h : keyword.string ∉ uniques) (nr : ℕ) :
    keyword.duplicates nr uniques = [] :=
  if_neg fun hmem => h hmem.2

theorem duplicates_of_multi (h : keyword.unique = false) (nr : ℕ) :
    keyword.duplicates nr uniques = [] :=
  if_neg fun hmem => by rw [h] at hmem; cases hmem.1

theorem addUnique_of_multi (h : keyword.unique = false) : keyword.addUnique uniques = uniques :=
  if_neg fun hmem => by rw [h] at hmem; cases hmem.1

end Sections

section Options
variable {env : Env}

/-- The option has a default that is printed if it is not set, or a fixed text. -/
def Family.HasDefault : Family → Prop
  | .int _ default => default.isSome
  | .str default => default.isSome
  | .disableChangedWwids => True
  | _ => False

/-- The value of an option has been stored by its handler, or the option is not set. -/
def Family.Settled (env : Env) (f : Family) (v : f.Val) : Prop :=
  f.Stored env v ∨ f.Undefined v ∧ (f.print env v = none ∨ f.HasDefault)

/-- The handler takes a text without an error for `v`, or it is one that stores nothing. -/
def Family.Takes (env : Env) (f : Family) (text : CStr) (v : f.Val) : Prop :=
  ∃ tokens s, Tokens text tokens s ∧ ∀ string,
    let r := f.handler env (.word string :: tokens)
    r.rc = 0 ∧ r.log = [] ∧ (r.stored = some v ∨ f = .disableChangedWwids ∧ r.stored = none)

theorem Family.takes_of_readsAs {f : Family} {v : f.Val} {text : CStr}
    (h : ReadsAs (f.handler env) text v) : f.Takes env text v := by
  obtain ⟨tokens, s, htokens, hread⟩ := h
  refine ⟨tokens, s, htokens, fun string => ?_⟩
  rw [hread string]
  exact ⟨rfl, rfl, .inl rfl⟩

theorem Family.Settled.takes {f : Family} {v : f.Val} (hv : f.Settled env v)
    (hex : ¬ f.Excepted env v) {text : CStr} (h : f.print env v = some text) :
    f.Takes env text (f.shown v) := by
  obtain hstored | ⟨hundef, hnone | hdefault⟩ := hv
  · exact takes_of_readsAs (Family.readsAs hstored hex h)
  · rw [hnone] at h
    cases h
  · cases f with
    | int kind default =>
      obtain ⟨d, rfl⟩ := Option.isSome_iff_exists.mp hdefault
      obtain rfl : v = (0 : ℤ) := hundef
      exact takes_of_readsAs (IntKind.readsAs d.2.1 h)
    | str default => exact takes_of_readsAs (Family.readsAs_str default v h)
    | disableChangedWwids =>
      cases h
      exact ⟨_, _, .bare (by decide), fun string => ⟨rfl, rfl, .inr ⟨rfl, rfl⟩⟩⟩
    | _ => exact absurd hdefault id

variable {ks : List Keyword}

theorem lookup_sectionKeywords (env : Env) (record : Record ks) (others : List (CStr × CStr))
    (hks : (ks.map Keyword.string).Nodup) (i : Fin ks.length) :
    lookupKeyword (sectionKeywords env record others) (ks.get i).string =
      some (optionKeyword env record i) := by
  have hinj : ∀ j : Fin ks.length, (ks.get j).string = (ks.get i).string → j = i := by
    intro j hj
    have hget : (ks.map Keyword.string).get (j.cast (by simp)) =
        (ks.map Keyword.string).get (i.cast (by simp)) := by
      simpa using hj
    exact Fin.cast_injective _ (hks.injective_get hget)
  have hfind : (List.finRange ks.length).find? ((fun keyword : KeywordTree Configuration =>
      decide (keyword.string = (ks.get i).string)) ∘ optionKeyword env record) = some i := by
    have hsome : ((List.finRange ks.length).find? ((fun keyword : KeywordTree Configuration =>
        decide (keyword.string = (ks.get i).string)) ∘ optionKeyword env record)).isSome := by
      rw [List.find?_isSome]
      exact ⟨i, List.mem_finRange i, decide_eq_true rfl⟩
    obtain ⟨j, hj⟩ := Option.isSome_iff_exists.mp hsome
    have hstring := List.find?_some hj
    rw [hj, hinj j (of_decide_eq_true hstring)]
  unfold lookupKeyword sectionKeywords
  rw [List.find?_append, List.find?_map, hfind]
  rfl

namespace Options

/-- The options of `l` that are printed are set as they are shown. -/
def overlayOn (env : Env) (l : List (Fin ks.length)) (o o₀ : Options ks) : Options ks := fun i =>
  if i ∈ l ∧ ((ks.get i).family.print env (o i)).isSome then (ks.get i).family.shown (o i) else o₀ i

theorem store_self (i : Fin ks.length) (v : (ks.get i).family.Val) (o : Options ks) :
    o.store i (some v) i = v :=
  Function.update_self (β := fun i : Fin ks.length => (ks.get i).family.Val) i v o

theorem store_of_ne {i j : Fin ks.length} (h : j ≠ i) (v : (ks.get i).family.Val) (o : Options ks) :
    o.store i (some v) j = o j :=
  Function.update_of_ne (β := fun i : Fin ks.length => (ks.get i).family.Val) h v o

theorem overlayOn_cons_none {i : Fin ks.length} {l : List (Fin ks.length)} {o o₀ : Options ks}
    (h : (ks.get i).family.print env (o i) = none) :
    overlayOn env (i :: l) o o₀ = overlayOn env l o o₀ := by
  funext j
  apply if_congr _ rfl rfl
  apply and_congr_left
  intro hprint
  have hj : j ≠ i := by
    rintro rfl
    rw [h] at hprint
    cases hprint
  rw [List.mem_cons, or_iff_right hj]

theorem overlayOn_cons_some {i : Fin ks.length} {l : List (Fin ks.length)} {o o₀ : Options ks}
    (hi : i ∉ l) {text : CStr} (h : (ks.get i).family.print env (o i) = some text) :
    overlayOn env (i :: l) o o₀ =
      overlayOn env l o (o₀.store i (some ((ks.get i).family.shown (o i)))) := by
  funext j
  unfold overlayOn
  by_cases hj : j = i
  · subst hj
    rw [if_pos ⟨List.mem_cons_self, by rw [h]; rfl⟩, if_neg (fun hp => hi hp.1), store_self]
  · rw [store_of_ne hj]
    apply if_congr _ rfl rfl
    rw [List.mem_cons, or_iff_right hj]

end Options

/-- The options of a section are settled, and what is printed of them is read as it was. -/
def Options.Settled (env : Env) (o : Options ks) : Prop :=
  ∀ i, (ks.get i).family.Settled env (o i) ∧ ¬ (ks.get i).family.Excepted env (o i)

/-- The option of one line. -/
theorem handle_optionKeyword {record : Record ks} {c : Configuration} {o : Options ks}
    (hget : record.get c = some o) {i : Fin ks.length} {tokens : List Token} {v : (ks.get i).family.Val}
    (hread : let r := (ks.get i).family.handler env (.word (ks.get i).string :: tokens)
      r.rc = 0 ∧ r.log = [] ∧
        (r.stored = some v ∨ (ks.get i).family = .disableChangedWwids ∧ r.stored = none))
    (nr : ℕ) (buf : CStr) :
    (optionKeyword env record i).handle nr buf (.word (ks.get i).string :: tokens) c =
      (0, record.set (o.store i (some v)) c, []) := by
  obtain ⟨hrc, hlog, hstored⟩ := hread
  have hstore : o.store i ((ks.get i).family.handler env
      (.word (ks.get i).string :: tokens)).stored = o.store i (some v) := by
    obtain hstored | ⟨hfamily, hnone⟩ := hstored
    · rw [hstored]
    · -- the values of this family are all the same
      have hval : ∀ a b : (ks.get i).family.Val, a = b := by
        rw [hfamily]
        exact fun _ _ => rfl
      rw [hnone]
      funext j
      by_cases hj : j = i
      · subst hj
        exact hval _ _
      · exact (Options.store_of_ne hj v o).symm
  apply handle_eq rfl
  dsimp only
  rw [hget]
  dsimp only
  rw [hrc, hlog, hstore]

/-- The printed options of a section are read into its record. -/
theorem reads_options {record : Record ks} {others : List (CStr × CStr)}
    (hks : (ks.map Keyword.string).Nodup) (hnames : ∀ k ∈ ks, IsName k.string) {o : Options ks}
    (ho : o.Settled env) (level : ℕ) {l : List (Fin ks.length)} (hl : l.Nodup)
    {uniques tail : List CStr} (huniques : ∀ i ∈ l, (ks.get i).string ∉ uniques) {c c' : Configuration}
    {o₀ : Options ks} (hget : record.get c = some o₀)
    (htail : ∀ uniques, Reads (sectionKeywords env record others) uniques tail
      (record.set (Options.overlayOn env l o o₀) c) c') :
    Reads (sectionKeywords env record others) uniques
      (l.filterMap (fun i => ((ks.get i).family.print env (o i)).map fun text =>
        List.replicate level '\t' ++ ((ks.get i).string ++ ' ' :: text)) ++ tail) c c' := by
  induction l generalizing uniques c o₀ with
  | nil =>
    have hself : record.set (Options.overlayOn env [] o o₀) c = c := by
      have hnil : Options.overlayOn env [] o o₀ = o₀ := by
        funext i
        simp [Options.overlayOn]
      rw [hnil, record.set_get _ _ hget]
    have hread := htail uniques
    rwa [hself] at hread
  | cons i l ih =>
    obtain ⟨hi, hl⟩ := List.nodup_cons.mp hl
    cases hprint : (ks.get i).family.print env (o i) with
    | none =>
      rw [List.filterMap_cons_none (by rw [hprint]; rfl)]
      apply ih hl (fun j hj => huniques j (List.mem_cons_of_mem i hj)) hget
      rwa [Options.overlayOn_cons_none hprint] at htail
    | some text =>
      rw [List.filterMap_cons_some (by rw [hprint]; rfl), List.cons_append]
      obtain ⟨tokens, s, htokens, hread⟩ := (ho i).1.takes (ho i).2 hprint
      have hstring : (ks.get i).string ∉ uniques := huniques i List.mem_cons_self
      apply reads_option (fun _ _ => optionLine_value (hnames _ (List.get_mem ks i)).1
        (hnames _ (List.get_mem ks i)).2 level htokens)
        (lookup_sectionKeywords env record others hks i) rfl (duplicates_of_not_mem hstring)
        (fun nr => handle_optionKeyword hget (hread _) nr _)
      apply ih hl _ (record.get_set _ _)
      · rw [Options.overlayOn_cons_some hi hprint] at htail
        simpa only [record.set_set] using htail
      · intro j hj hmem
        unfold KeywordTree.addUnique at hmem
        rw [if_pos ⟨rfl, hstring⟩, List.mem_append, List.mem_singleton] at hmem
        obtain hmem | heq := hmem
        · exact huniques j (List.mem_cons_of_mem i hj) hmem
        · have hji : j = i := by
            have hget : (ks.map Keyword.string).get (j.cast (by simp)) =
                (ks.map Keyword.string).get (i.cast (by simp)) := by
              simpa [optionKeyword] using heq
            exact Fin.cast_injective _ (hks.injective_get hget)
          exact hi (hji ▸ hj)

end Options

section Rules
variable {env : Env} {place : RulesAt} {keywords : List (KeywordTree Configuration)}
  {uniques tail : List CStr} {c c' : Configuration}

theorem RulesAt.get_modify (f : Rules → Rules) (c : Configuration) :
    place.get (place.modify f c) = f (place.get c) := place.get_set _ _

theorem RulesAt.modify_modify (f g : Rules → Rules) (c : Configuration) :
    place.modify g (place.modify f c) = place.modify (fun r => g (f r)) c := by
  unfold modify
  rw [place.get_set, place.set_set]

theorem RulesAt.modify_id {f : Rules → Rules} (hf : ∀ r, f r = r) (c : Configuration) :
    place.modify f c = c := by
  unfold modify
  rw [hf, place.set_get]

/-- The entry has been stored by its handler, and there are no quotes in it. -/
def BleSettled (env : Env) (ble : Blentry) : Prop :=
  storeBle env ble.str = .stores ble ∧ '"' ∉ ble.str

/-- The entries have been stored, and a device has both a vendor and a product. -/
structure Rules.Settled (env : Env) (rules : Rules) : Prop where
  devnode : ∀ ble ∈ rules.devnode, BleSettled env ble
  wwid : ∀ ble ∈ rules.wwid, BleSettled env ble
  property : ∀ ble ∈ rules.property, BleSettled env ble
  protocol : ∀ ble ∈ rules.protocol, BleSettled env ble
  device : ∀ bled ∈ rules.device, ∃ vendor product, bled = ⟨some vendor, some product⟩ ∧
    BleSettled env vendor ∧ BleSettled env product

/-- The entries of one kind are appended in their order. -/
theorem reads_bles {string : String} {add : Blentry → Rules → Rules}
    (hkey : lookupKeyword keywords string.toList = some (bleKeyword env place string.toList add))
    (hname : IsName string.toList) (addAll : List Blentry → Rules → Rules)
    (hnil : ∀ r, addAll [] r = r) (hcons : ∀ ble l r, addAll l (add ble r) = addAll (ble :: l) r)
    {l : List Blentry} (hl : ∀ ble ∈ l, BleSettled env ble)
    (htail : Reads keywords uniques tail (place.modify (addAll l) c) c') :
    Reads keywords uniques (l.map (bleLine 1 string) ++ tail) c c' := by
  induction l generalizing c with
  | nil =>
    rw [RulesAt.modify_id hnil] at htail
    exact htail
  | cons ble l ih =>
    obtain ⟨⟨hstore, hquote⟩, hl⟩ := List.forall_mem_cons.mp hl
    obtain ⟨tokens, s, htokens, hread⟩ := bleHandler_inQuotes hquote hstore
    apply reads_option (fun _ _ => optionLine_value hname.1 hname.2 1 htokens) hkey rfl
      (duplicates_of_multi rfl)
      (fun nr => handle_eq (d := place.modify (add ble) c) rfl (by rw [hread]; rfl) nr _)
    rw [addUnique_of_multi rfl]
    apply ih hl
    rw [RulesAt.modify_modify]
    simpa only [hcons] using htail

/-- The vendor or the product of the device that was begun last. -/
theorem handle_bleDevice {string : CStr} {change : Blentry → BlentryDevice → BlentryDevice}
    (bled : BlentryDevice) (hlast : (place.get c).device.getLast? = some bled) {ble : Blentry}
    (hstore : storeBle env ble.str = .stores ble) {strvec : List Token}
    (hvalue : setValue strvec = .ok ble.str) (nr : ℕ) (buf : CStr) :
    (bleDeviceKeyword env place string change).handle nr buf strvec c =
      (0, place.modify (fun rules =>
        { rules with device := rules.device.dropLast ++ [change ble bled] }) c, []) := by
  apply handle_eq rfl
  dsimp only
  rw [hvalue]
  dsimp only
  rw [hlast]
  dsimp only
  rw [hstore]
  rfl

theorem lookup_device : lookupKeyword (rulesKeywords env place) "device".toList =
    (rulesKeywords env place)[4]? := by
  unfold lookupKeyword rulesKeywords
  rfl

theorem isName_vendor : IsName "vendor".toList := by decide

theorem isName_product : IsName "product".toList := by decide

theorem reads_bleds {l : List BlentryDevice} (hl : ∀ bled ∈ l, ∃ vendor product,
      bled = ⟨some vendor, some product⟩ ∧ BleSettled env vendor ∧ BleSettled env product)
    (htail : Reads (rulesKeywords env place) uniques tail
      (place.modify (fun r => { r with device := r.device ++ l }) c) c') :
    Reads (rulesKeywords env place) uniques (l.flatMap (fun bled => sectionLines 1 "device"
      [bleLine 2 "vendor" (printedStr bled.vendor), bleLine 2 "product" (printedStr bled.product)]) ++
        tail) c c' := by
  induction l generalizing c with
  | nil =>
    rw [RulesAt.modify_id (fun r => by simp)] at htail
    exact htail
  | cons bled l ih =>
    obtain ⟨⟨vendor, product, rfl, ⟨hvendor, hvq⟩, hproduct, hpq⟩, hrest⟩ :=
      List.forall_mem_cons.mp hl
    rw [List.flatMap_cons, List.append_assoc]
    have hvt := tokens_inQuotes hvq
    have hpt := tokens_inQuotes hpq
    apply reads_section (d := place.modify (fun r => { r with device := r.device ++ [{}] }) c)
      (e := place.modify (fun r =>
        { r with device := r.device ++ [⟨some vendor, some product⟩] }) c) (by decide) lookup_device rfl
      (duplicates_of_multi rfl) (fun nr buf strvec => handle_eq rfl rfl nr buf)
    · apply reads_option (fun _ _ => optionLine_value isName_vendor.1 isName_vendor.2 2 hvt) rfl rfl
        (duplicates_of_not_mem (by simp)) (fun nr => handle_bleDevice {}
          (by rw [RulesAt.get_modify, List.getLast?_concat]) hvendor (setValue_printed hvt) nr _)
      apply reads_option (fun _ _ => optionLine_value isName_product.1 isName_product.2 2 hpt) rfl rfl
        (duplicates_of_not_mem (show "product".toList ∉ ["vendor".toList] by decide))
        (fun nr => handle_bleDevice ⟨some vendor, none⟩
          (by rw [RulesAt.get_modify, List.getLast?_concat]) hproduct (setValue_printed hpt) nr _)
      rw [RulesAt.modify_modify, RulesAt.modify_modify]
      simp only [List.dropLast_concat]
      exact reads_nil
    · rw [addUnique_of_multi rfl]
      apply ih hrest
      rw [RulesAt.modify_modify]
      simpa only [List.append_assoc, List.singleton_append] using htail

/-- The entries of two lists, one after the other. -/
def Rules.append (r r' : Rules) : Rules where
  devnode := r.devnode ++ r'.devnode
  wwid := r.wwid ++ r'.wwid
  property := r.property ++ r'.property
  protocol := r.protocol ++ r'.protocol
  device := r.device ++ r'.device

/-- A printed blacklist is appended to what there is. -/
theorem reads_rules {rules : Rules} (h : rules.Settled env) :
    Reads (rulesKeywords env place) uniques
      (rules.devnode.map (bleLine 1 "devnode") ++ rules.wwid.map (bleLine 1 "wwid") ++
        rules.property.map (bleLine 1 "property") ++ rules.protocol.map (bleLine 1 "protocol") ++
        rules.device.flatMap fun bled => sectionLines 1 "device"
          [bleLine 2 "vendor" (printedStr bled.vendor), bleLine 2 "product" (printedStr bled.product)])
      c (place.modify (·.append rules) c) := by
  simp only [List.append_assoc]
  apply reads_bles rfl (by decide) (fun l r => { r with devnode := r.devnode ++ l })
    (by simp) (by simp) h.devnode
  apply reads_bles rfl (by decide) (fun l r => { r with wwid := r.wwid ++ l })
    (by simp) (by simp) h.wwid
  apply reads_bles rfl (by decide) (fun l r => { r with property := r.property ++ l })
    (by simp) (by simp) h.property
  apply reads_bles rfl (by decide) (fun l r => { r with protocol := r.protocol ++ l })
    (by simp) (by simp) h.protocol
  have hdev := @reads_bleds env place uniques [] (place.modify
    (fun r => { r with protocol := r.protocol ++ rules.protocol }) (place.modify
      (fun r => { r with property := r.property ++ rules.property }) (place.modify
        (fun r => { r with wwid := r.wwid ++ rules.wwid }) (place.modify
          (fun r => { r with devnode := r.devnode ++ rules.devnode }) c)))) _ _ h.device reads_nil
  simp only [RulesAt.modify_modify, List.append_nil] at hdev ⊢
  exact hdev

end Rules

section Names

/-- Names are compared as strings, not as lists of characters. -/
theorem names_nodup :
    ((defaultsKeywords.map Keyword.string).map String.ofList).Nodup ∧
      ((deviceKeywords.map Keyword.string).map String.ofList).Nodup ∧
      ((overridesKeywords.map Keyword.string).map String.ofList).Nodup ∧
      ((multipathKeywords.map Keyword.string).map String.ofList).Nodup := by
  simp only [defaultsKeywords, deviceKeywords, overridesKeywords, multipathKeywords, List.map_cons,
    List.map_nil, String.ofList_toList]
  decide +kernel

theorem defaultsKeywords_nodup : (defaultsKeywords.map Keyword.string).Nodup := names_nodup.1.of_map
theorem deviceKeywords_nodup : (deviceKeywords.map Keyword.string).Nodup := names_nodup.2.1.of_map
theorem overridesKeywords_nodup : (overridesKeywords.map Keyword.string).Nodup :=
  names_nodup.2.2.1.of_map
theorem multipathKeywords_nodup : (multipathKeywords.map Keyword.string).Nodup :=
  names_nodup.2.2.2.of_map

theorem defaultsKeywords_isName : ∀ k ∈ defaultsKeywords, IsName k.string := fun k hk =>
  keywords_isName k (by simp [keywords, hk])

theorem deviceKeywords_isName : ∀ k ∈ deviceKeywords, IsName k.string := fun k hk =>
  keywords_isName k (by simp [keywords, hk])

theorem overridesKeywords_isName : ∀ k ∈ overridesKeywords, IsName k.string := fun k hk =>
  keywords_isName k (by simp [keywords, hk])

theorem multipathKeywords_isName : ∀ k ∈ multipathKeywords, IsName k.string := fun k hk =>
  keywords_isName k (by simp [keywords, hk])

end Names

section Document
variable {env : Env} {uniques tail : List CStr} {c c' : Configuration}

/-- The printed options are set as they are shown. -/
def Options.overlay (env : Env) {ks : List Keyword} (o o₀ : Options ks) : Options ks :=
  Options.overlayOn env (List.finRange ks.length) o o₀

theorem reads_optionLines {ks : List Keyword} (record : Record ks) (others : List (CStr × CStr))
    (tail : List CStr) (hks : (ks.map Keyword.string).Nodup) (hnames : ∀ k ∈ ks, IsName k.string)
    {o o₀ : Options ks} (ho : o.Settled env) (level : ℕ) (hget : record.get c = some o₀)
    (htail : ∀ uniques, Reads (sectionKeywords env record others) uniques tail
      (record.set (o.overlay env o₀) c) c') :
    Reads (sectionKeywords env record others) [] (optionLines env level o ++ tail) c c' :=
  reads_options hks hnames ho level (List.nodup_finRange _) (fun _ _ => List.not_mem_nil) hget htail

theorem reads_comment {mpp : Mpp} {keywords : List (KeywordTree Configuration)} :
    Reads keywords uniques (aliasComment mpp) c c := by
  unfold aliasComment
  split_ifs
  · exact fun _ _ => .skip (allocStrvec_comment 2 _) .nil
  · exact reads_nil

theorem reads_hwtable {l : List (Options deviceKeywords)} (hl : ∀ hwe ∈ l, hwe.Settled env) :
    Reads [sectionKeyword "device" false deviceHandler (sectionKeywords env .hwentry checkerKeywords)]
      uniques (l.flatMap fun hwe => sectionLines 1 "device" (optionLines env 2 hwe)) c
      { c with hwtable := c.hwtable ++ l.map (·.overlay env .unset) } := by
  induction l generalizing c with
  | nil =>
    simp only [List.map_nil, List.append_nil]
    exact reads_nil
  | cons hwe l ih =>
    obtain ⟨hhwe, hl⟩ := List.forall_mem_cons.mp hl
    have hbody := reads_optionLines .hwentry checkerKeywords [] (c := deviceHandler c)
      deviceKeywords_nodup deviceKeywords_isName hhwe 2 List.getLast?_concat (fun _ => reads_nil)
    rw [List.append_nil] at hbody
    rw [List.flatMap_cons]
    apply reads_section (by decide) rfl rfl (duplicates_of_multi rfl)
      (fun nr buf strvec => handle_eq rfl rfl nr buf) hbody
    rw [addUnique_of_multi rfl]
    have hrest := ih (c := Record.hwentry.set (hwe.overlay env .unset) (deviceHandler c)) hl
    simpa [Record.hwentry, deviceHandler] using hrest

/-- A section for a map: its options are read, whatever comment there is. -/
theorem reads_multipath {body : List CStr} {o : Options multipathKeywords}
    (hbody : ∀ c, Record.mpentry.get c = some .unset →
      Reads (sectionKeywords env .mpentry []) [] body c (Record.mpentry.set o c))
    (htail : Reads [sectionKeyword "multipath" false multipathHandler (sectionKeywords env .mpentry [])]
      uniques tail { c with mptable := c.mptable ++ [o] } c') :
    Reads [sectionKeyword "multipath" false multipathHandler (sectionKeywords env .mpentry [])]
      uniques (sectionLines 1 "multipath" body ++ tail) c c' := by
  apply reads_section (by decide) rfl rfl (duplicates_of_multi rfl)
    (fun nr buf strvec => handle_eq rfl rfl nr buf) (hbody (multipathHandler c) List.getLast?_concat)
  rw [addUnique_of_multi rfl]
  simpa [Record.mpentry, multipathHandler] using htail

/-- The entry is printed. -/
def mpeShown (mpvec : Option (List Mpp)) (mpe : Options multipathKeywords) : Bool :=
  mpvec.all fun mpvec => (findMpByWwid mpvec (mpeWwid mpe)).isSome

theorem reads_mptable {mpvec : Option (List Mpp)} {l : List (Options multipathKeywords)}
    (hl : ∀ mpe ∈ l, mpe.Settled env)
    (htail : Reads [sectionKeyword "multipath" false multipathHandler (sectionKeywords env .mpentry [])]
      uniques tail
      { c with mptable := c.mptable ++ (l.filter (mpeShown mpvec)).map (·.overlay env .unset) } c') :
    Reads [sectionKeyword "multipath" false multipathHandler (sectionKeywords env .mpentry [])]
      uniques (l.flatMap (snprintMpentry env · mpvec) ++ tail) c c' := by
  induction l generalizing c with
  | nil =>
    simpa using htail
  | cons mpe l ih =>
    obtain ⟨hmpe, hl⟩ := List.forall_mem_cons.mp hl
    have hbody (comment : List CStr) (hcomment : ∀ uniques c,
        Reads (sectionKeywords env .mpentry []) uniques comment c c) (c : Configuration)
        (hget : Record.mpentry.get c = some .unset) :=
      reads_optionLines .mpentry [] comment multipathKeywords_nodup
        multipathKeywords_isName hmpe 2 hget fun uniques => hcomment uniques
          (Record.mpentry.set (mpe.overlay env .unset) c)
    have hshown (hshow : mpeShown mpvec mpe = true) :
        Reads [sectionKeyword "multipath" false multipathHandler (sectionKeywords env .mpentry [])]
          uniques (l.flatMap (snprintMpentry env · mpvec) ++ tail)
          { c with mptable := c.mptable ++ [mpe.overlay env .unset] } c' := by
      apply ih hl
      rw [List.filter_cons_of_pos hshow] at htail
      simpa using htail
    rw [List.flatMap_cons, List.append_assoc]
    unfold snprintMpentry
    cases mpvec with
    | none =>
      apply reads_multipath (o := mpe.overlay env .unset) _ (hshown rfl)
      intro c hget
      have hread := hbody [] (fun _ _ => reads_nil) c hget
      rwa [List.append_nil] at hread
    | some mpvec =>
      dsimp only
      cases hfind : findMpByWwid mpvec (mpeWwid mpe) with
      | none =>
        have hhide : ¬ mpeShown (some mpvec) mpe = true := by simp [mpeShown, hfind]
        rw [List.filter_cons_of_neg hhide] at htail
        exact ih hl htail
      | some mpp =>
        have hshow : mpeShown (some mpvec) mpe = true := by simp [mpeShown, hfind]
        exact reads_multipath (hbody (aliasComment mpp) fun _ _ => reads_comment) (hshown hshow)

/-- Where `wwid` is among the keywords of a map. -/
def wwidIndex : Fin multipathKeywords.length := ⟨0, Nat.zero_lt_succ _⟩

/-- An entry with a WWID only. -/
def wwidEntry (mpp : Mpp) : Options multipathKeywords :=
  Options.unset.store wwidIndex (some (some mpp.wwid : Option CStr))

theorem reads_mpvec {mptable : List (Options multipathKeywords)} {l : List Mpp}
    (hl : ∀ mpp ∈ l, '"' ∉ mpp.wwid) :
    Reads [sectionKeyword "multipath" false multipathHandler (sectionKeywords env .mpentry [])]
      uniques (l.flatMap (snprintMpp mptable)) c
      { c with mptable := c.mptable ++
        (l.filter fun mpp => (findMpe mptable mpp.wwid).isNone).map wwidEntry } := by
  induction l generalizing c with
  | nil =>
    simp only [List.filter_nil, List.map_nil, List.append_nil]
    exact reads_nil
  | cons mpp l ih =>
    obtain ⟨hquote, hl⟩ := List.forall_mem_cons.mp hl
    rw [List.flatMap_cons, snprintMpp]
    cases hfind : findMpe mptable mpp.wwid with
    | some mpe =>
      rw [List.filter_cons_of_neg (by simp [hfind])]
      exact ih hl
    | none =>
      rw [List.filter_cons_of_pos (by simp [hfind])]
      apply reads_multipath (o := wwidEntry mpp)
      · intro c hget
        have hvalue : IsName "wwid".toList := by decide
        have hlook := lookup_sectionKeywords env Record.mpentry [] multipathKeywords_nodup
          wwidIndex
        apply reads_option
          (fun _ _ => optionLine_value hvalue.1 hvalue.2 2 (tokens_inQuotes hquote)) hlook rfl
          (duplicates_of_not_mem List.not_mem_nil) (fun nr => handle_optionKeyword hget
            (i := wwidIndex) (v := (some mpp.wwid : Option CStr)) _ nr _)
        · exact reads_comment
        · have hset : setStr (.word "wwid".toList :: (.quoteMarker :: ((if mpp.wwid = [] then []
              else [.word mpp.wwid]) ++ [.quoteMarker]))) = .stores (some mpp.wwid) := by
            rw [setStr, setValue_printed (tokens_inQuotes hquote)]
          exact fun _ => ⟨congrArg Handled.rc hset, congrArg Handled.log hset,
            .inl (congrArg Handled.stored hset)⟩
      · have hrest := ih (c := { c with mptable := c.mptable ++ [wwidEntry mpp] }) hl
        simpa using hrest

end Document

section Text

theorem sectionLines_ne_nil {level : ℕ} {name : String} {body : List CStr}
    (h : ∀ line ∈ body, line ≠ []) : ∀ line ∈ sectionLines level name body, line ≠ [] := by
  intro line hline
  simp only [sectionLines, List.mem_cons, List.mem_append, List.not_mem_nil, or_false] at hline
  obtain rfl | hline | rfl := hline
  · simp
  · exact h line hline
  · simp

theorem optionLines_ne_nil {env : Env} {ks : List Keyword} (level : ℕ) (o : Options ks) :
    ∀ line ∈ optionLines env level o, line ≠ [] := by
  intro line hline
  obtain ⟨i, -, hi⟩ := List.mem_filterMap.mp hline
  obtain ⟨text, -, rfl⟩ := Option.map_eq_some_iff.mp hi
  simp

theorem aliasComment_ne_nil (mpp : Mpp) : ∀ line ∈ aliasComment mpp, line ≠ [] := by
  intro line hline
  unfold aliasComment at hline
  split_ifs at hline
  · rw [List.mem_singleton.mp hline]
    simp [inQuotes]
  · cases hline

theorem snprintBlacklist_ne_nil (name : String) (rules : Rules) :
    ∀ line ∈ snprintBlacklist name rules, line ≠ [] := by
  have hble (level : ℕ) (string : String) (ble : Blentry) : bleLine level string ble ≠ [] := by
    simp [bleLine]
  apply sectionLines_ne_nil
  simp only [List.forall_mem_append, List.forall_mem_map, List.forall_mem_flatMap]
  refine ⟨⟨⟨⟨fun _ _ => hble _ _ _, fun _ _ => hble _ _ _⟩, fun _ _ => hble _ _ _⟩, fun _ _ => hble _ _ _⟩,
    fun bled _ => sectionLines_ne_nil ?_⟩
  simp only [List.forall_mem_cons, List.not_mem_nil, false_implies, implies_true, and_true]
  exact ⟨hble _ _ _, hble _ _ _⟩

theorem snprintMpentry_ne_nil {env : Env} (mpe : Options multipathKeywords)
    (mpvec : Option (List Mpp)) : ∀ line ∈ snprintMpentry env mpe mpvec, line ≠ [] := by
  unfold snprintMpentry
  split
  · exact sectionLines_ne_nil (optionLines_ne_nil 2 mpe)
  · split
    · simp
    · exact sectionLines_ne_nil
        (List.forall_mem_append.mpr ⟨optionLines_ne_nil 2 mpe, aliasComment_ne_nil _⟩)

theorem snprintMpp_ne_nil (mptable : List (Options multipathKeywords)) (mpp : Mpp) :
    ∀ line ∈ snprintMpp mptable mpp, line ≠ [] := by
  unfold snprintMpp
  split_ifs
  · simp
  · exact sectionLines_ne_nil
      (List.forall_mem_cons.mpr ⟨by simp, aliasComment_ne_nil mpp⟩)

theorem configLines_ne_nil (env : Env) (conf : Configuration)
    (hwtable : Option (List (Options deviceKeywords))) (mpvec : Option (List Mpp)) :
    ∀ line ∈ configLines env conf hwtable mpvec, line ≠ [] := by
  unfold configLines
  simp only [List.forall_mem_append]
  refine ⟨⟨⟨⟨⟨sectionLines_ne_nil (optionLines_ne_nil 1 _), snprintBlacklist_ne_nil _ _⟩,
    snprintBlacklist_ne_nil _ _⟩, ?_⟩, ?_⟩, ?_⟩
  · apply sectionLines_ne_nil
    rw [List.forall_mem_flatMap]
    exact fun hwe _ => sectionLines_ne_nil (optionLines_ne_nil 2 hwe)
  · apply sectionLines_ne_nil
    cases conf.overrides with
    | none => simp
    | some o => exact optionLines_ne_nil 1 o
  · split_ifs
    · apply sectionLines_ne_nil
      rw [List.forall_mem_append, List.forall_mem_flatMap, List.forall_mem_flatMap]
      exact ⟨fun mpe _ => snprintMpentry_ne_nil mpe mpvec, fun mpp _ => snprintMpp_ne_nil _ mpp⟩
    · simp

end Text

section RoundTrip
variable {env : Env} {conf : Configuration} {hwtable : Option (List (Options deviceKeywords))}
  {mpvec : Option (List Mpp)}

/-- What is printed of a configuration can be read: its options and rules have been stored by their
handlers, and each line fits into the buffer. -/
structure Printable (env : Env) (conf : Configuration)
    (hwtable : Option (List (Options deviceKeywords))) (mpvec : Option (List Mpp)) : Prop where
  defaults : conf.defaults.Settled env
  blacklist : conf.blacklist.Settled env
  exceptions : conf.exceptions.Settled env
  hwentries : ∀ hwe ∈ hwtable.getD conf.hwtable, hwe.Settled env
  overrides : ∀ o ∈ conf.overrides, o.Settled env
  mpentries : ∀ mpe ∈ conf.mptable, mpe.Settled env
  maps : ∀ mpp ∈ mpvec.getD [], '"' ∉ mpp.wwid
  lines : ∀ line ∈ configLines env conf hwtable mpvec, LineFits line

/-- The configuration `c` after the printed one has been read: options that are printed are set as they
are shown, and the entries of lists are appended. -/
def Configuration.reread (env : Env) (conf : Configuration)
    (hwtable : Option (List (Options deviceKeywords))) (mpvec : Option (List Mpp))
    (c : Configuration) : Configuration where
  defaults := conf.defaults.overlay env c.defaults
  blacklist := c.blacklist.append conf.blacklist
  exceptions := c.exceptions.append conf.exceptions
  hwtable := c.hwtable ++ (hwtable.getD conf.hwtable).map (·.overlay env .unset)
  overrides := some <| (conf.overrides.map (·.overlay env (c.overrides.getD .unset))).getD
    (c.overrides.getD .unset)
  mptable := c.mptable ++ (conf.mptable.filter (mpeShown mpvec)).map (·.overlay env .unset) ++
    ((mpvec.getD []).filter fun mpp => (findMpe conf.mptable mpp.wwid).isNone).map wwidEntry

theorem reads_overrides {c : Configuration}
    (h : ∀ o ∈ conf.overrides, o.Settled env) :
    Reads (sectionKeywords env .overrides checkerKeywords) []
      ((conf.overrides.map (optionLines env 1)).getD []) (overridesHandler c)
      { c with overrides := some ((conf.overrides.map
        (·.overlay env (c.overrides.getD .unset))).getD (c.overrides.getD .unset)) } := by
  cases hover : conf.overrides with
  | none => exact reads_nil
  | some o =>
    have hread := reads_optionLines .overrides checkerKeywords []
      overridesKeywords_nodup overridesKeywords_isName (h o hover) 1
      (c := overridesHandler c) rfl (fun _ => reads_nil)
    rwa [List.append_nil] at hread

theorem reads_multipaths {uniques : List CStr} {c : Configuration}
    (h : Printable env conf hwtable mpvec) (huniques : "multipaths".toList ∉ uniques) :
    Reads (initKeywords env) uniques (snprintMptable env conf.mptable mpvec) c
      { c with mptable := c.mptable ++
          (conf.mptable.filter (mpeShown mpvec)).map (·.overlay env .unset) ++
          ((mpvec.getD []).filter fun mpp =>
            (findMpe conf.mptable mpp.wwid).isNone).map wwidEntry } := by
  rw [← List.append_nil (snprintMptable env conf.mptable mpvec)]
  exact reads_section (d := c) (by decide) rfl rfl (duplicates_of_not_mem huniques)
    (fun nr buf strvec => handle_eq rfl rfl nr buf) (reads_mptable h.mpentries (reads_mpvec h.maps))
    reads_nil

/-- The lines of a printed configuration. -/
theorem reads_configLines (h : Printable env conf hwtable mpvec) (c : Configuration) :
    Reads (initKeywords env) [] (configLines env conf hwtable mpvec) c
      (conf.reread env hwtable mpvec c) := by
  unfold configLines
  simp only [List.append_assoc]
  have hdefaults := reads_optionLines .defaults (checkerKeywords ++ defaultKeywords) []
    defaultsKeywords_nodup defaultsKeywords_isName h.defaults 1 (c := c) rfl (fun _ => reads_nil)
  rw [List.append_nil] at hdefaults
  apply reads_section (by decide) rfl rfl (duplicates_of_not_mem List.not_mem_nil)
    (fun nr buf strvec => rfl) hdefaults
  apply reads_section (by decide) rfl rfl
    (duplicates_of_not_mem (show "blacklist".toList ∉ ["defaults".toList] by decide))
    (fun nr buf strvec => handle_eq rfl rfl nr buf) (reads_rules h.blacklist)
  apply reads_section (by decide) rfl rfl
    (duplicates_of_not_mem (show "blacklist_exceptions".toList ∉
      ["defaults".toList, "blacklist".toList] by decide))
    (fun nr buf strvec => handle_eq rfl rfl nr buf) (reads_rules h.exceptions)
  apply reads_section (by decide) rfl rfl
    (duplicates_of_not_mem (show "devices".toList ∉
      ["defaults".toList, "blacklist".toList, "blacklist_exceptions".toList] by decide))
    (fun nr buf strvec => handle_eq rfl rfl nr buf) (reads_hwtable h.hwentries)
  apply reads_section (by decide) rfl rfl
    (duplicates_of_not_mem (show "overrides".toList ∉ ["defaults".toList, "blacklist".toList,
      "blacklist_exceptions".toList, "devices".toList] by decide))
    (fun nr buf strvec => handle_eq rfl rfl nr buf) (reads_overrides h.overrides)
  split_ifs with hmp
  · exact reads_multipaths h (c := { conf.reread env hwtable mpvec c with mptable := c.mptable })
      (show "multipaths".toList ∉ ["defaults".toList, "blacklist".toList,
        "blacklist_exceptions".toList, "devices".toList, "overrides".toList] by decide)
  · obtain ⟨hmptable, hmpvec⟩ := not_or.mp hmp
    have hsame : c.mptable ++ (conf.mptable.filter (mpeShown mpvec)).map (·.overlay env .unset) ++
        ((mpvec.getD []).filter fun mpp => (findMpe conf.mptable mpp.wwid).isNone).map wwidEntry =
          c.mptable := by
      rw [not_not.mp hmptable, not_not.mp hmpvec]
      simp
    unfold Configuration.reread
    rw [hsame]
    exact reads_nil

/-- A printed configuration is read as it was: nothing is logged, no error is counted. -/
theorem processFile_snprintConfig (h : Printable env conf hwtable mpvec) (c : Configuration) :
    processFile (initKeywords env) c (snprintConfig env conf hwtable mpvec) =
      (0, conf.reread env hwtable mpvec c, []) := by
  have hlines : streamLines (snprintConfig env conf hwtable mpvec) =
      configLines env conf hwtable mpvec :=
    streamLines_flatMap fun line hline =>
      ⟨configLines_ne_nil env conf hwtable mpvec line hline, h.lines line hline⟩
  have hread := reads_configLines h c false 0
  rw [← hlines] at hread
  exact processFile_of_means hread

section Sample

/-- A system that knows its limits. -/
def sampleEnv : Env where
  getpwnam _ := none
  sysMaxFds := some ⟨1024, by decide⟩
  regcomp _ := true

/-- `uxsock_timeout` is never below its default. -/
def Family.sample : (f : Family) → f.Val
  | .uint .uxsockTimeout => defaultReplyTimeout
  | f => f.unset

def Family.isBle : Family → Bool
  | .ble => true
  | _ => false

theorem sample_int (kind : IntKind) :
    (∃ strvec, (kind.handler strvec).stored = some 0) ∨ kind.print 0 = none := by
  cases kind with
  | int => exact .inl ⟨[.word "x".toList, .word "0".toList], by decide⟩
  | yesNo => exact .inl ⟨[.word "x".toList, .word "0".toList], by decide⟩
  | queueWithoutDaemon => exact .inl ⟨[.word "x".toList, .word "0".toList], by decide⟩
  | logCheckerErr => exact .inl ⟨[.word "x".toList, .word "always".toList], by decide⟩
  | _ => exact .inr (by decide)

theorem sample_uint (kind : UintKind) :
    (∃ strvec, (kind.handler strvec).stored = some (Family.sample (.uint kind))) ∨
      kind.print (Family.sample (.uint kind)) = none := by
  have huint : (setUint [.word "x".toList, .word "0".toList]).stored = some 0 := by decide
  have hcheckint : (checkintHandler [.word "x".toList, .word "0".toList]).stored = some 0 := by decide
  have htimeout : (uxsockTimeoutHandler [.word "x".toList, .word "0".toList]).stored =
      some defaultReplyTimeout := by decide
  cases kind with
  | uxsockTimeout => exact .inl ⟨_, htimeout⟩
  | devLoss => exact .inr rfl
  | uint => exact .inl ⟨_, huint⟩
  | checkint => exact .inl ⟨_, hcheckint⟩

theorem sample_settled {f : Family} (hble : f.isBle = false) :
    f.Settled sampleEnv f.sample ∧ ¬ f.Excepted sampleEnv f.sample := by
  cases f with
  | int kind default =>
    refine ⟨?_, id⟩
    cases default with
    | some d => exact .inr ⟨rfl, .inr rfl⟩
    | none => exact (sample_int kind).imp id fun hnone => ⟨rfl, .inl hnone⟩
  | uint kind =>
    refine ⟨?_, id⟩
    obtain h | h := sample_uint kind
    · exact .inl h
    · cases kind with
      | devLoss => exact .inr ⟨rfl, .inl rfl⟩
      | _ => cases h
  | str default =>
    refine ⟨?_, id⟩
    cases default with
    | some d => exact .inr ⟨rfl, .inr rfl⟩
    | none => exact .inr ⟨rfl, .inl rfl⟩
  | ble => cases hble
  | partitionDelim => exact ⟨.inr ⟨rfl, .inl rfl⟩, id⟩
  | configDir => exact ⟨.inr ⟨rfl, .inl rfl⟩, id⟩
  | uidAttrs => exact ⟨.inr ⟨rfl, .inl rfl⟩, by rintro (h | ⟨attr, h, -⟩) <;> cases h⟩
  | mode => exact ⟨.inr ⟨rfl, .inl rfl⟩, id⟩
  | uid => exact ⟨.inr ⟨rfl, .inl rfl⟩, by rintro ⟨id, h, -⟩; cases h⟩
  | gid => exact ⟨.inr ⟨rfl, .inl rfl⟩, by rintro ⟨id, h, -⟩; cases h⟩
  | maxFds => exact ⟨.inr ⟨rfl, .inl rfl⟩, nofun⟩
  | reservationKey => exact ⟨.inr ⟨rfl, .inl rfl⟩, id⟩
  | disableChangedWwids => exact ⟨.inr ⟨trivial, .inr trivial⟩, id⟩
  | deprecated => exact ⟨.inr ⟨trivial, .inl rfl⟩, id⟩

def Options.sample {ks : List Keyword} : Options ks := fun i => (ks.get i).family.sample

theorem Options.sample_settled {ks : List Keyword} (h : ∀ k ∈ ks, k.family.isBle = false) :
    (Options.sample : Options ks).Settled sampleEnv :=
  fun i => Dict.sample_settled (h _ (List.get_mem ks i))

theorem Options.Settled.store {env : Env} {ks : List Keyword} {o : Options ks} (ho : o.Settled env)
    {i : Fin ks.length} {v : (ks.get i).family.Val}
    (hv : (ks.get i).family.Settled env v ∧ ¬ (ks.get i).family.Excepted env v) :
    (o.store i (some v)).Settled env := by
  intro j
  by_cases hj : j = i
  · subst hj
    rw [store_self]
    exact hv
  · rw [store_of_ne hj]
    exact ho j

/-- A configuration with rules, a device and a map. -/
def sampleConf : Configuration where
  defaults := .sample
  blacklist := { devnode := [⟨"!^sd".toList, true⟩] }
  exceptions := { device := [⟨some ⟨"IBM".toList, false⟩, some ⟨".*".toList, false⟩⟩] }
  hwtable := [.sample]
  mptable := [Options.sample.store wwidIndex
    (some (some "3600".toList : Option CStr))]

theorem sampleConf_printable : Printable sampleEnv sampleConf none
    (some [⟨"3600".toList, "mpatha".toList⟩, ⟨"3601".toList, "3601".toList⟩]) where
  defaults := Options.sample_settled (by decide)
  blacklist := {
    devnode := by simp only [sampleConf, List.forall_mem_singleton]; exact ⟨rfl, by decide⟩
    wwid := by simp [sampleConf]
    property := by simp [sampleConf]
    protocol := by simp [sampleConf]
    device := by simp [sampleConf] }
  exceptions := {
    devnode := by simp [sampleConf]
    wwid := by simp [sampleConf]
    property := by simp [sampleConf]
    protocol := by simp [sampleConf]
    device := by
      simp only [sampleConf, List.forall_mem_singleton]
      exact ⟨_, _, rfl, ⟨rfl, by decide⟩, rfl, by decide⟩ }
  hwentries := by
    simp only [sampleConf, Option.getD_none, List.forall_mem_singleton]
    exact Options.sample_settled (by decide)
  overrides := by simp [sampleConf]
  mpentries := by
    simp only [sampleConf, List.forall_mem_singleton]
    exact (Options.sample_settled (by decide)).store
      ⟨.inl ⟨[.word "wwid".toList, .word "3600".toList], rfl⟩, id⟩
  maps := by decide
  lines := by
    unfold LineFits
    decide +kernel

theorem processFile_snprintConfig_sample :
    processFile (initKeywords sampleEnv) sampleConf (snprintConfig sampleEnv sampleConf none
      (some [⟨"3600".toList, "mpatha".toList⟩, ⟨"3601".toList, "3601".toList⟩])) =
      (0, sampleConf.reread sampleEnv none
        (some [⟨"3600".toList, "mpatha".toList⟩, ⟨"3601".toList, "3601".toList⟩]) sampleConf, []) :=
  processFile_snprintConfig sampleConf_printable sampleConf

end Sample

end RoundTrip

end MultipathTools.Dict
