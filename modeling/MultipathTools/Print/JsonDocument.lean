import MultipathTools.Print.Json

/-! When the JSON output of the topology is a JSON text that lists the maps, their groups and their
paths (`print.c`). -/
namespace MultipathTools.Print
open Json (IsPlain Spells IsBlank)

section Steps

variable {len slack k : ℕ} {text a b t : CStr} {s : Step} {ss rest : List Step}

/-- The text goes behind what is in the buffer, with a NUL. Where it does not fit, a step that keeps
some bytes back may stop so many bytes before the end. -/
def Writes (len slack : ℕ) (text : CStr) (s : Step) : Prop :=
  ∀ ⦃buff out : List Char⦄, buff.length = len → out <+: buff → out.length < len →
    ∃ buff' fwd, s buff out.length = .done (buff', fwd) ∧ buff'.length = len ∧
      (out.length + text.length + slack < len →
        fwd = out.length + text.length ∧ out ++ text ++ [nul] <+: buff') ∧
      (len ≤ out.length + text.length + slack → len ≤ fwd + slack)

/-- The steps write a text before anything that others write. -/
def Extends (len : ℕ) (text : CStr) (ss : List Step) : Prop :=
  ∀ ⦃rest t⦄, t ≠ [] → Writes len 0 t (inOrder len rest) →
    Writes len 0 (text ++ t) (inOrder len (ss ++ rest))

theorem extends_nil : Extends len [] [] := fun _ _ _ h => h

theorem Extends.append (ha : Extends len a ss) (hb : Extends len b rest) :
    Extends len (a ++ b) (ss ++ rest) := by
  intro rest' t ht hrest
  rw [List.append_assoc, List.append_assoc]
  exact ha (List.append_ne_nil_of_right_ne_nil b ht) (hb ht hrest)

theorem Writes.extends (h : Writes len k a s) (hk : k ≤ 1) : Extends len a [s] := by
  intro rest t ht hrest buff out hlen hout hlt
  obtain ⟨buff', fwd, hs, hlen', hfit, hfull⟩ := h hlen hout hlt
  have hpos := List.length_pos_iff.2 ht
  rw [List.singleton_append, inOrder, hs, Outcome.bind_done, List.length_append]
  dsimp only
  by_cases hroom : out.length + a.length + k < len
  · obtain ⟨rfl, hout'⟩ := hfit hroom
    rw [if_neg (by omega), ← List.length_append]
    obtain ⟨buff'', fwd', hs', hlen'', hfit', hfull'⟩ :=
      hrest hlen' ((List.prefix_append _ _).trans hout') (by rw [List.length_append]; omega)
    rw [List.length_append, List.append_assoc out] at hfit'
    rw [List.length_append] at hfull'
    refine ⟨buff'', fwd', hs', hlen'', fun hin => ?_, fun hout => hfull' (by omega)⟩
    obtain ⟨rfl, htext⟩ := hfit' (by omega)
    exact ⟨by omega, htext⟩
  · have hnofit : ¬ out.length + (a.length + t.length) + 0 < len := by omega
    have hend := hfull (by omega)
    by_cases hover : len ≤ fwd
    · rw [if_pos hover]
      exact ⟨buff', fwd, rfl, hlen', fun hin => absurd hin hnofit, fun _ => hover⟩
    · -- one byte is left, and the text behind does not fit in it
      have hfwd : (buff'.take fwd).length = fwd := by
        rw [List.length_take]
        omega
      obtain ⟨buff'', fwd', hs', hlen'', -, hfull'⟩ :=
        hrest hlen' (List.take_prefix fwd buff') (by omega)
      rw [hfwd] at hs' hfull'
      rw [if_neg hover]
      exact ⟨buff'', fwd', hs', hlen'', fun hin => absurd hin hnofit, fun _ => hfull' (by omega)⟩

/-- The last step does not keep bytes back. -/
theorem Extends.writes (ha : Extends len a ss) (hb : Writes len 0 b s) (hne : b ≠ []) :
    Writes len 0 (a ++ b) (inOrder len (ss ++ [s])) := by
  refine ha hne fun buff out hlen hout hlt => ?_
  obtain ⟨buff', fwd, hs, hrest⟩ := hb hlen hout hlt
  refine ⟨buff', fwd, ?_, hrest⟩
  rw [inOrder, hs, Outcome.bind_done]
  dsimp only
  split_ifs <;> rfl

theorem printText_writes (len : ℕ) (text : CStr) : Writes len 0 text (printText len text) := by
  intro buff out hlen hout hlt
  have hsize : ((len : ℤ) - (out.length : ℤ)).toNat = len - out.length := by omega
  obtain ⟨buff', hprint, hlen', hout'⟩ := snprintf_behind text hout (Nat.sub_pos_of_lt hlt) (by omega)
  refine ⟨buff', out.length + text.length, ?_, hlen'.trans hlen, fun hin => ⟨rfl, ?_⟩,
    fun hover => hover⟩
  · rw [printText, printAt, if_neg (by omega), hsize, hprint]
    rfl
  · rwa [List.take_of_length_le (by omega)] at hout'

theorem printLine_writes {layout : List PathData} {field : Char → CStr} {pad : Bool} {format : CStr}
    (hpad : pad = true → ∀ data ∈ layout, data.width = 0) (hsign : endsInSign format = false) :
    Writes len 1 (expandBy layout (fieldText field) format ++ ['\n'])
      (printLine len layout field pad format) := by
  intro buff out hlen hout hlt
  obtain ⟨buff', hprint, hlen', hfit⟩ := @snprintFormat_eq buff out (len - out.length) layout
    (fieldText field) pad hpad format hout (by omega) (by omega)
  have hline : endText (endsInSign format) (expandBy layout (fieldText field) format) =
      expandBy layout (fieldText field) format ++ ['\n'] := by
    rw [hsign, endText, if_neg Bool.false_ne_true]
  rw [hline] at hprint hfit
  refine ⟨buff', _, by rw [printLine, hprint, Outcome.bind_done], hlen'.trans hlen, fun hin => ?_,
    fun hover => ?_⟩
  · rw [min_eq_left (by omega)]
    exact ⟨rfl, (hfit (by omega)).2 hsign⟩
  · omega

/-- The white space of an indent. -/
def indentText (indent : ℕ) : CStr := (List.replicate indent printJsonIndent).flatten

theorem indent_extends (len indent : ℕ) :
    Extends len (indentText indent) (List.replicate indent (printText len printJsonIndent)) := by
  induction indent with
  | zero => exact extends_nil
  | succ indent ih =>
    exact ((printText_writes len printJsonIndent).extends (by decide)).append ih

theorem snprintJson_writes (len indent : ℕ) {jsonStr : CStr} (hne : jsonStr ≠ []) :
    Writes len 0 (indentText indent ++ jsonStr) (snprintJson len indent jsonStr) :=
  (indent_extends len indent).writes (printText_writes len jsonStr) hne

/-- A brace, with a comma behind it unless it is the last one. -/
def footerText (indent : ℕ) (last : Bool) : CStr :=
  indentText indent ++ '}' :: if last then [] else [',']

theorem snprintJsonElemFooter_writes (len indent : ℕ) (last : Bool) :
    Writes len 0 (footerText indent last) (snprintJsonElemFooter len indent last) := by
  have htext : (if last then printJsonEndLastElem else printJsonEndElem) =
      '}' :: if last then [] else [','] := by
    cases last <;> rfl
  have hne : (if last then printJsonEndLastElem else printJsonEndElem) ≠ [] := by
    rw [htext]
    exact List.cons_ne_nil _ _
  rw [footerText, ← htext]
  exact (indent_extends len indent).writes (printText_writes len _) hne

end Steps

section Members

/-- A field of the output: its key, its wildcard, and whether it stands between quotes. -/
structure JsonField where
  key : CStr
  wildcard : Char
  quoted : Bool

def mapFields : List JsonField :=
  [⟨"name".toList, 'n', true⟩, ⟨"uuid".toList, 'w', true⟩, ⟨"sysfs".toList, 'd', true⟩,
    ⟨"failback".toList, 'F', true⟩, ⟨"queueing".toList, 'Q', true⟩, ⟨"paths".toList, 'N', false⟩,
    ⟨"write_prot".toList, 'r', true⟩, ⟨"dm_st".toList, 't', true⟩, ⟨"features".toList, 'f', true⟩,
    ⟨"hwhandler".toList, 'h', true⟩, ⟨"action".toList, 'A', true⟩, ⟨"path_faults".toList, '0', false⟩,
    ⟨"vend".toList, 'v', true⟩, ⟨"prod".toList, 'p', true⟩, ⟨"rev".toList, 'e', true⟩,
    ⟨"switch_grp".toList, '1', false⟩, ⟨"map_loads".toList, '2', false⟩,
    ⟨"total_q_time".toList, '3', false⟩, ⟨"q_timeouts".toList, '4', false⟩]

def groupFields : List JsonField :=
  [⟨"selector".toList, 's', true⟩, ⟨"pri".toList, 'p', false⟩, ⟨"dm_st".toList, 't', true⟩,
    ⟨"marginal_st".toList, 'M', true⟩]

def pathFields : List JsonField :=
  [⟨"dev".toList, 'd', true⟩, ⟨"dev_t".toList, 'D', true⟩, ⟨"dm_st".toList, 't', true⟩,
    ⟨"dev_st".toList, 'o', true⟩, ⟨"chk_st".toList, 'T', true⟩, ⟨"checker".toList, 'c', true⟩,
    ⟨"pri".toList, 'p', false⟩, ⟨"host_wwnn".toList, 'N', true⟩, ⟨"target_wwnn".toList, 'n', true⟩,
    ⟨"host_wwpn".toList, 'R', true⟩, ⟨"target_wwpn".toList, 'r', true⟩,
    ⟨"host_adapter".toList, 'a', true⟩, ⟨"marginal_st".toList, 'M', true⟩]

/-- The field in a format. -/
def JsonField.format (indent : ℕ) (f : JsonField) : CStr :=
  '\n' :: (List.replicate indent ' ' ++ '"' :: (f.key ++ '"' :: ' ' :: ':' :: ' ' ::
    if f.quoted then ['"', '%', f.wildcard, '"'] else ['%', f.wildcard]))

/-- A format with fields. -/
def fieldsFormat (indent : ℕ) (fields : List JsonField) (tail : CStr) : CStr :=
  '{' :: (Json.commas (fields.map (JsonField.format indent)) ++ tail)

theorem printJsonMap_eq : printJsonMap = fieldsFormat 6 mapFields [','] := by decide +kernel

theorem printJsonGroup_eq : printJsonGroup = fieldsFormat 9 groupFields [','] := by decide +kernel

theorem printJsonPath_eq : printJsonPath = fieldsFormat 12 pathFields [] := by decide +kernel

/-- The member of an object that a field is printed as. -/
def JsonField.member (indent : ℕ) (field : Char → CStr) (f : JsonField) : Json.Member where
  before := '\n' :: List.replicate indent ' '
  key := f.key
  mid := [' ']
  gap := [' ']
  text :=
    if f.quoted then '"' :: ((field f.wildcard).take (maxFieldLen - 1) ++ ['"'])
    else (field f.wildcard).take (maxFieldLen - 1)
  value := if f.quoted then .str (field f.wildcard) else .num (field f.wildcard)
  cond := f.quoted = true → IsPrintable (field f.wildcard)

/-- The fields of a format have wildcards of its layout, and no sign in their keys. -/
def Known (layout : List PathData) (fields : List JsonField) : Prop :=
  ∀ f ∈ fields, '%' ∉ f.key ∧ (pdLookup layout f.wildcard).isSome = true ∧ ∀ c ∈ f.key, IsPlain c

instance (layout : List PathData) (fields : List JsonField) : Decidable (Known layout fields) :=
  inferInstanceAs (Decidable (∀ f ∈ fields, _))

theorem known_mapFields : Known mpd mapFields := by decide +kernel

theorem known_groupFields : Known pgd groupFields := by decide +kernel

theorem known_pathFields : Known pd pathFields := by decide +kernel

variable {layout : List PathData} {fields : List JsonField} {f : JsonField}

theorem expandBy_format (field : Char → CStr) (indent : ℕ) (hkey : '%' ∉ f.key)
    (hknown : (pdLookup layout f.wildcard).isSome = true) (format : CStr) :
    expandBy layout (fieldText field) (f.format indent ++ format) =
      (f.member indent field).spell ++ expandBy layout (fieldText field) format := by
  obtain ⟨data, hdata⟩ := Option.isSome_iff_exists.1 hknown
  have hwildcard : data.wildcard = f.wildcard := by
    simpa using List.find?_some hdata
  let front : CStr := '\n' :: (List.replicate indent ' ' ++ '"' :: (f.key ++ ['"', ' ', ':', ' ']))
  have hplain : '%' ∉ front := by
    simp [front, hkey]
  have hsign : ∀ format, expandBy layout (fieldText field) ('%' :: f.wildcard :: format) =
      (field f.wildcard).take (maxFieldLen - 1) ++ expandBy layout (fieldText field) format := by
    intro format
    rw [expandBy, hdata, ← hwildcard]
    rfl
  have hsplit : f.format indent ++ format = front ++
      if f.quoted then '"' :: '%' :: f.wildcard :: '"' :: format else '%' :: f.wildcard :: format := by
    rw [JsonField.format]
    split_ifs <;> simp [front]
  rw [hsplit, expandBy_append hplain, Json.Member.spell, JsonField.member]
  dsimp only
  split_ifs
  · rw [expandBy_cons (by decide), hsign, expandBy_cons (by decide)]
    simp [front]
  · rw [hsign]
    simp [front]

/-- The members that fields are printed as. -/
def jsonMembers (indent : ℕ) (field : Char → CStr) (fields : List JsonField) : List Json.Member :=
  fields.map (JsonField.member indent field)

theorem expandBy_commas (field : Char → CStr) (indent : ℕ) (hknown : Known layout fields)
    (format : CStr) :
    expandBy layout (fieldText field)
        (Json.commas (fields.map (JsonField.format indent)) ++ format) =
      Json.memberTexts (jsonMembers indent field fields) ++
        expandBy layout (fieldText field) format := by
  unfold jsonMembers
  induction fields with
  | nil => rfl
  | cons f fields ih =>
    obtain ⟨⟨hkey, hlookup, -⟩, hrest⟩ := List.forall_mem_cons.1 hknown
    cases fields with
    | nil => exact expandBy_format field indent hkey hlookup format
    | cons f' fields =>
      have hjoin : Json.memberTexts ((f :: f' :: fields).map (JsonField.member indent field)) =
          (f.member indent field).spell ++
            ',' :: Json.memberTexts ((f' :: fields).map (JsonField.member indent field)) :=
        Json.memberTexts_cons _ (List.cons_ne_nil _ _)
      rw [List.map_cons, Json.commas_cons _ (by simp), List.append_assoc,
        expandBy_format field indent hkey hlookup, List.cons_append, expandBy_cons (by decide),
        ih hrest, hjoin, List.append_assoc, List.cons_append]

/-- What a format with fields prints. -/
theorem fieldsLine_writes {len indent : ℕ} {field : Char → CStr} {pad : Bool} {tail format : CStr}
    (hpad : pad = true → ∀ data ∈ layout, data.width = 0)
    (hformat : format = fieldsFormat indent fields tail)
    (hsign : endsInSign (fieldsFormat indent fields tail) = false) (hknown : Known layout fields)
    (htail : '%' ∉ tail) :
    Writes len 1 ('{' :: (Json.memberTexts (jsonMembers indent field fields) ++ (tail ++ ['\n'])))
      (printLine len layout field pad format) := by
  subst hformat
  have hline := @printLine_writes len layout field pad _ hpad hsign
  have htext := @expandBy_append layout (fieldText field) tail htail []
  rw [expandBy, List.append_nil] at htext
  have hexpand : expandBy layout (fieldText field) (fieldsFormat indent fields tail) =
      '{' :: (Json.memberTexts (jsonMembers indent field fields) ++ tail) := by
    rw [fieldsFormat, expandBy_cons (by decide), expandBy_commas field indent hknown, htext]
  rwa [hexpand, List.cons_append, List.append_assoc] at hline

end Members

section Document

/-- The strings of a path that devices and the checker give. -/
def JsonPath.strings (pp : JsonPath) : List CStr :=
  [snprintDev pp, snprintDevT pp, formatStr pp.checkerName, snprintFcAttr pp pp.hostNodeName,
    snprintTgtWwnn pp, snprintFcAttr pp pp.hostPortName, snprintFcAttr pp pp.rportPortName,
    pp.hostAdapter.getD "[undef]".toList]

def JsonPathgroup.strings (pgp : JsonPathgroup) : List CStr := [pgp.selector.getD []]

def JsonMultipath.strings (mpp : JsonMultipath) : List CStr :=
  [snprintName mpp, mpp.wwid, formatStr mpp.features, formatStr mpp.hwhandler,
    snprintMultipathVend mpp, snprintMultipathProd mpp, snprintMultipathRev mpp]

def JsonPath.Printable (pp : JsonPath) : Prop := ∀ s ∈ pp.strings, IsPrintable s

def JsonPathgroup.Printable (pgp : JsonPathgroup) : Prop :=
  (∀ s ∈ pgp.strings, IsPrintable s) ∧ ∀ pp ∈ pgp.paths, pp.Printable

def JsonMultipath.Printable (mpp : JsonMultipath) : Prop :=
  (∀ s ∈ mpp.strings, IsPrintable s) ∧ ∀ pgp ∈ mpp.pg, pgp.Printable

def JsonField.json (field : Char → CStr) (f : JsonField) : CStr × Json :=
  (f.key, if f.quoted then .str (field f.wildcard) else .num (field f.wildcard))

def JsonPath.json (pp : JsonPath) : Json := .obj (pathFields.map (JsonField.json pp.field))

/-- A group, which is the `i`-th of its map. -/
def JsonPathgroup.json (pgp : JsonPathgroup) (i : ℕ) : Json :=
  .obj (groupFields.map (JsonField.json pgp.field) ++
    [("group".toList, .num (itoa (i + 1 : ℕ))), ("paths".toList, .arr (pgp.paths.map JsonPath.json))])

def JsonMultipath.json (mpp : JsonMultipath) : Json :=
  .obj (mapFields.map (JsonField.json mpp.field) ++
    [("path_groups".toList, .arr (mpp.pg.zipIdx.map fun pgp => pgp.1.json pgp.2))])

/-- What the document is to say: the maps, their groups and their paths with all their strings. -/
def topologyJson (mpvec : List JsonMultipath) : Json :=
  .obj [("major_version".toList, .num ['0']), ("minor_version".toList, .num ['1']),
    ("maps".toList, .arr (mpvec.map JsonMultipath.json))]

def JsonPath.text (pp : JsonPath) : CStr :=
  Json.object (jsonMembers 12 pp.field pathFields) "\n         ".toList

def JsonPathgroup.members (pgp : JsonPathgroup) (i : ℕ) : List Json.Member :=
  jsonMembers 9 pgp.field groupFields ++
    [⟨"\n         ".toList, "group".toList, [' '], [' '], itoa (i + 1 : ℕ), .num (itoa (i + 1 : ℕ)),
        True⟩,
      ⟨"\n         ".toList, "paths".toList, [], [' '], Json.array (pgp.paths.map JsonPath.text),
        .arr (pgp.paths.map JsonPath.json), ∀ pp ∈ pgp.paths, pp.Printable⟩]

def JsonPathgroup.text (pgp : JsonPathgroup) (i : ℕ) : CStr :=
  Json.object (pgp.members i) "\n      ".toList

def JsonMultipath.members (mpp : JsonMultipath) : List Json.Member :=
  jsonMembers 6 mpp.field mapFields ++
    [⟨"\n      ".toList, "path_groups".toList, [], [' '],
      Json.array (mpp.pg.zipIdx.map fun pgp => pgp.1.text pgp.2),
      .arr (mpp.pg.zipIdx.map fun pgp => pgp.1.json pgp.2), ∀ pgp ∈ mpp.pg.zipIdx, pgp.1.Printable⟩]

def JsonMultipath.text (mpp : JsonMultipath) : CStr := Json.object mpp.members "\n   ".toList

def topologyMembers (mpvec : List JsonMultipath) : List Json.Member :=
  [⟨"\n   ".toList, "major_version".toList, [], [' '], ['0'], .num ['0'], True⟩,
    ⟨"\n   ".toList, "minor_version".toList, [], [' '], ['1'], .num ['1'], True⟩,
    ⟨"\n   ".toList, "maps".toList, [], [' '], Json.array (mpvec.map JsonMultipath.text),
      .arr (mpvec.map JsonMultipath.json), ∀ mpp ∈ mpvec, mpp.Printable⟩]

/-- The document with the strings as they are printed. -/
def topologyText (mpvec : List JsonMultipath) : CStr :=
  Json.object (topologyMembers mpvec) ['\n'] ++ ['\n']

end Document

section Written

variable {len : ℕ}

/-- The comma behind an element that is not the last one. -/
def commaBehind (last : Bool) : CStr := if last then [] else [',']

theorem commas_behind {ε : Type*} (text : ε → CStr) (e : ε) (es : List ε) :
    text e ++ commaBehind es.isEmpty ++ Json.commas (es.map text) =
      Json.commas ((e :: es).map text) := by
  cases es with
  | nil =>
    rw [List.isEmpty_nil, commaBehind, if_pos rfl, List.append_nil]
    exact List.append_nil (text e)
  | cons e' es =>
    rw [List.isEmpty_cons, commaBehind, if_neg Bool.false_ne_true, List.append_assoc]
    rfl

theorem path_extends (len : ℕ) (pp : JsonPath) (last : Bool) :
    Extends len (pp.text ++ commaBehind last)
      [snprintJsonPath len printJsonPath pp, snprintJsonElemFooter len 3 last] := by
  have hline := @fieldsLine_writes pd pathFields len 12 pp.field false [] printJsonPath
    (fun h => Bool.noConfusion h) printJsonPath_eq (by decide +kernel) known_pathFields (by decide)
  have hfooter := snprintJsonElemFooter_writes len 3 last
  have h := (hline.extends le_rfl).append (hfooter.extends (by decide))
  rw [JsonPath.text, Json.object]
  unfold footerText at h
  simp only [List.cons_append, List.append_assoc] at h ⊢
  exact h

theorem pathSteps_extends (len : ℕ) (paths : List JsonPath) :
    Extends len (Json.commas (paths.map JsonPath.text)) (pathSteps len paths) := by
  induction paths with
  | nil => exact extends_nil
  | cons pp paths ih =>
    have h := (path_extends len pp paths.isEmpty).append ih
    rwa [commas_behind] at h

/-- Members before some others. -/
theorem memberTexts_append {ms ns : List Json.Member} (hm : ms ≠ []) (hn : ns ≠ []) :
    Json.memberTexts (ms ++ ns) = Json.memberTexts ms ++ ',' :: Json.memberTexts ns := by
  induction ms with
  | nil => exact absurd rfl hm
  | cons m ms ih =>
    cases ms with
    | nil => exact Json.memberTexts_cons m hn
    | cons m' ms =>
      rw [List.cons_append, Json.memberTexts_cons m (by simp), ih (List.cons_ne_nil _ _),
        Json.memberTexts_cons m (List.cons_ne_nil m' ms), List.append_assoc, List.cons_append]

theorem jsonMembers_ne_nil {indent : ℕ} {field : Char → CStr} {fields : List JsonField}
    (h : fields ≠ []) : jsonMembers indent field fields ≠ [] := List.map_eq_nil_iff.not.2 h

theorem group_extends (len : ℕ) (pgp : JsonPathgroup) (i : ℕ) (last : Bool) :
    Extends len (pgp.text i ++ commaBehind last)
      ([snprintPathgroup len printJsonGroup pgp, printText len (printJsonGroupNum (i + 1)),
        snprintJson len 3 printJsonStartPaths] ++ pathSteps len pgp.paths ++
        [snprintJson len 0 printJsonEndArray, snprintJsonElemFooter len 2 last]) := by
  have hwidth : ∀ data ∈ pgd, data.width = 0 := by decide +kernel
  have hline := @fieldsLine_writes pgd groupFields len 9 pgp.field true [','] printJsonGroup
    (fun _ => hwidth) printJsonGroup_eq (by decide +kernel) known_groupFields (by decide)
  have hnum := printText_writes len (printJsonGroupNum (i + 1))
  have hstart := @snprintJson_writes len 3 printJsonStartPaths (by decide)
  have hend := @snprintJson_writes len 0 printJsonEndArray (by decide)
  have hfooter := snprintJsonElemFooter_writes len 2 last
  have h := ((((hline.extends le_rfl).append (hnum.extends (by decide))).append
    (hstart.extends (by decide))).append (pathSteps_extends len pgp.paths)).append
      ((hend.extends (by decide)).append (hfooter.extends (by decide)))
  have hne : jsonMembers 9 pgp.field groupFields ≠ [] := jsonMembers_ne_nil (List.cons_ne_nil _ _)
  rw [JsonPathgroup.text, Json.object, JsonPathgroup.members,
    memberTexts_append hne (List.cons_ne_nil _ _), Json.memberTexts_cons _ (List.cons_ne_nil _ _),
    Json.memberTexts_singleton, Json.Member.spell, Json.Member.spell]
  unfold printJsonGroupNum footerText at h
  unfold Json.array
  simp only [List.cons_append, List.append_assoc] at h ⊢
  exact h

/-- The groups of a map, from the `i`-th on. -/
theorem groupSteps_extends (len i : ℕ) (pg : List JsonPathgroup) :
    Extends len (Json.commas ((pg.zipIdx i).map fun pgp => pgp.1.text pgp.2))
      (groupSteps len i pg) := by
  induction pg generalizing i with
  | nil => exact extends_nil
  | cons pgp pg ih =>
    have h := (group_extends len pgp i pg.isEmpty).append (ih (i + 1))
    have hlast : pg.isEmpty = (pg.zipIdx (i + 1)).isEmpty := by
      cases pg <;> rfl
    have hcommas := commas_behind (fun pgp : JsonPathgroup × ℕ => pgp.1.text pgp.2) (pgp, i)
      (pg.zipIdx (i + 1))
    rw [← hlast] at hcommas
    rw [hcommas] at h
    exact h

theorem snprintMultipathFieldsJson_writes (len : ℕ) (mpp : JsonMultipath) (last : Bool) :
    Writes len 0 (mpp.text ++ commaBehind last) (snprintMultipathFieldsJson len mpp last) := by
  have hline := @fieldsLine_writes mpd mapFields len 6 mpp.field false [','] printJsonMap
    (fun h => Bool.noConfusion h) printJsonMap_eq (by decide +kernel) known_mapFields (by decide)
  have hstart := @snprintJson_writes len 2 printJsonStartGroups (by decide)
  have hend := @snprintJson_writes len 0 printJsonEndArray (by decide)
  have hfooter := snprintJsonElemFooter_writes len 1 last
  have h := ((((hline.extends le_rfl).append (hstart.extends (by decide))).append
    (groupSteps_extends len 0 mpp.pg)).append (hend.extends (by decide))).writes hfooter
      (by cases last <;> decide)
  have hne : jsonMembers 6 mpp.field mapFields ≠ [] := jsonMembers_ne_nil (List.cons_ne_nil _ _)
  rw [JsonMultipath.text, Json.object, JsonMultipath.members,
    memberTexts_append hne (List.cons_ne_nil _ _), Json.memberTexts_singleton, Json.Member.spell,
    snprintMultipathFieldsJson]
  unfold footerText at h
  unfold Json.array
  simp only [List.cons_append, List.append_assoc] at h ⊢
  exact h

theorem mapSteps_extends (len : ℕ) (mpvec : List JsonMultipath) :
    Extends len (Json.commas (mpvec.map JsonMultipath.text)) (mapSteps len mpvec) := by
  induction mpvec with
  | nil => exact extends_nil
  | cons mpp mpvec ih =>
    have h := ((snprintMultipathFieldsJson_writes len mpp mpvec.isEmpty).extends (by decide)).append ih
    rwa [commas_behind] at h

/-- The statements of the whole output write the document. -/
theorem topology_writes (len : ℕ) (mpvec : List JsonMultipath) :
    Writes len 0 (topologyText mpvec) (inOrder len
      ([snprintJsonHeader len, snprintJson len 1 printJsonStartMaps] ++ mapSteps len mpvec ++
        [snprintJson len 0 printJsonEndArray, snprintJson len 0 printJsonEndLast])) := by
  have helem := @snprintJson_writes len 0 printJsonStartElem (by decide)
  have hversion := printText_writes len printJsonStartVersion
  have hheader := (helem.extends (by decide)).writes hversion (by decide)
  have hstart := @snprintJson_writes len 1 printJsonStartMaps (by decide)
  have hend := @snprintJson_writes len 0 printJsonEndArray (by decide)
  have hlast := @snprintJson_writes len 0 printJsonEndLast (by decide)
  have h := ((((hheader.extends (by decide)).append (hstart.extends (by decide))).append
    (mapSteps_extends len mpvec)).append (hend.extends (by decide))).writes hlast (by decide)
  rw [topologyText, Json.object, topologyMembers, Json.memberTexts_cons _ (List.cons_ne_nil _ _),
    Json.memberTexts_cons _ (List.cons_ne_nil _ _), Json.memberTexts_singleton, Json.Member.spell,
    Json.Member.spell, Json.Member.spell]
  unfold Json.array
  simp only [List.cons_append, List.append_assoc] at h ⊢
  exact h

end Written

section Spelled

variable {layout : List PathData} {fields : List JsonField} {field : Char → CStr} {f : JsonField}

/-- The fields that are not quoted are numbers. -/
def Numbers (field : Char → CStr) (fields : List JsonField) : Prop :=
  ∀ f ∈ fields, f.quoted = false → IsShortNumber (field f.wildcard)

theorem isBlank_indent (indent : ℕ) : IsBlank ('\n' :: List.replicate indent ' ') := by
  refine List.forall_mem_cons.2 ⟨by decide, fun c hc => ?_⟩
  rw [List.eq_of_mem_replicate hc]
  decide

/-- A string in a buffer for a field, between quotes. -/
theorem spells_quoted (text : CStr) :
    Spells ('"' :: (text.take (maxFieldLen - 1) ++ ['"'])) (.str text) (IsPrintable text) := by
  refine (Json.spells_str (List.take_prefix (maxFieldLen - 1) text)).congr ?_
  rw [List.take_eq_self_iff]
  unfold IsPrintable maxFieldLen
  rw [Nat.lt_succ_iff]

theorem spells_number {text : CStr} (h : IsShortNumber text) :
    Spells (text.take (maxFieldLen - 1)) (.num text) True := by
  rw [List.take_of_length_le (Nat.le_sub_one_of_lt h.2)]
  exact Json.spells_num h.1

theorem member_ok (indent : ℕ) (hkey : ∀ c ∈ f.key, IsPlain c)
    (hnum : f.quoted = false → IsShortNumber (field f.wildcard)) : (f.member indent field).Ok := by
  have hspace : IsBlank [' '] := by decide
  refine ⟨isBlank_indent indent, hkey, hspace, hspace, ?_⟩
  unfold JsonField.member
  cases hquoted : f.quoted with
  | true => exact (spells_quoted _).congr ⟨fun h _ => h, fun h => h rfl⟩
  | false =>
    exact (spells_number (hnum hquoted)).congr (iff_of_true trivial fun h => Bool.noConfusion h)

theorem jsonMembers_ok (indent : ℕ) (hknown : Known layout fields) (hnum : Numbers field fields) :
    ∀ m ∈ jsonMembers indent field fields, m.Ok := by
  intro m hm
  obtain ⟨f, hf, rfl⟩ := List.mem_map.1 hm
  exact member_ok indent (hknown f hf).2.2 (hnum f hf)

theorem jsonMembers_cond_iff (indent : ℕ) : (∀ m ∈ jsonMembers indent field fields, m.cond) ↔
    ∀ f ∈ fields, f.quoted = true → IsPrintable (field f.wildcard) := by
  unfold jsonMembers
  rw [List.forall_mem_map]
  rfl

theorem jsonMembers_json (indent : ℕ) :
    (jsonMembers indent field fields).map (fun m => (m.key, m.value)) =
      fields.map (JsonField.json field) := by
  unfold jsonMembers
  rw [List.map_map]
  rfl

theorem numbers_path (pp : JsonPath) : Numbers pp.field pathFields := by
  unfold Numbers pathFields
  simp only [List.forall_mem_cons, Bool.true_eq_false, forall_false, true_and, List.not_mem_nil,
    forall_const]
  exact ⟨isShortNumber_snprintInt pp.priority, fun _ => trivial⟩

theorem printable_path_iff (pp : JsonPath) :
    (∀ f ∈ pathFields, f.quoted = true → IsPrintable (pp.field f.wildcard)) ↔ pp.Printable := by
  unfold pathFields JsonPath.Printable JsonPath.strings
  simp [JsonPath.field, JsonPath.fields, List.lookup_cons, isPrintable_snprintDmPathState,
    isPrintable_snprintOffline, isPrintable_snprintChkState, isPrintable_snprintMarginal]

theorem JsonPath.spells (pp : JsonPath) : Spells pp.text pp.json pp.Printable := by
  have hne : jsonMembers 12 pp.field pathFields ≠ [] := jsonMembers_ne_nil (List.cons_ne_nil _ _)
  have h := Json.spells_obj hne (by decide : IsBlank "\n         ".toList)
    (jsonMembers_ok 12 known_pathFields (numbers_path pp))
  rw [jsonMembers_json] at h
  exact h.congr ((jsonMembers_cond_iff 12).trans (printable_path_iff pp))

theorem numbers_group (pgp : JsonPathgroup) : Numbers pgp.field groupFields := by
  unfold Numbers groupFields
  simp only [List.forall_mem_cons, Bool.true_eq_false, forall_false, true_and, List.not_mem_nil,
    forall_const]
  exact ⟨isShortNumber_snprintInt pgp.priority, fun _ => trivial⟩

theorem printable_group_iff (pgp : JsonPathgroup) :
    (∀ f ∈ groupFields, f.quoted = true → IsPrintable (pgp.field f.wildcard)) ↔
      ∀ s ∈ pgp.strings, IsPrintable s := by
  unfold groupFields JsonPathgroup.strings
  simp [JsonPathgroup.field, JsonPathgroup.fields, List.lookup_cons, isPrintable_snprintPgState,
    isPrintable_snprintMarginal]

theorem JsonPathgroup.spells (pgp : JsonPathgroup) (i : ℕ) :
    Spells (pgp.text i) (pgp.json i) pgp.Printable := by
  have hne : pgp.members i ≠ [] := List.append_ne_nil_of_right_ne_nil _ (List.cons_ne_nil _ _)
  have hblank : IsBlank "\n         ".toList := by decide
  have hok : ∀ m ∈ pgp.members i, m.Ok := by
    refine List.forall_mem_append.2 ⟨jsonMembers_ok 9 known_groupFields (numbers_group pgp), ?_⟩
    refine List.forall_mem_cons.2 ⟨?_, List.forall_mem_singleton.2 ?_⟩
    · exact Json.Member.ok_mk hblank (by decide) (by decide) (by decide)
        (Json.spells_num (Json.isNumber_itoa _))
    · exact Json.Member.ok_mk hblank (by decide) (by decide) (by decide)
        (Json.spells_arr pgp.paths fun pp _ => pp.spells)
  have hjson : (pgp.members i).map (fun m => (m.key, m.value)) =
      groupFields.map (JsonField.json pgp.field) ++ [("group".toList, .num (itoa (i + 1 : ℕ))),
        ("paths".toList, .arr (pgp.paths.map JsonPath.json))] := by
    rw [JsonPathgroup.members, List.map_append, jsonMembers_json]
    rfl
  have h := Json.spells_obj hne (by decide : IsBlank "\n      ".toList) hok
  rw [hjson] at h
  refine h.congr ?_
  rw [JsonPathgroup.members, List.forall_mem_append, List.forall_mem_cons, List.forall_mem_singleton,
    jsonMembers_cond_iff, printable_group_iff, true_and]
  rfl

theorem numbers_map (mpp : JsonMultipath) : Numbers mpp.field mapFields := by
  unfold Numbers mapFields
  simp only [List.forall_mem_cons, Bool.true_eq_false, forall_false, true_and, List.not_mem_nil,
    forall_const]
  exact ⟨isShortNumber_snprintInt _, isShortNumber_snprintUint _, isShortNumber_snprintUint _,
    isShortNumber_snprintUint _, isShortNumber_snprintUint _, isShortNumber_snprintUint _,
    fun _ => trivial⟩

theorem printable_map_iff (mpp : JsonMultipath) :
    (∀ f ∈ mapFields, f.quoted = true → IsPrintable (mpp.field f.wildcard)) ↔
      ∀ s ∈ mpp.strings, IsPrintable s := by
  unfold mapFields JsonMultipath.strings
  simp [JsonMultipath.field, JsonMultipath.fields, List.lookup_cons, isPrintable_snprintSysfs,
    isPrintable_snprintFailback, isPrintable_snprintQueueing, isPrintable_snprintRo,
    isPrintable_snprintDmMapState, isPrintable_snprintAction]

theorem JsonMultipath.spells (mpp : JsonMultipath) : Spells mpp.text mpp.json mpp.Printable := by
  have hne : mpp.members ≠ [] := List.append_ne_nil_of_right_ne_nil _ (List.cons_ne_nil _ _)
  have hblank : IsBlank "\n      ".toList := by decide
  have hok : ∀ m ∈ mpp.members, m.Ok := by
    refine List.forall_mem_append.2 ⟨jsonMembers_ok 6 known_mapFields (numbers_map mpp), ?_⟩
    exact List.forall_mem_singleton.2 (Json.Member.ok_mk hblank (by decide) (by decide) (by decide)
      (Json.spells_arr mpp.pg.zipIdx fun pgp _ => pgp.1.spells pgp.2))
  have hjson : mpp.members.map (fun m => (m.key, m.value)) =
      mapFields.map (JsonField.json mpp.field) ++
        [("path_groups".toList, .arr (mpp.pg.zipIdx.map fun pgp => pgp.1.json pgp.2))] := by
    rw [JsonMultipath.members, List.map_append, jsonMembers_json]
    rfl
  have hgroups : (∀ pgp ∈ mpp.pg.zipIdx, pgp.1.Printable) ↔ ∀ pgp ∈ mpp.pg, pgp.Printable := by
    have hmap := @List.forall_mem_map _ _ Prod.fst mpp.pg.zipIdx JsonPathgroup.Printable
    rw [List.zipIdx_map_fst] at hmap
    exact hmap.symm
  have h := Json.spells_obj hne (by decide : IsBlank "\n   ".toList) hok
  rw [hjson] at h
  refine h.congr ?_
  rw [JsonMultipath.members, List.forall_mem_append, List.forall_mem_singleton, jsonMembers_cond_iff,
    printable_map_iff, hgroups]
  rfl

/-- The document says what it is to say if all strings are printable, and not else. -/
theorem topologyText_isText_iff (mpvec : List JsonMultipath) :
    Json.IsText (topologyText mpvec) (topologyJson mpvec) ↔ ∀ mpp ∈ mpvec, mpp.Printable := by
  have hblank : IsBlank "\n   ".toList := by decide
  have hok : ∀ m ∈ topologyMembers mpvec, m.Ok := by
    refine List.forall_mem_cons.2 ⟨?_, List.forall_mem_cons.2 ⟨?_, List.forall_mem_singleton.2 ?_⟩⟩
    · exact Json.Member.ok_mk hblank (by decide) (by decide) (by decide)
        (Json.spells_num (Json.isNumber_toDigits 0))
    · exact Json.Member.ok_mk hblank (by decide) (by decide) (by decide)
        (Json.spells_num (Json.isNumber_toDigits 1))
    · exact Json.Member.ok_mk hblank (by decide) (by decide) (by decide)
        (Json.spells_arr mpvec fun mpp _ => mpp.spells)
  have h := Json.spells_obj (List.cons_ne_nil _ _) (by decide : IsBlank ['\n']) hok
  refine (h.isText_iff (by decide : IsBlank ['\n'])).trans ?_
  rw [List.forall_mem_cons, List.forall_mem_cons, List.forall_mem_singleton, true_and, true_and]

end Spelled

section Output

/-- What is returned is the length of the document, or that of the buffer if the document does not
fit. -/
theorem snprintMultipathTopologyJson_eq (mpvec : List JsonMultipath) (buff : List Char) :
    ∃ buff', snprintMultipathTopologyJson buff.length mpvec buff =
        .done (buff', min (topologyText mpvec).length buff.length) ∧
      ((topologyText mpvec).length < buff.length → topologyText mpvec ++ [nul] <+: buff') := by
  obtain hempty | hpos := Nat.eq_zero_or_pos buff.length
  · rw [hempty, Nat.min_zero]
    exact ⟨buff, rfl, fun h => absurd h (Nat.not_lt_zero _)⟩
  · obtain ⟨buff', fwd, hdone, -, hfit, hfull⟩ :=
      topology_writes buff.length mpvec rfl List.nil_prefix hpos
    rw [List.length_nil] at hdone
    rw [List.length_nil, Nat.zero_add, Nat.add_zero] at hfit hfull
    unfold snprintMultipathTopologyJson
    rw [hdone, Outcome.bind_done]
    by_cases hroom : (topologyText mpvec).length < buff.length
    · obtain ⟨rfl, hout⟩ := hfit hroom
      refine ⟨buff', ?_, fun _ => hout⟩
      dsimp only
      rw [if_neg (Nat.not_le.2 hroom), min_eq_left hroom.le]
    · have hover : buff.length ≤ fwd := hfull (Nat.not_lt.1 hroom)
      refine ⟨buff', ?_, fun h => absurd h hroom⟩
      dsimp only
      rw [if_pos hover, min_eq_right (Nat.not_lt.1 hroom)]

/-- A value below the length of the buffer means that a complete document is in it, which lists the
maps, and the length of the buffer is returned if the document does not fit. -/
def TopologyListed (mpvec : List JsonMultipath) (buff : List Char) : Prop :=
  ∃ buff' fwd, snprintMultipathTopologyJson buff.length mpvec buff = .done (buff', fwd) ∧
    (fwd < buff.length → Json.IsText (buff'.take fwd) (topologyJson mpvec) ∧ buff'[fwd]? = some nul) ∧
    (buff.length ≤ (topologyText mpvec).length → fwd = buff.length)

theorem snprintMultipathTopologyJson_listed_iff (mpvec : List JsonMultipath) (buff : List Char) :
    TopologyListed mpvec buff ↔
      buff.length ≤ (topologyText mpvec).length ∨ ∀ mpp ∈ mpvec, mpp.Printable := by
  obtain ⟨buff', hdone, hout⟩ := snprintMultipathTopologyJson_eq mpvec buff
  have hend : (topologyText mpvec).length < buff.length →
      buff'.take (topologyText mpvec).length = topologyText mpvec ∧
        buff'[(topologyText mpvec).length]? = some nul := by
    intro hroom
    obtain ⟨z, hz⟩ := hout hroom
    rw [← hz, List.append_assoc, List.take_left]
    exact ⟨rfl, by simp⟩
  rw [← topologyText_isText_iff]
  constructor
  · rintro ⟨out, fwd, hrun, hcomplete, -⟩
    cases hdone.symm.trans hrun
    obtain hroom | hfull := Nat.lt_or_ge (topologyText mpvec).length buff.length
    swap
    · exact .inl hfull
    · rw [min_eq_left hroom.le, (hend hroom).1] at hcomplete
      exact .inr (hcomplete hroom).1
  · intro hor
    refine ⟨buff', _, hdone, fun hless => ?_, fun hfull => min_eq_right hfull⟩
    have hroom : (topologyText mpvec).length < buff.length := by omega
    rw [min_eq_left hroom.le, (hend hroom).1]
    exact ⟨hor.resolve_left (Nat.not_le.2 hroom), (hend hroom).2⟩

/-- A map whose alias has a quote in it. -/
def quotedMap : JsonMultipath := { aliasName := some "a\"b".toList, wwid := "3600d".toList }

theorem snprintMultipathTopologyJson_listed_fails :
    ¬ TopologyListed [quotedMap] (List.replicate 1000 ' ') := by
  have hroom : (topologyText [quotedMap]).length < (List.replicate 1000 ' ').length := by
    decide +kernel
  have halias : ¬ IsPrintable "a\"b".toList := by decide
  obtain ⟨buff', hdone, hout⟩ := snprintMultipathTopologyJson_eq [quotedMap] (List.replicate 1000 ' ')
  obtain ⟨z, hz⟩ := hout hroom
  rintro ⟨out, fwd, hrun, hcomplete, -⟩
  cases hdone.symm.trans hrun
  rw [min_eq_left hroom.le, ← hz, List.append_assoc, List.take_left] at hcomplete
  have hprintable := (topologyText_isText_iff [quotedMap]).1 (hcomplete hroom).1 quotedMap
    List.mem_cons_self
  exact halias (hprintable.1 _ List.mem_cons_self)

end Output

end MultipathTools.Print
