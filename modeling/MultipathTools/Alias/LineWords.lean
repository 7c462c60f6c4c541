import Mathlib.Data.Char
import Mathlib.Data.List.Lex
import MultipathTools.Alias.Bindings
import MultipathTools.Base.Keyed

/-! The words of a line of the bindings file to which other text is appended. -/
namespace MultipathTools.Alias

/-- A word that can stand in a line of the bindings file. -/
def IsField (s : CStr) : Prop := IsToken s ∧ ∀ c ∈ s, isLineEnd c = false

instance (s : CStr) : Decidable (IsField s) := inferInstanceAs (Decidable (_ ∧ _))

theorem isLineEnd_of_isDelim {c : Char} (h : isDelim c = true) : isLineEnd c = false := by
  have : c = ' ' ∨ c = '\t' := by simpa [isDelim] using h
  obtain rfl | rfl := this <;> decide

theorem lineText_append {s : CStr} (hs : ∀ c ∈ s, isLineEnd c = false) (t : CStr) :
    lineText (s ++ t) = s ++ lineText t := by
  exact List.takeWhile_append_of_pos fun c hc => by simp [hs c hc]

theorem lineText_eq_self {s : CStr} (hs : ∀ c ∈ s, isLineEnd c = false) : lineText s = s := by
  simpa [lineText] using lineText_append hs []

/-- Nothing after the end of the line counts. -/
theorem lineText_append_of_mem {s : CStr} {c : Char} (hc : c ∈ s) (he : isLineEnd c = true)
    (t : CStr) : lineText (s ++ t) = lineText s := by
  induction s with
  | nil => cases hc
  | cons d s ih =>
    cases hd : isLineEnd d with
    | true => simp [lineText, hd]
    | false =>
      have hm : c ∈ s := by
        obtain rfl | hm := List.mem_cons.mp hc
        · simp [he] at hd
        · exact hm
      simpa [lineText, hd] using ih hm

theorem lineText_no_end (buf : CStr) : ∀ c ∈ lineText buf, isLineEnd c = false := fun c hc => by
  simpa using List.mem_takeWhile_imp hc

theorem lineText_newline_length (s : CStr) : (lineText (s ++ ['\n'])).length ≤ s.length := by
  have hp : lineText (s ++ ['\n']) <+: s ++ ['\n'] := List.takeWhile_prefix _
  have hne : lineText (s ++ ['\n']) ≠ s ++ ['\n'] := fun he =>
    absurd (lineText_no_end (s ++ ['\n']) '\n' (by rw [he]; simp)) (by decide)
  have hlen := hp.length_le
  have := mt hp.eq_of_length hne
  simp only [List.length_append, List.length_singleton] at *
  omega

theorem lineWords_eq_none {buf : CStr} (h : Blank buf) : lineWords buf = none := by
  have hb : Blank (lineText buf) := fun c hc => h c ((List.takeWhile_prefix _).subset hc)
  rw [lineWords, strtok_eq_none_iff.mpr hb, Option.map_none]

theorem lineWords_blank_append {b : CStr} (hb : Blank b) (s : CStr) :
    lineWords (b ++ s) = lineWords s := by
  rw [lineWords, lineText_append fun c hc => isLineEnd_of_isDelim (hb c hc),
    strtok_blank_append hb, lineWords]

theorem lineWords_alias {buf name : CStr} {wwid : Option CStr}
    (h : lineWords buf = some (name, wwid)) : IsField name := by
  obtain ⟨⟨tok, rest⟩, hs, he⟩ := Option.map_eq_some_iff.mp h
  obtain ⟨rfl, -⟩ := Prod.mk.inj he
  obtain ⟨b, -, ht, htok, -⟩ := strtok_eq_some hs
  refine ⟨htok, fun c hc => lineText_no_end buf c ?_⟩
  rw [ht]
  simp [hc]

theorem lineWords_wwid {buf name wwid : CStr} (h : lineWords buf = some (name, some wwid)) :
    IsToken wwid := by
  obtain ⟨⟨tok, rest⟩, -, he⟩ := Option.map_eq_some_iff.mp h
  obtain ⟨-, hw⟩ := Prod.mk.inj he
  obtain ⟨⟨w, rest'⟩, hs, rfl⟩ := Option.map_eq_some_iff.mp hw
  obtain ⟨-, -, -, htok, -⟩ := strtok_eq_some hs
  exact htok

theorem lineWords_wwid_field {buf name wwid : CStr}
    (h : lineWords buf = some (name, some wwid)) : IsField wwid := by
  obtain ⟨⟨tok, rest⟩, hs, he⟩ := Option.map_eq_some_iff.mp h
  obtain ⟨-, hw⟩ := Prod.mk.inj he
  obtain ⟨⟨w, rest'⟩, hs', rfl⟩ := Option.map_eq_some_iff.mp hw
  obtain ⟨_, -, ht, -⟩ := strtok_eq_some hs
  obtain ⟨b, -, hr, htok, -⟩ := strtok_eq_some hs'
  refine ⟨htok, fun c hc => lineText_no_end buf c ?_⟩
  dsimp only at hr hc
  rw [ht, hr]
  simp [hc]

/-- Two words take their lengths and a blank. -/
theorem lineWords_length {buf name wwid : CStr} (h : lineWords buf = some (name, some wwid)) :
    name.length + wwid.length + 1 ≤ (lineText buf).length := by
  obtain ⟨⟨tok, rest⟩, hs, he⟩ := Option.map_eq_some_iff.mp h
  obtain ⟨rfl, hw⟩ := Prod.mk.inj he
  obtain ⟨⟨w, rest'⟩, hs', rfl⟩ := Option.map_eq_some_iff.mp hw
  obtain ⟨b, -, hb, htok, -⟩ := strtok_eq_some hs'
  obtain ⟨_, -, -, -, hdelim⟩ := strtok_eq_some hs
  have hlen := strtok_length hs
  -- the rest begins with a separator, the second word does not
  have hne : b ≠ [] := by
    rintro rfl
    obtain ⟨c, t, hct⟩ := List.exists_cons_of_ne_nil htok.1
    have hno := htok.2 c (by simp_all)
    have := hdelim c (by simp_all)
    simp_all
  have hpos := List.length_pos_iff.mpr hne
  have := congrArg List.length hb
  simp only [List.length_append] at this
  simp only
  omega

/-- The line that a new binding makes, after blanks. -/
theorem lineWords_binding {b name wwid : CStr} (hb : Blank b) (hn : IsField name)
    (hw : IsField wwid) {e : CStr} (he : e = [] ∨ e = ['\n']) :
    lineWords (b ++ (name ++ ' ' :: wwid) ++ e) = some (name, some wwid) := by
  rw [List.append_assoc, lineWords_blank_append hb]
  have hend : ∀ c ∈ name ++ ' ' :: wwid, isLineEnd c = false := by
    simp only [List.forall_mem_append, List.forall_mem_cons]
    exact ⟨hn.2, by decide, hw.2⟩
  have htext : lineText (name ++ ' ' :: wwid ++ e) = name ++ ' ' :: wwid := by
    rw [lineText_append hend]
    obtain rfl | rfl := he <;> simp [lineText, isLineEnd]
  have hname : strtok (name ++ ' ' :: wwid) = some (name, ' ' :: wwid) :=
    strtok_token (b := []) (by simp [Blank]) hn.1 (by simp [isDelim])
  have hwwid : strtok (' ' :: wwid) = some (wwid, []) := by
    simpa using strtok_token (b := [' ']) (r := []) (by simp [Blank, isDelim]) hw.1 (by simp)
  rw [lineWords, htext, hname, Option.map_some, hwwid, Option.map_some]

/-- Appended text that begins a binding for `name` completes a line of two words with this
alias only if there is nothing before it, or the alias is there already. -/
theorem blank_of_lineWords_append {r v name wwid t : CStr} (hv : v <+: name ++ t)
    (h : lineWords (r ++ v) = some (name, some wwid)) (hr : ∀ w, lineWords r ≠ some (name, w)) :
    Blank r := by
  have hname := lineWords_alias h
  have hend : ∀ c ∈ r, isLineEnd c = false := by
    intro c hc
    by_contra he
    rw [lineWords, lineText_append_of_mem hc (by simpa using he)] at h
    exact hr _ h
  rw [lineWords, lineText_append hend] at h
  cases hs : strtok r with
  | none => exact strtok_eq_none_iff.mp hs
  | some p =>
    obtain ⟨tok, rest⟩ := p
    exfalso
    rw [strtok_append hs] at h
    split_ifs at h with hrest
    · -- the last word of `r` and the text after it are one word, longer than the name
      obtain ⟨hn, hw⟩ := Prod.mk.inj (Option.some.inj h)
      have htok := List.length_pos_iff.mpr (strtok_eq_some hs).choose_spec.2.2.1.1
      have hx : lineText v <+: name ++ t := (List.takeWhile_prefix _).trans hv
      have hno : ∀ c ∈ name, (!isDelim c) = true := fun c hc => by simp [hname.1.2 c hc]
      obtain hle | hlt := Nat.le_total (lineText v).length name.length
      · have hpre := List.prefix_of_prefix_length_le hx (List.prefix_append name t) hle
        rw [List.dropWhile_eq_nil_iff.mpr fun c hc => hno c (hpre.subset hc)] at hw
        simp [strtok] at hw
      · obtain ⟨x, hx⟩ := List.prefix_of_prefix_length_le (List.prefix_append name t) hx hlt
        rw [← hx, List.takeWhile_append_of_pos hno] at hn
        have := congrArg List.length hn
        simp only [List.length_append] at this
        omega
    · obtain ⟨rfl, -⟩ := Prod.mk.inj (Option.some.inj h)
      refine hr ((strtok rest).map Prod.fst) ?_
      rw [lineWords, lineText_eq_self hend, hs, Option.map_some]

end MultipathTools.Alias

/-! `check_alias_settings` and the functions it calls (`alias.c`), by which the bindings file is
checked against the `multipath` sections and repaired. -/
namespace MultipathTools.Alias

/-- `struct binding`. -/
structure Binding where
  aliasName : CStr
  wwid : CStr
  deriving DecidableEq, Repr

/-- What `alias.c` reads of `struct mpentry`. -/
structure MpeAlias where
  wwid : Option CStr
  aliasName : Option CStr
  deriving DecidableEq, Repr

/-- What `add_binding` comes to. -/
inductive Added where
  | already | conflict | added
  deriving DecidableEq, Repr

/-- `add_binding`. `strcmp` orders strings as lists. -/
def addBinding (bindings : List Binding) (aliasName wwid : CStr) : Added × List Binding :=
  -- the search backwards stops at an alias that is not greater
  let before := upTo Binding.aliasName aliasName bindings
  let insert := before ++ ⟨aliasName, wwid⟩ :: above Binding.aliasName aliasName bindings
  match before.getLast? with
  | some bdg =>
    if bdg.aliasName = aliasName then
      (if bdg.wwid ≠ wwid then .conflict else .already, bindings)
    else (.added, insert)
  | none => (.added, insert)

/-- `get_mpe_wwid`. -/
def getMpeWwid (mptable : List MpeAlias) (aliasName : CStr) : Option CStr :=
  (mptable.find? fun mpe => mpe.aliasName = some aliasName).bind MpeAlias.wwid

/-- One line in `_check_bindings_file`. -/
def checkLine (mptable : List MpeAlias) (s : ℤ × List Binding) (line : CStr) : ℤ × List Binding :=
  match lineWords line with
  | some (aliasName, some wwid) =>
    if (getMpeWwid mptable aliasName).any (· ≠ wwid) then (-1, s.2)
    else
      let r := addBinding s.2 aliasName wwid
      (if r.1 = .conflict then -1 else s.1, r.2)
  | _ => s

/-- `_check_bindings_file`, with an empty vector of bindings. -/
def checkBindingsFile (mptable : List MpeAlias) (content : CStr) : ℤ × List Binding :=
  (getlines content).foldl (checkLine mptable) (0, [])

/-- How the system calls come out that replace the file. -/
structure RepairIo where
  fdopen : Bool := true
  /-- The name of the temporary file fits, and `mkstemp` succeeds. -/
  mkstemp : Bool := true
  /-- `write` takes this many bytes. -/
  room : ℕ
  rename : Bool := true

/-- The line of a binding. -/
def bindingText (bnd : Binding) : CStr := bnd.aliasName ++ ' ' :: (bnd.wwid ++ ['\n'])

/-- The loop of `write_bindings_file`. -/
def writeBindings (room : ℕ) : List Binding → Option CStr
  | [] => some []
  | bnd :: bindings =>
    let line := bindingText bnd
    if lineMax ≤ line.length then none
    else if room < line.length then none
    else (writeBindings (room - line.length) bindings).map (line ++ ·)

/-- `write_bindings_file`. -/
def writeBindingsFile (room : ℕ) (bindings : List Binding) : Option CStr :=
  if room < bindingsFileHeader.length then none
  else
    (writeBindings (room - bindingsFileHeader.length) bindings).map (bindingsFileHeader ++ ·)

/-- `fix_bindings_file`: the return code, and the file. -/
def fixBindingsFile (io : RepairIo) (content : CStr) (bindings : List Binding) : ℤ × CStr :=
  if !io.mkstemp then (-1, content)
  else
    match writeBindingsFile io.room bindings with
    | none => (-1, content)
    | some text => if io.rename then (0, text) else (-1, content)

/-- One section in `check_alias_settings`. -/
def checkSection (s : List Binding × List MpeAlias) (mpe : MpeAlias) :
    List Binding × List MpeAlias :=
  match mpe.wwid, mpe.aliasName with
  | some wwid, some aliasName =>
    let r := addBinding s.1 aliasName wwid
    (r.2, s.2 ++ [if r.1 = .conflict then { mpe with aliasName := none } else mpe])
  | _, _ => (s.1, s.2 ++ [mpe])

/-- `check_alias_settings`: the return code, the sections and the file. -/
def checkAliasSettings (io : Io) (repair : RepairIo) (mptable : List MpeAlias) (content : CStr)
    (bindingsReadOnly : Bool) : ℤ × List MpeAlias × CStr :=
  let mptable := (mptable.foldl checkSection ([], [])).2
  let f := openFile io content bindingsFileHeader
  if !f.1 || !repair.fdopen then (0, mptable, f.2)
  else
    let r := checkBindingsFile mptable f.2
    if r.1 = -1 ∧ io.canWrite = true ∧ bindingsReadOnly = false then
      let g := fixBindingsFile repair f.2 r.2
      (g.1, mptable, g.2)
    else (r.1, mptable, f.2)

end MultipathTools.Alias
