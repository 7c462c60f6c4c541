import MultipathTools.Features.Spacing

/-! What `add_feature` and `remove_feature` do to any features string, and the buffers that they
allocate. -/
namespace MultipathTools.Features

/-- A features string: the number of the words, and the words, with any blanks around. -/
def Lists (f : CStr) (ws : List CStr) : Prop :=
  splitWords f = Nat.toDigits 10 ws.length :: ws

instance (f : CStr) (ws : List CStr) : Decidable (Lists f ws) :=
  inferInstanceAs (Decidable (_ = _))

/-- The size of the buffer that `add_feature` allocates for a string that is not NULL. -/
def addFeatureBuffer (s n : CStr) : Option ℕ :=
  if hasSubstr s n then none
  else
    let (v, e) := strtoul s
    let c := toInt (toInt v + 1)
    some (e.length + n.length + 1 + (Nat.toDigits 10 c.toNat).length + 1)

/-- The size of the buffer that `remove_feature` allocates, for a name without blanks. -/
def removeFeatureBuffer (s o : CStr) : Option ℕ :=
  if hasSubstr s o then
    if toInt (strtoul s).1 - 1 = 0 then some 2 else some (s.length - o.length + 1)
  else none

/-- The string with its NUL fits into the buffer, if there is one. It is written from the first
byte on. -/
def Fits (buffer : Option ℕ) (f : CStr) : Prop := ∀ size ∈ buffer, f.length < size

/-- `add_feature` does its work: the word is appended, unless it is there. -/
def Adds (f n : CStr) (ws : List CStr) : Prop :=
  ∃ f', addFeature (some f) n = (some f', 0) ∧ Lists f' (if n ∈ ws then ws else ws ++ [n]) ∧
    Fits (addFeatureBuffer f n) f'

/-- `remove_feature` does its work: the word is not there any more. -/
def Removes (f n : CStr) (ws : List CStr) : Prop :=
  ∃ f', removeFeature (some f) n = (some f', 0) ∧ Lists f' (ws.filter (· ≠ n)) ∧
    Fits (removeFeatureBuffer f n) f'

section Layout

variable {f n gap tail : CStr} {ws : List CStr}

/-- What stands in a features string: blanks, the number, and a text with the words. -/
theorem Lists.layout (h : Lists f ws) :
    ∃ gap tail, f = gap ++ (Nat.toDigits 10 ws.length ++ tail) ∧ (∀ c ∈ gap, c = ' ') ∧
      (∀ c ∈ tail.head?, c = ' ') ∧ splitWords tail = ws := by
  have hgap : ∀ c ∈ f.takeWhile (· = ' '), c = ' ' := fun c hc => by
    simpa using List.mem_takeWhile_imp hc
  have hrest : ∀ c ∈ (f.dropWhile (· = ' ')).head?, c ≠ ' ' := by
    intro c hc
    have hnot := List.head?_dropWhile_not (· = ' ') f
    rw [Option.mem_def.mp hc] at hnot
    simpa using hnot
  have hf : f = f.takeWhile (· = ' ') ++ f.dropWhile (· = ' ') :=
    List.takeWhile_append_dropWhile.symm
  obtain ⟨w, tail, hw, hblank, htail⟩ := exists_head_split (f.dropWhile (· = ' '))
  have hwords : splitWords w ++ splitWords tail = Nat.toDigits 10 ws.length :: ws := by
    rw [← splitWords_append_of_head htail, ← hw, ← splitWords_blanks hgap, ← hf]
    exact h
  have hne : w ≠ [] := by
    rintro rfl
    rw [List.nil_append] at hw
    rw [hw] at hrest
    cases tail with
    | nil =>
      rw [splitWords_nil] at hwords
      cases hwords
    | cons c tail => exact hrest c rfl (htail c rfl)
  rw [splitWords_word hne hblank] at hwords
  obtain ⟨rfl, hws⟩ := List.cons.inj hwords
  exact ⟨_, tail, by rw [← hw, ← hf], hgap, htail, hws⟩

theorem strtoul_blanks (hgap : ∀ c ∈ gap, c = ' ') (hn : ws.length ≤ ulongMax)
    (htail : ∀ c ∈ tail.head?, c = ' ') :
    strtoul (gap ++ (Nat.toDigits 10 ws.length ++ tail)) = (ws.length, tail) := by
  have hno : NoDigit tail := fun c hc => by
    rw [htail c hc]
    rfl
  have hsign : scanSign (gap ++ (Nat.toDigits 10 ws.length ++ tail)) =
      scanSign (Nat.toDigits 10 ws.length ++ tail) := by
    unfold scanSign
    rw [List.dropWhile_append_of_pos]
    intro c hc
    rw [hgap c hc]
    rfl
  have h := strtoul_toDigits hn hno
  unfold strtoul at h ⊢
  rw [hsign]
  rw [scanSign_digits] at h ⊢
  dsimp only at h ⊢
  rw [scanDigits_append (fun _ => isDigit_toDigits) hno] at h ⊢
  dsimp only at h ⊢
  rw [if_neg Nat.toDigits_ne_nil] at h ⊢
  exact h

theorem Lists.length_lt (h : Lists f ws) : ws.length < f.length := by
  have hle := length_splitWords_le f
  rw [h, List.length_cons] at hle
  exact hle

theorem Lists.infix_of_mem (h : Lists f ws) (hn : n ∈ ws) : n <:+: f := by
  apply infix_of_mem_splitWords
  rw [h]
  exact List.mem_cons_of_mem _ hn

theorem Lists.words_eq {vs : List CStr} (h : Lists f ws) (h' : Lists f vs) : ws = vs :=
  (List.cons.inj (h.symm.trans h')).2

/-- A string for the words behind a number. -/
theorem lists_append (htail : ∀ c ∈ tail.head?, c = ' ') (hws : splitWords tail = ws) :
    Lists (Nat.toDigits 10 ws.length ++ tail) ws := by
  have hdigits : ' ' ∉ Nat.toDigits 10 ws.length := fun hmem =>
    absurd (isDigit_toDigits hmem) (by decide)
  rw [Lists, splitWords_append_of_head htail, splitWords_word Nat.toDigits_ne_nil hdigits, hws]
  rfl

/-- One blank of those after the number is as good as all of them. -/
theorem splitWords_squeeze (s : CStr) :
    splitWords (if s.head? = some ' ' then ' ' :: s.dropWhile (· = ' ') else s) =
      splitWords s := by
  by_cases hs : s.head? = some ' '
  · have hblanks : ∀ c ∈ s.takeWhile (· = ' '), c = ' ' := fun c hc => by
      simpa using List.mem_takeWhile_imp hc
    have hsplit := @splitWords_blanks _ (s.dropWhile (· = ' ')) hblanks
    rw [List.takeWhile_append_dropWhile] at hsplit
    rw [if_pos hs, splitWords_blank, hsplit]
  · rw [if_neg hs]

end Layout

/-- The lengths fit into the variables of the functions. -/
def Short (f n : CStr) : Prop := f.length + n.length + 12 < 2 ^ 31

section Add

variable {f n : CStr} {ws : List CStr}

/-- A word that the search does not find is appended. -/
theorem adds_of_not_found (hf : Lists f ws) (hne : n ≠ []) (hblank : ' ' ∉ n)
    (hzero : n.head? ≠ some '0') (hshort : Short f n) (hno : ¬ n <:+: f) : Adds f n ws := by
  have hlen := hf.length_lt
  unfold Short at hshort
  obtain ⟨gap, tail, hlayout, hgap, htail, hws⟩ := hf.layout
  have hstrtoul : strtoul f = (ws.length, tail) := by
    rw [hlayout, strtoul_blanks hgap (by unfold ulongMax; omega) htail]
  have hc : toInt (toInt ws.length + 1) = ((ws.length + 1 : ℕ) : ℤ) := by
    rw [toInt_of_isInt (isInt_natCast (by omega))]
    exact toInt_of_isInt (isInt_natCast (n := ws.length + 1) (by omega))
  have hsub : hasSubstr f n = false := hasSubstr_eq_false_iff.mpr hno
  have hmem : n ∉ ws := fun hmem => hno (hf.infix_of_mem hmem)
  have hdigits := List.length_pos_iff.mpr (@Nat.toDigits_ne_nil ws.length 10)
  have hparse : ¬ (tail.length = f.length ∨ tail ≠ [] ∧ tail.head? ≠ some ' ') := by
    rintro (hlen' | ⟨htailne, hhead⟩)
    · rw [hlayout, List.length_append, List.length_append] at hlen'
      omega
    · obtain ⟨c, t, rfl⟩ := List.exists_cons_of_ne_nil htailne
      exact hhead (congrArg some (htail c rfl))
  generalize hsq : (if tail.head? = some ' ' then ' ' :: tail.dropWhile (· = ' ') else tail) = e
  have hwords : splitWords e = ws := by
    rw [← hsq, splitWords_squeeze, hws]
  have hesize : e.length ≤ tail.length := by
    rw [← hsq]
    cases tail with
    | nil => exact Nat.le_refl _
    | cons c t =>
      obtain rfl : c = ' ' := htail c rfl
      rw [List.head?_cons, if_pos rfl, List.dropWhile_cons_of_pos (by decide),
        List.length_cons, List.length_cons]
      exact Nat.succ_le_succ (List.dropWhile_suffix _).length_le
  have hehead : ∀ c ∈ (e ++ ' ' :: n).head?, c = ' ' := by
    rw [← hsq]
    intro c hc
    cases tail with
    | nil => simpa using hc.symm
    | cons d t =>
      obtain rfl : d = ' ' := htail d rfl
      simpa using hc.symm
  have htake : (itoa ((ws.length + 1 : ℕ) : ℤ) ++ e ++ ' ' :: n).length ≤
      tail.length + n.length + 1 + (Nat.toDigits 10 (ws.length + 1)).length := by
    rw [itoa_natCast, List.length_append, List.length_append, List.length_cons]
    omega
  have hlength : (ws ++ [n]).length = ws.length + 1 := List.length_append
  refine ⟨Nat.toDigits 10 (ws ++ [n]).length ++ (e ++ ' ' :: n), ?_, ?_, ?_⟩
  · unfold addFeature
    rw [if_neg hzero, if_neg hblank]
    simp only [hsub, hstrtoul, if_neg hparse, hc, hsq, Int.toNat_natCast, Bool.false_eq_true,
      if_false]
    rw [List.take_of_length_le htake, itoa_natCast, hlength, List.append_assoc]
  · rw [if_neg hmem]
    apply lists_append hehead
    rw [splitWords_append_cons, hwords, splitWords_word hne hblank]
  · intro size hsize
    unfold addFeatureBuffer at hsize
    rw [hsub, hstrtoul] at hsize
    simp only [Bool.false_eq_true, if_false, hc, Int.toNat_natCast, Option.mem_some_iff] at hsize
    rw [← hsize, ← List.append_assoc, ← itoa_natCast, hlength]
    exact Nat.lt_succ_of_le htake

/-- A word is added exactly if it is there, or if no word and not the number contains it. -/
theorem adds_iff (hf : Lists f ws) (hne : n ≠ []) (hblank : ' ' ∉ n)
    (hzero : n.head? ≠ some '0') (hshort : Short f n) :
    Adds f n ws ↔ n ∈ ws ∨ ¬ n <:+: f := by
  constructor
  · rintro ⟨f', hadd, hlists, -⟩
    by_contra hcond
    rw [not_or, not_not] at hcond
    obtain ⟨hmem, hfound⟩ := hcond
    rw [if_neg hmem] at hlists
    unfold addFeature at hadd
    simp only [if_neg hzero, if_neg hblank, hasSubstr_iff.mpr hfound, if_true] at hadd
    rw [← Option.some.inj (Prod.mk.inj hadd).1] at hlists
    have hlen := congrArg List.length (hf.words_eq hlists)
    rw [List.length_append] at hlen
    simp at hlen
  · intro hcond
    by_cases hfound : n <:+: f
    · have hmem : n ∈ ws := hcond.resolve_right fun hno => hno hfound
      refine ⟨f, ?_, by rwa [if_pos hmem], ?_⟩
      · unfold addFeature
        simp only [if_neg hzero, if_neg hblank, hasSubstr_iff.mpr hfound, if_true]
      · intro size hsize
        rw [addFeatureBuffer, if_pos (hasSubstr_iff.mpr hfound)] at hsize
        cases hsize
    · exact adds_of_not_found hf hne hblank hzero hshort hfound

end Add

end MultipathTools.Features
