import MultipathTools.Features.Editing

/-! When `remove_feature` takes out the word that it is called with. -/
namespace MultipathTools.Features

/-- The digits of a number do not begin with those of one that is near to it. -/
theorem toDigits_prefix {a b : ℕ} (h : Nat.toDigits 10 a <+: Nat.toDigits 10 b) :
    a = b ∨ 10 * a ≤ b := by
  obtain ⟨y, hy⟩ := h
  have hvalue := congrArg (Nat.ofDigitChars 10 · 0) hy
  rw [Nat.ofDigitChars_append, Nat.ofDigitChars_ten_toDigits, Nat.ofDigitChars_ten_toDigits,
    Nat.ofDigitChars_eq_ofDigitChars_zero] at hvalue
  cases y with
  | nil =>
    left
    simpa using hvalue
  | cons c y =>
    right
    have hpow : 10 ≤ 10 ^ (c :: y).length := Nat.le_self_pow (Nat.succ_ne_zero _) 10
    calc 10 * a ≤ 10 ^ (c :: y).length * a := Nat.mul_le_mul_right a hpow
      _ ≤ b := by omega

theorem length_toDigits_mono {a b : ℕ} (h : a ≤ b) :
    (Nat.toDigits 10 a).length ≤ (Nat.toDigits 10 b).length := by
  have hpos : 0 < (Nat.toDigits 10 b).length := Nat.length_toDigits_pos
  rw [Nat.length_toDigits_le_iff (by decide) hpos]
  exact lt_of_le_of_lt h ((Nat.length_toDigits_le_iff (by decide) hpos).mp (Nat.le_refl _))

theorem blank_not_mem_toDigits (n : ℕ) : ' ' ∉ Nat.toDigits 10 n := fun hmem =>
  absurd (isDigit_toDigits hmem) (by decide)

/-- A string that begins with a number lists no other number of words that is near to it. -/
theorem Lists.of_number {t : CStr} {a : ℕ} {vs : List CStr}
    (h : Lists (Nat.toDigits 10 a ++ t) vs) : a = vs.length ∨ 10 * a ≤ vs.length := by
  obtain ⟨y, r, rfl, hy, hr⟩ := exists_head_split t
  apply toDigits_prefix
  have hword : ' ' ∉ Nat.toDigits 10 a ++ y := by
    rw [List.mem_append, not_or]
    exact ⟨blank_not_mem_toDigits a, hy⟩
  rw [Lists, ← List.append_assoc, splitWords_append_of_head hr,
    splitWords_word (List.append_ne_nil_of_left_ne_nil Nat.toDigits_ne_nil y) hword] at h
  rw [← (List.cons.inj h).1]
  exact List.prefix_append _ _

/-- The text before the first occurrence contains none. -/
theorem strstr_before {n s a b : CStr} (hne : n ≠ []) (h : strstr n s = some (a, b)) :
    ¬ n <:+: a := by
  rintro ⟨x, y, rfl⟩
  have hpos : (strstr n s).map (·.1.length) = some (x ++ n ++ y).length := by
    rw [h]
    rfl
  obtain ⟨rfl, -⟩ := strstr_append h
  have hlen := List.length_pos_iff.mpr hne
  apply (strstr_position_iff.mp hpos).2 x.length
  · rw [List.length_append, List.length_append]
    omega
  · rw [List.append_assoc, List.append_assoc, List.drop_left]
    exact List.prefix_append _ _

section Copy

variable {r y rest before s : CStr} {last : Char}

/-- The words behind a removed word are copied. -/
theorem copyRest_of_head (hr : ∀ c ∈ r.head?, c = ' ') :
    splitWords (copyRest last r) = splitWords r ∧ (∀ c ∈ (copyRest last r).head?, c = ' ') ∧
      (copyRest last r).length ≤ r.length ∧ inked (copyRest last r) = inked r := by
  generalize hblanks : r.takeWhile (· = ' ') = gap
  generalize hrest : r.dropWhile (· = ' ') = d
  have hgap : ∀ c ∈ gap, c = ' ' := by
    rw [← hblanks]
    intro c hc
    simpa using List.mem_takeWhile_imp hc
  have hsplit : r = gap ++ d := by
    rw [← hblanks, ← hrest, List.takeWhile_append_dropWhile]
  have hwords : splitWords r = splitWords d := by
    rw [hsplit, splitWords_blanks hgap]
  have hinked : inked r = inked d := by
    rw [hsplit, inked_append, inked_blanks hgap, Nat.zero_add]
  unfold copyRest
  rw [hrest]
  cases d with
  | nil =>
    dsimp only
    refine ⟨hwords.symm, by simp, Nat.zero_le _, hinked.symm⟩
  | cons c d =>
    -- a blank was skipped, since the rest does not begin with a word
    cases r with
    | nil => simp at hrest
    | cons e r =>
      obtain rfl : e = ' ' := hr e rfl
      dsimp only
      rw [List.head?_cons, if_pos rfl]
      refine ⟨by rw [splitWords_blank, hwords], by simp, ?_, ?_⟩
      · rw [List.dropWhile_cons_of_pos (by decide)] at hrest
        rw [← hrest]
        exact Nat.succ_le_succ (List.dropWhile_suffix _).length_le
      · rw [hinked]
        rfl

/-- A rest that goes on with a word gets a character more. -/
theorem copyRest_of_word {c : Char} (hc : c ≠ ' ') (hlast : last ≠ ' ') :
    inked (copyRest last (c :: r)) = inked (c :: r) + 1 := by
  have hdrop : (c :: r).dropWhile (· = ' ') = c :: r :=
    List.dropWhile_cons_of_neg (by simpa using hc)
  have hhead : ¬ (c :: r).head? = some ' ' := fun h => hc (Option.some.inj h)
  unfold copyRest
  rw [hdrop]
  dsimp only
  rw [if_neg hhead]
  exact List.countP_cons_of_pos (by simpa using hlast)

theorem inked_copyRest (hlast : last ≠ ' ') : inked rest ≤ inked (copyRest last rest) := by
  cases rest with
  | nil => exact Nat.zero_le _
  | cons c r =>
    by_cases hc : c = ' '
    · have hhead : ∀ d ∈ (c :: r).head?, d = ' ' := fun d hd => by
        rw [← hc]
        exact (Option.some.inj hd).symm
      exact Nat.le_of_eq (copyRest_of_head hhead).2.2.2.symm
    · rw [copyRest_of_word hc hlast]
      exact Nat.le_succ _

end Copy

theorem blanks_of_splitWords {a : CStr} (h : splitWords a = []) : ∀ c ∈ a, c = ' ' := by
  have hinked := inked_eq_sum a
  rw [h] at hinked
  intro c hc
  simpa using List.countP_eq_zero.mp hinked c hc

/-- Where `remove_feature` begins to copy: at the last of the first blanks. -/
structure Cut (f : CStr) (ws : List CStr) (p q : CStr) : Prop where
  split : f = p ++ ' ' :: q
  length : p.length = (f.takeWhile (· ≠ ' ')).length +
    ((f.dropWhile (· ≠ ' ')).takeWhile (· = ' ')).length - 1
  next : ∀ c ∈ q.head?, c ≠ ' '
  number : f.head? ≠ some ' ' →
    ∃ gap, p = Nat.toDigits 10 ws.length ++ gap ∧ ∀ c ∈ gap, c = ' '
  gap : f.head? = some ' ' → ∀ c ∈ p, c = ' '

theorem takeWhile_blanks {gap q : CStr} (hgap : ∀ c ∈ gap, c = ' ') (hq : ∀ c ∈ q.head?, c ≠ ' ') :
    (gap ++ q).takeWhile (· = ' ') = gap := by
  rw [List.takeWhile_append_of_pos (by simpa using hgap)]
  cases q with
  | nil => rw [List.takeWhile_nil, List.append_nil]
  | cons c q =>
    rw [List.takeWhile_cons_of_neg (by simpa using hq c rfl), List.append_nil]

/-- Blanks that are not none end with one. -/
theorem exists_concat_blank {gap : CStr} (hgap : ∀ c ∈ gap, c = ' ') (hne : gap ≠ []) :
    ∃ a, gap = a ++ [' '] ∧ ∀ c ∈ a, c = ' ' := by
  have hlast := List.dropLast_concat_getLast hne
  rw [hgap _ (List.getLast_mem hne)] at hlast
  exact ⟨gap.dropLast, hlast.symm, fun c hc => hgap c (List.dropLast_subset gap hc)⟩

theorem Lists.exists_cut {f : CStr} {ws : List CStr} (hf : Lists f ws) (hws : ws ≠ []) :
    ∃ p q, Cut f ws p q := by
  obtain ⟨gap, tail, hlayout, hgap, htail, hwords⟩ := hf.layout
  have hdigit : ∀ c ∈ (Nat.toDigits 10 ws.length ++ tail).head?, c ≠ ' ' := by
    intro c hc
    obtain ⟨d, ds, hd⟩ := List.exists_cons_of_ne_nil (@Nat.toDigits_ne_nil ws.length 10)
    rw [hd] at hc
    obtain rfl : d = c := Option.some.inj hc
    rintro rfl
    exact blank_not_mem_toDigits ws.length (hd ▸ List.mem_cons_self)
  by_cases hne : gap = []
  · subst hne
    rw [List.nil_append] at hlayout
    obtain ⟨ht, hd⟩ := @takeWhile_toDigits ws.length tail htail
    generalize hblanks : tail.takeWhile (· = ' ') = blanks
    generalize hq : tail.dropWhile (· = ' ') = q
    have hsplit : tail = blanks ++ q := by
      rw [← hblanks, ← hq, List.takeWhile_append_dropWhile]
    have hall : ∀ c ∈ blanks, c = ' ' := by
      rw [← hblanks]
      intro c hc
      simpa using List.mem_takeWhile_imp hc
    have hnonempty : blanks ≠ [] := by
      rintro rfl
      cases tail with
      | nil => exact hws (hwords.symm.trans splitWords_nil)
      | cons c t =>
        obtain rfl : c = ' ' := htail c rfl
        rw [List.takeWhile_cons_of_pos (by decide)] at hblanks
        cases hblanks
    obtain ⟨a, rfl, ha⟩ := exists_concat_blank hall hnonempty
    refine ⟨Nat.toDigits 10 ws.length ++ a, q, ?_, ?_, ?_, fun _ => ⟨a, rfl, ha⟩, ?_⟩
    · rw [hlayout, hsplit]
      simp
    · rw [hlayout, ht, hd, hblanks]
      simp
    · rw [← hq]
      intro c hc
      have hnot := List.head?_dropWhile_not (· = ' ') tail
      rw [Option.mem_def.mp hc] at hnot
      simpa using hnot
    · intro hhead
      rw [hlayout] at hhead
      exact absurd rfl (hdigit ' ' hhead)
  · obtain ⟨a, rfl, ha⟩ := exists_concat_blank hgap hne
    have hhead : f.head? = some ' ' := by
      rw [hlayout, List.head?_append_of_ne_nil _ hne]
      cases a with
      | nil => rfl
      | cons c a => exact congrArg some (ha c List.mem_cons_self)
    refine ⟨a, Nat.toDigits 10 ws.length ++ tail, ?_, ?_, hdigit, ?_, fun _ => ha⟩
    · rw [hlayout, List.append_assoc]
      rfl
    · have htake : f.takeWhile (· ≠ ' ') = [] ∧ f.dropWhile (· ≠ ' ') = f := by
        obtain ⟨t, ht⟩ := List.head?_eq_some_iff.mp hhead
        rw [ht]
        exact ⟨List.takeWhile_cons_of_neg (by decide), List.dropWhile_cons_of_neg (by decide)⟩
      rw [htake.1, htake.2, hlayout, takeWhile_blanks hgap hdigit]
      simp
    · exact fun hnot => absurd hhead hnot

/-- The blanks at the end of a text. -/
theorem exists_rdropWhile (s : CStr) :
    ∃ gap, s = s.rdropWhile (· = ' ') ++ gap ∧ ∀ c ∈ gap, c = ' ' := by
  refine ⟨s.rtakeWhile (· = ' '), List.rdropWhile_append_rtakeWhile.symm, fun c hc => ?_⟩
  simpa using List.mem_rtakeWhile_imp hc

section Found

variable {f n before m rest p q : CStr} {ws : List CStr}

theorem Lists.ne_nil (hf : Lists f ws) (hne : n ≠ []) (hblank : ' ' ∉ n)
    (hzero : n.head? ≠ some '0') (hfound : n <:+: f) : ws ≠ [] := by
  rintro rfl
  obtain ⟨v, hv, hnv⟩ := (infix_iff_splitWords hne hblank).mp hfound
  have hdigit : v = ['0'] := by
    rw [hf] at hv
    exact List.mem_singleton.mp hv
  rw [hdigit] at hnv
  obtain ⟨c, n, rfl⟩ := List.exists_cons_of_ne_nil hne
  exact hzero (congrArg some (List.mem_singleton.mp (hnv.subset List.mem_cons_self)))

theorem Lists.strtoul_eq (hf : Lists f ws) (hlen : ws.length < 2 ^ 31) :
    ∃ tail, strtoul f = (ws.length, tail) ∧ tail.length < f.length := by
  obtain ⟨gap, tail, hlayout, hgap, htail, -⟩ := hf.layout
  have hdigits := List.length_pos_iff.mpr (@Nat.toDigits_ne_nil ws.length 10)
  refine ⟨tail, ?_, ?_⟩
  · rw [hlayout, strtoul_blanks hgap (by unfold ulongMax; omega) htail]
  · rw [hlayout, List.length_append, List.length_append]
    omega

theorem dropWhile_of_not_mem (hblank : ' ' ∉ n) : n.dropWhile (· = ' ') = n := by
  cases n with
  | nil => rfl
  | cons c n =>
    apply List.dropWhile_cons_of_neg
    rw [decide_eq_true_eq]
    rintro rfl
    exact hblank List.mem_cons_self

theorem natCast_pred {k : ℕ} (hk : k ≠ 0) : (k : ℤ) - 1 - 0 = ((k - 1 : ℕ) : ℤ) := by
  omega

/-- The only word is removed. -/
theorem removeFeature_single (hf : Lists f ws) (hlen : ws.length = 1) (hne : n ≠ [])
    (hblank : ' ' ∉ n) (hfound : n <:+: f) : removeFeature (some f) n = (some ['0'], 0) := by
  obtain ⟨tail, hstrtoul, htail⟩ := hf.strtoul_eq (by rw [hlen]; decide)
  unfold removeFeature
  simp only [if_neg hne, hasSubstr_iff.mpr hfound, hstrtoul, dropWhile_of_not_mem hblank,
    countBoundaries_eq_zero hblank, hlen, if_neg htail.ne]
  rfl

/-- One of several words, or a part of one, is removed. -/
theorem removeFeature_several (hf : Lists f ws) (hlen : ws.length < 2 ^ 31)
    (hone : 1 < ws.length) (hne : n ≠ []) (hblank : ' ' ∉ n) (hcut : Cut f ws p q)
    (hstr : strstr n f = some (before, m)) :
    removeFeature (some f) n =
      (some (Nat.toDigits 10 (ws.length - 1) ++ (copyBefore f before ++
        copyRest (n.getLast?.getD ' ') (m.drop n.length))), 0) := by
  obtain ⟨tail, hstrtoul, htail⟩ := hf.strtoul_eq hlen
  have hsub : hasSubstr f n = true := by
    rw [hasSubstr, hstr]
    rfl
  have hmem : ' ' ∈ f := by
    rw [hcut.split]
    exact List.mem_append_right _ List.mem_cons_self
  have hcount : ¬ ((ws.length - 1 : ℕ) : ℤ) = 0 := by
    omega
  unfold removeFeature
  simp only [if_neg hne, hsub, hstrtoul, dropWhile_of_not_mem hblank,
    countBoundaries_eq_zero hblank, if_neg htail.ne, toInt_of_isInt (isInt_natCast hlen),
    natCast_pred (by omega : ws.length ≠ 0), if_neg hcount, hstr, itoa_natCast, List.append_assoc]
  simp [hmem]

/-- Either everything from the last of the first blanks on is copied, since the match is in
front of it, or the text from there up to the blanks before the match. -/
theorem copyBefore_cases (hcut : Cut f ws p q) (hf : f = before ++ m) :
    ((before.rdropWhile (· = ' ')).length < p.length ∧ copyBefore f before = ' ' :: q) ∨
      before.rdropWhile (· = ' ') = p ++ copyBefore f before ∧
        ∀ c ∈ (copyBefore f before).head?, c = ' ' := by
  unfold copyBefore
  dsimp only
  rw [← hcut.length]
  have hdrop : f.drop p.length = ' ' :: q := by
    rw [hcut.split, List.drop_left]
  by_cases hle : p.length ≤ (before.rdropWhile (· = ' ')).length
  · right
    have hprefix : before.rdropWhile (· = ' ') <+: p ++ ' ' :: q := by
      rw [← hcut.split, hf]
      exact (List.rdropWhile_prefix _ _).trans (List.prefix_append _ _)
    obtain ⟨e, he⟩ := List.prefix_of_prefix_length_le (List.prefix_append p _) hprefix hle
    rw [if_pos hle, hdrop, ← he] 
    rw [← he, List.prefix_append_right_inj] at hprefix
    have htake : (' ' :: q).take ((p ++ e).length - p.length) = e := by
      rw [List.length_append, Nat.add_sub_cancel_left]
      exact (List.prefix_iff_eq_take.mp hprefix).symm
    rw [htake]
    constructor
    · rfl
    · intro c hc
      obtain ⟨t, ht⟩ := hprefix
      cases e with
      | nil => cases hc
      | cons d e =>
        obtain rfl : d = c := Option.some.inj hc
        exact (List.cons.inj ht).1
  · left
    rw [if_neg hle, hdrop]
    exact ⟨not_le.mp hle, rfl⟩

end Found

/-- The first place where the search finds the word is the word itself, with one blank after the
number if it is the first word, and no blank is before the number. -/
structure Removable (f n : CStr) (ws : List CStr) : Prop where
  gap : f.head? ≠ some ' '
  once : ws.count n = 1
  number : ¬ n <:+: Nat.toDigits 10 ws.length
  before : ∀ w ∈ ws.takeWhile (· ≠ n), ¬ n <:+: w
  first : ws.head? = some n → Nat.toDigits 10 ws.length ++ ' ' :: n <+: f

section Count

variable (n : CStr) (ws : List CStr)

theorem length_filter_add_count : (ws.filter (· ≠ n)).length + ws.count n = ws.length := by
  induction ws with
  | nil => rfl
  | cons w ws ih =>
    by_cases hw : w = n
    · rw [hw, List.filter_cons_of_neg (by simp), List.count_cons_self, List.length_cons]
      omega
    · rw [List.filter_cons_of_pos (by simpa using hw), List.count_cons_of_ne hw,
        List.length_cons, List.length_cons]
      omega

theorem sum_filter_add_count :
    ((ws.filter (· ≠ n)).map List.length).sum + ws.count n * n.length =
      (ws.map List.length).sum := by
  induction ws with
  | nil => simp
  | cons w ws ih =>
    by_cases hw : w = n
    · rw [hw, List.filter_cons_of_neg (by simp), List.count_cons_self, List.map_cons,
        List.sum_cons, Nat.succ_mul]
      omega
    · rw [List.filter_cons_of_pos (by simpa using hw), List.count_cons_of_ne hw, List.map_cons,
        List.map_cons, List.sum_cons, List.sum_cons]
      omega

end Count

theorem filter_ne_append {n : CStr} {a b : List CStr} (ha : n ∉ a) (hb : n ∉ b) :
    (a ++ n :: b).filter (· ≠ n) = a ++ b := by
  have hkeep {l : List CStr} (hl : n ∉ l) : l.filter (· ≠ n) = l := by
    apply List.filter_eq_self.mpr
    intro w hw
    rw [decide_eq_true_eq]
    rintro rfl
    exact hl hw
  rw [List.filter_append, List.filter_cons_of_neg (by simp), hkeep ha, hkeep hb]

/-- Two texts, the words of which begin with a blank each. -/
theorem head_append {a b : CStr} (ha : ∀ c ∈ a.head?, c = ' ') (hb : ∀ c ∈ b.head?, c = ' ') :
    ∀ c ∈ (a ++ b).head?, c = ' ' := by
  cases a with
  | nil => exact hb
  | cons d a => exact ha

theorem Lists.inked_eq {f : CStr} {ws : List CStr} (hf : Lists f ws) :
    inked f = (Nat.toDigits 10 ws.length).length + (ws.map List.length).sum := by
  rw [inked_eq_sum, hf, List.map_cons, List.sum_cons]

section Wrong

variable {f n before rest p q : CStr} {ws : List CStr}

theorem Cut.inked_le (hcut : Cut f ws p q) :
    inked p ≤ (Nat.toDigits 10 ws.length).length ∧
      (inked p = (Nat.toDigits 10 ws.length).length → f.head? ≠ some ' ') := by
  by_cases hhead : f.head? = some ' '
  · have hpos : 0 < (Nat.toDigits 10 ws.length).length := Nat.length_toDigits_pos
    rw [inked_blanks (hcut.gap hhead)]
    exact ⟨Nat.zero_le _, fun hzero => absurd hzero hpos.ne⟩
  · obtain ⟨gap, rfl, hgap⟩ := hcut.number hhead
    rw [inked_append, inked_blanks hgap, inked_word (blank_not_mem_toDigits _)]
    exact ⟨Nat.le_refl _, fun _ => hhead⟩

theorem Cut.splitWords_eq (hcut : Cut f ws p q) (hhead : f.head? ≠ some ' ') :
    splitWords p = [Nat.toDigits 10 ws.length] := by
  obtain ⟨gap, rfl, hgap⟩ := hcut.number hhead
  rw [splitWords_append_blanks hgap,
    splitWords_word Nat.toDigits_ne_nil (blank_not_mem_toDigits _)]

/-- What is left has all characters but those of the word only if a whole word is left out
before the rest. -/
theorem head_of_inked (hf : Lists f ws) (hcut : Cut f ws p q) (hsplit : f = before ++ (n ++ rest))
    (hne : n ≠ []) (hblank : ' ' ∉ n) {k : ℕ}
    (hink : k + n.length = (ws.map List.length).sum)
    (hcopy : inked (copyBefore f before) + inked (copyRest (n.getLast?.getD ' ') rest) = k) :
    (before.rdropWhile (· = ' ') = p ++ copyBefore f before ∧
      ∀ c ∈ (copyBefore f before).head?, c = ' ') ∧ f.head? ≠ some ' ' ∧
      ∀ c ∈ rest.head?, c = ' ' := by
  have hall := hf.inked_eq
  obtain ⟨hple, hpeq⟩ := hcut.inked_le
  have hnpos := List.length_pos_iff.mpr hne
  have hlast : n.getLast?.getD ' ' ≠ ' ' := by
    rw [List.getLast?_eq_some_getLast hne]
    intro hlast
    exact hblank (hlast ▸ List.getLast_mem hne)
  rcases copyBefore_cases hcut hsplit with ⟨-, hcopied⟩ | hcopied
  · rw [hcopied] at hcopy
    rw [hcut.split, inked_append] at hall
    omega
  · have hbefore : inked before = inked p + inked (copyBefore f before) := by
      obtain ⟨gap, hgap, hblanks⟩ := exists_rdropWhile before
      rw [hgap, inked_append, inked_blanks hblanks, Nat.add_zero, ← hgap, hcopied.1, inked_append]
    have hcut' : inked f = inked p + inked (copyBefore f before) + (n.length + inked rest) := by
      rw [← hbefore, ← inked_word hblank, ← inked_append, ← inked_append, ← hsplit]
    have hrest := @inked_copyRest rest _ hlast
    refine ⟨hcopied, hpeq (by omega), ?_⟩
    intro c hc
    by_contra hne'
    cases rest with
    | nil => cases hc
    | cons d r =>
      obtain rfl : d = c := Option.some.inj hc
      have hmore := @copyRest_of_word r _ d hne' hlast
      omega

/-- The words of the copied text, if the text before the match is copied up to its blanks. -/
theorem splitWords_before (hcut : Cut f ws p q) (hhead : f.head? ≠ some ' ')
    (hcopied : before.rdropWhile (· = ' ') = p ++ copyBefore f before)
    (hblank : ∀ c ∈ (copyBefore f before).head?, c = ' ') :
    splitWords before = Nat.toDigits 10 ws.length :: splitWords (copyBefore f before) := by
  obtain ⟨gap, hgap, hblanks⟩ := exists_rdropWhile before
  rw [hcopied] at hgap
  generalize copyBefore f before = copied at hgap hblank
  rw [hgap, splitWords_append_blanks hblanks, splitWords_append_of_head hblank,
    hcut.splitWords_eq hhead]
  rfl

/-- If words are cut out in one piece, the text before ends with a blank. -/
theorem getLast_of_length (hf : Lists f ws) (hcut : Cut f ws p q)
    (hsplit : f = before ++ (n ++ rest)) (hne : n ≠ []) (hblank : ' ' ∉ n)
    (hhead : f.head? ≠ some ' ')
    (hcopied : before.rdropWhile (· = ' ') = p ++ copyBefore f before)
    (hcopy : ∀ c ∈ (copyBefore f before).head?, c = ' ') (hrest : ∀ c ∈ rest.head?, c = ' ')
    (hlen : (splitWords (copyBefore f before)).length + (splitWords rest).length + 1 =
      ws.length) : ∀ c ∈ before.getLast?, c = ' ' := by
  intro c hc
  by_contra hlast
  have hbefore : before.rdropWhile (· = ' ') = before := by
    rw [List.rdropWhile_eq_self_iff]
    intro hbne
    rw [List.getLast?_eq_some_getLast hbne] at hc
    obtain rfl := Option.some.inj hc
    simpa using hlast
  rw [hbefore] at hcopied
  generalize copyBefore f before = copied at hcopied hcopy hlen
  subst hcopied
  have hcne : copied ≠ [] := by
    rintro rfl
    rw [List.append_nil, hcut.split] at hsplit
    obtain ⟨d, n, rfl⟩ := List.exists_cons_of_ne_nil hne
    have hd := (List.cons.inj (List.append_cancel_left hsplit)).1
    exact hblank (hd ▸ List.mem_cons_self)
  have hglue : (splitWords (copied ++ n)).length = (splitWords copied).length := by
    apply length_splitWords_glue hcne _ hblank
    intro d hd
    rw [List.getLast?_append_of_ne_nil _ hcne] at hc
    rw [Option.some.inj (hd.symm.trans hc)]
    exact hlast
  have hmid : ∀ d ∈ (copied ++ n ++ rest).head?, d = ' ' := by
    intro d hd
    rw [List.append_assoc, List.head?_append_of_ne_nil _ hcne] at hd
    exact hcopy d hd
  have hwords : splitWords f = splitWords p ++ (splitWords (copied ++ n) ++ splitWords rest) := by
    rw [hsplit, ← splitWords_append_of_head hrest, ← splitWords_append_of_head hmid]
    simp only [List.append_assoc]
  rw [hf, hcut.splitWords_eq hhead] at hwords
  have hcount := congrArg List.length hwords
  rw [List.length_cons, List.length_append, List.length_append, hglue, List.length_singleton] at hcount
  omega

/-- The only text before the first word that is left without its blanks is the number. -/
theorem before_first (hcut : Cut f ws p q) (hsplit : f = before ++ (n ++ rest)) (hne : n ≠ [])
    (hblank : ' ' ∉ n) (hhead : f.head? ≠ some ' ')
    (hcopied : before.rdropWhile (· = ' ') = p ++ copyBefore f before)
    (hnone : splitWords (copyBefore f before) = []) :
    Nat.toDigits 10 ws.length ++ ' ' :: n <+: f := by
  obtain ⟨gap, hp, hgap⟩ := hcut.number hhead
  obtain ⟨gap', hgap', hblanks⟩ := exists_rdropWhile before
  have hcopy := blanks_of_splitWords hnone
  have hpc : gap ++ copyBefore f before = [] := by
    by_contra hgne
    have hbne : before.rdropWhile (· = ' ') ≠ [] := by
      rw [hcopied, hp, List.append_assoc]
      exact List.append_ne_nil_of_right_ne_nil _ hgne
    have hlast := List.rdropWhile_last_not _ before hbne
    apply hlast
    rw [decide_eq_true_eq]
    have hmem : (before.rdropWhile (· = ' ')).getLast hbne ∈ gap ++ copyBefore f before := by
      simp only [hcopied, hp, List.append_assoc]
      rw [List.getLast_append_of_ne_nil _ hgne]
      exact List.getLast_mem hgne
    rcases List.mem_append.mp hmem with h | h
    · exact hgap _ h
    · exact hcopy _ h
  obtain ⟨rfl, hcnil⟩ := List.append_eq_nil_iff.mp hpc
  rw [List.append_nil] at hp
  rw [hcnil, List.append_nil] at hcopied
  rw [hcopied] at hgap'
  -- the blanks between the number and the match are one
  have hq : ' ' :: q = gap' ++ (n ++ rest) := by
    have h := hcut.split.symm.trans hsplit
    rw [hgap', List.append_assoc] at h
    exact List.append_cancel_left h
  cases gap' with
  | nil =>
    obtain ⟨d, n, rfl⟩ := List.exists_cons_of_ne_nil hne
    exact absurd ((List.cons.inj hq).1 ▸ List.mem_cons_self) hblank
  | cons d gap' =>
    obtain ⟨rfl, hnext⟩ := List.cons.inj hq
    cases gap' with
    | nil =>
      refine ⟨rest, ?_⟩
      rw [hcut.split, hnext, hp]
      simp
    | cons e gap' =>
      have he : e = ' ' := hblanks e (by simp)
      exact absurd he (hcut.next e (by rw [hnext]; rfl))

/-- If the word is gone, it was found where it stands. -/
theorem removable_of_removes (hf : Lists f ws) (hlen : ws.length < 2 ^ 31) (hone : 1 < ws.length)
    (hne : n ≠ []) (hblank : ' ' ∉ n) (hfound : n <:+: f) (hremoves : Removes f n ws) :
    Removable f n ws := by
  obtain ⟨p, q, hcut⟩ := hf.exists_cut (by rintro rfl; simp at hone)
  obtain ⟨⟨before, m⟩, hstr⟩ := Option.isSome_iff_exists.mp (hasSubstr_iff.mpr hfound)
  obtain ⟨hsplit, rest, rfl⟩ := strstr_append hstr
  have hno := strstr_before hne hstr
  obtain ⟨f', hremove, hlists, -⟩ := hremoves
  rw [removeFeature_several hf hlen hone hne hblank hcut hstr, List.drop_left] at hremove
  rw [← Option.some.inj (Prod.mk.inj hremove).1] at hlists
  have hfilter := length_filter_add_count n ws
  have hsum := sum_filter_add_count n ws
  have hcount : (ws.filter (· ≠ n)).length = ws.length - 1 := by
    rcases hlists.of_number with h | h
    · exact h.symm
    · omega
  have honce : ws.count n = 1 := by omega
  rw [honce, Nat.one_mul] at hsum
  have hinked := hlists.inked_eq
  rw [inked_append, inked_append, inked_word (blank_not_mem_toDigits _), hcount] at hinked
  obtain ⟨⟨hcopied, hcopy⟩, hhead, hrest⟩ := head_of_inked hf hcut hsplit hne hblank hsum
    (by omega)
  have hcopyrest := @copyRest_of_head rest (n.getLast?.getD ' ') hrest
  have hwords : ws.filter (· ≠ n) = splitWords (copyBefore f before) ++ splitWords rest := by
    rw [Lists, splitWords_append_of_head (head_append hcopy hcopyrest.2.1),
      splitWords_append_of_head hcopyrest.2.1,
      splitWords_word Nat.toDigits_ne_nil (blank_not_mem_toDigits _), hcopyrest.1] at hlists
    exact (List.cons.inj hlists).2.symm
  have hbound : (splitWords (copyBefore f before)).length + (splitWords rest).length + 1 =
      ws.length := by
    rw [← List.length_append, ← hwords, hcount]
    omega
  have hlast := getLast_of_length hf hcut hsplit hne hblank hhead hcopied hcopy hrest hbound
  have hbefore := splitWords_before hcut hhead hcopied hcopy
  have hws : ws = splitWords (copyBefore f before) ++ n :: splitWords rest := by
    have hall := hf
    rw [Lists, hsplit, splitWords_append_of_getLast hlast, splitWords_append_of_head hrest,
      splitWords_word hne hblank, hbefore] at hall
    exact (List.cons.inj hall).2.symm
  have hmem : ∀ w ∈ splitWords (copyBefore f before), ¬ n <:+: w := by
    intro w hw hnw
    apply hno
    exact hnw.trans (infix_of_mem_splitWords (by rw [hbefore]; exact List.mem_cons_of_mem _ hw))
  have hne' : ∀ w ∈ splitWords (copyBefore f before), decide (w ≠ n) = true := by
    intro w hw
    rw [decide_eq_true_eq]
    rintro rfl
    exact hmem w hw List.infix_rfl
  refine ⟨hhead, honce, ?_, ?_, ?_⟩
  · intro hdigits
    apply hno
    exact hdigits.trans (infix_of_mem_splitWords (by rw [hbefore]; exact List.mem_cons_self))
  · intro w hw
    rw [hws, List.takeWhile_append_of_pos hne', List.takeWhile_cons_of_neg (by simp),
      List.append_nil] at hw
    exact hmem w hw
  · intro hfirst
    apply before_first hcut hsplit hne hblank hhead hcopied
    cases hu : splitWords (copyBefore f before) with
    | nil => rfl
    | cons w u =>
      rw [hws, hu] at hfirst
      have hwn : w = n := Option.some.inj hfirst
      exact absurd List.infix_rfl (hwn ▸ hmem w (by rw [hu]; exact List.mem_cons_self))

end Wrong

section Right

variable {f n before rest p q : CStr} {ws : List CStr}

/-- Where the word stands, with the words before and behind. -/
theorem Removable.exists_split (hf : Lists f ws) (h : Removable f n ws) (hne : n ≠ [])
    (hblank : ' ' ∉ n) :
    ∃ b rest, f = Nat.toDigits 10 ws.length ++ (b ++ [' ']) ++ (n ++ rest) ∧
      ws = splitWords (b ++ [' ']) ++ n :: splitWords rest ∧ n ∉ splitWords (b ++ [' ']) ∧
      n ∉ splitWords rest ∧ (∀ c ∈ (b ++ [' ']).head?, c = ' ') ∧ ∀ c ∈ rest.head?, c = ' ' := by
  obtain ⟨gap, tail, hlayout, hgap, htail, hwords⟩ := hf.layout
  have hgapnil : gap = [] := by
    cases gap with
    | nil => rfl
    | cons c gap =>
      apply absurd _ h.gap
      rw [hlayout, hgap c List.mem_cons_self]
      rfl
  rw [hgapnil, List.nil_append] at hlayout
  have hmem : n ∈ ws := List.count_pos_iff.mp (by rw [h.once]; exact Nat.one_pos)
  obtain ⟨u, v, hu, hws, -⟩ := List.exists_erase_eq hmem
  have hv : n ∉ v := by
    have honce := h.once
    rw [hws, List.count_append, List.count_cons_self] at honce
    exact List.count_eq_zero.mp (by omega)
  obtain ⟨b, rest, hb, hbu, hrestv, hlast, hhead⟩ := exists_word_split (hwords.trans hws)
  rw [hb] at htail hlayout
  have hbne : b ≠ [] := by
    rintro rfl
    obtain ⟨d, n, rfl⟩ := List.exists_cons_of_ne_nil hne
    exact hblank (htail d rfl ▸ List.mem_cons_self)
  obtain ⟨b, c, rfl⟩ := (List.eq_nil_or_concat' b).resolve_left hbne
  obtain rfl : c = ' ' := hlast c (by simp)
  refine ⟨b, rest, hlayout.trans (List.append_assoc _ _ _).symm, ?_, ?_, ?_, ?_, hhead⟩
  · rw [hbu, hrestv, hws]
  · rwa [hbu]
  · rwa [hrestv]
  · rwa [List.head?_append_of_ne_nil _ hbne] at htail

/-- The search finds the word there. -/
theorem Removable.strstr_eq {b : CStr} (h : Removable f n ws) (hne : n ≠ []) (hblank : ' ' ∉ n)
    (hf : f = Nat.toDigits 10 ws.length ++ (b ++ [' ']) ++ (n ++ rest))
    (hws : ws = splitWords (b ++ [' ']) ++ n :: splitWords rest)
    (hmem : n ∉ splitWords (b ++ [' '])) (hhead : ∀ c ∈ (b ++ [' ']).head?, c = ' ') :
    strstr n f = some (Nat.toDigits 10 ws.length ++ (b ++ [' ']), n ++ rest) := by
  have hbefore : splitWords (Nat.toDigits 10 ws.length ++ b) =
      Nat.toDigits 10 ws.length :: splitWords (b ++ [' ']) := by
    have hblanks : ∀ c ∈ [' '], c = ' ' := fun c hc => List.mem_singleton.mp hc
    rw [← @splitWords_append_blanks [' '] _ hblanks, List.append_assoc,
      splitWords_append_of_head hhead,
      splitWords_word Nat.toDigits_ne_nil (blank_not_mem_toDigits _)]
    rfl
  have hno : ¬ n <:+: Nat.toDigits 10 ws.length ++ b := by
    rw [infix_iff_splitWords hne hblank, hbefore]
    rintro ⟨w, hw, hnw⟩
    rcases List.mem_cons.mp hw with rfl | hw
    · exact h.number hnw
    · apply h.before w _ hnw
      have hall : ∀ w ∈ splitWords (b ++ [' ']), decide (w ≠ n) = true := by
        intro w hw
        rw [decide_eq_true_eq]
        rintro rfl
        exact hmem hw
      rw [hws, List.takeWhile_append_of_pos hall]
      exact List.mem_append_left _ hw
  rw [hf]
  have hstr := @strstr_append_word n (Nat.toDigits 10 ws.length ++ b) rest hne hblank hno
  simp only [List.append_assoc, List.cons_append, List.nil_append] at hstr ⊢
  exact hstr

/-- A word is not at the place of blanks. -/
theorem blanks_append_ne {gap x y : CStr} (hne : n ≠ []) (hblank : ' ' ∉ n)
    (hgap : ∀ c ∈ gap, c = ' ') : gap ++ ' ' :: x ≠ n ++ y := by
  intro heq
  obtain ⟨d, n, rfl⟩ := List.exists_cons_of_ne_nil hne
  have hd : d = ' ' := by
    cases gap with
    | nil => exact (List.cons.inj heq).1.symm
    | cons c gap =>
      obtain ⟨rfl, -⟩ := List.cons.inj heq
      exact hgap c List.mem_cons_self
  exact hblank (hd ▸ List.mem_cons_self)

/-- The text before the match is not cut short. -/
theorem Removable.not_lt {b : CStr} (h : Removable f n ws) (hcut : Cut f ws p q) (hne : n ≠ [])
    (hblank : ' ' ∉ n)
    (hf : f = Nat.toDigits 10 ws.length ++ (b ++ [' ']) ++ (n ++ rest))
    (hws : ws = splitWords (b ++ [' ']) ++ n :: splitWords rest)
    (hhead : ∀ c ∈ (b ++ [' ']).head?, c = ' ') :
    ¬ ((Nat.toDigits 10 ws.length ++ (b ++ [' '])).rdropWhile (· = ' ')).length < p.length := by
  intro hlt
  obtain ⟨gap, hp, hgap⟩ := hcut.number h.gap
  obtain ⟨gap', hgap', hblanks⟩ := exists_rdropWhile (Nat.toDigits 10 ws.length ++ (b ++ [' ']))
  generalize hE : (Nat.toDigits 10 ws.length ++ (b ++ [' '])).rdropWhile (· = ' ') = e
    at hlt hgap'
  by_cases hu : splitWords (b ++ [' ']) = []
  · -- the word is the first one, with one blank after the number
    obtain ⟨t, ht⟩ := h.first (by rw [hws, hu]; rfl)
    have hb := blanks_of_splitWords hu
    have hfirst : ' ' :: (n ++ t) = b ++ ' ' :: (n ++ rest) := by
      have heq := ht.trans hf
      simp only [List.append_assoc, List.cons_append, List.nil_append] at heq
      exact List.append_cancel_left heq
    cases b with
    | cons c b =>
      have hrest : ∀ d ∈ b, d = ' ' := fun d hd => hb d (by simp [hd])
      exact blanks_append_ne hne hblank hrest (List.cons.inj hfirst).2.symm
    | nil =>
      have he : e = Nat.toDigits 10 ws.length := by
        have hblanks := @rdropWhile_blank [] ws.length (List.forall_mem_nil _)
        rw [unwords_nil, List.append_nil] at hblanks
        exact hE.symm.trans hblanks
      have hgapne : gap ≠ [] := by
        rintro rfl
        rw [he, hp, List.append_nil] at hlt
        exact absurd hlt (Nat.lt_irrefl _)
      obtain ⟨g, rfl, hg⟩ := exists_concat_blank hgap hgapne
      have hsecond : g ++ ' ' :: ' ' :: q = ' ' :: (n ++ rest) := by
        have heq := hcut.split.symm.trans hf
        rw [hp] at heq
        simp only [List.append_assoc, List.cons_append, List.nil_append] at heq
        exact List.append_cancel_left heq
      cases g with
      | nil => exact blanks_append_ne hne hblank hg (List.cons.inj hsecond).2
      | cons c g =>
        have hrest : ∀ d ∈ g, d = ' ' := fun d hd => hg d (List.mem_cons_of_mem c hd)
        exact blanks_append_ne hne hblank hrest (List.cons.inj hsecond).2
  · have hink : inked e = (Nat.toDigits 10 ws.length).length +
        ((splitWords (b ++ [' '])).map List.length).sum := by
      rw [← inked_eq_sum, ← inked_word (blank_not_mem_toDigits ws.length), ← inked_append, hgap',
        inked_append, inked_blanks hblanks, Nat.add_zero]
    have hpos : 0 < ((splitWords (b ++ [' '])).map List.length).sum := by
      obtain ⟨w, u, hwu⟩ := List.exists_cons_of_ne_nil hu
      have hw := List.length_pos_iff.mpr
        (mem_splitWords (by rw [hwu]; exact List.mem_cons_self : w ∈ splitWords (b ++ [' ']))).1
      rw [hwu, List.map_cons, List.sum_cons]
      omega
    have hprefix : e <+: p := by
      apply List.prefix_of_prefix_length_le _ (List.prefix_append p (' ' :: q)) hlt.le
      rw [← hcut.split, hf, hgap', List.append_assoc]
      exact List.prefix_append _ _
    obtain ⟨t, ht⟩ := hprefix
    have hle := (hcut.inked_le).1
    rw [← ht, inked_append] at hle
    omega

/-- A word that is found where it stands is removed. -/
theorem removes_of_removable (hf : Lists f ws) (hlen : ws.length < 2 ^ 31) (hone : 1 < ws.length)
    (hne : n ≠ []) (hblank : ' ' ∉ n) (h : Removable f n ws) : Removes f n ws := by
  obtain ⟨p, q, hcut⟩ := hf.exists_cut (by rintro rfl; simp at hone)
  obtain ⟨b, rest, hsplit, hws, hnb, hnrest, hhead, hrest⟩ := h.exists_split hf hne hblank
  have hstr := h.strstr_eq hne hblank hsplit hws hnb hhead
  have hremove := removeFeature_several hf hlen hone hne hblank hcut hstr
  rw [List.drop_left] at hremove
  obtain ⟨hlt, -⟩ | ⟨hcopied, hcopy⟩ := copyBefore_cases hcut hsplit
  · exact absurd hlt (h.not_lt hcut hne hblank hsplit hws hhead)
  have hcopyrest := @copyRest_of_head rest (n.getLast?.getD ' ') hrest
  have hbefore := splitWords_before hcut h.gap hcopied hcopy
  rw [splitWords_append_of_head hhead,
    splitWords_word Nat.toDigits_ne_nil (blank_not_mem_toDigits _)] at hbefore
  have hwords : splitWords (b ++ [' ']) = _ := (List.cons.inj hbefore).2
  have hfilter : ws.filter (· ≠ n) = splitWords (b ++ [' ']) ++ splitWords rest := by
    conv_lhs => rw [hws]
    exact filter_ne_append hnb hnrest
  have hfilterlen : (ws.filter (· ≠ n)).length = ws.length - 1 := by
    rw [hfilter, List.length_append]
    have hlength := congrArg List.length hws
    rw [List.length_append, List.length_cons] at hlength
    omega
  refine ⟨_, hremove, ?_, ?_⟩
  · rw [← hfilterlen]
    apply lists_append (head_append hcopy hcopyrest.2.1)
    rw [splitWords_append_of_head hcopyrest.2.1, hcopyrest.1, ← hwords, hfilter]
  · intro size hsize
    obtain ⟨tail, hstrtoul, -⟩ := hf.strtoul_eq hlen
    obtain ⟨gap, hgap, -⟩ := exists_rdropWhile (Nat.toDigits 10 ws.length ++ (b ++ [' ']))
    obtain ⟨gap', hp, -⟩ := hcut.number h.gap
    have hsub : hasSubstr f n = true := by
      rw [hasSubstr, hstr]
      rfl
    have hcount : ¬ toInt ws.length - 1 = 0 := by
      rw [toInt_of_isInt (isInt_natCast hlen)]
      omega
    rw [removeFeatureBuffer, if_pos hsub, hstrtoul, if_neg hcount] at hsize
    obtain rfl := Option.some.inj hsize
    have hdigits := length_toDigits_mono (Nat.sub_le ws.length 1)
    have hrestlen := hcopyrest.2.2.1
    have hflen := congrArg List.length hsplit
    have hgaplen := congrArg List.length hgap
    rw [hcopied] at hgaplen
    have hplen := congrArg List.length hp
    simp only [List.length_append] at hflen hgaplen hplen ⊢
    omega

/-- A word that the search finds in a list of words is removed exactly if it is the only word,
or if the first place where it is found is this word. -/
theorem removes_iff (hf : Lists f ws) (hne : n ≠ []) (hblank : ' ' ∉ n)
    (hzero : n.head? ≠ some '0') (hshort : Short f n) :
    Removes f n ws ↔ ¬ n <:+: f ∨ ws = [n] ∨ Removable f n ws := by
  have hlen := hf.length_lt
  unfold Short at hshort
  by_cases hfound : n <:+: f
  · have hws := hf.ne_nil hne hblank hzero hfound
    by_cases hone : ws.length = 1
    · have hremove := removeFeature_single hf hone hne hblank hfound
      obtain ⟨w, rfl⟩ := List.length_eq_one_iff.mp hone
      by_cases hw : w = n
      · subst hw
        refine iff_of_true ⟨_, hremove, ?_, ?_⟩ (Or.inr (Or.inl rfl))
        · rw [List.filter_cons_of_neg (by simp), List.filter_nil]
          decide
        · intro size hsize
          obtain ⟨tail, hstrtoul, -⟩ := hf.strtoul_eq (by omega)
          have hcount : toInt ((1 : ℕ) : ℤ) - 1 = 0 := by decide
          rw [removeFeatureBuffer, if_pos (hasSubstr_iff.mpr hfound), hstrtoul, hone,
            if_pos hcount] at hsize
          rw [← Option.some.inj hsize]
          decide
      · apply iff_of_false
        · rintro ⟨f', hf', hlists, -⟩
          rw [hremove] at hf'
          rw [← Option.some.inj (Prod.mk.inj hf').1,
            List.filter_cons_of_pos (by simpa using hw), List.filter_nil] at hlists
          have hwords := (congrArg List.length hlists).symm
          rw [List.length_cons, hone, splitWords_word (by decide) (by decide)] at hwords
          exact absurd hwords (by decide)
        · rintro (h | h | h)
          · exact h hfound
          · exact hw (List.cons.inj h).1
          · have honce := h.once
            rw [List.count_singleton] at honce
            simp [hw] at honce
    · have hpos := List.length_pos_iff.mpr hws
      constructor
      · intro h
        exact Or.inr (Or.inr (removable_of_removes hf (by omega) (by omega) hne hblank hfound h))
      · rintro (h | h | h)
        · exact absurd hfound h
        · rw [h] at hone
          exact absurd rfl hone
        · exact removes_of_removable hf (by omega) (by omega) hne hblank h
  · refine iff_of_true ⟨f, ?_, ?_, ?_⟩ (Or.inl hfound)
    · unfold removeFeature
      simp [hne, hasSubstr_eq_false_iff.mpr hfound]
    · have hkeep : ws.filter (· ≠ n) = ws := by
        apply List.filter_eq_self.mpr
        intro w hw
        rw [decide_eq_true_eq]
        rintro rfl
        exact hfound (hf.infix_of_mem hw)
      rwa [hkeep]
    · intro size hsize
      rw [removeFeatureBuffer, if_neg (by simpa using hfound)] at hsize
      cases hsize

/-- When both functions do their work on a features string, for a word that does not begin
with `0`. -/
theorem editing_iff (hf : Lists f ws) (hne : n ≠ []) (hblank : ' ' ∉ n)
    (hzero : n.head? ≠ some '0') (hshort : Short f n) :
    (Adds f n ws ↔ n ∈ ws ∨ ¬ n <:+: f) ∧
      (Removes f n ws ↔ ¬ n <:+: f ∨ ws = [n] ∨ Removable f n ws) :=
  ⟨adds_iff hf hne hblank hzero hshort, removes_iff hf hne hblank hzero hshort⟩

theorem editing_iff_spaced :
    (Adds "2 a  b ".toList ['b'] [['a'], ['b']] ↔
        ['b'] ∈ [['a'], ['b']] ∨ ¬ ['b'] <:+: "2 a  b ".toList) ∧
      (Removes "2 a  b ".toList ['b'] [['a'], ['b']] ↔
        ¬ ['b'] <:+: "2 a  b ".toList ∨ [['a'], ['b']] = [['b']] ∨
          Removable "2 a  b ".toList ['b'] [['a'], ['b']]) :=
  editing_iff (by decide) (by decide) (by decide) (by decide) (by unfold Short; decide)

/-- The word `b` is not added to `ab`, and the count is wrong after it was not removed. With
several blanks after the number the removal writes 8 bytes into a buffer of 7. -/
theorem editing_fails :
    (Lists "1 ab".toList ["ab".toList] ∧
      addFeature (some "1 ab".toList) ['b'] = (some "1 ab".toList, 0) ∧
      ¬ Adds "1 ab".toList ['b'] ["ab".toList]) ∧
    (removeFeature (some "1 ab".toList) ['b'] = (some "0".toList, 0) ∧
      ¬ Removes "1 ab".toList ['b'] ["ab".toList]) ∧
    Lists "2   a b".toList [['a'], ['b']] ∧
      removeFeature (some "2   a b".toList) ['a'] = (some "1 a b b".toList, 0) ∧
      removeFeatureBuffer "2   a b".toList ['a'] = some 7 ∧
      ¬ Fits (removeFeatureBuffer "2   a b".toList ['a']) "1 a b b".toList := by
  have hshort : Short "1 ab".toList ['b'] := by
    unfold Short
    decide
  have hlists : Lists "1 ab".toList ["ab".toList] := by decide
  have hadd := adds_iff hlists (by decide) (by decide) (by decide) hshort
  have hremove := removes_iff hlists (by decide) (by decide) (by decide) hshort
  constructor
  · refine ⟨hlists, by decide, fun h => ?_⟩
    exact absurd (hadd.mp h) (by decide)
  constructor
  · refine ⟨by decide, fun h => ?_⟩
    rcases hremove.mp h with h | h | h
    · exact absurd h (by decide)
    · exact absurd h (by decide)
    · exact absurd h.once (by decide)
  · refine ⟨by decide, by decide, by decide, fun h => ?_⟩
    exact absurd (h 7 (by decide)) (by decide)

end Right

end MultipathTools.Features
