import MultipathTools.Base.Stopping
import MultipathTools.Wwids.Entries

/-! `lookup_wwid` on a file with any lines: which of them it looks at. After a mismatch it reads to
the next line break, and skips a line if the mismatch is at a line break already. A WWID with a
line break may agree with several lines. -/
namespace MultipathTools.Wwids
open Alias (lineMax)

/-- The comparison with the WWID gets to the end of the line without a mismatch before. -/
def swallows (w l : CStr) : Bool :=
  l = ['\n'] ∨ ∃ n ≤ w.length, l = '/' :: (w.take n ++ ['\n'])

/-- What `fgets` leaves of the stream. -/
def afterLine (s : CStr) : CStr := (fgets (lineMax - 1) s).2

theorem afterLine_line {a : CStr} (ha : '\n' ∉ a) (hlen : a.length < lineMax - 1) (t : CStr) :
    afterLine (a ++ '\n' :: t) = t := by
  rw [afterLine, fgets_line ha, if_pos hlen]

theorem afterLine_last {a : CStr} (ha : '\n' ∉ a) (hlen : a.length ≤ lineMax - 1) :
    afterLine a = [] := by
  rw [afterLine, fgets_last ha hlen]

theorem lookupWwid_nil (w : CStr) : lookupWwid w [] = false := by rw [lookupWwid]

/-- At the end of the file nothing is left to skip. -/
theorem lookupWwid_afterLine (w t : CStr) :
    (if t = [] then false else lookupWwid w (afterLine t)) = lookupWwid w (afterLine t) := by
  split_ifs with ht
  · have hnil : afterLine [] = [] := rfl
    rw [ht, hnil, lookupWwid_nil]
  · rfl

/-- The comparison goes over characters that agree with the WWID. -/
theorem compareWwid_agree {w : CStr} (hlen : w.length < Alias.wwidSize) (hslash : '/' ∉ w)
    (hu : Unsigned w) {a : CStr} {count : ℕ} (hcount : count ≤ w.length) (ha : a <+: w.drop count)
    (s : CStr) :
    compareWwid w count (a ++ s) = compareWwid w (count + a.length) s := by
  induction a generalizing count with
  | nil => simp
  | cons c a ih =>
    have hlt : count < w.length := by
      have := ha.length_le
      simp only [List.length_cons, List.length_drop] at this
      omega
    rw [List.drop_eq_getElem_cons hlt] at ha
    obtain ⟨hc, ha'⟩ := List.cons_prefix_cons.mp ha
    have hne : c ≠ '/' := fun h => hslash (h ▸ hc ▸ List.getElem_mem hlt)
    have hshort : ¬ Alias.wwidSize - 1 ≤ count := by omega
    have heq := toNat_eq_charInt_iff.mpr ⟨hc, hu _ (List.getElem_mem hlt)⟩
    rw [List.cons_append, compareWwid, if_neg hne, if_neg hshort, List.getElem?_eq_getElem hlt]
    dsimp only
    rw [if_neg (not_not.mpr heq), ih hlt ha', List.length_cons, Nat.succ_add_eq_add_succ]

/-- At a line break the comparison ends behind it. -/
theorem compareWwid_newline {w : CStr} (hw : '\n' ∉ w) (count : ℕ) (t : CStr) :
    compareWwid w count ('\n' :: t) = .next t := by
  rw [compareWwid, if_neg (by decide)]
  split_ifs
  · rfl
  · cases hd : w[count]? with
    | none => rfl
    | some d =>
      have hne : (('\n'.toNat : ℕ) : ℤ) ≠ charInt d := fun h =>
        hw ((toNat_eq_charInt_iff.mp h).1 ▸ List.mem_of_getElem? hd)
      dsimp only
      rw [if_pos hne]

/-- The comparison ends with a mismatch, or at a slash that is not the right one. -/
def Missed (w : CStr) (r : Compared) (rest : CStr) : Prop :=
  r = .next rest ∨ ∃ n, n ≠ w.length ∧ r = .slash n rest

/-- Characters that do not agree with the WWID end the comparison before their end. -/
theorem compareWwid_disagree {w : CStr} (hlen : w.length < Alias.wwidSize) (hslash : '/' ∉ w)
    (hu : Unsigned w) {a : CStr} {count : ℕ} (hcount : count ≤ w.length) (ha : ¬ a <+: w.drop count) :
    (w.drop count ++ ['/'] <+: a ∧
      ∀ s, ∃ rest, compareWwid w count (a ++ s) = .slash w.length rest) ∨
    ¬ w.drop count ++ ['/'] <+: a ∧
      ∃ b, b <:+ a ∧ b.length < a.length ∧ ∀ s, Missed w (compareWwid w count (a ++ s)) (b ++ s) := by
  induction a generalizing count with
  | nil => exact absurd (List.nil_prefix) ha
  | cons c a ih =>
    have hstop : a <:+ c :: a := List.suffix_cons c a
    have hshorter : a.length < (c :: a).length := Nat.lt_succ_self _
    obtain hend | hlt := Nat.eq_or_lt_of_le hcount
    · -- the whole WWID agrees, so a slash is to follow
      rw [hend, List.drop_length, List.nil_append]
      by_cases hc : c = '/'
      · subst hc
        exact .inl ⟨by simp, fun s => ⟨a ++ s, by rw [List.cons_append, compareWwid, if_pos rfl]⟩⟩
      · refine .inr ⟨?_, a, hstop, hshorter, fun s => .inl ?_⟩
        · intro h
          exact hc (List.cons_prefix_cons.mp h).1.symm
        · rw [List.cons_append, compareWwid, if_neg hc, List.getElem?_eq_none le_rfl]
          split_ifs <;> rfl
    · have hdrop := List.drop_eq_getElem_cons hlt
      have hshort : ¬ Alias.wwidSize - 1 ≤ count := by omega
      have hget := List.getElem?_eq_getElem hlt
      by_cases hc : c = w[count]
      · have hne : c ≠ '/' := fun h => hslash (h ▸ hc ▸ List.getElem_mem hlt)
        have ha' : ¬ a <+: w.drop (count + 1) := by
          intro h
          rw [hdrop] at ha
          exact ha (List.cons_prefix_cons.mpr ⟨hc, h⟩)
        have hstep : ∀ s, compareWwid w count (c :: a ++ s) = compareWwid w (count + 1) (a ++ s) := by
          intro s
          have heq := toNat_eq_charInt_iff.mpr ⟨hc, hu _ (List.getElem_mem hlt)⟩
          rw [List.cons_append, compareWwid, if_neg hne, if_neg hshort, hget]
          dsimp only
          rw [if_neg (not_not.mpr heq)]
        have hiff : w.drop count ++ ['/'] <+: c :: a ↔ w.drop (count + 1) ++ ['/'] <+: a := by
          rw [hdrop, List.cons_append, List.cons_prefix_cons]
          simp [hc]
        rw [hiff]
        obtain ⟨hfound, hcmp⟩ | ⟨hno, b, hb, hlt', hcmp⟩ := ih hlt ha'
        · exact .inl ⟨hfound, fun s => hstep s ▸ hcmp s⟩
        · exact .inr ⟨hno, b, hb.trans hstop, hlt'.trans hshorter, fun s => hstep s ▸ hcmp s⟩
      · refine .inr ⟨?_, a, hstop, hshorter, fun s => ?_⟩
        · intro h
          rw [hdrop, List.cons_append] at h
          exact hc (List.cons_prefix_cons.mp h).1.symm
        · by_cases hs : c = '/'
          · refine .inr ⟨count, by omega, ?_⟩
            rw [List.cons_append, compareWwid, if_pos hs]
          · left
            rw [List.cons_append, compareWwid, if_neg hs, if_neg hshort, hget]
            dsimp only
            rw [if_pos fun h => hc (toNat_eq_charInt_iff.mp h).1]

theorem lookupWwid_missed {w s rest : CStr} (h : Missed w (compareWwid w 0 s) rest) :
    lookupWwid w ('/' :: s) = lookupWwid w (afterLine rest) := by
  rw [lookupWwid_slash]
  obtain hcmp | ⟨n, hn, hcmp⟩ := h
  · rw [hcmp]
    exact lookupWwid_afterLine w rest
  · rw [hcmp]
    dsimp only
    rw [if_neg hn.symm]
    exact lookupWwid_afterLine w rest

theorem prefix_activeText {w a : CStr} :
    activeText w <+: '/' :: a ↔ w ++ ['/'] <+: a := by
  simp [activeText]

theorem activeText_prefix_newline {w a : CStr} :
    w ++ ['/'] <+: a ++ ['\n'] ↔ w ++ ['/'] <+: a := by
  rw [List.prefix_concat_iff]
  constructor
  · rintro (h | h)
    · have hlast := congrArg List.getLast? h
      simp at hlast
    · exact h
  · exact .inr

theorem swallows_slash {w a : CStr} (ha : '\n' ∉ a) :
    swallows w ('/' :: (a ++ ['\n'])) = true ↔ a <+: w := by
  simp only [swallows, decide_eq_true_eq, List.cons.injEq, Char.reduceEq, false_and, false_or,
    true_and, List.append_left_inj]
  constructor
  · rintro ⟨n, -, rfl⟩
    exact List.take_prefix n w
  · intro h
    exact ⟨a.length, h.length_le, List.prefix_iff_eq_take.mp h⟩

theorem swallows_other {w a : CStr} {c : Char} (hc : c ≠ '/') (hn : c ≠ '\n') :
    swallows w (c :: a) = false := by
  simp [swallows, hc, hn]

section Lines

variable {w : CStr} (hlen : w.length < Alias.wwidSize) (hslash : '/' ∉ w) (hu : Unsigned w)
  (hw : '\n' ∉ w)
include hlen hslash hu hw

/-- A line is found, or the lookup goes on with the next line or, if this line makes it skip one,
with the line after that. -/
theorem lookupWwid_line {a : CStr} (ha : '\n' ∉ a) (hshort : a.length < lineMax - 1) (t : CStr) :
    lookupWwid w (a ++ '\n' :: t) =
      if activeText w <+: a ++ ['\n'] then true
      else if swallows w (a ++ ['\n']) then lookupWwid w (afterLine t) else lookupWwid w t := by
  cases a with
  | nil =>
    have hsw : swallows w ([] ++ ['\n']) = true := by simp [swallows]
    have hno : ¬ activeText w <+: [] ++ ['\n'] := by simp [activeText]
    rw [if_neg hno, if_pos hsw, List.nil_append, lookupWwid, if_pos (by decide)]
    exact lookupWwid_afterLine w t
  | cons c a =>
    obtain ⟨hcn, hno⟩ := not_or.mp (List.mem_cons.not.mp ha)
    have hshort' : a.length < lineMax - 1 := Nat.lt_of_succ_lt hshort
    by_cases hc : c = '/'
    · subst hc
      have hiff : activeText w <+: '/' :: (a ++ ['\n']) ↔ w ++ ['/'] <+: a :=
        prefix_activeText.trans activeText_prefix_newline
      rw [List.cons_append, List.cons_append]
      by_cases hpre : a <+: w
      · have hlong : ¬ activeText w <+: '/' :: (a ++ ['\n']) := by
          intro h
          have hle := (hiff.mp h).length_le
          have hle' := hpre.length_le
          rw [List.length_append, List.length_singleton] at hle
          omega
        rw [if_neg hlong, if_pos ((swallows_slash hno).mpr hpre)]
        have hcmp := compareWwid_agree hlen hslash hu (Nat.zero_le _) (a := a) (by simpa using hpre)
          ('\n' :: t)
        rw [compareWwid_newline hw] at hcmp
        exact lookupWwid_missed (.inl hcmp)
      · have hsw : ¬ swallows w ('/' :: (a ++ ['\n'])) = true := fun h =>
          hpre ((swallows_slash hno).mp h)
        obtain ⟨hfound, hcmp⟩ | ⟨hmiss, b, hb, hlt, hcmp⟩ :=
          compareWwid_disagree hlen hslash hu (Nat.zero_le _) (a := a) (by simpa using hpre)
        · obtain ⟨rest, hrest⟩ := hcmp ('\n' :: t)
          rw [if_pos (hiff.mpr (by simpa using hfound)), lookupWwid_slash, hrest]
          exact if_pos rfl
        · rw [if_neg (fun h => hmiss (by simpa using hiff.mp h)), if_neg hsw,
            lookupWwid_missed (hcmp ('\n' :: t)),
            afterLine_line (fun h => hno (hb.subset h)) (hlt.trans hshort')]
    · have hmiss : ¬ activeText w <+: c :: a ++ ['\n'] := by
        intro h
        exact hc (List.cons_prefix_cons.mp h).1.symm
      have hsw : swallows w (c :: a ++ ['\n']) = false := swallows_other hc (Ne.symm hcn)
      rw [if_neg hmiss, hsw, if_neg Bool.false_ne_true]
      exact lookupWwid_other hc hno hshort' t

omit hw in
/-- The last line, without a line break. -/
theorem lookupWwid_last {a : CStr} (ha : '\n' ∉ a) (hshort : a.length ≤ lineMax - 1) :
    lookupWwid w a = decide (activeText w <+: a) := by
  cases a with
  | nil =>
    rw [lookupWwid_nil]
    simp [activeText]
  | cons c a =>
    obtain ⟨hcn, hno⟩ := not_or.mp (List.mem_cons.not.mp ha)
    have hshort' : a.length ≤ lineMax - 1 := (Nat.le_succ _).trans hshort
    by_cases hc : c = '/'
    · subst hc
      by_cases hpre : a <+: w
      · have hlong : ¬ activeText w <+: '/' :: a := by
          intro h
          have hle := (prefix_activeText.mp h).length_le
          have hle' := hpre.length_le
          rw [List.length_append, List.length_singleton] at hle
          omega
        have hcmp := compareWwid_agree hlen hslash hu (Nat.zero_le _) (a := a) (by simpa using hpre) []
        rw [List.append_nil] at hcmp
        rw [decide_eq_false hlong, lookupWwid_slash, hcmp]
        rfl
      · obtain ⟨hfound, hcmp⟩ | ⟨hmiss, b, hb, hlt, hcmp⟩ :=
          compareWwid_disagree hlen hslash hu (Nat.zero_le _) (a := a) (by simpa using hpre)
        · obtain ⟨rest, hrest⟩ := hcmp []
          rw [List.append_nil] at hrest
          rw [decide_eq_true (prefix_activeText.mpr (by simpa using hfound)), lookupWwid_slash, hrest]
          exact if_pos rfl
        · have hcmp := hcmp []
          rw [List.append_nil, List.append_nil] at hcmp
          rw [decide_eq_false (fun h => hmiss (by simpa using prefix_activeText.mp h)),
            lookupWwid_missed hcmp,
            afterLine_last (fun h => hno (hb.subset h)) (hlt.le.trans hshort'), lookupWwid_nil]
    · have hmiss : ¬ activeText w <+: c :: a := fun h => hc (List.cons_prefix_cons.mp h).1.symm
      rw [decide_eq_false hmiss, lookupWwid, if_pos hc, ← afterLine, afterLine_last hno hshort',
        lookupWwid_nil, ite_self]

/-- `lookup_wwid` searches the lines, and some lines make it skip the next one. -/
theorem lookupWwid_eq (content : CStr) (hlines : ∀ l ∈ getlines content, l.length < lineMax) :
    lookupWwid w content =
        skipSearch (fun l => activeText w <+: l) (swallows w) false (getlines content) ∧
      lookupWwid w (afterLine content) =
        skipSearch (fun l => activeText w <+: l) (swallows w) true (getlines content) := by
  induction hk : content.length using Nat.strong_induction_on generalizing content with
  | _ k ih =>
    obtain rfl | ⟨hne, hs⟩ | ⟨a, t, rfl, ha⟩ := text_cases content
    · exact ⟨lookupWwid_nil w, lookupWwid_nil w⟩
    · rw [getlines_last hne hs] at hlines ⊢
      have hshort : content.length ≤ lineMax - 1 :=
        Nat.le_pred_of_lt (hlines content (List.mem_singleton_self content))
      constructor
      · rw [lookupWwid_last hlen hslash hu hs hshort]
        by_cases hfound : activeText w <+: content
        · simp [skipSearch, hfound]
        · simp [skipSearch, hfound]
      · rw [afterLine_last hs hshort, lookupWwid_nil]
        rfl
    · rw [getlines_line ha] at hlines ⊢
      obtain ⟨hshort, hrest⟩ := List.forall_mem_cons.mp hlines
      have hshort' : a.length < lineMax - 1 := by
        rw [List.length_append, List.length_singleton] at hshort
        exact Nat.lt_pred_of_succ_lt hshort
      obtain ⟨hgo, hskip⟩ := ih t.length
        (by rw [← hk, List.length_append, List.length_cons]; omega) t hrest rfl
      constructor
      · rw [lookupWwid_line hlen hslash hu hw ha hshort', hgo, hskip, skipSearch]
        cases swallows w (a ++ ['\n']) <;> simp
      · rw [afterLine_line ha hshort', hgo, skipSearch]

end Lines

/-- What the comparison has read when it comes to a slash. -/
theorem compareWwid_slash {w s rest : CStr} {count n : ℕ}
    (h : compareWwid w count s = .slash n rest) :
    ∃ p, s = p ++ '/' :: rest ∧ p <+: w.drop count ∧ Unsigned p ∧ n = count + p.length := by
  fun_induction compareWwid w count s with
  | case1 => cases h
  | case2 count s =>
    obtain ⟨rfl, rfl⟩ := Compared.slash.inj h
    exact ⟨[], rfl, List.nil_prefix, unsigned_nil, rfl⟩
  | case3 | case4 | case5 => cases h
  | case6 count c s hc hlong d hget hd ih =>
    obtain ⟨p, rfl, hp, hpos, rfl⟩ := ih h
    obtain ⟨hlt, rfl⟩ := List.getElem?_eq_some_iff.mp hget
    obtain ⟨hcw, hneg⟩ := toNat_eq_charInt_iff.mp (not_not.mp hd)
    refine ⟨c :: p, rfl, ?_, unsigned_cons.mpr ⟨hcw ▸ hneg, hpos⟩, ?_⟩
    · rw [List.drop_eq_getElem_cons hlt]
      exact List.cons_prefix_cons.mpr ⟨hcw, hp⟩
    · rw [List.length_cons]
      omega

theorem compareWwid_next {w s rest : CStr} {count : ℕ} (h : compareWwid w count s = .next rest) :
    rest <:+ s := by
  fun_induction compareWwid w count s with
  | case1 | case2 => cases h
  | case3 count c s | case4 count c s | case5 count c s =>
    obtain rfl := Compared.next.inj h
    exact List.suffix_cons c s
  | case6 count c s _ _ _ _ _ ih => exact (ih h).trans (List.suffix_cons c s)

theorem afterLine_suffix (s : CStr) : afterLine s <:+ s :=
  ⟨_, fgets_append_rest (lineMax - 1) s⟩

/-- A WWID with a negative character is not found. -/
theorem unsigned_of_lookupWwid {w content : CStr} (h : lookupWwid w content = true) :
    Unsigned w := by
  induction hk : content.length using Nat.strong_induction_on generalizing content with
  | _ k ih =>
    cases content with
    | nil =>
      rw [lookupWwid_nil] at h
      cases h
    | cons c s =>
      have hgo : ∀ t, t <:+ s → lookupWwid w (afterLine t) = true → Unsigned w := by
        intro t ht hfound
        have hle := ((afterLine_suffix t).trans ht).length_le
        exact ih _ (by rw [← hk, List.length_cons]; omega) hfound rfl
      by_cases hc : c = '/'
      · subst hc
        rw [lookupWwid_slash] at h
        cases hcmp : compareWwid w 0 s with
        | eof =>
          rw [hcmp] at h
          cases h
        | slash n t =>
          obtain ⟨p, rfl, hp, hpos, hn⟩ := compareWwid_slash hcmp
          rw [hcmp] at h
          dsimp only at h
          split_ifs at h with hlen ht
          · have hpw : p = w := (List.drop_zero (l := w) ▸ hp).eq_of_length (by omega)
            exact hpw ▸ hpos
          · exact hgo t ⟨p ++ ['/'], by simp⟩ h
        | next t =>
          have ht : t <:+ s := compareWwid_next hcmp
          rw [hcmp] at h
          dsimp only at h
          split_ifs at h
          exact hgo t ht h
      · rw [lookupWwid, if_pos hc] at h
        split_ifs at h
        exact hgo s (List.suffix_refl s) h

/-- How many characters of the text agree with the WWID. -/
def agreement : CStr → CStr → ℕ
  | c :: w, d :: s => if c = d then agreement w s + 1 else 0
  | _, _ => 0

/-- How many characters are read before the rest of the line is skipped: the first one, and
behind a slash those that agree with the WWID and one more. -/
def readAhead (w : CStr) : CStr → ℕ
  | [] => 0
  | c :: s => if c = '/' then agreement w s + 2 else 1

/-- The lines behind those that are read or skipped at once. -/
def nextLines (w : CStr) (ls : List CStr) : List CStr :=
  ls.drop (1 + (ls.flatten.take (readAhead w ls.flatten)).count '\n')

theorem agreement_prefix (w s : CStr) : s.take (agreement w s) <+: w ∧
    ∀ c t, s.drop (agreement w s) = c :: t → w[agreement w s]? ≠ some c := by
  fun_induction agreement w s with
  | case1 c w s ih => exact ⟨List.cons_prefix_cons.mpr ⟨rfl, ih.1⟩, ih.2⟩
  | case2 c w d s hcd =>
    refine ⟨List.nil_prefix, fun e t h => ?_⟩
    obtain rfl := (List.cons.inj h).1
    simpa using hcd
  | case3 w s hcons =>
    refine ⟨List.nil_prefix, fun c t h => ?_⟩
    cases w with
    | nil => simp
    | cons d w => exact absurd h (hcons d w c t rfl)

/-- The text between the slashes is there exactly if the whole WWID agrees and a slash follows. -/
theorem prefix_of_agreement {w a t : CStr} {d : Char} (hpre : a <+: w)
    (hmax : w[a.length]? ≠ some d) :
    w ++ ['/'] <+: a ++ d :: t ↔ a.length = w.length ∧ d = '/' := by
  constructor
  · intro h
    obtain heq | hlt := Nat.eq_or_lt_of_le hpre.length_le
    · obtain rfl := hpre.eq_of_length heq
      obtain ⟨r, hr⟩ := h
      rw [List.append_assoc, List.append_cancel_left_eq] at hr
      exact ⟨rfl, (List.cons.inj hr).1.symm⟩
    · obtain ⟨r, hr⟩ := h
      have hget := congrArg (·[a.length]?) hr
      simp only [List.append_assoc, List.getElem?_append_left hlt,
        List.getElem?_append_right le_rfl, Nat.sub_self, List.getElem?_cons_zero] at hget
      exact absurd hget hmax
  · rintro ⟨heq, rfl⟩
    rw [hpre.eq_of_length heq]
    exact ⟨t, by simp⟩

/-- The comparison ends at a character that does not agree. -/
theorem compareWwid_stop {w : CStr} {n : ℕ} {d : Char} (hmax : w[n]? ≠ some d) (hd : d ≠ '/')
    (t : CStr) : compareWwid w n (d :: t) = .next t := by
  rw [compareWwid, if_neg hd]
  split_ifs
  · rfl
  · cases he : w[n]? with
    | none => rfl
    | some e =>
      have hne : (d.toNat : ℤ) ≠ charInt e := fun h =>
        hmax ((toNat_eq_charInt_iff.mp h).1 ▸ he)
      dsimp only
      rw [if_pos hne]

/-- The lines that are left when the rest of the line at a place is skipped. -/
theorem getlines_afterLine {content : CStr} (hlines : ∀ l ∈ getlines content, l.length < lineMax)
    (k : ℕ) : getlines (afterLine (content.drop k)) =
      (getlines content).drop (1 + (content.take k).count '\n') := by
  induction k generalizing content with
  | zero =>
    obtain rfl | ⟨hne, hs⟩ | ⟨a, t, rfl, ha⟩ := text_cases content
    · rfl
    · rw [getlines_last hne hs] at hlines ⊢
      have hshort := hlines content (List.mem_singleton_self content)
      rw [List.drop_zero, afterLine_last hs (Nat.le_pred_of_lt hshort)]
      rfl
    · rw [getlines_line ha] at hlines ⊢
      have hshort := (List.forall_mem_cons.mp hlines).1
      rw [List.length_append, List.length_singleton] at hshort
      rw [List.drop_zero, afterLine_line ha (Nat.lt_pred_of_succ_lt hshort)]
      rfl
  | succ k ih =>
    cases content with
    | nil => rfl
    | cons c s =>
      rw [List.drop_succ_cons, List.take_succ_cons]
      by_cases hc : c = '\n'
      · subst hc
        rw [getlines, if_pos rfl] at hlines ⊢
        rw [ih (List.forall_mem_cons.mp hlines).2, List.count_cons_self]
        rfl
      · rw [getlines, if_neg hc] at hlines ⊢
        have hs : ∀ l ∈ getlines s, l.length < lineMax := by
          cases hget : getlines s with
          | nil => exact List.forall_mem_nil _
          | cons line lines =>
            rw [hget] at hlines
            obtain ⟨hline, hrest⟩ := List.forall_mem_cons.mp hlines
            exact List.forall_mem_cons.mpr ⟨Nat.lt_of_succ_lt hline, hrest⟩
        rw [ih hs, List.count_cons_of_ne hc, Nat.add_comm]
        cases getlines s <;> simp

theorem getlines_nextLines (w : CStr) {content : CStr}
    (hlines : ∀ l ∈ getlines content, l.length < lineMax) :
    nextLines w (getlines content) = getlines (afterLine (content.drop (readAhead w content))) := by
  rw [nextLines, flatten_getlines, getlines_afterLine hlines]

theorem readAhead_pos (w : CStr) {s : CStr} (hs : s ≠ []) : 0 < readAhead w s := by
  obtain ⟨c, s, rfl⟩ := List.exists_cons_of_ne_nil hs
  rw [readAhead]
  split_ifs <;> omega

section Starts

variable {w : CStr} (hlen : w.length < Alias.wwidSize) (hslash : '/' ∉ w) (hu : Unsigned w)
include hlen hslash hu

/-- The text is found where the lookup starts, or the lookup goes on behind the line that it has
come to. -/
theorem lookupWwid_step (s : CStr) : lookupWwid w s = true ↔
    activeText w <+: s ∨ lookupWwid w (afterLine (s.drop (readAhead w s))) = true := by
  cases s with
  | nil =>
    have hnil : afterLine [] = [] := rfl
    simp [hnil, lookupWwid_nil, activeText]
  | cons c s =>
    by_cases hc : c = '/'
    · subst hc
      obtain ⟨hpre, hmax⟩ := agreement_prefix w s
      have hread : readAhead w ('/' :: s) = agreement w s + 2 := rfl
      generalize agreement w s = n at hpre hmax hread
      have hdrop : ('/' :: s).drop (readAhead w ('/' :: s)) = (s.drop n).drop 1 := by
        rw [hread, List.drop_drop]
        rfl
      have hcmp := compareWwid_agree hlen hslash hu (Nat.zero_le _) (a := s.take n)
        (by simpa using hpre) (s.drop n)
      rw [List.take_append_drop, Nat.zero_add] at hcmp
      rw [hdrop, lookupWwid_slash, hcmp, prefix_activeText]
      cases hs : s.drop n with
      | nil =>
        have hnil : afterLine ([] : CStr) = [] := rfl
        have hno : ¬ w ++ ['/'] <+: s := by
          intro h
          have hle := h.length_le
          have hle' := hpre.length_le
          rw [List.take_of_length_le (List.drop_eq_nil_iff.mp hs)] at hle'
          rw [List.length_append, List.length_singleton] at hle
          omega
        simp [compareWwid, hno, hnil, lookupWwid_nil]
      | cons d t =>
        have hlt : n < s.length := by
          by_contra hle
          rw [List.drop_eq_nil_of_le (not_lt.mp hle)] at hs
          cases hs
        have htake : (s.take n).length = n := List.length_take_of_le hlt.le
        have hiff := prefix_of_agreement (t := t) hpre (htake.symm ▸ hmax d t hs)
        rw [← hs, List.take_append_drop, htake] at hiff
        rw [htake, hiff]
        by_cases hd : d = '/'
        · subst hd
          rw [compareWwid, if_pos rfl]
          dsimp only
          by_cases hn : w.length = n
          · rw [if_pos hn]
            exact iff_of_true rfl (.inl ⟨hn.symm, rfl⟩)
          · rw [if_neg hn, ← afterLine, lookupWwid_afterLine, or_iff_right fun h => hn h.1.symm]
            rfl
        · rw [compareWwid_stop (hmax d t hs) hd, or_iff_right fun h => hd h.2]
          dsimp only
          rw [← afterLine, lookupWwid_afterLine]
          rfl
    · have hmiss : ¬ activeText w <+: c :: s := fun h => hc (List.cons_prefix_cons.mp h).1.symm
      have hread : readAhead w (c :: s) = 1 := if_neg hc
      rw [or_iff_right hmiss, hread, lookupWwid, if_pos hc, ← afterLine, lookupWwid_afterLine]
      rfl

/-- The WWID is found exactly if it stands at one of the lines that the lookup comes to. -/
theorem lookupWwid_starts (content : CStr) (hlines : ∀ l ∈ getlines content, l.length < lineMax) :
    lookupWwid w content = true ↔
      ∃ n, activeText w <+: ((nextLines w)^[n] (getlines content)).flatten := by
  induction hk : content.length using Nat.strong_induction_on generalizing content with
  | _ k ih =>
    obtain rfl | hne := eq_or_ne content []
    · have hnil : nextLines w [] = [] := List.drop_nil
      have hfix : ∀ n, (nextLines w)^[n] (getlines []) = [] := Function.iterate_fixed hnil
      simp [hfix, lookupWwid_nil, activeText]
    · have hnext := getlines_nextLines w hlines
      have hpos := readAhead_pos w hne
      have hlt : (afterLine (content.drop (readAhead w content))).length < k := by
        have hle := (afterLine_suffix (content.drop (readAhead w content))).length_le
        have hpos' := List.length_pos_iff.mpr hne
        rw [List.length_drop] at hle
        omega
      have hrest : ∀ l ∈ getlines (afterLine (content.drop (readAhead w content))),
          l.length < lineMax := by
        intro l hl
        rw [← hnext] at hl
        exact hlines l (List.mem_of_mem_drop hl)
      rw [lookupWwid_step hlen hslash hu, ih _ hlt _ hrest rfl, ← hnext]
      constructor
      · rintro (h | ⟨n, h⟩)
        · exact ⟨0, by rwa [Function.iterate_zero_apply, flatten_getlines]⟩
        · exact ⟨n + 1, by rwa [Function.iterate_succ_apply]⟩
      · rintro ⟨_ | n, h⟩
        · exact .inl (by rwa [Function.iterate_zero_apply, flatten_getlines] at h)
        · exact .inr ⟨n, by rwa [Function.iterate_succ_apply] at h⟩

end Starts

/-- No line has a line break between the slashes. -/
theorem not_activeText_of_newline {w l content : CStr} (hw : '\n' ∈ w) (hl : l ∈ getlines content) :
    ¬ activeText w <+: l := by
  have hmem : '\n' ∈ activeText w := by simp [activeText, hw]
  obtain ⟨a, ha, rfl | rfl⟩ := line_of_mem_getlines hl
  · exact fun h => ha (h.subset hmem)
  · intro h
    have hpre : ('/' :: w) ++ ['/'] <+: a ++ ['\n'] := h
    exact ha ((activeText_prefix_newline.mp hpre).subset hmem)

/-- The lookup is right about a WWID without a line break exactly if no line is that of the WWID,
or no character of the WWID is negative and some such line comes after an even number of lines that
make the lookup skip the next one. It is right about a WWID with a line break, which no line can
have, exactly if the lookup does not come to a place where the WWID stands over several lines. -/
theorem lookupWwid_iff (w content : CStr) (hlen : w.length < Alias.wwidSize) (hslash : '/' ∉ w)
    (hlines : ∀ l ∈ getlines content, l.length < lineMax) :
    ('\n' ∉ w →
      ((lookupWwid w content = true ↔ ∃ l ∈ getlines content, activeText w <+: l) ↔
        ((∀ l ∈ getlines content, ¬ activeText w <+: l) ∨
          (Unsigned w ∧ ∃ pre l post, getlines content = pre ++ l :: post ∧
            activeText w <+: l ∧ Even (skipsBefore (swallows w) pre))))) ∧
    ('\n' ∈ w →
      ((lookupWwid w content = true ↔ ∃ l ∈ getlines content, activeText w <+: l) ↔
        ¬ (Unsigned w ∧
          ∃ n, activeText w <+: ((nextLines w)^[n] (getlines content)).flatten))) := by
  constructor
  · intro hw
    have hfound : lookupWwid w content = true ↔ Unsigned w ∧
        ∃ pre l post, getlines content = pre ++ l :: post ∧ activeText w <+: l ∧
          Even (skipsBefore (swallows w) pre) := by
      refine ⟨fun h => ?_, fun ⟨hu, h⟩ => ?_⟩
      · have hu := unsigned_of_lookupWwid h
        rw [(lookupWwid_eq hlen hslash hu hw content hlines).1, skipSearch_iff] at h
        exact ⟨hu, by simpa only [decide_eq_true_eq] using h⟩
      · rw [(lookupWwid_eq hlen hslash hu hw content hlines).1, skipSearch_iff]
        simpa only [decide_eq_true_eq] using h
    rw [hfound]
    constructor
    · intro h
      by_cases hany : ∃ l ∈ getlines content, activeText w <+: l
      · exact .inr (h.mpr hany)
      · push Not at hany
        exact .inl hany
    · rintro (hnone | hsome)
      · constructor
        · rintro ⟨-, pre, l, post, heq, hl, -⟩
          exact absurd hl (hnone l (by simp [heq]))
        · rintro ⟨l, hl, hpre⟩
          exact absurd hpre (hnone l hl)
      · obtain ⟨-, pre, l, post, heq, hl, -⟩ := id hsome
        exact ⟨fun _ => ⟨l, by simp [heq], hl⟩, fun _ => hsome⟩
  · intro hw
    have hnone : ¬ ∃ l ∈ getlines content, activeText w <+: l := by
      rintro ⟨l, hl, hpre⟩
      exact not_activeText_of_newline hw hl hpre
    rw [iff_false_right hnone, not_iff_not]
    refine ⟨fun h => ?_, fun ⟨hu, h⟩ => (lookupWwid_starts hlen hslash hu content hlines).mpr h⟩
    have hu := unsigned_of_lookupWwid h
    exact ⟨hu, (lookupWwid_starts hlen hslash hu content hlines).mp h⟩

/-- A blank line before the line of the WWID, and two of them. -/
def blankBefore : CStr := "# Valid WWIDs:\n\n/3600/\n".toList
def twoBlanksBefore : CStr := "# Valid WWIDs:\n\n\n/3600/\n".toList

/-- The second line makes the lookup skip the third one, and with it the two lines of the WWID. -/
def brokenLines : CStr := "# Valid WWIDs:\n/36\n/36\n00/\n".toList

theorem lookupWwid_iff_blanks :
    (lookupWwid "3600".toList twoBlanksBefore = true ↔
      ∃ l ∈ getlines twoBlanksBefore, activeText "3600".toList <+: l) ∧
    ((lookupWwid "36\n00".toList brokenLines = true ↔
        ∃ l ∈ getlines brokenLines, activeText "36\n00".toList <+: l) ↔
      ¬ (Unsigned "36\n00".toList ∧
        ∃ n, activeText "36\n00".toList <+:
          ((nextLines "36\n00".toList)^[n] (getlines brokenLines)).flatten)) := by
  constructor
  · refine ((lookupWwid_iff "3600".toList twoBlanksBefore (by decide) (by decide)
      (by decide +kernel)).1 (by decide)).mpr (.inr ⟨by decide, ?_⟩)
    exact ⟨["# Valid WWIDs:\n".toList, "\n".toList, "\n".toList], "/3600/\n".toList, [],
      by decide +kernel, by decide, by decide⟩
  · exact (lookupWwid_iff "36\n00".toList brokenLines (by decide) (by decide)
      (by decide +kernel)).2 (by decide)

theorem lookupWwid_blank : ¬ ∀ (w content : CStr), w ≠ [] → '/' ∉ w → w.length < Alias.wwidSize →
    (∀ l ∈ getlines content, l.length < lineMax) →
      (lookupWwid w content = true ↔ ∃ l ∈ getlines content, activeText w <+: l) := by
  intro h
  have hiff := h "3600".toList blankBefore (by decide) (by decide) (by decide) (by decide +kernel)
  have hmiss : lookupWwid "3600".toList blankBefore = false := by decide +kernel
  rw [hmiss] at hiff
  exact Bool.false_ne_true (hiff.mpr ⟨"/3600/\n".toList, by decide +kernel, by decide⟩)

end MultipathTools.Wwids
