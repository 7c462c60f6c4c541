import Mathlib.Algebra.BigOperators.Group.List.Basic
import MultipathTools.Features.Queueing

/-! The words of a text, however many blanks are between them. -/
namespace MultipathTools.Features

variable {a b l r s w : CStr} {c : Char}

theorem splitWords_append_cons (a b : CStr) :
    splitWords (a ++ ' ' :: b) = splitWords a ++ splitWords b := by
  rw [splitWords, List.splitOnP_append_cons a b (decide_eq_true rfl), List.filter_append]
  rfl

theorem splitWords_nil : splitWords [] = [] := by
  rw [splitWords, List.splitOnP_nil]
  rfl

theorem splitWords_blank (b : CStr) : splitWords (' ' :: b) = splitWords b := by
  have h := splitWords_append_cons [] b
  rwa [splitWords_nil] at h

theorem splitWords_word (hne : w ≠ []) (hw : ' ' ∉ w) : splitWords w = [w] := by
  have hno : ∀ c ∈ w, decide (c = ' ') = false := by
    intro c hc
    rw [decide_eq_false_iff_not]
    rintro rfl
    exact hw hc
  rw [splitWords, List.splitOnP_eq_singleton hno, List.filter_singleton, decide_eq_true hne]
  rfl

/-- A text that ends where a word ends. -/
theorem splitWords_append_of_head (hr : ∀ c ∈ r.head?, c = ' ') :
    splitWords (s ++ r) = splitWords s ++ splitWords r := by
  cases r with
  | nil => rw [splitWords_nil, List.append_nil, List.append_nil]
  | cons c r =>
    obtain rfl : c = ' ' := hr c rfl
    rw [splitWords_append_cons, splitWords_blank]

/-- A text that begins where a word begins. -/
theorem splitWords_append_of_getLast (hl : ∀ c ∈ l.getLast?, c = ' ') :
    splitWords (l ++ s) = splitWords l ++ splitWords s := by
  cases l using List.reverseRecOn with
  | nil => rw [splitWords_nil, List.nil_append, List.nil_append]
  | append_singleton l c =>
    obtain rfl : c = ' ' := hl c (by simp)
    rw [splitWords_append_cons l [], splitWords_nil, List.append_nil, List.append_assoc]
    exact splitWords_append_cons l s

theorem splitWords_blanks (ha : ∀ c ∈ a, c = ' ') : splitWords (a ++ s) = splitWords s := by
  induction a with
  | nil => rfl
  | cons c a ih =>
    obtain rfl : c = ' ' := ha c List.mem_cons_self
    rw [List.cons_append, splitWords_blank]
    exact ih fun d hd => ha d (List.mem_cons_of_mem _ hd)

theorem splitWords_append_blanks (ha : ∀ c ∈ a, c = ' ') : splitWords (s ++ a) = splitWords s := by
  have hnone := @splitWords_blanks a [] ha
  rw [List.append_nil, splitWords_nil] at hnone
  rw [splitWords_append_of_head fun c hc => ha c (List.mem_of_head? hc), hnone, List.append_nil]

/-- The text up to the first blank, and from there on. -/
theorem exists_head_split (s : CStr) :
    ∃ w r, s = w ++ r ∧ ' ' ∉ w ∧ ∀ c ∈ r.head?, c = ' ' := by
  refine ⟨s.takeWhile (· ≠ ' '), s.dropWhile (· ≠ ' '), List.takeWhile_append_dropWhile.symm, ?_, ?_⟩
  · intro hmem
    have h := List.mem_takeWhile_imp hmem
    simp at h
  · intro c hc
    have h := List.head?_dropWhile_not (· ≠ ' ') s
    rw [Option.mem_def.mp hc] at h
    simpa using h

/-- The text up to the last blank, and what is behind it. -/
theorem exists_last_split (s : CStr) :
    ∃ l w, s = l ++ w ∧ ' ' ∉ w ∧ ∀ c ∈ l.getLast?, c = ' ' := by
  obtain ⟨w, r, hs, hw, hr⟩ := exists_head_split s.reverse
  refine ⟨r.reverse, w.reverse, ?_, ?_, ?_⟩
  · rw [← List.reverse_append, ← hs, List.reverse_reverse]
  · rwa [List.mem_reverse]
  · rwa [List.getLast?_reverse]

theorem splitWords_of_word (hw : ' ' ∉ w) :
    splitWords w = if w = [] then [] else [w] := by
  by_cases hne : w = []
  · rw [if_pos hne, hne, splitWords_nil]
  · rw [if_neg hne, splitWords_word hne hw]

/-- Induction on a text, word by word. -/
theorem words_induction {P : CStr → Prop} (hword : ∀ w, ' ' ∉ w → P w)
    (hblank : ∀ w s, ' ' ∉ w → P s → P (w ++ ' ' :: s)) (s : CStr) : P s := by
  induction hlen : s.length using Nat.strong_induction_on generalizing s with
  | _ n ih =>
    obtain ⟨w, r, rfl, hw, hr⟩ := exists_head_split s
    cases r with
    | nil =>
      rw [List.append_nil]
      exact hword w hw
    | cons c r =>
      obtain rfl : c = ' ' := hr c rfl
      rw [List.length_append, List.length_cons] at hlen
      exact hblank w r hw (ih r.length (by omega) r rfl)

theorem mem_splitWords (h : w ∈ splitWords s) : w ≠ [] ∧ ' ' ∉ w := by
  induction s using words_induction with
  | hword v hv =>
    rw [splitWords_of_word hv] at h
    by_cases hne : v = []
    · rw [if_pos hne] at h
      cases h
    · rw [if_neg hne, List.mem_singleton] at h
      rw [h]
      exact ⟨hne, hv⟩
  | hblank v s hv ih =>
    rw [splitWords_append_cons, splitWords_of_word hv] at h
    rcases List.mem_append.mp h with h | h
    · by_cases hne : v = []
      · rw [if_pos hne] at h
        cases h
      · rw [if_neg hne, List.mem_singleton] at h
        rw [h]
        exact ⟨hne, hv⟩
    · exact ih h

theorem infix_of_mem_splitWords (h : w ∈ splitWords s) : w <:+: s := by
  induction s using words_induction with
  | hword v hv =>
    rw [splitWords_of_word hv] at h
    by_cases hne : v = []
    · rw [if_pos hne] at h
      cases h
    · rw [if_neg hne, List.mem_singleton] at h
      rw [h]
  | hblank v s hv ih =>
    rw [splitWords_append_cons, splitWords_of_word hv] at h
    rcases List.mem_append.mp h with h | h
    · by_cases hne : v = []
      · rw [if_pos hne] at h
        cases h
      · rw [if_neg hne, List.mem_singleton] at h
        rw [h]
        exact (List.prefix_append v _).isInfix
    · have hs : s <:+: v ++ ' ' :: s := (List.suffix_cons ' ' s).isInfix.trans
        (List.suffix_append v _).isInfix
      exact (ih h).trans hs

/-- What contains no blank is inside of a word. -/
theorem infix_iff_splitWords (hne : w ≠ []) (hw : ' ' ∉ w) :
    w <:+: s ↔ ∃ v ∈ splitWords s, w <:+: v := by
  constructor
  · intro h
    induction s using words_induction with
    | hword v hv =>
      have hvne : v ≠ [] := by
        rintro rfl
        exact hne (List.eq_nil_of_infix_nil h)
      exact ⟨v, by rw [splitWords_word hvne hv]; exact List.mem_singleton_self v, h⟩
    | hblank v s hv ih =>
      rw [splitWords_append_cons]
      rcases (infix_append_cons_iff hne hw).mp h with h | h
      · have hvne : v ≠ [] := by
          rintro rfl
          exact hne (List.eq_nil_of_infix_nil h)
        rw [splitWords_word hvne hv]
        exact ⟨v, List.mem_append_left _ (List.mem_singleton_self v), h⟩
      · obtain ⟨u, hu, hwu⟩ := ih h
        exact ⟨u, List.mem_append_right _ hu, hwu⟩
  · rintro ⟨v, hv, hwv⟩
    exact hwv.trans (infix_of_mem_splitWords hv)

/-- Where one of the words stands in the text. -/
theorem exists_word_split {u v : List CStr} (h : splitWords s = u ++ w :: v) :
    ∃ b r, s = b ++ (w ++ r) ∧ splitWords b = u ∧ splitWords r = v ∧
      (∀ c ∈ b.getLast?, c = ' ') ∧ ∀ c ∈ r.head?, c = ' ' := by
  induction s using words_induction generalizing u with
  | hword x hx =>
    rw [splitWords_of_word hx] at h
    by_cases hne : x = []
    · rw [if_pos hne] at h
      simp at h
    · rw [if_neg hne] at h
      cases u with
      | nil =>
        obtain ⟨rfl, rfl⟩ := List.cons.inj h
        exact ⟨[], [], by simp, splitWords_nil, splitWords_nil, by simp, by simp⟩
      | cons y u => simp at h
  | hblank x t hx ih =>
    rw [splitWords_append_cons, splitWords_of_word hx] at h
    have hlater {u' : List CStr} (hu : splitWords x ++ u' = u) (ht : splitWords t = u' ++ w :: v) :
        ∃ b r, x ++ ' ' :: t = b ++ (w ++ r) ∧ splitWords b = u ∧ splitWords r = v ∧
          (∀ c ∈ b.getLast?, c = ' ') ∧ ∀ c ∈ r.head?, c = ' ' := by
      obtain ⟨b, r, rfl, hb, hr, hlast, hhead⟩ := ih ht
      refine ⟨x ++ ' ' :: b, r, by simp, ?_, hr, ?_, hhead⟩
      · rw [splitWords_append_cons, hb, hu]
      · intro c hc
        cases b using List.reverseRecOn with
        | nil => simpa using hc.symm
        | append_singleton b d =>
          apply hlast c
          rwa [← List.cons_append, ← List.append_assoc, List.getLast?_append_of_ne_nil _
            (List.cons_ne_nil d []), ← List.getLast?_append_of_ne_nil b
            (List.cons_ne_nil d [])] at hc
    by_cases hne : x = []
    · rw [if_pos hne, List.nil_append] at h
      exact hlater (by rw [hne, splitWords_nil, List.nil_append]) h
    · rw [if_neg hne] at h
      cases u with
      | nil =>
        obtain ⟨rfl, rfl⟩ := List.cons.inj h
        exact ⟨[], ' ' :: t, rfl, splitWords_nil, splitWords_blank t, by simp, by simp⟩
      | cons y u =>
        obtain ⟨rfl, ht⟩ := List.cons.inj h
        exact hlater (by rw [splitWords_word hne hx]; rfl) ht

/-- The number of characters that are no blanks. -/
def inked (s : CStr) : ℕ := s.countP (· ≠ ' ')

theorem inked_append (a b : CStr) : inked (a ++ b) = inked a + inked b := List.countP_append

theorem inked_word (hw : ' ' ∉ w) : inked w = w.length := by
  apply List.countP_eq_length.mpr
  intro c hc
  rw [decide_eq_true_eq]
  rintro rfl
  exact hw hc

theorem inked_blanks (ha : ∀ c ∈ a, c = ' ') : inked a = 0 := by
  apply List.countP_eq_zero.mpr
  intro c hc
  rw [ha c hc]
  decide

/-- The words have all characters that are no blanks. -/
theorem inked_eq_sum (s : CStr) : inked s = ((splitWords s).map List.length).sum := by
  have hone (w : CStr) (hw : ' ' ∉ w) : inked w = ((splitWords w).map List.length).sum := by
    rw [inked_word hw, splitWords_of_word hw]
    by_cases hne : w = []
    · rw [if_pos hne, hne]
      rfl
    · rw [if_neg hne]
      rfl
  induction s using words_induction with
  | hword w hw => exact hone w hw
  | hblank w s hw ih =>
    rw [splitWords_append_cons, List.map_append, List.sum_append, ← hone w hw, ← ih, inked_append]
    congr 1

theorem length_splitWords_le (s : CStr) : (splitWords s).length ≤ s.length := by
  calc (splitWords s).length = ((splitWords s).map List.length).length := (List.length_map _).symm
    _ ≤ ((splitWords s).map List.length).sum := by
      apply List.length_le_sum_of_one_le
      intro n hn
      obtain ⟨w, hw, rfl⟩ := List.mem_map.mp hn
      exact List.length_pos_iff.mpr (mem_splitWords hw).1
    _ = inked s := (inked_eq_sum s).symm
    _ ≤ s.length := List.countP_le_length

/-- A word that is put behind another one without a blank is no new word. -/
theorem length_splitWords_glue (hne : a ≠ []) (ha : ∀ c ∈ a.getLast?, c ≠ ' ') (hw : ' ' ∉ w) :
    (splitWords (a ++ w)).length = (splitWords a).length := by
  obtain ⟨l, x, rfl, hx, hl⟩ := exists_last_split a
  have hxne : x ≠ [] := by
    rintro rfl
    rw [List.append_nil] at ha hne
    have hlast := List.getLast?_eq_some_getLast hne
    exact ha _ hlast (hl _ hlast)
  have hxw : ' ' ∉ x ++ w := by
    rw [List.mem_append, not_or]
    exact ⟨hx, hw⟩
  rw [List.append_assoc, splitWords_append_of_getLast hl, splitWords_append_of_getLast hl,
    splitWords_word hxne hx, splitWords_word (List.append_ne_nil_of_left_ne_nil hxne w) hxw,
    List.length_append, List.length_append]
  rfl

end MultipathTools.Features
