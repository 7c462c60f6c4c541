import MultipathTools.Dmparser.Disassemble
import MultipathTools.Features.Spacing

/-! The words that `get_word` has ahead of it in a text. If the text ends with a blank, every
word is passed over that is read; if it ends with a word, that one is never used up. -/
namespace MultipathTools.Dmparser

open MultipathTools.Features

variable {p q w : CStr} {ws : List CStr}

/-- The text ends with a blank, or is empty. -/
def EndsBlank (p : CStr) : Prop := ∀ c ∈ p.getLast?, c = ' '

/-- The text ends with a word, or is empty. -/
def EndsWord (p : CStr) : Prop := ∀ c ∈ p.getLast?, c ≠ ' '

theorem endsBlank_of_getLast? (h : p.getLast? = some ' ') : EndsBlank p :=
  fun _ hc => Option.some.inj ((Option.mem_def.mp hc).symm.trans h)

theorem endsWord_of_getLast? (h : p.getLast? ≠ some ' ') : EndsWord p := by
  rintro c hc rfl
  exact h (Option.mem_def.mp hc)

theorem mem_getLast?_of_suffix {c : Char} (h : q <:+ p) (hc : c ∈ q.getLast?) :
    c ∈ p.getLast? := by
  obtain ⟨l, rfl⟩ := h
  have hne : q ≠ [] := by
    rintro rfl
    cases hc
  rwa [List.getLast?_append_of_ne_nil l hne]

theorem EndsBlank.of_suffix (hp : EndsBlank p) (h : q <:+ p) : EndsBlank q :=
  fun c hc => hp c (mem_getLast?_of_suffix h hc)

theorem EndsWord.of_suffix (hp : EndsWord p) (h : q <:+ p) : EndsWord q :=
  fun c hc => hp c (mem_getLast?_of_suffix h hc)

theorem getWord_suffix (p : CStr) : (getWord p).2 <:+ p := by
  have hrest : (p.dropWhile (· = ' ')).dropWhile (· ≠ ' ') <:+ p :=
    (List.dropWhile_suffix _).trans (List.dropWhile_suffix _)
  unfold getWord
  dsimp only
  split_ifs
  · exact List.suffix_rfl
  · exact List.suffix_rfl
  · exact hrest

theorem suffix_of_getWord {v : Option CStr} (h : getWord p = (v, q)) : q <:+ p := by
  have hs := getWord_suffix p
  rwa [h] at hs

theorem skipWord_suffix (p : CStr) : skipWord p <:+ p := by
  unfold skipWord
  dsimp only
  split_ifs
  · exact List.suffix_rfl
  · exact (List.dropWhile_suffix _).trans (List.dropWhile_suffix _)

theorem skipWords_suffix (n : ℕ) (p : CStr) : skipWords n p <:+ p := by
  induction n generalizing p with
  | zero => exact List.suffix_rfl
  | succ n ih => exact (ih (skipWord p)).trans (skipWord_suffix p)

theorem splitWords_dropWhile (p : CStr) : splitWords (p.dropWhile (· = ' ')) = splitWords p := by
  have hblank : ∀ c ∈ p.takeWhile (· = ' '), c = ' ' := by
    intro c hc
    simpa using List.mem_takeWhile_imp hc
  have happ := splitWords_blanks (s := p.dropWhile (· = ' ')) hblank
  rw [List.takeWhile_append_dropWhile] at happ
  exact happ.symm

/-- What is behind the blanks at the beginning starts with the next word. -/
theorem splitWords_eq_cons (h : p.dropWhile (· = ' ') ≠ []) :
    splitWords p = (p.dropWhile (· = ' ')).takeWhile (· ≠ ' ') ::
      splitWords ((p.dropWhile (· = ' ')).dropWhile (· ≠ ' ')) := by
  have hhead : ∀ c ∈ (p.dropWhile (· = ' ')).head?, c ≠ ' ' := by
    intro c hc
    have hnot := List.head?_dropWhile_not (· = ' ') p
    rw [Option.mem_def.mp hc] at hnot
    simpa using hnot
  rw [← splitWords_dropWhile p]
  generalize p.dropWhile (· = ' ') = t at h hhead
  have hne : t.takeWhile (· ≠ ' ') ≠ [] := by
    obtain ⟨c, t, rfl⟩ := List.exists_cons_of_ne_nil h
    have hc : c ≠ ' ' := hhead c rfl
    simp [hc]
  have hword : ' ' ∉ t.takeWhile (· ≠ ' ') := by
    intro hmem
    simpa using List.mem_takeWhile_imp hmem
  have hrest : ∀ c ∈ (t.dropWhile (· ≠ ' ')).head?, c = ' ' := by
    intro c hc
    have hnot := List.head?_dropWhile_not (· ≠ ' ') t
    rw [Option.mem_def.mp hc] at hnot
    simpa using hnot
  calc splitWords t = splitWords (t.takeWhile (· ≠ ' ') ++ t.dropWhile (· ≠ ' ')) := by
        rw [List.takeWhile_append_dropWhile]
    _ = splitWords (t.takeWhile (· ≠ ' ')) ++ splitWords (t.dropWhile (· ≠ ' ')) :=
      splitWords_append_of_head hrest
    _ = t.takeWhile (· ≠ ' ') :: splitWords (t.dropWhile (· ≠ ' ')) := by
      rw [splitWords_word hne hword]
      rfl

theorem splitWords_eq_nil_iff : splitWords p = [] ↔ p.dropWhile (· = ' ') = [] := by
  constructor
  · intro h
    by_contra hne
    rw [splitWords_eq_cons hne] at h
    cases h
  · intro h
    rw [← splitWords_dropWhile, h, splitWords_nil]

theorem getWord_of_nil (h : splitWords p = []) : getWord p = (none, p) := by
  rw [getWord, if_pos (splitWords_eq_nil_iff.mp h)]

theorem splitWords_skipWord (p : CStr) : splitWords (skipWord p) = (splitWords p).tail := by
  unfold skipWord
  dsimp only
  split_ifs with h
  · rw [splitWords_eq_nil_iff.mpr h]
    rfl
  · rw [splitWords_eq_cons h]
    rfl

theorem splitWords_skipWords (n : ℕ) (p : CStr) :
    splitWords (skipWords n p) = (splitWords p).drop n := by
  induction n generalizing p with
  | zero => rfl
  | succ n ih =>
    rw [skipWords, ih, splitWords_skipWord, ← List.drop_one, List.drop_drop, Nat.add_comm]

/-- A text of one word, with no blank behind it, does not end with a blank. -/
theorem endsWord_of_dropWhile (hne : p ≠ []) (h : p.dropWhile (· ≠ ' ') = []) : ¬EndsBlank p := by
  intro hp
  have hlast := List.getLast?_eq_some_getLast hne
  have hall := List.dropWhile_eq_nil_iff.mp h _ (List.getLast_mem hne)
  exact of_decide_eq_true hall (hp _ hlast)

/-- One word is read; the last one stays. -/
theorem exists_getWord (h : splitWords p = w :: ws) :
    ∃ q, getWord p = (some (strchop w), q) ∧ q <:+ p ∧
      ((q = p ∧ ws = [] ∧ ¬EndsBlank p) ∨ (splitWords q = ws ∧ q ≠ [])) := by
  have hne : p.dropWhile (· = ' ') ≠ [] := by
    intro hnil
    exact absurd (h.symm.trans (splitWords_eq_nil_iff.mpr hnil)) (List.cons_ne_nil w ws)
  obtain ⟨hw, hws⟩ := List.cons.inj ((splitWords_eq_cons hne).symm.trans h)
  have hsuffix := getWord_suffix p
  unfold getWord at hsuffix ⊢
  dsimp only at hsuffix ⊢
  rw [if_neg hne] at hsuffix ⊢
  rw [hw] at hsuffix ⊢
  refine ⟨_, rfl, hsuffix, ?_⟩
  split_ifs with hrest
  · left
    rw [hrest, splitWords_nil] at hws
    exact ⟨rfl, hws.symm, fun hp =>
      endsWord_of_dropWhile hne hrest (hp.of_suffix (List.dropWhile_suffix _))⟩
  · exact Or.inr ⟨hws, hrest⟩

/-- The words ahead in a text that ends with a blank. -/
structure Ahead (p : CStr) (ws : List CStr) : Prop where
  blank : EndsBlank p
  words : splitWords p = ws

theorem Ahead.getWord_nil (h : Ahead p []) : getWord p = (none, p) := getWord_of_nil h.words

theorem Ahead.getWord_cons (h : Ahead p (w :: ws)) :
    ∃ q, getWord p = (some (strchop w), q) ∧ Ahead q ws := by
  obtain ⟨q, hq, hsuffix, ⟨-, -, hblank⟩ | ⟨hwords, -⟩⟩ := exists_getWord h.words
  · exact absurd h.blank hblank
  · exact ⟨q, hq, h.blank.of_suffix hsuffix, hwords⟩

theorem Ahead.skipWord (h : Ahead p ws) : Ahead (skipWord p) (ws.drop 1) := by
  refine ⟨h.blank.of_suffix (skipWord_suffix p), ?_⟩
  rw [splitWords_skipWord, h.words, List.drop_one]

theorem Ahead.skipWords (h : Ahead p ws) (n : ℕ) : Ahead (skipWords n p) (ws.drop n) := by
  refine ⟨h.blank.of_suffix (skipWords_suffix n p), ?_⟩
  rw [splitWords_skipWords, h.words]

/-- Where the reading goes on: at these words, or not at all if there are none. -/
def Resume : Option CStr → List CStr → Prop
  | none, ws => ws = []
  | some p, ws => Ahead p ws

theorem Ahead.mergeArgs (h : Ahead p ws) (n : ℕ) (dst : CStr) :
    Resume (mergeArgs n p dst).2 (ws.drop n) := by
  induction n generalizing p ws dst with
  | zero => exact h
  | succ n ih =>
    cases ws with
    | nil =>
      rw [Dmparser.mergeArgs, h.getWord_nil]
      rfl
    | cons w ws =>
      obtain ⟨q, hq, hahead⟩ := h.getWord_cons
      rw [Dmparser.mergeArgs, hq]
      exact ih hahead _

/-- The number that a word announces. -/
def number (w : CStr) : ℕ := (atoi (strchop w)).toNat

/-- The words behind a count and the arguments that it announces. -/
def behindArgs (ws : List CStr) : List CStr := ws.drop (1 + number (ws.headD []))

theorem Ahead.readArgs (h : Ahead p ws) : Resume (readArgs p).2 (behindArgs ws) := by
  cases ws with
  | nil =>
    rw [Dmparser.readArgs, h.getWord_nil]
    rfl
  | cons w ws =>
    obtain ⟨q, hq, hahead⟩ := h.getWord_cons
    rw [Dmparser.readArgs, hq]
    have hmerge := hahead.mergeArgs (number w) (strchop w)
    rwa [behindArgs, Nat.add_comm]

theorem getWord_ne_nil (h : getWord p = (some w, q)) : q ≠ [] := by
  unfold getWord at h
  dsimp only at h
  split_ifs at h with hnil hrest
  · cases h
  · obtain rfl := (Prod.mk.inj h).2
    rintro rfl
    exact hnil rfl
  · obtain rfl := (Prod.mk.inj h).2
    exact hrest

/-- After a word has been read, there is one again: that one, if it is the last. -/
theorem EndsWord.getWord_again (hp : EndsWord p) (h : getWord p = (some w, q)) :
    EndsWord q ∧ (getWord q).1 ≠ none := by
  have hq := hp.of_suffix (suffix_of_getWord h)
  refine ⟨hq, ?_⟩
  have hne : q.dropWhile (· = ' ') ≠ [] := by
    intro hnil
    have hlast := List.getLast?_eq_some_getLast (getWord_ne_nil h)
    have hblank := List.dropWhile_eq_nil_iff.mp hnil _ (List.getLast_mem (getWord_ne_nil h))
    exact hq _ hlast (of_decide_eq_true hblank)
  unfold getWord
  dsimp only
  rw [if_neg hne]
  exact Option.some_ne_none _

theorem suffix_of_mergeArgs {n : ℕ} {dst : CStr} (h : (mergeArgs n p dst).2 = some q) :
    q <:+ p := by
  induction n generalizing p dst with
  | zero =>
    obtain rfl : p = q := Option.some.inj h
    exact List.suffix_rfl
  | succ n ih =>
    rw [mergeArgs] at h
    rcases hw : getWord p with ⟨_ | w, r⟩
    · rw [hw] at h
      cases h
    · rw [hw] at h
      exact (ih h).trans (suffix_of_getWord hw)

theorem suffix_of_readArgs (h : (readArgs p).2 = some q) : q <:+ p := by
  rw [readArgs] at h
  rcases hw : getWord p with ⟨_ | w, r⟩
  · rw [hw] at h
    cases h
  · rw [hw] at h
    exact (suffix_of_mergeArgs h).trans (suffix_of_getWord hw)

end MultipathTools.Dmparser
