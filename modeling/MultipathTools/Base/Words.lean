import Mathlib.Data.List.TakeWhile
import MultipathTools.Base.CString

/-! Texts that are built from words with one blank before each of them, the substrings that contain no
blank, and the tokeniser `strtok_r` with blanks as separators. -/
namespace MultipathTools

section Words

/-- A word: not empty and without white space. -/
def IsWord (w : CStr) : Prop := w ≠ [] ∧ ∀ c ∈ w, isspace c = false

instance (w : CStr) : Decidable (IsWord w) := inferInstanceAs (Decidable (_ ∧ _))

/-- The words, each after a blank. -/
def unwords (ws : List CStr) : CStr := ws.flatMap (' ' :: ·)

@[simp] theorem unwords_nil : unwords [] = [] := rfl

@[simp] theorem unwords_cons (w : CStr) (ws : List CStr) :
    unwords (w :: ws) = ' ' :: (w ++ unwords ws) := rfl

@[simp] theorem unwords_append (vs ws : List CStr) :
    unwords (vs ++ ws) = unwords vs ++ unwords ws := by
  simp [unwords]

theorem unwords_head (ws : List CStr) : ∀ c ∈ (unwords ws).head?, c = ' ' := by
  cases ws <;> simp

theorem length_le_unwords (ws : List CStr) : ws.length ≤ (unwords ws).length := by
  induction ws with
  | nil => simp
  | cons w ws ih =>
    simp only [unwords_cons, List.length_cons, List.length_append]
    omega

theorem IsWord.blank_not_mem {w : CStr} (h : IsWord w) : ' ' ∉ w := fun hm => by
  simpa [isspace] using h.2 ' ' hm

/-- A substring without the character `c` does not reach across it. -/
theorem infix_append_cons_iff {n a b : CStr} {c : Char} (hn : n ≠ []) (hc : c ∉ n) :
    n <:+: a ++ c :: b ↔ n <:+: a ∨ n <:+: b := by
  constructor
  · rintro ⟨s, t, h⟩
    rw [List.append_assoc, List.append_eq_append_iff] at h
    obtain ⟨a', rfl, h⟩ | ⟨s', rfl, h⟩ := h
    · rw [List.append_eq_append_iff] at h
      obtain ⟨u, rfl, -⟩ | ⟨u, rfl, h⟩ := h
      · exact .inl ⟨s, u, by simp⟩
      · cases u with
        | nil => exact .inl ⟨s, [], by simp⟩
        | cons d u =>
          cases h
          exact absurd (by simp) hc
    · cases s' with
      | nil =>
        obtain ⟨d, n, rfl⟩ := List.exists_cons_of_ne_nil hn
        cases h
        exact absurd List.mem_cons_self hc
      | cons d s' =>
        cases h
        exact .inr ⟨s', t, by simp⟩
  · rintro (⟨s, t, rfl⟩ | ⟨s, t, rfl⟩)
    · exact ⟨s, t ++ c :: b, by simp⟩
    · exact ⟨a ++ c :: s, t, by simp⟩

theorem infix_append_unwords_iff {n a : CStr} {ws : List CStr} (hn : n ≠ []) (hb : ' ' ∉ n) :
    n <:+: a ++ unwords ws ↔ n <:+: a ∨ ∃ w ∈ ws, n <:+: w := by
  induction ws generalizing a with
  | nil => simp
  | cons w ws ih =>
    rw [unwords_cons, infix_append_cons_iff hn hb, ih]
    simp

theorem prefix_of_prefix_append_cons {n a b : CStr} {c : Char} (hc : c ∉ n)
    (h : n <+: a ++ c :: b) : n <+: a := by
  have hac : a ++ [c] <+: a ++ c :: b := ⟨b, by simp⟩
  obtain hle | hlt := Nat.lt_or_ge a.length n.length
  · have hp : a ++ [c] <+: n :=
      List.prefix_of_prefix_length_le hac h (by simpa [Nat.succ_le_iff] using hle)
    exact absurd (hp.subset (by simp)) hc
  · exact List.prefix_of_prefix_length_le h (List.prefix_append _ _) hlt

/-- The first occurrence of a word is at the word itself, if the text before has none. -/
theorem strstr_append_word {n a b : CStr} (hn : n ≠ []) (hb : ' ' ∉ n) (ha : ¬ n <:+: a) :
    strstr n (a ++ ' ' :: (n ++ b)) = some (a ++ [' '], n ++ b) := by
  obtain ⟨d, m, rfl⟩ := List.exists_cons_of_ne_nil hn
  have hd : d ≠ ' ' := fun h => hb (h ▸ List.mem_cons_self)
  induction a with
  | nil =>
    rw [List.nil_append, strstr, if_neg (by simp [hd])]
    simp [strstr]
  | cons c a ih =>
    obtain ⟨hp, ha⟩ : ¬ d :: m <+: c :: a ∧ ¬ d :: m <:+: a := by
      simpa [List.infix_cons_iff] using ha
    have hno : ¬ d :: m <+: c :: (a ++ ' ' :: (d :: m ++ b)) := fun h =>
      hp (prefix_of_prefix_append_cons (a := c :: a) hb h)
    rw [List.cons_append, strstr, if_neg hno, ih ha]
    rfl

end Words

section Tokens

/-- The separators `" \t"`. -/
def isDelim (c : Char) : Bool := c = ' ' ∨ c = '\t'

/-- `strtok_r(s, " \t", &saveptr)`: the next token and the text that is left. -/
def strtok (s : CStr) : Option (CStr × CStr) :=
  match s.dropWhile isDelim with
  | [] => none
  | c :: t => some ((c :: t).takeWhile (!isDelim ·), (c :: t).dropWhile (!isDelim ·))

/-- The text has separators only. -/
def Blank (s : CStr) : Prop := ∀ c ∈ s, isDelim c = true

instance (s : CStr) : Decidable (Blank s) := inferInstanceAs (Decidable (∀ _ ∈ _, _))

/-- A token: not empty and without separators. -/
def IsToken (s : CStr) : Prop := s ≠ [] ∧ ∀ c ∈ s, isDelim c = false

instance (s : CStr) : Decidable (IsToken s) := inferInstanceAs (Decidable (_ ∧ _))

theorem dropWhile_delim_head (s : CStr) :
    ∀ c ∈ (s.dropWhile (!isDelim ·)).head?, isDelim c = true := by
  intro c hc
  have := List.head?_dropWhile_not (!isDelim ·) s
  rw [Option.mem_def] at hc
  simpa [hc] using this

theorem strtok_eq_none_iff {s : CStr} : strtok s = none ↔ Blank s := by
  rw [Blank, ← List.dropWhile_eq_nil_iff]
  unfold strtok
  cases s.dropWhile isDelim <;> simp

theorem strtok_token {b tok r : CStr} (hb : Blank b) (ht : IsToken tok)
    (hr : ∀ c ∈ r.head?, isDelim c = true) : strtok (b ++ (tok ++ r)) = some (tok, r) := by
  obtain ⟨c, t, rfl⟩ := List.exists_cons_of_ne_nil ht.1
  have hno : ∀ d ∈ c :: t, (!isDelim d) = true := fun d hd => by simp [ht.2 d hd]
  have hrest : r.takeWhile (!isDelim ·) = [] ∧ r.dropWhile (!isDelim ·) = r := by
    cases r with
    | nil => simp
    | cons d r => simp [hr d rfl]
  have hdrop : (b ++ (c :: t ++ r)).dropWhile isDelim = c :: (t ++ r) := by
    rw [List.dropWhile_append_of_pos hb, List.cons_append, List.dropWhile_cons_of_neg]
    simp [ht.2 c List.mem_cons_self]
  unfold strtok
  rw [hdrop]
  dsimp only
  rw [← List.cons_append, List.takeWhile_append_of_pos hno, List.dropWhile_append_of_pos hno,
    hrest.1, hrest.2, List.append_nil]

/-- What `strtok_r` has found: separators, the token, then the end or a separator. -/
theorem strtok_eq_some {s tok rest : CStr} (h : strtok s = some (tok, rest)) :
    ∃ b, Blank b ∧ s = b ++ (tok ++ rest) ∧ IsToken tok ∧
      ∀ c ∈ rest.head?, isDelim c = true := by
  unfold strtok at h
  cases hd : s.dropWhile isDelim with
  | nil => simp [hd] at h
  | cons c t =>
    rw [hd] at h
    obtain ⟨rfl, rfl⟩ := Prod.mk.inj (Option.some.inj h)
    have hc : isDelim c = false := by
      have := List.head?_dropWhile_not isDelim s
      simpa [hd] using this
    refine ⟨s.takeWhile isDelim, fun d hm => List.mem_takeWhile_imp hm, ?_, ⟨by simp [hc], ?_⟩,
      dropWhile_delim_head _⟩
    · rw [List.takeWhile_append_dropWhile, ← hd, List.takeWhile_append_dropWhile]
    · intro d hm
      simpa using List.mem_takeWhile_imp hm

/-- Text after a token that ends before it, and text that makes the token longer. -/
theorem strtok_append {s tok rest : CStr} (h : strtok s = some (tok, rest)) (v : CStr) :
    strtok (s ++ v) =
      if rest = [] then some (tok ++ v.takeWhile (!isDelim ·), v.dropWhile (!isDelim ·))
      else some (tok, rest ++ v) := by
  obtain ⟨b, hb, rfl, ht, hr⟩ := strtok_eq_some h
  split_ifs with hn
  · subst hn
    have ht' : IsToken (tok ++ v.takeWhile (!isDelim ·)) := by
      refine ⟨by simp [ht.1], fun c hc => ?_⟩
      obtain hc | hc := List.mem_append.mp hc
      · exact ht.2 c hc
      · simpa using List.mem_takeWhile_imp hc
    have := strtok_token hb ht' (dropWhile_delim_head v)
    simpa [List.takeWhile_append_dropWhile] using this
  · obtain ⟨d, r, rfl⟩ := List.exists_cons_of_ne_nil hn
    simpa using strtok_token (r := d :: r ++ v) hb ht (by simpa using hr)

theorem strtok_blank_append {b : CStr} (hb : Blank b) (s : CStr) : strtok (b ++ s) = strtok s := by
  unfold strtok
  rw [List.dropWhile_append_of_pos hb]

theorem strtok_length {s tok rest : CStr} (h : strtok s = some (tok, rest)) :
    tok.length + rest.length ≤ s.length := by
  obtain ⟨b, -, rfl, -⟩ := strtok_eq_some h
  simp only [List.length_append]
  omega

end Tokens

end MultipathTools
