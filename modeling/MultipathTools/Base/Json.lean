import MultipathTools.Base.Numeral

/-! JSON texts: the grammar of values, with what is left of the text behind a value, and texts that
spell a value under a condition on its strings. -/
namespace MultipathTools

/-- A JSON value. A number is told by its text. -/
inductive Json
  | null
  | bool (b : Bool)
  | num (text : List Char)
  | str (s : List Char)
  | arr (vs : List Json)
  | obj (ms : List (List Char × Json))

namespace Json

section Grammar

def isWs (c : Char) : Bool := c = ' ' ∨ c = '\t' ∨ c = '\n' ∨ c = '\r'

def skipWs (t : List Char) : List Char := t.dropWhile isWs

/-- A character that stands for itself in a string. -/
def IsPlain (c : Char) : Prop := 32 ≤ c.toNat ∧ c ≠ '"' ∧ c ≠ '\\'

instance (c : Char) : Decidable (IsPlain c) := inferInstanceAs (Decidable (_ ∧ _))

def IsHex4 (ds : List Char) : Prop := ds.length = 4 ∧ ∀ d ∈ ds, isxdigit d = true

/-- What comes behind a backslash, and the character that it stands for. -/
inductive Escape : List Char → Char → Prop
  | quote : Escape ['"'] '"'
  | backslash : Escape ['\\'] '\\'
  | slash : Escape ['/'] '/'
  | backspace : Escape ['b'] (Char.ofNat 8)
  | formFeed : Escape ['f'] (Char.ofNat 12)
  | newline : Escape ['n'] '\n'
  | carriageReturn : Escape ['r'] '\r'
  | tab : Escape ['t'] '\t'
  | unicode {ds : List Char} (hds : IsHex4 ds) (hvalid : (ofHex ds).isValidChar) :
    Escape ('u' :: ds) (Char.ofNat (ofHex ds))
  | surrogates {ds es : List Char} (hds : IsHex4 ds) (hes : IsHex4 es)
    (hhigh : 0xd800 ≤ ofHex ds ∧ ofHex ds < 0xdc00) (hlow : 0xdc00 ≤ ofHex es ∧ ofHex es < 0xe000) :
    Escape ('u' :: (ds ++ '\\' :: 'u' :: es))
      (Char.ofNat (0x10000 + (ofHex ds - 0xd800) * 0x400 + (ofHex es - 0xdc00)))

/-- A string behind its opening quote. -/
inductive StrBody : List Char → List Char → List Char → Prop
  | close (rest : List Char) : StrBody ('"' :: rest) [] rest
  | plain {c : Char} {x s rest : List Char} (hc : IsPlain c) (h : StrBody x s rest) :
    StrBody (c :: x) (c :: s) rest
  | escape {e : List Char} {c : Char} {x s rest : List Char} (he : Escape e c) (h : StrBody x s rest) :
    StrBody ('\\' :: (e ++ x)) (c :: s) rest

def IsDigits (ds : List Char) : Prop := ds ≠ [] ∧ ∀ d ∈ ds, d.isDigit = true

/-- A number: a sign, digits without a leading zero, and maybe a fraction and an exponent. -/
inductive IsNumber : List Char → Prop
  | mk {minus int frac exp : List Char} (hminus : minus = [] ∨ minus = ['-'])
    (hint : IsDigits int) (hzero : int.head? = some '0' → int = ['0'])
    (hfrac : frac = [] ∨ ∃ ds, IsDigits ds ∧ frac = '.' :: ds)
    (hexp : exp = [] ∨ ∃ e sign ds, (e = 'e' ∨ e = 'E') ∧ (sign = [] ∨ sign = ['-'] ∨ sign = ['+']) ∧
      IsDigits ds ∧ exp = e :: (sign ++ ds)) : IsNumber (minus ++ int ++ frac ++ exp)

def isNumberChar (c : Char) : Bool := c.isDigit ∨ c = '-' ∨ c = '+' ∨ c = '.' ∨ c = 'e' ∨ c = 'E'

/-- A number ends before this text. -/
def EndsNumber (rest : List Char) : Prop := ∀ c ∈ rest.head?, isNumberChar c = false

mutual

/-- The text begins with a value, and goes on with the rest. -/
inductive Value : List Char → Json → List Char → Prop
  | null {x rest : List Char} (hx : x = "null".toList ++ rest) : Value x .null rest
  | true {x rest : List Char} (hx : x = "true".toList ++ rest) : Value x (.bool Bool.true) rest
  | false {x rest : List Char} (hx : x = "false".toList ++ rest) : Value x (.bool Bool.false) rest
  | num {x t rest : List Char} (hx : x = t ++ rest) (ht : IsNumber t) (hrest : EndsNumber rest) :
    Value x (.num t) rest
  | str {x y s rest : List Char} (hx : x = '"' :: y) (hs : StrBody y s rest) : Value x (.str s) rest
  | emptyArr {x y rest : List Char} (hx : x = '[' :: y) (hy : skipWs y = ']' :: rest) :
    Value x (.arr []) rest
  | arr {x y rest : List Char} {vs : List Json} (hx : x = '[' :: y)
    (hvs : Elements (skipWs y) vs rest) : Value x (.arr vs) rest
  | emptyObj {x y rest : List Char} (hx : x = '{' :: y) (hy : skipWs y = '}' :: rest) :
    Value x (.obj []) rest
  | obj {x y rest : List Char} {ms : List (List Char × Json)} (hx : x = '{' :: y)
    (hms : Members (skipWs y) ms rest) : Value x (.obj ms) rest

/-- Elements up to the closing bracket. -/
inductive Elements : List Char → List Json → List Char → Prop
  | last {x y rest : List Char} {v : Json} (hv : Value x v y) (hy : skipWs y = ']' :: rest) :
    Elements x [v] rest
  | cons {x y z rest : List Char} {v : Json} {vs : List Json} (hv : Value x v y)
    (hy : skipWs y = ',' :: z) (hvs : Elements (skipWs z) vs rest) : Elements x (v :: vs) rest

/-- A key and a value. -/
inductive Pair : List Char → List Char → Json → List Char → Prop
  | mk {x y z w k rest : List Char} {v : Json} (hx : x = '"' :: y) (hk : StrBody y k z)
    (hz : skipWs z = ':' :: w) (hv : Value (skipWs w) v rest) : Pair x k v rest

/-- Members up to the closing brace. -/
inductive Members : List Char → List (List Char × Json) → List Char → Prop
  | last {x y k rest : List Char} {v : Json} (hm : Pair x k v y) (hy : skipWs y = '}' :: rest) :
    Members x [(k, v)] rest
  | cons {x y z k rest : List Char} {v : Json} {ms : List (List Char × Json)} (hm : Pair x k v y)
    (hy : skipWs y = ',' :: z) (hms : Members (skipWs z) ms rest) : Members x ((k, v) :: ms) rest

end

/-- The whole text is a value. -/
def IsText (t : List Char) (v : Json) : Prop := ∃ rest, Value (skipWs t) v rest ∧ skipWs rest = []

end Grammar

section Strings

variable {e x s t rest rest' : List Char} {c : Char}

theorem quote_notMem_of_hex4 {ds : List Char} (h : IsHex4 ds) : '"' ∉ ds := fun hmem =>
  absurd (h.2 _ hmem) (by decide)

/-- Only the escape for a quote contains one. -/
theorem Escape.quote_notMem (h : Escape e c) (hc : c ≠ '"') : '"' ∉ e := by
  cases h with
  | quote => exact absurd rfl hc
  | unicode hds hvalid => simp [quote_notMem_of_hex4 hds]
  | surrogates hds hes hhigh hlow => simp [quote_notMem_of_hex4 hds, quote_notMem_of_hex4 hes]
  | _ => decide

theorem Escape.ne_nil (h : Escape e c) : e ≠ [] := by
  cases h <;> exact List.cons_ne_nil _ _

/-- Before the first quote of a string there is none in its text, and not where that quote would be
if it were written as it is. -/
theorem StrBody.quote_notMem {s₁ s₂ : List Char} (h : StrBody x s rest) (hs : s = s₁ ++ '"' :: s₂)
    (hs₁ : '"' ∉ s₁) : '"' ∉ x.take (s₁.length + 1) := by
  induction h generalizing s₁ with
  | close => simp at hs
  | @plain c x s rest hc h ih =>
    cases s₁ with
    | nil =>
      rw [List.nil_append, List.cons.injEq] at hs
      exact absurd hs.1 hc.2.1
    | cons d s₁ =>
      rw [List.cons_append, List.cons.injEq] at hs
      rw [List.mem_cons, not_or] at hs₁
      rw [List.length_cons, List.take_succ_cons, List.mem_cons, not_or]
      exact ⟨Ne.symm hc.2.1, ih hs.2 hs₁.2⟩
  | @escape e c x s rest he h ih =>
    rw [List.take_succ_cons, List.mem_cons, not_or]
    refine ⟨by decide, ?_⟩
    cases s₁ with
    | nil => simp
    | cons d s₁ =>
      rw [List.cons_append, List.cons.injEq] at hs
      rw [List.mem_cons, not_or] at hs₁
      have hlength := List.length_pos_iff.2 he.ne_nil
      rw [List.length_cons, List.take_append, List.mem_append, not_or]
      refine ⟨fun hmem => ?_, fun hmem => ?_⟩
      · exact he.quote_notMem (hs.1 ▸ Ne.symm hs₁.1) (List.mem_of_mem_take hmem)
      · have hfewer : s₁.length + 1 - e.length ≤ s₁.length + 1 := Nat.sub_le _ _
        exact ih hs.2 hs₁.2 (List.take_subset_take_left x hfewer hmem)

/-- The text of a string: it has no quote if the string has none, and is longer unless it is the
string itself. -/
theorem StrBody.split (h : StrBody x s rest) : ∃ r, x = r ++ '"' :: rest ∧ ('"' ∉ s → '"' ∉ r) ∧
    s.length ≤ r.length ∧ (s.length = r.length → s = r ∧ ∀ c ∈ s, IsPlain c) := by
  induction h with
  | close rest => exact ⟨[], rfl, fun _ => List.not_mem_nil, le_rfl, fun _ => ⟨rfl, by simp⟩⟩
  | @plain c x s rest hc h ih =>
    obtain ⟨r, rfl, hquote, hle, heq⟩ := ih
    refine ⟨c :: r, rfl, fun hmem => ?_, by simpa using hle, fun hlen => ?_⟩
    · rw [List.mem_cons, not_or] at hmem ⊢
      exact ⟨hmem.1, hquote hmem.2⟩
    · obtain ⟨rfl, hplain⟩ := heq (by simpa using hlen)
      exact ⟨rfl, List.forall_mem_cons.2 ⟨hc, hplain⟩⟩
  | @escape e c x s rest he h ih =>
    obtain ⟨r, rfl, hquote, hle, -⟩ := ih
    have hlength := List.length_pos_iff.2 he.ne_nil
    refine ⟨'\\' :: (e ++ r), by simp, fun hmem => ?_, ?_, fun hlen => ?_⟩
    · rw [List.mem_cons, not_or] at hmem
      rw [List.mem_cons, List.mem_append, not_or, not_or]
      exact ⟨by decide, he.quote_notMem (Ne.symm hmem.1), hquote hmem.2⟩
    · simp only [List.length_cons, List.length_append]
      omega
    · simp only [List.length_cons, List.length_append] at hlen
      omega

theorem strBody_of_plain (h : ∀ c ∈ s, IsPlain c) : StrBody (s ++ '"' :: rest) s rest := by
  induction s with
  | nil => exact .close rest
  | cons c s ih =>
    obtain ⟨hc, hs⟩ := List.forall_mem_cons.1 h
    exact .plain hc (ih hs)

theorem quote_inj {r : List Char} (ht : '"' ∉ t) (hr : '"' ∉ r)
    (h : t ++ '"' :: rest = r ++ '"' :: rest') : t = r ∧ rest = rest' := by
  induction t generalizing r with
  | nil =>
    cases r with
    | nil => exact ⟨rfl, (List.cons.inj h).2⟩
    | cons d r => exact absurd ((List.cons.inj h).1 ▸ List.mem_cons_self) hr
  | cons c t ih =>
    cases r with
    | nil => exact absurd ((List.cons.inj h).1 ▸ List.mem_cons_self) ht
    | cons d r =>
      rw [List.mem_cons, not_or] at ht hr
      obtain ⟨rfl, htail⟩ := List.cons.inj h
      obtain ⟨rfl, hrest⟩ := ih ht.2 hr.2 htail
      exact ⟨rfl, hrest⟩

/-- A front of a string, written as it is, stands for that string only if it is the whole string and
all its characters stand for themselves. -/
theorem strBody_raw_iff (ht : t <+: s) :
    StrBody (t ++ '"' :: rest) s rest' ↔ t = s ∧ (∀ c ∈ s, IsPlain c) ∧ rest' = rest := by
  constructor
  · intro h
    by_cases hs : '"' ∈ s
    · -- the first quote of the string would have to be escaped at a place before itself
      obtain ⟨s₁, s₂, hsplit, hs₁⟩ := List.eq_append_cons_of_mem hs
      exfalso
      refine h.quote_notMem hsplit hs₁ ?_
      by_cases hlen : t.length ≤ s₁.length
      · refine (List.take_subset_take_left _ (Nat.succ_le_succ hlen)) ?_
        have hone : t.length + 1 - t.length = 1 := by omega
        rw [List.take_append, List.take_of_length_le (Nat.le_succ _), hone]
        simp
      · have hfront : s₁ ++ ['"'] <+: t := by
          refine List.prefix_of_prefix_length_le ?_ ht (by simp; omega)
          exact ⟨s₂, by rw [hsplit, List.append_assoc, List.singleton_append]⟩
        obtain ⟨w, rfl⟩ := hfront
        have hlength : s₁.length + 1 = (s₁ ++ ['"']).length := by simp
        rw [hlength, List.append_assoc, List.take_left]
        simp
    · obtain ⟨r, hr, hquote, hle, heq⟩ := h.split
      have hnot : '"' ∉ t := fun hmem => hs (ht.subset hmem)
      obtain ⟨rfl, rfl⟩ := quote_inj hnot (hquote hs) hr
      obtain ⟨rfl, hplain⟩ := heq (le_antisymm hle ht.length_le)
      exact ⟨rfl, hplain, rfl⟩
  · rintro ⟨rfl, hplain, rfl⟩
    exact strBody_of_plain hplain

end Strings

section Numbers

theorem isDigits_toDigits (n : ℕ) : IsDigits (Nat.toDigits 10 n) :=
  ⟨Nat.toDigits_ne_nil, fun _ => isDigit_toDigits⟩

/-- Only zero is printed with a leading zero. -/
theorem head_toDigits {n : ℕ} (h : (Nat.toDigits 10 n).head? = some '0') :
    Nat.toDigits 10 n = ['0'] := by
  induction n using Nat.strong_induction_on with
  | h n ih =>
    rw [Nat.toDigits_eq_if (by decide)] at h ⊢
    split_ifs at h ⊢ with hlt
    · rw [List.head?_cons, Option.some.injEq] at h
      rw [h]
    · rw [List.head?_append_of_ne_nil _ Nat.toDigits_ne_nil] at h
      have hzero := Nat.ofDigitChars_ten_toDigits (n := n / 10)
      rw [ih (n / 10) (by omega) h] at hzero
      have hquotient : n / 10 = 0 := hzero.symm
      omega

theorem isNumber_toDigits (n : ℕ) : IsNumber (Nat.toDigits 10 n) := by
  have h := @IsNumber.mk [] (Nat.toDigits 10 n) [] [] (.inl rfl) (isDigits_toDigits n) head_toDigits
    (.inl rfl) (.inl rfl)
  rwa [List.nil_append, List.append_nil, List.append_nil] at h

theorem isNumber_itoa (x : ℤ) : IsNumber (itoa x) := by
  unfold itoa
  split_ifs
  · have h := @IsNumber.mk ['-'] (Nat.toDigits 10 x.natAbs) [] [] (.inr rfl) (isDigits_toDigits _)
      head_toDigits (.inl rfl) (.inl rfl)
    rwa [List.append_nil, List.append_nil] at h
  · exact isNumber_toDigits _

theorem isPlain_of_isDigit {c : Char} (h : c.isDigit = true) : IsPlain c := by
  obtain ⟨hl, hu⟩ := isDigit_toNat h
  refine ⟨by omega, ?_, ?_⟩ <;> rintro rfl <;> revert hl hu <;> decide

theorem isPlain_itoa {x : ℤ} : ∀ c ∈ itoa x, IsPlain c := by
  have hdigits : ∀ c ∈ Nat.toDigits 10 x.natAbs, IsPlain c :=
    fun c hc => isPlain_of_isDigit (isDigit_toDigits hc)
  unfold itoa
  split_ifs
  · exact List.forall_mem_cons.2 ⟨by decide, hdigits⟩
  · exact hdigits

end Numbers

section Spelling

variable {t rest rest' ws : List Char} {v : Json} {p : Prop}

/-- White space. -/
def IsBlank (ws : List Char) : Prop := ∀ c ∈ ws, isWs c = true

instance (ws : List Char) : Decidable (IsBlank ws) :=
  inferInstanceAs (Decidable (∀ c ∈ ws, isWs c = true))

theorem skipWs_blank (h : IsBlank ws) (t : List Char) : skipWs (ws ++ t) = skipWs t :=
  List.dropWhile_append_of_pos h

theorem skipWs_cons {c : Char} (h : isWs c = false) (t : List Char) : skipWs (c :: t) = c :: t :=
  List.dropWhile_cons_of_neg (by rw [h]; exact Bool.false_ne_true)

theorem endsNumber_nil : EndsNumber [] := fun _ hc => by cases hc

theorem endsNumber_cons {c : Char} (hc : isNumberChar c = false) : EndsNumber (c :: t) := by
  intro d hd
  cases hd
  exact hc

theorem isNumberChar_of_isWs {c : Char} (h : isWs c = true) : isNumberChar c = false := by
  unfold isWs at h
  simp only [decide_eq_true_eq] at h
  obtain rfl | rfl | rfl | rfl := h <;> decide

theorem endsNumber_blank (h : IsBlank ws) (ht : EndsNumber t) : EndsNumber (ws ++ t) := by
  cases ws with
  | nil => exact ht
  | cons b ws => exact endsNumber_cons (isNumberChar_of_isWs (h b List.mem_cons_self))

/-- A text is that of a value under a condition, and not else, whatever comes behind it. -/
structure Spells (t : List Char) (v : Json) (p : Prop) : Prop where
  head : ∃ c t', t = c :: t' ∧ isWs c = false ∧ c ≠ ']'
  exact : ∀ rest rest', EndsNumber rest → (Value (t ++ rest) v rest' ↔ p ∧ rest' = rest)

theorem Spells.skipWs_append (h : Spells t v p) (rest : List Char) :
    skipWs (t ++ rest) = t ++ rest := by
  obtain ⟨c, t', rfl, hc, -⟩ := h.head
  exact skipWs_cons hc _

theorem Spells.congr {q : Prop} (h : Spells t v p) (hpq : p ↔ q) : Spells t v q :=
  ⟨h.head, fun rest rest' hrest => (h.exact rest rest' hrest).trans (and_congr_left' hpq)⟩

/-- A string that is written as it is, as far as there is room for it. -/
theorem spells_str {s : List Char} (ht : t <+: s) :
    Spells ('"' :: (t ++ ['"'])) (.str s) (t = s ∧ ∀ c ∈ s, IsPlain c) := by
  refine ⟨⟨_, _, rfl, by decide, by decide⟩, fun rest rest' _ => ?_⟩
  have hbody := @strBody_raw_iff s t rest rest' ht
  rw [and_assoc, ← hbody, List.cons_append, List.append_assoc, List.singleton_append]
  constructor
  · intro h
    cases h with
    | str hx hs =>
      cases hx
      exact hs
  · exact fun h => .str rfl h

theorem IsNumber.head (h : IsNumber t) : ∃ c t', t = c :: t' ∧ isWs c = false ∧ c ≠ ']' := by
  obtain ⟨hminus, hint, -, -, -⟩ := h
  rename_i minus int frac exp
  obtain ⟨c, int', rfl⟩ := List.exists_cons_of_ne_nil hint.1
  have hc := hint.2 c List.mem_cons_self
  obtain rfl | rfl := hminus
  · refine ⟨c, int' ++ frac ++ exp, rfl, ?_, ?_⟩
    · by_contra hws
      rw [Bool.not_eq_false] at hws
      unfold isWs at hws
      simp only [decide_eq_true_eq] at hws
      obtain rfl | rfl | rfl | rfl := hws <;> revert hc <;> decide
    · rintro rfl
      revert hc
      decide
  · exact ⟨'-', c :: int' ++ frac ++ exp, rfl, by decide, by decide⟩

theorem spells_num (h : IsNumber t) : Spells t (.num t) True := by
  refine ⟨h.head, fun rest rest' hrest => ?_⟩
  rw [true_and]
  constructor
  · intro hv
    cases hv with
    | num hx ht hrest' => exact (List.append_cancel_left hx).symm
  · rintro rfl
    exact .num rfl h hrest

/-- Texts with commas between them. -/
def commas : List (List Char) → List Char
  | [] => []
  | [t] => t
  | t :: ts => t ++ ',' :: commas ts

theorem commas_cons (t : List Char) {ts : List (List Char)} (h : ts ≠ []) :
    commas (t :: ts) = t ++ ',' :: commas ts := by
  cases ts with
  | nil => exact absurd rfl h
  | cons u ts => rfl

theorem skipWs_commas (rest : List Char) (h : Spells t v p) (ts : List (List Char)) :
    skipWs (commas (t :: ts) ++ rest) = commas (t :: ts) ++ rest := by
  obtain ⟨c, t', rfl, hc, -⟩ := h.head
  cases ts with
  | nil => exact skipWs_cons hc _
  | cons u us => exact skipWs_cons hc _

/-- An array of elements without white space. -/
def array (ts : List (List Char)) : List Char := '[' :: (commas ts ++ [']'])

section Arrays

variable {ε : Type*} {text : ε → List Char} {value : ε → Json} {cond : ε → Prop}

theorem elements_iff {e : ε} {es : List ε} (h : ∀ a ∈ e :: es, Spells (text a) (value a) (cond a)) :
    Elements (commas ((e :: es).map text) ++ ']' :: rest) ((e :: es).map value) rest' ↔
      (∀ a ∈ e :: es, cond a) ∧ rest' = rest := by
  induction es generalizing e with
  | nil =>
    have he := (h e List.mem_cons_self).exact (']' :: rest)
    have hend : EndsNumber (']' :: rest) := endsNumber_cons (by decide)
    simp only [List.map_cons, List.map_nil, commas, List.forall_mem_singleton]
    constructor
    · intro hel
      cases hel with
      | last hv hy =>
        obtain ⟨hc, rfl⟩ := (he _ hend).1 hv
        rw [skipWs_cons (by decide)] at hy
        exact ⟨hc, (List.cons.inj hy).2.symm⟩
      | cons hv hy hvs => cases hvs
    · rintro ⟨hc, rfl⟩
      exact .last ((he _ hend).2 ⟨hc, rfl⟩) (skipWs_cons (by decide) _)
  | cons e' es ih =>
    rw [List.forall_mem_cons] at h
    obtain ⟨he, hes⟩ := h
    have hend : ∀ t, EndsNumber (',' :: t) := fun t => endsNumber_cons (by decide)
    have hskip := skipWs_commas (']' :: rest) (hes e' List.mem_cons_self) (es.map text)
    have hrest := @ih e' hes
    rw [List.map_cons, commas_cons _ (by simp), List.append_assoc, List.cons_append,
      List.forall_mem_cons, and_assoc, ← hrest]
    constructor
    · intro hel
      rw [List.map_cons] at hel
      cases hel with
      | cons hv hy hvs =>
        obtain ⟨hc, rfl⟩ := (he.exact _ _ (hend _)).1 hv
        rw [skipWs_cons (by decide)] at hy
        obtain ⟨-, rfl⟩ := List.cons.inj hy
        refine ⟨hc, ?_⟩
        rw [List.map_cons, ← hskip]
        exact hvs
    · rintro ⟨hc, hvs⟩
      rw [List.map_cons, ← hskip] at hvs
      exact .cons ((he.exact _ _ (hend _)).2 ⟨hc, rfl⟩) (skipWs_cons (by decide) _) hvs

theorem spells_arr (es : List ε) (h : ∀ a ∈ es, Spells (text a) (value a) (cond a)) :
    Spells (array (es.map text)) (.arr (es.map value)) (∀ a ∈ es, cond a) := by
  refine ⟨⟨_, _, rfl, by decide, by decide⟩, fun rest rest' _ => ?_⟩
  rw [array, List.cons_append, List.append_assoc, List.singleton_append]
  cases es with
  | nil =>
    rw [List.map_nil, commas, List.nil_append]
    constructor
    · intro hv
      cases hv with
      | emptyArr hx hy =>
        cases hx
        rw [skipWs_cons (by decide)] at hy
        exact ⟨by simp, (List.cons.inj hy).2.symm⟩
      | arr hx hvs => cases hvs
    · rintro ⟨-, rfl⟩
      exact .emptyArr rfl (skipWs_cons (by decide) _)
  | cons e es =>
    rw [← elements_iff h]
    have hskip := skipWs_commas (']' :: rest) (h e List.mem_cons_self) (es.map text)
    constructor
    · intro hv
      rw [List.map_cons] at hv
      cases hv with
      | arr hx hvs =>
        cases hx
        rw [List.map_cons, ← hskip]
        exact hvs
    · intro hvs
      rw [List.map_cons, ← hskip] at hvs
      exact .arr rfl hvs

end Arrays

section Objects

/-- A member of an object as it is written, with white space before its parts. -/
structure Member where
  before : List Char
  key : List Char
  mid : List Char
  gap : List Char
  text : List Char
  value : Json
  cond : Prop

def Member.spell (m : Member) : List Char :=
  m.before ++ '"' :: (m.key ++ '"' :: (m.mid ++ ':' :: (m.gap ++ m.text)))

structure Member.Ok (m : Member) : Prop where
  before : IsBlank m.before
  key : ∀ c ∈ m.key, IsPlain c
  mid : IsBlank m.mid
  gap : IsBlank m.gap
  text : Spells m.text m.value m.cond

theorem Member.ok_mk {before key mid gap text : List Char} {value : Json} {cond : Prop}
    (hbefore : IsBlank before) (hkey : ∀ c ∈ key, IsPlain c) (hmid : IsBlank mid) (hgap : IsBlank gap)
    (htext : Spells text value cond) : Member.Ok ⟨before, key, mid, gap, text, value, cond⟩ :=
  ⟨hbefore, hkey, hmid, hgap, htext⟩

/-- Members with commas between them. -/
def memberTexts (ms : List Member) : List Char := commas (ms.map Member.spell)

theorem memberTexts_singleton (m : Member) : memberTexts [m] = m.spell := rfl

theorem memberTexts_cons (m : Member) {ms : List Member} (h : ms ≠ []) :
    memberTexts (m :: ms) = m.spell ++ ',' :: memberTexts ms :=
  commas_cons m.spell (List.map_eq_nil_iff.not.2 h)

/-- An object with white space before its end. -/
def object (ms : List Member) (ws : List Char) : List Char := '{' :: (memberTexts ms ++ (ws ++ ['}']))

variable {m : Member} {ms : List Member} {y : List Char}

theorem pair_iff (h : m.Ok) (hrest : EndsNumber rest) :
    Pair (skipWs (m.spell ++ rest)) m.key m.value y ↔ m.cond ∧ y = rest := by
  have hspell : skipWs (m.spell ++ rest) =
      '"' :: (m.key ++ '"' :: (m.mid ++ ':' :: (m.gap ++ (m.text ++ rest)))) := by
    simp only [Member.spell, List.append_assoc, List.cons_append]
    rw [skipWs_blank h.before, skipWs_cons (by decide)]
  have hkey := fun z => @strBody_raw_iff m.key m.key
    (m.mid ++ ':' :: (m.gap ++ (m.text ++ rest))) z (List.prefix_refl _)
  have hcolon : skipWs (m.mid ++ ':' :: (m.gap ++ (m.text ++ rest))) =
      ':' :: (m.gap ++ (m.text ++ rest)) := by
    rw [skipWs_blank h.mid, skipWs_cons (by decide)]
  have hgap : skipWs (m.gap ++ (m.text ++ rest)) = m.text ++ rest := by
    rw [skipWs_blank h.gap, h.text.skipWs_append]
  rw [hspell, ← h.text.exact _ y hrest]
  constructor
  · intro hpair
    cases hpair with
    | mk hx hk hz hv =>
      obtain ⟨-, rfl⟩ := List.cons.inj hx
      obtain ⟨-, -, rfl⟩ := (hkey _).1 hk
      rw [hcolon] at hz
      obtain ⟨-, rfl⟩ := List.cons.inj hz
      rwa [hgap] at hv
  · intro hv
    refine .mk rfl ((hkey _).2 ⟨rfl, h.key, rfl⟩) hcolon ?_
    rwa [hgap]

theorem members_iff (hws : IsBlank ws) (h : ∀ a ∈ m :: ms, a.Ok) :
    Members (skipWs (commas ((m :: ms).map Member.spell) ++ (ws ++ '}' :: rest)))
      ((m :: ms).map fun a => (a.key, a.value)) rest' ↔ (∀ a ∈ m :: ms, a.cond) ∧ rest' = rest := by
  induction ms generalizing m with
  | nil =>
    have hm := h m List.mem_cons_self
    have hpair := fun y => @pair_iff (ws ++ '}' :: rest) m y hm
      (endsNumber_blank hws (endsNumber_cons (by decide)))
    have hend : skipWs (ws ++ '}' :: rest) = '}' :: rest := by
      rw [skipWs_blank hws, skipWs_cons (by decide)]
    simp only [List.map_cons, List.map_nil, commas, List.forall_mem_singleton]
    constructor
    · intro hms
      cases hms with
      | last hm hy =>
        obtain ⟨hc, rfl⟩ := (hpair _).1 hm
        rw [hend] at hy
        exact ⟨hc, (List.cons.inj hy).2.symm⟩
      | cons hm hy hms => cases hms
    · rintro ⟨hc, rfl⟩
      exact .last ((hpair _).2 ⟨hc, rfl⟩) hend
  | cons m' ms ih =>
    rw [List.forall_mem_cons] at h
    obtain ⟨hm, hms⟩ := h
    have hpair := fun t y => @pair_iff (',' :: t) m y hm (endsNumber_cons (by decide))
    have hend : ∀ t, skipWs (',' :: t) = ',' :: t := fun t => skipWs_cons (by decide) t
    rw [List.map_cons, commas_cons _ (by simp), List.append_assoc, List.cons_append,
      List.forall_mem_cons, and_assoc, ← ih hms]
    constructor
    · intro hall
      rw [List.map_cons] at hall
      cases hall with
      | cons hm hy hrest =>
        obtain ⟨hc, rfl⟩ := (hpair _ _).1 hm
        rw [hend] at hy
        obtain ⟨-, rfl⟩ := List.cons.inj hy
        exact ⟨hc, hrest⟩
    · rintro ⟨hc, hrest⟩
      exact .cons ((hpair _ _).2 ⟨hc, rfl⟩) (hend _) hrest

/-- An object with members. -/
theorem spells_obj (hne : ms ≠ []) (hws : IsBlank ws) (h : ∀ a ∈ ms, a.Ok) :
    Spells (object ms ws) (.obj (ms.map fun a => (a.key, a.value))) (∀ a ∈ ms, a.cond) := by
  refine ⟨⟨_, _, rfl, by decide, by decide⟩, fun rest rest' _ => ?_⟩
  obtain ⟨m, ms, rfl⟩ := List.exists_cons_of_ne_nil hne
  rw [object, memberTexts, List.cons_append, List.append_assoc, List.append_assoc,
    List.singleton_append, ← members_iff hws h]
  constructor
  · intro hv
    rw [List.map_cons] at hv
    cases hv with
    | obj hx hms =>
      cases hx
      exact hms
  · exact fun hms => .obj rfl hms

/-- A text with white space behind the value. -/
theorem Spells.isText_iff {after : List Char} (h : Spells t v p) (hafter : IsBlank after) :
    IsText (t ++ after) v ↔ p := by
  have hexact := h.exact after
  have hend : EndsNumber after := by
    rw [← List.append_nil after]
    exact endsNumber_blank hafter endsNumber_nil
  have hskip : skipWs after = [] := by
    rw [← List.append_nil after, skipWs_blank hafter]
    rfl
  unfold IsText
  rw [h.skipWs_append]
  constructor
  · rintro ⟨rest, hv, -⟩
    exact ((hexact rest hend).1 hv).1
  · exact fun hp => ⟨after, (hexact after hend).2 ⟨hp, rfl⟩, hskip⟩

end Objects

end Spelling

end Json

end MultipathTools
