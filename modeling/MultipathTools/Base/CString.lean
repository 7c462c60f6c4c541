import Mathlib.Data.List.Infix

/-! C strings as lists of characters, without the final NUL. A byte is the character of
the same code, so that every byte value is a `Char`. -/
namespace MultipathTools

abbrev CStr := List Char

instance lawfulBEqCStr : LawfulBEq CStr := inferInstance

/-- A string is checked character by character, not by going through all characters. -/
instance (priority := high) decidableForallMem {s : CStr} {P : Char → Prop} [DecidablePred P] :
    Decidable (∀ c ∈ s, P c) :=
  List.decidableBAll P s

/-- `isspace` in the POSIX locale. -/
def isspace (c : Char) : Bool :=
  c = ' ' ∨ c = '\t' ∨ c = '\n' ∨ c = '\r' ∨ c.toNat = 11 ∨ c.toNat = 12

def isascii (c : Char) : Bool := c.toNat < 128

/-- `strncmp(a, b, n) == 0`, for strings without NUL. -/
def strncmpEq (a b : CStr) (n : ℕ) : Bool := a.take n = b.take n

/-- `strchr`: the text before and the text after the first `c`. -/
def strchr (c : Char) : CStr → Option (CStr × CStr)
  | [] => none
  | d :: s => if d = c then some ([], s) else (strchr c s).map fun r => (d :: r.1, r.2)

/-- `strrchr`: the text before and the text after the last `c`. -/
def strrchr (c : Char) : CStr → Option (CStr × CStr)
  | [] => none
  | d :: s =>
    match strrchr c s with
    | some (before, after) => some (d :: before, after)
    | none => if d = c then some ([], s) else none

/-- `strstr`: the text before the first occurrence of `n`, and the text from there on. -/
def strstr (n : CStr) : CStr → Option (CStr × CStr)
  | [] => if n = [] then some ([], []) else none
  | c :: h =>
    if n <+: c :: h then some ([], c :: h)
    else (strstr n h).map fun r => (c :: r.1, r.2)

/-- `strstr(h, n) != NULL`. -/
def hasSubstr (h n : CStr) : Bool := (strstr n h).isSome

theorem strchr_eq_none_iff {c : Char} {s : CStr} : strchr c s = none ↔ c ∉ s := by
  induction s with
  | nil => simp [strchr]
  | cons d s ih =>
    by_cases hd : d = c
    · simp [strchr, hd]
    · simp [strchr, hd, ih, Ne.symm hd]

theorem strchr_append {c : Char} {s a t : CStr} (h : strchr c s = some (a, t)) :
    s = a ++ c :: t ∧ c ∉ a := by
  induction s generalizing a with
  | nil => cases h
  | cons d s ih =>
    unfold strchr at h
    split_ifs at h with hd
    · cases h
      exact ⟨by rw [hd]; rfl, List.not_mem_nil⟩
    · obtain ⟨⟨b, u⟩, hr, he⟩ := Option.map_eq_some_iff.mp h
      cases he
      obtain ⟨rfl, hb⟩ := ih hr
      exact ⟨rfl, by simp [hb, Ne.symm hd]⟩

theorem strrchr_eq_none {c : Char} {s : CStr} (hs : c ∉ s) : strrchr c s = none := by
  induction s with
  | nil => rfl
  | cons d s ih =>
    obtain ⟨hd, hs⟩ := not_or.mp (List.mem_cons.not.mp hs)
    rw [strrchr, ih hs]
    exact if_neg (Ne.symm hd)

/-- The last `c` is the one that is given, or one behind it. -/
theorem strrchr_append_cons (c : Char) (s t : CStr) :
    strrchr c (s ++ c :: t) = match strrchr c t with
      | some (a, u) => some (s ++ c :: a, u)
      | none => some (s, t) := by
  induction s with
  | nil =>
    rw [List.nil_append, strrchr]
    cases strrchr c t <;> simp
  | cons d s ih =>
    rw [List.cons_append, strrchr, ih]
    cases strrchr c t <;> rfl

/-- `strrchr` finds the `c` that no other one is behind. -/
theorem strrchr_append {c : Char} {s t : CStr} (ht : c ∉ t) :
    strrchr c (s ++ c :: t) = some (s, t) := by
  rw [strrchr_append_cons, strrchr_eq_none ht]

theorem strstr_eq_none_iff {n h : CStr} : strstr n h = none ↔ ¬ n <:+: h := by
  induction h with
  | nil => simp [strstr]
  | cons c h ih =>
    by_cases hp : n <+: c :: h
    · simp [strstr, hp, hp.isInfix]
    · simp [strstr, hp, ih, List.infix_cons_iff]

@[simp] theorem hasSubstr_iff {n h : CStr} : hasSubstr h n = true ↔ n <:+: h := by
  rw [hasSubstr, Option.isSome_iff_ne_none, ne_eq, strstr_eq_none_iff, not_not]

@[simp] theorem hasSubstr_eq_false_iff {n h : CStr} : hasSubstr h n = false ↔ ¬ n <:+: h := by
  rw [← hasSubstr_iff, Bool.not_eq_true]

theorem strstr_append {n h a b : CStr} (hs : strstr n h = some (a, b)) :
    h = a ++ b ∧ n <+: b := by
  induction h generalizing a b with
  | nil =>
    unfold strstr at hs
    split_ifs at hs with hn
    cases hs
    simp [hn]
  | cons c h ih =>
    unfold strstr at hs
    split_ifs at hs with hp
    · cases hs
      exact ⟨rfl, hp⟩
    · obtain ⟨⟨a', b'⟩, hr, he⟩ := Option.map_eq_some_iff.mp hs
      cases he
      obtain ⟨rfl, hb⟩ := ih hr
      exact ⟨rfl, hb⟩

/-- The position that `strstr` finds. -/
theorem strstr_position_iff {n h : CStr} {i : ℕ} :
    (strstr n h).map (·.1.length) = some i ↔ n <+: h.drop i ∧ ∀ j < i, ¬ n <+: h.drop j := by
  induction h generalizing i with
  | nil =>
    by_cases hn : n = []
    · cases i with
      | zero => simp [strstr, hn]
      | succ i =>
        subst hn
        refine iff_of_false (by simp [strstr]) fun h => ?_
        exact h.2 0 (Nat.succ_pos i) (List.nil_prefix)
    · simp [strstr, hn]
  | cons c h ih =>
    rw [strstr]
    split_ifs with hp
    · cases i with
      | zero => simpa using hp
      | succ i =>
        refine iff_of_false (by simp) fun h => ?_
        exact h.2 0 (Nat.succ_pos i) hp
    · rw [Option.map_map]
      cases i with
      | zero => simpa [Function.comp_def] using fun h => hp h
      | succ i =>
        have hshift : ((strstr n h).map ((·.1.length) ∘ fun r => (c :: r.1, r.2)) = some (i + 1)) ↔
            (strstr n h).map (·.1.length) = some i := by
          cases strstr n h <;> simp
        rw [hshift, ih, List.drop_succ_cons]
        apply and_congr_right
        intro _
        constructor
        · intro hno j hj
          cases j with
          | zero => exact hp
          | succ j => exact hno j (Nat.succ_lt_succ_iff.mp hj)
        · intro hno j hj
          exact hno (j + 1) (Nat.succ_lt_succ hj)

theorem cons_prefix_drop_iff {n h : CStr} {c : Char} {i : ℕ} :
    c :: n <+: h.drop i ↔ h[i]? = some c ∧ n <+: h.drop (i + 1) := by
  obtain hi | hi := Nat.lt_or_ge i h.length
  · rw [List.drop_eq_getElem_cons hi, List.cons_prefix_cons, List.getElem?_eq_getElem hi,
      Option.some.injEq, eq_comm]
  · simp [List.drop_eq_nil_of_le hi, List.getElem?_eq_none hi]

theorem concat_prefix_iff {n h : CStr} {c : Char} :
    n ++ [c] <+: h ↔ n <+: h ∧ h[n.length]? = some c := by
  constructor
  · rintro ⟨t, rfl⟩
    simp
  · rintro ⟨⟨t, rfl⟩, hc⟩
    cases t with
    | nil => simp at hc
    | cons d t =>
      obtain rfl : d = c := by simpa using hc
      exact ⟨t, by simp⟩

end MultipathTools
