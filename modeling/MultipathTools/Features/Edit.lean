import MultipathTools.Base.Numeral
import MultipathTools.Base.Words
import Mathlib.Data.List.DropRight

/-! Editing of device-mapper feature strings: a count and that many words (`structs.c`). -/
namespace MultipathTools.Features

/-- `add_feature`: the new string and the return code. -/
def addFeature (f : Option CStr) (n : CStr) : Option CStr × ℤ :=
  if n.head? = some '0' then (f, 0)
  else if ' ' ∈ n then (f, 1)
  else
    match f with
    | none => (some ("1 ".toList ++ n), 0)
    | some s =>
      if hasSubstr s n then (f, 0)
      else
        let (v, e) := strtoul s
        if e.length = s.length ∨ (e ≠ [] ∧ e.head? ≠ some ' ') then (f, 1)
        else
          let c := toInt (toInt v + 1)
          let l := e.length + n.length + 1 + (Nat.toDigits 10 c.toNat).length
          -- only one of the blanks after the count stays
          let e := if e.head? = some ' ' then ' ' :: e.dropWhile (· = ' ') else e
          (some ((itoa c ++ e ++ ' ' :: n).take l), 0)

/-- Where one word of the string ends and another begins: `q[0] == ' '` with a word after it. -/
def countBoundaries : CStr → ℤ
  | ' ' :: d :: s => (if d ≠ ' ' then 1 else 0) + countBoundaries (d :: s)
  | _ :: s => countBoundaries s
  | [] => 0

/-- What `remove_feature` copies from behind the removed text, whose last character is `last`:
from the character before the next word on. -/
def copyRest (last : Char) (rest : CStr) : CStr :=
  match rest.dropWhile (· = ' ') with
  | [] => []
  | r => (if rest.head? = some ' ' then ' ' else last) :: r

/-- What it copies from before the match: from the blank before the first word up to the blanks
before the match. A match inside of the count lets the unsigned length wrap. -/
def copyBefore (f before : CStr) : CStr :=
  let p := (f.takeWhile (· ≠ ' ')).length + ((f.dropWhile (· ≠ ' ')).takeWhile (· = ' ')).length - 1
  let e := (before.rdropWhile (· = ' ')).length
  if p ≤ e then (f.drop p).take (e - p) else f.drop p

/-- `remove_feature`: the new string and the return code. -/
def removeFeature (f : Option CStr) (o : CStr) : Option CStr × ℤ :=
  match f with
  | none => (f, 1)
  | some s =>
    if o = [] then (f, 0)
    else if !hasSubstr s o then (f, 0)
    else
      let (v, e) := strtoul s
      if e.length = s.length then (f, 1)
      else
        let o := o.dropWhile (· = ' ')
        if o = [] then (f, 0)
        else
          let c := toInt v - 1 - countBoundaries o
          if c = 0 then (some "0".toList, 0)
          else
            match strstr o s with
            | none => (f, 0)
            | some (before, match_) =>
              if ' ' ∉ s then (f, 1)
              else
                (some (itoa c ++ copyBefore s before ++
                  copyRest (o.getLast?.getD ' ') (match_.drop o.length)), 0)

/-- The well-formed feature string of a list of words. -/
def render (ws : List CStr) : CStr := Nat.toDigits 10 ws.length ++ unwords ws

/-- A feature name: a word that is not found in a number, and that `add_feature` accepts. -/
structure IsFeature (n : CStr) : Prop where
  word : IsWord n
  head : n.head? ≠ some '0'
  nonDigit : ∃ c ∈ n, c.isDigit = false

/-- The substring search for `n` finds nothing in a word but `n` itself. -/
def Clean (n : CStr) (ws : List CStr) : Prop := ∀ w ∈ ws, n <:+: w → w = n

instance (n : CStr) (ws : List CStr) : Decidable (Clean n ws) :=
  inferInstanceAs (Decidable (∀ w ∈ ws, n <:+: w → w = n))

theorem Clean.sublist {n : CStr} {vs ws : List CStr} (h : Clean n ws) (hs : vs.Sublist ws) :
    Clean n vs := fun w hw => h w (hs.subset hw)

theorem render_infix_iff {n : CStr} (hn : IsFeature n) (ws : List CStr) :
    n <:+: render ws ↔ ∃ w ∈ ws, n <:+: w := by
  rw [render, infix_append_unwords_iff hn.word.1 hn.word.blank_not_mem]
  refine or_iff_right fun h => ?_
  obtain ⟨c, hc, hd⟩ := hn.nonDigit
  rw [isDigit_toDigits (h.subset hc)] at hd
  cases hd

theorem Clean.infix_iff {n : CStr} {ws : List CStr} (h : Clean n ws) :
    (∃ w ∈ ws, n <:+: w) ↔ n ∈ ws :=
  ⟨fun ⟨w, hw, hi⟩ => h w hw hi ▸ hw, fun hn => ⟨n, hn, List.infix_rfl⟩⟩

theorem noDigit_unwords (ws : List CStr) : NoDigit (unwords ws) := fun c hc => by
  rw [unwords_head ws c hc]
  rfl

theorem strtoul_render {ws : List CStr} (h : ws.length < 2 ^ 31) :
    strtoul (render ws) = (ws.length, unwords ws) :=
  strtoul_toDigits (h.le.trans (by decide)) (noDigit_unwords ws)

theorem length_unwords_lt (ws : List CStr) : (unwords ws).length < (render ws).length := by
  have : 0 < (Nat.toDigits 10 ws.length).length := Nat.length_toDigits_pos
  rw [render, List.length_append]
  omega

theorem isInt_natCast {n : ℕ} (h : n < 2 ^ 31) : IsInt n := by
  unfold IsInt intMin intMax
  omega

/-- A blank before a list of words is the only one before its first word. -/
theorem cons_dropWhile_unwords {ws : List CStr} (hw : ∀ w ∈ ws, IsWord w) (hne : ws ≠ []) :
    ' ' :: (unwords ws).dropWhile (· = ' ') = unwords ws := by
  obtain ⟨w, ws, rfl⟩ := List.exists_cons_of_ne_nil hne
  have hword := hw w List.mem_cons_self
  obtain ⟨c, w, rfl⟩ := List.exists_cons_of_ne_nil hword.1
  have hc : c ≠ ' ' := fun h => hword.blank_not_mem (h ▸ List.mem_cons_self)
  simp [hc]

/-- `add_feature` appends a word unless some word contains it. -/
theorem addFeature_render {n : CStr} {ws : List CStr} (hn : IsFeature n)
    (hw : ∀ w ∈ ws, IsWord w) (hlen : ws.length + 1 < 2 ^ 31) :
    addFeature (some (render ws)) n =
      (some (if ∃ w ∈ ws, n <:+: w then render ws else render (ws ++ [n])), 0) := by
  unfold addFeature
  rw [if_neg hn.head, if_neg hn.word.blank_not_mem]
  dsimp only
  by_cases hi : ∃ w ∈ ws, n <:+: w
  · rw [if_pos (hasSubstr_iff.mpr ((render_infix_iff hn ws).mpr hi)), if_pos hi]
  · have hlt := length_unwords_lt ws
    rw [if_neg (by rwa [hasSubstr_iff, render_infix_iff hn]), if_neg hi,
      strtoul_render (by omega)]
    dsimp only
    rw [if_neg]
    · have he : (if (unwords ws).head? = some ' ' then
          ' ' :: (unwords ws).dropWhile (· = ' ') else unwords ws) = unwords ws := by
        split_ifs with h
        · exact cons_dropWhile_unwords hw (by rintro rfl; simp at h)
        · rfl
      have hc : toInt (toInt ws.length + 1) = ((ws.length + 1 : ℕ) : ℤ) := by
        rw [toInt_of_isInt (isInt_natCast (by omega))]
        exact toInt_of_isInt (isInt_natCast hlen)
      rw [he, hc, itoa_natCast, Int.toNat_natCast, List.take_of_length_le]
      · simp [render]
      · simp only [List.length_append, List.length_cons]
        omega
    · rintro (h | ⟨hne, h⟩)
      · omega
      · cases ws with
        | nil => exact hne rfl
        | cons w ws => exact h rfl

/-- What stands before a blank that follows a count and words ends in no blank. -/
theorem rdropWhile_blank {xs : List CStr} {n : ℕ} (hw : ∀ w ∈ xs, IsWord w) :
    (Nat.toDigits 10 n ++ unwords xs ++ [' ']).rdropWhile (· = ' ') =
      Nat.toDigits 10 n ++ unwords xs := by
  rw [List.rdropWhile_concat_pos _ _ _ (by simp), List.rdropWhile_eq_self_iff]
  intro hne hlast
  have hmem : ' ' ∈ (Nat.toDigits 10 n ++ unwords xs).getLast? := by
    rw [List.getLast?_eq_some_getLast hne]
    simpa using hlast
  cases xs using List.reverseRecOn with
  | nil =>
    have hd := isDigit_toDigits (n := n) (List.mem_of_getLast? (by simpa using hmem))
    exact absurd hd (by decide)
  | append_singleton xs w =>
    have hword := hw w (by simp)
    have hlw : ' ' ∈ w.getLast? := by
      obtain ⟨c, w, rfl⟩ := List.exists_cons_of_ne_nil hword.1
      simpa [List.getLast?_append] using hmem
    exact hword.blank_not_mem (List.mem_of_getLast? hlw)

theorem takeWhile_toDigits {n : ℕ} {s : CStr} (hs : ∀ c ∈ s.head?, c = ' ') :
    (Nat.toDigits 10 n ++ s).takeWhile (· ≠ ' ') = Nat.toDigits 10 n ∧
      (Nat.toDigits 10 n ++ s).dropWhile (· ≠ ' ') = s := by
  have hd : ∀ c ∈ Nat.toDigits 10 n, decide (c ≠ ' ') = true := fun c hc => by
    have := isDigit_toDigits hc
    rw [decide_eq_true_eq]
    rintro rfl
    exact absurd this (by decide)
  rw [List.takeWhile_append_of_pos hd, List.dropWhile_append_of_pos hd]
  cases s with
  | nil => simp
  | cons c s =>
    have hc : c = ' ' := hs c (by simp)
    simp [hc]

/-- The words before the removed one are copied as they are. -/
theorem copyBefore_render {n : ℕ} {xs ws : List CStr} (hne : xs ++ ws ≠ [])
    (hw : ∀ w ∈ xs ++ ws, IsWord w) :
    copyBefore (Nat.toDigits 10 n ++ unwords (xs ++ ws)) (Nat.toDigits 10 n ++ unwords xs ++ [' ']) =
      unwords xs := by
  obtain ⟨ht, hd⟩ := takeWhile_toDigits (n := n) (unwords_head (xs ++ ws))
  have hb : ((unwords (xs ++ ws)).takeWhile (· = ' ')).length = 1 := by
    obtain ⟨w, vs, hvs⟩ := List.exists_cons_of_ne_nil hne
    have hword := hw w (by simp [hvs])
    obtain ⟨c, w, rfl⟩ := List.exists_cons_of_ne_nil hword.1
    have hc : c ≠ ' ' := fun h => hword.blank_not_mem (h ▸ List.mem_cons_self)
    simp [hvs, hc]
  unfold copyBefore
  rw [ht, hd, hb, rdropWhile_blank fun w h => hw w (List.mem_append_left _ h)]
  simp

theorem copyRest_unwords {ys : List CStr} (c : Char) (hw : ∀ w ∈ ys, IsWord w) :
    copyRest c (unwords ys) = unwords ys := by
  cases ys with
  | nil => rfl
  | cons y ys =>
    have he := cons_dropWhile_unwords hw (List.cons_ne_nil y ys)
    unfold copyRest
    split
    · next h => rw [h] at he; cases hw y List.mem_cons_self; simp_all
    · next h => simpa using he

theorem countBoundaries_eq_zero {o : CStr} (h : ' ' ∉ o) : countBoundaries o = 0 := by
  fun_induction countBoundaries o with
  | case1 d s ih => simp at h
  | case2 c s _ ih => exact ih fun hm => h (List.mem_cons_of_mem _ hm)
  | case3 => rfl

/-- `remove_feature` takes out the first occurrence of a word that no other word contains. -/
theorem removeFeature_render {o : CStr} {ws : List CStr} (ho : IsFeature o) (hc : Clean o ws)
    (hw : ∀ w ∈ ws, IsWord w) (hlen : ws.length < 2 ^ 31) :
    removeFeature (some (render ws)) o = (some (render (ws.erase o)), 0) := by
  have hlt := length_unwords_lt ws
  have hdrop : o.dropWhile (· = ' ') = o := by
    obtain ⟨c, o, rfl⟩ := List.exists_cons_of_ne_nil ho.word.1
    have hcb : c ≠ ' ' := fun h => ho.word.blank_not_mem (h ▸ List.mem_cons_self)
    simp [hcb]
  unfold removeFeature
  dsimp only
  rw [if_neg ho.word.1]
  by_cases hmem : o ∈ ws
  · have hsub : hasSubstr (render ws) o = true :=
      hasSubstr_iff.mpr ((render_infix_iff ho ws).mpr (hc.infix_iff.mpr hmem))
    obtain ⟨xs, ys, hxs, rfl, herase⟩ := List.exists_erase_eq hmem
    rw [hsub, strtoul_render hlen, herase]
    simp only [Bool.not_true, Bool.false_eq_true, if_false]
    rw [if_neg (by omega), hdrop, if_neg ho.word.1, countBoundaries_eq_zero ho.word.blank_not_mem,
      toInt_of_isInt (isInt_natCast hlen)]
    have hone : ((xs ++ o :: ys).length : ℤ) - 1 - 0 = ((xs ++ ys).length : ℕ) := by
      simp only [List.length_append, List.length_cons]
      omega
    rw [hone]
    by_cases hnil : xs ++ ys = []
    · rw [if_pos (by simp [hnil]), hnil]
      rfl
    · have hlen0 : (xs ++ ys).length ≠ 0 := mt List.length_eq_zero_iff.mp hnil
      rw [if_neg (by exact_mod_cast hlen0)]
      have hno : ¬ o <:+: Nat.toDigits 10 (xs ++ o :: ys).length ++ unwords xs := by
        rw [infix_append_unwords_iff ho.word.1 ho.word.blank_not_mem]
        rintro (h | ⟨w, hwx, h⟩)
        · obtain ⟨c, hcm, hd⟩ := ho.nonDigit
          rw [isDigit_toDigits (h.subset hcm)] at hd
          cases hd
        · exact hxs (hc w (by simp [hwx]) h ▸ hwx)
      have hstr := strstr_append_word (b := unwords ys) ho.word.1 ho.word.blank_not_mem hno
      have hsplit : render (xs ++ o :: ys) = Nat.toDigits 10 (xs ++ o :: ys).length ++
          unwords xs ++ ' ' :: (o ++ unwords ys) := by
        simp [render]
      rw [hsplit, hstr, ← hsplit]
      dsimp only
      rw [if_neg (by simp [hsplit]), render, copyBefore_render (by simp) hw, itoa_natCast,
        List.drop_left, copyRest_unwords _ fun y hy => hw y (by simp [hy]), render]
      simp
  · have hsub : hasSubstr (render ws) o = false := by
      rw [hasSubstr_eq_false_iff, render_infix_iff ho, hc.infix_iff]
      exact hmem
    rw [hsub, List.erase_of_not_mem hmem]
    rfl

end MultipathTools.Features
