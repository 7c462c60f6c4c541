import MultipathTools.Dmparser.Cursor
import MultipathTools.Dmparser.Missing

/-! Which tables `disassemble_map` accepts although words are missing. Where a text ends with a word,
`get_word` finds that word again when there is no other one; only where it is passed over without
being asked for is the text used up. -/
namespace MultipathTools.Dmparser

open MultipathTools.Features

section Unread

variable {last : Option CStr} {p q w v : CStr} {ws : List CStr}

/-- The words ahead; `last` is the word that the text ends with, if it does. -/
structure Unread (last : Option CStr) (p : CStr) (ws : List CStr) : Prop where
  blank : last = none → EndsBlank p
  word : last ≠ none → EndsWord p
  words : splitWords p = if ws = [] then last.toList else ws
  getLast : ∀ w ∈ last, ∀ v ∈ ws.getLast?, v = w

theorem splitWords_ne_nil (hp : EndsWord p) (hne : p ≠ []) : splitWords p ≠ [] := by
  intro hnil
  have hall := List.dropWhile_eq_nil_iff.mp (splitWords_eq_nil_iff.mp hnil) _ (List.getLast_mem hne)
  exact hp _ (List.getLast?_eq_some_getLast hne) (of_decide_eq_true hall)

theorem Unread.getWord_cons (h : Unread last p (w :: ws)) :
    ∃ q, getWord p = (some (strchop w), q) ∧ Unread last q ws := by
  obtain ⟨q, hq, hsuffix, hcase⟩ := exists_getWord (h.words.trans (if_neg (List.cons_ne_nil w ws)))
  refine ⟨q, hq, fun hl => (h.blank hl).of_suffix hsuffix, fun hl => (h.word hl).of_suffix hsuffix,
    ?_, ?_⟩
  · rcases hcase with ⟨rfl, rfl, hblank⟩ | ⟨hwords, hne⟩
    · obtain ⟨u, rfl⟩ := Option.ne_none_iff_exists'.mp fun hl => hblank (h.blank hl)
      rw [h.words, if_neg (List.cons_ne_nil w []), if_pos rfl, h.getLast u rfl w rfl]
      rfl
    · rw [hwords]
      split_ifs with hnil
      · rcases hl : last with _ | u
        · exact hnil
        · have hword := (h.word (hl ▸ Option.some_ne_none u)).of_suffix hsuffix
          exact absurd (hwords.trans hnil) (splitWords_ne_nil hword hne)
      · rfl
  · intro u hu v hv
    refine h.getLast u hu v ?_
    cases ws with
    | nil => cases hv
    | cons a ws => exact hv

theorem Unread.getWord_none (h : Unread none p []) : getWord p = (none, p) :=
  getWord_of_nil (h.words.trans (if_pos rfl))

/-- The last word once more. -/
theorem Unread.getWord_some (h : Unread (some w) p []) :
    ∃ q, getWord p = (some (strchop w), q) ∧ Unread (some w) q [] := by
  have hone : Unread (some w) p [w] := by
    refine ⟨h.blank, h.word, h.words.trans (if_neg (List.cons_ne_nil w [])).symm, ?_⟩
    intro u hu v hv
    exact (Option.some.inj hv).symm.trans (Option.some.inj hu)
  exact hone.getWord_cons

theorem Unread.skipWord (h : Unread last p (w :: v :: ws)) :
    Unread last (skipWord p) (v :: ws) := by
  have hsuffix := skipWord_suffix p
  refine ⟨fun hl => (h.blank hl).of_suffix hsuffix, fun hl => (h.word hl).of_suffix hsuffix, ?_,
    fun u hu x hx => h.getLast u hu x hx⟩
  rw [splitWords_skipWord, h.words, if_neg (List.cons_ne_nil _ _), if_neg (List.cons_ne_nil _ _)]
  rfl

theorem Unread.length_le (h : Unread last p ws) (hle : ws.length ≤ 1) :
    (splitWords p).length ≤ 1 := by
  rw [h.words]
  split_ifs
  · cases last <;> simp
  · exact hle

theorem skipWord_eq_nil (h : (splitWords p).length ≤ 1) : splitWords (skipWord p) = [] := by
  rw [splitWords_skipWord]
  apply List.eq_nil_of_length_eq_zero
  rw [List.length_tail]
  omega

theorem Unread.skipWords {n : ℕ} (h : Unread last p ws) (hn : n = 0 ∨ n < ws.length) :
    Unread last (skipWords n p) (ws.drop n) := by
  induction n generalizing p ws with
  | zero => exact h
  | succ n ih =>
    rcases ws with _ | ⟨w, _ | ⟨v, ws⟩⟩
    · simp at hn
    · simp at hn
    · rw [List.length_cons] at hn
      exact ih h.skipWord (Or.inr (by omega))

/-- Without a word that is asked for, the last one is passed over as well. -/
theorem Unread.skipWords_eq_nil {n : ℕ} (h : Unread last p ws) (hn : 0 < n)
    (hle : ws.length ≤ n) : splitWords (Dmparser.skipWords n p) = [] := by
  rw [splitWords_skipWords, h.words]
  split_ifs
  · cases last with
    | none => exact List.drop_nil
    | some w => exact List.drop_eq_nil_of_le hn
  · exact List.drop_eq_nil_of_le hle

/-- Where a reading that went well goes on: at the words that are left, or at the end. -/
def Onward (last : Option CStr) (q : CStr) (ws : List CStr) : Prop :=
  (ws ≠ [] ∧ Unread last q ws) ∨ (ws = [] ∧ (splitWords q).length ≤ 1)

theorem Unread.onward (h : Unread last p ws) : Onward last p ws := by
  by_cases hnil : ws = []
  · refine Or.inr ⟨hnil, h.length_le ?_⟩
    rw [hnil]
    exact Nat.zero_le 1
  · exact Or.inl ⟨hnil, h⟩

theorem onward_of_nil (h : splitWords p = []) : Onward last p [] := by
  refine Or.inr ⟨rfl, ?_⟩
  rw [h]
  exact Nat.zero_le 1

end Unread

/-- A reading succeeds exactly under `c`; its result then has `Q`. -/
structure SomeIff {α : Type*} (r : Option α) (c : Prop) (Q : α → Prop) : Prop where
  some_of : c → ∃ a, r = some a ∧ Q a
  none_of : ¬c → r = none

namespace SomeIff

variable {α : Type*} {r : Option α} {c c' : Prop} {Q R : α → Prop}

theorem none (h : ¬c) : SomeIff Option.none c Q := ⟨fun hc => absurd hc h, fun _ => rfl⟩

theorem some {a : α} (hc : c) (ha : Q a) : SomeIff (Option.some a) c Q :=
  ⟨fun _ => ⟨a, rfl, ha⟩, fun h => absurd hc h⟩

theorem of_iff (h : SomeIff r c Q) (hc : c' ↔ c) : SomeIff r c' Q :=
  ⟨fun hc' => h.some_of (hc.mp hc'), fun hc' => h.none_of fun h' => hc' (hc.mpr h')⟩

theorem mono (h : SomeIff r c Q) (hQ : ∀ a, Q a → R a) : SomeIff r c R := by
  refine ⟨fun hc => ?_, h.none_of⟩
  obtain ⟨a, ha, hqa⟩ := h.some_of hc
  exact ⟨a, ha, hQ a hqa⟩

theorem not_of_none (h : SomeIff Option.none c Q) : ¬c := by
  intro hc
  obtain ⟨a, ha, -⟩ := h.some_of hc
  cases ha

theorem of_some {a : α} (h : SomeIff (Option.some a) c Q) : c ∧ Q a := by
  have hc : c := by
    by_contra hc
    cases h.none_of hc
  obtain ⟨b, hb, hq⟩ := h.some_of hc
  obtain rfl := Option.some.inj hb
  exact ⟨hc, hq⟩

end SomeIff

/-- `len` words do not suffice for `n` paths with `a` arguments each, but they are accepted:
where the text ends with a word, if that word is read again for all that is missing, or is passed
over in the last path; where it ends with a blank, if only arguments of the last path are missing
that nobody asks for. -/
def PathsShort (last : Option CStr) (n a len : ℕ) : Prop :=
  len < n * (1 + a) ∧
    ((last ≠ none ∧ (a ≤ 1 ∨ n = 1 ∨ (n - 1) * (1 + a) < len)) ∨
      (last = none ∧ (n - 1) * (1 + a) + 2 ≤ len))

/-- `len` words are accepted as those of the paths. -/
def PathsAccepted (last : Option CStr) (n a len : ℕ) : Prop :=
  n * (1 + a) ≤ len ∨ PathsShort last n a len

section Counts

variable {last : Option CStr} {n a l len : ℕ}

theorem pathsAccepted_zero : PathsAccepted last 0 a len := by
  left
  rw [Nat.zero_mul]
  exact Nat.zero_le len

theorem pathsAccepted_none_iff :
    PathsAccepted none (n + 1) a len ↔ (n + 1) * (1 + a) ≤ len ∨ n * (1 + a) + 2 ≤ len := by
  unfold PathsAccepted PathsShort
  rw [Nat.add_sub_cancel]
  simp only [ne_eq, not_true_eq_false, false_and, true_and, false_or]
  omega

theorem pathsAccepted_some_iff {w : CStr} :
    PathsAccepted (some w) (n + 1) a len ↔ a ≤ 1 ∨ n = 0 ∨ n * (1 + a) < len := by
  unfold PathsAccepted PathsShort
  rw [Nat.add_sub_cancel, Nat.succ_mul]
  simp only [ne_eq, reduceCtorEq, not_false_eq_true, true_and, false_and, or_false,
    Nat.add_eq_right]
  omega

/-- The arguments of a path are passed over, or read from the last word. -/
theorem pathsAccepted_succ_iff (hlen : len = l + 1 ∨ (len = 0 ∧ l = 0 ∧ last ≠ none))
    (ha : a ≤ 1 ∨ a < l) (hl : a = 0 ∨ last ≠ none ∨ l ≠ 0) :
    PathsAccepted last (n + 1) a len ↔ PathsAccepted last n a (l - a) := by
  cases last with
  | none =>
    have hlen' : len = l + 1 := hlen.resolve_right fun h => h.2.2 rfl
    have hl' : a = 0 ∨ l ≠ 0 := hl.imp_right fun h => h.resolve_left fun h => h rfl
    rw [pathsAccepted_none_iff]
    cases n with
    | zero => exact iff_of_true (Or.inl (by omega)) pathsAccepted_zero
    | succ n =>
      rw [pathsAccepted_none_iff, Nat.succ_mul (n + 1), Nat.succ_mul]
      omega
  | some w =>
    rw [pathsAccepted_some_iff]
    cases n with
    | zero => exact iff_of_true (Or.inr (Or.inl rfl)) pathsAccepted_zero
    | succ n =>
      rw [pathsAccepted_some_iff, Nat.succ_mul]
      have hzero : n = 0 → n * (1 + a) = 0 := fun h => by rw [h, Nat.zero_mul]
      omega

/-- The last word is passed over in the arguments of a path: no other path is read. -/
theorem pathsAccepted_last_iff (hlen : len = l + 1 ∨ (len = 0 ∧ l = 0 ∧ last ≠ none))
    (ha : 2 ≤ a) (hla : l ≤ a) (hl : last ≠ none ∨ l ≠ 0) :
    PathsAccepted last (n + 1) a len ↔ n = 0 := by
  have hmul : n ≠ 0 → 1 + a ≤ n * (1 + a) := fun h => Nat.le_mul_of_pos_left _ (by omega)
  cases last with
  | none =>
    have hlen' : len = l + 1 := hlen.resolve_right fun h => h.2.2 rfl
    have hl' : l ≠ 0 := hl.resolve_left fun h => h rfl
    rw [pathsAccepted_none_iff, Nat.succ_mul]
    constructor
    · omega
    · rintro rfl
      omega
  | some w =>
    rw [pathsAccepted_some_iff]
    omega

theorem not_pathsAccepted_nil : ¬PathsAccepted none (n + 1) a 0 := by
  rw [pathsAccepted_none_iff, Nat.succ_mul]
  omega

/-- A device without its first argument. -/
theorem not_pathsAccepted_device (ha : 0 < a) : ¬PathsAccepted none (n + 1) a 1 := by
  rw [pathsAccepted_none_iff, Nat.succ_mul]
  omega

end Counts

section Reads

variable {alloc : CStr → BitVec 64} {pathvec : List Path} {mpp : Multipath} {last : Option CStr}
  {p : CStr} {ws : List CStr}

/-- The arguments of a path: all words that are there are passed over, the last one perhaps
without being used up, or the text is used up. -/
theorem readPathArgs_unread {pp : Path} {a : ℕ} (h : Unread last p ws) :
    (last = none ∧ 0 < a ∧ ws = [] ∧ (readPathArgs mpp pp a p).2 = none) ∨
    ((a = 0 ∨ last ≠ none ∨ ws.length ≠ 0) ∧ ∃ q, (readPathArgs mpp pp a p).2 = some q ∧
      (((a ≤ 1 ∨ a < ws.length) ∧ Unread last q (ws.drop a)) ∨
        (2 ≤ a ∧ ws.length ≤ a ∧ splitWords q = []))) := by
  cases a with
  | zero => exact Or.inr ⟨Or.inl rfl, p, rfl, Or.inl ⟨Or.inl (Nat.zero_le 1), h⟩⟩
  | succ a =>
    have hskip {q : CStr} {vs : List CStr} (hq : Unread last q vs) (hvs : ws.drop 1 = vs) :
        ((a + 1 ≤ 1 ∨ a + 1 < ws.length) ∧ Unread last (skipWords a q) (ws.drop (a + 1))) ∨
          (2 ≤ a + 1 ∧ ws.length ≤ a + 1 ∧ splitWords (skipWords a q) = []) := by
      have hlen : vs.length = ws.length - 1 := by rw [← hvs, List.length_drop]
      by_cases ha : a = 0 ∨ a < vs.length
      · left
        have hdrop : ws.drop (a + 1) = vs.drop a := by
          rw [← hvs, List.drop_drop, Nat.add_comm]
        rw [hdrop]
        exact ⟨by omega, hq.skipWords ha⟩
      · right
        exact ⟨by omega, by omega, hq.skipWords_eq_nil (by omega) (by omega)⟩
    rw [readPathArgs]
    cases ws with
    | nil =>
      rcases last with _ | w
      · rw [h.getWord_none]
        exact Or.inl ⟨rfl, Nat.succ_pos a, rfl, rfl⟩
      · obtain ⟨q, hq, hunread⟩ := h.getWord_some
        rw [hq]
        exact Or.inr ⟨Or.inr (Or.inl (Option.some_ne_none w)), _, rfl, hskip hunread rfl⟩
    | cons v ws =>
      obtain ⟨q, hq, hunread⟩ := h.getWord_cons
      rw [hq]
      exact Or.inr ⟨Or.inr (Or.inr (Nat.succ_ne_zero _)), _, rfl, hskip hunread rfl⟩

theorem readPaths_nil {i a n : ℕ} {pgp : Pathgroup} (h : splitWords p = []) :
    SomeIff (readPaths alloc pathvec i a n mpp pgp p).2 (n = 0) fun r => r.2 = p := by
  cases n with
  | zero => exact SomeIff.some rfl rfl
  | succ n =>
    rw [readPaths, getWord_of_nil h]
    exact SomeIff.none (Nat.succ_ne_zero n)

theorem readPaths_unread {i a n : ℕ} {pgp : Pathgroup} (h : Unread last p ws) :
    SomeIff (readPaths alloc pathvec i a n mpp pgp p).2
      (PathsAccepted last n a ws.length ∧ DevicesStored pathvec last n a ws)
      fun r => Onward last r.2 (ws.drop (n * (1 + a))) := by
  induction n generalizing mpp pgp p ws with
  | zero =>
    refine SomeIff.some ⟨pathsAccepted_zero, devicesStored_zero⟩ ?_
    rw [Nat.zero_mul]
    exact h.onward
  | succ n ih =>
    -- the words behind the device, and the words that they stand for
    have hrest {dev q : CStr} {vs : List CStr} (hdev : getWord p = (some (strchop dev), q))
        (hq : Unread last q vs) (hhead : ws[0]?.or last = some dev) (hvs : ws.drop 1 = vs)
        (hlen : ws.length = vs.length + 1 ∨ (ws.length = 0 ∧ vs.length = 0 ∧ last ≠ none)) :
        SomeIff (readPaths alloc pathvec i a (n + 1) mpp pgp p).2
          (PathsAccepted last (n + 1) a ws.length ∧ DevicesStored pathvec last (n + 1) a ws)
          fun r => Onward last r.2 (ws.drop ((n + 1) * (1 + a))) := by
      have hdrop : ws.drop ((n + 1) * (1 + a)) = (vs.drop a).drop (n * (1 + a)) := by
        rw [← hvs, List.drop_drop, List.drop_drop, Nat.succ_mul]
        congr 1
        omega
      have hstored : DevicesStored pathvec last (n + 1) a ws ↔
          ¬Refused pathvec dev ∧ DevicesStored pathvec last n a (vs.drop a) := by
        rw [devicesStored_succ_iff, hhead, ← hvs, List.drop_drop]
        simp
      rw [readPaths, hdev, hdrop, hstored]
      dsimp only
      by_cases hrefused : Refused pathvec dev
      · rw [if_pos (storeFails_device.mpr hrefused)]
        exact SomeIff.none fun hc => hc.2.1 hrefused
      rw [if_neg (mt storeFails_device.mp hrefused), and_iff_right hrefused]
      generalize (findPathByDevt pathvec (strchop dev)).getD (unknownPath alloc (strchop dev)) = pp
      have hargs := @readPathArgs_unread mpp last q vs pp a hq
      generalize readPathArgs mpp pp a q = args at hargs ⊢
      obtain ⟨m, r⟩ := args
      rcases hargs with ⟨rfl, ha, rfl, rfl⟩ | ⟨hl, q', rfl, ⟨ha, hq'⟩ | ⟨ha, hla, hq'⟩⟩
      · have hone : ws.length = 1 := hlen.resolve_right fun hc => hc.2.2 rfl
        rw [hone]
        exact SomeIff.none fun hc => not_pathsAccepted_device ha hc.1
      · rw [pathsAccepted_succ_iff hlen ha hl, ← List.length_drop]
        exact ih hq'
      · rw [pathsAccepted_last_iff hlen ha hla (hl.resolve_left (by omega)),
          List.drop_eq_nil_of_le hla, List.drop_nil]
        have hzero : n = 0 ∧ DevicesStored pathvec last n a [] ↔ n = 0 := by
          refine and_iff_left_of_imp ?_
          rintro rfl
          exact devicesStored_zero
        refine ((readPaths_nil hq').of_iff hzero).mono fun r hr => ?_
        rw [hr]
        exact onward_of_nil hq'
    cases ws with
    | nil =>
      rcases last with _ | w
      · rw [readPaths, h.getWord_none]
        exact SomeIff.none fun hc => not_pathsAccepted_nil hc.1
      · obtain ⟨q, hq, hunread⟩ := h.getWord_some
        exact hrest hq hunread rfl rfl (Or.inr ⟨rfl, rfl, Option.some_ne_none w⟩)
    | cons dev ws =>
      obtain ⟨q, hq, hunread⟩ := h.getWord_cons
      exact hrest hq hunread rfl rfl (Or.inl rfl)

/-- The words of a group, read with `k` selector arguments if they are known, suffice. -/
def GroupWhole (k : Option ℕ) (ws : List CStr) : Prop :=
  2 ≤ (groupBody k ws).length ∧
    pathCount (groupBody k ws) * (1 + argCount (groupBody k ws)) ≤ ((groupBody k ws).drop 2).length

/-- The last word stands for the counts of a group, if not for its selector too, and it is no
number. -/
def LastForCounts (last : Option CStr) (k : Option ℕ) (ws : List CStr) : Prop :=
  k = none ∧ ws.length ≤ 2 ∧ ∃ w ∈ last, number w = 0

/-- The words of a group do not suffice, and it is accepted: the last word stands for both counts,
or for the second one; or words of the paths are missing. -/
def GroupShort (last : Option CStr) (k : Option ℕ) (ws : List CStr) : Prop :=
  LastForCounts last k ws ∨ ((groupBody k ws).length = 1 ∧ ∃ w ∈ last, number w ≤ 1) ∨
    (2 ≤ (groupBody k ws).length ∧
      PathsShort last (pathCount (groupBody k ws)) (argCount (groupBody k ws))
        ((groupBody k ws).drop 2).length)

variable {numPgArgs : ℤ} {k : Option ℕ}

theorem groupBody_eq_nil (h : ws.length ≤ 2) : groupBody k ws = [] :=
  List.drop_eq_nil_of_le (by omega)

/-- What is ahead behind the selector and its arguments: the counts and paths of the group, or
the last word once more, or nothing. -/
inductive BehindSelector (last : Option CStr) (k : Option ℕ) (ws : List CStr) : ℤ × CStr → Prop
  | body {num : ℤ} {q : CStr} (hne : groupBody k ws ≠ []) (hnum : num.toNat = selectorArgs k ws)
      (h : Unread last (skipWords num.toNat q) (groupBody k ws)) :
      BehindSelector last k ws (num, q)
  | again {num : ℤ} {q : CStr} (hlast : LastForCounts last k ws)
      (h : Unread last (skipWords num.toNat q) []) : BehindSelector last k ws (num, q)
  | nothing {num : ℤ} {q : CStr} (hnil : groupBody k ws = []) (hlast : ¬LastForCounts last k ws)
      (h : splitWords (skipWords num.toNat q) = []) : BehindSelector last k ws (num, q)

/-- The number of arguments is the last word. -/
theorem behindSelector_last {w q : CStr} (hw : last = some w) (hle : ws.length ≤ 2)
    (hq : Unread last q []) : BehindSelector last none ws (atoi (strchop w), q) := by
  by_cases hzero : number w = 0
  · refine .again ⟨rfl, hle, w, hw, hzero⟩ ?_
    have hskip := hq.skipWords (n := number w) (Or.inl hzero)
    rwa [List.drop_nil] at hskip
  · refine .nothing (groupBody_eq_nil hle) ?_ ?_
    · rintro ⟨-, -, v, hv, hvz⟩
      obtain rfl : w = v := Option.some.inj (hw.symm.trans hv)
      exact hzero hvz
    · exact hq.skipWords_eq_nil (Nat.pos_of_ne_zero hzero) (Nat.zero_le _)

/-- The selector and the number of its arguments are there. -/
theorem behindSelector_known {q : CStr} {num : ℤ} (hnum : num.toNat = selectorArgs k ws)
    (hq : Unread last q (ws.drop 2)) (hlt : 2 < ws.length) :
    BehindSelector last k ws (num, q) := by
  have hbody : groupBody k ws = (ws.drop 2).drop num.toNat := by
    rw [hnum, List.drop_drop]
    rfl
  by_cases hnil : groupBody k ws = []
  · refine .nothing hnil (fun hc => absurd hc.2.1 (not_le.mpr hlt)) ?_
    rw [hbody] at hnil
    have hle := List.drop_eq_nil_iff.mp hnil
    rw [List.length_drop] at hle
    refine hq.skipWords_eq_nil (by omega) ?_
    rwa [List.length_drop]
  · refine .body hnil hnum ?_
    rw [hbody] at hnil ⊢
    refine hq.skipWords (Or.inr ?_)
    by_contra hle
    exact hnil (List.drop_eq_nil_of_le (not_lt.mp hle))

theorem readSelector_unread (hk : Knows mpp numPgArgs k) (h : Unread last p ws) :
    ((readSelector mpp numPgArgs p).2 = none ∧ last = none ∧ groupBody k ws = []) ∨
      ∃ r, (readSelector mpp numPgArgs p).2 = some r ∧ BehindSelector last k ws r := by
  unfold readSelector
  rcases hk with ⟨hnone, rfl⟩ | ⟨hsome, rfl⟩
  · rw [hnone]
    rcases ws with _ | ⟨s, ws⟩
    · rcases last with _ | w
      · rw [h.getWord_none]
        exact Or.inl ⟨rfl, rfl, groupBody_eq_nil (Nat.zero_le 2)⟩
      · obtain ⟨q, hq, hunread⟩ := h.getWord_some
        obtain ⟨q', hq', hunread'⟩ := hunread.getWord_some
        rw [hq]
        dsimp only
        rw [hq']
        exact Or.inr ⟨_, rfl, behindSelector_last rfl (Nat.zero_le 2) hunread'⟩
    · obtain ⟨q, hq, hunread⟩ := h.getWord_cons
      rw [hq]
      dsimp only
      rcases ws with _ | ⟨a, ws⟩
      · rcases last with _ | w
        · rw [hunread.getWord_none]
          exact Or.inl ⟨rfl, rfl, groupBody_eq_nil (Nat.le_succ 1)⟩
        · obtain ⟨q', hq', hunread'⟩ := hunread.getWord_some
          rw [hq']
          exact Or.inr ⟨_, rfl, behindSelector_last rfl (Nat.le_succ 1) hunread'⟩
      · obtain ⟨q', hq', hunread'⟩ := hunread.getWord_cons
        rw [hq']
        refine Or.inr ⟨_, rfl, ?_⟩
        rcases ws with _ | ⟨v, ws⟩
        · rcases last with _ | w
          · refine .nothing (groupBody_eq_nil le_rfl) ?_ ?_
            · rintro ⟨-, -, w, hw, -⟩
              cases hw
            · rw [splitWords_skipWords, hunread'.words]
              exact List.drop_nil
          · obtain rfl : a = w := h.getLast w rfl a rfl
            exact behindSelector_last rfl le_rfl hunread'
        · refine behindSelector_known rfl hunread' ?_
          rw [List.length_cons, List.length_cons, List.length_cons]
          omega
  · obtain ⟨selector, hselector⟩ := Option.ne_none_iff_exists'.mp hsome
    rw [hselector]
    refine Or.inr ⟨_, rfl, ?_⟩
    have htwo : skipWord (skipWord p) = skipWords 2 p := rfl
    rw [htwo]
    by_cases hlt : 2 < ws.length
    · exact behindSelector_known rfl (h.skipWords (Or.inr hlt)) hlt
    · refine .nothing (groupBody_eq_nil (not_lt.mp hlt)) (fun hc => Option.some_ne_none _ hc.1) ?_
      rw [splitWords_skipWords, h.skipWords_eq_nil (Nat.succ_pos 1) (not_lt.mp hlt), List.drop_nil]

/-- The words of a group are accepted. -/
def GroupAccepted (last : Option CStr) (k : Option ℕ) (ws : List CStr) : Prop :=
  GroupWhole k ws ∨ GroupShort last k ws

theorem not_groupAccepted (hnil : groupBody k ws = []) (hlast : ¬LastForCounts last k ws) :
    ¬GroupAccepted last k ws := by
  unfold GroupAccepted GroupWhole GroupShort
  rw [hnil]
  simp [hlast]

theorem groupAccepted_iff (hne : groupBody k ws ≠ []) :
    GroupAccepted last k ws ↔
      ((groupBody k ws).length = 1 ∧ ∃ w ∈ last, number w ≤ 1) ∨
        (2 ≤ (groupBody k ws).length ∧
          PathsAccepted last (pathCount (groupBody k ws)) (argCount (groupBody k ws))
            ((groupBody k ws).drop 2).length) := by
  have hlast : ¬LastForCounts last k ws := fun hc => hne (groupBody_eq_nil hc.2.1)
  unfold GroupAccepted GroupWhole GroupShort PathsAccepted
  rw [or_iff_right hlast, and_or_left, or_left_comm]

/-- The number of paths is the last word. -/
theorem pathsAccepted_last {w : CStr} {n : ℕ} : PathsAccepted (some w) n n 0 ↔ n ≤ 1 := by
  cases n with
  | zero => exact iff_of_true pathsAccepted_zero (Nat.zero_le 1)
  | succ n =>
    rw [pathsAccepted_some_iff]
    omega

/-- A device that is the number of paths as well is stored. -/
theorem devicesStored_last {w : CStr} :
    DevicesStored pathvec (some w) (number w) (number w) [] := by
  intro j hj v hv
  obtain rfl : w = v := Option.some.inj hv
  exact not_refused_of_number (Nat.ne_of_gt (Nat.zero_lt_of_lt hj))

/-- A group whose two counts are read. -/
theorem readPathgroup_counts {i : ℕ} {m : Multipath} {num : ℤ} {q q' q'' np na : CStr}
    {vs : List CStr} (hs : readSelector mpp numPgArgs p = (m, some (num, q)))
    (hnp : getWord (skipWords num.toNat q) = (some np, q')) (hna : getWord q' = (some na, q''))
    (h : Unread last q'' vs) :
    SomeIff (readPathgroup alloc pathvec i mpp numPgArgs p).2
      (PathsAccepted last (atoi np).toNat (atoi na).toNat vs.length ∧
        DevicesStored pathvec last (atoi np).toNat (atoi na).toNat vs)
      fun r => r.1 = num ∧
        Onward last r.2 (vs.drop ((atoi np).toNat * (1 + (atoi na).toNat))) := by
  rw [readPathgroup, hs]
  dsimp only
  rw [hnp]
  dsimp only
  rw [hna]
  have hpaths := @readPaths_unread alloc pathvec m last q'' vs i (atoi na).toNat (atoi np).toNat {} h
  dsimp only
  generalize readPaths alloc pathvec i (atoi na).toNat (atoi np).toNat m {} q'' = r at hpaths ⊢
  obtain ⟨m', _ | x⟩ := r
  · exact SomeIff.none hpaths.not_of_none
  · obtain ⟨hc, hq⟩ := hpaths.of_some
    exact SomeIff.some hc ⟨rfl, hq⟩

theorem readPathgroup_unread {i : ℕ} (hk : Knows mpp numPgArgs k) (h : Unread last p ws) :
    SomeIff (readPathgroup alloc pathvec i mpp numPgArgs p).2
      (GroupAccepted last k ws ∧ GroupStored pathvec last k ws)
      fun r => (behindPaths (groupBody k ws) ≠ [] → r.1.toNat = selectorArgs k ws) ∧
        Onward last r.2 (behindPaths (groupBody k ws)) := by
  have hselector := readSelector_unread hk h
  rcases hs : readSelector mpp numPgArgs p with ⟨m, s⟩
  rw [hs] at hselector
  rcases hselector with ⟨rfl, rfl, hnil⟩ | ⟨r, rfl, @⟨num, q, hne, hnum, hq⟩ | @⟨num, q, hlast, hq⟩ |
    @⟨num, q, hnil, hlast, hq⟩⟩
  · rw [readPathgroup, hs]
    refine SomeIff.none fun hc => not_groupAccepted hnil ?_ hc.1
    rintro ⟨-, -, w, hw, -⟩
    cases hw
  · refine SomeIff.of_iff ?_ (and_congr_left' (groupAccepted_iff hne))
    unfold GroupStored
    generalize groupBody k ws = body at hne hq ⊢
    rcases body with _ | ⟨np, _ | ⟨na, rest⟩⟩
    · exact absurd rfl hne
    · obtain ⟨q', hq', hunread⟩ := hq.getWord_cons
      rcases last with _ | w
      · rw [readPathgroup, hs]
        dsimp only
        rw [hq']
        dsimp only
        rw [hunread.getWord_none]
        refine SomeIff.none ?_
        rintro ⟨⟨-, w, hw, -⟩ | ⟨hle, -⟩, -⟩
        · cases hw
        · exact absurd hle (by simp)
      · obtain ⟨q'', hq'', hunread'⟩ := hunread.getWord_some
        obtain rfl : np = w := hq.getLast w rfl np rfl
        refine ((readPathgroup_counts hs hq' hq'' hunread').of_iff ?_).mono ?_
        · have hone : ([np].length = 1 ∧ ∃ w ∈ some np, number w ≤ 1) ↔ number np ≤ 1 := by simp
          have htwo : ¬2 ≤ [np].length := Nat.lt_irrefl 1
          rw [or_iff_left fun hc => htwo hc.1, hone, and_iff_left fun hc => absurd hc htwo]
          exact pathsAccepted_last.symm.trans (and_iff_left devicesStored_last).symm
        · rintro r ⟨rfl, hr⟩
          rw [List.drop_nil] at hr
          exact ⟨fun _ => hnum, by rwa [behindPaths_eq_nil rfl]⟩
    · obtain ⟨q', hq', hunread⟩ := hq.getWord_cons
      obtain ⟨q'', hq'', hunread'⟩ := hunread.getWord_cons
      refine ((readPathgroup_counts hs hq' hq'' hunread').of_iff ?_).mono ?_
      · have hone : ¬(np :: na :: rest).length = 1 := by simp
        have htwo : 2 ≤ (np :: na :: rest).length := Nat.le_add_left 2 rest.length
        rw [or_iff_right fun hc => hone hc.1, and_iff_right htwo]
        simp only [htwo, true_imp_iff]
        exact Iff.rfl
      · rintro r ⟨rfl, hr⟩
        exact ⟨fun _ => hnum, hr⟩
  · have hnil : groupBody k ws = [] := groupBody_eq_nil hlast.2.1
    obtain ⟨-, -, w, hw, hzero⟩ := id hlast
    obtain rfl : last = some w := hw
    obtain ⟨q', hq', hunread⟩ := hq.getWord_some
    obtain ⟨q'', hq'', hunread'⟩ := hunread.getWord_some
    refine ((readPathgroup_counts hs hq' hq'' hunread').of_iff ?_).mono ?_
    · have hacc : PathsAccepted (some w) (number w) (number w) 0 :=
        pathsAccepted_last.mpr (by omega)
      have hnone : GroupStored pathvec (some w) k ws := groupStored_of_length (by simp [hnil])
      exact iff_of_true ⟨Or.inr (Or.inl hlast), hnone⟩ ⟨hacc, devicesStored_last⟩
    · rintro r ⟨rfl, hr⟩
      rw [List.drop_nil] at hr
      rw [hnil, behindPaths_eq_nil rfl]
      exact ⟨fun hne => absurd rfl hne, hr⟩
  · rw [readPathgroup, hs]
    dsimp only
    rw [getWord_of_nil hq]
    exact SomeIff.none fun hc => not_groupAccepted hnil hlast hc.1

end Reads

end MultipathTools.Dmparser
