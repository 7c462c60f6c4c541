import Mathlib.Data.List.Forall2
import MultipathTools.Parser.Blocks

/-! Quoted values come back from a line as they were, and every token of a line is a block that
`is_quote` stays inside of. -/
namespace MultipathTools.Parser

/-- Two quotes are replaced where they first occur, and behind that. -/
theorem unquote_strstr (s : CStr) : match strstr ['"', '"'] s with
    | none => unquote s = s
    | some (before, after) =>
      ∃ t, after = '"' :: '"' :: t ∧ unquote s = before ++ '"' :: unquote t := by
  induction s with
  | nil => rfl
  | cons c s ih =>
    rw [strstr]
    by_cases hp : ['"', '"'] <+: c :: s
    · rw [if_pos hp]
      obtain ⟨t, ht⟩ := hp
      obtain ⟨rfl, rfl⟩ := List.cons.inj ht
      exact ⟨t, rfl, rfl⟩
    · have hstep : unquote (c :: s) = c :: unquote s := by
        rw [unquote]
        rintro t rfl rfl
        exact hp ⟨t, rfl⟩
      rw [if_neg hp, hstep]
      cases hs : strstr ['"', '"'] s with
      | none =>
        rw [hs] at ih
        exact congrArg _ ih
      | some r =>
        rw [hs] at ih
        obtain ⟨t, ht, heq⟩ := ih
        exact ⟨t, ht, congrArg _ heq⟩

/-- The second of two quotes is cut out, and there is one more NUL at the end. -/
theorem memmove_quote (a before t : CStr) (k : ℕ) :
    memmove (a ++ (before ++ '"' :: '"' :: t ++ List.replicate (k + 1) nul))
        (a.length + before.length + 1) (a.length + before.length + 2) (t.length + k + 1) =
      .done (a ++ before ++ ['"'] ++ (t ++ List.replicate (k + 2) nul)) := by
  have hcut := memmove_cut (a ++ before ++ ['"']) (t ++ List.replicate k nul) '"' nul
  have hpos : (a ++ before ++ ['"']).length = a.length + before.length + 1 := by
    simp [Nat.add_assoc]
  have hsize : (t ++ List.replicate k nul).length = t.length + k := by simp
  have hone : List.replicate (k + 1) nul = List.replicate k nul ++ [nul] := List.replicate_succ'
  have htwo : List.replicate (k + 2) nul = List.replicate k nul ++ [nul, nul] := by
    rw [List.replicate_succ', hone, List.append_assoc, List.singleton_append]
  rw [hpos, hsize] at hcut
  rw [hone, htwo]
  simpa only [List.append_assoc, List.cons_append, List.nil_append] using hcut

/-- The loop has a text behind it, the rest of the token before it, and one more NUL at the end for
every quote that it has cut out. -/
theorem squeezeLoop_eq {strlen turns k : ℕ} {a s : CStr} (hs : nul ∉ s) (hturns : s.length < turns)
    (hlen : strlen = a.length + s.length + k) :
    ∃ j, squeezeLoop strlen turns (a ++ (s ++ List.replicate (k + 1) nul)) a.length =
      .done (a ++ (unquote s ++ List.replicate (j + 1) nul)) := by
  induction turns generalizing a s k with
  | zero => omega
  | succ turns ih =>
    have hcstr : cstrAt (a ++ (s ++ List.replicate (k + 1) nul)) a.length = .done s :=
      cstrAt_of_append hs
    have hfirst := unquote_strstr s
    rw [squeezeLoop, hcstr, Outcome.bind_done]
    cases hstr : strstr ['"', '"'] s with
    | none =>
      rw [hstr] at hfirst
      exact ⟨k, by rw [hfirst]⟩
    | some r =>
      obtain ⟨before, after⟩ := r
      rw [hstr] at hfirst
      obtain ⟨t, rfl, hunquote⟩ := hfirst
      obtain ⟨rfl, -⟩ := strstr_append hstr
      have ht : nul ∉ t := fun h => hs (by simp [h])
      simp only [List.length_append, List.length_cons] at hturns hlen
      have hsize : strlen + 1 - (a.length + before.length + 2) = t.length + k + 1 := by omega
      have hpos : a.length + before.length + 1 = (a ++ before ++ ['"']).length := by
        simp [Nat.add_assoc]
      obtain ⟨j, hj⟩ := ih (k := k + 1) (a := a ++ before ++ ['"']) ht (by omega)
        (by rw [← hpos]; omega)
      dsimp only
      rw [if_neg (by omega), hsize, memmove_quote, Outcome.bind_done, hpos, hj, hunquote]
      exact ⟨j, by simp only [List.append_assoc, List.cons_append, List.nil_append]⟩

/-- Outside of a string `move_on` passes a word. -/
theorem moveOn_word (cp : CStr) :
    moveOn false cp = (false, cp.takeWhile isWordChar, cp.dropWhile isWordChar) := by
  fun_induction moveOn false cp with
  | case1 cp h => exact Bool.noConfusion h
  | case2 cp _ => rfl
  | case3 c cp _ hc r ih =>
    have hword : isWordChar c = true := by
      simp only [Bool.false_eq_true, false_or, Bool.not_eq_true'] at hc
      exact isWordChar_iff.mpr ⟨hc.1.1, hc.1.2.1, hc.1.2.2, hc.2⟩
    have hr : r = (false, cp.takeWhile isWordChar, cp.dropWhile isWordChar) := ih
    rw [hr, List.takeWhile_cons_of_pos hword, List.dropWhile_cons_of_pos hword]
  | case4 c cp _ hc =>
    have hword : ¬ isWordChar c = true := by
      intro h
      obtain ⟨hblank, hcomment, hbrace, hquote⟩ := isWordChar_iff.mp h
      exact hc ⟨.inr ⟨by simp [hblank], by simp [hcomment], by simp [hbrace]⟩, hquote⟩
    rw [List.takeWhile_cons_of_neg hword, List.dropWhile_cons_of_neg hword]
  | case5 => rfl

/-- In a string `move_on` passes what is up to a quote that is not doubled; without two quotes there
is nothing to replace. -/
theorem moveOn_string (cp : CStr) : (moveOn true cp).2 = scanString cp ∧
    ((moveOn true cp).1 = false → unquote (scanString cp).1 = (scanString cp).1) := by
  fun_induction moveOn true cp with
  | case1 cp _ r ih =>
    refine ⟨?_, fun h => Bool.noConfusion h⟩
    rw [scanString, if_neg (by simp), ← ih.1]
  | case2 cp h => exact absurd rfl h
  | case3 c cp _ hc r ih =>
    have hscan : scanString (c :: cp) = (c :: (scanString cp).1, (scanString cp).2) := by
      conv_lhs => unfold scanString
      exact if_pos hc.2
    rw [hscan]
    refine ⟨by rw [← ih.1], fun h => ?_⟩
    rw [unquote, ih.2 h]
    rintro t rfl
    exact absurd rfl hc.2
  | case4 c cp hcp hc =>
    obtain rfl : c = '"' := by simpa using hc
    have hscan : scanString ('"' :: cp) = ([], '"' :: cp) := by
      rw [scanString, if_neg (by simp)]
      intro t
      exact hcp t rfl
    rw [hscan]
    exact ⟨rfl, fun _ => rfl⟩
  | case5 => exact ⟨rfl, fun _ => rfl⟩

theorem scanString_append (cp : CStr) : (scanString cp).1 ++ (scanString cp).2 = cp := by
  fun_induction scanString cp with
  | case1 => rfl
  | case2 c cp _ r ih => exact congrArg _ ih
  | case3 c hc cp r ih =>
    obtain rfl := not_not.mp hc
    exact congrArg _ (congrArg _ ih)
  | case4 => rfl

theorem unquote_subset (s : CStr) : unquote s ⊆ s := by
  fun_induction unquote s with
  | case1 s ih => exact List.cons_subset_cons _ (List.subset_cons_of_subset _ ih)
  | case2 c s _ ih => exact List.cons_subset_cons _ ih
  | case3 => exact List.Subset.refl _

theorem unquote_ne_nil {s : CStr} (h : s ≠ []) : unquote s ≠ [] := by
  intro hnil
  unfold unquote at hnil
  split at hnil
  · cases hnil
  · cases hnil
  · exact h rfl

/-- Inside of a string a turn that meets no end takes at least one character. -/
theorem scanString_ne_nil {c : Char} {cp : CStr} (h : c = '"' → cp.head? = some '"') :
    (scanString (c :: cp)).1 ≠ [] := by
  by_cases hc : c = '"'
  · obtain ⟨t, rfl⟩ : ∃ t, cp = '"' :: t := List.head?_eq_some_iff.mp (h hc)
    rw [hc, scanString, if_neg (by simp)]
    exact List.cons_ne_nil _ _
  · unfold scanString
    rw [if_pos hc]
    exact List.cons_ne_nil _ _

/-- One turn stores what the token says, and goes on as the turn for the token does. -/
theorem nextBlock_eq {inString : Bool} {c : Char} {cp : CStr} (hnul : nul ∉ c :: cp)
    (hb : inString = false → isBlank c = false) (hc : inString = false → isComment c = false) :
    ∃ block, nextBlock inString c cp = .done (block, (nextToken inString c cp).2) ∧
      Stored block (nextToken inString c cp).1 := by
  unfold nextBlock nextToken
  by_cases hq : c = '"' ∧ !(inString ∧ cp.head? = some '"')
  · rw [if_pos hq, if_pos hq]
    exact ⟨quoteMarker, rfl, .marker⟩
  rw [if_neg hq, if_neg hq]
  by_cases hbr : !inString ∧ isBrace c
  · rw [if_pos hbr, if_pos hbr]
    exact ⟨_, rfl, .word (List.cons_ne_nil c []) (fun h => hnul (by simp at h; simp [h])) []⟩
  rw [if_neg hbr, if_neg hbr]
  cases inString with
  | false =>
    have hword : isWordChar c = true :=
      isWordChar_iff.mpr ⟨hb rfl, hc rfl, by simpa using hbr, by simpa using hq⟩
    have hne : (c :: cp).takeWhile isWordChar ≠ [] := by
      rw [List.takeWhile_cons_of_pos hword]
      exact List.cons_ne_nil _ _
    have hs : nul ∉ (c :: cp).takeWhile isWordChar := fun h =>
      hnul ((List.takeWhile_prefix _).subset h)
    rw [moveOn_word]
    exact ⟨_, rfl, .word hne hs []⟩
  | true =>
    obtain ⟨htext, hplain⟩ := moveOn_string (c :: cp)
    have hmove : moveOn true (c :: cp) = ((moveOn true (c :: cp)).1, scanString (c :: cp)) :=
      Prod.ext rfl htext
    have hne : (scanString (c :: cp)).1 ≠ [] := by
      apply scanString_ne_nil
      intro h
      simpa [h] using hq
    have hs : nul ∉ (scanString (c :: cp)).1 := by
      intro h
      rw [← scanString_append (c :: cp)] at hnul
      exact hnul (List.mem_append_left _ h)
    have hs' : nul ∉ unquote (scanString (c :: cp)).1 := fun h => hs (unquote_subset _ h)
    rw [hmove, if_pos rfl]
    dsimp only
    cases htwo : (moveOn true (c :: cp)).1 with
    | false =>
      rw [if_neg Bool.false_ne_true, hplain htwo]
      exact ⟨_, rfl, .word hne hs []⟩
    | true =>
      obtain ⟨j, hj⟩ := squeezeLoop_eq (a := []) (k := 0) hs (Nat.lt_succ_self _)
        (Nat.zero_add _).symm
      rw [if_pos rfl]
      exact ⟨_, congrArg (Outcome.bind · _) hj, .word (unquote_ne_nil hne) hs' _⟩

theorem nextToken_suffix (inString : Bool) (c : Char) (cp : CStr) :
    (nextToken inString c cp).2.2 <:+ c :: cp := by
  unfold nextToken
  split_ifs
  · exact List.suffix_cons c cp
  · exact List.suffix_cons c cp
  · exact ⟨_, scanString_append (c :: cp)⟩
  · exact List.dropWhile_suffix _

theorem skipBlanks_suffix (inString : Bool) (cp : CStr) : skipBlanks inString cp <:+ cp := by
  unfold skipBlanks
  split_ifs
  · exact List.suffix_refl cp
  · exact List.dropWhile_suffix _

/-- The loop stores the tokens of the line, and ends. -/
theorem blocksLoop_eq {turns : ℕ} (inString : Bool) {cp : CStr} (hnul : nul ∉ cp)
    (hturns : cp.length < turns) :
    ∃ strvec, blocksLoop turns inString cp = .done strvec ∧
      List.Forall₂ Stored strvec (strvecLoop inString cp) := by
  induction turns generalizing inString cp with
  | zero => omega
  | succ turns ih =>
    unfold blocksLoop
    cases hskip : skipBlanks inString cp with
    | nil =>
      rw [strvecLoop_end hskip]
      exact ⟨[], rfl, .nil⟩
    | cons c s =>
      dsimp only
      by_cases hend : inString = false ∧ isComment c = true
      · obtain ⟨rfl, hc⟩ := hend
        rw [if_pos ⟨rfl, hc⟩, strvecLoop_comment hskip hc]
        exact ⟨[], rfl, .nil⟩
      · have hc : inString = false → isComment c = false := by
          intro h
          simpa [h] using hend
        have hsuffix : c :: s <:+ cp := hskip ▸ skipBlanks_suffix inString cp
        have hnul' : nul ∉ c :: s := fun h => hnul (hsuffix.subset h)
        obtain ⟨block, hblock, hstored⟩ := nextBlock_eq hnul' (isBlank_of_skipBlanks hskip) hc
        have hlen := nextToken_length s (isBlank_of_skipBlanks hskip) hc
        have hlen' := hsuffix.length_le
        rw [List.length_cons] at hlen'
        have hnul'' : nul ∉ (nextToken inString c s).2.2 := fun h =>
          hnul' ((nextToken_suffix inString c s).subset h)
        obtain ⟨strvec, hloop, hall⟩ := ih (nextToken inString c s).2.1 hnul'' (by omega)
        rw [if_neg hend, hblock, Outcome.bind_done, strvecLoop_cons hskip hc]
        dsimp only
        rw [hloop]
        exact ⟨_, rfl, .cons hstored hall⟩

/-- The tokens of a quoted value. -/
theorem strvecLoop_quoted {string : CStr} (hname : IsBareWord string) (s : CStr) :
    strvecLoop false (string ++ ' ' :: quoted s) =
      .word string :: .quoteMarker :: ((if s = [] then [] else [.word s]) ++ [.quoteMarker]) := by
  have hblank : strvecLoop false (' ' :: quoted s) = strvecLoop false (quoted s) := by
    have h := strvecLoop_blanks (a := [' ']) (t := quoted s) (by decide)
    rwa [List.singleton_append] at h
  have hclose : strvecLoop true ['"'] = [.quoteMarker] := by
    rw [strvecLoop_closeQuote (t := []) (by simp), strvecLoop_nil]
  rw [strvecLoop_word hname (by intro c hc; cases hc; decide), hblank, quoted, strvecLoop_openQuote]
  by_cases hs : s = []
  · subst hs
    rw [if_pos rfl]
    exact congrArg _ (congrArg _ hclose)
  · rw [if_neg hs, strvecLoop_string hs (by simp), hclose]
    rfl

theorem nul_not_mem_quoted {s : CStr} (hs : nul ∉ s) : nul ∉ quoted s := by
  have hdouble : nul ∉ doubleQuotes s := by
    induction s with
    | nil => exact List.not_mem_nil
    | cons c s ih =>
      obtain ⟨hc, hs⟩ := not_or.mp (List.mem_cons.not.mp hs)
      unfold doubleQuotes
      split
      · next hq => simp [hc, ih hs, (by decide : nul ≠ '"')]
      · simp [hc, ih hs]
  unfold quoted
  simp [hdouble, (by decide : nul ≠ '"')]

/-- A token is the marker or a text that is not empty, and `is_quote` tells which. -/
theorem Stored.block {block : List Char} {token : Token} (h : Stored block token) :
    Parser.isQuoteAt block = .done (block = quoteMarker) ∧
      (block = quoteMarker ∨ ∃ s z, s ≠ [] ∧ nul ∉ s ∧ block = s ++ nul :: z) := by
  rw [h.isQuoteAt]
  cases h with
  | marker => exact ⟨rfl, .inl rfl⟩
  | @word s hne hs z =>
    obtain ⟨c, t, rfl⟩ := List.exists_cons_of_ne_nil hne
    have hc : c ≠ nul := fun h => hs (h ▸ List.mem_cons_self)
    have hno : (c :: t) ++ nul :: z ≠ quoteMarker := fun h => hc (List.cons.inj h).1
    exact ⟨congrArg _ (decide_eq_false hno).symm, .inr ⟨_, z, hne, hs, rfl⟩⟩

theorem allocStrvecAt_eq {turns : ℕ} {string : CStr} (hnul : nul ∉ string)
    (hturns : string.length < turns) :
    ∃ strvec, allocStrvecAt turns string = .done (if strvec = [] then none else some strvec) ∧
      List.Forall₂ Stored strvec (strvecLoop false string) := by
  obtain ⟨strvec, hloop, hall⟩ := blocksLoop_eq false hnul hturns
  exact ⟨strvec, by rw [allocStrvecAt, hloop, Outcome.bind_done], hall⟩

/-- A string that is written in quotes, with its own quotes doubled, is taken as it was; and
whatever the line is, `alloc_strvec` ends and `is_quote` reads no byte outside of a token. -/
theorem allocStrvecAt_quoting :
    (∀ keyword s : CStr, IsBareWord keyword → nul ∉ keyword → nul ∉ s →
      ∀ turns > (keyword ++ ' ' :: quoted s).length, ∃ strvec,
        allocStrvecAt turns (keyword ++ ' ' :: quoted s) = .done (some strvec) ∧
          setValueAt strvec = .done (.ok s)) ∧
    ∀ line : CStr, nul ∉ line → ∀ turns > line.length, ∃ strvec,
      allocStrvecAt turns line = .done (if strvec = [] then none else some strvec) ∧
        ∀ token ∈ strvec, isQuoteAt token = .done (token = quoteMarker) ∧
          (token = quoteMarker ∨ ∃ s z, s ≠ [] ∧ nul ∉ s ∧ token = s ++ nul :: z) := by
  constructor
  · intro keyword s hname hkeyword hs turns hturns
    have hnul : nul ∉ keyword ++ ' ' :: quoted s := by
      simp [hkeyword, nul_not_mem_quoted hs, (by decide : nul ≠ ' ')]
    obtain ⟨strvec, halloc, hall⟩ := allocStrvecAt_eq hnul hturns
    rw [strvecLoop_quoted hname] at hall
    have hne : strvec ≠ [] := by
      rintro rfl
      cases hall
    rw [if_neg hne] at halloc
    refine ⟨strvec, halloc, ?_⟩
    rw [setValueAt_eq hall, setValue_printed (.quoted s)]
  · intro line hnul turns hturns
    obtain ⟨strvec, halloc, hall⟩ := allocStrvecAt_eq hnul hturns
    have hblocks := (List.forall₂_and_left _ _).mp (hall.imp fun _ _ h => ⟨h.block, h⟩)
    exact ⟨strvec, halloc, hblocks.1⟩

theorem allocStrvecAt_quoting_inch : ∃ strvec,
    allocStrvecAt 20 "product \"2.5\"\" SSD\"".toList = .done (some strvec) ∧
      setValueAt strvec = .done (.ok "2.5\" SSD".toList) :=
  allocStrvecAt_quoting.1 "product".toList "2.5\" SSD".toList (by decide) (by decide) (by decide) 20
    (by decide)

end MultipathTools.Parser
