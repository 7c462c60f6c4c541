import MultipathTools.Dmparser.Disassemble

/-! What `get_word` and the loops over it read from a text of words. -/
namespace MultipathTools.Dmparser

open MultipathTools.Features

/-- The next words of a text. Nothing is said of a text that has none left. -/
def At (p : CStr) (ws : List CStr) : Prop :=
  ∀ w vs, ws = w :: vs → p.dropWhile (· = ' ') = w ++ unwords vs

theorem at_nil (p : CStr) : At p [] := fun _ _ h => by cases h

theorem at_cons_iff {p w : CStr} {ws : List CStr} :
    At p (w :: ws) ↔ p.dropWhile (· = ' ') = w ++ unwords ws :=
  ⟨fun h => h w ws rfl, fun h _ _ he => by cases he; exact h⟩

theorem dropWhile_blank_word {w : CStr} (hw : IsWord w) (s : CStr) :
    (w ++ s).dropWhile (· = ' ') = w ++ s := by
  obtain ⟨c, w, rfl⟩ := List.exists_cons_of_ne_nil hw.1
  have hc : c ≠ ' ' := fun h => hw.blank_not_mem (h ▸ List.mem_cons_self)
  simp [hc]

/-- A text that begins with a word. -/
theorem at_word {w : CStr} (hw : IsWord w) (ws : List CStr) : At (w ++ unwords ws) (w :: ws) :=
  at_cons_iff.mpr (dropWhile_blank_word hw _)

theorem at_unwords {ws : List CStr} (hw : ∀ w ∈ ws, IsWord w) : At (unwords ws) ws := by
  cases ws with
  | nil => exact at_nil _
  | cons w ws =>
    rw [at_cons_iff, unwords_cons, List.dropWhile_cons_of_pos (by simp)]
    exact dropWhile_blank_word (hw w List.mem_cons_self) _

theorem takeWhile_word {w : CStr} (hw : IsWord w) (ws : List CStr) :
    (w ++ unwords ws).takeWhile (· ≠ ' ') = w ∧
      (w ++ unwords ws).dropWhile (· ≠ ' ') = unwords ws := by
  have hno : ∀ c ∈ w, decide (c ≠ ' ') = true := fun c hc =>
    decide_eq_true fun h => hw.blank_not_mem (h ▸ hc)
  rw [List.takeWhile_append_of_pos hno, List.dropWhile_append_of_pos hno]
  cases ws <;> simp

theorem strchop_word {w : CStr} (hw : IsWord w) : strchop w = w := by
  rw [strchop, List.rdropWhile_eq_self_iff]
  intro hne
  rw [hw.2 _ (List.getLast_mem hne)]
  exact Bool.false_ne_true

theorem getWord_at {p w : CStr} {ws : List CStr} (hw : ∀ v ∈ w :: ws, IsWord v)
    (hp : At p (w :: ws)) : ∃ p', getWord p = (some w, p') ∧ At p' ws := by
  rw [List.forall_mem_cons] at hw
  have hne : w ++ unwords ws ≠ [] := by simp [hw.1.1]
  obtain ⟨htake, hdrop⟩ := takeWhile_word hw.1 ws
  unfold getWord
  rw [at_cons_iff.mp hp]
  dsimp only
  rw [if_neg hne, htake, hdrop, strchop_word hw.1]
  refine ⟨_, rfl, ?_⟩
  cases ws with
  | nil => exact at_nil _
  | cons v vs => exact at_unwords hw.2

theorem skipWord_at {p w : CStr} {ws : List CStr} (hw : ∀ v ∈ w :: ws, IsWord v)
    (hp : At p (w :: ws)) : At (skipWord p) ws := by
  rw [List.forall_mem_cons] at hw
  have hne : w ++ unwords ws ≠ [] := by simp [hw.1.1]
  unfold skipWord
  rw [at_cons_iff.mp hp]
  dsimp only
  rw [if_neg hne, (takeWhile_word hw.1 ws).2]
  exact at_unwords hw.2

theorem mergeArgs_at {p : CStr} {ws rest : List CStr} (dst : CStr)
    (hw : ∀ v ∈ ws ++ rest, IsWord v) (hp : At p (ws ++ rest)) :
    ∃ p', mergeArgs ws.length p dst = (dst ++ unwords ws, some p') ∧ At p' rest := by
  induction ws generalizing p dst with
  | nil => exact ⟨p, by simp [mergeArgs], hp⟩
  | cons w ws ih =>
    obtain ⟨q, hq, hat⟩ := getWord_at hw hp
    obtain ⟨p', hp', hat'⟩ := ih (mergeWords dst w) (fun v hv => hw v (List.mem_cons_of_mem w hv)) hat
    refine ⟨p', ?_, hat'⟩
    rw [List.length_cons, mergeArgs, hq]
    dsimp only
    rw [hp', mergeWords]
    simp

theorem isWord_itoa (x : ℤ) : IsWord (itoa x) := by
  have hdigits : ∀ c ∈ Nat.toDigits 10 x.natAbs, isspace c = false := fun c hc =>
    isspace_of_isDigit (isDigit_toDigits hc)
  unfold itoa
  split_ifs
  · exact ⟨by simp, List.forall_mem_cons.mpr ⟨by decide, hdigits⟩⟩
  · exact ⟨Nat.toDigits_ne_nil, hdigits⟩

theorem atoi_itoa_self {x : ℤ} (hx : IsInt x) : atoi (itoa x) = x := by
  have h := atoi_itoa (s := []) hx (fun c hc => by simp at hc)
  rwa [List.append_nil] at h

/-- A well-formed string of words is read back. -/
theorem readArgs_at {p : CStr} {ws rest : List CStr} (hlen : ws.length < 2 ^ 31)
    (hw : ∀ v ∈ ws ++ rest, IsWord v) (hp : At p (itoa ws.length :: (ws ++ rest))) :
    ∃ p', readArgs p = (some (render ws), some p') ∧ At p' rest := by
  have hall : ∀ v ∈ itoa ws.length :: (ws ++ rest), IsWord v :=
    List.forall_mem_cons.mpr ⟨isWord_itoa _, hw⟩
  obtain ⟨q, hq, hat⟩ := getWord_at hall hp
  obtain ⟨p', hp', hat'⟩ := mergeArgs_at (itoa ws.length) hw hat
  refine ⟨p', ?_, hat'⟩
  unfold readArgs
  rw [hq]
  dsimp only
  rw [atoi_itoa_self (isInt_natCast hlen), Int.toNat_natCast, hp', itoa_natCast]
  rfl

end MultipathTools.Dmparser

/-! The table of `assemble_map` as a text of words. -/
namespace MultipathTools.Dmparser

open MultipathTools.Features

/-- The words for a path of a table. -/
def pathWords (mp : Multipath) (pp : Path) : List CStr := [pp.devT, itoa (tmpMinio mp pp)]

/-- The words for a path group, with a selector without arguments. -/
def pathgroupWords (mp : Multipath) (selector : CStr) (pgp : Pathgroup) : List CStr :=
  selector :: "0".toList :: itoa pgp.paths.length :: "1".toList ::
    pgp.paths.flatMap (pathWords mp)

/-- The words after the features and the hardware handler. -/
def groupWords (mp : Multipath) (selector : CStr) : List CStr :=
  itoa (mp.pg.getD []).length :: itoa (if (mp.pg.getD []).length ≠ 0 then mp.bestpg else 0) ::
    (mp.pg.getD []).flatMap (pathgroupWords mp selector)

theorem unwords_flatMap {α : Type} (f : α → List CStr) (as : List α) :
    unwords (as.flatMap f) = as.flatMap fun a => unwords (f a) := by
  induction as with
  | nil => rfl
  | cons a as ih => rw [List.flatMap_cons, unwords_append, ih, List.flatMap_cons]

/-- Appending element by element appends all the texts, within the buffer. -/
theorem foldlM_append {α : Type} {f : CStr → α → Option CStr} {g : α → CStr} {len : ℕ}
    (hf : ∀ params a p, f params a = some p → p = params ++ g a ∧ p.length < len) {as : List α}
    {params p : CStr} (hlen : params.length < len) (h : as.foldlM f params = some p) :
    p = params ++ as.flatMap g ∧ p.length < len := by
  induction as generalizing params with
  | nil =>
    obtain rfl : params = p := Option.some.inj h
    exact ⟨by simp, hlen⟩
  | cons a as ih =>
    rw [List.foldlM_cons] at h
    obtain ⟨q, hq, h⟩ := Option.bind_eq_some_iff.mp h
    obtain ⟨rfl, hqlen⟩ := hf params a q hq
    obtain ⟨rfl, hplen⟩ := ih hqlen h
    exact ⟨by simp, hplen⟩

theorem appendPath_eq {mp : Multipath} {len : ℕ} {params p : CStr} {pp : Path}
    (h : appendPath mp len params pp = some p) :
    p = params ++ unwords (pathWords mp pp) ∧ p.length < len := by
  unfold appendPath at h
  split_ifs at h
  obtain ⟨rfl, hlen⟩ := append_eq_some h
  exact ⟨by simp [pathWords], hlen⟩

theorem appendPathgroup_eq {mp : Multipath} {len : ℕ} {selector params p : CStr} {pgp : Pathgroup}
    (hsel : mp.selector = some (mergeWords selector "0".toList))
    (h : appendPathgroup mp len params pgp = some p) :
    p = params ++ unwords (pathgroupWords mp selector pgp) ∧ p.length < len := by
  obtain ⟨q, hq, h⟩ := Option.bind_eq_some_iff.mp h
  obtain ⟨rfl, hlen⟩ := append_eq_some hq
  have hpath : ∀ params pp p, appendPath mp len params pp = some p →
      p = params ++ unwords (pathWords mp pp) ∧ p.length < len := fun _ _ _ => appendPath_eq
  obtain ⟨rfl, hplen⟩ := foldlM_append hpath hlen h
  refine ⟨?_, hplen⟩
  rw [hsel, printStr_some, pathgroupWords]
  simp [mergeWords, unwords_flatMap]

/-- The table as a text of words. -/
theorem assembleMap_eq {mp mp' : Multipath} {len ver : ℕ} {fs hs : List CStr}
    {selector table : CStr} (h : assembleMap mp len ver = (mp', some table))
    (hf : mp'.features = some (render fs)) (hh : mp'.hwhandler = some (render hs))
    (hsel : mp'.selector = some (mergeWords selector "0".toList)) :
    table = itoa fs.length ++
        unwords (fs ++ itoa hs.length :: (hs ++ groupWords mp' selector)) ∧
      table.length < len := by
  simp only [assembleMap, Prod.mk.injEq] at h
  obtain ⟨rfl, h⟩ := h
  obtain ⟨q, hq, h⟩ := Option.bind_eq_some_iff.mp h
  obtain ⟨rfl, hlen⟩ := append_eq_some hq
  have hgroup : ∀ params pgp p, appendPathgroup (addMapFeatures mp ver) len params pgp = some p →
      p = params ++ unwords (pathgroupWords (addMapFeatures mp ver) selector pgp) ∧
        p.length < len := fun _ _ _ => appendPathgroup_eq hsel
  obtain ⟨rfl, htable⟩ := foldlM_append hgroup hlen h
  refine ⟨?_, htable⟩
  rw [tableHeader, hf, hh, printStr_some, printStr_some, render, render, groupWords,
    ← itoa_natCast, ← itoa_natCast]
  simp [unwords_flatMap]

theorem pathgroups_length_le (mp : Multipath) (selector : CStr) (pg : List Pathgroup) :
    pg.length ≤ (pg.flatMap (pathgroupWords mp selector)).length ∧
      ∀ pgp ∈ pg, pgp.paths.length ≤ (pg.flatMap (pathgroupWords mp selector)).length := by
  induction pg with
  | nil => simp
  | cons pgp pg ih =>
    have hone : pgp.paths.length + 1 ≤ (pathgroupWords mp selector pgp).length := by
      have hpaths : pgp.paths.length ≤ (pgp.paths.flatMap (pathWords mp)).length := by
        induction pgp.paths with
        | nil => simp
        | cons pp paths ih =>
          rw [List.flatMap_cons, List.length_append, List.length_cons, pathWords]
          simp only [List.length_cons, List.length_nil]
          omega
      simp only [pathgroupWords, List.length_cons]
      omega
    rw [List.flatMap_cons, List.length_append, List.forall_mem_cons, List.length_cons]
    refine ⟨by omega, by omega, fun q hq => ?_⟩
    have := ih.2 q hq
    omega

end MultipathTools.Dmparser
