import MultipathTools.Base.Precedence

/-! Lists in which every entry is merged into the next one with its key, until each key is there
once, at its last place, and what survives the merging. -/
namespace MultipathTools

section Keys

variable {α κ : Type*} [DecidableEq κ]

/-- An entry is merged into the first one with its key. -/
def mergeFirst (key : α → κ) (merge : α → α → α) (a : α) : List α → List α
  | [] => []
  | b :: l => if key b = key a then merge b a :: l else b :: mergeFirst key merge a l

theorem length_mergeFirst (key : α → κ) (merge : α → α → α) (a : α) (l : List α) :
    (mergeFirst key merge a l).length = l.length := by
  induction l with
  | nil => rfl
  | cons b l ih =>
    unfold mergeFirst
    split
    · rfl
    · rw [List.length_cons, ih, List.length_cons]

def hasKey (key : α → κ) (k : κ) (l : List α) : Bool := k ∈ l.map key

/-- Every entry is merged into the next one with its key. -/
def collapse (key : α → κ) (merge : α → α → α) : List α → List α
  | [] => []
  | a :: l =>
    if hasKey key (key a) l then collapse key merge (mergeFirst key merge a l)
    else a :: collapse key merge l
termination_by l => l.length
decreasing_by
  · rw [length_mergeFirst]
    exact Nat.lt_succ_self _
  · exact Nat.lt_succ_self _

/-- The entries of one key, merged one into the next. -/
def mergeAll (merge : α → α → α) : List α → Option α
  | [] => none
  | a :: l => some (l.foldl (fun acc b => merge b acc) a)

variable {key : α → κ} {merge : α → α → α} {a : α} {l : List α}

theorem mergeFirst_cons_of_eq {b : α} (h : key b = key a) :
    mergeFirst key merge a (b :: l) = merge b a :: l := if_pos h

theorem mergeFirst_cons_of_ne {b : α} (h : key b ≠ key a) :
    mergeFirst key merge a (b :: l) = b :: mergeFirst key merge a l := if_neg h

/-- The entries of a key. -/
def ofKey (key : α → κ) (k : κ) (l : List α) : List α := l.filter fun a => key a = k

@[simp] theorem ofKey_cons_self (a : α) (l : List α) :
    ofKey key (key a) (a :: l) = a :: ofKey key (key a) l := by
  simp [ofKey]

theorem ofKey_cons_of_ne {k : κ} (h : key a ≠ k) : ofKey key k (a :: l) = ofKey key k l := by
  simp [ofKey, h]

theorem map_mergeFirst (hmerge : ∀ b, key b = key a → key (merge b a) = key b) :
    (mergeFirst key merge a l).map key = l.map key := by
  induction l with
  | nil => rfl
  | cons b l ih =>
    by_cases h : key b = key a
    · rw [mergeFirst_cons_of_eq h, List.map_cons, hmerge b h, List.map_cons]
    · rw [mergeFirst_cons_of_ne h, List.map_cons, ih, List.map_cons]

theorem ofKey_mergeFirst_of_ne (hmerge : ∀ b, key b = key a → key (merge b a) = key b) {k : κ}
    (hk : key a ≠ k) : ofKey key k (mergeFirst key merge a l) = ofKey key k l := by
  induction l with
  | nil => rfl
  | cons b l ih =>
    by_cases h : key b = key a
    · rw [mergeFirst_cons_of_eq h, ofKey_cons_of_ne, ofKey_cons_of_ne]
      · exact h ▸ hk
      · rw [hmerge b h, h]
        exact hk
    · rw [mergeFirst_cons_of_ne h]
      by_cases hb : key b = k
      · subst hb
        rw [ofKey_cons_self, ofKey_cons_self, ih]
      · rw [ofKey_cons_of_ne hb, ofKey_cons_of_ne hb, ih]

theorem mergeAll_ofKey_mergeFirst (hmerge : ∀ b, key b = key a → key (merge b a) = key b)
    (hmem : key a ∈ l.map key) : mergeAll merge (ofKey key (key a) (mergeFirst key merge a l)) =
      mergeAll merge (a :: ofKey key (key a) l) := by
  induction l with
  | nil => cases hmem
  | cons b l ih =>
    by_cases h : key b = key a
    · have hkey : key (merge b a) = key a := (hmerge b h).trans h
      have hnew : ofKey key (key a) (merge b a :: l) = merge b a :: ofKey key (key a) l := by
        rw [← hkey, ofKey_cons_self]
      have hold : ofKey key (key a) (b :: l) = b :: ofKey key (key a) l := by
        rw [← h, ofKey_cons_self]
      rw [mergeFirst_cons_of_eq h, hnew, hold]
      rfl
    · rw [mergeFirst_cons_of_ne h, ofKey_cons_of_ne h, ofKey_cons_of_ne h]
      refine ih ?_
      rw [List.map_cons] at hmem
      exact List.mem_of_ne_of_mem (Ne.symm h) hmem

theorem collapse_nil : collapse key merge [] = [] := by
  rw [collapse]

theorem collapse_cons_of_mem (h : key a ∈ l.map key) :
    collapse key merge (a :: l) = collapse key merge (mergeFirst key merge a l) := by
  have hkey : hasKey key (key a) l = true := decide_eq_true h
  rw [collapse, if_pos hkey]

theorem collapse_cons_of_not_mem (h : key a ∉ l.map key) :
    collapse key merge (a :: l) = a :: collapse key merge l := by
  have hkey : ¬hasKey key (key a) l = true := fun hmem => h (of_decide_eq_true hmem)
  rw [collapse, if_neg hkey]

section Slots

variable {k : ℕ} {l₁ l₂ : List α}

/-- An entry after a slot is changed, and the slot is deleted. -/
theorem eraseIdx_modify (f : α → α) : ((l₁ ++ a :: l₂).modify (l₁.length + 1 + k) f).eraseIdx
    l₁.length = l₁ ++ l₂.modify k f := by
  induction l₁ with
  | nil => simp [Nat.add_comm]
  | cons b l₁ ih =>
    have hlength : (b :: l₁).length + 1 + k = (l₁.length + 1 + k) + 1 := by
      rw [List.length_cons]
      omega
    rw [hlength, List.cons_append, List.modify_succ_cons, List.length_cons, List.eraseIdx_cons_succ,
      ih, List.cons_append]

theorem modify_findIdx? (h : (l.findIdx? fun b => key b = key a) = some k) :
    l.modify k (fun b => merge b a) = mergeFirst key merge a l := by
  induction l generalizing k with
  | nil => cases h
  | cons b l ih =>
    by_cases heq : key b = key a
    · rw [List.findIdx?_cons, if_pos (decide_eq_true heq)] at h
      obtain rfl := Option.some.inj h
      rw [mergeFirst_cons_of_eq heq]
      rfl
    · rw [List.findIdx?_cons, if_neg fun hdec => heq (of_decide_eq_true hdec)] at h
      obtain ⟨k, hk, rfl⟩ := Option.map_eq_some_iff.mp h
      rw [mergeFirst_cons_of_ne heq, List.modify_succ_cons, ih hk]

theorem findIdx?_key_eq_none : (l.findIdx? fun b => key b = key a) = none ↔ key a ∉ l.map key := by
  rw [List.findIdx?_eq_none_iff]
  constructor
  · intro h hmem
    obtain ⟨b, hb, heq⟩ := List.mem_map.mp hmem
    exact absurd heq (of_decide_eq_false (h b hb))
  · intro h b hb
    exact decide_eq_false fun heq => h (heq ▸ List.mem_map_of_mem hb)

end Slots

/-- Each key is left once, at its last place. -/
theorem map_collapse (hmerge : ∀ a b : α, key b = key a → key (merge b a) = key b) (l : List α) :
    (collapse key merge l).map key = (l.map key).dedup := by
  fun_induction collapse key merge l with
  | case1 => rfl
  | case2 a l hkey ih =>
    have hmem : key a ∈ l.map key := of_decide_eq_true hkey
    rw [ih, map_mergeFirst (hmerge a), List.map_cons, List.dedup_cons_of_mem hmem]
  | case3 a l hkey ih =>
    have hnot : key a ∉ l.map key := fun hmem => hkey (decide_eq_true hmem)
    rw [List.map_cons, ih, List.map_cons, List.dedup_cons_of_notMem hnot]

/-- What is left of a key is the merger of all of its entries. -/
theorem ofKey_collapse (hmerge : ∀ a b : α, key b = key a → key (merge b a) = key b) (k : κ)
    (l : List α) :
    ofKey key k (collapse key merge l) = (mergeAll merge (ofKey key k l)).toList := by
  fun_induction collapse key merge l with
  | case1 => rfl
  | case2 a l hkey ih =>
    have hmem : key a ∈ l.map key := of_decide_eq_true hkey
    rw [ih]
    by_cases hk : key a = k
    · subst hk
      rw [mergeAll_ofKey_mergeFirst (hmerge a) hmem, ofKey_cons_self]
    · rw [ofKey_mergeFirst_of_ne (hmerge a) hk, ofKey_cons_of_ne hk]
  | case3 a l hkey ih =>
    have hnot : key a ∉ l.map key := fun hmem => hkey (decide_eq_true hmem)
    by_cases hk : key a = k
    · subst hk
      have hnil : ofKey key (key a) l = [] := by
        refine List.filter_eq_nil_iff.mpr fun b hb hb' => ?_
        exact hnot (List.mem_map.mpr ⟨b, hb, of_decide_eq_true hb'⟩)
      rw [ofKey_cons_self, ofKey_cons_self, ih, hnil]
      rfl
    · rw [ofKey_cons_of_ne hk, ofKey_cons_of_ne hk, ih]

end Keys

section Survive

variable {α ι β : Type*}

/-- In a list with the last entry first: the value that counts for `i`, that of the first entry which
has one, is handed on by every merge on the way. -/
def Passed (get : α → ι → Option β) (reached : α → α → ι → Prop) (i : ι) : List α → Prop
  | a :: b :: l => (get a i).isSome ∨ (∀ c ∈ b :: l, get c i = none) ∨
      reached a b i ∧ Passed get reached i (b :: l)
  | _ => True

theorem mergeAll_concat (merge : α → α → α) (l : List α) (a : α) :
    mergeAll merge (l ++ [a]) = some ((mergeAll merge l).elim a (merge a)) := by
  cases l with
  | nil => rfl
  | cons b l =>
    show some ((l ++ [a]).foldl _ b) = _
    rw [List.foldl_append]
    rfl

theorem lastSome_concat (f : α → Option β) (l : List α) (a : α) :
    lastSome f (l ++ [a]) = (f a).or (lastSome f l) := by
  rw [lastSome, List.reverse_append, List.findSome?_append]
  cases hf : f a <;> simp [lastSome, hf]

variable {get : α → ι → Option β} {merge : α → α → α} {reached : α → α → ι → Prop} {i : ι}

theorem passed_of_none {l : List α} (h : ∀ a ∈ l, get a i = none) : Passed get reached i l := by
  match l with
  | [] => exact trivial
  | [_] => exact trivial
  | _ :: b :: l => exact .inr (.inl fun c hc => h c (List.mem_cons_of_mem _ hc))

/-- Merging keeps the value that counts exactly if every merge hands it on. -/
theorem mergeAll_get_iff
    (hget : ∀ a b, reached a b i → get (merge a b) i = (get a i).or (get b i))
    (hlost : ∀ a b, ¬reached a b i → get (merge a b) i = get a i)
    (hreached : ∀ a b c, reached a (merge b c) i ↔ reached a b i) (r : List α) :
    ((mergeAll merge r.reverse).bind fun a => get a i) = lastSome (fun a => get a i) r.reverse ↔
      Passed get reached i r := by
  induction r with
  | nil => exact iff_of_true rfl trivial
  | cons a r ih =>
    cases r with
    | nil =>
      refine iff_of_true ?_ trivial
      rw [List.reverse_singleton, lastSome_cons]
      rfl
    | cons b l =>
      rw [List.reverse_cons, mergeAll_concat, lastSome_concat]
      obtain ⟨acc, hacc⟩ : ∃ acc, mergeAll merge (b :: l).reverse = some acc := by
        rw [List.reverse_cons, mergeAll_concat]
        exact ⟨_, rfl⟩
      have hiff : reached a acc i ↔ reached a b i := by
        rw [List.reverse_cons, mergeAll_concat] at hacc
        obtain rfl := Option.some.inj hacc
        cases mergeAll merge l.reverse with
        | none => exact Iff.rfl
        | some c => exact hreached a b c
      rw [hacc] at ih ⊢
      show get (merge a acc) i = _ ↔ (get a i).isSome ∨ _ ∨ _
      have hother (ha : get a i = none) (hreach : reached a acc i) :
          get (merge a acc) i = get acc i := by
        rw [hget a acc hreach, ha, Option.none_or]
      cases ha : get a i with
      | some v =>
        refine iff_of_true ?_ (.inl rfl)
        by_cases hreach : reached a acc i
        · rw [hget a acc hreach, ha]
          rfl
        · rw [hlost a acc hreach, ha]
          rfl
      | none =>
        have hnone : lastSome (fun a => get a i) (b :: l).reverse = none ↔
            ∀ c ∈ b :: l, get c i = none := by
          rw [← Option.not_isSome_iff_eq_none, lastSome_isSome]
          simp [and_comm]
        rw [Option.none_or]
        constructor
        · intro h
          by_cases hreach : reached a b i
          · rw [hother ha (hiff.mpr hreach)] at h
            exact .inr (.inr ⟨hreach, ih.mp h⟩)
          · rw [hlost a acc fun h => hreach (hiff.mp h), ha] at h
            exact .inr (.inl (hnone.mp h.symm))
        · rintro (h | hall | ⟨hreach, hpassed⟩)
          · cases h
          · have hacc : get acc i = none :=
              (ih.mpr (passed_of_none hall)).trans (hnone.mpr hall)
            rw [hnone.mpr hall]
            by_cases hreach : reached a acc i
            · exact (hother ha hreach).trans hacc
            · exact (hlost a acc hreach).trans ha
          · exact (hother ha (hiff.mpr hreach)).trans (ih.mpr hpassed)

end Survive

end MultipathTools
