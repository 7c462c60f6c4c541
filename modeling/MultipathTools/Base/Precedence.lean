import Mathlib.Data.List.Dedup

/-! Lists of entries of which several can apply, the last one that tells a value taking precedence.
Two such lists tell the same whatever applies if they do so for each key alone and agree on the order
of the keys, as far as their values differ. -/
namespace MultipathTools

section Last

variable {α β : Type*}

/-- The value of the last entry that tells one. -/
def lastSome (f : α → Option β) (l : List α) : Option β :=
  l.reverse.findSome? f

variable {f : α → Option β} {l : List α}

@[simp] theorem lastSome_nil : lastSome f [] = none := rfl

theorem lastSome_cons (a : α) (l : List α) : lastSome f (a :: l) = (lastSome f l).or (f a) := by
  rw [lastSome, List.reverse_cons, List.findSome?_append]
  cases hf : f a <;> simp [lastSome, hf]

theorem lastSome_isSome : (lastSome f l).isSome ↔ ∃ a ∈ l, (f a).isSome := by
  simp [lastSome]

/-- The last member of a list with a property, and what follows it. -/
theorem find?_reverse_eq_some {p : α → Bool} {a : α} : l.reverse.find? p = some a ↔
    p a = true ∧ ∃ l₁ l₂, l = l₁ ++ a :: l₂ ∧ ∀ b ∈ l₂, p b = false := by
  rw [List.find?_eq_some_iff_append]
  refine and_congr_right fun _ => ?_
  constructor
  · rintro ⟨as, bs, heq, has⟩
    refine ⟨bs.reverse, as.reverse, ?_, ?_⟩
    · rw [← List.reverse_reverse l, heq]
      simp
    · intro b hb
      simpa using has b (List.mem_reverse.mp hb)
  · rintro ⟨l₁, l₂, rfl, hl₂⟩
    refine ⟨l₂.reverse, l₁.reverse, by simp, ?_⟩
    intro b hb
    simpa using hl₂ b (List.mem_reverse.mp hb)

theorem mem_of_pair_sublist {a b : α} {l₁ l₂ : List α} (hl : (l₁ ++ a :: l₂).Nodup)
    (hsub : [a, b].Sublist (l₁ ++ a :: l₂)) : b ∈ l₂ := by
  induction l₁ with
  | nil =>
    rw [List.nil_append, List.nodup_cons] at hl
    rw [List.nil_append] at hsub
    cases hsub with
    | cons _ hsub => exact absurd (hsub.subset List.mem_cons_self) hl.1
    | cons_cons _ hsub => exact hsub.subset List.mem_cons_self
  | cons c l₁ ih =>
    rw [List.cons_append, List.nodup_cons] at hl
    rw [List.cons_append] at hsub
    cases hsub with
    | cons _ hsub => exact ih hl.2 hsub
    | cons_cons _ _ => exact absurd (List.mem_append_right _ List.mem_cons_self) hl.1

/-- Of two members with a property the one that is the last comes second. -/
theorem pair_sublist_of_last {a b : α} {p : α → Bool} (hb : l.reverse.find? p = some b) (ha : a ∈ l)
    (hpa : p a = true) (hne : a ≠ b) : [a, b].Sublist l := by
  obtain ⟨-, l₁, l₂, rfl, hl₂⟩ := find?_reverse_eq_some.mp hb
  have hmem : a ∈ l₁ := by
    rcases List.mem_append.mp ha with ha | ha
    · exact ha
    · rcases List.mem_cons.mp ha with rfl | ha
      · exact absurd rfl hne
      · rw [hl₂ a ha] at hpa
        cases hpa
  exact (List.singleton_sublist.mpr hmem).append (List.singleton_sublist.mpr List.mem_cons_self)

theorem not_pair_sublist_of_last (hl : l.Nodup) {a b : α} {p : α → Bool}
    (ha : l.reverse.find? p = some a) (hpb : p b = true) : ¬[a, b].Sublist l := by
  intro hsub
  obtain ⟨-, l₁, l₂, rfl, hl₂⟩ := find?_reverse_eq_some.mp ha
  rw [hl₂ b (mem_of_pair_sublist hl hsub)] at hpb
  cases hpb

theorem exists_last {p : α → Bool} {a : α} (ha : a ∈ l) (hpa : p a = true) :
    ∃ b ∈ l, p b = true ∧ l.reverse.find? p = some b := by
  have hsome : (l.reverse.find? p).isSome :=
    List.find?_isSome.mpr ⟨a, List.mem_reverse.mpr ha, hpa⟩
  obtain ⟨b, hb⟩ := Option.isSome_iff_exists.mp hsome
  exact ⟨b, List.mem_reverse.mp (List.mem_of_find?_eq_some hb), List.find?_some hb, hb⟩

/-- The order of two members is the one in the list that they are taken from. -/
theorem pair_sublist_of_sublist [DecidableEq α] {l' : List α} (hl : l.Nodup) (hsub : l'.Sublist l)
    {a b : α} (ha : a ∈ l') (hb : b ∈ l') (hne : a ≠ b) (h : [a, b].Sublist l) :
    [a, b].Sublist l' := by
  let p : α → Bool := fun x => x = a ∨ x = b
  have hpa : p a = true := by simp [p]
  have hpb : p b = true := by simp [p]
  have hp : ∀ x, p x = true → x = a ∨ x = b := fun x hx => by simpa [p] using hx
  obtain ⟨x, -, hpx, hx⟩ := exists_last ha hpa
  obtain ⟨y, -, hpy, hy⟩ := exists_last (hsub.subset ha) hpa
  rcases hp y hpy with rfl | rfl
  · exact absurd h (not_pair_sublist_of_last hl hy hpb)
  · rcases hp x hpx with rfl | rfl
    · have hback := (pair_sublist_of_last hx hb hpb (Ne.symm hne)).trans hsub
      exact absurd hback (not_pair_sublist_of_last hl hy hpa)
    · exact pair_sublist_of_last hx ha hpa hne

theorem dedup_filter [DecidableEq α] (p : α → Bool) (l : List α) :
    (l.filter p).dedup = l.dedup.filter p := by
  induction l with
  | nil => rfl
  | cons a l ih =>
    by_cases hp : p a = true
    · rw [List.filter_cons_of_pos hp]
      by_cases ha : a ∈ l
      · rw [List.dedup_cons_of_mem ha, List.dedup_cons_of_mem (List.mem_filter.mpr ⟨ha, hp⟩), ih]
      · rw [List.dedup_cons_of_notMem ha, List.filter_cons_of_pos hp,
          List.dedup_cons_of_notMem fun h => ha (List.mem_filter.mp h).1, ih]
    · rw [List.filter_cons_of_neg hp, ih]
      by_cases ha : a ∈ l
      · rw [List.dedup_cons_of_mem ha]
      · rw [List.dedup_cons_of_notMem ha, List.filter_cons_of_neg hp]

/-- Two orders of the same keys choose the same value from every set of keys, if and only if they
agree on each pair of keys with different values. -/
theorem last_bind_eq_iff [DecidableEq α] {P Q : List α} (hP : P.Nodup) (hQ : Q.Nodup)
    (hPQ : ∀ k, k ∈ P ↔ k ∈ Q) {g : α → Option β} :
    (∀ M : α → Bool, (Q.reverse.find? M).bind g = (P.reverse.find? M).bind g) ↔
      ∀ k k', [k, k'].Sublist P → g k ≠ g k' → [k, k'].Sublist Q := by
  constructor
  · intro h k k' hsub hne
    have hk : k ∈ P := hsub.subset List.mem_cons_self
    let M : α → Bool := fun x => x = k ∨ x = k'
    have hMk : M k = true := by simp [M]
    have hMk' : M k' = true := by simp [M]
    have hM : ∀ x, M x = true → x = k ∨ x = k' := fun x hx => by simpa [M] using hx
    obtain ⟨x, -, hMx, hx⟩ := exists_last hk hMk
    obtain ⟨y, -, hMy, hy⟩ := exists_last ((hPQ k).mp hk) hMk
    have hvalue := h M
    rw [hx, hy] at hvalue
    rcases hM x hMx with rfl | rfl
    · exact absurd hsub (not_pair_sublist_of_last hP hx hMk')
    · rcases hM y hMy with rfl | rfl
      · exact absurd hvalue hne
      · exact pair_sublist_of_last hy ((hPQ k).mp hk) hMk fun heq => hne (heq ▸ rfl)
  · intro h M
    cases hx : P.reverse.find? M with
    | none =>
      have hnone : Q.reverse.find? M = none := by
        rw [List.find?_eq_none] at hx ⊢
        intro k hk
        exact hx k (List.mem_reverse.mpr ((hPQ k).mpr (List.mem_reverse.mp hk)))
      rw [hnone]
    | some x =>
      have hmem : x ∈ P := List.mem_reverse.mp (List.mem_of_find?_eq_some hx)
      obtain ⟨y, hyQ, hMy, hy⟩ := exists_last ((hPQ x).mp hmem) (List.find?_some hx)
      rw [hy]
      by_contra hne
      have hsub := pair_sublist_of_last hx ((hPQ y).mpr hyQ) hMy fun heq => hne (heq ▸ rfl)
      exact not_pair_sublist_of_last hQ hy (List.find?_some hx) (h y x hsub hne)

end Last

section Lookup

variable {α β κ : Type*}

/-- The value that the entries of a set of keys tell. -/
def lookup (key : α → κ) (f : α → Option β) (l : List α) (M : κ → Bool) : Option β :=
  lastSome f (l.filter fun a => M (key a))

/-- The keys of the entries that tell a value, in the order of the last ones that do. -/
def setters [DecidableEq κ] (key : α → κ) (f : α → Option β) (l : List α) : List κ :=
  ((l.filter fun a => (f a).isSome).map key).dedup

variable {key : α → κ} {f : α → Option β} {l l' : List α}

theorem lookup_cons (a : α) (M : κ → Bool) : lookup key f (a :: l) M =
    (lookup key f l M).or (if M (key a) then f a else none) := by
  unfold lookup
  rw [List.filter_cons]
  split_ifs
  · rw [lastSome_cons]
  · rw [Option.or_none]

variable [DecidableEq κ]

theorem mem_setters {k : κ} : k ∈ setters key f l ↔ (lookup key f l fun k' => k' = k).isSome := by
  rw [setters, List.mem_dedup, lookup, lastSome_isSome]
  simp [and_comm, and_assoc]

theorem setters_cons_none {a : α} (ha : f a = none) : setters key f (a :: l) = setters key f l := by
  simp [setters, ha]

theorem setters_cons_some {a : α} (ha : (f a).isSome) : setters key f (a :: l) =
    if key a ∈ setters key f l then setters key f l else key a :: setters key f l := by
  have hfilter : (a :: l).filter (fun a => (f a).isSome) =
      a :: l.filter fun a => (f a).isSome := List.filter_cons_of_pos ha
  rw [setters, hfilter, List.map_cons, List.dedup_cons]
  simp only [setters, List.mem_dedup]

/-- The last key that applies tells the value. -/
theorem lookup_eq_last (M : κ → Bool) : lookup key f l M =
    ((setters key f l).reverse.find? M).bind fun k => lookup key f l fun k' => k' = k := by
  induction l with
  | nil => rfl
  | cons a l ih =>
    simp only [lookup_cons]
    rw [ih]
    cases ha : f a with
    | none => simp [setters_cons_none ha]
    | some v =>
      rw [setters_cons_some (by simp [ha])]
      cases hk : (setters key f l).reverse.find? M with
      | some k =>
        have hmem : k ∈ setters key f l := List.mem_reverse.mp (List.mem_of_find?_eq_some hk)
        obtain ⟨w, hw⟩ := Option.isSome_iff_exists.mp (mem_setters.mp hmem)
        split_ifs <;> simp [hk, hw]
      | none =>
        have hnot : ∀ k ∈ setters key f l, M k = false := by simpa using hk
        by_cases hmem : key a ∈ setters key f l
        · rw [if_pos hmem, hk, hnot _ hmem]
          rfl
        · have hnone : (lookup key f l fun k' => k' = key a) = none := by
            rwa [mem_setters, Option.not_isSome_iff_eq_none] at hmem
          rw [if_neg hmem, List.reverse_cons, List.find?_append, hk]
          cases hM : M (key a) <;> simp [hM, hnone]

/-- Two tables tell the same whatever applies. -/
theorem lookup_eq_iff : (∀ M, lookup key f l' M = lookup key f l M) ↔
    (∀ k, (lookup key f l' fun k' => k' = k) = lookup key f l fun k' => k' = k) ∧
      ∀ k k', [k, k'].Sublist (setters key f l) →
        (lookup key f l fun x => x = k) ≠ (lookup key f l fun x => x = k') →
          [k, k'].Sublist (setters key f l') := by
  by_cases hkeys : ∀ k, (lookup key f l' fun k' => k' = k) = lookup key f l fun k' => k' = k
  · have hmem : ∀ k, k ∈ setters key f l ↔ k ∈ setters key f l' := fun k => by
      rw [mem_setters, mem_setters, hkeys]
    have hvalue : (fun k => lookup key f l' fun k' => k' = k) =
        fun k => lookup key f l fun k' => k' = k := funext hkeys
    have horder := last_bind_eq_iff (List.nodup_dedup _) (List.nodup_dedup _) hmem
      (g := fun k => lookup key f l fun k' => k' = k)
    rw [and_iff_right hkeys]
    refine Iff.trans (forall_congr' fun M => ?_) horder
    rw [lookup_eq_last M, lookup_eq_last M, hvalue]
    rfl
  · exact iff_of_false (fun h => hkeys fun k => h fun k' => k' = k) fun h => hkeys h.1

end Lookup

end MultipathTools
