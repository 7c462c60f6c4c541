import MultipathTools.Base.Merit
import MultipathTools.Pgpolicies.Switchgroup

/-! `sort_pathgroups` of `pgpolicies.c`: a stable sort of the groups by merit. -/
namespace MultipathTools.Pgpolicies

/-- `vector_move_up`: the slot `src` is moved to `dest`, those between go up by one. -/
def vectorMoveUp {α : Type*} (v : List α) (src dest : ℕ) : List α :=
  if dest = src then v
  else if dest > src ∨ src ≥ v.length then v
  else v.take dest ++ (v.drop src).take 1 ++ (v.drop dest).take (src - dest) ++ v.drop (src + 1)

/-- The condition under which `sort_pathgroups` leaves a group behind the group `pgp2`. -/
def staysBehind (pgp2 pgp1 : Pathgroup) : Bool :=
  (pgp1.marginal && !pgp2.marginal) ||
    (pgp2.marginal == pgp1.marginal &&
      (pgp2.priority > pgp1.priority ||
        (pgp2.priority == pgp1.priority && pgp2.enabledPaths ≥ pgp1.enabledPaths)))

/-- The inner loop: the slot that the group is moved to, if `n` slots are left to look at. -/
def slotFor (v : List Pathgroup) (pgp1 : Pathgroup) : ℕ → ℕ
  | 0 => 0
  | j + 1 =>
    match v[j]? with
    | none => slotFor v pgp1 j
    | some pgp2 => if staysBehind pgp2 pgp1 then j + 1 else slotFor v pgp1 j

/-- The outer loop, from the slot `i` on, with `n` slots left. -/
def sortLoop : ℕ → ℕ → List Pathgroup → List Pathgroup
  | 0, _, v => v
  | n + 1, i, v =>
    match v[i]? with
    | none => v
    | some pgp1 =>
      let pgp1 := pathGroupPrioUpdate pgp1
      let v := v.set i pgp1
      sortLoop n (i + 1) (vectorMoveUp v i (slotFor v pgp1 i))

/-- `sort_pathgroups` -/
def sortPathgroups (pg : Option (List Pathgroup)) : Option (List Pathgroup) :=
  pg.map fun v => sortLoop v.length 0 v

theorem staysBehind_iff {pgp2 pgp1 : Pathgroup} :
    staysBehind pgp2 pgp1 = true ↔ merit pgp1 ≤ merit pgp2 := by
  rw [merit_le_iff, staysBehind]
  cases pgp1.marginal <;> cases pgp2.marginal <;> simp <;> omega

section Step

variable {l a b done rest : List Pathgroup} {pgp : Pathgroup}

/-- The slot found is behind the last group that is not worse. -/
theorem slotFor_eq (n : ℕ) (hn : n ≤ done.length) :
    ∃ a b, done.take n = a ++ b ∧ slotFor (done ++ rest) pgp n = a.length ∧
      (∀ y ∈ b, merit y < merit pgp) ∧ ∀ hne : a ≠ [], merit pgp ≤ merit (a.getLast hne) := by
  induction n with
  | zero => exact ⟨[], [], rfl, rfl, List.forall_mem_nil _, fun hne => absurd rfl hne⟩
  | succ j ih =>
    have hj : j < done.length := hn
    have hget : (done ++ rest)[j]? = some done[j] := by
      rw [List.getElem?_append_left hj, List.getElem?_eq_getElem hj]
    rw [slotFor, hget]
    dsimp only
    by_cases hstay : staysBehind done[j] pgp = true
    · refine ⟨done.take (j + 1), [], (List.append_nil _).symm, ?_, List.forall_mem_nil _, ?_⟩
      · rw [if_pos hstay, List.length_take, Nat.min_eq_left hn]
      · intro hne
        rw [List.getLast_take]
        simpa [hj] using staysBehind_iff.mp hstay
    · obtain ⟨a, b, hsplit, hslot, hb, ha⟩ := ih (Nat.le_of_succ_le hn)
      refine ⟨a, b ++ [done[j]], ?_, ?_, ?_, ha⟩
      · rw [List.take_succ_eq_append_getElem hj, hsplit, List.append_assoc]
      · rw [if_neg hstay, hslot]
      · intro y hy
        rcases List.mem_append.mp hy with hy | hy
        · exact hb y hy
        · rw [List.mem_singleton.mp hy]
          exact not_le.mp (mt staysBehind_iff.mpr hstay)

/-- The slot behind the sorted groups is moved in between them. -/
theorem vectorMoveUp_insert :
    vectorMoveUp (a ++ b ++ pgp :: rest) (a ++ b).length a.length = a ++ pgp :: b ++ rest := by
  unfold vectorMoveUp
  by_cases hb : b = []
  · subst hb
    simp
  · have hpos : 0 < b.length := List.length_pos_of_ne_nil hb
    have hbehind : (a ++ b ++ pgp :: rest).drop ((a ++ b).length + 1) = rest := by
      rw [List.append_cons]
      exact List.drop_left' (by simp [Nat.add_assoc])
    rw [if_neg (by rw [List.length_append]; omega), if_neg (by simp), hbehind, List.drop_left,
      List.append_assoc a b, List.take_left, List.drop_left]
    simp

/-- One turn of the outer loop sorts in one more group. -/
theorem sortLoop_sorted (h : StableSorted merit l done) :
    StableSorted merit (l ++ rest.map pathGroupPrioUpdate)
      (sortLoop rest.length done.length (done ++ rest)) := by
  induction rest generalizing l done with
  | nil => simpa [sortLoop] using h
  | cons pgp rest ih =>
    have hget : (done ++ pgp :: rest)[done.length]? = some pgp := by simp
    have hset : (done ++ pgp :: rest).set done.length (pathGroupPrioUpdate pgp) =
        done ++ pathGroupPrioUpdate pgp :: rest := by simp
    rw [List.length_cons, sortLoop, hget]
    dsimp only
    rw [hset]
    obtain ⟨a, b, hsplit, hslot, hb, ha⟩ :=
      @slotFor_eq done (pathGroupPrioUpdate pgp :: rest) (pathGroupPrioUpdate pgp) done.length
        (Nat.le_refl _)
    rw [List.take_length] at hsplit
    subst hsplit
    rw [hslot, vectorMoveUp_insert]
    have hnext := ih (h.insert (h.le_of_getLast ha) hb)
    have hlen : (a ++ pathGroupPrioUpdate pgp :: b).length = (a ++ b).length + 1 := by
      simp
      omega
    rw [hlen, List.append_assoc l] at hnext
    exact hnext

end Step

/-- The groups are sorted by merit, the best first, and groups of equal merit keep their
order. -/
theorem sortPathgroups_stable (v : List Pathgroup) :
    ∃ s, sortPathgroups (some v) = some s ∧
      StableSorted merit (v.map pathGroupPrioUpdate) s :=
  ⟨_, rfl, sortLoop_sorted stableSorted_nil⟩

end MultipathTools.Pgpolicies
