import MultipathTools.StructsVec.UpdatePathvec

/-! What holds of the path vector and the groups after `update_pathvec_from_dm`. -/
namespace MultipathTools.StructsVec

/-- Between two turns: `done` are the paths that were kept, `left` those that come next. -/
structure Sound (mpp : ℕ) (has : Bool) (s₀ s : Store) (done left : List (BitVec 64)) : Prop where
  nodup : (done ++ left).Nodup
  kept : ∀ a ∈ done, (s.heap a).mpp = some mpp ∧ (s.heap a).udev ≠ none ∧ a ∈ s.pathvec ∧
    (has = true → (s.heap a).wwid = s.wwid)
  left : ∀ a ∈ left, a ∉ s.freed ∧ (a ∈ s.pathvec ↔ (s.heap a).udev ≠ none)
  alive : ∀ a ∈ s.pathvec, a ∉ s.freed
  owner : ∀ a, ∀ m ≠ mpp, (s₀.heap a).mpp = some m → (s.heap a).mpp = some m
  wwid : s.wwid = s₀.wwid

section Paths

variable {env : Env} {flags : BitVec 32} {mpp : ℕ} {has : Bool} {s₀ s s' : Store}
  {done left : List (BitVec 64)} {a : BitVec 64}

/-- A path leaves its group: the others are as they were. -/
theorem Sound.drop (h : Sound mpp has s₀ s done (a :: left)) (hframe : Frame a s s')
    (hpathvec : ∀ b ≠ a, b ∈ s'.pathvec ↔ b ∈ s.pathvec)
    (hfreed : ∀ b ≠ a, b ∈ s'.freed ↔ b ∈ s.freed) (ha : a ∈ s'.pathvec → a ∉ s'.freed)
    (howner : ∀ m ≠ mpp, (s.heap a).mpp = some m → (s'.heap a).mpp = some m) :
    Sound mpp has s₀ s' done left := by
  have hnodup := List.nodup_append.mp h.nodup
  have hdone : ∀ b ∈ done, b ≠ a := fun b hb => hnodup.2.2 b hb a List.mem_cons_self
  have hleft : ∀ b ∈ left, b ≠ a := by
    rintro b hb rfl
    exact (List.nodup_cons.mp hnodup.2.1).1 hb
  refine ⟨?_, fun b hb => ?_, fun b hb => ?_, fun b hb => ?_, fun b m hm hown => ?_,
    hframe.wwid.trans h.wwid⟩
  · exact h.nodup.sublist (List.sublist_cons_self a left |>.append_left done)
  · rw [hframe.heap b (hdone b hb), hframe.wwid, hpathvec b (hdone b hb)]
    exact h.kept b hb
  · rw [hframe.heap b (hleft b hb), hfreed b (hleft b hb), hpathvec b (hleft b hb)]
    exact h.left b (List.mem_cons_of_mem a hb)
  · by_cases hba : b = a
    · rw [hba] at hb ⊢
      exact ha hb
    · rw [hfreed b hba]
      exact h.alive b ((hpathvec b hba).mp hb)
  · have hb := h.owner b m hm hown
    by_cases hba : b = a
    · rw [hba] at hb ⊢
      exact howner m hm hb
    · rw [hframe.heap b hba]
      exact hb

theorem visitPath_sound (h : Sound mpp has s₀ s done (a :: left)) :
    Sound mpp has s₀ (visitPath env flags mpp has s a).1
      (done ++ (visitPath env flags mpp has s a).2.toList) left := by
  obtain ⟨halive, hknown⟩ := h.left a List.mem_cons_self
  have hpath {l : List (BitVec 64)} {c : Prop} [Decidable c]
      (hl : l = if c then s.pathvec ++ [a] else s.pathvec) (b : BitVec 64) (hb : b ≠ a) :
      b ∈ l ↔ b ∈ s.pathvec := by
    rw [hl]
    split_ifs
    · simp [hb]
    · exact Iff.rfl
  generalize hr : visitPath env flags mpp has s a = r
  have hcases := visitPath_cases env flags mpp has s a
  rw [hr] at hcases
  cases hcases with
  | foreign hm howner =>
    rw [Option.toList_none, List.append_nil]
    exact h.drop ⟨fun _ _ => rfl, rfl⟩ (fun _ _ => Iff.rfl) (fun _ _ => Iff.rfl) (h.alive a)
      fun _ _ => id
  | freed howner hf =>
    rw [Option.toList_none, List.append_nil]
    refine h.drop hf.toFrame (fun _ _ => by rw [hf.pathvec]) ?_ ?_ fun m hm hc =>
      absurd hc (howner m hm)
    · intro b hb
      rw [hf.freed]
      simp [hb]
    · intro hmem
      rw [hf.pathvec] at hmem
      exact absurd hf.udev (hknown.mp hmem)
  | orphaned howner ho =>
    rw [Option.toList_none, List.append_nil]
    exact h.drop ho.toFrame (hpath ho.pathvec) (fun _ _ => by rw [ho.freed])
      (fun _ => by rwa [ho.freed]) fun m hm hc => absurd hc (howner m hm)
  | @kept s' howner hk =>
    have hd : Sound mpp has s₀ s' done left :=
      h.drop hk.toFrame (hpath hk.pathvec) (fun _ _ => by rw [hk.freed])
        (fun _ => by rwa [hk.freed]) fun m hm hc => absurd hc (howner m hm)
    have hmem : a ∈ s'.pathvec := by
      rw [hk.pathvec]
      split_ifs with hnone
      · exact List.mem_append_right _ (List.mem_singleton_self a)
      · exact hknown.mpr hnone
    refine ⟨?_, fun b hb => ?_, hd.left, hd.alive, hd.owner, hd.wwid⟩
    · rw [Option.toList_some, List.append_assoc]
      exact h.nodup
    · rcases List.mem_append.mp hb with hb | hb
      · exact hd.kept b hb
      · rw [Option.toList_some, List.mem_singleton] at hb
        rw [hb]
        exact ⟨hk.owner, hk.udev, hmem, hk.same⟩

/-- A path that leaves its group is a reason to reload the map. -/
theorem visitPath_reload (s : Store) (a : BitVec 64) :
    (visitPath env flags mpp has s a).1.mustReload = true ↔
      s.mustReload = true ∨ (visitPath env flags mpp has s a).2 = none := by
  generalize hr : visitPath env flags mpp has s a = r
  have hcases := visitPath_cases env flags mpp has s a
  rw [hr] at hcases
  cases hcases with
  | foreign hm howner => exact iff_of_true rfl (Or.inr rfl)
  | freed howner h => exact iff_of_true h.mustReload (Or.inr rfl)
  | orphaned howner h => exact iff_of_true h.mustReload (Or.inr rfl)
  | kept howner h =>
    rw [h.mustReload]
    exact (or_iff_left (Option.some_ne_none a)).symm

end Paths

/-- The paths that groups point to. -/
def members (pg : List PgObj) : List (BitVec 64) := pg.flatMap fun pgp => pgp.paths.getD []

theorem members_nil : members [] = [] := rfl

theorem members_append (pg pg' : List PgObj) : members (pg ++ pg') = members pg ++ members pg' :=
  List.flatMap_append

theorem members_cons (pgp : PgObj) (pg : List PgObj) :
    members (pgp :: pg) = pgp.paths.getD [] ++ members pg := rfl

theorem length_members (pg : List PgObj) :
    (members pg).length = (pg.map fun pgp => (pgp.paths.getD []).length).sum :=
  List.length_flatMap

section Groups

variable {env : Env} {flags : BitVec 32} {mpp : ℕ} {has : Bool} {s₀ s : Store}
  {done left : List (BitVec 64)}

theorem Sound.reload (h : Sound mpp has s₀ s done left) :
    Sound mpp has s₀ { s with mustReload := true } done left :=
  ⟨h.nodup, h.kept, h.left, h.alive, h.owner, h.wwid⟩

theorem visitGroup_sound {pgp : PgObj} (h : Sound mpp has s₀ s done (pgp.paths.getD [] ++ left)) :
    Sound mpp has s₀ (visitGroup env flags mpp has s pgp).1
      (done ++ members (visitGroup env flags mpp has s pgp).2.toList) left := by
  unfold visitGroup
  rcases hp : pgp.paths with _ | paths
  · rw [hp] at h
    rw [Option.toList_none, members_nil, List.append_nil]
    exact h.reload
  · rw [hp, Option.getD_some] at h
    have hrun := sweep_invariant
      (fun s done a left => @visitPath_sound env flags mpp has s₀ s done left a) h
    dsimp only
    rw [foreachSlot_eq]
    generalize sweep (visitPath env flags mpp has) paths s = r at hrun ⊢
    split_ifs with hne
    · rw [Option.toList_some, members_cons, members_nil, List.append_nil]
      exact hrun
    · rw [not_not.mp hne] at hrun
      rw [Option.toList_none, members_nil]
      exact hrun.reload

/-- The loop over the groups. -/
theorem sweepGroups_sound {pg : List PgObj} (h : Sound mpp has s₀ s done (members pg ++ left)) :
    Sound mpp has s₀ (sweep (visitGroup env flags mpp has) pg s).1
      (done ++ members (sweep (visitGroup env flags mpp has) pg s).2) left := by
  induction pg generalizing s done with
  | nil =>
    rw [sweep, members_nil, List.append_nil]
    exact h
  | cons pgp pg ih =>
    rw [members_cons, List.append_assoc] at h
    rw [sweep, members_append, ← List.append_assoc]
    exact ih (visitGroup_sound h)

/-- No group that is kept is empty. -/
theorem visitGroup_nonempty (s : Store) (pgp pgp' : PgObj)
    (h : pgp' ∈ (visitGroup env flags mpp has s pgp).2) :
    pgp'.paths ≠ none ∧ pgp'.paths ≠ some [] := by
  unfold visitGroup at h
  rcases hp : pgp.paths with _ | paths
  · rw [hp] at h
    cases h
  · rw [hp] at h
    dsimp only at h
    split_ifs at h with hne
    · obtain rfl := Option.some.inj h
      exact ⟨Option.some_ne_none _, fun hc => hne (Option.some.inj hc)⟩
    · cases h

/-- The loop over the paths of a group only deletes some. -/
theorem sweepPaths_sublist (paths : List (BitVec 64)) (s : Store) :
    (sweep (visitPath env flags mpp has) paths s).2.Sublist paths := by
  have hstep (s : Store) (a : BitVec 64) :
      ((visitPath env flags mpp has s a).2.toList.flatMap fun b => [b]).Sublist [a] := by
    generalize hr : visitPath env flags mpp has s a = r
    have hcases := visitPath_cases env flags mpp has s a
    rw [hr] at hcases
    cases hcases with
    | kept _ _ => exact List.Sublist.refl [a]
    | _ => exact List.nil_sublist [a]
  have h := sweep_sublist hstep paths s
  rwa [List.flatMap_singleton', List.flatMap_singleton'] at h

theorem sweepGroups_sublist (pg : List PgObj) (s : Store) :
    (members (sweep (visitGroup env flags mpp has) pg s).2).Sublist (members pg) := by
  refine sweep_sublist (fun s pgp => ?_) pg s
  unfold visitGroup
  rcases pgp.paths with _ | paths
  · exact List.nil_sublist _
  · dsimp only
    rw [foreachSlot_eq]
    have hsub := @sweepPaths_sublist env flags mpp has paths s
    generalize sweep (visitPath env flags mpp has) paths s = r at hsub ⊢
    split_ifs
    · rw [Option.toList_some, List.flatMap_cons, List.flatMap_nil, List.append_nil]
      exact hsub
    · exact List.nil_sublist _

/-- The size of a group: itself and its paths. -/
def weight (pgp : PgObj) : ℕ := 1 + (pgp.paths.getD []).length

theorem sum_weight (pg : List PgObj) :
    (pg.map weight).sum = pg.length + (members pg).length := by
  induction pg with
  | nil => rfl
  | cons pgp pg ih =>
    rw [List.map_cons, List.sum_cons, ih, members_cons, List.length_append, List.length_cons, weight]
    omega

theorem visitPath_sum (s : Store) (a : BitVec 64) :
    ((visitPath env flags mpp has s a).2.toList.map fun _ => 1).sum ≤ 1 := by
  cases (visitPath env flags mpp has s a).2 <;> simp

theorem sum_one (l : List (BitVec 64)) : (l.map fun _ => 1).sum = l.length := by
  simp

/-- The map is to be reloaded exactly if the loop over the paths has left fewer of them. -/
theorem sweepPaths_reload (paths : List (BitVec 64)) (s : Store) :
    (sweep (visitPath env flags mpp has) paths s).1.mustReload = true ↔
      s.mustReload = true ∨ (sweep (visitPath env flags mpp has) paths s).2.length <
        paths.length := by
  have hflag (s : Store) (a : BitVec 64) :
      (visitPath env flags mpp has s a).1.mustReload = true ↔ s.mustReload = true ∨
        ((visitPath env flags mpp has s a).2.toList.map fun _ => 1).sum < 1 := by
    rw [visitPath_reload]
    cases (visitPath env flags mpp has s a).2 <;> simp
  have h := @sweep_flag Store (BitVec 64) (visitPath env flags mpp has) (fun _ => 1)
    (fun s => s.mustReload = true) visitPath_sum hflag paths s
  rwa [sum_one, sum_one] at h

theorem visitGroup_weight (s : Store) (pgp : PgObj) :
    ((visitGroup env flags mpp has s pgp).2.toList.map weight).sum ≤ weight pgp ∧
      ((visitGroup env flags mpp has s pgp).1.mustReload = true ↔ s.mustReload = true ∨
        ((visitGroup env flags mpp has s pgp).2.toList.map weight).sum < weight pgp) := by
  have hdeleted : ((none : Option PgObj).toList.map weight).sum < weight pgp :=
    Nat.lt_of_lt_of_le Nat.zero_lt_one (Nat.le_add_right 1 _)
  unfold visitGroup
  rcases hp : pgp.paths with _ | paths
  · exact ⟨hdeleted.le, iff_of_true rfl (Or.inr hdeleted)⟩
  · have hle : (sweep (visitPath env flags mpp has) paths s).2.length ≤ paths.length :=
      length_sweep_le paths s
    have hreload := @sweepPaths_reload env flags mpp has paths s
    dsimp only
    rw [foreachSlot_eq]
    generalize sweep (visitPath env flags mpp has) paths s = r at hle hreload ⊢
    split_ifs with hne
    · have hkept : ((some { pgp with paths := some r.2 } : Option PgObj).toList.map weight).sum =
          1 + r.2.length := rfl
      have hall : weight pgp = 1 + paths.length := by
        rw [weight, hp]
        rfl
      rw [hkept, hall, hreload]
      exact ⟨Nat.add_le_add_left hle 1, or_congr_right (Nat.add_lt_add_iff_left).symm⟩
    · exact ⟨hdeleted.le, iff_of_true rfl (Or.inr hdeleted)⟩

/-- The map is to be reloaded exactly if a path or a group is gone. -/
theorem sweepGroups_reload (pg : List PgObj) (s : Store) :
    (sweep (visitGroup env flags mpp has) pg s).1.mustReload = true ↔ s.mustReload = true ∨
      (sweep (visitGroup env flags mpp has) pg s).2.length < pg.length ∨
      (members (sweep (visitGroup env flags mpp has) pg s).2).length < (members pg).length := by
  have hgroups : (sweep (visitGroup env flags mpp has) pg s).2.length ≤ pg.length :=
    length_sweep_le pg s
  have hmembers := @sum_sweep_le Store PgObj (visitGroup env flags mpp has)
    (fun pgp => (pgp.paths.getD []).length) (fun s pgp => ?_) pg s
  · have h := @sweep_flag Store PgObj (visitGroup env flags mpp has) weight
      (fun s => s.mustReload = true) (fun s pgp => (visitGroup_weight s pgp).1)
      (fun s pgp => (visitGroup_weight s pgp).2) pg s
    rw [← length_members, ← length_members] at hmembers
    rw [h, sum_weight, sum_weight]
    refine or_congr_right ?_
    omega
  · have hle := (@visitGroup_weight env flags mpp has s pgp).1
    cases hr : (visitGroup env flags mpp has s pgp).2 with
    | none => exact Nat.zero_le _
    | some pgp' =>
      rw [hr] at hle
      exact Nat.le_of_add_le_add_left hle

end Groups

end MultipathTools.StructsVec
