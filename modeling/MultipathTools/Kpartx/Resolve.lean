import Mathlib.Algebra.BigOperators.Group.List.Basic
import Mathlib.Algebra.GroupWithZero.Nat
import Mathlib.Data.Int.Notation
import MultipathTools.Base.Outcome
import MultipathTools.Kpartx.Disk

/-! The loops of kpartx that resolve contained slices for the actions list, add and update
(`kpartx.c`), and when they end. Counters are integers without bounds. -/
namespace MultipathTools.Kpartx

section Loop

variable {σ : Type*}

/-- `while (c) { ...; if (d == c) break; }`, for at most `fuel` turns, the first of which has number
`p`. The state comes with `c`. -/
def resolveLoop (pass : ℕ → σ × ℤ → σ × ℤ) (d : ℤ) : ℕ → ℕ → σ × ℤ → Outcome (σ × ℤ)
  | 0, _, r => if r.2 = 0 then .done r else .unfinished
  | fuel + 1, p, r =>
    if r.2 = 0 then .done r
    else
      let r := pass p r
      if d = r.2 then .done r else resolveLoop pass d fuel (p + 1) r

end Loop

/-- The first loop of the action list: the slices, the next number and the number of contained
slices. -/
def listSimple : List Slice → ℕ → ℤ → List Slice × ℕ × ℤ
  | [], m, c => ([], m, c)
  | s :: slices, m, c =>
    if s.size = 0 then
      let r := listSimple slices m c
      (s :: r.1, r.2)
    else if 0 < s.container then
      let r := listSimple slices m (c + 1)
      (s :: r.1, r.2)
    else
      let r := listSimple slices (m + 1) c
      ({ s with minor := m } :: r.1, r.2)

/-- One pass over the contained slices for the action list. -/
def listPass : List Slice → ℕ → ℤ → List Slice × ℕ × ℤ
  | [], m, c => ([], m, c)
  | s :: slices, m, c =>
    if s.size = 0 ∨ 0 < s.minor ∨ s.container = 0 then
      let r := listPass slices m c
      (s :: r.1, r.2)
    else
      let r := listPass slices (m + 1) (c - 1)
      ({ s with minor := m } :: r.1, r.2)

/-- The action list. -/
def listSlices (slices : List Slice) (fuel : ℕ) : Outcome ((List Slice × ℕ) × ℤ) :=
  let r := listSimple slices 0 0
  resolveLoop (fun _ r =>
      let t := listPass r.1.1 r.1.2 r.2
      ((t.1, t.2.1), t.2.2)) r.2.2 fuel 0 ((r.1, r.2.1), r.2.2)

/-- What happens at a slice for the actions add and update: whether there is a map of its name with
a UUID that `check_uuid` refuses, whether a map for it can be created or reloaded and resumed, and
what `dm_devn` finds. -/
structure Attempt where
  refused : Bool := false
  created : Bool := true
  devn : Option (ℕ × ℕ) := none
  deriving DecidableEq, Repr

/-- `dm_devn` leaves the numbers if it fails. -/
def Slice.setDevn (s : Slice) (devn : Option (ℕ × ℕ)) : Slice :=
  { s with major := (devn.map Prod.fst).getD s.major, minor := (devn.map Prod.snd).getD s.minor }

/-- The first loop of the actions add and update, from slice `j` on: the slices and the number of
contained slices. -/
def addSimple (attempts : ℕ → Attempt) : ℕ → List Slice → ℤ → List Slice × ℤ
  | _, [], c => ([], c)
  | j, s :: slices, c =>
    if s.size = 0 then
      let r := addSimple attempts (j + 1) slices c
      (s :: r.1, r.2)
    else if 0 < s.container then
      let r := addSimple attempts (j + 1) slices (c + 1)
      (s :: r.1, r.2)
    else
      let r := addSimple attempts (j + 1) slices c
      if (attempts j).refused ∨ ¬ (attempts j).created then (s :: r.1, r.2)
      else (s.setDevn (attempts j).devn :: r.1, r.2)

/-- One pass over the contained slices for the actions add and update. Whether the map is created
makes no difference there. -/
def addPass (attempts : ℕ → Attempt) : ℕ → List Slice → ℤ → List Slice × ℤ
  | _, [], c => ([], c)
  | j, s :: slices, c =>
    if s.size = 0 ∨ 0 < s.minor ∨ s.container = 0 ∨ (attempts j).refused then
      let r := addPass attempts (j + 1) slices c
      (s :: r.1, r.2)
    else
      let r := addPass attempts (j + 1) slices (c - 1)
      (s.setDevn (attempts j).devn :: r.1, r.2)

/-- The actions add and update, up to the removal of other maps. `attempts p j` is what happens at
slice `j` in pass `p`, where the first loop belongs to pass 0. -/
def addSlices (attempts : ℕ → ℕ → Attempt) (slices : List Slice) (fuel : ℕ) :
    Outcome (List Slice × ℤ) :=
  let r := addSimple (attempts 0) 0 slices 0
  resolveLoop (fun p r => addPass (attempts p) 0 r.1 r.2) r.2 fuel 0 r

section Loop

variable {σ : Type*} {pass : ℕ → σ × ℤ → σ × ℤ} {d : ℤ} {p n fuel : ℕ} {r : σ × ℤ}

/-- The state after `n` passes. -/
def afterPasses (pass : ℕ → σ × ℤ → σ × ℤ) : ℕ → ℕ → σ × ℤ → σ × ℤ
  | _, 0, r => r
  | p, n + 1, r => afterPasses pass (p + 1) n (pass p r)

/-- The loop ends if some number of turns is enough. -/
def Ends {α : Type*} (f : ℕ → Outcome α) : Prop := ∃ fuel, f fuel ≠ .unfinished

theorem resolveLoop_of_zero (hzero : r.2 = 0) : resolveLoop pass d fuel p r = .done r := by
  cases fuel <;> exact if_pos hzero

theorem resolveLoop_of_eq (hzero : r.2 ≠ 0) (hd : d = (pass p r).2) :
    resolveLoop pass d (fuel + 1) p r = .done (pass p r) := by
  rw [resolveLoop, if_neg hzero]
  exact if_pos hd

theorem resolveLoop_of_ne (hzero : r.2 ≠ 0) (hd : d ≠ (pass p r).2) :
    resolveLoop pass d (fuel + 1) p r = resolveLoop pass d fuel (p + 1) (pass p r) := by
  rw [resolveLoop, if_neg hzero]
  exact if_neg hd

theorem resolveLoop_ends_iff :
    Ends (fun fuel => resolveLoop pass d fuel p r) ↔
      ∃ n, (afterPasses pass p n r).2 = 0 ∨ 0 < n ∧ (afterPasses pass p n r).2 = d := by
  constructor
  · rintro ⟨fuel, hfuel⟩
    dsimp only at hfuel
    induction fuel generalizing p r with
    | zero =>
      refine ⟨0, .inl ?_⟩
      by_contra hzero
      exact hfuel (if_neg hzero)
    | succ fuel ih =>
      by_cases hzero : r.2 = 0
      · exact ⟨0, .inl hzero⟩
      · by_cases hd : d = (pass p r).2
        · exact ⟨1, .inr ⟨Nat.one_pos, hd.symm⟩⟩
        · rw [resolveLoop_of_ne hzero hd] at hfuel
          obtain ⟨n, hn⟩ := ih hfuel
          exact ⟨n + 1, hn.imp_right fun h => ⟨Nat.succ_pos n, h.2⟩⟩
  · rintro ⟨n, hn⟩
    induction n generalizing p r with
    | zero =>
      have hzero : r.2 = 0 := hn.resolve_right fun h => Nat.lt_irrefl 0 h.1
      exact ⟨0, by simp [resolveLoop_of_zero hzero]⟩
    | succ n ih =>
      by_cases hzero : r.2 = 0
      · exact ⟨0, by simp [resolveLoop_of_zero hzero]⟩
      · by_cases hd : d = (pass p r).2
        · exact ⟨1, by simp [resolveLoop_of_eq hzero hd]⟩
        · have hnext : (afterPasses pass (p + 1) n (pass p r)).2 = 0 ∨
              0 < n ∧ (afterPasses pass (p + 1) n (pass p r)).2 = d := by
            refine hn.imp_right fun h => ⟨?_, h.2⟩
            cases n with
            | zero => exact absurd h.2.symm hd
            | succ n => exact Nat.succ_pos n
          obtain ⟨fuel, hfuel⟩ := ih hnext
          exact ⟨fuel + 1, by simpa [resolveLoop_of_ne hzero hd] using hfuel⟩

end Loop

/-- A slice that is not empty and has a container. -/
def Slice.Contained (s : Slice) : Prop := s.size ≠ 0 ∧ 0 < s.container

/-- It has not got a minor number yet. -/
def Slice.Pending (s : Slice) : Prop := s.Contained ∧ s.minor = 0

instance : DecidablePred Slice.Contained := fun _ => inferInstanceAs (Decidable (_ ∧ _))

instance : DecidablePred Slice.Pending := fun _ => inferInstanceAs (Decidable (_ ∧ _))

section List

theorem listPass_count (slices : List Slice) (m : ℕ) (c : ℤ) :
    (listPass slices m c).2.2 =
      c - (slices.countP fun s => s.Pending : ℕ) := by
  induction slices generalizing m c with
  | nil => simp [listPass]
  | cons s slices ih =>
    rw [listPass, List.countP_cons]
    split_ifs with hskip hcount hcount
    · exfalso
      obtain ⟨⟨hsize, hcontainer⟩, hminor⟩ := of_decide_eq_true hcount
      omega
    · exact ih m c
    · dsimp only
      rw [ih]
      push_cast
      omega
    · exfalso
      have hnot := of_decide_eq_false (Bool.eq_false_iff.mpr hcount)
      unfold Slice.Pending Slice.Contained at hnot
      omega

/-- The first loop counts the contained slices and leaves them as they are. -/
theorem listSimple_count {slices : List Slice} (h : ∀ s ∈ slices, s.minor = 0) (m : ℕ) (c : ℤ) :
    (listSimple slices m c).2.2 = c + (slices.countP fun s => s.Contained : ℕ) ∧
      ((listSimple slices m c).1.countP fun s => s.Pending) =
        slices.countP fun s => s.Contained := by
  induction slices generalizing m c with
  | nil => simp [listSimple]
  | cons s slices ih =>
    rw [List.forall_mem_cons] at h
    rw [listSimple]
    split_ifs with hsize hcontainer
    · obtain ⟨hc, hcount⟩ := ih h.2 m c
      have hs : ¬ s.Contained := fun hs => hs.1 hsize
      have hpending : ¬ s.Pending := fun hs => hs.1.1 hsize
      simp [hs, hpending, hc, hcount]
    · obtain ⟨hc, hcount⟩ := ih h.2 m (c + 1)
      have hs : s.Contained := ⟨hsize, hcontainer⟩
      have hpending : s.Pending := ⟨hs, h.1⟩
      simp [hs, hpending, hc, hcount, Int.add_assoc, Int.add_comm]
    · obtain ⟨hc, hcount⟩ := ih h.2 (m + 1) c
      have hs : ¬ s.Contained := fun hs => hcontainer hs.2
      have hpending : ¬ ({ s with minor := m } : Slice).Pending := fun hs => hcontainer hs.1.2
      simp [hs, hpending, hc, hcount]

/-- The action list resolves all contained slices in the first pass. -/
theorem listSlices_ends {slices : List Slice} (h : ∀ s ∈ slices, s.minor = 0) :
    Ends (listSlices slices) := by
  obtain ⟨hc, hcount⟩ := listSimple_count h 0 0
  refine resolveLoop_ends_iff.mpr ⟨1, .inl ?_⟩
  show (listPass (listSimple slices 0 0).1 (listSimple slices 0 0).2.1
    (listSimple slices 0 0).2.2).2.2 = 0
  rw [listPass_count, hc, hcount]
  omega

end List

section Add

variable {attempts : ℕ → ℕ → Attempt} {a : Attempt} {s : Slice} {n : ℕ}

/-- A contained slice is resolved, and counted down. -/
def Accepts (a : Attempt) (s : Slice) : Prop := s.Pending ∧ ¬ a.refused

instance (a : Attempt) : DecidablePred (Accepts a) := fun _ => inferInstanceAs (Decidable (_ ∧ _))

/-- What a pass leaves of a slice. -/
def Slice.turn (s : Slice) (a : Attempt) : Slice := if Accepts a s then s.setDevn a.devn else s

/-- How often a slice is counted down in `n` passes. -/
def accepted (attempts : ℕ → Attempt) : ℕ → Slice → ℕ
  | 0, _ => 0
  | n + 1, s =>
    (if Accepts (attempts 0) s then 1 else 0) +
      accepted (fun p => attempts (p + 1)) n (s.turn (attempts 0))

/-- How often the slices from `j` on are counted down in `n` passes. -/
def total (attempts : ℕ → ℕ → Attempt) (n : ℕ) : ℕ → List Slice → ℕ
  | _, [] => 0
  | j, s :: slices => accepted (fun p => attempts p j) n s + total attempts n (j + 1) slices

theorem addPass_cons (attempts : ℕ → Attempt) (j : ℕ) (s : Slice) (slices : List Slice) (c : ℤ) :
    addPass attempts j (s :: slices) c =
      (s.turn (attempts j) :: (addPass attempts (j + 1) slices
        (c - (if Accepts (attempts j) s then 1 else 0 : ℕ))).1,
        (addPass attempts (j + 1) slices
          (c - (if Accepts (attempts j) s then 1 else 0 : ℕ))).2) := by
  have hiff : (s.size = 0 ∨ 0 < s.minor ∨ s.container = 0 ∨ (attempts j).refused = true) ↔
      ¬ Accepts (attempts j) s := by
    unfold Accepts Slice.Pending Slice.Contained
    cases (attempts j).refused with
    | false =>
      simp
      omega
    | true => simp
  rw [addPass, Slice.turn]
  by_cases haccepts : Accepts (attempts j) s
  · rw [if_neg (fun h => hiff.mp h haccepts), if_pos haccepts, if_pos haccepts]
    rfl
  · rw [if_pos (hiff.mpr haccepts), if_neg haccepts, if_neg haccepts]
    simp

theorem addPass_total (attempts : ℕ → ℕ → Attempt) (n j : ℕ) (slices : List Slice) (c : ℤ) :
    (addPass (attempts 0) j slices c).2 -
        total (fun p => attempts (p + 1)) n j (addPass (attempts 0) j slices c).1 =
      c - total attempts (n + 1) j slices := by
  induction slices generalizing j c with
  | nil => simp [addPass, total]
  | cons s slices ih =>
    have hrest := ih (j + 1) (c - (if Accepts (attempts 0 j) s then 1 else 0 : ℕ))
    rw [addPass_cons, total, total, accepted]
    push_cast at hrest ⊢
    omega

theorem afterPasses_total (attempts : ℕ → ℕ → Attempt) (n p : ℕ) (slices : List Slice) (c : ℤ) :
    (afterPasses (fun p r => addPass (attempts p) 0 r.1 r.2) p n (slices, c)).2 =
      c - total (fun q => attempts (p + q)) n 0 slices := by
  induction n generalizing p slices c with
  | zero =>
    have hzero (j : ℕ) (slices : List Slice) :
        total (fun q => attempts (p + q)) 0 j slices = 0 := by
      induction slices generalizing j with
      | nil => rfl
      | cons s slices ih => rw [total, ih, accepted]
    rw [hzero, afterPasses]
    simp
  | succ n ih =>
    have hpass := addPass_total (fun q => attempts (p + q)) n 0 slices c
    rw [afterPasses, ih, ← hpass]
    simp only [Nat.add_zero, Nat.add_comm, Nat.add_left_comm]

theorem accepted_of_not_contained {attempts : ℕ → Attempt} (h : ¬ s.Contained) :
    accepted attempts n s = 0 := by
  induction n generalizing attempts with
  | zero => rfl
  | succ n ih =>
    have hnot : ¬ Accepts (attempts 0) s := fun ha => h ha.1.1
    rw [accepted, Slice.turn, if_neg hnot, if_neg hnot, ih]

/-- The first loop counts the contained slices; what it changes is not counted down. -/
theorem addSimple_total (simple : ℕ → Attempt) (attempts : ℕ → ℕ → Attempt) (n j : ℕ)
    (slices : List Slice) (c : ℤ) :
    (addSimple simple j slices c).2 = c + (slices.countP fun s => s.Contained : ℕ) ∧
      total attempts n j (addSimple simple j slices c).1 = total attempts n j slices := by
  induction slices generalizing j c with
  | nil => simp [addSimple]
  | cons s slices ih =>
    rw [addSimple]
    split_ifs with hsize hcontainer hfails
    · obtain ⟨hc, htotal⟩ := ih (j + 1) c
      have hs : ¬ s.Contained := fun hs => hs.1 hsize
      simp [hs, hc, total, htotal]
    · obtain ⟨hc, htotal⟩ := ih (j + 1) (c + 1)
      have hs : s.Contained := ⟨hsize, hcontainer⟩
      simp [hs, hc, total, htotal, Int.add_assoc, Int.add_comm]
    · obtain ⟨hc, htotal⟩ := ih (j + 1) c
      have hs : ¬ s.Contained := fun hs => hcontainer hs.2
      simp [hs, hc, total, htotal]
    · obtain ⟨hc, htotal⟩ := ih (j + 1) c
      have hs : ¬ s.Contained := fun hs => hcontainer hs.2
      have hnew : ¬ (s.setDevn (simple j).devn).Contained := hs
      simp [hs, hc, total, htotal, accepted_of_not_contained hs, accepted_of_not_contained hnew]

theorem total_mono {m : ℕ} (hmn : m ≤ n) (j : ℕ) (slices : List Slice) :
    total attempts m j slices ≤ total attempts n j slices := by
  have hone {m n : ℕ} (hmn : m ≤ n) (attempts : ℕ → Attempt) (s : Slice) :
      accepted attempts m s ≤ accepted attempts n s := by
    induction m generalizing n attempts s with
    | zero => exact Nat.zero_le _
    | succ m ih =>
      obtain ⟨n, rfl⟩ := Nat.exists_eq_add_of_le' (Nat.le_trans (Nat.le_add_left 1 m) hmn)
      exact Nat.add_le_add_left (ih (by omega) _ _) _
  induction slices generalizing j with
  | nil => exact Nat.le_refl 0
  | cons s slices ih => exact Nat.add_le_add (hone hmn _ s) (ih (j + 1))

/-- The loop ends if the first pass resolves no slice, or if the slices that have been counted down
after some pass, each as often as it has been resolved, are as many as there are. -/
theorem addSlices_ends_iff (attempts : ℕ → ℕ → Attempt) (slices : List Slice) :
    Ends (addSlices attempts slices) ↔ total attempts 1 0 slices = 0 ∨
      ∃ n, total attempts n 0 slices = slices.countP fun s => s.Contained := by
  have hloop : Ends (addSlices attempts slices) ↔ ∃ n, total attempts n 0 slices =
      (slices.countP fun s => s.Contained) ∨ 0 < n ∧ total attempts n 0 slices = 0 := by
    refine resolveLoop_ends_iff.trans (exists_congr fun n => ?_)
    obtain ⟨hc, htotal⟩ := addSimple_total (attempts 0) attempts n 0 slices 0
    rw [show addSimple (attempts 0) 0 slices 0 = ((addSimple (attempts 0) 0 slices 0).1,
      (addSimple (attempts 0) 0 slices 0).2) from rfl, afterPasses_total]
    simp only [Nat.zero_add, htotal, hc]
    omega
  rw [hloop]
  constructor
  · rintro ⟨n, hn | ⟨hpos, hn⟩⟩
    · exact .inr ⟨n, hn⟩
    · have hle := @total_mono attempts n 1 hpos 0 slices
      exact .inl (by omega)
  · rintro (hone | ⟨n, hn⟩)
    · exact ⟨1, .inr ⟨Nat.one_pos, hone⟩⟩
    · exact ⟨n, .inl hn⟩

section Constant

/-- A contained slice whose map is of another device. -/
def Refused (attempts : ℕ → ℕ → Attempt) (x : Slice × ℕ) : Bool :=
  x.1.Contained ∧ (attempts 0 x.2).refused

/-- A contained slice that gets a minor number other than 0. -/
def Numbered (attempts : ℕ → ℕ → Attempt) (x : Slice × ℕ) : Bool :=
  x.1.Contained ∧ ¬ (attempts 0 x.2).refused ∧ ((attempts 0 x.2).devn.map Prod.snd).getD 0 ≠ 0

/-- A contained slice that is resolved without such a number. -/
def Unnumbered (attempts : ℕ → ℕ → Attempt) (x : Slice × ℕ) : Bool :=
  x.1.Contained ∧ ¬ (attempts 0 x.2).refused ∧ ((attempts 0 x.2).devn.map Prod.snd).getD 0 = 0

theorem accepted_refused (ha : a.refused = true) : accepted (fun _ => a) n s = 0 := by
  induction n with
  | zero => rfl
  | succ n ih =>
    have hnot : ¬ Accepts a s := fun h => h.2 ha
    rw [accepted, Slice.turn, if_neg hnot, if_neg hnot, ih]

theorem accepted_of_minor (hminor : s.minor ≠ 0) : accepted (fun _ => a) n s = 0 := by
  induction n with
  | zero => rfl
  | succ n ih =>
    have hnot : ¬ Accepts a s := fun h => hminor h.1.2
    rw [accepted, Slice.turn, if_neg hnot, if_neg hnot, ih]

theorem accepted_numbered (hs : s.Pending) (ha : ¬ a.refused)
    (hdevn : (a.devn.map Prod.snd).getD 0 ≠ 0) : accepted (fun _ => a) (n + 1) s = 1 := by
  have haccepts : Accepts a s := ⟨hs, ha⟩
  have hminor : (s.setDevn a.devn).minor ≠ 0 := by
    rw [Slice.setDevn, hs.2]
    exact hdevn
  rw [accepted, Slice.turn, if_pos haccepts, if_pos haccepts, accepted_of_minor hminor]

theorem accepted_unnumbered (hs : s.Pending) (ha : ¬ a.refused)
    (hdevn : (a.devn.map Prod.snd).getD 0 = 0) : accepted (fun _ => a) n s = n := by
  induction n generalizing s with
  | zero => rfl
  | succ n ih =>
    have haccepts : Accepts a s := ⟨hs, ha⟩
    have hnext : (s.setDevn a.devn).Pending := by
      refine ⟨hs.1, ?_⟩
      rw [Slice.setDevn, hs.2]
      exact hdevn
    rw [accepted, Slice.turn, if_pos haccepts, if_pos haccepts, ih hnext, Nat.add_comm]

theorem total_constant (hconst : ∀ p j, attempts p j = attempts 0 j) (n j : ℕ)
    {slices : List Slice} (hminor : ∀ s ∈ slices, s.minor = 0) :
    total attempts (n + 1) j slices = (slices.zipIdx j).countP (Numbered attempts) +
      (n + 1) * (slices.zipIdx j).countP (Unnumbered attempts) := by
  induction slices generalizing j with
  | nil => simp [total]
  | cons s slices ih =>
    rw [List.forall_mem_cons] at hminor
    have hconst' : (fun p => attempts p j) = fun _ => attempts 0 j := funext fun p => hconst p j
    rw [total, ih (j + 1) hminor.2, hconst', List.zipIdx_cons, List.countP_cons, List.countP_cons,
      Nat.mul_add]
    by_cases hs : s.Contained
    · by_cases ha : (attempts 0 j).refused = true
      · simp [accepted_refused ha, Numbered, Unnumbered, ha]
      · by_cases hdevn : ((attempts 0 j).devn.map Prod.snd).getD 0 = 0
        · rw [accepted_unnumbered ⟨hs, hminor.1⟩ ha hdevn]
          simp [Numbered, Unnumbered, hs, ha, hdevn]
          omega
        · rw [accepted_numbered ⟨hs, hminor.1⟩ ha hdevn]
          simp [Numbered, Unnumbered, hs, ha, hdevn]
          omega
    · rw [accepted_of_not_contained hs]
      simp [Numbered, Unnumbered, hs]

theorem countP_contained (attempts : ℕ → ℕ → Attempt) (j : ℕ) (slices : List Slice) :
    (slices.countP fun s => s.Contained) = (slices.zipIdx j).countP (Refused attempts) +
      (slices.zipIdx j).countP (Numbered attempts) +
      (slices.zipIdx j).countP (Unnumbered attempts) := by
  induction slices generalizing j with
  | nil => rfl
  | cons s slices ih =>
    rw [List.zipIdx_cons, List.countP_cons, List.countP_cons, List.countP_cons, List.countP_cons,
      ih (j + 1)]
    by_cases hs : s.Contained
    · by_cases ha : (attempts 0 j).refused = true
      · simp [Refused, Numbered, Unnumbered, hs, ha]
        omega
      · by_cases hdevn : ((attempts 0 j).devn.map Prod.snd).getD 0 = 0
        · simp [Refused, Numbered, Unnumbered, hs, ha, hdevn]
          omega
        · simp [Refused, Numbered, Unnumbered, hs, ha, hdevn]
          omega
    · simp [Refused, Numbered, Unnumbered, hs]

/-- The same in every pass: the loop ends if no contained slice is resolved, or if those resolved
without a minor number divide those refused. -/
theorem addSlices_ends_iff_constant (hconst : ∀ p j, attempts p j = attempts 0 j)
    {slices : List Slice} (hminor : ∀ s ∈ slices, s.minor = 0) :
    Ends (addSlices attempts slices) ↔
      (slices.zipIdx.countP (Numbered attempts) = 0 ∧
        slices.zipIdx.countP (Unnumbered attempts) = 0) ∨
      slices.zipIdx.countP (Unnumbered attempts) ∣ slices.zipIdx.countP (Refused attempts) := by
  have htotal (n : ℕ) := total_constant hconst n 0 hminor
  have hcontained := countP_contained attempts 0 slices
  have hzero : total attempts 0 0 slices = 0 := by
    have hall (j : ℕ) (slices : List Slice) : total attempts 0 j slices = 0 := by
      induction slices generalizing j with
      | nil => rfl
      | cons s slices ih => rw [total, ih, accepted]
    exact hall 0 slices
  rw [addSlices_ends_iff, htotal, hcontained]
  generalize slices.zipIdx.countP (Numbered attempts) = numbered at htotal ⊢
  generalize slices.zipIdx.countP (Unnumbered attempts) = unnumbered at htotal ⊢
  generalize slices.zipIdx.countP (Refused attempts) = refused
  constructor
  · rintro (hone | ⟨n, hn⟩)
    · exact .inl (by omega)
    · cases n with
      | zero =>
        rw [hzero] at hn
        exact .inl (by omega)
      | succ n =>
        rw [htotal, Nat.add_mul] at hn
        exact .inr ⟨n, by rw [Nat.mul_comm]; omega⟩
  · rintro (⟨hnumbered, hunnumbered⟩ | ⟨n, hn⟩)
    · exact .inl (by omega)
    · refine .inr ⟨n + 1, ?_⟩
      rw [htotal, Nat.add_mul, hn, Nat.mul_comm unnumbered]
      omega

end Constant

/-- The action list ends. For add and update the slices must be counted down to 0, or not at all in
the first pass. If the same happens at a slice in every pass, then the slices that are resolved
without a minor number other than 0 divide those that are refused, or none is resolved. -/
theorem contained_resolved_iff (attempts : ℕ → ℕ → Attempt) {slices : List Slice}
    (hminor : ∀ s ∈ slices, s.minor = 0) :
    Ends (listSlices slices) ∧
    (Ends (addSlices attempts slices) ↔ total attempts 1 0 slices = 0 ∨
      ∃ n, total attempts n 0 slices = slices.countP fun s => s.Contained) ∧
    ((∀ p j, attempts p j = attempts 0 j) → (Ends (addSlices attempts slices) ↔
      (slices.zipIdx.countP (Numbered attempts) = 0 ∧
        slices.zipIdx.countP (Unnumbered attempts) = 0) ∨
      slices.zipIdx.countP (Unnumbered attempts) ∣ slices.zipIdx.countP (Refused attempts))) :=
  ⟨listSlices_ends hminor, addSlices_ends_iff attempts slices,
    fun hconst => addSlices_ends_iff_constant hconst hminor⟩

/-- A slice in which two others lie. -/
def nestedSlices : List Slice :=
  [{ size := 100 }, { size := 10, container := 1 }, { start := 10, size := 10, container := 1 }]

theorem contained_resolved_iff_nested :
    Ends (listSlices nestedSlices) ∧
    (Ends (addSlices (fun _ _ => {}) nestedSlices) ↔ total (fun _ _ => {}) 1 0 nestedSlices = 0 ∨
      ∃ n, total (fun _ _ => {}) n 0 nestedSlices = nestedSlices.countP fun s => s.Contained) ∧
    ((∀ p j, (fun _ _ => {} : ℕ → ℕ → Attempt) p j = {}) →
      (Ends (addSlices (fun _ _ => {}) nestedSlices) ↔
        (nestedSlices.zipIdx.countP (Numbered fun _ _ => {}) = 0 ∧
          nestedSlices.zipIdx.countP (Unnumbered fun _ _ => {}) = 0) ∨
        nestedSlices.zipIdx.countP (Unnumbered fun _ _ => {}) ∣
          nestedSlices.zipIdx.countP (Refused fun _ _ => {}))) :=
  contained_resolved_iff (fun _ _ => {}) (by decide)

/-- One of the two is refused, the other one gets the minor number 5. -/
theorem contained_resolved_fails :
    ¬ ∀ (attempts : ℕ → ℕ → Attempt) (slices : List Slice), (∀ s ∈ slices, s.minor = 0) →
      Ends (addSlices attempts slices) := by
  intro h
  have hends := h (fun _ j => { refused := j = 1, devn := some (253, 5) }) nestedSlices (by decide)
  rw [addSlices_ends_iff_constant (fun _ _ => rfl) (by decide)] at hends
  revert hends
  decide

end Add

end MultipathTools.Kpartx
