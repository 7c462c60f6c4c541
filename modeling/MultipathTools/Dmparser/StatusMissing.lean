import MultipathTools.Dmparser.Missing
import MultipathTools.Dmparser.Status

/-! For which status texts `disassemble_status` uses a word that is missing. -/
namespace MultipathTools.Dmparser

open MultipathTools.Features

/-- The words end in the arguments of one of `n` paths, with `na` of them each: its device, state
and fail count are there. -/
def EndsInArgs (n na : ℕ) (ws : List CStr) : Prop :=
  ∃ j < n, j * (3 + na) + 3 ≤ ws.length ∧ ws.length < j * (3 + na) + 3 + na

/-- The words behind the two states and two counts of a group, and behind its paths. -/
def behindStatusPaths (ws : List CStr) : List CStr :=
  (ws.drop 4).drop (number (ws.getD 2 []) * (3 + number (ws.getD 3 [])))

/-- The words end in the arguments of a path of one of `n` groups. The groups of the map have
`sizes` paths, and no group is read that announces more. -/
def GroupsEndInArgs : List ℕ → ℕ → List CStr → Prop
  | [], _, _ => False
  | _, 0, _ => False
  | size :: sizes, n + 1, ws =>
    number (ws.getD 2 []) ≤ size ∧
      (EndsInArgs (number (ws.getD 2 [])) (number (ws.getD 3 [])) (ws.drop 4) ∨
        GroupsEndInArgs sizes n (behindStatusPaths ws))

/-- The words of a status end in the arguments of a path. -/
def StatusEndsInArgs (sizes : List ℕ) (ws : List CStr) : Prop :=
  let ws := behindArgs (behindArgs ws)
  number (ws.getD 0 []) ≤ sizes.length ∧
    GroupsEndInArgs sizes (number (ws.getD 0 [])) (ws.drop 2)

section Blank

variable {selector : CStr} {minio : ℤ} {p : CStr} {ws : List CStr}

theorem not_endsInArgs_of_lt {n na : ℕ} (h : ws.length < 3) : ¬EndsInArgs n na ws := by
  rintro ⟨j, -, hle, -⟩
  omega

theorem endsInArgs_succ_iff {n na : ℕ} {dev st fc : CStr} :
    EndsInArgs (n + 1) na (dev :: st :: fc :: ws) ↔
      ws.length < na ∨ EndsInArgs n na (ws.drop na) := by
  unfold EndsInArgs
  rw [List.length_cons, List.length_cons, List.length_cons, List.length_drop]
  constructor
  · rintro ⟨j, hj, hle, hlt⟩
    cases j with
    | zero =>
      left
      omega
    | succ j =>
      right
      rw [Nat.succ_mul] at hle hlt
      exact ⟨j, by omega, by omega, by omega⟩
  · rintro (hlt | ⟨j, hj, hle, hlt⟩)
    · exact ⟨0, by omega, by omega, by omega⟩
    · refine ⟨j + 1, by omega, ?_, ?_⟩
      · rw [Nat.succ_mul]
        omega
      · rw [Nat.succ_mul]
        omega

theorem readSelectorArgs_pending {n : ℕ} (hsel : isLeastPending selector = true) :
    readSelectorArgs (some selector) (n + 1) minio p =
      (checkedWord (getWord p).1).bind fun word =>
        readSelectorArgs (some selector) n ((sscanfInt word).getD minio) (getWord p).2 :=
  if_pos hsel

theorem readSelectorArgs_other {n : ℕ} (hsel : ¬isLeastPending selector = true) :
    readSelectorArgs (some selector) (n + 1) minio p =
      readSelectorArgs (some selector) n minio (skipWord p) := if_neg hsel

theorem readSelectorArgs_ahead {n : ℕ} (h : Ahead p ws) :
    FaultIff (readSelectorArgs (some selector) n minio p)
      (isLeastPending selector = true ∧ ws.length < n) fun r => Ahead r.2 (ws.drop n) := by
  induction n generalizing minio p ws with
  | zero => exact FaultIff.ok_of_not h (by simp)
  | succ n ih =>
    by_cases hsel : isLeastPending selector = true
    · rw [readSelectorArgs_pending hsel]
      cases ws with
      | nil =>
        rw [h.getWord_nil]
        exact (FaultIff.error _).of_iff (by simp [hsel])
      | cons w ws =>
        obtain ⟨q, hq, hahead⟩ := h.getWord_cons
        rw [hq]
        exact (ih hahead).of_iff (by simp)
    · have hdrop : ws.drop (n + 1) = (ws.drop 1).drop n := by
        rw [List.drop_drop, Nat.add_comm]
      rw [readSelectorArgs_other hsel, hdrop]
      exact (ih h.skipWord).of_iff (by simp [hsel])

/-- The reading goes on where words are left; else they have run out. -/
theorem readStatusPaths_ahead {na n : ℕ} {slots : List StatusPath} (hn : n ≤ slots.length)
    (h : Ahead p ws) :
    FaultIff (readStatusPaths (some selector) na n slots minio p)
      (isLeastPending selector = true ∧ EndsInArgs n na ws)
      fun r => Resume r.2.2 (ws.drop (n * (3 + na))) := by
  induction n generalizing slots minio p ws with
  | zero =>
    rw [Nat.zero_mul]
    refine FaultIff.ok_of_not h ?_
    rintro ⟨-, j, hj, -⟩
    omega
  | succ n ih =>
    have hdrop : ws.drop ((n + 1) * (3 + na)) = ((ws.drop 3).drop na).drop (n * (3 + na)) := by
      rw [List.drop_drop, List.drop_drop, Nat.succ_mul]
      congr 1
      omega
    have hshort (hlt : ws.length < 3) : ws.drop ((n + 1) * (3 + na)) = [] := by
      rw [hdrop, List.drop_eq_nil_of_le hlt.le, List.drop_nil, List.drop_nil]
    have hnot (hlt : ws.length < 3) :
        ¬(isLeastPending selector = true ∧ EndsInArgs (n + 1) na ws) :=
      fun hc => not_endsInArgs_of_lt hlt hc.2
    obtain ⟨pp, slots, rfl⟩ := List.exists_cons_of_length_pos (Nat.zero_lt_of_lt hn)
    rw [readStatusPaths]
    have hskip := h.skipWord
    rcases ws with _ | ⟨dev, _ | ⟨st, ws⟩⟩
    · rw [hskip.getWord_nil]
      exact FaultIff.ok_of_not (hshort (by simp)) (hnot (by simp))
    · rw [hskip.getWord_nil]
      exact FaultIff.ok_of_not (hshort (by simp)) (hnot (by simp))
    · obtain ⟨q, hq, hahead⟩ := hskip.getWord_cons
      rw [hq]
      dsimp only
      rcases ws with _ | ⟨fc, ws⟩
      · rw [hahead.getWord_nil]
        exact FaultIff.ok_of_not (hshort (by simp)) (hnot (by simp))
      · obtain ⟨q', hq', hahead'⟩ := hahead.getWord_cons
        rw [hq', hdrop]
        refine ((readSelectorArgs_ahead hahead').bind fun r hr =>
          (ih (Nat.le_of_succ_le_succ hn) hr).bind_ok fun s hs => FaultIff.ok hs).of_iff ?_
        rw [endsInArgs_succ_iff, and_or_left]

/-- The words end in the arguments of a path of a group that is read. -/
def GroupEndsInArgs (size : ℕ) (ws : List CStr) : Prop :=
  number (ws.getD 2 []) ≤ size ∧
    EndsInArgs (number (ws.getD 2 [])) (number (ws.getD 3 [])) (ws.drop 4)

/-- Where the reading goes on behind a group, if it does: it also ends if the group announces
more paths than it has. -/
def ResumeGroup (size : ℕ) (ws : List CStr) (r : Option CStr) : Prop :=
  (r = none ∧ (number (ws.getD 2 []) ≤ size → behindStatusPaths ws = [])) ∨
    ∃ q, r = some q ∧ number (ws.getD 2 []) ≤ size ∧ Ahead q (behindStatusPaths ws)

theorem behindStatusPaths_eq_nil (h : ws.drop 4 = []) : behindStatusPaths ws = [] := by
  rw [behindStatusPaths, h, List.drop_nil]

theorem readStatusPathgroup_ahead {pgp : StatusPathgroup} (h : Ahead p ws) :
    FaultIff (readStatusPathgroup (some selector) pgp minio p)
      (isLeastPending selector = true ∧ GroupEndsInArgs pgp.paths.length ws)
      fun r => ResumeGroup pgp.paths.length ws r.2.2 := by
  have hend {r : StatusPathgroup × ℤ × Option CStr} (hr : r.2.2 = none) (hshort : ws.length < 4) :
      FaultIff (.ok r : Except Fault _)
        (isLeastPending selector = true ∧ GroupEndsInArgs pgp.paths.length ws)
        fun r => ResumeGroup pgp.paths.length ws r.2.2 := by
    have hnil : ws.drop 4 = [] := List.drop_eq_nil_of_le hshort.le
    refine FaultIff.ok_of_not (Or.inl ⟨hr, fun _ => behindStatusPaths_eq_nil hnil⟩) ?_
    rintro ⟨-, -, hc⟩
    rw [hnil] at hc
    exact not_endsInArgs_of_lt (by simp) hc
  unfold readStatusPathgroup
  rcases ws with _ | ⟨st, ws⟩
  · rw [h.getWord_nil]
    exact hend rfl (by simp)
  · obtain ⟨q, hq, hahead⟩ := h.getWord_cons
    rw [hq]
    dsimp only
    have hskip := hahead.skipWord
    rcases ws with _ | ⟨zero, _ | ⟨np, ws⟩⟩
    · rw [hskip.getWord_nil]
      exact hend rfl (by simp)
    · rw [hskip.getWord_nil]
      exact hend rfl (by simp)
    · obtain ⟨q', hq', hahead'⟩ := hskip.getWord_cons
      rw [hq']
      dsimp only
      rcases ws with _ | ⟨na, ws⟩
      · rw [hahead'.getWord_nil]
        exact hend rfl (by simp)
      · obtain ⟨q'', hq'', hahead''⟩ := hahead'.getWord_cons
        rw [hq'']
        dsimp only
        have hnp : (pgp.paths.length : ℤ) < atoi (strchop np) ↔ ¬number np ≤ pgp.paths.length := by
          unfold number
          omega
        split_ifs with hlt
        · have hle := hnp.mp hlt
          exact FaultIff.ok_of_not (Or.inl ⟨rfl, fun hc => absurd hc hle⟩) fun hc => hle hc.2.1
        · have hle : number np ≤ pgp.paths.length := not_not.mp fun hc => hlt (hnp.mpr hc)
          have hpaths : FaultIff (readStatusPaths (some selector) (number na) (number np) pgp.paths
              minio q'') _ _ := readStatusPaths_ahead hle hahead''
          refine (hpaths.bind_ok fun r hr => FaultIff.ok ?_).of_iff ?_
          · rcases r with ⟨slots, m, _ | q⟩
            · exact Or.inl ⟨rfl, fun _ => hr⟩
            · exact Or.inr ⟨q, rfl, hle, hr⟩
          · exact and_congr_right fun _ => and_iff_right hle

theorem not_groupsEndInArgs_nil (sizes : List ℕ) (n : ℕ) : ¬GroupsEndInArgs sizes n [] := by
  induction sizes generalizing n with
  | nil => exact id
  | cons size sizes ih =>
    cases n with
    | zero => exact id
    | succ n =>
      rw [GroupsEndInArgs, behindStatusPaths_eq_nil List.drop_nil]
      rintro ⟨-, h | h⟩
      · exact not_endsInArgs_of_lt (by simp) h
      · exact ih n h

/-- The number of paths that each of the groups has. -/
def sizesOf (slots : List StatusPathgroup) : List ℕ := slots.map fun pgp => pgp.paths.length

theorem readStatusPathgroups_ahead {n : ℕ} {slots : List StatusPathgroup}
    (hn : n ≤ slots.length) (h : Ahead p ws) :
    FaultIff (readStatusPathgroups (some selector) n slots minio p)
      (isLeastPending selector = true ∧ GroupsEndInArgs (sizesOf slots) n ws) fun _ => True := by
  induction n generalizing slots minio p ws with
  | zero =>
    refine FaultIff.ok_of_not trivial ?_
    cases slots with
    | nil => exact And.right
    | cons pgp slots => exact And.right
  | succ n ih =>
    obtain ⟨pgp, slots, rfl⟩ := List.exists_cons_of_length_pos (Nat.zero_lt_of_lt hn)
    rw [readStatusPathgroups]
    have hcut : (isLeastPending selector = true ∧
          GroupsEndInArgs (sizesOf (pgp :: slots)) (n + 1) ws) ↔
        (isLeastPending selector = true ∧ GroupEndsInArgs pgp.paths.length ws) ∨
        (isLeastPending selector = true ∧ number (ws.getD 2 []) ≤ pgp.paths.length ∧
          GroupsEndInArgs (sizesOf slots) n (behindStatusPaths ws)) := by
      rw [GroupEndsInArgs, ← and_or_left, ← and_or_left]
      rfl
    refine ((readStatusPathgroup_ahead h).bind fun r hr => ?_).of_iff hcut
    rcases r with ⟨g, m, r⟩
    rcases hr with ⟨rfl, hnil⟩ | ⟨q, rfl, hle, hahead⟩
    · refine FaultIff.ok_of_not trivial ?_
      rintro ⟨-, hle, hc⟩
      rw [hnil hle] at hc
      exact not_groupsEndInArgs_nil _ n hc
    · have hrest : FaultIff (readStatusPathgroups (some selector) n slots m q) _ _ :=
        ih (Nat.le_of_succ_le_succ hn) hahead
      refine (hrest.bind_ok fun s _ => FaultIff.ok trivial).of_iff ?_
      rw [and_iff_right hle]

theorem readFeatureArgs_ahead {n i : ℕ} {queuedio : ℤ} (h : Ahead p ws) :
    Resume (readFeatureArgs n i queuedio p).2 (ws.drop n) := by
  induction n generalizing i queuedio p ws with
  | zero => exact h
  | succ n ih =>
    rw [readFeatureArgs]
    split_ifs
    · cases ws with
      | nil =>
        rw [h.getWord_nil]
        rfl
      | cons w ws =>
        obtain ⟨q, hq, hahead⟩ := h.getWord_cons
        rw [hq]
        exact ih hahead
    · have hdrop : ws.drop (n + 1) = (ws.drop 1).drop n := by
        rw [List.drop_drop, Nat.add_comm]
      rw [hdrop]
      exact ih h.skipWord

theorem not_groupsEndInArgs_zero (sizes : List ℕ) : ¬GroupsEndInArgs sizes 0 ws := by
  cases sizes with
  | nil => exact id
  | cons size sizes => exact id

variable {mpp : StatusMultipath}

/-- The slots of the groups have a selector. -/
def HasSelector (mpp : StatusMultipath) : Prop := mpp.pg.getD [] ≠ [] → mpp.selector ≠ none

theorem readStatusGroups_ahead (hsel : HasSelector mpp) (h : Ahead p ws) :
    FaultIff (readStatusGroups p mpp)
      (mpp.selector.any isLeastPending = true ∧
        number (ws.getD 0 []) ≤ (sizesOf (mpp.pg.getD [])).length ∧
        GroupsEndInArgs (sizesOf (mpp.pg.getD [])) (number (ws.getD 0 [])) (ws.drop 2))
      fun _ => True := by
  unfold readStatusGroups
  rcases ws with _ | ⟨numPg, ws⟩
  · rw [h.getWord_nil]
    exact FaultIff.ok_of_not trivial fun hc => not_groupsEndInArgs_nil _ _ hc.2.2
  · obtain ⟨q, hq, hahead⟩ := h.getWord_cons
    rw [hq]
    dsimp only
    have hlen : (sizesOf (mpp.pg.getD [])).length = (mpp.pg.getD []).length := List.length_map _
    rw [hlen]
    have hnum : (atoi (strchop numPg)).toNat = number numPg := rfl
    split_ifs with hzero hlt
    · refine FaultIff.ok_of_not trivial ?_
      rintro ⟨-, -, hc⟩
      have hz : number numPg = 0 := by
        rw [number, hzero]
        rfl
      exact not_groupsEndInArgs_zero _ (hz ▸ hc)
    · refine FaultIff.ok_of_not trivial ?_
      rintro ⟨-, hle, -⟩
      have hle' : number numPg ≤ (mpp.pg.getD []).length := hle
      omega
    · have hle : number numPg ≤ (mpp.pg.getD []).length := by omega
      rw [hnum]
      rcases hs : mpp.selector with _ | selector
      · have hpg : mpp.pg.getD [] = [] := by
          by_contra hne
          exact hsel hne hs
        rw [hpg] at hle ⊢
        obtain hz : number numPg = 0 := Nat.le_zero.mp hle
        rw [hz]
        exact FaultIff.ok_of_not trivial fun hc => Bool.false_ne_true hc.1
      · have hskip := hahead.skipWord
        refine ((readStatusPathgroups_ahead hle hskip).bind_ok fun r _ => FaultIff.ok trivial).of_iff ?_
        exact and_congr_right fun _ => and_iff_right hle

/-- A status that ends with a blank. -/
theorem disassembleStatus_ahead {params : CStr} (hsel : HasSelector mpp) (h : Ahead params ws) :
    FaultIff (disassembleStatus params mpp)
      (mpp.selector.any isLeastPending = true ∧ StatusEndsInArgs (sizesOf (mpp.pg.getD [])) ws)
      fun _ => True := by
  have hshort (hnil : behindArgs (behindArgs ws) = []) :
      ¬(mpp.selector.any isLeastPending = true ∧
        StatusEndsInArgs (sizesOf (mpp.pg.getD [])) ws) := by
    rintro ⟨-, -, hc⟩
    rw [hnil] at hc
    exact not_groupsEndInArgs_nil _ _ hc
  have hargs : behindArgs [] = [] := List.drop_nil
  unfold disassembleStatus
  rcases ws with _ | ⟨num, ws⟩
  · rw [h.getWord_nil]
    exact FaultIff.ok_of_not trivial (hshort (by rw [hargs, hargs]))
  · obtain ⟨q, hq, hahead⟩ := h.getWord_cons
    rw [hq]
    dsimp only
    have hfeatures : Resume (readFeatureArgs (number num) 0 mpp.queuedio q).2 _ :=
      readFeatureArgs_ahead hahead
    have hbehind : behindArgs (num :: ws) = ws.drop (number num) := by
      rw [behindArgs, Nat.add_comm]
      rfl
    have hnum : (atoi (strchop num)).toNat = number num := rfl
    rw [hnum]
    generalize readFeatureArgs (number num) 0 mpp.queuedio q = r at hfeatures ⊢
    rcases r with ⟨queuedio, _ | q'⟩
    · have hnil : behindArgs (num :: ws) = [] := hbehind.trans hfeatures
      exact FaultIff.ok_of_not trivial (hshort (by rw [hnil, hargs]))
    · have hq' : Ahead q' (behindArgs (num :: ws)) := hbehind ▸ hfeatures
      unfold StatusEndsInArgs at hshort ⊢
      generalize behindArgs (num :: ws) = vs at hq' hshort ⊢
      dsimp only
      rcases vs with _ | ⟨w, vs⟩
      · rw [hq'.getWord_nil]
        exact FaultIff.ok_of_not trivial (hshort hargs)
      · obtain ⟨r, hr, hahead'⟩ := hq'.getWord_cons
        rw [hr]
        have hskip := hahead'.skipWords (number w)
        have hbehind' : behindArgs (w :: vs) = vs.drop (number w) := by
          rw [behindArgs, Nat.add_comm]
          rfl
        rw [hbehind']
        have hq : HasSelector { mpp with queuedio := queuedio } := hsel
        exact readStatusGroups_ahead hq hskip

end Blank

section Word

variable {selector : CStr} {minio : ℤ} {p : CStr} {mpp : StatusMultipath}

theorem readSelectorArgs_endsWord {n : ℕ} (hp : EndsWord p)
    (hword : isLeastPending selector = true → (getWord p).1 ≠ none) :
    FaultIff (readSelectorArgs (some selector) n minio p) False fun r => EndsWord r.2 := by
  induction n generalizing minio p with
  | zero => exact FaultIff.ok hp
  | succ n ih =>
    by_cases hsel : isLeastPending selector = true
    · rw [readSelectorArgs_pending hsel]
      rcases hw : getWord p with ⟨_ | w, q⟩
      · rw [hw] at hword
        exact absurd rfl (hword hsel)
      · obtain ⟨hq, hagain⟩ := hp.getWord_again hw
        exact ih hq fun _ => hagain
    · rw [readSelectorArgs_other hsel]
      exact ih (hp.of_suffix (skipWord_suffix p)) fun h => absurd h hsel

theorem readStatusPaths_endsWord {na n : ℕ} {slots : List StatusPath} (hn : n ≤ slots.length)
    (hp : EndsWord p) :
    FaultIff (readStatusPaths (some selector) na n slots minio p) False
      fun r => ∀ q ∈ r.2.2, EndsWord q := by
  induction n generalizing slots minio p with
  | zero =>
    refine FaultIff.ok fun q hq => ?_
    obtain rfl := Option.some.inj hq
    exact hp
  | succ n ih =>
    obtain ⟨pp, slots, rfl⟩ := List.exists_cons_of_length_pos (Nat.zero_lt_of_lt hn)
    rw [readStatusPaths]
    have hskip := hp.of_suffix (skipWord_suffix p)
    rcases hst : getWord (skipWord p) with ⟨_ | w, q⟩
    · exact FaultIff.ok (by simp)
    · have hq := hskip.of_suffix (suffix_of_getWord hst)
      dsimp only
      rcases hfc : getWord q with ⟨_ | v, q'⟩
      · exact FaultIff.ok (by simp)
      · obtain ⟨hq', hagain⟩ := hq.getWord_again hfc
        exact (readSelectorArgs_endsWord hq' fun _ => hagain).bind_ok fun r hr =>
          (ih (Nat.le_of_succ_le_succ hn) hr).bind_ok fun s hs => FaultIff.ok hs

theorem readStatusPathgroup_endsWord {pgp : StatusPathgroup} (hp : EndsWord p) :
    FaultIff (readStatusPathgroup (some selector) pgp minio p) False
      fun r => ∀ q ∈ r.2.2, EndsWord q := by
  unfold readStatusPathgroup
  rcases hst : getWord p with ⟨_ | w, q⟩
  · exact FaultIff.ok (by simp)
  · have hq := (hp.of_suffix (suffix_of_getWord hst)).of_suffix (skipWord_suffix q)
    dsimp only
    rcases hnp : getWord (skipWord q) with ⟨_ | numPaths, q'⟩
    · exact FaultIff.ok (by simp)
    · have hq' := hq.of_suffix (suffix_of_getWord hnp)
      dsimp only
      rcases hna : getWord q' with ⟨_ | numPgArgs, q''⟩
      · exact FaultIff.ok (by simp)
      · have hq'' := hq'.of_suffix (suffix_of_getWord hna)
        dsimp only
        split_ifs with hlt
        · exact FaultIff.ok (by simp)
        · exact (readStatusPaths_endsWord (by omega) hq'').bind_ok fun r hr => FaultIff.ok hr

theorem readStatusPathgroups_endsWord {n : ℕ} {slots : List StatusPathgroup}
    (hn : n ≤ slots.length) (hp : EndsWord p) :
    FaultIff (readStatusPathgroups (some selector) n slots minio p) False fun _ => True := by
  induction n generalizing slots minio p with
  | zero => exact FaultIff.ok trivial
  | succ n ih =>
    obtain ⟨pgp, slots, rfl⟩ := List.exists_cons_of_length_pos (Nat.zero_lt_of_lt hn)
    rw [readStatusPathgroups]
    refine (readStatusPathgroup_endsWord hp).bind_ok fun r hr => ?_
    rcases r with ⟨g, m, _ | q⟩
    · exact FaultIff.ok trivial
    · exact (ih (Nat.le_of_succ_le_succ hn) (hr q rfl)).bind_ok fun s _ => FaultIff.ok trivial

theorem readStatusGroups_endsWord (hsel : HasSelector mpp) (hp : EndsWord p) :
    FaultIff (readStatusGroups p mpp) False fun _ => True := by
  unfold readStatusGroups
  rcases hnum : getWord p with ⟨_ | numPg, q⟩
  · exact FaultIff.ok trivial
  · have hq := (hp.of_suffix (suffix_of_getWord hnum)).of_suffix (skipWord_suffix q)
    dsimp only
    split_ifs with hzero hlt
    · exact FaultIff.ok trivial
    · exact FaultIff.ok trivial
    · have hle : (atoi numPg).toNat ≤ (mpp.pg.getD []).length := by omega
      rcases hs : mpp.selector with _ | selector
      · have hpg : mpp.pg.getD [] = [] := by
          by_contra hne
          exact hsel hne hs
        rw [hpg] at hle ⊢
        rw [Nat.le_zero.mp hle]
        exact FaultIff.ok trivial
      · exact (readStatusPathgroups_endsWord hle hq).bind_ok fun r _ => FaultIff.ok trivial

theorem suffix_of_readFeatureArgs {n i : ℕ} {queuedio : ℤ} {q : CStr}
    (h : (readFeatureArgs n i queuedio p).2 = some q) : q <:+ p := by
  induction n generalizing i queuedio p with
  | zero =>
    obtain rfl : p = q := Option.some.inj h
    exact List.suffix_rfl
  | succ n ih =>
    rw [readFeatureArgs] at h
    split_ifs at h
    · rcases hw : getWord p with ⟨_ | w, r⟩
      · rw [hw] at h
        cases h
      · rw [hw] at h
        exact (ih h).trans (suffix_of_getWord hw)
    · exact (ih h).trans (skipWord_suffix p)

/-- A status that ends with a word: that word is there for every read behind a fail count. -/
theorem disassembleStatus_endsWord {params : CStr} (hsel : HasSelector mpp)
    (hp : EndsWord params) : FaultIff (disassembleStatus params mpp) False fun _ => True := by
  unfold disassembleStatus
  rcases hw : getWord params with ⟨_ | w, q⟩
  · exact FaultIff.ok trivial
  · dsimp only
    rcases hf : (readFeatureArgs (atoi w).toNat 0 mpp.queuedio q).2 with _ | q'
    · exact FaultIff.ok trivial
    · dsimp only
      rcases hh : getWord q' with ⟨_ | v, r⟩
      · exact FaultIff.ok trivial
      · have hsuffix : r <:+ params := (suffix_of_getWord hh).trans
          ((suffix_of_readFeatureArgs hf).trans (suffix_of_getWord hw))
        have hr := (hp.of_suffix hsuffix).of_suffix (skipWords_suffix (atoi v).toNat r)
        have hq : HasSelector { mpp with
            queuedio := (readFeatureArgs (atoi w).toNat 0 mpp.queuedio q).1 } := hsel
        exact readStatusGroups_endsWord hq hr

end Word

theorem disassembleStatus_ok_iff {mpp : StatusMultipath} {params : CStr} (hsel : HasSelector mpp) :
    (∃ r, disassembleStatus params mpp = .ok r) ↔
      ¬(params.getLast? = some ' ' ∧ mpp.selector.any isLeastPending = true ∧
        StatusEndsInArgs (sizesOf (mpp.pg.getD [])) (splitWords params)) := by
  by_cases hlast : params.getLast? = some ' '
  · rw [(disassembleStatus_ahead hsel ⟨endsBlank_of_getLast? hlast, rfl⟩).ok_iff,
      and_iff_right hlast]
  · rw [(disassembleStatus_endsWord hsel (endsWord_of_getLast? hlast)).ok_iff]
    exact iff_of_true id fun h => hlast h.1

example : disassembleStatus "0 0 1 1 A 0 1 1 8:0 A 0 ".toList
    { pg := some [{ paths := [{}] }], selector := some "least-pending 0".toList } =
      .error .nullWord := by rfl

end MultipathTools.Dmparser
