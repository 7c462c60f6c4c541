import MultipathTools.Dmparser.Checked
import MultipathTools.Dmparser.Members

/-! For which tables `disassemble_map` uses a word that is missing. -/
namespace MultipathTools.Dmparser

open MultipathTools.Features

/-- The words end directly behind the device of one of `n` paths with `na` arguments each. -/
def EndsAtDevice (n na : ℕ) (ws : List CStr) : Prop :=
  0 < na ∧ ∃ j < n, ws.length = j * (1 + na) + 1

/-- The number of selector arguments of a group: `k`, or the one that the group names. -/
def selectorArgs (k : Option ℕ) (ws : List CStr) : ℕ := k.getD (number (ws.getD 1 []))

/-- The words of a group behind its selector: the number of paths, that of their arguments, and
the paths. -/
def groupBody (k : Option ℕ) (ws : List CStr) : List CStr := ws.drop (2 + selectorArgs k ws)

def pathCount (ws : List CStr) : ℕ := number (ws.getD 0 [])

def argCount (ws : List CStr) : ℕ := number (ws.getD 1 [])

/-- The words behind the paths. -/
def behindPaths (ws : List CStr) : List CStr :=
  (ws.drop 2).drop (pathCount ws * (1 + argCount ws))

/-- In one of `n` groups the words end directly behind a device. -/
def GroupsEndAtDevice : ℕ → Option ℕ → List CStr → Prop
  | 0, _, _ => False
  | n + 1, k, ws =>
    let body := groupBody k ws
    EndsAtDevice (pathCount body) (argCount body) (body.drop 2) ∨
      GroupsEndAtDevice n (some (selectorArgs k ws)) (behindPaths body)

/-- The words of a table end directly behind a device; `known` tells that the selector is not
read from the table. -/
def EndsAtDeviceOf (known : Bool) (ws : List CStr) : Prop :=
  let ws := behindArgs (behindArgs ws)
  GroupsEndAtDevice (number (ws.getD 0 [])) (if known then some 0 else none) (ws.drop 2)

/-- `store_path` refuses the path of a device word: only white space, and no path of the path
vector with an empty number has a name. -/
def Refused (pathvec : List Path) (w : CStr) : Prop :=
  strchop w = [] ∧ ∀ pp ∈ findPathByDevt pathvec [], pp.dev = []

/-- The devices of `n` paths with `a` arguments each are stored; `last` is read where no word is
left. -/
def DevicesStored (pathvec : List Path) (last : Option CStr) (n a : ℕ) (ws : List CStr) : Prop :=
  ∀ j < n, ∀ w ∈ ws[j * (1 + a)]?.or last, ¬Refused pathvec w

/-- The devices of a group whose counts are there are stored. -/
def GroupStored (pathvec : List Path) (last : Option CStr) (k : Option ℕ) (ws : List CStr) :
    Prop :=
  2 ≤ (groupBody k ws).length →
    DevicesStored pathvec last (pathCount (groupBody k ws)) (argCount (groupBody k ws))
      ((groupBody k ws).drop 2)

/-- The devices of `n` groups are stored. -/
def GroupsStored (pathvec : List Path) (last : Option CStr) : ℕ → Option ℕ → List CStr → Prop
  | 0, _, _ => True
  | n + 1, k, ws =>
    GroupStored pathvec last k ws ∧
      GroupsStored pathvec last n (some (selectorArgs k ws)) (behindPaths (groupBody k ws))

/-- The devices of a table are stored. -/
def TableStored (pathvec : List Path) (known : Bool) (last : Option CStr) (ws : List CStr) : Prop :=
  let ws := behindArgs (behindArgs ws)
  2 ≤ ws.length →
    GroupsStored pathvec last (number (ws.getD 0 [])) (if known then some 0 else none) (ws.drop 2)

section Stored

variable {alloc : CStr → BitVec 64} {pathvec : List Path} {last : Option CStr} {ws : List CStr}
  {n a : ℕ} {k : Option ℕ} {w : CStr}

theorem storeFails_device :
    storeFails ((findPathByDevt pathvec (strchop w)).getD (unknownPath alloc (strchop w))) = true ↔
      Refused pathvec w := by
  unfold storeFails Refused
  rw [decide_eq_true_iff]
  cases hfind : findPathByDevt pathvec (strchop w) with
  | none =>
    have hdev : (unknownPath alloc (strchop w)).dev = [] := rfl
    have htake : (strchop w).take (blkDevSize - 1) = [] ↔ strchop w = [] := by
      rw [List.take_eq_nil_iff, or_iff_right (by decide)]
    rw [Option.getD_none, and_iff_left hdev]
    constructor
    · intro h
      have hnil := htake.mp h
      refine ⟨hnil, fun pp hpp => ?_⟩
      rw [← hnil, hfind] at hpp
      cases hpp
    · exact fun h => htake.mpr h.1
  | some pp =>
    have hdevT : pp.devT = strchop w := by simpa using List.find?_some hfind
    rw [Option.getD_some, hdevT]
    refine and_congr_right fun hnil => ?_
    rw [← hnil, hfind]
    simp

theorem not_refused_of_number (h : number w ≠ 0) : ¬Refused pathvec w := by
  rintro ⟨hnil, -⟩
  rw [number, hnil] at h
  exact h rfl

theorem devicesStored_zero : DevicesStored pathvec last 0 a ws := fun _ h => absurd h (Nat.not_lt_zero _)

theorem devicesStored_nil : DevicesStored pathvec none n a [] := by
  intro j _ w hw
  cases hw

theorem devicesStored_succ_iff : DevicesStored pathvec last (n + 1) a ws ↔
    (∀ w ∈ ws[0]?.or last, ¬Refused pathvec w) ∧
      DevicesStored pathvec last n a (ws.drop (1 + a)) := by
  have hindex (j : ℕ) : (ws.drop (1 + a))[j * (1 + a)]? = ws[(j + 1) * (1 + a)]? := by
    rw [List.getElem?_drop, Nat.succ_mul, Nat.add_comm]
  unfold DevicesStored
  simp only [hindex]
  constructor
  · intro h
    exact ⟨Nat.zero_mul (1 + a) ▸ h 0 (Nat.succ_pos n), fun j hj => h (j + 1) (Nat.succ_lt_succ hj)⟩
  · rintro ⟨hhead, hrest⟩ (_ | j) hj
    · rwa [Nat.zero_mul]
    · exact hrest j (Nat.lt_of_succ_lt_succ hj)

theorem groupStored_of_length (h : (groupBody k ws).length < 2) : GroupStored pathvec last k ws :=
  fun hlen => absurd hlen (not_le.mpr h)

end Stored

section Blank

variable {alloc : CStr → BitVec 64} {pathvec : List Path} {mpp : Multipath} {p : CStr}
  {ws : List CStr}

theorem not_endsAtDevice_nil (n na : ℕ) : ¬EndsAtDevice n na [] := by
  rintro ⟨-, j, -, h⟩
  rw [List.length_nil] at h
  omega

theorem endsAtDevice_succ_iff {n na : ℕ} {w : CStr} :
    EndsAtDevice (n + 1) na (w :: ws) ↔ (0 < na ∧ ws = []) ∨ EndsAtDevice n na (ws.drop na) := by
  unfold EndsAtDevice
  rw [List.length_cons, List.length_drop]
  constructor
  · rintro ⟨hna, j, hj, hlen⟩
    cases j with
    | zero =>
      left
      exact ⟨hna, List.length_eq_zero_iff.mp (by omega)⟩
    | succ j =>
      right
      rw [Nat.succ_mul] at hlen
      exact ⟨hna, j, by omega, by omega⟩
  · rintro (⟨hna, rfl⟩ | ⟨hna, j, hj, hlen⟩)
    · exact ⟨hna, 0, by omega, by simp⟩
    · refine ⟨hna, j + 1, by omega, ?_⟩
      rw [Nat.succ_mul]
      omega

theorem checkedPathArgs_ahead {pp : Path} {n : ℕ} (hsel : mpp.selector ≠ none) (h : Ahead p ws) :
    FaultIff (checkedPathArgs mpp pp n p) (0 < n ∧ ws = [])
      fun r => r.1.selector = mpp.selector ∧ Ahead r.2 (ws.drop n) := by
  cases n with
  | zero => exact FaultIff.ok_of_not ⟨rfl, h⟩ (by simp)
  | succ n =>
    obtain ⟨selector, hselector⟩ := Option.ne_none_iff_exists'.mp hsel
    cases ws with
    | nil =>
      have hx : checkedPathArgs mpp pp (n + 1) p = .error .nullWord := by
        rw [checkedPathArgs, h.getWord_nil]
        rfl
      rw [hx]
      exact (FaultIff.error _).of_iff (by simp)
    | cons w ws =>
      obtain ⟨q, hq, hahead⟩ := h.getWord_cons
      have hx : checkedPathArgs mpp pp (n + 1) p =
          .ok ({ mpp with minio := defMinio mpp pp (strchop w) }, skipWords n q) := by
        rw [checkedPathArgs, hq, hselector]
        rfl
      rw [hx]
      exact FaultIff.ok_of_not ⟨rfl, hahead.skipWords n⟩ (by simp)

/-- The paths of a group: a refused device ends the reading before a word can be missing. -/
theorem checkedPaths_ahead {i na n : ℕ} {pgp : Pathgroup} (hsel : mpp.selector ≠ none)
    (h : Ahead p ws) :
    FaultIff (checkedPaths alloc pathvec i na n mpp pgp p)
      (DevicesStored pathvec none n na ws ∧ EndsAtDevice n na ws)
      fun r => r.1.selector = mpp.selector ∧
        (DevicesStored pathvec none n na ws →
          Resume (r.2.map Prod.snd) (ws.drop (n * (1 + na)))) ∧
        (¬DevicesStored pathvec none n na ws → r.2 = none) := by
  induction n generalizing mpp pgp p ws with
  | zero =>
    rw [Nat.zero_mul]
    refine FaultIff.ok_of_not ⟨rfl, fun _ => h, fun hno => absurd devicesStored_zero hno⟩ ?_
    rintro ⟨-, -, j, hj, -⟩
    omega
  | succ n ih =>
    rw [checkedPaths]
    cases ws with
    | nil =>
      rw [h.getWord_nil, List.drop_nil]
      exact FaultIff.ok_of_not ⟨rfl, fun _ => rfl, fun _ => rfl⟩ fun hc =>
        not_endsAtDevice_nil _ _ hc.2
    | cons w ws =>
      obtain ⟨q, hq, hahead⟩ := h.getWord_cons
      have hstored : DevicesStored pathvec none (n + 1) na (w :: ws) ↔
          ¬Refused pathvec w ∧ DevicesStored pathvec none n na (ws.drop na) := by
        rw [devicesStored_succ_iff, Nat.add_comm, List.drop_succ_cons]
        simp
      rw [hq, hstored]
      dsimp only
      by_cases hrefused : Refused pathvec w
      · rw [if_pos (storeFails_device.mpr hrefused)]
        exact FaultIff.ok_of_not ⟨rfl, fun hs => absurd hrefused hs.1, fun _ => rfl⟩ fun hc =>
          hc.1.1 hrefused
      · rw [if_neg (mt storeFails_device.mp hrefused), and_iff_right hrefused]
        have hc : DevicesStored pathvec none n na (ws.drop na) ∧ EndsAtDevice (n + 1) na (w :: ws) ↔
            (0 < na ∧ ws = []) ∨
              DevicesStored pathvec none n na (ws.drop na) ∧ EndsAtDevice n na (ws.drop na) := by
          rw [endsAtDevice_succ_iff, and_or_left]
          refine or_congr_left (and_iff_right_of_imp ?_)
          rintro ⟨-, rfl⟩
          rw [List.drop_nil]
          exact devicesStored_nil
        refine ((checkedPathArgs_ahead hsel hahead).bind fun r hr => ?_).of_iff hc
        refine (ih (hr.1 ▸ hsel) hr.2).mono fun s hs => ⟨hs.1.trans hr.1, fun hst => ?_, hs.2.2⟩
        have hdrop : (w :: ws).drop ((n + 1) * (1 + na)) = (ws.drop na).drop (n * (1 + na)) := by
          have hn : (n + 1) * (1 + na) = na + n * (1 + na) + 1 := by
            rw [Nat.succ_mul]
            omega
          rw [List.drop_drop, hn, List.drop_succ_cons]
        rw [hdrop]
        exact hs.2.1 hst

/-- A group has been read up to words that are ahead, or the words have run out. -/
inductive Continues (k : ℕ) : Multipath × Option (ℤ × CStr) → List CStr → Prop
  | ended {mpp : Multipath} {ws : List CStr} (h : ws = []) : Continues k (mpp, none) ws
  | going {mpp : Multipath} {numPgArgs : ℤ} {p : CStr} {ws : List CStr} (hsel : mpp.selector ≠ none)
      (hk : numPgArgs.toNat = k) (h : Ahead p ws) : Continues k (mpp, some (numPgArgs, p)) ws

/-- How many selector arguments the code takes a group to have, if it knows. -/
def Knows (mpp : Multipath) (numPgArgs : ℤ) (k : Option ℕ) : Prop :=
  (mpp.selector = none ∧ k = none) ∨ (mpp.selector ≠ none ∧ k = some numPgArgs.toNat)

variable {numPgArgs : ℤ} {k : Option ℕ}

theorem readSelector_ahead (hk : Knows mpp numPgArgs k) (h : Ahead p ws) :
    Continues (selectorArgs k ws) (readSelector mpp numPgArgs p) (ws.drop 2) := by
  unfold readSelector
  rcases hk with ⟨hnone, rfl⟩ | ⟨hsome, rfl⟩
  · rw [hnone]
    rcases ws with _ | ⟨s, ws⟩
    · rw [h.getWord_nil]
      exact .ended rfl
    · obtain ⟨q, hq, hahead⟩ := h.getWord_cons
      rw [hq]
      dsimp only
      rcases ws with _ | ⟨a, ws⟩
      · rw [hahead.getWord_nil]
        exact .ended rfl
      · obtain ⟨q', hq', hahead'⟩ := hahead.getWord_cons
        rw [hq']
        exact .going (Option.some_ne_none _) rfl hahead'
  · obtain ⟨selector, hselector⟩ := Option.ne_none_iff_exists'.mp hsome
    have hskip := h.skipWord.skipWord
    rw [List.drop_drop] at hskip
    rw [hselector]
    exact .going hsome rfl hskip

theorem behindPaths_eq_nil (h : ws.drop 2 = []) : behindPaths ws = [] := by
  rw [behindPaths, h, List.drop_nil]

theorem not_endsAtDevice_of_nil {n na : ℕ} (h : ws = []) : ¬EndsAtDevice n na ws := by
  rw [h]
  exact not_endsAtDevice_nil n na

theorem checkedPathgroup_ahead {i : ℕ} (hk : Knows mpp numPgArgs k) (h : Ahead p ws) :
    FaultIff (checkedPathgroup alloc pathvec i mpp numPgArgs p)
      (GroupStored pathvec none k ws ∧
        EndsAtDevice (pathCount (groupBody k ws)) (argCount (groupBody k ws))
          ((groupBody k ws).drop 2))
      fun r => (GroupStored pathvec none k ws →
          Continues (selectorArgs k ws) r (behindPaths (groupBody k ws))) ∧
        (¬GroupStored pathvec none k ws → r.2 = none) := by
  have hbody : groupBody k ws = (ws.drop 2).drop (selectorArgs k ws) := List.drop_drop.symm
  have hselector := readSelector_ahead hk h
  unfold GroupStored
  rw [hbody]
  unfold checkedPathgroup
  generalize selectorArgs k ws = n at hselector ⊢
  generalize ws.drop 2 = vs at hselector ⊢
  generalize readSelector mpp numPgArgs p = r at hselector ⊢
  rcases hselector with rfl | @⟨m, num, q, _, hsel, rfl, hahead⟩
  · rw [List.drop_nil]
    exact FaultIff.ok_of_not ⟨fun _ => .ended (behindPaths_eq_nil rfl), fun _ => rfl⟩
      fun hc => not_endsAtDevice_of_nil rfl hc.2
  · have hskip := hahead.skipWords num.toNat
    dsimp only
    generalize vs.drop num.toNat = body at hskip ⊢
    rcases body with _ | ⟨np, body⟩
    · rw [hskip.getWord_nil]
      exact FaultIff.ok_of_not ⟨fun _ => .ended (behindPaths_eq_nil rfl), fun _ => rfl⟩
        fun hc => not_endsAtDevice_of_nil rfl hc.2
    · obtain ⟨q', hq', hahead'⟩ := hskip.getWord_cons
      rw [hq']
      dsimp only
      rcases body with _ | ⟨na, rest⟩
      · rw [hahead'.getWord_nil]
        exact FaultIff.ok_of_not ⟨fun _ => .ended (behindPaths_eq_nil rfl), fun _ => rfl⟩
          fun hc => not_endsAtDevice_of_nil rfl hc.2
      · obtain ⟨q'', hq'', hahead''⟩ := hahead'.getWord_cons
        have htwo : 2 ≤ (np :: na :: rest).length := Nat.le_add_left 2 rest.length
        rw [hq'']
        simp only [htwo, true_imp_iff]
        refine (checkedPaths_ahead hsel hahead'').bind_ok fun r hr => FaultIff.ok ?_
        rcases r with ⟨m', _ | ⟨pgp, q⟩⟩
        · exact ⟨fun hs => .ended (hr.2.1 hs), fun _ => rfl⟩
        · exact ⟨fun hs => .going (hr.1 ▸ hsel) rfl (hr.2.1 hs), fun hno => by cases hr.2.2 hno⟩

theorem not_groupsEndAtDevice_nil (n : ℕ) (k : Option ℕ) : ¬GroupsEndAtDevice n k [] := by
  induction n generalizing k with
  | zero => exact id
  | succ n ih =>
    have hbody : groupBody k [] = [] := List.drop_nil
    rw [GroupsEndAtDevice, hbody, not_or]
    refine ⟨not_endsAtDevice_of_nil rfl, ?_⟩
    rw [behindPaths_eq_nil rfl]
    exact ih _

theorem groupsStored_nil {last : Option CStr} (n : ℕ) (k : Option ℕ) : GroupsStored pathvec last n k [] := by
  induction n generalizing k with
  | zero => trivial
  | succ n ih =>
    have hbody : groupBody k [] = [] := List.drop_nil
    refine ⟨groupStored_of_length (by simp [hbody]), ?_⟩
    rw [hbody, behindPaths_eq_nil rfl]
    exact ih _

/-- Behind a device that ends the words, there is no other path. -/
theorem drop_of_endsAtDevice {n na : ℕ} (h : EndsAtDevice n na ws) :
    ws.drop (n * (1 + na)) = [] := by
  obtain ⟨-, j, hj, hlen⟩ := h
  have hle : (j + 1) * (1 + na) ≤ n * (1 + na) := Nat.mul_le_mul_right _ hj
  rw [Nat.succ_mul] at hle
  exact List.drop_eq_nil_of_le (by omega)

theorem checkedPathgroups_ahead {n i : ℕ} (hk : Knows mpp numPgArgs k) (h : Ahead p ws) :
    FaultIff (checkedPathgroups alloc pathvec n i mpp numPgArgs p)
      (GroupsStored pathvec none n k ws ∧ GroupsEndAtDevice n k ws) fun _ => True := by
  induction n generalizing i mpp numPgArgs p k ws with
  | zero => exact FaultIff.ok_of_not trivial fun hc => hc.2
  | succ n ih =>
    have hgroup := @checkedPathgroup_ahead alloc pathvec mpp p ws numPgArgs k i hk h
    by_cases hstored : GroupStored pathvec none k ws
    · have hc : GroupsStored pathvec none (n + 1) k ws ∧ GroupsEndAtDevice (n + 1) k ws ↔
          (GroupStored pathvec none k ws ∧
            EndsAtDevice (pathCount (groupBody k ws)) (argCount (groupBody k ws))
              ((groupBody k ws).drop 2)) ∨
          (GroupsStored pathvec none n (some (selectorArgs k ws)) (behindPaths (groupBody k ws)) ∧
            GroupsEndAtDevice n (some (selectorArgs k ws)) (behindPaths (groupBody k ws))) := by
        rw [GroupsStored, GroupsEndAtDevice, and_iff_right hstored, and_iff_right hstored,
          and_or_left]
        refine or_congr_left (and_iff_right_of_imp fun hend => ?_)
        have hnil : behindPaths (groupBody k ws) = [] := drop_of_endsAtDevice hend
        rw [hnil]
        exact groupsStored_nil _ _
      refine (hgroup.bind fun r hr => ?_).of_iff hc
      have hcont := hr.1 hstored
      generalize behindPaths (groupBody k ws) = vs at hcont ⊢
      rcases hcont with rfl | @⟨m, num, q, _, hsel, hnum, hahead⟩
      · exact FaultIff.ok_of_not trivial fun hc => not_groupsEndAtDevice_nil n _ hc.2
      · rw [← hnum]
        exact ih (Or.inr ⟨hsel, rfl⟩) hahead
    · -- the group is given up
      have hnot : ¬(GroupsStored pathvec none (n + 1) k ws ∧ GroupsEndAtDevice (n + 1) k ws) :=
        fun hc => hstored hc.1.1
      obtain ⟨r, hr, -, hnone⟩ := hgroup.result fun hc => hstored hc.1
      have hend : checkedPathgroups alloc pathvec (n + 1) i mpp numPgArgs p = .ok (r.1, false) := by
        rw [checkedPathgroups, hr]
        simp only [Except.bind, hnone hstored]
      rw [hend]
      exact FaultIff.ok_of_not trivial hnot

theorem checkedGroups_ahead (h : Ahead p ws) :
    FaultIff (checkedGroups alloc pathvec p mpp)
      ((2 ≤ ws.length → GroupsStored pathvec none (number (ws.getD 0 []))
          (if mpp.selector.isSome then some 0 else none) (ws.drop 2)) ∧
        GroupsEndAtDevice (number (ws.getD 0 [])) (if mpp.selector.isSome then some 0 else none)
          (ws.drop 2)) fun _ => True := by
  unfold checkedGroups
  rcases ws with _ | ⟨numPg, ws⟩
  · rw [h.getWord_nil]
    exact FaultIff.ok_of_not trivial fun hc => not_groupsEndAtDevice_nil _ _ hc.2
  · obtain ⟨q, hq, hahead⟩ := h.getWord_cons
    rw [hq]
    dsimp only
    rcases ws with _ | ⟨nextpg, ws⟩
    · rw [hahead.getWord_nil]
      exact FaultIff.ok_of_not trivial fun hc => not_groupsEndAtDevice_nil _ _ hc.2
    · obtain ⟨q', hq', hahead'⟩ := hahead.getWord_cons
      have htwo : 2 ≤ (numPg :: nextpg :: ws).length := Nat.le_add_left 2 ws.length
      rw [hq']
      have hk : Knows mpp 0 (if mpp.selector.isSome then some 0 else none) := by
        unfold Knows
        cases mpp.selector <;> simp
      simp only [htwo, true_imp_iff]
      refine (checkedPathgroups_ahead ?_ hahead').bind_ok fun r _ => FaultIff.ok trivial
      exact hk

/-- A table that ends with a blank. -/
theorem checkedMap_ahead {params : CStr} (h : Ahead params ws) :
    FaultIff (checkedMap alloc pathvec params mpp)
      (TableStored pathvec mpp.selector.isSome none ws ∧ EndsAtDeviceOf mpp.selector.isSome ws)
      fun _ => True := by
  unfold checkedMap TableStored EndsAtDeviceOf
  have hf := h.readArgs
  dsimp only
  generalize readArgs params = features at hf ⊢
  rcases features with ⟨f, _ | q⟩
  · have hnil : behindArgs ws = [] := hf
    have hnil' : behindArgs [] = [] := List.drop_nil
    rw [hnil, hnil']
    exact FaultIff.ok_of_not trivial fun hc => not_groupsEndAtDevice_nil _ _ hc.2
  · have hahead : Ahead q (behindArgs ws) := hf
    have hh := hahead.readArgs
    dsimp only
    generalize readArgs q = hwhandler at hh ⊢
    rcases hwhandler with ⟨g, _ | q'⟩
    · have hnil : behindArgs (behindArgs ws) = [] := hh
      rw [hnil]
      exact FaultIff.ok_of_not trivial fun hc => not_groupsEndAtDevice_nil _ _ hc.2
    · exact checkedGroups_ahead hh

end Blank

section Word

variable {alloc : CStr → BitVec 64} {pathvec : List Path} {mpp : Multipath} {p : CStr}

theorem checkedPathArgs_endsWord {pp : Path} {n : ℕ} (hsel : mpp.selector ≠ none)
    (hp : EndsWord p) (hword : (getWord p).1 ≠ none) :
    FaultIff (checkedPathArgs mpp pp n p) False
      fun r => r.1.selector = mpp.selector ∧ EndsWord r.2 := by
  cases n with
  | zero => exact FaultIff.ok ⟨rfl, hp⟩
  | succ n =>
    obtain ⟨selector, hselector⟩ := Option.ne_none_iff_exists'.mp hsel
    rcases hw : getWord p with ⟨_ | w, q⟩
    · rw [hw] at hword
      exact absurd rfl hword
    · have hx : checkedPathArgs mpp pp (n + 1) p =
          .ok ({ mpp with minio := defMinio mpp pp w }, skipWords n q) := by
        rw [checkedPathArgs, hw, hselector]
        rfl
      rw [hx]
      have hq := hp.of_suffix (suffix_of_getWord hw)
      exact FaultIff.ok ⟨rfl, hq.of_suffix (skipWords_suffix n q)⟩

theorem checkedPaths_endsWord {i na n : ℕ} {pgp : Pathgroup} (hsel : mpp.selector ≠ none)
    (hp : EndsWord p) :
    FaultIff (checkedPaths alloc pathvec i na n mpp pgp p) False
      fun r => r.1.selector = mpp.selector ∧ ∀ s ∈ r.2, EndsWord s.2 := by
  induction n generalizing mpp pgp p with
  | zero =>
    refine FaultIff.ok ⟨rfl, fun s hs => ?_⟩
    obtain rfl := Option.some.inj hs
    exact hp
  | succ n ih =>
    rw [checkedPaths]
    rcases hw : getWord p with ⟨_ | w, q⟩
    · refine FaultIff.ok ⟨rfl, fun s hs => ?_⟩
      cases hs
    · obtain ⟨hq, hagain⟩ := hp.getWord_again hw
      dsimp only
      split_ifs
      · refine FaultIff.ok ⟨rfl, fun s hs => ?_⟩
        cases hs
      refine (checkedPathArgs_endsWord hsel hq hagain).bind_ok fun r hr => ?_
      exact (ih (hr.1 ▸ hsel) hr.2).mono fun s hs => ⟨hs.1.trans hr.1, hs.2⟩

theorem checkedPathgroup_endsWord {i : ℕ} {numPgArgs : ℤ} (hp : EndsWord p) :
    FaultIff (checkedPathgroup alloc pathvec i mpp numPgArgs p) False
      fun r => ∀ s ∈ r.2, r.1.selector ≠ none ∧ EndsWord s.2 := by
  unfold checkedPathgroup
  rcases hs : readSelector mpp numPgArgs p with ⟨m, _ | ⟨k, q⟩⟩
  · exact FaultIff.ok (by simp)
  · obtain ⟨hsel, hq⟩ := suffix_of_readSelector hs
    dsimp only
    rcases hn : getWord (skipWords k.toNat q) with ⟨_ | w, q'⟩
    · exact FaultIff.ok (by simp)
    · dsimp only
      rcases ha : getWord q' with ⟨_ | v, q''⟩
      · exact FaultIff.ok (by simp)
      · have hsuffix : q'' <:+ p := (suffix_of_getWord ha).trans
          ((suffix_of_getWord hn).trans ((skipWords_suffix _ _).trans hq))
        refine (checkedPaths_endsWord hsel (hp.of_suffix hsuffix)).bind_ok fun r hr =>
          FaultIff.ok ?_
        rcases r with ⟨m', _ | ⟨pgp, s⟩⟩
        · intro s hs
          cases hs
        · intro t ht
          obtain rfl := Option.some.inj ht
          exact ⟨hr.1 ▸ hsel, hr.2 _ rfl⟩

theorem checkedPathgroups_endsWord {n i : ℕ} {numPgArgs : ℤ} (hp : EndsWord p) :
    FaultIff (checkedPathgroups alloc pathvec n i mpp numPgArgs p) False fun _ => True := by
  induction n generalizing i mpp numPgArgs p with
  | zero => exact FaultIff.ok trivial
  | succ n ih =>
    refine (checkedPathgroup_endsWord hp).bind_ok fun r hr => ?_
    rcases r with ⟨m, _ | ⟨k, q⟩⟩
    · exact FaultIff.ok trivial
    · exact ih (hr _ rfl).2

/-- A table that ends with a word: that word is there for every read behind a device. -/
theorem checkedMap_endsWord {params : CStr} (hp : EndsWord params) :
    FaultIff (checkedMap alloc pathvec params mpp) False fun _ => True := by
  unfold checkedMap
  dsimp only
  rcases hf : (readArgs params).2 with _ | q
  · exact FaultIff.ok trivial
  · dsimp only
    rcases hh : (readArgs q).2 with _ | q'
    · exact FaultIff.ok trivial
    · dsimp only
      unfold checkedGroups
      rcases hn : getWord q' with ⟨_ | w, r⟩
      · exact FaultIff.ok trivial
      · dsimp only
        rcases hx : getWord r with ⟨_ | v, r'⟩
        · exact FaultIff.ok trivial
        · have hsuffix : r' <:+ params := (suffix_of_getWord hx).trans ((suffix_of_getWord hn).trans
            ((suffix_of_readArgs hh).trans (suffix_of_readArgs hf)))
          exact (checkedPathgroups_endsWord (hp.of_suffix hsuffix)).bind_ok fun r _ =>
            FaultIff.ok trivial

end Word

/-- `disassemble_map` reads a number where there is no word exactly if the table ends with a
blank, directly behind a device that an argument was announced for, and the devices are stored. -/
theorem checkedMap_ok_iff {alloc : CStr → BitVec 64} {pathvec : List Path} {mpp : Multipath}
    {params : CStr} :
    (∃ r, checkedMap alloc pathvec params mpp = .ok r) ↔
      ¬(params.getLast? = some ' ' ∧
        TableStored pathvec mpp.selector.isSome none (splitWords params) ∧
        EndsAtDeviceOf mpp.selector.isSome (splitWords params)) := by
  by_cases hlast : params.getLast? = some ' '
  · rw [(checkedMap_ahead ⟨endsBlank_of_getLast? hlast, rfl⟩).ok_iff, and_iff_right hlast]
  · rw [(checkedMap_endsWord (endsWord_of_getLast? hlast)).ok_iff]
    exact iff_of_true id fun h => hlast h.1

end MultipathTools.Dmparser
