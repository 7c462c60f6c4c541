import MultipathTools.Base.Fault
import MultipathTools.Dmparser.Disassemble

/-! The readers of `dmparser.c` with every pointer checked that they use: the words that go to
`atoi` and `sscanf`, the selector that is compared, the slots of the vectors. -/
namespace MultipathTools.Dmparser

/-- The use of a pointer that is NULL, or of a slot that does not exist. -/
inductive Fault where
  | nullWord
  | nullSelector
  | noPathgroup
  | noPath
  deriving DecidableEq, Repr

/-- A word for `atoi` or `sscanf`. -/
def checkedWord : Option CStr → Except Fault CStr
  | none => .error .nullWord
  | some word => .ok word

/-- A selector for `strncmp`. -/
def checkedSelector : Option CStr → Except Fault CStr
  | none => .error .nullSelector
  | some selector => .ok selector

/-- The arguments of a path. Here is no test for a missing word. -/
def checkedPathArgs (mpp : Multipath) (pp : Path) : ℕ → CStr → Except Fault (Multipath × CStr)
  | 0, p => .ok (mpp, p)
  | n + 1, p =>
    (checkedWord (getWord p).1).bind fun word =>
      (checkedSelector mpp.selector).bind fun _ =>
        .ok ({ mpp with minio := defMinio mpp pp word }, skipWords n (getWord p).2)

/-- `readPaths`, checked. -/
def checkedPaths (alloc : CStr → BitVec 64) (pathvec : List Path) (i numPathsArgs : ℕ) :
    ℕ → Multipath → Pathgroup → CStr → Except Fault (Multipath × Option (Pathgroup × CStr))
  | 0, mpp, pgp, p => .ok (mpp, some (pgp, p))
  | n + 1, mpp, pgp, p =>
    match getWord p with
    | (none, _) => .ok (mpp, none)
    | (some word, p) =>
      let pp := (findPathByDevt pathvec word).getD (unknownPath alloc word)
      if storeFails pp then .ok (mpp, none)
      else
        let pgp :=
          { id := pgp.id ^^^ pp.addr, paths := pgp.paths ++ [{ pp with pgindex := i + 1 }] }
        (checkedPathArgs mpp pp numPathsArgs p).bind fun r =>
          checkedPaths alloc pathvec i numPathsArgs n r.1 pgp r.2

/-- What is left of a group that was read: it is put behind the others. -/
def addRead (numPgArgs : ℤ) :
    Multipath × Option (Pathgroup × CStr) → Multipath × Option (ℤ × CStr)
  | (mpp, none) => (mpp, none)
  | (mpp, some (pgp, p)) => ({ mpp with pg := some (mpp.pg.getD [] ++ [pgp]) }, some (numPgArgs, p))

/-- `readPathgroup`, checked. -/
def checkedPathgroup (alloc : CStr → BitVec 64) (pathvec : List Path) (i : ℕ) (mpp : Multipath)
    (numPgArgs : ℤ) (p : CStr) : Except Fault (Multipath × Option (ℤ × CStr)) :=
  match readSelector mpp numPgArgs p with
  | (mpp, none) => .ok (mpp, none)
  | (mpp, some (numPgArgs, p)) =>
    match getWord (skipWords numPgArgs.toNat p) with
    | (none, _) => .ok (mpp, none)
    | (some numPaths, p) =>
      match getWord p with
      | (none, _) => .ok (mpp, none)
      | (some numPathsArgs, p) =>
        (checkedPaths alloc pathvec i (atoi numPathsArgs).toNat (atoi numPaths).toNat mpp {} p).bind
          fun r => .ok (addRead numPgArgs r)

/-- `readPathgroups`, checked. -/
def checkedPathgroups (alloc : CStr → BitVec 64) (pathvec : List Path) :
    ℕ → ℕ → Multipath → ℤ → CStr → Except Fault (Multipath × Bool)
  | 0, _, mpp, _, _ => .ok (mpp, true)
  | n + 1, i, mpp, numPgArgs, p =>
    (checkedPathgroup alloc pathvec i mpp numPgArgs p).bind fun r =>
      match r.2 with
      | none => .ok (r.1, false)
      | some q => checkedPathgroups alloc pathvec n (i + 1) r.1 q.1 q.2

/-- The end of `disassemble_map`: without all groups there are none. -/
def groupsRead : Multipath × Bool → Multipath × ℤ
  | (mpp, false) => ({ mpp with pg := none }, 1)
  | (mpp, true) => (mpp, 0)

/-- `readGroups`, checked. -/
def checkedGroups (alloc : CStr → BitVec 64) (pathvec : List Path) (p : CStr) (mpp : Multipath) :
    Except Fault (Multipath × ℤ) :=
  match getWord p with
  | (none, _) => .ok (mpp, 1)
  | (some numPg, p) =>
    let mpp := { mpp with pg := if 0 < atoi numPg then some (mpp.pg.getD []) else none }
    match getWord p with
    | (none, _) => .ok ({ mpp with pg := none }, 1)
    | (some nextpg, p) =>
      let mpp := { mpp with nextpg := atoi nextpg }
      (checkedPathgroups alloc pathvec (atoi numPg).toNat 0 mpp 0 p).bind fun r =>
        .ok (groupsRead r)

/-- `disassemble_map`, checked. -/
def checkedMap (alloc : CStr → BitVec 64) (pathvec : List Path) (params : CStr)
    (mpp : Multipath) : Except Fault (Multipath × ℤ) :=
  let features := readArgs params
  let mpp := { mpp with features := features.1 }
  match features.2 with
  | none => .ok (mpp, 1)
  | some p =>
    let hwhandler := readArgs p
    let mpp := { mpp with hwhandler := hwhandler.1 }
    match hwhandler.2 with
    | none => .ok (mpp, 1)
    | some p => checkedGroups alloc pathvec p mpp

section Result

variable {alloc : CStr → BitVec 64} {pathvec : List Path} {mpp : Multipath} {p : CStr}

theorem checkedPathArgs_ok {pp : Path} {n : ℕ} {r : Multipath × CStr}
    (h : checkedPathArgs mpp pp n p = .ok r) :
    readPathArgs mpp pp n p = (r.1, some r.2) := by
  cases n with
  | zero =>
    obtain rfl : (mpp, p) = r := Except.ok.inj h
    rfl
  | succ n =>
    obtain ⟨word, hword, h⟩ := bind_eq_ok_iff.mp h
    obtain ⟨selector, -, h⟩ := bind_eq_ok_iff.mp h
    rw [readPathArgs]
    rcases hg : getWord p with ⟨_ | w, q⟩
    · rw [hg] at hword
      cases hword
    · rw [hg] at hword h
      obtain rfl : w = word := Except.ok.inj hword
      rw [← Except.ok.inj h]

theorem checkedPaths_ok {i na n : ℕ} {pgp : Pathgroup} {r : Multipath × Option (Pathgroup × CStr)}
    (h : checkedPaths alloc pathvec i na n mpp pgp p = .ok r) :
    readPaths alloc pathvec i na n mpp pgp p = r := by
  induction n generalizing mpp pgp p with
  | zero => exact Except.ok.inj h
  | succ n ih =>
    rw [checkedPaths] at h
    rw [readPaths]
    rcases hg : getWord p with ⟨_ | w, q⟩
    · rw [hg] at h
      exact Except.ok.inj h
    · rw [hg] at h
      dsimp only at h ⊢
      generalize (findPathByDevt pathvec w).getD (unknownPath alloc w) = pp at h ⊢
      cases hfail : storeFails pp with
      | true =>
        rw [hfail] at h
        exact Except.ok.inj h
      | false =>
        rw [hfail] at h
        obtain ⟨a, hargs, h⟩ := bind_eq_ok_iff.mp h
        rw [checkedPathArgs_ok hargs]
        exact ih h

theorem checkedPathgroup_ok {i : ℕ} {numPgArgs : ℤ} {r : Multipath × Option (ℤ × CStr)}
    (h : checkedPathgroup alloc pathvec i mpp numPgArgs p = .ok r) :
    readPathgroup alloc pathvec i mpp numPgArgs p = r := by
  unfold checkedPathgroup at h
  unfold readPathgroup
  rcases hs : readSelector mpp numPgArgs p with ⟨m, _ | ⟨k, q⟩⟩
  · rw [hs] at h
    exact Except.ok.inj h
  · rw [hs] at h
    dsimp only at h ⊢
    rcases hp : getWord (skipWords k.toNat q) with ⟨_ | w, q'⟩
    · rw [hp] at h
      exact Except.ok.inj h
    · rw [hp] at h
      dsimp only at h ⊢
      rcases ha : getWord q' with ⟨_ | v, q''⟩
      · rw [ha] at h
        exact Except.ok.inj h
      · rw [ha] at h
        obtain ⟨a, hpaths, h⟩ := bind_eq_ok_iff.mp h
        dsimp only
        rw [checkedPaths_ok hpaths, ← Except.ok.inj h]
        rcases a with ⟨m', _ | ⟨pgp, q⟩⟩
        · rfl
        · rfl

theorem checkedPathgroups_ok {n i : ℕ} {numPgArgs : ℤ} {r : Multipath × Bool}
    (h : checkedPathgroups alloc pathvec n i mpp numPgArgs p = .ok r) :
    readPathgroups alloc pathvec n i mpp numPgArgs p = r := by
  induction n generalizing i mpp numPgArgs p with
  | zero => exact Except.ok.inj h
  | succ n ih =>
    obtain ⟨a, ha, h⟩ := bind_eq_ok_iff.mp h
    rw [readPathgroups, checkedPathgroup_ok ha]
    rcases a with ⟨m, _ | ⟨k, q⟩⟩
    · exact Except.ok.inj h
    · exact ih h

theorem checkedGroups_ok {r : Multipath × ℤ} (h : checkedGroups alloc pathvec p mpp = .ok r) :
    readGroups alloc pathvec p mpp = r := by
  unfold checkedGroups at h
  unfold readGroups
  rcases hn : getWord p with ⟨_ | w, q⟩
  · rw [hn] at h
    exact Except.ok.inj h
  · rw [hn] at h
    dsimp only at h ⊢
    rcases hx : getWord q with ⟨_ | v, q'⟩
    · rw [hx] at h
      exact Except.ok.inj h
    · rw [hx] at h
      obtain ⟨a, ha, h⟩ := bind_eq_ok_iff.mp h
      dsimp only
      rw [checkedPathgroups_ok ha, ← Except.ok.inj h]
      rcases a with ⟨m, _ | _⟩
      · rfl
      · rfl

/-- Where nothing is missing, this is `disassemble_map`. -/
theorem checkedMap_ok {params : CStr} {r : Multipath × ℤ}
    (h : checkedMap alloc pathvec params mpp = .ok r) :
    disassembleMap alloc pathvec params mpp = r := by
  unfold checkedMap at h
  unfold disassembleMap
  dsimp only at h ⊢
  rcases hf : readArgs params with ⟨f, _ | q⟩
  · rw [hf] at h
    exact Except.ok.inj h
  · rw [hf] at h
    dsimp only at h ⊢
    rcases hh : readArgs q with ⟨g, _ | q'⟩
    · rw [hh] at h
      exact Except.ok.inj h
    · rw [hh] at h
      exact checkedGroups_ok h

end Result

end MultipathTools.Dmparser
