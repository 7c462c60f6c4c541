import MultipathTools.Base.Slots
import MultipathTools.Dmparser.Disassemble

/-! How the path vector and the path groups are brought into line after a table has been read
(`update_pathvec_from_dm` of `structs_vec.c`). The paths are objects in memory; the path vector
and the groups hold their addresses. -/
namespace MultipathTools.StructsVec

/-- The flags of `pathinfo`. -/
def diSysfs : BitVec 32 := 1 <<< 0
def diWwid : BitVec 32 := 1 <<< 4
def diBlacklist : BitVec 32 := 1 <<< 5
def diNoio : BitVec 32 := 1 <<< 6

/-- `struct path` in memory. `udev` and `hwe` are pointers. -/
structure PathObj extends Path where
  udev : Option ℕ := none
  hwe : Option ℕ := none
  tick : ℤ := 0
  checkint : ℤ := 0
  deriving DecidableEq, Repr

/-- A path group in memory. -/
structure PgObj where
  id : BitVec 64 := 0
  paths : Option (List (BitVec 64)) := none
  deriving DecidableEq, Repr

inductive PathinfoRc where
  | ok | failed | skipped
  deriving DecidableEq, Repr

/-- What `pathinfo` makes of a path, and its return code. -/
structure Pathinfo where
  path : Path := {}
  tick : ℤ := 0
  rc : PathinfoRc := .ok

/-- What the calls find that leave the daemon; a call is told by its number. -/
structure Env where
  getUdevDevice : ℕ → CStr → Option ℕ
  devt2devname : ℕ → CStr → CStr
  pathinfo : ℕ → PathObj → BitVec 32 → Pathinfo
  checkint : ℤ

/-- The memory, the path vector and the fields of the map that are written, with the flag
`must_reload` and the number of calls so far. -/
structure Store where
  heap : BitVec 64 → PathObj
  pathvec : List (BitVec 64)
  freed : List (BitVec 64) := []
  wwid : CStr := []
  hwe : Option ℕ := none
  mustReload : Bool := false
  calls : ℕ := 0

/-- The object at an address is written. -/
def Store.setPath (s : Store) (a : BitVec 64) (pp : PathObj) : Store :=
  { s with heap := Function.update s.heap a pp }

/-- `pathinfo` writes neither the owner of a path nor its udev device. -/
def applyPathinfo (pp : PathObj) (r : Pathinfo) : PathObj :=
  { pp with
    toPath := { r.path with addr := pp.addr, mpp := pp.mpp, pgindex := pp.pgindex }
    tick := r.tick }

/-- `guess_mpp_wwid`: the WWID of the map, and whether there is one. -/
def guessMppWwid (heap : BitVec 64 → PathObj) (pg : List PgObj) (wwid : CStr) : CStr × Bool :=
  if wwid ≠ [] then (wwid, true)
  else
    match (pg.flatMap fun pgp => pgp.paths.getD []).find? fun a =>
        (heap a).initialized = .ok ∧ (heap a).wwid ≠ [] with
    | some a => ((heap a).wwid, true)
    | none => (wwid, false)

/-- `orphan_path`, for a path of this map. -/
def orphanPath (s : Store) (a : BitVec 64) : Store :=
  let pp := s.heap a
  { s.setPath a { pp with mpp := none } with
    hwe := if pp.mpp ≠ none ∧ pp.hwe ≠ none ∧ s.hwe = pp.hwe then none else s.hwe }

/-- A path that is freed, and for which the map is to be reloaded. -/
def Store.discard (s : Store) (a : BitVec 64) : Store :=
  { s with freed := a :: s.freed, mustReload := true }

section Loops

variable (env : Env) (pathinfoFlags : BitVec 32) (mpp : ℕ)

/-- What is found about a path: the path vector has it if its udev device is known; else it is
added, or discarded. The second component tells whether it is there. -/
def probePath (s : Store) (a : BitVec 64) : Store × Bool :=
  let pp := s.heap a
  if pp.udev ≠ none then
    if pathinfoFlags &&& ~~~diNoio ≠ 0 then
      let r := env.pathinfo s.calls pp (pathinfoFlags ||| diWwid)
      ({ s.setPath a (applyPathinfo pp r) with calls := s.calls + 1 }, true)
    else (s, true)
  else
    match env.getUdevDevice s.calls pp.devT with
    | none => ({ s with calls := s.calls + 1 }.discard a, false)
    | some udev =>
      let pp :=
        { pp with
          udev := some udev
          dev := env.devt2devname s.calls pp.devT
          checkint := env.checkint }
      let r := env.pathinfo s.calls pp (diSysfs ||| diWwid ||| diBlacklist ||| pathinfoFlags)
      let s := { s.setPath a (applyPathinfo pp r) with calls := s.calls + 1 }
      if r.rc ≠ .ok then (s.discard a, false)
      else
        ({ s.setPath a { s.heap a with tick := 1 } with pathvec := s.pathvec ++ [a] }, true)

/-- The WWID of a path that is there is compared with that of the map. -/
def checkWwid (mppHasWwid : Bool) (s : Store) (a : BitVec 64) : Store × Option (BitVec 64) :=
  let pp := s.heap a
  if mppHasWwid = false then (s, some a)
  else if pp.wwid ≠ [] ∧ s.wwid ≠ pp.wwid then
    let s := orphanPath s a
    ({ s.setPath a { s.heap a with tick := 1 } with mustReload := true }, none)
  else if pp.wwid = [] then (s.setPath a { pp with wwid := s.wwid }, some a)
  else (s, some a)

/-- One turn of the loop over the paths of a group. -/
def visitPath (mppHasWwid : Bool) (s : Store) (a : BitVec 64) : Store × Option (BitVec 64) :=
  let pp := s.heap a
  if pp.mpp ≠ none ∧ pp.mpp ≠ some mpp then ({ s with mustReload := true }, none)
  else
    let r := probePath env pathinfoFlags (s.setPath a { pp with mpp := some mpp }) a
    if r.2 then checkWwid mppHasWwid r.1 a else (r.1, none)

/-- One turn of the loop over the groups. -/
def visitGroup (mppHasWwid : Bool) (s : Store) (pgp : PgObj) : Store × Option PgObj :=
  match pgp.paths with
  | none => ({ s with mustReload := true }, none)
  | some paths =>
    let r := foreachSlot (visitPath env pathinfoFlags mpp mppHasWwid) 0 paths s
    if r.2 ≠ [] then (r.1, some { pgp with paths := some r.2 })
    else ({ r.1 with mustReload := true }, none)

/-- `update_pathvec_from_dm` for the map at `mpp`: what it leaves, and whether the map must be
reloaded. -/
def updatePathvecFromDm (pg : Option (List PgObj)) (s : Store) :
    Store × Option (List PgObj) × Bool :=
  match pg with
  | none => (s, none, false)
  | some pg =>
    let guess := guessMppWwid s.heap pg s.wwid
    let r := foreachSlot (visitGroup env pathinfoFlags mpp guess.2) 0 pg
      { s with wwid := guess.1, mustReload := false }
    (r.1, some r.2, r.1.mustReload)

end Loops

end MultipathTools.StructsVec

/-! What one turn of the loop over the paths of a group does to a path. -/
namespace MultipathTools.StructsVec

variable {env : Env} {flags : BitVec 32} {mpp : ℕ} {has : Bool} {s s' : Store} {a : BitVec 64}

/-- Apart from the object at `a`, a turn leaves the memory alone, and the WWID of the map. -/
structure Frame (a : BitVec 64) (s s' : Store) : Prop where
  heap : ∀ b ≠ a, s'.heap b = s.heap b
  wwid : s'.wwid = s.wwid

theorem Frame.rfl : Frame a s s := ⟨fun _ _ => Eq.refl _, Eq.refl _⟩

theorem Frame.trans {s'' : Store} (h : Frame a s s') (h' : Frame a s' s'') : Frame a s s'' :=
  ⟨fun b hb => (h'.heap b hb).trans (h.heap b hb), h'.wwid.trans h.wwid⟩

theorem frame_setPath (pp : PathObj) : Frame a s (s.setPath a pp) :=
  ⟨fun _ hb => Function.update_of_ne hb _ _, Eq.refl _⟩

@[simp] theorem setPath_heap (pp : PathObj) : (s.setPath a pp).heap a = pp :=
  Function.update_self _ _ _

/-- The path is there: it has a udev device, and if it had none before, it is new in the path
vector. -/
structure Present (a : BitVec 64) (s s' : Store) : Prop extends Frame a s s' where
  udev : (s'.heap a).udev ≠ none
  pathvec : s'.pathvec = if (s.heap a).udev = none then s.pathvec ++ [a] else s.pathvec
  freed : s'.freed = s.freed
  mustReload : s'.mustReload = s.mustReload

/-- The path is freed. -/
structure Freed (a : BitVec 64) (s s' : Store) : Prop extends Frame a s s' where
  udev : (s.heap a).udev = none
  pathvec : s'.pathvec = s.pathvec
  freed : s'.freed = a :: s.freed
  mustReload : s'.mustReload = true

theorem probePath_cases (env : Env) (flags : BitVec 32) (s : Store) (a : BitVec 64) :
    (∃ s', probePath env flags s a = (s', true) ∧ Present a s s' ∧
        (s'.heap a).mpp = (s.heap a).mpp) ∨
      ∃ s', probePath env flags s a = (s', false) ∧ Freed a s s' := by
  unfold probePath
  dsimp only
  by_cases hudev : (s.heap a).udev = none
  · rw [if_neg (not_not.mpr hudev)]
    rcases env.getUdevDevice s.calls (s.heap a).devT with _ | udev
    · exact Or.inr ⟨_, rfl, ⟨fun _ _ => rfl, rfl⟩, hudev, rfl, rfl, rfl⟩
    · dsimp only
      generalize env.pathinfo s.calls _ _ = r
      split_ifs with hrc
      · exact Or.inr ⟨_, rfl, ⟨(frame_setPath _).heap, rfl⟩, hudev, rfl, rfl, rfl⟩
      · refine Or.inl ⟨_, rfl, ⟨⟨?_, rfl⟩, ?_, (if_pos hudev).symm, rfl, rfl⟩, ?_⟩
        · exact ((frame_setPath _).trans (frame_setPath _)).heap
        · simp [applyPathinfo]
        · simp [applyPathinfo]
  · rw [if_pos hudev]
    split_ifs
    · refine Or.inl ⟨_, rfl, ⟨⟨(frame_setPath _).heap, rfl⟩, ?_, (if_neg hudev).symm, rfl, rfl⟩, ?_⟩
      · simpa [applyPathinfo] using hudev
      · simp [applyPathinfo]
    · exact Or.inl ⟨s, rfl, ⟨.rfl, hudev, (if_neg hudev).symm, rfl, rfl⟩, rfl⟩

/-- The path stays in its group, with the WWID of the map if there is one. -/
structure Kept (mpp : ℕ) (has : Bool) (a : BitVec 64) (s s' : Store) : Prop
    extends Present a s s' where
  owner : (s'.heap a).mpp = some mpp
  same : has = true → (s'.heap a).wwid = s'.wwid

/-- The path leaves its group, for it has another WWID than the map. -/
structure Orphaned (a : BitVec 64) (s s' : Store) : Prop extends Frame a s s' where
  pathvec : s'.pathvec = if (s.heap a).udev = none then s.pathvec ++ [a] else s.pathvec
  freed : s'.freed = s.freed
  mustReload : s'.mustReload = true

theorem checkWwid_cases {s₁ : Store} (h : Present a s s₁) (hmpp : (s₁.heap a).mpp = some mpp) :
    (∃ s', checkWwid has s₁ a = (s', some a) ∧ Kept mpp has a s s') ∨
      ∃ s', checkWwid has s₁ a = (s', none) ∧ Orphaned a s s' := by
  unfold checkWwid
  dsimp only
  split_ifs with hhas hother hempty
  · exact Or.inl ⟨_, rfl, h, hmpp, fun hc => absurd (hhas.symm.trans hc) Bool.false_ne_true⟩
  · refine Or.inr ⟨_, rfl, ⟨?_, h.wwid⟩, h.pathvec, h.freed, rfl⟩
    exact (h.toFrame.trans ((frame_setPath _).trans (frame_setPath _))).heap
  · refine Or.inl ⟨_, rfl, ⟨⟨(h.toFrame.trans (frame_setPath _)).heap, h.wwid⟩, ?_, h.pathvec,
      h.freed, h.mustReload⟩, ?_, fun _ => ?_⟩
    · rw [setPath_heap]
      exact h.udev
    · rw [setPath_heap]
      exact hmpp
    · rw [setPath_heap]
      rfl
  · refine Or.inl ⟨_, rfl, h, hmpp, fun _ => ?_⟩
    by_contra hne
    exact hother ⟨hempty, fun heq => hne heq.symm⟩

/-- What becomes of a path. -/
inductive Visited (mpp : ℕ) (has : Bool) (a : BitVec 64) (s : Store) :
    Store × Option (BitVec 64) → Prop
  | foreign {m : ℕ} (hm : m ≠ mpp) (howner : (s.heap a).mpp = some m) :
      Visited mpp has a s ({ s with mustReload := true }, none)
  | freed {s' : Store} (howner : ∀ m ≠ mpp, (s.heap a).mpp ≠ some m) (h : Freed a s s') :
      Visited mpp has a s (s', none)
  | orphaned {s' : Store} (howner : ∀ m ≠ mpp, (s.heap a).mpp ≠ some m) (h : Orphaned a s s') :
      Visited mpp has a s (s', none)
  | kept {s' : Store} (howner : ∀ m ≠ mpp, (s.heap a).mpp ≠ some m) (h : Kept mpp has a s s') :
      Visited mpp has a s (s', some a)

/-- The owner of a path does not matter for what is found about it. -/
theorem Present.of_setPath {m : Option ℕ}
    (h : Present a (s.setPath a { s.heap a with mpp := m }) s') : Present a s s' := by
  have hpathvec := h.pathvec
  rw [setPath_heap] at hpathvec
  exact ⟨(frame_setPath _).trans h.toFrame, h.udev, hpathvec, h.freed, h.mustReload⟩

theorem Freed.of_setPath {m : Option ℕ}
    (h : Freed a (s.setPath a { s.heap a with mpp := m }) s') : Freed a s s' := by
  have hudev := h.udev
  rw [setPath_heap] at hudev
  exact ⟨(frame_setPath _).trans h.toFrame, hudev, h.pathvec, h.freed, h.mustReload⟩

theorem visitPath_cases (env : Env) (flags : BitVec 32) (mpp : ℕ) (has : Bool) (s : Store)
    (a : BitVec 64) : Visited mpp has a s (visitPath env flags mpp has s a) := by
  unfold visitPath
  dsimp only
  split_ifs with hforeign hpresent
  · obtain ⟨m, hm⟩ := Option.ne_none_iff_exists'.mp hforeign.1
    refine .foreign (fun heq => hforeign.2 ?_) hm
    rw [hm, heq]
  all_goals
    have howner : ∀ m ≠ mpp, (s.heap a).mpp ≠ some m := by
      intro m hm hown
      refine hforeign ⟨hown ▸ Option.some_ne_none m, fun heq => hm ?_⟩
      exact Option.some.inj (hown.symm.trans heq)
    have hprobe := probePath_cases env flags (s.setPath a { s.heap a with mpp := some mpp }) a
  · rcases hprobe with ⟨s', hs, hfound, hmpp⟩ | ⟨s', hs, -⟩
    · rw [setPath_heap] at hmpp
      rw [hs]
      rcases @checkWwid_cases mpp has s a s' hfound.of_setPath hmpp with
        ⟨s'', hc, hkept⟩ | ⟨s'', hc, horphaned⟩
      · rw [hc]
        exact .kept howner hkept
      · rw [hc]
        exact .orphaned howner horphaned
    · rw [hs] at hpresent
      cases hpresent
  · rcases hprobe with ⟨s', hs, -⟩ | ⟨s', hs, hfreed⟩
    · rw [hs] at hpresent
      exact absurd rfl hpresent
    · rw [hs]
      exact .freed howner hfreed.of_setPath

end MultipathTools.StructsVec
