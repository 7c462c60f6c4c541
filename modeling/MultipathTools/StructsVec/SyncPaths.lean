import MultipathTools.Dmparser.Status
import MultipathTools.StructsVec.UpdatePathvec

/-! `sync_paths` of `structs_vec.c`: after a table has been read, the member list of a map is brought
into line with its path groups. The vectors hold addresses of path objects. -/
namespace MultipathTools.StructsVec

/-- `struct path` in memory, with what `uninitialize_path` resets. A checker and a prioritizer are
told by their names, `none` if none is selected. -/
structure PathRec extends PathObj where
  dmstate : Dmparser.PState := .undef
  uidAttribute : Option CStr := none
  getuid : Option CStr := none
  checker : Option CStr := none
  prio : Option CStr := none
  fd : ℤ := -1
  deriving DecidableEq, Repr

/-- The path objects, the `hwe` of every map, the path vector, and what has been freed. -/
structure Heap where
  path : BitVec 64 → PathRec
  hwe : ℕ → Option ℕ
  pathvec : List (BitVec 64)
  freed : List (BitVec 64) := []

def uninitializePath (pp : PathRec) : PathRec :=
  { pp with
    dmstate := .undef
    uidAttribute := none
    getuid := none
    checker := none
    prio := none
    fd := if pp.fd ≥ 0 then -1 else pp.fd }

/-- `orphan_path`, for a path of any map. -/
def Heap.orphanPath (s : Heap) (a : BitVec 64) : Heap :=
  let pp := s.path a
  { s with
    hwe := match pp.mpp with
      | some m => if pp.hwe ≠ none ∧ s.hwe m = pp.hwe then Function.update s.hwe m none else s.hwe
      | none => s.hwe
    path := Function.update s.path a (uninitializePath { pp with mpp := none }) }

/-- The addresses in the path groups. -/
def slotsOfGroups (pg : Option (List PgObj)) : List (BitVec 64) :=
  (pg.getD []).flatMap fun pgp => pgp.paths.getD []

section Sync

variable (mpp : ℕ) (pg : Option (List PgObj))

def Heap.findPathByDevt (s : Heap) (pathvec : List (BitVec 64)) (devT : CStr) :
    Option (BitVec 64) :=
  pathvec.find? fun a => (s.path a).devT = devT

/-- The groups are searched one after the other. -/
def Heap.findDevtInPathgroups (s : Heap) (devT : CStr) : Option (BitVec 64) :=
  (pg.getD []).findSome? fun pgp => s.findPathByDevt (pgp.paths.getD []) devT

/-- `find_slot(v, a) != -1` -/
def findSlot (v : List (BitVec 64)) (a : BitVec 64) : Bool := v.any (· = a)

/-- A member that is in no path group is dropped. -/
def dropMember (s : Heap) (a : BitVec 64) : Heap × Option (BitVec 64) :=
  if (pg.getD []).any fun pgp => findSlot (pgp.paths.getD []) a then (s, some a)
  else
    let s := if s.hwe mpp = (s.path a).hwe then { s with hwe := Function.update s.hwe mpp none } else s
    (s.orphanPath a, none)

/-- A removed path of the map that is in no path group is freed. -/
def checkRemovedPath (s : Heap) (a : BitVec 64) : Heap × Option (BitVec 64) :=
  let pp := s.path a
  if pp.initialized ≠ .removed ∨ pp.mpp ≠ some mpp then (s, some a)
  else if s.findDevtInPathgroups pg pp.devT = none then ({ s with freed := a :: s.freed }, none)
  else (s, some a)

def checkRemovedPaths (s : Heap) : Heap :=
  let r := foreachSlot (checkRemovedPath mpp pg) 0 s.pathvec s
  { r.1 with pathvec := r.2 }

/-- `store_path`: the vector, unless the path has neither a number nor a name. -/
def Heap.storePath (s : Heap) (v : List (BitVec 64)) (a : BitVec 64) : List (BitVec 64) :=
  if (s.path a).devT = [] ∧ (s.path a).dev = [] then v else v ++ [a]

/-- One turn of `update_mpp_paths`. -/
def Heap.addMember (s : Heap) (paths : List (BitVec 64)) (a : BitVec 64) : List (BitVec 64) :=
  let pp := s.path a
  if s.findPathByDevt paths pp.devT = none then
    if s.findPathByDevt s.pathvec pp.devT ≠ none ∧ pp.initialized ≠ .removed then s.storePath paths a
    else paths
  else paths

def updateMppPaths (s : Heap) (paths : Option (List (BitVec 64))) : Option (List (BitVec 64)) :=
  match pg with
  | none => paths
  | some pg =>
    some (pg.foldl (fun paths pgp => (pgp.paths.getD []).foldl s.addMember paths) (paths.getD []))

def setOwner (s : Heap) (a : BitVec 64) : Heap :=
  { s with path := Function.update s.path a { s.path a with mpp := some mpp } }

/-- The first path that is up, then the first other one, with a hardware entry. -/
def extractHweFromPath (s : Heap) (paths : Option (List (BitVec 64))) : Heap :=
  match paths with
  | none => s
  | some paths =>
    if s.hwe mpp ≠ none then s
    else
      match paths.find? fun a => (s.path a).state = .up ∧ (s.path a).hwe ≠ none with
      | some a => { s with hwe := Function.update s.hwe mpp (s.path a).hwe }
      | none =>
        match paths.find? fun a => (s.path a).state ≠ .up ∧ (s.path a).hwe ≠ none with
        | some a => { s with hwe := Function.update s.hwe mpp (s.path a).hwe }
        | none => s

/-- `sync_paths` for the map at `mpp`: what it leaves, and the members of the map. -/
def syncPaths (paths : Option (List (BitVec 64))) (s : Heap) : Heap × Option (List (BitVec 64)) :=
  let r := foreachSlot (dropMember mpp pg) 0 (paths.getD []) s
  let s := checkRemovedPaths mpp pg r.1
  let paths := updateMppPaths pg s (paths.map fun _ => r.2)
  let s := (paths.getD []).foldl (setOwner mpp) s
  (if s.hwe mpp = none then extractHweFromPath mpp s paths else s, paths)

end Sync

end MultipathTools.StructsVec
