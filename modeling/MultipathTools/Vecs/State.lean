import MultipathTools.Base.Hoare
import MultipathTools.StructsVec.UpdatePathvec

/-! Which path belongs to which map: the operations of `structs_vec.c` on `struct vectors`. Paths and
maps are told by the numbers of their objects in memory. What has been freed must not be used. -/
namespace MultipathTools.Vecs
open StructsVec (PathinfoRc)

/-- A device number as it is found in sysfs or in a table. -/
abbrev Devt := { d : CStr // d ≠ [] }

/-- The fields of `struct path` that decide about its owner. `udev` tells whether there is a udev
device. -/
structure OwnedPath where
  dev : CStr := []
  devT : CStr := []
  wwid : CStr := []
  size : ℕ := 0
  mpp : Option ℕ := none
  initialized : InitState := .new
  udev : Bool := false
  deriving DecidableEq, Repr

/-- The fields of `struct multipath` that decide about its paths. -/
structure OwnedMap where
  aliasName : CStr := []
  wwid : CStr := []
  size : ℕ := 0
  paths : List ℕ := []
  pg : Option (List (List ℕ)) := none
  waitForUdev : ℕ := 0
  deriving DecidableEq, Repr

/-- `struct vectors`, with the objects in memory; a number from `nextPath` on has not been given to a
path yet. `calls` counts what has been asked of the world outside. -/
structure Vectors where
  path : ℕ → Option OwnedPath := fun _ => none
  map : ℕ → Option OwnedMap := fun _ => none
  pathvec : List ℕ := []
  mpvec : List ℕ := []
  nextPath : ℕ := 0
  calls : ℕ := 0

namespace Vectors

variable (s : Vectors)

def setPath (p : ℕ) (pp : OwnedPath) : Vectors :=
  { s with path := Function.update s.path p (some pp) }

def dropPath (p : ℕ) : Vectors := { s with path := Function.update s.path p none }

def setMap (m : ℕ) (mpp : OwnedMap) : Vectors :=
  { s with map := Function.update s.map m (some mpp) }

def dropMap (m : ℕ) : Vectors := { s with map := Function.update s.map m none }

end Vectors

/-- Where an object is used that has been freed. -/
inductive Misuse where
  /-- An object that a vector, a group or the owner of a path tells. -/
  | vector
  /-- `free_multipath`: a path of a group. -/
  | freedGroup
  deriving DecidableEq, Repr

/-- What a call of `pathinfo` finds: whether the device is hidden, belongs to somebody else or is
excluded by its name; whether it is missing in sysfs, or skipped (`sysfsFails`), with or without its
number and size (`sysfsRead`); whether it is excluded by what is there; whether it cannot be used; and
its WWID. -/
structure PathinfoSeen where
  hidden : Bool := false
  sysfsFails : Option Bool := none
  sysfsRead : Bool := true
  devT : Devt
  size : ℕ
  filtered : Bool := false
  blank : Bool := false
  wwid : CStr := []
  busUndef : Bool := false
  wwidFiltered : Bool := false

/-- What `dm_get_map` gives: the size and the device numbers of the path groups. A table that
`disassemble_map` cannot read ends early. -/
inductive TableSeen where
  | notFound | error
  | table (size : ℕ) (pgs : List (List Devt)) (readable : Bool)

inductive DmpRc where
  | ok | error | notFound
  deriving DecidableEq, Repr

/-- What `setup_map` does: it gives up before it touches the groups, or while it makes them, or puts
the paths into groups, of which a table can be assembled or not. -/
inductive SetupSeen where
  | unready | ungrouped
  | grouped (pgs : List (List ℕ)) (assembled : Bool)

inductive DomapRc where
  | fail | ok | exist | retry | dry
  deriving DecidableEq, Repr

/-- What is said from outside; the first argument is the number of the call. `group_paths` puts
nothing but the paths of the map into its groups. -/
structure Env where
  yes : ℕ → Bool
  pathinfo : ℕ → PathinfoSeen
  udevDevice : ℕ → Option CStr
  sysfsDev : ℕ → Option Devt
  table : ℕ → TableSeen
  status : ℕ → DmpRc
  setup : ℕ → List ℕ → SetupSeen
  domap : ℕ → DomapRc
  setup_mem : ∀ n paths pgs assembled, setup n paths = .grouped pgs assembled →
    ∀ p ∈ pgs.flatten, p ∈ paths

/-- Flags of `pathinfo`. -/
structure DiMask where
  sysfs : Bool := false
  wwid : Bool := false
  blacklist : Bool := false
  noio : Bool := false
  all : Bool := false

/-- `pathinfo` behind the access to the device. -/
def readWwid (seen : PathinfoSeen) (mask : DiMask) (pp : OwnedPath) : OwnedPath × PathinfoRc :=
  let asked := mask.wwid && pp.wwid = []
  let pp := if asked then { pp with wwid := seen.wwid } else pp
  if asked ∧ seen.wwid = [] then
    if seen.busUndef then (pp, .skipped)
    else (if pp.initialized = .failed then pp else { pp with initialized := .missingUdev }, .ok)
  else if mask.blacklist ∧ mask.wwid ∧ seen.wwidFiltered then (pp, .skipped)
  else (if mask.all then { pp with initialized := .ok } else pp, .ok)

/-- `pathinfo`, as far as it decides about the owner of a path. -/
def pathinfo (seen : PathinfoSeen) (mask : DiMask) (pp : OwnedPath) : OwnedPath × PathinfoRc :=
  if pp.initialized = .removed then (pp, .failed)
  else if seen.hidden then (pp, .skipped)
  else
    let sysfs := mask.sysfs || pp.devT = []
    let pp := if sysfs ∧ seen.sysfsRead then { pp with devT := seen.devT, size := seen.size } else pp
    if sysfs ∧ seen.sysfsFails.isSome then
      (pp, if seen.sysfsFails = some true then .skipped else .failed)
    else if sysfs ∧ mask.blacklist ∧ seen.filtered then (pp, .skipped)
    else if seen.blank then
      (if pp.initialized = .new ∨ pp.initialized = .failed then { pp with wwid := [] } else pp, .ok)
    else if mask.noio then (pp, .ok)
    else readWwid seen mask pp

abbrev VecsM := Prog Misuse Vectors

section Memory

def ask {β : Type} (f : ℕ → β) : VecsM β := do
  let s ← get
  modify fun s => { s with calls := s.calls + 1 }
  pure (f s.calls)

/-- A path is used. -/
def load (e : Misuse) (p : ℕ) : VecsM OwnedPath := do
  let s ← get
  orThrow e (s.path p)

def write (p : ℕ) (pp : OwnedPath) : VecsM PUnit :=
  modify (Vectors.setPath · p pp)

def freePath (e : Misuse) (p : ℕ) : VecsM PUnit := do
  let _ ← load e p
  modify (Vectors.dropPath · p)

def allocPath (pp : OwnedPath) : VecsM ℕ := do
  let s ← get
  modify fun s => { s.setPath s.nextPath pp with nextPath := s.nextPath + 1 }
  pure s.nextPath

def loadMap (m : ℕ) : VecsM OwnedMap := do
  let s ← get
  orThrow .vector (s.map m)

/-- The map of a path is used, if it has one. -/
def useOwner (mpp : Option ℕ) : VecsM PUnit :=
  match mpp with
  | some m => do
    let _ ← loadMap m
    pure ⟨⟩
  | none => pure ⟨⟩

def writeMap (m : ℕ) (mpp : OwnedMap) : VecsM PUnit :=
  modify (Vectors.setMap · m mpp)

def setPathvec (pathvec : List ℕ) : VecsM PUnit := modify fun s => { s with pathvec }

def setMpvec (mpvec : List ℕ) : VecsM PUnit := modify fun s => { s with mpvec }

end Memory

section Lookup

def findPathByDevt (v : List ℕ) (devT : CStr) : VecsM (Option ℕ) :=
  v.findM? fun p => do
    let pp ← load .vector p
    pure (pp.devT = devT)

def findPathByDev (dev : CStr) : VecsM (Option ℕ) := do
  let s ← get
  s.pathvec.findM? fun p => do
    let pp ← load .vector p
    pure (pp.dev = dev)

def findMpByAlias (aliasName : CStr) : VecsM (Option ℕ) := do
  let s ← get
  s.mpvec.findM? fun m => do
    let mpp ← loadMap m
    pure (mpp.aliasName = aliasName)

end Lookup

section Members
variable (env : Env) (m : ℕ)

/-- `store_path`, unless it fails. -/
def storePath (v : List ℕ) (p : ℕ) (pp : OwnedPath) : Option (List ℕ) :=
  if pp.devT = [] ∧ pp.dev = [] then none else some (v ++ [p])

/-- One turn of `update_mpp_paths`; a failure is told. -/
def addMember (p : ℕ) : VecsM (Option PUnit) := do
  let pp ← load .vector p
  let mpp ← loadMap m
  let found ← findPathByDevt mpp.paths pp.devT
  if found.isSome then pure none
  else
    let s ← get
    let known ← findPathByDevt s.pathvec pp.devT
    if known.isSome ∧ pp.initialized ≠ .removed then
      match storePath mpp.paths p pp with
      | some paths =>
        writeMap m { mpp with paths }
        pure none
      | none => pure (some ⟨⟩)
    else pure none

/-- `update_mpp_paths` -/
def updateMppPaths : VecsM Bool := do
  let mpp ← loadMap m
  match mpp.pg with
  | none => pure false
  | some pg =>
    let failures ← keepM (addMember m) pg.flatten
    pure (failures ≠ [])

/-- One turn of `adopt_paths`, which may be the last. -/
def adoptPath (p : ℕ) : VecsM Bool := do
  let pp ← load .vector p
  let mpp ← loadMap m
  if mpp.wwid ≠ pp.wwid then pure false
  else if pp.size ≠ 0 ∧ mpp.size ≠ 0 ∧ pp.size ≠ mpp.size then pure false
  else if pp.initialized = .removed then pure false
  else
    let seen ← ask env.pathinfo
    let (pp, rc) := pathinfo seen {} pp
    write p pp
    if rc ≠ .ok then pure false
    else
      let found ← findPathByDevt mpp.paths pp.devT
      if found.isSome then
        write p { pp with mpp := some m }
        pure false
      else
        match storePath mpp.paths p pp with
        | some paths =>
          writeMap m { mpp with paths }
          write p { pp with mpp := some m }
          pure false
        | none => pure true

/-- `adopt_paths` -/
def adoptPaths : VecsM Bool := do
  let failed ← updateMppPaths m
  if failed then pure true
  else
    let s ← get
    s.pathvec.anyM (adoptPath env m)

/-- `orphan_path` -/
def orphanPath (e : Misuse) (p : ℕ) : VecsM PUnit := do
  let pp ← load e p
  useOwner pp.mpp
  write p { pp with mpp := none }

/-- One turn of `orphan_paths`. -/
def orphanOwn (p : ℕ) : VecsM (Option ℕ) := do
  let pp ← load .vector p
  if pp.mpp = some m then
    if pp.initialized = .removed then
      freePath .vector p
      pure none
    else
      orphanPath .vector p
      pure (some p)
  else pure (some p)

/-- `orphan_paths` -/
def orphanPaths : VecsM PUnit := do
  let _ ← loadMap m
  let s ← get
  let pathvec ← keepM (orphanOwn m) s.pathvec
  setPathvec pathvec

/-- `set_path_removed` -/
def setPathRemoved (p : ℕ) : VecsM PUnit := do
  let pp ← load .vector p
  orphanPath .vector p
  match pp.mpp with
  | none => pure ⟨⟩
  | some m => write p { pp with mpp := some m, initialized := .removed }

/-- A path of a group is told that the map is gone. -/
def forgetMap (p : ℕ) : VecsM PUnit := do
  let pp ← load .freedGroup p
  if pp.mpp = some m then write p { pp with mpp := none } else pure ⟨⟩

/-- `free_multipath` -/
def freeMultipath : VecsM PUnit := do
  let mpp ← loadMap m
  (mpp.pg.getD []).flatten.forM (forgetMap m)
  modify (Vectors.dropMap · m)

/-- `remove_map` -/
def removeMap : VecsM PUnit := do
  orphanPaths m
  let s ← get
  setMpvec (s.mpvec.erase m)
  freeMultipath m

/-- One turn of `verify_paths`. -/
def verifyPath (p : ℕ) : VecsM (Option ℕ) := do
  let pp ← load .vector p
  let seen ← ask env.sysfsDev
  match if pp.udev then seen else none with
  | some devT =>
    write p { pp with devT := devT.1 }
    pure (some p)
  | none =>
    setPathRemoved p
    pure none

/-- `verify_paths` -/
def verifyPaths : VecsM PUnit := do
  let mpp ← loadMap m
  let paths ← keepM (verifyPath env) mpp.paths
  let mpp ← loadMap m
  writeMap m { mpp with paths }

end Members

section Tables
variable (env : Env) (m : ℕ)

/-- `disassemble_map` looks up a device of the table, or has a path for it. -/
def disassemblePath (devT : Devt) : VecsM (Option ℕ) := do
  let s ← get
  let found ← findPathByDevt s.pathvec devT
  match found with
  | some p => pure (some p)
  | none =>
    let p ← allocPath { devT := devT.1 }
    pure (some p)

def disassembleMap (pgs : List (List Devt)) : VecsM (List (List ℕ)) :=
  keepM (fun pg => do
    let paths ← keepM disassemblePath pg
    pure (some paths)) pgs

/-- `update_pathvec_from_dm`, for a path that is not in the path vector; it tells whether the path is
there now. -/
def discoverPath (p : ℕ) : VecsM Bool := do
  let pp ← load .vector p
  let found ← ask env.udevDevice
  match found with
  | none =>
    freePath .vector p
    pure false
  | some dev =>
    let seen ← ask env.pathinfo
    let (pp, rc) := pathinfo seen { sysfs := true, wwid := true, blacklist := true }
      { pp with udev := true, dev }
    if rc ≠ .ok then
      freePath .vector p
      pure false
    else
      write p pp
      let s ← get
      setPathvec ((storePath s.pathvec p pp).getD s.pathvec)
      pure true

/-- Then the WWIDs of the path and of its map are compared. -/
def compareWwid (p : ℕ) : VecsM (Option ℕ) := do
  let pp ← load .vector p
  let mpp ← loadMap m
  if mpp.wwid = [] then pure (some p)
  else if pp.wwid ≠ [] ∧ mpp.wwid ≠ pp.wwid then
    orphanPath .vector p
    pure none
  else if pp.wwid = [] then
    write p { pp with wwid := mpp.wwid }
    pure (some p)
  else pure (some p)

/-- One turn of the loop of `update_pathvec_from_dm` over a group. -/
def visitPath (p : ℕ) : VecsM (Option ℕ) := do
  let pp ← load .vector p
  if pp.mpp ≠ none ∧ pp.mpp ≠ some m then
    -- the map of the path is named in a message
    useOwner pp.mpp
    pure none
  else
    write p { pp with mpp := some m }
    let there ← if pp.udev then pure true else discoverPath env p
    if there then compareWwid m p else pure none

/-- `guess_mpp_wwid` -/
def guessMppWwid (pgs : List (List ℕ)) : VecsM PUnit := do
  let mpp ← loadMap m
  if mpp.wwid ≠ [] then pure ⟨⟩
  else
    let found ← pgs.flatten.findM? fun p => do
      let pp ← load .vector p
      pure (pp.initialized = .ok ∧ pp.wwid ≠ [])
    match found with
    | none => pure ⟨⟩
    | some p =>
      let pp ← load .vector p
      writeMap m { mpp with wwid := pp.wwid }

/-- `update_pathvec_from_dm`, for the groups that `disassemble_map` has found. -/
def updatePathvecFromDm (pgs : List (List ℕ)) : VecsM (List (List ℕ)) := do
  guessMppWwid m pgs
  keepM (fun pg => do
    let paths ← keepM (visitPath env m) pg
    pure (if paths = [] then none else some paths)) pgs

/-- `update_multipath_table`; the map has no groups before. -/
def updateMultipathTable : VecsM DmpRc := do
  let seen ← ask env.table
  match seen with
  | .notFound => pure .notFound
  | .error => pure .error
  | .table size pgs readable =>
    let mpp ← loadMap m
    writeMap m { mpp with size }
    let found ← disassembleMap pgs
    if readable = false then pure .error
    else if pgs = [] then pure .ok
    else
      let pg ← updatePathvecFromDm env m found
      let mpp ← loadMap m
      writeMap m { mpp with pg := some pg }
      pure .ok

/-- One turn of `check_removed_paths`. -/
def checkRemovedPath (p : ℕ) : VecsM (Option ℕ) := do
  let pp ← load .vector p
  if pp.initialized ≠ .removed ∨ pp.mpp ≠ some m then pure (some p)
  else
    let mpp ← loadMap m
    let found ← findPathByDevt (mpp.pg.getD []).flatten pp.devT
    if found.isSome then pure (some p)
    else
      freePath .vector p
      pure none

/-- One turn of the first loop of `sync_paths`. -/
def dropMember (pg : List (List ℕ)) (p : ℕ) : VecsM (Option ℕ) := do
  let _ ← load .vector p
  if p ∈ pg.flatten then pure (some p)
  else
    orphanPath .vector p
    pure none

/-- `sync_paths` -/
def syncPaths : VecsM PUnit := do
  let mpp ← loadMap m
  let paths ← keepM (dropMember (mpp.pg.getD [])) mpp.paths
  writeMap m { mpp with paths }
  let s ← get
  let pathvec ← keepM (checkRemovedPath m) s.pathvec
  setPathvec pathvec
  let _ ← updateMppPaths m
  let mpp ← loadMap m
  mpp.paths.forM fun p => do
    let pp ← load .vector p
    write p { pp with mpp := some m }

def usePath (p : ℕ) : VecsM PUnit := do
  let _ ← load .vector p
  pure ⟨⟩

/-- The paths of the groups are used. -/
def usePaths : VecsM PUnit := do
  let mpp ← loadMap m
  (mpp.pg.getD []).flatten.forM usePath

/-- `update_multipath_strings` -/
def updateMultipathStrings : VecsM DmpRc := do
  let _ ← updateMppPaths m
  let mpp ← loadMap m
  writeMap m { mpp with pg := none }
  let rc ← updateMultipathTable env m
  if rc ≠ .ok then pure rc
  else
    syncPaths m
    let rc ← ask env.status
    usePaths m
    pure rc

end Tables

end MultipathTools.Vecs
