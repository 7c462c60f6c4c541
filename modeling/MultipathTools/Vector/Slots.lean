import MultipathTools.Base.Numeral
import MultipathTools.Base.Shift

/-! Vectors of pointers (`vector.c`). A pointer is a value, or `none` for NULL, and has eight bytes. A
NULL `slot` has no cells. -/
namespace MultipathTools.Vector

/-- `struct _vector` -/
structure Vec (α : Type*) where
  allocated : ℤ := 0
  slot : Option (List (Option α)) := none
  isInt : IsInt allocated := by decide

/-- An allocator: the sizes for which `realloc` succeeds, and what is in new memory. There are no objects
of more than `PTRDIFF_MAX` bytes. -/
structure Allocator (α : Type*) where
  grants : ℕ → Bool
  grants_lt : ∀ size, grants size = true → size < 2 ^ 63
  fresh : Option α

variable {α : Type*}

/-- `VECTOR_DEFAULT_SIZE` -/
def vectorDefaultSize : ℤ := 1

/-- `VECTOR_SIZE` -/
def vectorSize (v : Vec α) : ℤ := v.allocated.tdiv vectorDefaultSize

/-- `sizeof (void *) * n`, for an `int` -/
def slotBytes (n : ℤ) : ℕ := (8 * n % 2 ^ 64).toNat

def Vec.cells (v : Vec α) : List (Option α) := v.slot.getD []

/-- The vector after writes to its cells. -/
def Vec.withCells (v : Vec α) (cells : List (Option α)) : Vec α :=
  { v with slot := v.slot.map fun _ => cells }

/-- `realloc` of an array of pointers. -/
def realloc (mem : Allocator α) (cells : List (Option α)) (size : ℕ) : Option (List (Option α)) :=
  if mem.grants size then
    some (cells.take (size / 8) ++ List.replicate (size / 8 - cells.length) mem.fresh)
  else none

section Functions

variable (mem : Allocator α) (v : Vec α)

/-- `vector_alloc_slot` -/
def vectorAllocSlot : Outcome (Vec α × Bool) :=
  let newAllocated := toInt (v.allocated + vectorDefaultSize)
  match realloc mem v.cells (slotBytes newAllocated) with
  | none => .done (v, false)
  | some newSlot =>
    (fillCells none v.allocated (newAllocated - v.allocated).toNat newSlot).bind fun slot =>
      .done ({ allocated := newAllocated, slot := some slot, isInt := toInt_isInt _ }, true)

/-- `vector_move_up` -/
def vectorMoveUp (src dest : ℤ) : Outcome (Vec α × ℤ) :=
  if dest = src then .done (v, 0)
  else if dest > src ∨ src ≥ v.allocated then .done (v, -1)
  else
    (cellAt v.cells src).bind fun value =>
      (shiftUp dest (src - dest).toNat v.cells).bind fun cells =>
        (setCell cells dest value).bind fun cells => .done (v.withCells cells, 0)

/-- `vector_insert_slot`: the vector, and the pointer that is returned. -/
def vectorInsertSlot (slot : ℤ) (value : Option α) : Outcome (Vec α × Option α) :=
  (vectorAllocSlot mem v).bind fun (v, ok) =>
    if ok then
      (shiftUp slot (vectorSize v - 1 - slot).toNat v.cells).bind fun cells =>
        (setCell cells slot value).bind fun cells =>
          (cellAt cells slot).bind fun p => .done (v.withCells cells, p)
    else .done (v, none)

/-- The loop of `find_slot`, for the `n` slots from `i` on. -/
def findFrom [DecidableEq α] (cells : List (Option α)) (addr : Option α) : ℤ → ℕ → Outcome ℤ
  | _, 0 => .done (-1)
  | i, n + 1 => (cellAt cells i).bind fun p => if p = addr then .done i else findFrom cells addr (i + 1) n

/-- `find_slot` -/
def findSlot [DecidableEq α] (addr : Option α) : Outcome ℤ :=
  findFrom v.cells addr 0 (vectorSize v).toNat

/-- `vector_del_slot` -/
def vectorDelSlot (slot : ℤ) : Outcome (Vec α) :=
  if v.allocated = 0 ∨ slot < 0 ∨ slot ≥ vectorSize v then .done v
  else
    (shiftDown slot (vectorSize v - (slot + 1)).toNat v.cells).bind fun cells =>
      let allocated := toInt (v.allocated - vectorDefaultSize)
      if allocated ≤ 0 then .done {}
      else
        match realloc mem cells (slotBytes allocated) with
        | none =>
          .done
            { (v.withCells cells) with
              allocated := toInt (allocated + vectorDefaultSize)
              isInt := toInt_isInt _ }
        | some newSlot =>
          .done { allocated := allocated, slot := some newSlot, isInt := toInt_isInt _ }

/-- `vector_set_slot`. The index is an `unsigned int`. -/
def vectorSetSlot (value : Option α) : Outcome (Vec α) :=
  (setCell v.cells ((vectorSize v - 1) % 2 ^ 32) value).bind fun cells => .done (v.withCells cells)

/-- `vector_find_or_add_slot` -/
def vectorFindOrAddSlot [DecidableEq α] (value : Option α) : Outcome (Vec α × ℤ) :=
  (findSlot v value).bind fun n =>
    if n ≥ 0 then .done (v, n)
    else
      (vectorAllocSlot mem v).bind fun (v, ok) =>
        if ok then (vectorSetSlot v value).bind fun v => .done (v, vectorSize v - 1)
        else .done (v, -1)

end Functions

/-- The operations on a vector. A new slot is allocated to be set. -/
inductive Op (α : Type*)
  | append (value : Option α)
  | insert (slot : ℤ) (value : Option α)
  | del (slot : ℤ)
  | moveUp (src dest : ℤ)
  | findOrAdd (value : Option α)
  deriving DecidableEq, Repr

variable [DecidableEq α]

/-- One operation, with the allocator at that time. -/
def step (v : Vec α) (mem : Allocator α) : Op α → Outcome (Vec α)
  | .append value =>
    (vectorAllocSlot mem v).bind fun (v, ok) => if ok then vectorSetSlot v value else .done v
  | .insert slot value => (vectorInsertSlot mem v slot value).bind fun r => .done r.1
  | .del slot => vectorDelSlot mem v slot
  | .moveUp src dest => (vectorMoveUp v src dest).bind fun r => .done r.1
  | .findOrAdd value => (vectorFindOrAddSlot mem v value).bind fun r => .done r.1

/-- Operations one after the other. -/
def runOps : Vec α → List (Allocator α × Op α) → Outcome (Vec α)
  | v, [] => .done v
  | v, (mem, op) :: ops => (step v mem op).bind fun v => runOps v ops

end MultipathTools.Vector
