import Mathlib.Data.List.GetD
import MultipathTools.Base.Run
import MultipathTools.Vector.Slots

/-! Vectors as lists: what the operations on a vector do to the list of its pointers. -/
namespace MultipathTools.Vector

variable {α : Type*} {mem : Allocator α} {v : Vec α} {l : List (Option α)}

/-- A vector holds a list. -/
structure IsList (v : Vec α) (l : List (Option α)) : Prop where
  allocated : v.allocated = l.length
  slot : v.slot = if l = [] then none else some l

theorem IsList.cells (h : IsList v l) : v.cells = l := by
  rw [Vec.cells, h.slot]
  split_ifs with hl
  · rw [hl]
    rfl
  · rfl

theorem IsList.size (h : IsList v l) : vectorSize v = l.length := by
  rw [vectorSize, vectorDefaultSize, Int.tdiv_one, h.allocated]

theorem IsList.length_le (h : IsList v l) : (l.length : ℤ) ≤ intMax := h.allocated ▸ v.isInt.2

/-- Writes to the cells of a vector that is not empty. -/
theorem IsList.withCells {l' : List (Option α)} (h : IsList v l) (hl : l ≠ [])
    (hlen : l'.length = l.length) : IsList (v.withCells l') l' := by
  have hl' : l' ≠ [] := by
    rintro rfl
    exact hl (List.length_eq_zero_iff.1 hlen.symm)
  refine ⟨?_, ?_⟩
  · exact h.allocated.trans (by rw [hlen])
  · rw [Vec.withCells, h.slot, if_neg hl, if_neg hl']
    rfl

section Memory

/-- A size that an allocator grants is that of as many cells. -/
theorem slotBytes_div {n : ℤ} (hn : IsInt n) (h : slotBytes n < 2 ^ 63) :
    0 ≤ n ∧ slotBytes n / 8 = n.toNat := by
  unfold slotBytes at *
  unfold IsInt intMin intMax at hn
  omega

theorem realloc_grow (hgrant : mem.grants (slotBytes (l.length + 1)) = true)
    (hlen : (l.length + 1 : ℤ) ≤ intMax) :
    realloc mem l (slotBytes (l.length + 1)) = some (l ++ [mem.fresh]) := by
  obtain ⟨-, hdiv⟩ := slotBytes_div ⟨by unfold intMin; omega, hlen⟩ (mem.grants_lt _ hgrant)
  have hcount : slotBytes (l.length + 1) / 8 = l.length + 1 := by omega
  rw [realloc, if_pos hgrant, hcount, List.take_of_length_le (Nat.le_succ _),
    Nat.add_sub_cancel_left]
  rfl

theorem realloc_shrink {a : Option α} (hgrant : mem.grants (slotBytes l.length) = true)
    (hlen : (l.length : ℤ) ≤ intMax) : realloc mem (l ++ [a]) (slotBytes l.length) = some l := by
  obtain ⟨-, hdiv⟩ := slotBytes_div ⟨by unfold intMin; omega, hlen⟩ (mem.grants_lt _ hgrant)
  have hcount : slotBytes l.length / 8 = l.length := by omega
  have hnone : l.length - (l ++ [a]).length = 0 := by
    rw [List.length_append]
    omega
  rw [realloc, if_pos hgrant, hcount, List.take_left, hnone, List.replicate_zero, List.append_nil]

end Memory

section Functions

/-- A new slot is NULL. -/
theorem vectorAllocSlot_eq (h : IsList v l)
    (hgrant : mem.grants (slotBytes (toInt (l.length + 1))) = true) :
    ∃ v', vectorAllocSlot mem v = .done (v', true) ∧ IsList v' (l ++ [none]) := by
  -- a size of 2^63 or more is never granted, so the length has not wrapped
  have hpos := (slotBytes_div (toInt_isInt _) (mem.grants_lt _ hgrant)).1
  have hbound := h.length_le
  have hint : IsInt (l.length + 1) := by
    refine ⟨by unfold intMin; omega, ?_⟩
    by_contra hover
    have hlast : (l.length : ℤ) + 1 = 2 ^ 31 := by
      unfold intMax at *
      omega
    rw [hlast] at hpos
    exact absurd hpos (by decide)
  have hnew : toInt (v.allocated + vectorDefaultSize) = l.length + 1 := by
    rw [h.allocated, vectorDefaultSize, toInt_of_isInt hint]
  have hrealloc : realloc mem v.cells (slotBytes (toInt (v.allocated + vectorDefaultSize))) =
      some (l ++ [mem.fresh]) := by
    rw [toInt_of_isInt hint] at hgrant
    rw [h.cells, hnew, realloc_grow hgrant hint.2]
  have hone : ((l.length : ℤ) + 1 - l.length).toNat = 1 := by omega
  have hfill : fillCells none v.allocated
      (toInt (v.allocated + vectorDefaultSize) - v.allocated).toNat (l ++ [mem.fresh]) =
      .done (l ++ [none]) := by
    rw [hnew, h.allocated, hone, fillCells, setCell_append rfl]
    rfl
  unfold vectorAllocSlot
  dsimp only
  rw [hrealloc]
  dsimp only
  rw [hfill, Outcome.bind_done]
  refine ⟨_, rfl, ?_, ?_⟩
  · rw [List.length_append, List.length_singleton, Nat.cast_add, Nat.cast_one, ← hnew]
  · rw [if_neg (by simp)]

theorem vectorSetSlot_eq {a : Option α} (h : IsList v (l ++ [a])) (value : Option α) :
    ∃ v', vectorSetSlot v value = .done v' ∧ IsList v' (l ++ [value]) := by
  have hbound := h.length_le
  have hindex : (vectorSize v - 1) % 2 ^ 32 = l.length := by
    rw [h.size]
    rw [List.length_append, List.length_singleton] at hbound ⊢
    unfold intMax at hbound
    omega
  rw [vectorSetSlot, hindex, h.cells, setCell_append rfl]
  exact ⟨_, rfl, h.withCells (by simp) (by simp)⟩

/-- The slots from a position on move up. -/
theorem vectorInsertSlot_eq {as bs : List (Option α)} {slot : ℤ} (h : IsList v (as ++ bs))
    (hslot : slot = as.length)
    (hgrant : mem.grants (slotBytes (toInt ((as ++ bs).length + 1))) = true) (value : Option α) :
    ∃ v', vectorInsertSlot mem v slot value = .done (v', value) ∧ IsList v' (as ++ value :: bs) := by
  obtain ⟨v', halloc, h'⟩ := vectorAllocSlot_eq h hgrant
  have hturns : (vectorSize v' - 1 - slot).toNat = bs.length := by
    rw [h'.size, hslot]
    simp only [List.length_append, List.length_singleton]
    omega
  rw [List.append_assoc] at h'
  obtain ⟨y, hshift⟩ := @shiftUp_append _ as bs [] none slot _ hslot hturns
  rw [vectorInsertSlot, halloc, Outcome.bind_done]
  dsimp only
  rw [if_pos rfl, h'.cells, hshift, Outcome.bind_done, setCell_append hslot, Outcome.bind_done,
    cellAt_append hslot, List.append_nil]
  exact ⟨_, rfl, h'.withCells (by simp) (by simp)⟩

/-- A position below the array. -/
theorem vectorInsertSlot_outside {slot : ℤ} (h : IsList v l) (hslot : slot < 0)
    (hgrant : mem.grants (slotBytes (toInt (l.length + 1))) = true) (value : Option α) :
    vectorInsertSlot mem v slot value = .outside := by
  obtain ⟨v', halloc, h'⟩ := vectorAllocSlot_eq h hgrant
  rw [vectorInsertSlot, halloc, Outcome.bind_done]
  dsimp only
  rw [if_pos rfl, shiftUp_outside hslot]
  · rfl
  · rw [h'.size, List.length_append, List.length_singleton]
    omega

/-- The slots behind a position move down. -/
theorem vectorDelSlot_eq {as bs : List (Option α)} {a : Option α} {slot : ℤ}
    (h : IsList v (as ++ a :: bs)) (hslot : slot = as.length)
    (hgrant : as ++ bs ≠ [] → mem.grants (slotBytes (as ++ bs).length) = true) :
    ∃ v', vectorDelSlot mem v slot = .done v' ∧ IsList v' (as ++ bs) := by
  have hlength : ((as ++ a :: bs).length : ℤ) = (as ++ bs).length + 1 := by
    simp only [List.length_append, List.length_cons]
    push_cast
    omega
  have hbound := h.length_le
  have hinside : ¬ (v.allocated = 0 ∨ slot < 0 ∨ slot ≥ vectorSize v) := by
    rw [h.size, h.allocated, hslot]
    simp only [List.length_append, List.length_cons]
    omega
  have hturns : (vectorSize v - (slot + 1)).toNat = bs.length := by
    rw [h.size, hslot]
    simp only [List.length_append, List.length_cons]
    omega
  obtain ⟨y, hshift⟩ := @shiftDown_append _ as bs a slot _ hslot hturns
  have hleft : toInt (v.allocated - vectorDefaultSize) = (as ++ bs).length := by
    rw [h.allocated, hlength, vectorDefaultSize, add_sub_cancel_right]
    exact toInt_of_isInt ⟨by unfold intMin; omega, by omega⟩
  rw [vectorDelSlot, if_neg hinside, h.cells, hshift, Outcome.bind_done]
  dsimp only
  by_cases hnil : as ++ bs = []
  · rw [if_pos (by rw [hleft, hnil]; exact le_rfl)]
    exact ⟨_, rfl, by rw [hnil]; rfl, by rw [if_pos hnil]⟩
  · have hpos := List.length_pos_iff.2 hnil
    have hmem : realloc mem (as ++ (bs ++ [y])) (slotBytes (toInt (v.allocated - vectorDefaultSize))) =
        some (as ++ bs) := by
      rw [← List.append_assoc, hleft]
      exact realloc_shrink (hgrant hnil) (by omega)
    rw [if_neg (by omega), hmem]
    exact ⟨_, rfl, hleft, by rw [if_neg hnil]⟩

theorem vectorDelSlot_none {slot : ℤ} (h : IsList v l) (hslot : slot < 0 ∨ (l.length : ℤ) ≤ slot) :
    vectorDelSlot mem v slot = .done v := by
  rw [vectorDelSlot, if_pos]
  rw [h.size]
  exact .inr hslot

/-- A pointer moves up to a position, and the slots between them down. -/
theorem vectorMoveUp_eq {as bs cs : List (Option α)} {a : Option α} {src dest : ℤ}
    (h : IsList v (as ++ (bs ++ a :: cs))) (hdest : dest = as.length)
    (hsrc : src = (as ++ bs).length) :
    ∃ v', vectorMoveUp v src dest = .done (v', 0) ∧ IsList v' (as ++ a :: (bs ++ cs)) := by
  by_cases heq : dest = src
  · have hnil : bs = [] := by
      rw [hdest, hsrc, List.length_append] at heq
      exact List.length_eq_zero_iff.1 (by omega)
    subst hnil
    exact ⟨v, by rw [vectorMoveUp, if_pos heq], h⟩
  have hinside : ¬ (dest > src ∨ src ≥ v.allocated) := by
    rw [h.allocated, hdest, hsrc]
    simp only [List.length_append, List.length_cons]
    omega
  have hread : cellAt (as ++ (bs ++ a :: cs)) src = .done a := by
    rw [← List.append_assoc]
    exact cellAt_append hsrc
  have hturns : (src - dest).toNat = bs.length := by
    rw [hsrc, hdest, List.length_append]
    omega
  obtain ⟨y, hshift⟩ := @shiftUp_append _ as bs cs a dest _ hdest hturns
  rw [vectorMoveUp, if_neg heq, if_neg hinside, h.cells, hread, Outcome.bind_done, hshift,
    Outcome.bind_done, setCell_append hdest]
  exact ⟨_, rfl, h.withCells (by simp) (by simp; omega)⟩

theorem vectorMoveUp_none {src dest : ℤ} (h : IsList v l)
    (hout : src ≤ dest ∨ (l.length : ℤ) ≤ src) : ∃ r, vectorMoveUp v src dest = .done (v, r) := by
  rw [vectorMoveUp]
  split_ifs with heq hnone
  · exact ⟨0, rfl⟩
  · exact ⟨-1, rfl⟩
  · rw [h.allocated] at hnone
    omega

theorem vectorMoveUp_outside {src dest : ℤ} (h : IsList v l) (hlt : dest < src)
    (hsrc : src < l.length) (hdest : dest < 0) : vectorMoveUp v src dest = .outside := by
  have hinside : ¬ (dest > src ∨ src ≥ v.allocated) := by
    rw [h.allocated]
    omega
  rw [vectorMoveUp, if_neg hlt.ne, if_neg hinside, h.cells,
    shiftUp_outside hdest (by omega)]
  by_cases hneg : src < 0
  · rw [cellAt_neg hneg]
    rfl
  · rw [cellAt, if_pos (by omega), List.getElem?_eq_getElem (by omega)]
    rfl

theorem findFrom_eq [DecidableEq α] {as bs : List (Option α)} {addr : Option α} {i : ℤ} {n : ℕ}
    (hi : i = as.length) (hn : n = bs.length) :
    findFrom (as ++ bs) addr i n =
      .done (if addr ∈ bs then ((as.length + bs.idxOf addr : ℕ) : ℤ) else -1) := by
  subst hn
  induction bs generalizing as i with
  | nil => rfl
  | cons b bs ih =>
    rw [List.length_cons, findFrom, cellAt_append hi, Outcome.bind_done]
    by_cases hb : b = addr
    · rw [if_pos hb, hb, if_pos List.mem_cons_self, List.idxOf_cons_self, hi]
      rfl
    · have hrest := @ih (as ++ [b]) (i + 1) (by simp [hi])
      rw [List.append_assoc, List.singleton_append] at hrest
      rw [if_neg hb, hrest, List.length_append, List.length_singleton, List.idxOf_cons_ne _ hb,
        Nat.succ_eq_add_one, Nat.add_right_comm as.length 1]
      simp only [List.mem_cons, Ne.symm hb, false_or, Nat.add_assoc]

theorem findSlot_eq [DecidableEq α] (h : IsList v l) (addr : Option α) :
    findSlot v addr = .done (if addr ∈ l then ((l.idxOf addr : ℕ) : ℤ) else -1) := by
  have hcount : (vectorSize v).toNat = l.length := by
    rw [h.size, Int.toNat_natCast]
  have hfind := @findFrom_eq α _ [] l addr 0 l.length rfl rfl
  rw [List.nil_append, List.length_nil, Nat.zero_add] at hfind
  rw [findSlot, h.cells, hcount, hfind]

/-- A pointer that is not there yet goes to the end. -/
theorem vectorFindOrAddSlot_eq [DecidableEq α] (h : IsList v l) (value : Option α)
    (hgrant : value ∉ l → mem.grants (slotBytes (toInt (l.length + 1))) = true) :
    ∃ v', vectorFindOrAddSlot mem v value = .done (v', ((l.idxOf value : ℕ) : ℤ)) ∧
      IsList v' (if value ∈ l then l else l ++ [value]) := by
  rw [vectorFindOrAddSlot, findSlot_eq h, Outcome.bind_done]
  by_cases hmem : value ∈ l
  · rw [if_pos hmem, if_pos hmem, if_pos (Int.natCast_nonneg _)]
    exact ⟨v, rfl, h⟩
  · obtain ⟨v₁, halloc, h₁⟩ := vectorAllocSlot_eq h (hgrant hmem)
    obtain ⟨v₂, hset, h₂⟩ := vectorSetSlot_eq h₁ value
    rw [if_neg hmem, if_neg hmem, if_neg (by decide), halloc, Outcome.bind_done]
    dsimp only
    rw [if_pos rfl, hset, Outcome.bind_done, h₂.size, List.idxOf_of_notMem hmem, List.length_append,
      List.length_singleton, Nat.cast_add, Nat.cast_one, add_sub_cancel_right]
    exact ⟨v₂, rfl, h₂⟩

end Functions

section Operations

variable [DecidableEq α]

/-- What an operation is to do to the list. -/
def Op.apply (l : List (Option α)) : Op α → List (Option α)
  | .append value => l ++ [value]
  | .insert slot value => l.insertIdx slot.toNat value
  | .del slot => if slot < 0 then l else l.eraseIdx slot.toNat
  | .moveUp src dest =>
    if dest < src ∧ src < l.length then
      (l.eraseIdx src.toNat).insertIdx dest.toNat (l.getD src.toNat none)
    else l
  | .findOrAdd value => if value ∈ l then l else l ++ [value]

/-- The size that an operation asks `realloc` for. -/
def Op.request (l : List (Option α)) : Op α → Option ℕ
  | .append _ => some (slotBytes (toInt (l.length + 1)))
  | .insert _ _ => some (slotBytes (toInt (l.length + 1)))
  | .del slot =>
    if 0 ≤ slot ∧ slot < l.length ∧ 1 < l.length then some (slotBytes (l.length - 1)) else none
  | .moveUp _ _ => none
  | .findOrAdd value => if value ∈ l then none else some (slotBytes (toInt (l.length + 1)))

/-- A position to insert at is at most the length. -/
def Op.Positioned (l : List (Option α)) : Op α → Prop
  | .insert slot _ => slot ≤ l.length
  | _ => True

/-- An operation at a position up to the length, without allocation failure. -/
def Op.Admitted (l : List (Option α)) (mem : Allocator α) (op : Op α) : Prop :=
  op.Positioned l ∧ ∀ size ∈ op.request l, mem.grants size = true

/-- An operation does not ask for a position below the array. -/
def Op.Inside (l : List (Option α)) : Op α → Prop
  | .insert slot _ => 0 ≤ slot
  | .moveUp src dest => dest < src → src < l.length → 0 ≤ dest
  | _ => True

theorem step_insert {slot : ℤ} {value : Option α} (h : IsList v l)
    (hop : (Op.insert slot value).Admitted l mem) (hslot : 0 ≤ slot) :
    ∃ v', step v mem (.insert slot value) = .done v' ∧ IsList v' ((Op.insert slot value).apply l) := by
  obtain ⟨hle, hgrant⟩ := hop
  dsimp only [Op.Positioned] at hle
  obtain ⟨k, rfl⟩ := Int.eq_ofNat_of_zero_le hslot
  have hk : (l.take k).length = k := by
    rw [List.length_take]
    omega
  rw [← List.take_append_drop k l] at h hgrant
  obtain ⟨v', hdone, h'⟩ := vectorInsertSlot_eq h (by rw [hk]) (hgrant _ rfl) value
  have happly : (Op.insert (k : ℤ) value).apply l = l.take k ++ value :: l.drop k := by
    have hinsert := insertIdx_append (l.take k) (l.drop k) value
    rwa [List.take_append_drop, hk] at hinsert
  rw [step, hdone, happly]
  exact ⟨v', rfl, h'⟩

theorem step_del {slot : ℤ} (h : IsList v l) (hop : (Op.del slot).Admitted l mem) :
    ∃ v', step v mem (.del slot) = .done v' ∧ IsList v' ((Op.del slot).apply l) := by
  have hgrant := hop.2
  rw [step, Op.apply]
  by_cases hslot : slot < 0
  · rw [if_pos hslot, vectorDelSlot_none h (.inl hslot)]
    exact ⟨v, rfl, h⟩
  obtain ⟨k, rfl⟩ := Int.eq_ofNat_of_zero_le (not_lt.1 hslot)
  rw [if_neg hslot, Int.toNat_natCast]
  by_cases hlt : k < l.length
  · have hk : (l.take k).length = k := by
      rw [List.length_take]
      omega
    have hsplit : l.take k ++ l[k] :: l.drop (k + 1) = l := by
      rw [List.getElem_cons_drop, List.take_append_drop]
    have herase := eraseIdx_append (l.take k) (l.drop (k + 1)) l[k]
    rw [hsplit, hk] at herase
    rw [herase]
    rw [← hsplit] at h
    refine vectorDelSlot_eq h (by rw [hk]) fun hne => hgrant _ ?_
    have hlength : ((l.take k ++ l.drop (k + 1)).length : ℤ) = l.length - 1 := by
      rw [List.length_append, List.length_take, List.length_drop]
      omega
    have hpos := List.length_pos_iff.2 hne
    rw [Op.request, if_pos (by omega), hlength]
    rfl
  · rw [List.eraseIdx_of_length_le (not_lt.1 hlt), vectorDelSlot_none h (.inr (by omega))]
    exact ⟨v, rfl, h⟩

theorem step_moveUp {src dest : ℤ} (h : IsList v l) (hin : (Op.moveUp src dest).Inside l) :
    ∃ v', step v mem (.moveUp src dest) = .done v' ∧ IsList v' ((Op.moveUp src dest).apply l) := by
  rw [step, Op.apply]
  by_cases hmove : dest < src ∧ src < l.length
  · have hdest : 0 ≤ dest := hin hmove.1 hmove.2
    obtain ⟨k, rfl⟩ := Int.eq_ofNat_of_zero_le hdest
    obtain ⟨j, rfl⟩ := Int.eq_ofNat_of_zero_le (hdest.trans hmove.1.le)
    obtain ⟨hlt, hsrc⟩ : k < j ∧ j < l.length := by omega
    have hk : ((l.take j).take k).length = k := by
      rw [List.length_take, List.length_take]
      omega
    have hj : ((l.take j).take k ++ (l.take j).drop k).length = j := by
      rw [List.take_append_drop, List.length_take]
      omega
    have hsplit : (l.take j).take k ++ ((l.take j).drop k ++ l[j] :: l.drop (j + 1)) = l := by
      rw [← List.append_assoc, List.take_append_drop, List.getElem_cons_drop, List.take_append_drop]
    have herase : l.eraseIdx j =
        (l.take j).take k ++ ((l.take j).drop k ++ l.drop (j + 1)) := by
      have herase := eraseIdx_append ((l.take j).take k ++ (l.take j).drop k) (l.drop (j + 1)) l[j]
      rwa [List.append_assoc, hsplit, hj, List.append_assoc] at herase
    have hinsert := insertIdx_append ((l.take j).take k) ((l.take j).drop k ++ l.drop (j + 1)) l[j]
    rw [hk] at hinsert
    rw [← hsplit] at h
    obtain ⟨v', hdone, h'⟩ := @vectorMoveUp_eq _ _ _ _ _ _ j k h (by rw [hk]) (by rw [hj])
    rw [hdone, if_pos hmove, Int.toNat_natCast, Int.toNat_natCast, List.getD_eq_getElem _ _ hsrc,
      herase, hinsert]
    exact ⟨v', rfl, h'⟩
  · obtain ⟨r, hnone⟩ := @vectorMoveUp_none _ v l src dest h (by omega)
    rw [hnone, if_neg hmove]
    exact ⟨v, rfl, h⟩

/-- One operation does to the vector what it is to do to the list. -/
theorem step_isList {op : Op α} (h : IsList v l) (hop : op.Admitted l mem) (hin : op.Inside l) :
    ∃ v', step v mem op = .done v' ∧ IsList v' (op.apply l) := by
  cases op with
  | append value =>
    obtain ⟨v₁, halloc, h₁⟩ := vectorAllocSlot_eq h (hop.2 _ rfl)
    obtain ⟨v₂, hset, h₂⟩ := vectorSetSlot_eq h₁ value
    rw [step, halloc, Outcome.bind_done]
    dsimp only
    rw [if_pos rfl]
    exact ⟨v₂, hset, h₂⟩
  | insert slot value => exact step_insert h hop hin
  | del slot => exact step_del h hop
  | moveUp src dest => exact step_moveUp h hin
  | findOrAdd value =>
    have hgrant : value ∉ l → mem.grants (slotBytes (toInt (l.length + 1))) = true := fun hmem =>
      hop.2 _ (if_neg hmem)
    obtain ⟨v', hdone, h'⟩ := vectorFindOrAddSlot_eq h value hgrant
    rw [step, hdone]
    exact ⟨v', rfl, h'⟩

/-- An operation that asks for a position below the array goes outside. -/
theorem step_outside {op : Op α} (h : IsList v l) (hop : op.Admitted l mem) (hin : ¬ op.Inside l) :
    step v mem op = .outside := by
  cases op with
  | append value => exact absurd trivial hin
  | insert slot value =>
    rw [step, vectorInsertSlot_outside h (not_le.1 hin) (hop.2 _ rfl)]
    rfl
  | del slot => exact absurd trivial hin
  | moveUp src dest =>
    simp only [Op.Inside, Classical.not_imp, not_le] at hin
    rw [step, vectorMoveUp_outside h hin.1 hin.2.1 hin.2.2]
    rfl
  | findOrAdd value => exact absurd trivial hin

/-- The list after operations one after the other. -/
def applyAll (l : List (Option α)) (ops : List (Allocator α × Op α)) : List (Option α) :=
  ops.foldl (fun l e => e.2.apply l) l

/-- What holds of each operation and the list that it is applied to. -/
def Each (P : List (Option α) → Allocator α → Op α → Prop) (l : List (Option α))
    (ops : List (Allocator α × Op α)) : Prop :=
  Along (fun l e => some (e.2.apply l)) (fun l e _ => P l e.1 e.2) l ops

variable {P : List (Option α) → Allocator α → Op α → Prop} {op : Op α}
  {ops done : List (Allocator α × Op α)}

theorem each_cons : Each P l ((mem, op) :: ops) ↔ P l mem op ∧ Each P (op.apply l) ops := by
  constructor
  · exact fun h => h _ rfl
  · rintro ⟨hop, hops⟩
    exact along_cons rfl hop hops

theorem Each.initial (h : Each P l ops) (hdone : done <+: ops) : Each P l done := by
  obtain ⟨rest, rfl⟩ := hdone
  exact (along_append.1 h).1

theorem runOps_isList (h : IsList v l) (hops : Each Op.Admitted l ops)
    (hin : Each (fun l _ op => op.Inside l) l ops) :
    ∃ v', runOps v ops = .done v' ∧ IsList v' (applyAll l ops) := by
  induction ops generalizing v l with
  | nil => exact ⟨v, rfl, h⟩
  | cons e ops ih =>
    obtain ⟨hop, hops⟩ := each_cons.1 hops
    obtain ⟨hin, hins⟩ := each_cons.1 hin
    obtain ⟨v₁, hstep, h₁⟩ := step_isList h hop hin
    obtain ⟨v₂, hrun, h₂⟩ := ih h₁ hops hins
    refine ⟨v₂, ?_, h₂⟩
    rw [runOps, hstep, Outcome.bind_done, hrun]

theorem runOps_outside (h : IsList v l) (hops : Each Op.Admitted l ops)
    (hin : ¬ Each (fun l _ op => op.Inside l) l ops) : runOps v ops = .outside := by
  induction ops generalizing v l with
  | nil => exact absurd trivial hin
  | cons e ops ih =>
    obtain ⟨hop, hops⟩ := each_cons.1 hops
    rw [each_cons, not_and_or] at hin
    by_cases hfirst : e.2.Inside l
    · obtain ⟨v₁, hstep, h₁⟩ := step_isList h hop hfirst
      rw [runOps, hstep, Outcome.bind_done]
      exact ih h₁ hops (hin.resolve_left (not_not_intro hfirst))
    · rw [runOps, step_outside h hop hfirst]
      rfl

/-- A vector is the list of its pointers in every state of a run, if and only if no operation asks for a
position below the array. -/
theorem runOps_isList_iff (h : IsList v l) (hops : Each Op.Admitted l ops) :
    (∀ done, done <+: ops → ∃ v', runOps v done = .done v' ∧ IsList v' (applyAll l done)) ↔
      Each (fun l _ op => op.Inside l) l ops := by
  constructor
  · intro hall
    by_contra hin
    obtain ⟨v', hdone, -⟩ := hall ops (List.prefix_refl ops)
    rw [runOps_outside h hops hin] at hdone
    cases hdone
  · exact fun hin done hdone => runOps_isList h (hops.initial hdone) (hin.initial hdone)

end Operations

section Sample

/-- An allocator that grants whatever there can be. -/
def ampleMem : Allocator ℕ where
  grants size := size < 2 ^ 63
  grants_lt size h := by simpa using h
  fresh := some 99

theorem ample_admitted {l : List (Option ℕ)} {op : Op ℕ} (hpos : op.Positioned l)
    (hsize : ∀ size ∈ op.request l, size < 2 ^ 63) : op.Admitted l ampleMem :=
  ⟨hpos, fun size hmem => decide_eq_true (hsize size hmem)⟩

/-- The empty vector, and operations of each kind. -/
def sampleOps : List (Allocator ℕ × Op ℕ) :=
  [.append (some 1), .insert 0 (some 2), .findOrAdd (some 3), .moveUp 2 0, .del 1, .del 5].map (ampleMem, ·)

example : applyAll [] sampleOps = [some 3, some 1] := by decide

theorem runOps_isList_iff_sample :
    (∀ done, done <+: sampleOps →
      ∃ v', runOps ({} : Vec ℕ) done = .done v' ∧ IsList v' (applyAll [] done)) ↔
      Each (fun l _ op => op.Inside l) [] sampleOps := by
  refine runOps_isList_iff ⟨rfl, rfl⟩ ?_
  unfold sampleOps
  simp only [List.map_cons, List.map_nil, each_cons]
  have hposition : (Op.insert 0 (some 2)).Positioned [some 1] := Int.natCast_nonneg 1
  refine ⟨ample_admitted trivial ?_, ample_admitted hposition ?_, ample_admitted trivial ?_,
    ample_admitted trivial ?_, ample_admitted trivial ?_, ample_admitted trivial ?_, trivial⟩ <;> decide

/-- Nothing keeps `vector_move_up` from a position below the array. -/
theorem runOps_isList_fails :
    ¬ ∀ (v : Vec ℕ) (l : List (Option ℕ)) (ops : List (Allocator ℕ × Op ℕ)), IsList v l →
      Each Op.Admitted l ops → ∃ v', runOps v ops = .done v' ∧ IsList v' (applyAll l ops) := by
  intro h
  have hlist : IsList ({ allocated := 1, slot := some [some 7] } : Vec ℕ) [some 7] := ⟨rfl, rfl⟩
  have hadmitted : Each Op.Admitted [some 7] [(ampleMem, .moveUp 0 (-1))] := by
    rw [each_cons]
    exact ⟨ample_admitted trivial (fun size hmem => by cases hmem), trivial⟩
  obtain ⟨v', hdone, -⟩ := h _ _ _ hlist hadmitted
  have hout : runOps ({ allocated := 1, slot := some [some 7] } : Vec ℕ)
      [(ampleMem, .moveUp 0 (-1))] = .outside := rfl
  rw [hout] at hdone
  cases hdone

end Sample

end MultipathTools.Vector
