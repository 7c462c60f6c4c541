import MultipathTools.Base.Consecutive
import MultipathTools.Discovery.Designators

/-! VPD page 0x83 as a list of designators, and where they lie in a buffer. -/
namespace MultipathTools.Discovery

/-- A designator: protocol identifier and code set, association and type, a reserved byte,
the length, and as many bytes. -/
structure Designator where
  protocol : Byte
  kind : Byte
  reserved : Byte
  id : List Byte
  length_lt : id.length < 256

namespace Designator

def encode (x : Designator) : List Byte :=
  x.protocol :: x.kind :: x.reserved :: BitVec.ofNat 8 x.id.length :: x.id

theorem encode_length (x : Designator) : x.encode.length = x.id.length + 4 := rfl

theorem lt_encode_length (x : Designator) {i : ℕ} (hi : i < 4) : i < x.encode.length := by
  rw [encode_length]
  omega

/-- It is a designator of the logical unit. -/
def ofLun (x : Designator) : Prop := x.kind &&& 0x30 = 0

instance (x : Designator) : Decidable x.ofLun := inferInstanceAs (Decidable (_ = _))

def type (x : Designator) : ℕ := designatorType x.kind

/-- The bytes of the designator begin at `d`. -/
def At (x : Designator) (buf : List Byte) (d : ℕ) : Prop := x.encode <+: buf.drop d

section At

variable {x : Designator} {buf : List Byte} {d : ℕ}

theorem At.byte (h : x.At buf d) {i : ℕ} (hi : i < x.encode.length) :
    buf.getD (d + i) 0 = x.encode.getD i 0 := by
  obtain ⟨rest, hrest⟩ := h
  have hdrop : buf[d + i]? = (buf.drop d)[i]? := by rw [List.getElem?_drop]
  rw [List.getD_eq_getElem?_getD, List.getD_eq_getElem?_getD, hdrop, ← hrest,
    List.getElem?_append_left hi]

theorem At.inside (h : x.At buf d) : d + 4 + x.id.length ≤ buf.length := by
  have hle := h.length_le
  rw [encode_length, List.length_drop] at hle
  omega

theorem At.kind (h : x.At buf d) : buf.getD (d + 1) 0 = x.kind := h.byte (x.lt_encode_length (by decide))

theorem At.length (h : x.At buf d) : lengthAt buf d = x.id.length := by
  rw [lengthAt, h.byte (i := 3) (x.lt_encode_length (by decide))]
  show (BitVec.ofNat 8 x.id.length).toNat = x.id.length
  rw [BitVec.toNat_ofNat, Nat.mod_eq_of_lt x.length_lt]

theorem At.ofLun_iff (h : x.At buf d) : OfLun buf d ↔ x.ofLun := by
  rw [OfLun, h.kind]
  rfl

theorem At.type_eq (h : x.At buf d) : typeAt buf d = x.type := by
  rw [typeAt, h.kind]
  rfl

/-- The bytes of the identifier, with what follows it. -/
theorem At.id_drop (h : x.At buf d) : ∃ rest, buf.drop (d + 4) = x.id ++ rest := by
  obtain ⟨rest, hrest⟩ := h
  refine ⟨rest, ?_⟩
  rw [← List.drop_drop, ← hrest]
  rfl

theorem At.next (h : x.At buf d) : (designators buf).next d = d + x.encode.length := by
  have hlen := h.length
  show d + lengthAt buf d + 4 = _
  rw [hlen, encode_length, Nat.add_assoc]

end At

end Designator

/-- The positions of designators that follow each other from `d` on. -/
def positions : ℕ → List Designator → List ℕ
  | _, [] => []
  | d, x :: xs => d :: positions (d + x.encode.length) xs

/-- The designators of a page, one after the other. -/
def encodeAll (xs : List Designator) : List Byte := xs.flatMap Designator.encode

theorem positions_eq (d : ℕ) (xs : List Designator) :
    positions d xs = laidOut Designator.encode d xs := by
  induction xs generalizing d with
  | nil => rfl
  | cons x xs ih => rw [positions, laidOut, ih]

/-- Every designator of a page begins at its position. -/
theorem at_of_encodeAll {buf : List Byte} {d : ℕ} {pre post : List Designator} {x : Designator}
    (h : encodeAll (pre ++ x :: post) <+: buf.drop d) : x.At buf (d + (encodeAll pre).length) :=
  isPrefix_of_flatMap h

theorem encodeAll_cons (x : Designator) (xs : List Designator) :
    encodeAll (x :: xs) = x.encode ++ encodeAll xs := rfl

theorem encodeAll_append (xs ys : List Designator) :
    encodeAll (xs ++ ys) = encodeAll xs ++ encodeAll ys := List.flatMap_append

theorem positions_append (d : ℕ) (xs ys : List Designator) :
    positions d (xs ++ ys) = positions d xs ++ positions (d + (encodeAll xs).length) ys := by
  rw [positions_eq, positions_eq, positions_eq, laidOut_append]
  rfl

/-- What begins at a position of a page is one of its designators. -/
theorem exists_of_mem_positions {d e : ℕ} {xs : List Designator} (h : e ∈ positions d xs) :
    ∃ pre x post, xs = pre ++ x :: post ∧ e = d + (encodeAll pre).length := by
  rw [positions_eq] at h
  exact exists_of_mem_laidOut h

/-- A walk over a page goes from one designator to the next, up to its limit. -/
theorem offsets_encodeAll {buf : List Byte} {d limit : ℕ} {xs : List Designator}
    (h : encodeAll xs <+: buf.drop d) (hlimit : limit ≤ d + (encodeAll xs).length) :
    offsets (designators buf) limit d = (positions d xs).takeWhile (· < limit) := by
  rw [positions_eq]
  exact offsets_laidOut (fun _ _ hx => Designator.At.next hx) h hlimit

/-- All designators of a page begin before its end. -/
theorem lt_of_mem_positions {d e : ℕ} {xs : List Designator} (h : e ∈ positions d xs) :
    e + 4 ≤ d + (encodeAll xs).length := by
  obtain ⟨pre, x, post, rfl, rfl⟩ := exists_of_mem_positions h
  rw [encodeAll, encodeAll, List.flatMap_append, List.flatMap_cons, List.length_append,
    List.length_append, Designator.encode_length]
  omega

theorem offsets_page {buf : List Byte} {d : ℕ} {xs : List Designator}
    (h : encodeAll xs <+: buf.drop d) :
    offsets (designators buf) (d + (encodeAll xs).length) d = positions d xs := by
  rw [offsets_encodeAll h (Nat.le_refl _)]
  apply List.takeWhile_eq_self_iff.mpr
  intro e he
  have hlt := lt_of_mem_positions he
  exact decide_eq_true (by omega)

end MultipathTools.Discovery
