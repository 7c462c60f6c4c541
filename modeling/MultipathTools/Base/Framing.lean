import Mathlib.Data.List.Infix

/-! Frames on a byte stream: a decoder that takes one frame off the front of what has
arrived. What is decoded from a part of the stream stays the same when more arrives. -/
namespace MultipathTools

variable {α β γ : Type*}

/-- At most `n` frames, up to the first that is not complete. -/
def decodeAll (decode : List β → Option (γ × List β)) : ℕ → List β → List γ × List β
  | 0, bytes => ([], bytes)
  | n + 1, bytes =>
    match decode bytes with
    | none => ([], bytes)
    | some (frame, rest) => (frame :: (decodeAll decode n rest).1, (decodeAll decode n rest).2)

/-- A decoder of self-delimiting frames: more bytes behind a frame do not change it, and
from nothing no frame is decoded. -/
structure Delimits (decode : List β → Option (γ × List β)) : Prop where
  append : ∀ {bytes rest frame} more, decode bytes = some (frame, rest) →
    decode (bytes ++ more) = some (frame, rest ++ more)
  nil : decode [] = none

/-- What `encode` writes is decoded as `view`, whatever follows. -/
def Decodes (decode : List β → Option (γ × List β)) (encode : α → List β) (view : α → γ)
    (a : α) : Prop :=
  ∀ rest, decode (encode a ++ rest) = some (view a, rest)

variable {decode : List β → Option (γ × List β)} {encode : α → List β} {view : α → γ}

theorem decodeAll_cons {bytes rest : List β} {frame : γ} (h : decode bytes = some (frame, rest))
    (n : ℕ) : decodeAll decode (n + 1) bytes =
      (frame :: (decodeAll decode n rest).1, (decodeAll decode n rest).2) := by
  rw [decodeAll, h]

theorem decodeAll_of_none {bytes : List β} (h : decode bytes = none) (n : ℕ) :
    decodeAll decode n bytes = ([], bytes) := by
  cases n with
  | zero => rfl
  | succ n => rw [decodeAll, h]

/-- From a part of the stream only the first frames are decoded, in order. -/
theorem decodeAll_of_isPrefix (hd : Delimits decode) {frames : List α}
    (h : ∀ a ∈ frames, Decodes decode encode view a) {bytes : List β}
    (hp : bytes <+: frames.flatMap encode) (n : ℕ) :
    (decodeAll decode n bytes).1 <+: frames.map view := by
  induction frames generalizing bytes n with
  | nil =>
    rw [List.prefix_nil.mp hp, decodeAll_of_none hd.nil]
    exact List.prefix_rfl
  | cons a frames ih =>
    cases n with
    | zero => exact List.nil_prefix
    | succ n =>
      cases hb : decode bytes with
      | none =>
        rw [decodeAll_of_none hb]
        exact List.nil_prefix
      | some r =>
        obtain ⟨frame, rest⟩ := r
        obtain ⟨more, hmore⟩ := hp
        have hwhole := hd.append more hb
        rw [hmore, List.flatMap_cons, h a List.mem_cons_self] at hwhole
        obtain ⟨rfl, hrest⟩ := Prod.mk.inj (Option.some.inj hwhole)
        rw [decodeAll_cons hb, List.map_cons]
        apply List.cons_prefix_cons.mpr
        exact ⟨rfl, ih (fun b hb => h b (List.mem_cons_of_mem a hb)) ⟨more, hrest.symm⟩ n⟩

end MultipathTools
