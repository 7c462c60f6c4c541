import Mathlib.Data.List.Find
import Mathlib.Data.Nat.Bitwise
import MultipathTools.Alua.Walk
import MultipathTools.Discovery.Page83

/-! What the ALUA prioritizer finds in a well-formed page 0x83 and among well-formed port
groups. -/
namespace MultipathTools.Alua

open Records (Fits)
open Discovery (Designator encodeAll designators)

theorem fill_eq_take (n : ℕ) (resp : List Byte) :
    fill n resp = (resp ++ List.replicate n 0).take n := by
  rw [fill, List.take_append, List.take_replicate]
  congr 2
  omega

theorem fill_isPrefix {n : ℕ} {bs resp : List Byte} (h : bs <+: resp) (hn : bs.length ≤ n) :
    bs <+: fill n resp := by
  rw [fill_eq_take]
  exact List.prefix_take_iff.mpr ⟨h.trans (List.prefix_append _ _), hn⟩

/-- A number that is read within the front of a buffer is that of the front. -/
theorem beAt_of_isPrefix {bs buf : List Byte} {d n : ℕ} (h : bs <+: buf) (hd : d + n ≤ bs.length) :
    beAt buf d n = beAt bs d n := by
  obtain ⟨rest, rfl⟩ := h
  rw [beAt, beAt, List.drop_append_of_le_length (by omega), List.take_append_of_le_length]
  rw [List.length_drop]
  omega

section Page

/-- Page 0x83 with its designators. -/
def page (device : Byte) (ds : List Designator) : List Byte :=
  device :: 0x83 :: (toBe 2 (encodeAll ds).length ++ encodeAll ds)

/-- The number of a target port group. -/
def tpgOf (x : Designator) : ℕ := ofBe (x.id.drop 2)

/-- The number of the first target port group, or the error that there is none. -/
def tpgExpected (ds : List Designator) : ℤ :=
  ((ds.find? (·.type = idtypeTargetPortGroup)).map fun x => (tpgOf x : ℤ)).getD
    (-rtpgNoTpgIdentifier)

/-- The designator is taken for one of a target port group. -/
def takenForTpg (x : Designator) : Bool := (x.kind &&& 7).toNat = idtypeTargetPortGroup

/-- A designator of type 0xd that is taken for the first one of a target port group has the
right number. -/
def Unmasked (ds : List Designator) (buf : List Byte) : Prop :=
  ∀ pre x post, ds = pre ++ x :: post → (∀ y ∈ pre, y.type ≠ 0x5 ∧ y.type ≠ 0xd) →
    x.type = 0xd → 4 + (encodeAll pre).length < (encodeAll ds).length →
    (beAt buf (4 + (encodeAll pre).length + 6) 2 : ℤ) = tpgExpected ds

theorem takenForTpg_iff (x : Designator) :
    takenForTpg x = true ↔ x.type = 0x5 ∨ x.type = 0xd := by
  have h7 : (x.kind &&& 7).toNat = x.kind.toNat % 8 := by
    rw [BitVec.toNat_and]
    exact Nat.and_two_pow_sub_one_eq_mod x.kind.toNat 3
  have h15 : (x.kind &&& 0xf).toNat = x.kind.toNat % 16 := by
    rw [BitVec.toNat_and]
    exact Nat.and_two_pow_sub_one_eq_mod x.kind.toNat 4
  rw [takenForTpg, decide_eq_true_iff, Designator.type, Discovery.designatorType, h7, h15]
  show x.kind.toNat % 8 = 5 ↔ _
  omega

variable {device : Byte} {ds : List Designator} {buf full rest : List Byte} {n : ℕ}

theorem takenForTpg_eq_false {x : Designator} (h : x.type ≠ 0x5 ∧ x.type ≠ 0xd) :
    takenForTpg x = false := by
  rw [← Bool.not_eq_true, takenForTpg_iff]
  omega

theorem page_length : (page device ds).length = 4 + (encodeAll ds).length := by
  rw [page, List.length_cons, List.length_cons, List.length_append, toBe_length]
  omega

theorem page_drop : (page device ds).drop 4 = encodeAll ds := by
  rw [page]
  exact List.drop_left' (toBe_length 2 _)

theorem encodeAll_isPrefix (h : page device ds <+: full) : encodeAll ds <+: full.drop 4 := by
  have hdrop := h.drop 4
  rwa [page_drop] at hdrop

theorem page_announced (hlen : (encodeAll ds).length < 2 ^ 16) (h : page device ds <+: full) :
    beAt full 2 2 = (encodeAll ds).length := by
  rw [beAt_of_isPrefix h (by rw [page_length]; omega), beAt, page]
  show ofBe ((toBe 2 _ ++ _).take 2) = _
  rw [List.take_left' (toBe_length 2 _), ofBe_toBe]
  exact Nat.mod_eq_of_lt hlen

theorem beAt_take {d k : ℕ} (h : d + k ≤ n) : beAt (full.take n) d k = beAt full d k := by
  rw [beAt, beAt, List.drop_take, List.take_take, Nat.min_eq_left (by omega)]

theorem getD_take {i : ℕ} (h : i < n) : (full.take n).getD i 0 = full.getD i 0 := by
  rw [List.getD_eq_getElem?_getD, List.getD_eq_getElem?_getD, List.getElem?_take_of_lt h]

/-- A walk that stays in the front of some bytes finds there what it finds in all of them. -/
theorem find?_take {limit : ℕ}
    (h : ∀ e ∈ offsets (designators (full.take n)) limit 4, e + 4 ≤ (full.take n).length) :
    (offsets (designators (full.take n)) limit 4).find? (isTpg (full.take n)) =
      (offsets (designators full) limit 4).find? (isTpg full) := by
  have hin : ∀ e ∈ offsets (designators (full.take n)) limit 4, e + 4 ≤ n := by
    intro e he
    exact Nat.le_trans (h e he) (List.length_take_le _ _)
  have hoffsets : offsets (designators full) limit 4 =
      offsets (designators (full.take n)) limit 4 := by
    apply offsets_congr _ hin
    intro d hd
    show d + ((full.take n).getD (d + 3) 0).toNat + 4 = d + (full.getD (d + 3) 0).toNat + 4
    rw [getD_take (by omega)]
  rw [hoffsets]
  apply List.find?_congr
  intro e he
  have hlt := hin e he
  rw [isTpg, isTpg, getD_take (by omega)]

/-- Where the first designator is that is taken for one of a target port group. -/
theorem find?_page_eq_some_iff {e limit : ℕ} (h : encodeAll ds <+: full.drop 4)
    (hlimit : limit ≤ 4 + (encodeAll ds).length) :
    (offsets (designators full) limit 4).find? (isTpg full) = some e ↔
      ∃ pre x post, ds = pre ++ x :: post ∧ e = 4 + (encodeAll pre).length ∧ e < limit ∧
        (∀ y ∈ pre, takenForTpg y = false) ∧ takenForTpg x = true := by
  apply find?_offsets_eq_some_iff _ _ h hlimit
  · exact fun x d hx => Designator.At.next hx
  · intro x d hx
    rw [isTpg, Designator.At.kind hx]
    rfl

/-- The first designator that is taken for one of a target port group lies before the
announced length, if there is a target port group. -/
theorem exists_first_lt (hwf : ∀ x ∈ ds, x.type = 0x5 → x.id.length = 4) {x : Designator}
    (hx : x ∈ ds) (htype : x.type = 0x5) :
    ∃ pre y post, ds = pre ++ y :: post ∧ (∀ z ∈ pre, takenForTpg z = false) ∧
      takenForTpg y = true ∧ 4 + (encodeAll pre).length < (encodeAll ds).length := by
  have htaken : takenForTpg x = true := (takenForTpg_iff x).mpr (Or.inl htype)
  obtain ⟨y, hfind⟩ := Option.isSome_iff_exists.mp (List.find?_isSome.mpr ⟨x, hx, htaken⟩)
  obtain ⟨hy, pre, post, rfl, hpre⟩ := List.find?_eq_some_iff_append.mp hfind
  have hpre' : ∀ z ∈ pre, takenForTpg z = false := fun z hz => by simpa using hpre z hz
  refine ⟨pre, y, post, rfl, hpre', hy, ?_⟩
  have hlong : x.encode.length = 8 := by rw [Designator.encode_length, hwf x hx htype]
  have hle : x.encode.length ≤ (encodeAll (y :: post)).length := by
    rcases List.mem_append.mp hx with hx | hx
    · rw [hpre' x hx] at htaken
      cases htaken
    · obtain ⟨before, behind, hsplit⟩ := List.append_of_mem hx
      rw [hsplit, Discovery.encodeAll_append, Discovery.encodeAll_cons, List.length_append,
        List.length_append]
      omega
  rw [Discovery.encodeAll_append, List.length_append]
  omega

theorem tpgExpected_of_first {pre post : List Designator} {x : Designator}
    (hds : ds = pre ++ x :: post) (hpre : ∀ y ∈ pre, takenForTpg y = false)
    (hx : x.type = idtypeTargetPortGroup) : tpgExpected ds = tpgOf x := by
  have hfind : ds.find? (·.type = idtypeTargetPortGroup) = some x := by
    apply List.find?_eq_some_iff_append.mpr
    refine ⟨decide_eq_true hx, pre, post, hds, fun y hy => ?_⟩
    have hno : ¬ takenForTpg y = true := by rw [hpre y hy]; exact Bool.false_ne_true
    have htype : y.type ≠ idtypeTargetPortGroup := fun ht => hno ((takenForTpg_iff y).mpr (Or.inl ht))
    simpa using htype
  rw [tpgExpected, hfind]
  rfl

theorem tpgExpected_of_none (h : ∀ x ∈ ds, x.type ≠ idtypeTargetPortGroup) :
    tpgExpected ds = -rtpgNoTpgIdentifier := by
  have hfind : ds.find? (·.type = idtypeTargetPortGroup) = none := by
    apply List.find?_eq_none.mpr
    intro x hx
    simpa using h x hx
  rw [tpgExpected, hfind]
  rfl

/-- The number of a target port group in the page. -/
theorem tpg_value {d : ℕ} {x : Designator} (h : x.At full d) (hx : x.id.length = 4) :
    beAt full (d + 6) 2 = tpgOf x := by
  obtain ⟨rest, hrest⟩ := h.id_drop
  have hdrop : full.drop (d + 6) = x.id.drop 2 ++ rest := by
    rw [show d + 6 = d + 4 + 2 from rfl, ← List.drop_drop, hrest,
      List.drop_append_of_le_length (by omega)]
  rw [beAt, hdrop, List.take_left' (by rw [List.length_drop, hx]), tpgOf]

/-- What the first designator gives that is taken for one of a target port group is right
exactly if none of type 0xd has another number. -/
theorem firstValue_iff (hwf : ∀ x ∈ ds, x.type = 0x5 → x.id.length = 4)
    (hpage : encodeAll ds <+: full.drop 4)
    (hin : Fits (full.take n).length 4 8 (isTpg (full.take n))
      (offsets (designators (full.take n)) (encodeAll ds).length 4)) :
    (vpd83Dscrs (full.take n)).firstValue (isTpg (full.take n))
        (fun d => (beAt (full.take n) (d + 6) 2 : ℤ))
        (offsets (designators (full.take n)) (encodeAll ds).length 4) = tpgExpected ds ↔
      Unmasked ds (full.take n) := by
  have hfound (e : ℕ) := find?_page_eq_some_iff (e := e) hpage (Nat.le_add_left _ 4)
  have hvalue : ∀ e, (offsets (designators full) (encodeAll ds).length 4).find? (isTpg full) =
      some e → beAt (full.take n) (e + 6) 2 = beAt full (e + 6) 2 := by
    intro e he
    have hext := hin.2 e (by rw [find?_take hin.1]; exact he)
    exact beAt_take (Nat.le_trans (by omega) (List.length_take_le n full))
  unfold Records.firstValue
  rw [find?_take hin.1]
  cases hfirst : (offsets (designators full) (encodeAll ds).length 4).find? (isTpg full) with
  | none =>
    have hnone : ∀ pre x post, ds = pre ++ x :: post → (∀ y ∈ pre, takenForTpg y = false) →
        takenForTpg x = true → ¬ 4 + (encodeAll pre).length < (encodeAll ds).length := by
      intro pre x post hds hpre hx hlt
      have hsome := (hfound _).mpr ⟨pre, x, post, hds, rfl, hlt, hpre, hx⟩
      rw [hfirst] at hsome
      cases hsome
    apply iff_of_true
    · symm
      apply tpgExpected_of_none
      intro x hx htype
      obtain ⟨pre, y, post, hds, hpre, hy, hlt⟩ := exists_first_lt hwf hx htype
      exact hnone pre y post hds hpre hy hlt
    · intro pre x post hds hpre hx hlt
      refine absurd hlt (hnone pre x post hds (fun y hy => takenForTpg_eq_false (hpre y hy)) ?_)
      exact (takenForTpg_iff x).mpr (Or.inr hx)
  | some e =>
    obtain ⟨pre, x, post, hds, rfl, hlt, hpre, hx⟩ := (hfound e).mp hfirst
    -- every other split of this kind is at the same position
    have hsame : ∀ pre' x' post', ds = pre' ++ x' :: post' →
        (∀ y ∈ pre', takenForTpg y = false) → takenForTpg x' = true →
        4 + (encodeAll pre').length < (encodeAll ds).length →
        4 + (encodeAll pre').length = 4 + (encodeAll pre).length := by
      intro pre' x' post' hds' hpre' hx' hlt'
      have hfirst' := (hfound _).mpr ⟨pre', x', post', hds', rfl, hlt', hpre', hx'⟩
      rw [hfirst] at hfirst'
      exact (Option.some.inj hfirst').symm
    show (beAt (full.take n) (4 + (encodeAll pre).length + 6) 2 : ℤ) = _ ↔ _
    rcases (takenForTpg_iff x).mp hx with htype | htype
    · have hat : x.At full (4 + (encodeAll pre).length) :=
        Discovery.at_of_encodeAll (hds ▸ hpage)
      have hmem : x ∈ ds := by rw [hds]; exact List.mem_append_right pre List.mem_cons_self
      apply iff_of_true
      · rw [hvalue _ hfirst, tpg_value hat (hwf x hmem htype), tpgExpected_of_first hds hpre htype]
      · intro pre' x' post' hds' hpre' hx' hlt'
        have hpos := hsame pre' x' post' hds' (fun y hy => takenForTpg_eq_false (hpre' y hy))
          ((takenForTpg_iff x').mpr (Or.inr hx')) hlt'
        have hat' : x'.At full (4 + (encodeAll pre').length) :=
          Discovery.at_of_encodeAll (hds' ▸ hpage)
        rw [hpos] at hat'
        have htypes := hat.type_eq.symm.trans hat'.type_eq
        rw [htype, hx'] at htypes
        cases htypes
    · constructor
      · intro hright pre' x' post' hds' hpre' hx' hlt'
        rw [hsame pre' x' post' hds' (fun y hy => takenForTpg_eq_false (hpre' y hy))
          ((takenForTpg_iff x').mpr (Or.inr hx')) hlt']
        exact hright
      · intro hright
        apply hright pre x post hds _ htype hlt
        intro y hy
        have hno : ¬ takenForTpg y = true := by rw [hpre y hy]; exact Bool.false_ne_true
        rw [takenForTpg_iff] at hno
        exact not_or.mp hno

variable {malloc malloc' : Bool} {sysfs inquiry inquiry' : Option (List Byte)}

theorem LastPage.exists_fill (h : LastPage malloc malloc' sysfs inquiry inquiry' buf)
    {bs : List Byte} (hsysfs : ∀ r ∈ sysfs, bs <+: r) (hinquiry : ∀ r ∈ inquiry, bs <+: r)
    (hinquiry' : ∀ r ∈ inquiry', bs <+: r) :
    ∃ n resp, buf = fill n resp ∧ bs <+: resp ∧ 4096 ≤ n := by
  cases h with
  | sysfs resp => exact ⟨4096, resp, rfl, hsysfs resp rfl, Nat.le_refl _⟩
  | first resp => exact ⟨4096, resp, rfl, hinquiry resp rfl, Nat.le_refl _⟩
  | repeated resp resp' _ _ hsize => exact ⟨_, resp', rfl, hinquiry' resp' rfl, by omega⟩

/-- The number of the first target port group of a page is returned, or the error that there
is none, if and only if the walk stays in the buffer, and no designator of type 0xd that it
meets before a target port group has another number. -/
theorem getTargetPortGroup_page_iff (hwf : ∀ x ∈ ds, x.type = 0x5 → x.id.length = 4)
    (hlen : (encodeAll ds).length < 2 ^ 16) (hsysfs : ∀ r ∈ sysfs, page device ds <+: r)
    (hinquiry : ∀ r ∈ inquiry, page device ds <+: r)
    (hinquiry' : ∀ r ∈ inquiry', page device ds <+: r)
    (hbuf : LastPage malloc malloc' sysfs inquiry inquiry' buf) :
    (∃ fuel, getTargetPortGroup fuel malloc malloc' sysfs inquiry inquiry' =
      .done (tpgExpected ds)) ↔ IdentifiersInside buf ∧ Unmasked ds buf := by
  rw [getTargetPortGroup_done_iff hbuf]
  apply and_congr_right
  intro hin
  obtain ⟨n, resp, rfl, hresp, hn⟩ := hbuf.exists_fill hsysfs hinquiry hinquiry'
  have hfull : page device ds <+: resp ++ List.replicate n 0 :=
    hresp.trans (List.prefix_append _ _)
  have hpage := encodeAll_isPrefix hfull
  have hannounced : beAt (fill n resp) 2 2 = (encodeAll ds).length := by
    rw [fill_eq_take, beAt_take (by omega), page_announced hlen hfull]
  unfold IdentifiersInside at hin
  rw [hannounced] at hin ⊢
  rw [fill_eq_take] at hin ⊢
  exact firstValue_iff hwf hpage hin

/-- A page that leaves four bytes of the buffer is walked inside of it. -/
theorem identifiersInside_page (hlen : (encodeAll ds).length < 2 ^ 16)
    (h : page device ds <+: buf) (hspare : (page device ds).length + 4 ≤ buf.length) :
    IdentifiersInside buf := by
  have hinside : ∀ e ∈ offsets (designators buf) (encodeAll ds).length 4, e + 8 ≤ buf.length := by
    intro e he
    have hle := le_of_mem_offsets he
    rw [page_length] at hspare
    omega
  unfold IdentifiersInside
  rw [page_announced hlen h]
  constructor
  · exact fun e he => Nat.le_trans (Nat.add_le_add_left (by decide) e) (hinside e he)
  · exact fun e he => hinside e (List.mem_of_find?_eq_some he)

end Page

/-- The descriptor of a port group. The bits of the state byte between the preferred bit and
the access state are reserved. -/
structure PortGroup where
  state : Byte
  supported : Byte
  group : ℕ
  reserved : Byte
  status : Byte
  vendorUnique : Byte
  portCount : Byte
  ports : List Byte
  state_reserved : state &&& 0x70 = 0
  group_lt : group < 2 ^ 16
  ports_length : ports.length = portCount.toNat * 4

namespace PortGroup

def encode (g : PortGroup) : List Byte :=
  g.state :: g.supported :: (toBe 2 g.group ++
    g.reserved :: g.status :: g.vendorUnique :: g.portCount :: g.ports)

theorem encode_length (g : PortGroup) : g.encode.length = 8 + g.portCount.toNat * 4 := by
  rw [encode, List.length_cons, List.length_cons, List.length_append, toBe_length,
    List.length_cons, List.length_cons, List.length_cons, List.length_cons, g.ports_length]
  omega

variable {g : PortGroup} {buf : List Byte} {d : ℕ}

theorem byte (h : g.encode <+: buf.drop d) {i : ℕ} (hi : i < g.encode.length) :
    buf.getD (d + i) 0 = g.encode.getD i 0 := by
  obtain ⟨rest, hrest⟩ := h
  have hdrop : buf[d + i]? = (buf.drop d)[i]? := by rw [List.getElem?_drop]
  rw [List.getD_eq_getElem?_getD, List.getD_eq_getElem?_getD, hdrop, ← hrest,
    List.getElem?_append_left hi]

theorem next (h : g.encode <+: buf.drop d) : (portGroups buf).next d = d + g.encode.length := by
  have hlen := g.encode_length
  have hcount : buf.getD (d + 7) 0 = g.portCount := by
    rw [byte h (by omega)]
    rfl
  show d + 8 + (buf.getD (d + 7) 0).toNat * 4 = _
  rw [hcount, hlen, Nat.add_assoc]

theorem state_value (h : g.encode <+: buf.drop d) :
    (buf.getD d 0 &&& 0x8f).toNat = g.state.toNat := by
  have hlen := g.encode_length
  have hstate : buf.getD (d + 0) 0 = g.state := by
    rw [byte h (by omega)]
    rfl
  rw [Nat.add_zero] at hstate
  rw [hstate]
  congr 1
  have hsplit : g.state = (g.state &&& 0x70) ||| (g.state &&& 0x8f) := by
    rw [← BitVec.and_or_distrib_left]
    exact (BitVec.and_allOnes).symm
  rw [g.state_reserved, show (0 : Byte) = 0#8 from rfl, BitVec.zero_or] at hsplit
  exact hsplit.symm

theorem group_value (h : g.encode <+: buf.drop d) : beAt buf (d + 2) 2 = g.group := by
  obtain ⟨rest, hrest⟩ := h
  rw [beAt, ← List.drop_drop, ← hrest, encode]
  show ofBe ((toBe 2 g.group ++ _ ++ rest).take 2) = _
  rw [List.append_assoc, List.take_left' (toBe_length 2 _), ofBe_toBe]
  exact Nat.mod_eq_of_lt g.group_lt

end PortGroup

section PortGroups

/-- The response to REPORT TARGET PORT GROUPS. -/
def response (gs : List PortGroup) : List Byte :=
  toBe 4 (gs.flatMap PortGroup.encode).length ++ gs.flatMap PortGroup.encode

/-- The state byte of the first descriptor of a group, or the error that there is none. -/
def stateExpected (gs : List PortGroup) (tpg : ℕ) : ℤ :=
  ((gs.find? (·.group = tpg)).map fun g => (g.state.toNat : ℤ)).getD (-rtpgTpgNotFound)

variable {gs : List PortGroup} {buf : List Byte} {malloc malloc' : Bool}
  {rtpg rtpg' : Option (List Byte)} {tpg : ℕ}

theorem response_length :
    (response gs).length = 4 + (gs.flatMap PortGroup.encode).length := by
  rw [response, List.length_append, toBe_length]

theorem response_drop : (response gs).drop 4 = gs.flatMap PortGroup.encode :=
  List.drop_left' (toBe_length 4 _)

theorem response_announced (hlen : (gs.flatMap PortGroup.encode).length < 2 ^ 32)
    (h : (response gs).take 4 <+: buf) : beAt buf 0 4 = (gs.flatMap PortGroup.encode).length := by
  have htake : (response gs).take 4 = toBe 4 (gs.flatMap PortGroup.encode).length :=
    List.take_left' (toBe_length 4 _)
  rw [htake] at h
  rw [beAt_of_isPrefix h (by rw [toBe_length]), beAt, List.drop_zero,
    List.take_of_length_le (by rw [toBe_length]), ofBe_toBe]
  exact Nat.mod_eq_of_lt hlen

/-- The walk over a response that is wholly in the buffer goes from group to group. -/
theorem response_offsets (h : response gs <+: buf) :
    offsets (portGroups buf) (gs.flatMap PortGroup.encode).length 4 =
      laidOut PortGroup.encode 4 gs := by
  have hgroups : gs.flatMap PortGroup.encode <+: buf.drop 4 := by
    rw [← response_drop]
    exact h.drop 4
  rw [offsets_laidOut (fun x d hx => PortGroup.next hx) hgroups (Nat.le_add_left _ 4)]
  apply List.takeWhile_eq_self_iff.mpr
  intro e he
  obtain ⟨pre, g, post, rfl, rfl⟩ := exists_of_mem_laidOut he
  have hg := g.encode_length
  apply decide_eq_true
  rw [List.flatMap_append, List.flatMap_cons, List.length_append, List.length_append]
  omega

theorem portGroupsInside_response (hlen : (gs.flatMap PortGroup.encode).length < 2 ^ 32)
    (h : response gs <+: buf) : PortGroupsInside buf := by
  unfold PortGroupsInside
  rw [response_announced hlen ((List.take_prefix 4 _).trans h), response_offsets h]
  intro e he
  obtain ⟨pre, g, post, rfl, rfl⟩ := exists_of_mem_laidOut he
  have hg := g.encode_length
  have hle := h.length_le
  rw [response_length, List.flatMap_append, List.flatMap_cons, List.length_append,
    List.length_append] at hle
  omega

/-- The first descriptor of the group gives its state. -/
theorem firstValue_response (hlen : (gs.flatMap PortGroup.encode).length < 2 ^ 32)
    (h : response gs <+: buf) :
    (rtpgTpgDscrs buf tpg).firstValue (fun d => beAt buf (d + 2) 2 = tpg)
      (fun d => ((buf.getD d 0 &&& 0x8f).toNat : ℤ))
      (offsets (portGroups buf) (beAt buf 0 4) 4) = stateExpected gs tpg := by
  have hgroups : gs.flatMap PortGroup.encode <+: buf.drop 4 := by
    rw [← response_drop]
    exact h.drop 4
  have hfound (e : ℕ) :
      (offsets (portGroups buf) (gs.flatMap PortGroup.encode).length 4).find?
          (fun d => beAt buf (d + 2) 2 = tpg) = some e ↔ _ :=
    find?_offsets_eq_some_iff (fun x d hx => PortGroup.next hx)
      (fun x d hx => congrArg (fun group => decide (group = tpg)) (PortGroup.group_value hx))
      hgroups (Nat.le_add_left _ 4)
  rw [response_announced hlen ((List.take_prefix 4 _).trans h)]
  unfold Records.firstValue stateExpected
  cases hg : gs.find? (·.group = tpg) with
  | none =>
    have hnone : (offsets (portGroups buf) (gs.flatMap PortGroup.encode).length 4).find?
        (fun d => beAt buf (d + 2) 2 = tpg) = none := by
      apply Option.eq_none_iff_forall_not_mem.mpr
      intro e he
      obtain ⟨pre, g, post, rfl, -, -, -, hq⟩ := (hfound e).mp he
      exact List.find?_eq_none.mp hg g (List.mem_append_right pre List.mem_cons_self) hq
    rw [hnone]
    rfl
  | some g =>
    obtain ⟨hq, pre, post, hsplit, hpre⟩ := List.find?_eq_some_iff_append.mp hg
    have hlt : 4 + (pre.flatMap PortGroup.encode).length <
        (gs.flatMap PortGroup.encode).length := by
      have hlong := g.encode_length
      rw [hsplit, List.flatMap_append, List.flatMap_cons, List.length_append, List.length_append]
      omega
    have hsome := (hfound _).mpr
      ⟨pre, g, post, hsplit, rfl, hlt, fun y hy => by simpa using hpre y hy, hq⟩
    have hat : g.encode <+: buf.drop (4 + (pre.flatMap PortGroup.encode).length) :=
      isPrefix_of_flatMap (hsplit ▸ hgroups)
    rw [hsome]
    show ((buf.getD _ 0 &&& 0x8f).toNat : ℤ) = g.state.toNat
    rw [PortGroup.state_value hat]

theorem portGroups_next_le (d : ℕ) : (portGroups buf).next d ≤ d + 1028 := by
  have hlt := (buf.getD (d + 7) 0).isLt
  show d + 8 + (buf.getD (d + 7) 0).toNat * 4 ≤ _
  omega

/-- The state of the first descriptor of a group is returned, or the error that there is
none, if and only if the length of the response is a 32-bit number. -/
theorem getAsymmetricAccessState_response_iff
    (hlen : (gs.flatMap PortGroup.encode).length < 2 ^ 32) (hrtpg : ∀ r ∈ rtpg, response gs <+: r)
    (hrtpg' : ∀ r ∈ rtpg', response gs <+: r) (hbuf : LastGroups malloc malloc' rtpg rtpg' buf) :
    (∃ fuel, getAsymmetricAccessState fuel tpg malloc malloc' rtpg rtpg' =
      .done (stateExpected gs tpg)) ↔ (response gs).length < 2 ^ 32 := by
  have hfirst : ∀ r ∈ rtpg, beAt (fill 4096 r) 0 4 = (gs.flatMap PortGroup.encode).length := by
    intro r hr
    apply response_announced hlen
    apply fill_isPrefix ((List.take_prefix 4 _).trans (hrtpg r hr))
    exact Nat.le_trans (List.length_take_le _ _) (by decide)
  rw [getAsymmetricAccessState_done_iff hbuf, response_length]
  constructor
  · rintro ⟨hin, -⟩
    by_contra hlong
    -- the sum of the announced length and 4 is below 4 in 32 bits
    obtain ⟨r, hr, rfl⟩ : ∃ r ∈ rtpg, buf = fill 4096 r := by
      cases hbuf with
      | first resp => exact ⟨resp, rfl, rfl⟩
      | repeated resp resp' _ _ hsize =>
        rw [hfirst resp rfl] at hsize
        omega
    have hlimit : beAt (fill 4096 r) 0 4 = _ := hfirst r hr
    obtain ⟨e, he, hle⟩ := exists_mem_offsets portGroups_next_le
      (show 4089 + 1028 ≤ beAt (fill 4096 r) 0 4 by omega)
      (show 4 < beAt (fill 4096 r) 0 4 by omega)
    have hinside := hin e he
    rw [fill_length] at hinside
    omega
  · intro hshort
    have hresp : response gs <+: buf := by
      cases hbuf with
      | first resp _ _ hsize =>
        apply fill_isPrefix (hrtpg resp rfl)
        rw [hfirst resp rfl] at hsize
        rw [response_length]
        omega
      | repeated resp resp' _ _ hsize =>
        rw [hfirst resp rfl] at hsize ⊢
        apply fill_isPrefix (hrtpg' resp' rfl)
        rw [response_length]
        omega
    exact ⟨portGroupsInside_response hlen hresp, firstValue_response hlen hresp⟩

end PortGroups

/-- The port group of a path and its state are found in well-formed data if and only if the
walk over page 0x83 stays in the buffer and is not misled by a designator of type 0xd, and
the length of the other response is a 32-bit number. -/
theorem lookups_iff {device : Byte} {ds : List Designator} {gs : List PortGroup}
    {malloc malloc' : Bool} {sysfs inquiry inquiry' rtpg rtpg' : Option (List Byte)}
    {pg83 groups : List Byte} (hwf : ∀ x ∈ ds, x.type = 0x5 → x.id.length = 4)
    (hds : (encodeAll ds).length < 2 ^ 16) (hgs : (gs.flatMap PortGroup.encode).length < 2 ^ 32)
    (hsysfs : ∀ r ∈ sysfs, page device ds <+: r) (hinquiry : ∀ r ∈ inquiry, page device ds <+: r)
    (hinquiry' : ∀ r ∈ inquiry', page device ds <+: r) (hrtpg : ∀ r ∈ rtpg, response gs <+: r)
    (hrtpg' : ∀ r ∈ rtpg', response gs <+: r)
    (hpg83 : LastPage malloc malloc' sysfs inquiry inquiry' pg83)
    (hgroups : LastGroups malloc malloc' rtpg rtpg' groups) (tpg : ℕ) :
    ((∃ fuel, getTargetPortGroup fuel malloc malloc' sysfs inquiry inquiry' =
        .done (tpgExpected ds)) ↔ IdentifiersInside pg83 ∧ Unmasked ds pg83) ∧
      ((∃ fuel, getAsymmetricAccessState fuel tpg malloc malloc' rtpg rtpg' =
        .done (stateExpected gs tpg)) ↔ (response gs).length < 2 ^ 32) := by
  constructor
  · exact getTargetPortGroup_page_iff hwf hds hsysfs hinquiry hinquiry' hpg83
  · exact getAsymmetricAccessState_response_iff hgs hrtpg hrtpg' hgroups

/-- Target port group 7. -/
def tpgDesignator : Designator := ⟨0x51, 0x95, 0, [0, 0, 0, 7], by decide⟩

/-- A designator of the reserved type 0xd. -/
def reservedDesignator : Designator := ⟨0x51, 0x9d, 0, [0, 0, 0, 9], by decide⟩

/-- Port group 7, preferred and active/optimized, with one port. -/
def preferredGroup : PortGroup :=
  ⟨0x80, 0x0f, 7, 0, 0, 0, 1, [0, 0, 0, 1], by decide, by decide, by decide⟩

theorem lookups_iff_preferred :
    (∃ fuel, getTargetPortGroup fuel true true (some (page 0 [tpgDesignator])) none none =
        .done 7) ∧
      ∃ fuel, getAsymmetricAccessState fuel 7 true true (some (response [preferredGroup])) none =
        .done 0x80 := by
  have hwf : ∀ x ∈ [tpgDesignator], x.type = 0x5 → x.id.length = 4 := by
    intro x hx _
    rw [List.mem_singleton.mp hx]
    rfl
  have hpage : page 0 [tpgDesignator] <+: fill 4096 (page 0 [tpgDesignator]) :=
    fill_isPrefix (List.prefix_refl _) (by decide)
  have hiff := @lookups_iff 0 [tpgDesignator] [preferredGroup] true true
    (some (page 0 [tpgDesignator])) none none (some (response [preferredGroup])) none _ _ hwf
    (by decide) (by decide) (fun r hr => by cases hr; exact List.prefix_refl _)
    (fun r hr => by cases hr) (fun r hr => by cases hr)
    (fun r hr => by cases hr; exact List.prefix_refl _) (fun r hr => by cases hr)
    (.sysfs _ _ _ rfl) (.first _ _ rfl (by
      rw [response_announced (by decide) ((List.take_prefix 4 _).trans
        (fill_isPrefix (List.prefix_refl (response [preferredGroup])) (by decide)))]
      decide)) 7
  constructor
  · apply hiff.1.mpr
    constructor
    · apply identifiersInside_page (by decide) hpage
      rw [fill_length]
      decide
    · intro pre x post hds _ hx _
      have hmem : x ∈ [tpgDesignator] := by
        rw [hds]
        exact List.mem_append_right pre List.mem_cons_self
      rw [List.mem_singleton.mp hmem] at hx
      exact absurd hx (by decide)
  · exact hiff.2.mpr (by decide)

/-- A designator of type 0xd in front of the target port group gives another number. -/
theorem lookups_iff_fails :
    tpgExpected [reservedDesignator, tpgDesignator] = 7 ∧
      ¬ ∃ fuel, getTargetPortGroup fuel true true
        (some (page 0 [reservedDesignator, tpgDesignator])) none none = .done 7 := by
  have hwf : ∀ x ∈ [reservedDesignator, tpgDesignator], x.type = 0x5 → x.id.length = 4 := by
    intro x hx _
    rcases List.mem_cons.mp hx with rfl | hx
    · rfl
    · rw [List.mem_singleton.mp hx]
      rfl
  have hpage : page 0 [reservedDesignator, tpgDesignator] <+:
      fill 4096 (page 0 [reservedDesignator, tpgDesignator]) :=
    fill_isPrefix (List.prefix_refl _) (by decide)
  constructor
  · decide
  · intro hdone
    have hiff := @getTargetPortGroup_page_iff 0 [reservedDesignator, tpgDesignator] _ true true
      (some (page 0 [reservedDesignator, tpgDesignator])) none none hwf (by decide)
      (fun r hr => by cases hr; exact List.prefix_refl _) (fun r hr => by cases hr)
      (fun r hr => by cases hr) (.sysfs _ _ _ rfl)
    have hunmasked := (hiff.mp hdone).2
    have hnumber := hunmasked [] reservedDesignator [tpgDesignator] rfl (List.forall_mem_nil _)
      (by decide) (by decide)
    rw [beAt_of_isPrefix hpage (by decide)] at hnumber
    exact absurd hnumber (by decide)

end MultipathTools.Alua
