import MultipathTools.Alua.Rtpg
import MultipathTools.Discovery.Designators

/-! Where the loops over page 0x83 and over the port groups read. They end for every data,
but stay in the buffer only if the data do not announce more than fits. -/
namespace MultipathTools.Alua

open Records (Layout Fits)
open Discovery (designators byteAt_getD)

section Buffer

variable (buf : List Byte)

/-- A big-endian number of `n` bytes. -/
def beAt (d n : ℕ) : ℕ := ofBe ((buf.drop d).take n)

/-- The low three bits of the type of a designator are those of a target port group. -/
def isTpg (d : ℕ) : Bool := (buf.getD (d + 1) 0 &&& 7).toNat = idtypeTargetPortGroup

/-- The port group behind the one at a position, by its number of ports. -/
def portGroups : Advance where
  next d := d + 8 + (buf.getD (d + 7) 0).toNat * 4
  lt_next d := by omega

variable {buf} {d n : ℕ}

theorem beAt_lt (d n : ℕ) : beAt buf d n < 256 ^ n := by
  have hlt := ofBe_lt ((buf.drop d).take n)
  exact lt_of_lt_of_le hlt (Nat.pow_le_pow_right (by decide) (List.length_take_le _ _))

theorem getUnalignedBe16_eq (h : d + 2 ≤ buf.length) :
    getUnalignedBe16 buf d = .done (beAt buf d 2) := by
  rw [getUnalignedBe16, readAt_of_le h]
  rfl

theorem getUnalignedBe32_eq (h : d + 4 ≤ buf.length) :
    getUnalignedBe32 buf d = .done (beAt buf d 4) := by
  rw [getUnalignedBe32, readAt_of_le h]
  rfl

theorem vpd83Dscrs_layout :
    (vpd83Dscrs buf).Layout (designators buf) buf.length 4 8 (isTpg buf)
      fun d => (beAt buf (d + 6) 2 : ℤ) where
  inside d hd := by
    constructor
    · show vpd83DscrIstype buf d idtypeTargetPortGroup = _
      rw [vpd83DscrIstype, byteAt_getD (by omega)]
      rfl
    · show (byteAt buf (d + 3)).bind _ = _
      rw [byteAt_getD (by omega)]
      rfl
  outside d s hd := by
    by_cases hnext : d + 3 < buf.length
    · omega
    · apply Records.step_outside
      · exact Outcome.bind_ne_unfinished byteAt_ne_unfinished fun b h => by cases h
      · apply Outcome.bind_ne_unfinished
        · exact Outcome.bind_ne_unfinished readAt_ne_unfinished fun b h => by cases h
        · intro b h
          cases h
      · show (byteAt buf (d + 3)).bind _ = _
        rw [byteAt_of_le (Nat.not_lt.mp hnext)]
        rfl
  value d _ := by
    show (getUnalignedBe16 buf (d + 6)).bind _ = _
    split_ifs with h
    · rw [getUnalignedBe16_eq h]
      rfl
    · rw [getUnalignedBe16, readAt_of_lt (by omega)]
      rfl
  found d := by
    show (beAt buf (d + 6) 2 : ℤ) ≠ -2
    omega

theorem rtpgTpgDscrs_layout (tpg : ℕ) :
    (rtpgTpgDscrs buf tpg).Layout (portGroups buf) buf.length 8 8
      (fun d => beAt buf (d + 2) 2 = tpg) fun d => ((buf.getD d 0 &&& 0x8f).toNat : ℤ) where
  inside d hd := by
    constructor
    · show (getUnalignedBe16 buf (d + 2)).bind _ = _
      rw [getUnalignedBe16_eq (by omega)]
      rfl
    · show (byteAt buf (d + 7)).bind _ = _
      rw [byteAt_getD (by omega)]
      rfl
  outside d s hd := by
    apply Records.step_outside
    · apply Outcome.bind_ne_unfinished
      · exact Outcome.bind_ne_unfinished readAt_ne_unfinished fun b h => by cases h
      · intro b h
        cases h
    · exact Outcome.bind_ne_unfinished byteAt_ne_unfinished fun b h => by cases h
    · show (byteAt buf (d + 7)).bind _ = _
      rw [byteAt_of_le (by omega)]
      rfl
  value d hd := by
    rw [if_pos hd]
    show rtpgTpgDscrGetAas buf d = _
    rw [rtpgTpgDscrGetAas, byteAt_getD (by omega)]
    rfl
  found d := by
    show ((buf.getD d 0 &&& 0x8f).toNat : ℤ) ≠ -4
    omega

variable (buf)

/-- Every designator that begins before the announced length has its header in the buffer,
and the first one of a target port group its number. -/
def IdentifiersInside : Prop :=
  Fits buf.length 4 8 (isTpg buf) (offsets (designators buf) (beAt buf 2 2) 4)

/-- Every port group that begins before the announced length has its descriptor in the
buffer. -/
def PortGroupsInside : Prop := ∀ d ∈ offsets (portGroups buf) (beAt buf 0 4) 4, d + 8 ≤ buf.length

instance : Decidable (IdentifiersInside buf) := inferInstanceAs (Decidable (Fits _ _ _ _ _))

instance : Decidable (PortGroupsInside buf) := inferInstanceAs (Decidable (∀ d ∈ _, _ ≤ _))

variable {buf}

theorem portGroupsInside_iff (tpg : ℕ) :
    Fits buf.length 8 8 (fun d => beAt buf (d + 2) 2 = tpg)
      (offsets (portGroups buf) (beAt buf 0 4) 4) ↔ PortGroupsInside buf := by
  constructor
  · exact fun h => h.1
  · exact fun h => ⟨h, fun d hd => h d (List.mem_of_find?_eq_some hd)⟩

end Buffer

theorem fill_length (n : ℕ) (resp : List Byte) : (fill n resp).length = n := by
  rw [fill, List.length_append, List.length_take, List.length_replicate]
  omega

/-- The buffer that the loop over page 0x83 goes over: the page in sysfs, the data of the
command, or those of the repeated command if the first announced more than the buffer holds. -/
inductive LastPage (malloc malloc' : Bool) :
    Option (List Byte) → Option (List Byte) → Option (List Byte) → List Byte → Prop
  | sysfs (page : List Byte) (inquiry inquiry' : Option (List Byte)) (h : malloc = true) :
    LastPage malloc malloc' (some page) inquiry inquiry' (fill 4096 page)
  | first (resp : List Byte) (inquiry' : Option (List Byte)) (h : malloc = true)
    (hsize : beAt (fill 4096 resp) 2 2 + 4 ≤ 4096) :
    LastPage malloc malloc' none (some resp) inquiry' (fill 4096 resp)
  | repeated (resp resp' : List Byte) (h : malloc = true) (h' : malloc' = true)
    (hsize : 4096 < beAt (fill 4096 resp) 2 2 + 4) :
    LastPage malloc malloc' none (some resp) (some resp')
      (fill (min (beAt (fill 4096 resp) 2 2 + 4) 65535) resp')

/-- The buffer that the loop over the port groups goes over. -/
inductive LastGroups (malloc malloc' : Bool) :
    Option (List Byte) → Option (List Byte) → List Byte → Prop
  | first (resp : List Byte) (rtpg' : Option (List Byte)) (h : malloc = true)
    (hsize : (beAt (fill 4096 resp) 0 4 + 4) % 2 ^ 32 ≤ 4096) :
    LastGroups malloc malloc' (some resp) rtpg' (fill 4096 resp)
  | repeated (resp resp' : List Byte) (h : malloc = true) (h' : malloc' = true)
    (hsize : 4096 < (beAt (fill 4096 resp) 0 4 + 4) % 2 ^ 32) :
    LastGroups malloc malloc' (some resp) (some resp')
      (fill ((beAt (fill 4096 resp) 0 4 + 4) % 2 ^ 32) resp')

section Run

variable {malloc malloc' : Bool} {sysfs inquiry inquiry' rtpg rtpg' : Option (List Byte)}
  {buf : List Byte}

theorem lastPage_iff :
    LastPage malloc malloc' sysfs inquiry inquiry' buf ↔
      getPg83 malloc malloc' sysfs inquiry inquiry' = .ok buf := by
  constructor
  · intro h
    cases h with
    | sysfs page inquiry inquiry' h =>
      rw [getPg83, if_neg (not_not.mpr h)]
      rfl
    | first resp inquiry' h hsize =>
      rw [getPg83, if_neg (not_not.mpr h)]
      apply if_neg
      show ¬ 4096 < min (beAt (fill 4096 resp) 2 2 + 4) 65535
      omega
    | repeated resp resp' h h' hsize =>
      rw [getPg83, if_neg (not_not.mpr h)]
      refine (if_pos ?_).trans (if_neg (not_not.mpr h'))
      show 4096 < min (beAt (fill 4096 resp) 2 2 + 4) 65535
      omega
  · intro h
    unfold getPg83 at h
    by_cases hm : malloc = true
    · rw [if_neg (not_not.mpr hm)] at h
      cases sysfs with
      | some page =>
        cases h
        exact .sysfs page _ _ hm
      | none =>
        cases inquiry with
        | none => cases h
        | some resp =>
          dsimp only at h
          split_ifs at h with hlt hm'
          · cases inquiry' with
            | none => cases h
            | some resp' =>
              cases h
              refine .repeated resp resp' hm hm' ?_
              exact lt_of_lt_of_le hlt (Nat.min_le_left _ _)
          · cases h
            refine .first resp _ hm ?_
            replace hlt : ¬ 4096 < min (beAt (fill 4096 resp) 2 2 + 4) 65535 := hlt
            omega
    · rw [if_pos hm] at h
      cases h

theorem lastGroups_iff :
    LastGroups malloc malloc' rtpg rtpg' buf ↔ getRtpg malloc malloc' rtpg rtpg' = .ok buf := by
  have hmin (n : ℕ) : min (n % 2 ^ 32) uintMax = n % 2 ^ 32 := by
    have hlt := Nat.mod_lt n (Nat.two_pow_pos 32)
    apply Nat.min_eq_left
    show n % 2 ^ 32 ≤ 2 ^ 32 - 1
    omega
  unfold getRtpg
  dsimp only
  constructor
  · intro h
    cases h with
    | first resp rtpg' h hsize =>
      rw [if_neg (not_not.mpr h)]
      dsimp only
      rw [hmin]
      exact if_neg (Nat.not_lt.mpr hsize)
    | repeated resp resp' h h' hsize =>
      rw [if_neg (not_not.mpr h)]
      dsimp only
      rw [hmin]
      exact (if_pos hsize).trans (if_neg (not_not.mpr h'))
  · intro h
    by_cases hm : malloc = true
    · rw [if_neg (not_not.mpr hm)] at h
      cases rtpg with
      | none => cases h
      | some resp =>
        dsimp only at h
        rw [hmin] at h
        split_ifs at h with hlt hm'
        · cases rtpg' with
          | none => cases h
          | some resp' =>
            cases h
            exact .repeated resp resp' hm hm' hlt
        · cases h
          exact .first resp _ hm (Nat.not_lt.mp hlt)
    · rw [if_pos hm] at h
      cases h

theorem LastPage.length (h : LastPage malloc malloc' sysfs inquiry inquiry' buf) :
    4 ≤ buf.length := by
  cases h with
  | sysfs page => rw [fill_length]; omega
  | first resp => rw [fill_length]; omega
  | repeated resp resp' => rw [fill_length]; omega

theorem LastGroups.length (h : LastGroups malloc malloc' rtpg rtpg' buf) : 4 ≤ buf.length := by
  cases h with
  | first resp => rw [fill_length]; omega
  | repeated resp resp' => rw [fill_length]; omega

/-- What the loop over page 0x83 makes of the buffer. -/
theorem getTargetPortGroup_done_iff (h : LastPage malloc malloc' sysfs inquiry inquiry' buf)
    {rc : ℤ} :
    (∃ fuel, getTargetPortGroup fuel malloc malloc' sysfs inquiry inquiry' = .done rc) ↔
      IdentifiersInside buf ∧ (vpd83Dscrs buf).firstValue (isTpg buf)
        (fun d => (beAt buf (d + 6) 2 : ℤ)) (offsets (designators buf) (beAt buf 2 2) 4) = rc := by
  have hlen := h.length
  unfold getTargetPortGroup
  rw [lastPage_iff.mp h]
  dsimp only
  rw [getUnalignedBe16_eq hlen]
  exact vpd83Dscrs_layout.lookup_done_iff

/-- What the loop over the port groups makes of the buffer. -/
theorem getAsymmetricAccessState_done_iff (h : LastGroups malloc malloc' rtpg rtpg' buf)
    {tpg : ℕ} {rc : ℤ} :
    (∃ fuel, getAsymmetricAccessState fuel tpg malloc malloc' rtpg rtpg' = .done rc) ↔
      PortGroupsInside buf ∧ (rtpgTpgDscrs buf tpg).firstValue (fun d => beAt buf (d + 2) 2 = tpg)
        (fun d => ((buf.getD d 0 &&& 0x8f).toNat : ℤ))
        (offsets (portGroups buf) (beAt buf 0 4) 4) = rc := by
  have hlen := h.length
  unfold getAsymmetricAccessState
  rw [lastGroups_iff.mp h, ← portGroupsInside_iff tpg]
  dsimp only
  rw [getUnalignedBe32_eq (by omega)]
  exact (rtpgTpgDscrs_layout tpg).lookup_done_iff

/-- The loops end for all data, if they do not leave the buffer. -/
theorem getTargetPortGroup_ends {fuel : ℕ} (hfuel : 2 ^ 16 ≤ fuel) :
    getTargetPortGroup fuel malloc malloc' sysfs inquiry inquiry' ≠ .unfinished := by
  unfold getTargetPortGroup
  cases hbuf : getPg83 malloc malloc' sysfs inquiry inquiry' with
  | error rc =>
    intro h
    cases h
  | ok buf =>
    have hlen := (lastPage_iff.mpr hbuf).length
    dsimp only
    rw [getUnalignedBe16_eq hlen]
    apply vpd83Dscrs_layout.lookup_ends
    have hlt : beAt buf 2 2 < 2 ^ 16 := beAt_lt 2 2
    omega

theorem getAsymmetricAccessState_ends {fuel tpg : ℕ} (hfuel : 2 ^ 32 ≤ fuel) :
    getAsymmetricAccessState fuel tpg malloc malloc' rtpg rtpg' ≠ .unfinished := by
  unfold getAsymmetricAccessState
  cases hbuf : getRtpg malloc malloc' rtpg rtpg' with
  | error rc =>
    intro h
    cases h
  | ok buf =>
    have hlen := (lastGroups_iff.mpr hbuf).length
    dsimp only
    rw [getUnalignedBe32_eq (by omega)]
    apply (rtpgTpgDscrs_layout tpg).lookup_ends
    have hlt : beAt buf 0 4 < 2 ^ 32 := beAt_lt 0 4
    omega

end Run

/-- The loops over the designators and the port groups end and stay in the buffer that was
allocated last if and only if nothing that begins before the announced length reaches
beyond it. -/
theorem walks_inside_iff (malloc malloc' : Bool)
    (sysfs inquiry inquiry' rtpg rtpg' : Option (List Byte)) (tpg : ℕ) :
    ((∃ fuel rc, getTargetPortGroup fuel malloc malloc' sysfs inquiry inquiry' = .done rc) ↔
      ∀ buf, LastPage malloc malloc' sysfs inquiry inquiry' buf → IdentifiersInside buf) ∧
    ((∃ fuel rc, getAsymmetricAccessState fuel tpg malloc malloc' rtpg rtpg' = .done rc) ↔
      ∀ buf, LastGroups malloc malloc' rtpg rtpg' buf → PortGroupsInside buf) := by
  constructor
  · constructor
    · rintro ⟨fuel, rc, hdone⟩ buf hbuf
      exact ((getTargetPortGroup_done_iff hbuf).mp ⟨fuel, hdone⟩).1
    · intro h
      cases hbuf : getPg83 malloc malloc' sysfs inquiry inquiry' with
      | error rc => exact ⟨0, rc, by rw [getTargetPortGroup, hbuf]⟩
      | ok buf =>
        have hlast := lastPage_iff.mpr hbuf
        obtain ⟨fuel, hdone⟩ := (getTargetPortGroup_done_iff hlast).mpr ⟨h buf hlast, rfl⟩
        exact ⟨fuel, _, hdone⟩
  · constructor
    · rintro ⟨fuel, rc, hdone⟩ buf hbuf
      exact ((getAsymmetricAccessState_done_iff hbuf).mp ⟨fuel, hdone⟩).1
    · intro h
      cases hbuf : getRtpg malloc malloc' rtpg rtpg' with
      | error rc => exact ⟨0, rc, by rw [getAsymmetricAccessState, hbuf]⟩
      | ok buf =>
        have hlast := lastGroups_iff.mpr hbuf
        obtain ⟨fuel, hdone⟩ := (getAsymmetricAccessState_done_iff hlast).mpr ⟨h buf hlast, rfl⟩
        exact ⟨fuel, _, hdone⟩

/-- With all bytes 0xff the announced length plus 4 is 3 in 32 bits, and the fifth of the
port groups begins behind the buffer. -/
theorem walks_inside_fails :
    ¬ ∃ fuel rc, getAsymmetricAccessState fuel 0 true true (some (List.replicate 4096 0xff)) none =
      .done rc := by
  rintro ⟨fuel, rc, hdone⟩
  have hfill : fill 4096 (List.replicate 4096 0xff) = List.replicate 4096 0xff := by
    rw [fill, List.length_replicate, List.take_of_length_le List.length_replicate.le]
    exact List.append_nil _
  have hlength : beAt (List.replicate 4096 0xff) 0 4 = 2 ^ 32 - 1 := by
    rw [beAt, List.drop_replicate, List.take_replicate]
    rfl
  have hlast : LastGroups true true (some (List.replicate 4096 0xff)) none
      (fill 4096 (List.replicate 4096 0xff)) := by
    apply LastGroups.first _ _ rfl
    rw [hfill, hlength]
    decide
  have hinside := ((getAsymmetricAccessState_done_iff hlast).mp ⟨fuel, hdone⟩).1
  rw [hfill] at hinside
  have hnext (d : ℕ) (hd : d + 7 < 4096) :
      (portGroups (List.replicate 4096 0xff)).next d = d + 1028 := by
    show d + 8 + BitVec.toNat (List.getD _ _ _) * 4 = _
    rw [List.getD_eq_getElem?_getD, List.getElem?_replicate, if_pos hd]
    rfl
  have hmem : 4116 ∈ offsets (portGroups (List.replicate 4096 0xff)) (2 ^ 32 - 1) 4 := by
    rw [offsets_of_lt (by decide), hnext 4 (by decide), offsets_of_lt (by decide),
      hnext 1032 (by decide), offsets_of_lt (by decide), hnext 2060 (by decide),
      offsets_of_lt (by decide), hnext 3088 (by decide), offsets_of_lt (by decide)]
    iterate 4 apply List.mem_cons_of_mem
    exact List.mem_cons_self
  have hle := hinside 4116 (by rwa [hlength])
  rw [List.length_replicate] at hle
  omega

end MultipathTools.Alua
