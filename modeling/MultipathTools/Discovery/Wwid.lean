import MultipathTools.Discovery.Page83
import MultipathTools.Discovery.VendorText

/-! The WWID that `parse_vpd_pg83` makes of a well-formed page: which designator it is made
of, and its text. -/
namespace MultipathTools.Discovery

namespace Designator

/-- The SCSI name behind its prefix, without the padding. -/
def name (x : Designator) : List Byte := (x.id.drop 4).takeWhile (· ≠ 0)

/-- The NAA types, in the documented order. -/
def naaOrder (b : Byte) : ℕ :=
  match b.toNat / 16 with
  | 6 => 7
  | 5 => 6
  | 2 => 5
  | 3 => 1
  | _ => 0

/-- The documented order: NAA 6, NAA 5, NAA 2, SCSI name, EUI-64, T10 vendor ID, NAA 3. -/
def order (x : Designator) : ℕ :=
  if ¬ x.ofLun then 0
  else match x.type with
  | 0x3 => naaOrder (x.id.headD 0)
  | 0x8 => 4
  | 0x2 => 3
  | 0x1 => 2
  | _ => 0

/-- What a designator of the logical unit must be like: NAA and EUI-64 designators are not
empty, a SCSI name has a known prefix, a name, and NULs up to its end. -/
structure WellFormed (x : Designator) : Prop where
  binary : x.ofLun → x.type = 0x3 ∨ x.type = 0x2 → x.id ≠ []
  prefixed : x.ofLun → x.type = 0x8 →
    x.id.take 4 = euiPrefix ∨ x.id.take 4 = naaPrefix ∨ x.id.take 4 = iqnPrefix
  named : x.ofLun → x.type = 0x8 → x.name ≠ []
  terminated : x.ofLun → x.type = 0x8 →
    ∃ k, x.id.drop 4 = x.name ++ List.replicate (k + 1) 0

/-- The WWID in a buffer of `n` bytes: the type digit and the hex digits of all bytes that
there is room for, or the digit for the prefix and the name, cut. -/
def text (x : Designator) (n : ℕ) : List Byte :=
  if x.type = 0x8 then
    (if x.id.take 4 = euiPrefix then 0x32 :: x.name.map tolower
      else if x.id.take 4 = naaPrefix then 0x33 :: x.name.map tolower
      else 0x38 :: x.name).take (n - 1)
  else hexDigit x.type :: (x.id.take ((n - 2) / 2)).flatMap hexByte

/-- The priorities that the code gives to the documented order. -/
def prioOf (order : ℕ) : ℤ :=
  if order = 0 then -1 else if order ≤ 4 then order else order + 1

theorem prioOf_lt_iff {a b : ℕ} : prioOf a < prioOf b ↔ a < b := by
  unfold prioOf
  split_ifs <;> omega

theorem prioOf_le_iff {a b : ℕ} : prioOf a ≤ prioOf b ↔ a ≤ b := by
  rw [← not_lt, prioOf_lt_iff, not_lt]

theorem prioOf_pos_iff {a : ℕ} : 0 < prioOf a ↔ 0 < a := by
  unfold prioOf
  split_ifs <;> omega

theorem naaPrio_eq (b : Byte) : naaPrio b = prioOf (naaOrder b) := by
  unfold naaPrio naaOrder
  generalize b.toNat / 16 = naa
  rcases naa with _ | _ | _ | _ | _ | _ | _ | naa <;> rfl

section At

variable {x : Designator} {buf : List Byte} {d : ℕ}

theorem At.first (h : x.At buf d) (hid : x.id ≠ []) : buf.getD (d + 4) 0 = x.id.headD 0 := by
  obtain ⟨b, id, hb⟩ := List.exists_cons_of_ne_nil hid
  rw [h.byte (i := 4) (by rw [encode_length, hb, List.length_cons]; omega), encode, hb]
  rfl

theorem At.rank_eq (h : x.At buf d) (hwf : x.WellFormed) : rank buf d = prioOf x.order := by
  by_cases hlun : x.ofLun
  · unfold rank order
    rw [h.type_eq, if_neg (not_not.mpr (h.ofLun_iff.mpr hlun)), if_neg (not_not.mpr hlun)]
    by_cases h3 : x.type = 0x3
    · rw [h.first (hwf.binary hlun (Or.inl h3)), naaPrio_eq, h3]
      rfl
    · generalize x.type = type at h3
      rcases type with _ | _ | _ | _ | _ | _ | _ | _ | _ | type
      case succ.succ.succ.zero => exact absurd rfl h3
      all_goals rfl
  · rw [rank, order, if_pos (mt h.ofLun_iff.mp hlun), if_pos hlun]
    rfl

theorem At.name_drop (h : x.At buf d) (hlen : 4 ≤ x.id.length) :
    (buf.drop (d + 4)).take 4 = x.id.take 4 := by
  obtain ⟨rest, hrest⟩ := h.id_drop
  rw [hrest, List.take_append_of_le_length hlen]

/-- A well-formed SCSI name is longer than its prefix and the name. -/
theorem WellFormed.name_lt (hwf : x.WellFormed) (hlun : x.ofLun) (htype : x.type = 0x8) :
    4 + x.name.length < x.id.length := by
  obtain ⟨k, hk⟩ := hwf.terminated hlun htype
  have hlen := congrArg List.length hk
  rw [List.length_drop, List.length_append, List.length_replicate] at hlen
  omega

/-- The walk goes on behind every designator of a well-formed page. -/
theorem At.passed (h : x.At buf d) (hwf : x.WellFormed) : Passed buf d := by
  have hin := h.inside
  constructor
  · unfold HeaderInside looked
    rw [h.type_eq]
    split_ifs with h8 h3
    · have hlun := h.ofLun_iff.mp h8.1
      have hname := List.length_pos_iff.mpr (hwf.named hlun h8.2)
      have hlen := hwf.name_lt hlun h8.2
      omega
    · have hlen := List.length_pos_iff.mpr (hwf.binary (h.ofLun_iff.mp h3.1) (Or.inl h3.2))
      omega
    · omega
  · rintro ⟨hlun, htype, heui, hnaa, hiqn⟩
    rw [h.ofLun_iff] at hlun
    rw [h.type_eq] at htype
    have hlen := hwf.name_lt hlun htype
    rw [h.name_drop (by omega)] at heui hnaa hiqn
    rcases hwf.prefixed hlun htype with hp | hp | hp
    · exact heui hp
    · exact hnaa hp
    · exact hiqn hp

end At

end Designator

section Formatters

variable {buf out : List Byte} {vpd : ℕ} {id rest : List Byte}

theorem byteAt_drop {b : Byte} (h : buf.drop vpd = b :: rest) : byteAt buf vpd = .done b := by
  have hhead : buf[vpd]? = (buf.drop vpd)[0]? := by rw [List.getElem?_drop, Nat.add_zero]
  rw [byteAt_eq_done_iff, hhead, h]
  rfl

theorem hexByte_length (b : Byte) : (hexByte b).length = 2 := rfl

/-- The digits of the bytes are printed behind the text, as long as there is room. -/
theorem hexLoop_text {t : List Byte} (hbuf : buf.drop vpd = id ++ rest) (ht : HoldsString out t)
    (hroom : t.length + 2 * id.length < out.length) :
    ∃ out', hexLoop buf id.length vpd out t.length =
        .done ((t ++ id.flatMap hexByte).length, out') ∧
      HoldsString out' (t ++ id.flatMap hexByte) := by
  induction id generalizing vpd out t with
  | nil =>
    rw [List.flatMap_nil, List.append_nil]
    exact ⟨out, rfl, ht⟩
  | cons b id ih =>
    rw [List.length_cons] at hroom
    have htext : t <+: out := (List.prefix_append _ _).trans ht
    obtain ⟨out₁, hwrite, hlen, hout₁⟩ := @writeAt_append _ out (hexByte b ++ [0]) t.length t rfl htext
      (by rw [List.length_append, List.length_append, hexByte_length, List.length_singleton]; omega)
    have hnext : buf.drop (vpd + 1) = id ++ rest := by
      rw [← List.drop_drop, hbuf]
      rfl
    rw [← List.append_assoc] at hout₁
    have htLen : (t ++ hexByte b).length = t.length + 2 := by
      rw [List.length_append, hexByte_length]
    obtain ⟨out₂, hloop, hout₂⟩ := ih hnext hout₁ (by rw [htLen, hlen]; omega)
    rw [htLen] at hloop
    rw [List.flatMap_cons, ← List.append_assoc]
    refine ⟨out₂, ?_, hout₂⟩
    rw [List.length_cons, hexLoop, byteAt_drop hbuf, Outcome.bind_done, hwrite, Outcome.bind_done]
    exact hloop

theorem formatHex_text {vpdType : ℕ} (hbuf : buf.drop vpd = id ++ rest) (hout : 1 < out.length) :
    let text := hexDigit vpdType :: (id.take ((out.length - 2) / 2)).flatMap hexByte
    ∃ out', formatHex buf vpd vpdType id.length out = .done (text.length, out') ∧
      HoldsString out' text := by
  intro text
  obtain ⟨out₁, hwrite, hlen, htext⟩ :=
    @writeAt_append _ out [hexDigit vpdType, 0] 0 [] rfl List.nil_prefix hout
  have hout₁ : HoldsString out₁ [hexDigit vpdType] := htext
  have hcount : (if 2 * id.length ≥ out₁.length - 1 then (out₁.length - 1 - 1) / 2 else id.length) =
      (id.take ((out.length - 2) / 2)).length := by
    rw [hlen, List.length_take]
    split_ifs <;> omega
  have hbuf' : buf.drop vpd = id.take ((out.length - 2) / 2) ++
      (id.drop ((out.length - 2) / 2) ++ rest) := by
    rw [← List.append_assoc, List.take_append_drop, hbuf]
  have hroom : [hexDigit vpdType].length + 2 * (id.take ((out.length - 2) / 2)).length <
      out₁.length := by
    rw [hlen, List.length_take, List.length_singleton]
    omega
  obtain ⟨out₂, hloop, hout₂⟩ := hexLoop_text hbuf' hout₁ hroom
  refine ⟨out₂, ?_, hout₂⟩
  rw [formatHex, hwrite, Outcome.bind_done]
  dsimp only
  rw [hcount]
  exact hloop

/-- The padding is stripped but for the NUL behind the name. -/
theorem stripNuls_name {name : List Byte} {k : ℕ} (hname : name ≠ []) (hnul : 0 ∉ name)
    (hbuf : buf.drop vpd = name ++ (List.replicate (k + 1) 0 ++ rest)) :
    stripNuls buf vpd (name.length + k + 1) = .done (name.length + 1) := by
  have hpos := List.length_pos_iff.mpr hname
  have hbyte : ∀ i, buf[vpd + i]? = (name ++ (List.replicate (k + 1) 0 ++ rest))[i]? := by
    intro i
    rw [← hbuf, List.getElem?_drop]
  induction k generalizing rest with
  | zero =>
    rw [Nat.add_zero, stripNuls]
    split_ifs with hlong
    · have hlast : byteAt buf (vpd + (name.length + 1 - 2)) = .done (name.getLast hname) := by
        rw [byteAt_eq_done_iff, hbyte, List.getElem?_append_left (by omega),
          ← List.getLast?_eq_some_getLast hname, List.getLast?_eq_getElem?]
        rfl
      have hne : name.getLast hname ≠ 0 := by
        intro h
        exact hnul (h ▸ List.getLast_mem hname)
      rw [hlast, Outcome.bind_done, if_neg hne]
    · rfl
  | succ k ih =>
    have hzero : byteAt buf (vpd + (name.length + (k + 1) + 1 - 2)) = .done 0 := by
      have hindex : name.length + (k + 1) + 1 - 2 = name.length + k := by omega
      rw [byteAt_eq_done_iff, hbyte, hindex, List.getElem?_append_right (by omega),
        Nat.add_sub_cancel_left, List.getElem?_append_left (by rw [List.length_replicate]; omega),
        List.getElem?_replicate, if_pos (by omega)]
    have hshift : buf.drop vpd = name ++ (List.replicate (k + 1) 0 ++ 0 :: rest) := by
      rw [hbuf, List.replicate_succ' (n := k + 1), List.append_assoc]
      rfl
    rw [stripNuls, if_pos (by omega), hzero, Outcome.bind_done, if_pos rfl]
    exact ih hshift fun i => by rw [← hshift, List.getElem?_drop]

theorem formatName_text {name : List Byte} {k : ℕ} (hbuf : buf.drop vpd = id ++ rest)
    (hid : id.drop 4 = name ++ List.replicate (k + 1) 0) (hname : name ≠ []) (hnul : 0 ∉ name)
    (hout : 1 < out.length) :
    let text := (if id.take 4 = euiPrefix then 0x32 :: name.map tolower
      else if id.take 4 = naaPrefix then 0x33 :: name.map tolower
      else 0x38 :: name).take (out.length - 1)
    ∃ out', formatName buf vpd id.length out = .done (text.length, out') ∧ HoldsString out' text := by
  intro text
  have hidLen : id.length = 4 + (name.length + k + 1) := by
    have hlen := congrArg List.length hid
    rw [List.length_drop, List.length_append, List.length_replicate] at hlen
    omega
  have hbufLen : vpd + id.length ≤ buf.length := by
    have hlen := congrArg List.length hbuf
    rw [List.length_drop, List.length_append] at hlen
    omega
  have hread : readAt buf vpd 4 = .done (id.take 4) := by
    rw [readAt_of_le (by omega), hbuf, List.take_append_of_le_length (by omega)]
  have hdrop : buf.drop (vpd + 4) = name ++ (List.replicate (k + 1) 0 ++ rest) := by
    rw [← List.drop_drop, hbuf, List.drop_append_of_le_length (by omega), hid, List.append_assoc]
  -- the digit, and what becomes of the characters of the name
  obtain ⟨digit, f, hdigit, htext, hcase⟩ : ∃ (digit : Byte) (f : Byte → Byte),
      (if id.take 4 = euiPrefix then (0x32 : Byte) else if id.take 4 = naaPrefix then 0x33 else 0x38) =
        digit ∧ text = (digit :: name.map f).take (out.length - 1) ∧
      ∀ s : List Byte, (if digit = 0x38 then s else s.map tolower) = s.map f := by
    by_cases heui : id.take 4 = euiPrefix
    · refine ⟨0x32, tolower, if_pos heui, ?_, fun s => if_neg (by decide)⟩
      show List.take _ (if _ then _ else _) = _
      rw [if_pos heui]
    · by_cases hnaa : id.take 4 = naaPrefix
      · refine ⟨0x33, tolower, by rw [if_neg heui, if_pos hnaa], ?_, fun s => if_neg (by decide)⟩
        show List.take _ (if _ then _ else if _ then _ else _) = _
        rw [if_neg heui, if_pos hnaa]
      · refine ⟨0x38, fun b => b, by rw [if_neg heui, if_neg hnaa], ?_, fun s => ?_⟩
        · show List.take _ (if _ then _ else if _ then _ else _) = _
          rw [if_neg heui, if_neg hnaa, List.map_id']
        · rw [if_pos rfl, List.map_id']
  generalize hz : List.replicate (k + 1) (0 : Byte) ++ rest = z at hdrop
  obtain ⟨len, hlen⟩ : ∃ len, len = min (name.length + 1) (out.length - 1) := ⟨_, rfl⟩
  have hcut : (if name.length + 1 > out.length - 1 then out.length - 1 else name.length + 1) = len := by
    rw [hlen]
    split_ifs <;> omega
  obtain ⟨out₁, hwrite₁, hlen₁, hout₁⟩ :=
    @writeAt_append _ out [digit] 0 [] rfl List.nil_prefix (Nat.le_of_lt hout)
  have hs : readAt buf (vpd + 4) len = .done ((name ++ z).take len) := by
    rw [readAt_of_le (by omega), hdrop]
  have hsLen : (((name ++ z).take len).map f).length = len := by
    have hzLen : (name ++ z).length = buf.length - (vpd + 4) := by rw [← hdrop, List.length_drop]
    rw [List.length_map, List.length_take]
    omega
  obtain ⟨out₂, hwrite₂, hlen₂, hout₂⟩ :=
    @writeAt_append _ out₁ (((name ++ z).take len).map f) 1 ([] ++ [digit]) rfl hout₁ (by
      rw [List.length_append, hsLen, hlen₁]
      show 1 + len ≤ out.length
      omega)
  have htake : (digit :: ((name ++ z).take len).map f).take len = text := by
    obtain ⟨m, rfl⟩ := Nat.exists_eq_add_of_le' (show 1 ≤ len by omega)
    obtain ⟨room, hroom⟩ := Nat.exists_eq_add_of_le' (show 1 ≤ out.length - 1 by omega)
    rw [htext, hroom, List.take_succ_cons, List.take_succ_cons, List.map_take, List.take_take,
      List.map_append, List.take_append_of_le_length (by rw [List.length_map]; omega),
      List.cons_inj_right, List.take_eq_take_iff, List.length_map]
    omega
  have htextLen : text.length = len := by
    rw [← htake, List.length_take, List.length_cons, hsLen]
    omega
  obtain ⟨out₃, hwrite₃, -, hout₃⟩ := @writeAt_append _ out₂ [0] len text htextLen.symm
    ((htake ▸ List.take_prefix _ _).trans hout₂) (by
      rw [List.length_append, htextLen, hlen₂, hlen₁, List.length_singleton]
      omega)
  refine ⟨out₃, ?_, hout₃⟩
  rw [formatName, hread, Outcome.bind_done]
  dsimp only
  have hstrip : stripNuls buf (vpd + 4) (id.length - 4) = .done (name.length + 1) := by
    have hidLen' : id.length - 4 = name.length + k + 1 := by omega
    rw [hidLen']
    exact stripNuls_name hname hnul (by rw [hdrop, hz])
  rw [hdigit, hwrite₁, Outcome.bind_done, hstrip, Outcome.bind_done, hlen₁, hcut, hs,
    Outcome.bind_done, hcase, hwrite₂, Outcome.bind_done, hwrite₃, htextLen]
  rfl

end Formatters

/-- A designator of the logical unit that is no vendor ID is formatted as its text. -/
theorem Designator.At.format {x : Designator} {buf out : List Byte} {d : ℕ} (h : x.At buf d)
    (hwf : x.WellFormed) (horder : 0 < x.order) (htype : x.type ≠ 0x1) (hout : 1 < out.length) :
    ∃ out', formatDesignator buf d out = .done ((x.text out.length).length, out') ∧
      HoldsString out' (x.text out.length) := by
  have hin := h.inside
  obtain ⟨rest, hrest⟩ := h.id_drop
  rw [formatDesignator_eq (by omega), h.type_eq, h.length]
  unfold Designator.text
  have hlun : x.ofLun := by
    by_contra hlun
    rw [Designator.order, if_pos hlun] at horder
    exact absurd horder (Nat.lt_irrefl 0)
  by_cases h8 : x.type = 0x8
  · obtain ⟨k, hk⟩ := hwf.terminated hlun h8
    have hlen := hwf.name_lt hlun h8
    have hnul : 0 ∉ x.name := by
      intro hmem
      have hp := List.mem_takeWhile_imp hmem
      exact of_decide_eq_true hp rfl
    rw [if_neg (by omega), if_neg (by omega), if_pos h8, if_pos h8]
    exact formatName_text hrest hk (hwf.named hlun h8) hnul hout
  · have hbinary : x.type = 0x2 ∨ x.type = 0x3 := by
      by_contra hnone
      obtain ⟨h2, h3⟩ := not_or.mp hnone
      rw [Designator.order, if_neg (not_not.mpr hlun)] at horder
      split at horder
      · contradiction
      · contradiction
      · contradiction
      · contradiction
      · exact absurd horder (Nat.lt_irrefl 0)
    rw [if_pos hbinary, if_neg h8]
    exact formatHex_text hrest hout

section Page

variable {hdr rest : List Byte} {ds pre post : List Designator} {x : Designator}

/-- A buffer with a page: its header, the designators, and whatever follows. -/
def pageBuffer (hdr : List Byte) (ds : List Designator) (rest : List Byte) : List Byte :=
  hdr ++ (encodeAll ds ++ rest)

theorem encodeAll_page (hhdr : hdr.length = 4) :
    encodeAll ds <+: (pageBuffer hdr ds rest).drop 4 := by
  rw [pageBuffer, List.drop_left' hhdr]
  exact List.prefix_append _ _

theorem offsets_pageBuffer (hhdr : hdr.length = 4) :
    offsets (designators (pageBuffer hdr ds rest)) (4 + (encodeAll ds).length) 4 =
      positions 4 ds :=
  offsets_page (encodeAll_page hhdr)

theorem passed_page (hhdr : hdr.length = 4) (hwf : ∀ x ∈ ds, x.WellFormed) :
    ∀ e ∈ positions 4 ds, Passed (pageBuffer hdr ds rest) e := by
  intro e he
  obtain ⟨pre, x, post, rfl, rfl⟩ := exists_of_mem_positions he
  exact (at_of_encodeAll (encodeAll_page hhdr)).passed (hwf x (by simp))

/-- A designator of the page begins behind those before it. -/
theorem at_page (hhdr : hdr.length = 4) (hds : ds = pre ++ x :: post) :
    x.At (pageBuffer hdr ds rest) (4 + (encodeAll pre).length) := by
  have hpage : encodeAll ds <+: (pageBuffer hdr ds rest).drop 4 := encodeAll_page hhdr
  rw [hds] at hpage ⊢
  exact at_of_encodeAll hpage

/-- The rank of a position is that of the designator there. -/
theorem rank_page (hhdr : hdr.length = 4) (hwf : ∀ x ∈ ds, x.WellFormed)
    (hds : ds = pre ++ x :: post) :
    rank (pageBuffer hdr ds rest) (4 + (encodeAll pre).length) = Designator.prioOf x.order := by
  apply (at_page hhdr hds).rank_eq
  apply hwf
  rw [hds]
  exact List.mem_append_right pre List.mem_cons_self

/-- The first designator of the highest order is at the first position of the highest rank. -/
theorem isFirstMax_page (hhdr : hdr.length = 4) (hwf : ∀ x ∈ ds, x.WellFormed)
    (hds : ds = pre ++ x :: post)
    (hpre : ∀ y ∈ pre, y.order < x.order) (hpost : ∀ y ∈ post, y.order ≤ x.order) :
    IsFirstMax (rank (pageBuffer hdr ds rest)) (positions 4 ds) (4 + (encodeAll pre).length) := by
  have hx : rank (pageBuffer hdr ds rest) (4 + (encodeAll pre).length) =
      Designator.prioOf x.order := rank_page hhdr hwf hds
  refine ⟨positions 4 pre, positions (4 + (encodeAll pre).length + x.encode.length) post, ?_,
    fun e he => ?_, fun e he => ?_⟩
  · rw [hds, positions_append]
    rfl
  · obtain ⟨pre', y, post', hpre', rfl⟩ := exists_of_mem_positions he
    have hy : ds = pre' ++ y :: (post' ++ x :: post) := by
      rw [hds, hpre', List.append_assoc, List.cons_append]
    rw [rank_page hhdr hwf hy, hx, Designator.prioOf_lt_iff]
    apply hpre
    rw [hpre']
    exact List.mem_append_right pre' List.mem_cons_self
  · obtain ⟨pre', y, post', hpost', rfl⟩ := exists_of_mem_positions he
    have hy : ds = (pre ++ x :: pre') ++ y :: post' := by
      rw [hds, hpost', List.append_assoc, List.cons_append]
    have hposition : 4 + (encodeAll pre).length + x.encode.length + (encodeAll pre').length =
        4 + (encodeAll (pre ++ x :: pre')).length := by
      rw [encodeAll_append, encodeAll_cons, List.length_append, List.length_append]
      omega
    rw [hposition, rank_page hhdr hwf hy, hx, Designator.prioOf_le_iff]
    apply hpost
    rw [hpost']
    exact List.mem_append_right pre' List.mem_cons_self

/-- A well-formed page, with any header and anything behind it. The first designator of the
logical unit that comes first in the documented order is formatted: NAA, EUI-64 and SCSI
name designators as their text, a vendor ID by the branch for vendor IDs. `-ENODATA` is
returned if and only if there is none. -/
theorem parseVpdPg83_wwid {hdr rest out : List Byte} {ds : List Designator}
    (hhdr : hdr.length = 4) (hwf : ∀ x ∈ ds, x.WellFormed) (hout : 1 < out.length) :
    let buf := pageBuffer hdr ds rest
    let inLen := 4 + (encodeAll ds).length
    (∀ pre x post, ds = pre ++ x :: post → 0 < x.order → (∀ y ∈ pre, y.order < x.order) →
      (∀ y ∈ post, y.order ≤ x.order) →
      (x.type ≠ 0x1 → ∃ fuel out', parseVpdPg83 fuel buf inLen out =
          .done ((x.text out.length).length, out') ∧ HoldsString out' (x.text out.length)) ∧
      (x.type = 0x1 → ∀ r, (∃ fuel, parseVpdPg83 fuel buf inLen out = .done r) ↔
        formatVendorId buf (4 + (encodeAll pre).length + 4) x.id.length out = .done r)) ∧
    ((∃ fuel out', parseVpdPg83 fuel buf inLen out = .done (-enodata, out')) ↔
      ∀ x ∈ ds, x.order = 0) := by
  intro buf inLen
  have hos : offsets (designators buf) inLen 4 = positions 4 ds := offsets_pageBuffer hhdr
  have hpass : ∀ e ∈ offsets (designators buf) inLen 4, Passed buf e := by
    rw [hos]
    exact passed_page hhdr hwf
  have hbest : ∀ pre x post, ds = pre ++ x :: post → 0 < x.order →
      (∀ y ∈ pre, y.order < x.order) → (∀ y ∈ post, y.order ≤ x.order) →
      ∀ r, (∃ fuel, parseVpdPg83 fuel buf inLen out = .done r) ↔
        formatDesignator buf (4 + (encodeAll pre).length) out = .done r := by
    intro pre x post hds horder hpre hpost r
    apply parseVpdPg83_chosen hpass _ _ hout
    · rw [hos]
      exact isFirstMax_page hhdr hwf hds hpre hpost
    · rw [rank_page hhdr hwf hds, Designator.prioOf_pos_iff]
      exact horder
  have hvendor : ∀ pre x post, ds = pre ++ x :: post → x.type = 0x1 →
      formatDesignator buf (4 + (encodeAll pre).length) out =
        formatVendorId buf (4 + (encodeAll pre).length + 4) x.id.length out := by
    intro pre x post hds htype
    have hx : x.At buf (4 + (encodeAll pre).length) := at_page hhdr hds
    have hin := hx.inside
    rw [formatDesignator_eq (by omega), hx.type_eq, hx.length, htype]
    rfl
  have hformat : ∀ pre x post, ds = pre ++ x :: post → 0 < x.order → x.type ≠ 0x1 →
      ∃ out', formatDesignator buf (4 + (encodeAll pre).length) out =
        .done ((x.text out.length).length, out') ∧ HoldsString out' (x.text out.length) := by
    intro pre x post hds horder htype
    refine (at_page hhdr hds).format (hwf x ?_) horder htype hout
    rw [hds]
    exact List.mem_append_right pre List.mem_cons_self
  constructor
  · intro pre x post hds horder hpre hpost
    refine ⟨fun htype => ?_, fun htype r => ?_⟩
    · obtain ⟨out', hdone, htext⟩ := hformat pre x post hds horder htype
      obtain ⟨fuel, hdone⟩ := (hbest pre x post hds horder hpre hpost _).mpr hdone
      exact ⟨fuel, out', hdone, htext⟩
    · rw [hbest pre x post hds horder hpre hpost, hvendor pre x post hds htype]
  · constructor
    · rintro ⟨fuel, out', hdone⟩
      by_contra hsome
      obtain ⟨y, hy, hne⟩ : ∃ y ∈ ds, y.order ≠ 0 := by
        by_contra hnone
        exact hsome fun y hy => by_contra fun hne => hnone ⟨y, hy, hne⟩
      obtain ⟨x, hx⟩ := exists_isFirstMax (r := Designator.order) (List.ne_nil_of_mem hy)
      have horder : 0 < x.order := Nat.lt_of_lt_of_le (Nat.pos_of_ne_zero hne) (hx.le hy)
      obtain ⟨pre, post, hds, hpre, hpost⟩ := hx
      have hdone' := (hbest pre x post hds horder hpre hpost _).mp ⟨fuel, hdone⟩
      by_cases htype : x.type = 0x1
      · rw [hvendor pre x post hds htype, (formatVendorId_eq _ _ _ hout).1] at hdone'
        have hle := vendor_len hdone'
        rw [(formatVendorId_eq _ _ _ hout).2.len] at hle
        exact absurd hle (by decide)
      · obtain ⟨out₂, htext, -⟩ := hformat pre x post hds horder htype
        have hneg := congrArg Prod.fst (Outcome.done.inj (htext.symm.trans hdone'))
        have hpos : (0 : ℤ) ≤ (x.text out.length).length := Int.natCast_nonneg _
        rw [show ((x.text out.length).length : ℤ) = -enodata from hneg] at hpos
        exact absurd hpos (by decide)
    · intro hzero
      refine ⟨inLen, out, parseVpdPg83_none hpass (fun e he => ?_) out⟩
      rw [hos] at he
      obtain ⟨pre, x, post, hds, rfl⟩ := exists_of_mem_positions he
      have hx : x ∈ ds := by
        rw [hds]
        exact List.mem_append_right pre List.mem_cons_self
      rw [rank_page hhdr hwf hds, hzero x hx]
      decide

/-- The SCSI name "naa.Ab" of the logical unit. -/
def nameDesignator : Designator :=
  ⟨0x03, 0x08, 0, [0x6e, 0x61, 0x61, 0x2e, 0x41, 0x62, 0, 0], by decide⟩

/-- An EUI-64 designator. -/
def euiDesignator : Designator := ⟨0x01, 0x02, 0, [0xab], by decide⟩

theorem parseVpdPg83_wwid_name :
    ∃ fuel out', parseVpdPg83 fuel
        (pageBuffer [0, 0x83, 0, 17] [euiDesignator, nameDesignator] []) 21
        (List.replicate 10 0xff) = .done (3, out') ∧ HoldsString out' [0x33, 0x61, 0x62] := by
  have heui : euiDesignator.WellFormed :=
    ⟨fun _ _ => by decide, fun _ h => absurd h (by decide), fun _ h => absurd h (by decide),
      fun _ h => absurd h (by decide)⟩
  have hname : nameDesignator.WellFormed :=
    ⟨fun _ h => absurd h (by decide), fun _ _ => Or.inr (Or.inl rfl), fun _ _ => by decide,
      fun _ _ => ⟨1, rfl⟩⟩
  have hwf : ∀ x ∈ [euiDesignator, nameDesignator], x.WellFormed := by
    intro x hx
    rcases List.mem_cons.mp hx with rfl | hx
    · exact heui
    · rw [List.mem_singleton.mp hx]
      exact hname
  have hpre : ∀ y ∈ [euiDesignator], y.order < nameDesignator.order := by
    intro y hy
    rw [List.mem_singleton.mp hy]
    decide
  have hpost : ∀ y ∈ ([] : List Designator), y.order ≤ nameDesignator.order := by
    intro y hy
    cases hy
  exact ((@parseVpdPg83_wwid [0, 0x83, 0, 17] [] (List.replicate 10 0xff)
    [euiDesignator, nameDesignator] rfl hwf (by decide)).1 [euiDesignator] nameDesignator [] rfl
      (by decide) hpre hpost).1 (by decide)

end Page

end MultipathTools.Discovery
