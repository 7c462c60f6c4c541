import MultipathTools.Discovery.Vpd83
import MultipathTools.Discovery.VendorReads

/-! When the parsers of the VPD pages stay inside of the page and of their output. -/
namespace MultipathTools.Discovery

/-- The page length field. -/
def lengthField (buf : List Byte) : ℕ := ofBe ((buf.drop 2).take 2)

theorem pageLength_eq {buf : List Byte} (h : 4 ≤ buf.length) :
    pageLength buf = .done (lengthField buf) := by
  rw [pageLength, readAt_of_le h]
  rfl

section Page80

variable {buf out : List Byte} {len start : ℕ}

/-- The first byte that is looked at is the last of the serial number. -/
theorem stripTrailing_outside (hlen : 0 < len) (h : buf.length ≤ len + 3) :
    stripTrailing buf len = .outside := by
  obtain ⟨len, rfl⟩ := Nat.exists_eq_add_of_le' hlen
  rw [stripTrailing, byteAt_of_le h]
  rfl

theorem stripTrailing_inside (h : len + 4 ≤ buf.length) :
    ∃ len', stripTrailing buf len = .done len' ∧ len' ≤ len := by
  induction len with
  | zero => exact ⟨0, rfl, le_rfl⟩
  | succ len ih =>
    rw [stripTrailing, byteAt_of_lt (by omega), Outcome.bind_done]
    split_ifs
    · obtain ⟨len', hdone, hle⟩ := ih (by omega)
      exact ⟨len', hdone, by omega⟩
    · exact ⟨len + 1, rfl, le_rfl⟩

theorem stripLeading_inside (h : start + len + 4 ≤ buf.length) :
    ∃ start' len', stripLeading buf start len = .done (start', len') ∧
      start' + len' = start + len := by
  induction len generalizing start with
  | zero => exact ⟨start, 0, rfl, rfl⟩
  | succ len ih =>
    rw [stripLeading, byteAt_of_lt (by omega), Outcome.bind_done]
    split_ifs
    · have hrest : start + 1 + len + 4 ≤ buf.length := by omega
      obtain ⟨start', len', hdone, hsum⟩ := ih hrest
      exact ⟨start', len', hdone, by omega⟩
    · exact ⟨start, len + 1, rfl, rfl⟩

/-- `parse_vpd_pg80` stays inside exactly if its page does. -/
theorem parseVpdPg80_inside_iff (hbuf : 4 ≤ buf.length) (hout : 0 < out.length) :
    parseVpdPg80 buf out ≠ .outside ↔ lengthField buf + 4 ≤ buf.length := by
  rw [parseVpdPg80, pageLength_eq hbuf, Outcome.bind_done, if_neg (Nat.ne_of_gt hout)]
  constructor
  · intro hinside
    by_contra hlen
    rw [stripTrailing_outside (by omega) (by omega)] at hinside
    exact hinside rfl
  · intro hlen
    obtain ⟨len, htrailing, hle⟩ := stripTrailing_inside hlen
    obtain ⟨start, len', hleading, hsum⟩ := @stripLeading_inside buf len 0 (by omega)
    rw [htrailing, Outcome.bind_done, hleading, Outcome.bind_done]
    dsimp only
    generalize hcut : (if len' ≥ out.length then out.length - 1 else len') = n
    have hn : n ≤ len' ∧ n < out.length := by
      rw [← hcut]
      split_ifs <;> omega
    split_ifs
    · have hreadLen : ((buf.drop (start + 4)).take n).length = n := by
        rw [List.length_take, List.length_drop]
        omega
      obtain ⟨out₁, hwrite, hlen₁⟩ :=
        @exists_writeAt _ out ((buf.drop (start + 4)).take n) 0 (by omega)
      obtain ⟨out₂, hnul, -⟩ := @exists_writeAt _ out₁ [0] n (by rw [hlen₁]; exact hn.2)
      rw [readAt_of_le (by omega), Outcome.bind_done, hwrite, Outcome.bind_done, hnul]
      intro h
      cases h
    · intro h
      cases h

end Page80

section Formatters

variable {buf out : List Byte} {vpd vpdType vpdLen len n : ℕ}

theorem hexByte_two (b : Byte) : (hexByte b ++ [0]).length = 3 := rfl

/-- The bytes that are printed lie in the buffer. -/
theorem hexLoop_inside_iff (hroom : len + 2 * n < out.length) (hvpd : vpd ≤ buf.length) :
    hexLoop buf n vpd out len ≠ .outside ↔ vpd + n ≤ buf.length := by
  induction n generalizing vpd out len with
  | zero =>
    refine iff_of_true ?_ hvpd
    intro h
    cases h
  | succ n ih =>
    rw [hexLoop]
    by_cases hin : vpd < buf.length
    · obtain ⟨out₁, hwrite, hlen₁⟩ := @exists_writeAt _ out (hexByte buf[vpd] ++ [0]) len (by
        rw [hexByte_two]
        omega)
      have hcount : vpd + (n + 1) = vpd + 1 + n := by omega
      rw [byteAt_of_lt hin, Outcome.bind_done, hwrite, Outcome.bind_done, hcount]
      exact ih (by rw [hlen₁]; omega) hin
    · rw [byteAt_of_le (Nat.not_lt.mp hin), Outcome.bind_outside]
      exact iff_of_false (not_not.mpr rfl) (by omega)

theorem formatHex_inside_iff (hout : 1 < out.length) (hvpd : vpd ≤ buf.length) :
    formatHex buf vpd vpdType vpdLen out ≠ .outside ↔
      vpd + min vpdLen ((out.length - 2) / 2) ≤ buf.length := by
  obtain ⟨out₁, hwrite, hlen₁⟩ := @exists_writeAt _ out [hexDigit vpdType, 0] 0 hout
  have hcount : (if 2 * vpdLen ≥ out₁.length - 1 then (out₁.length - 1 - 1) / 2 else vpdLen) =
      min vpdLen ((out.length - 2) / 2) := by
    rw [hlen₁]
    split_ifs <;> omega
  rw [formatHex, hwrite, Outcome.bind_done]
  dsimp only
  rw [hcount]
  exact hexLoop_inside_iff (by rw [hlen₁]; omega) hvpd

theorem stripNuls_outside (hlen : 2 < len) (h : buf.length ≤ vpd + (len - 2)) :
    stripNuls buf vpd len = .outside := by
  obtain ⟨len, rfl⟩ := Nat.exists_eq_add_of_le' (Nat.zero_lt_of_lt hlen)
  rw [stripNuls, if_pos hlen, byteAt_of_le h]
  rfl

theorem stripNuls_short (hlen : len ≤ 2) : stripNuls buf vpd len = .done len := by
  cases len with
  | zero => rfl
  | succ len => exact if_neg (Nat.not_lt.mpr hlen)

theorem stripNuls_inside (h : len ≤ 2 ∨ vpd + (len - 2) < buf.length) :
    ∃ len', stripNuls buf vpd len = .done len' ∧ len' ≤ len := by
  induction len with
  | zero => exact ⟨0, rfl, le_rfl⟩
  | succ len ih =>
    by_cases hlen : len + 1 ≤ 2
    · exact ⟨len + 1, stripNuls_short hlen, le_rfl⟩
    · rw [stripNuls, if_pos (Nat.not_le.mp hlen), byteAt_of_lt (h.resolve_left hlen), Outcome.bind_done]
      split_ifs
      · obtain ⟨len', hdone, hle⟩ := ih (by omega)
        exact ⟨len', hdone, by omega⟩
      · exact ⟨len + 1, rfl, le_rfl⟩

/-- The byte that is looked at first decides whether the name gets shorter. -/
theorem stripNuls_first (hlen : 2 < len) (h : vpd + (len - 2) < buf.length) :
    if buf[vpd + (len - 2)] = 0 then ∃ len', stripNuls buf vpd len = .done len' ∧ len' < len
    else stripNuls buf vpd len = .done len := by
  obtain ⟨len, rfl⟩ := Nat.exists_eq_add_of_le' (Nat.zero_lt_of_lt hlen)
  have hstep : stripNuls buf vpd (len + 1) =
      if buf[vpd + (len + 1 - 2)] = 0 then stripNuls buf vpd len else .done (len + 1) := by
    rw [stripNuls, if_pos hlen, byteAt_of_lt h]
    rfl
  split_ifs with hzero
  · rw [hstep, if_pos hzero]
    obtain ⟨len', hdone, hle⟩ := @stripNuls_inside buf vpd len (by omega)
    exact ⟨len', hdone, Nat.lt_succ_of_le hle⟩
  · rw [hstep, if_neg hzero]

theorem stripNuls_total (buf : List Byte) (vpd len : ℕ) :
    stripNuls buf vpd len = .outside ∨ ∃ len', stripNuls buf vpd len = .done len' := by
  by_cases h : len ≤ 2 ∨ vpd + (len - 2) < buf.length
  · obtain ⟨len', hdone, -⟩ := stripNuls_inside h
    exact .inr ⟨len', hdone⟩
  · exact .inl (stripNuls_outside (by omega) (by omega))

/-- What is left of a name is read as far as there is room for it. -/
theorem formatName_reads (hout : 1 < out.length) (hvpd : vpd + 4 ≤ buf.length) :
    formatName buf vpd vpdLen out ≠ .outside ↔
      ∃ len, stripNuls buf (vpd + 4) (vpdLen - 4) = .done len ∧
        vpd + 4 + min len (out.length - 1) ≤ buf.length := by
  unfold formatName
  rw [readAt_of_le hvpd, Outcome.bind_done]
  dsimp only
  generalize (if (buf.drop vpd).take 4 = euiPrefix then (0x32 : Byte)
    else if (buf.drop vpd).take 4 = naaPrefix then 0x33 else 0x38) = digit
  obtain ⟨out₁, hwrite, hlen₁⟩ := @exists_writeAt _ out [digit] 0 (Nat.le_of_lt hout)
  rw [hwrite, Outcome.bind_done]
  obtain hstrip | ⟨len, hstrip⟩ := stripNuls_total buf (vpd + 4) (vpdLen - 4)
  · simp [hstrip]
  · have hcut : (if len > out₁.length - 1 then out₁.length - 1 else len) =
        min len (out.length - 1) := by
      rw [hlen₁]
      split_ifs <;> omega
    rw [hstrip, Outcome.bind_done, hcut]
    by_cases hin : vpd + 4 + min len (out.length - 1) ≤ buf.length
    · refine iff_of_true ?_ ⟨len, rfl, hin⟩
      have hreadLen : ((buf.drop (vpd + 4)).take (min len (out.length - 1))).length =
          min len (out.length - 1) := by
        rw [List.length_take, List.length_drop]
        omega
      obtain ⟨out₂, hname, hlen₂⟩ := @exists_writeAt _ out₁
        (if digit = 0x38 then (buf.drop (vpd + 4)).take (min len (out.length - 1))
          else ((buf.drop (vpd + 4)).take (min len (out.length - 1))).map tolower) 1 (by
        split_ifs
        · omega
        · rw [List.length_map]
          omega)
      obtain ⟨out₃, hnul, -⟩ := @exists_writeAt _ out₂ [0] (min len (out.length - 1)) (by
        rw [List.length_singleton]
        omega)
      rw [readAt_of_le hin, Outcome.bind_done, hname, Outcome.bind_done, hnul]
      intro h
      cases h
    · rw [readAt_of_lt (Nat.not_le.mp hin), Outcome.bind_outside]
      refine iff_of_false (not_not.mpr rfl) ?_
      rintro ⟨len', hdone, hle⟩
      cases hdone
      exact hin hle

/-- A SCSI name ends in the buffer; or one byte behind it, and the output is too short for its last
byte or its last but one is a NUL. -/
def NameInside (buf : List Byte) (vpd vpdLen n : ℕ) : Prop :=
  vpd + vpdLen ≤ buf.length ∨
    vpd + vpdLen = buf.length + 1 ∧ (n + 4 ≤ vpdLen ∨ 6 < vpdLen ∧ buf.getLast? = some 0)

theorem formatName_inside_iff (hout : 1 < out.length) (hvpd : vpd + 4 ≤ buf.length)
    (hlen : 4 ≤ vpdLen) :
    formatName buf vpd vpdLen out ≠ .outside ↔ NameInside buf vpd vpdLen out.length := by
  rw [formatName_reads hout hvpd, NameInside]
  have hlast : ∀ h : vpd + 4 + (vpdLen - 4 - 2) < buf.length, vpd + vpdLen = buf.length + 1 →
      6 < vpdLen → buf.getLast? = some buf[vpd + 4 + (vpdLen - 4 - 2)] := by
    intro h hend hlong
    have hindex : buf.length - 1 = vpd + 4 + (vpdLen - 4 - 2) := by omega
    rw [List.getLast?_eq_getElem?, hindex, List.getElem?_eq_getElem h]
  by_cases hshort : vpdLen - 4 ≤ 2
  · rw [stripNuls_short hshort]
    constructor
    · rintro ⟨len, hdone, hle⟩
      cases hdone
      omega
    · intro h
      exact ⟨_, rfl, by omega⟩
  · have hlong : 2 < vpdLen - 4 := Nat.not_le.mp hshort
    by_cases hin : vpd + 4 + (vpdLen - 4 - 2) < buf.length
    · have hfirst := stripNuls_first hlong hin
      split_ifs at hfirst with hzero
      · obtain ⟨len, hdone, hless⟩ := hfirst
        refine iff_of_true ⟨len, hdone, by omega⟩ ?_
        by_cases hend : vpd + vpdLen ≤ buf.length
        · exact .inl hend
        · refine .inr ⟨by omega, .inr ⟨by omega, ?_⟩⟩
          rw [hlast hin (by omega) (by omega), hzero]
      · rw [hfirst]
        constructor
        · rintro ⟨len, hdone, hle⟩
          cases hdone
          omega
        · rintro (hend | ⟨hend, hroom | ⟨hmore, hnul⟩⟩)
          · exact ⟨_, rfl, by omega⟩
          · exact ⟨_, rfl, by omega⟩
          · rw [hlast hin hend hmore] at hnul
            exact absurd (Option.some.inj hnul) hzero
    · rw [stripNuls_outside hlong (Nat.not_lt.mp hin)]
      refine iff_of_false ?_ (by omega)
      rintro ⟨len, hdone, -⟩
      cases hdone

end Formatters

section Page83

variable {buf out : List Byte} {inLen d fuel : ℕ}

/-- The bytes that are read of the chosen designator, with an output of `n` bytes. -/
def DesignatorInside (buf : List Byte) (d n : ℕ) : Prop :=
  if typeAt buf d = 0x2 ∨ typeAt buf d = 0x3 then
    d + 4 + min (lengthAt buf d) ((n - 2) / 2) ≤ buf.length
  else if typeAt buf d = 0x8 then lengthAt buf d < 4 ∨ NameInside buf (d + 4) (lengthAt buf d) n
  else VendorInside (buf.drop (d + 4)) (lengthAt buf d) n

theorem ofLun_of_rank (h : 0 < rank buf d) : OfLun buf d := by
  by_contra hlun
  rw [rank, if_pos hlun] at h
  exact absurd h (by decide)

/-- A designator with a priority has one of four types. -/
theorem typeAt_of_rank (h : 0 < rank buf d) :
    typeAt buf d = 0x1 ∨ typeAt buf d = 0x2 ∨ typeAt buf d = 0x3 ∨ typeAt buf d = 0x8 := by
  rw [rank, if_neg (not_not.mpr (ofLun_of_rank h))] at h
  split at h
  · next ht => exact .inr (.inr (.inl ht))
  · next ht => exact .inr (.inr (.inr ht))
  · next ht => exact .inr (.inl ht)
  · next ht => exact .inl ht
  · exact absurd h (by decide)

theorem formatDesignator_inside_iff (hbuf : buf.length < sizeMod) (hout : 1 < out.length)
    (hin : HeaderInside buf d) (hrank : 0 < rank buf d) :
    formatDesignator buf d out ≠ .outside ↔ DesignatorInside buf d out.length := by
  have hlun := ofLun_of_rank hrank
  have h4 : d + 4 ≤ buf.length := by
    unfold HeaderInside looked at hin
    split_ifs at hin <;> omega
  rw [formatDesignator_eq h4, DesignatorInside]
  by_cases hhex : typeAt buf d = 0x2 ∨ typeAt buf d = 0x3
  · rw [if_pos hhex, if_pos hhex, formatHex_inside_iff hout h4]
  · rw [if_neg hhex, if_neg hhex]
    by_cases hname : typeAt buf d = 0x8
    · have h8 : d + 8 ≤ buf.length := by
        rwa [HeaderInside, looked, if_pos ⟨hlun, hname⟩] at hin
      rw [if_pos hname]
      by_cases hshort : lengthAt buf d < 4
      · rw [if_pos ⟨hname, hshort⟩, if_pos hname]
        refine iff_of_true ?_ (.inl hshort)
        intro h
        cases h
      · rw [if_neg fun h => hshort h.2, if_pos hname,
          formatName_inside_iff hout (by omega) (Nat.not_lt.mp hshort)]
        exact (or_iff_right hshort).symm
    · have hvendor : typeAt buf d = 0x1 := by
        rcases typeAt_of_rank hrank with h | h | h | h
        · exact h
        · exact absurd (.inl h) hhex
        · exact absurd (.inr h) hhex
        · exact absurd h hname
      rw [if_neg fun h => hname h.1, if_neg hname, if_pos hvendor, if_neg hname,
        formatVendorId_inside_iff hout hbuf (lengthAt_lt buf d)]

/-- The walk reads the header of a designator in the buffer, up to the first at which it is stuck;
if it is not, the chosen designator is read in the buffer. -/
structure Page83Inside (buf : List Byte) (inLen n : ℕ) : Prop where
  walk : ∀ pre d post, offsets (designators buf) inLen 4 = pre ++ d :: post →
    (∀ e ∈ pre, Passed buf e) → HeaderInside buf d
  chosen : (∀ e ∈ offsets (designators buf) inLen 4, Passed buf e) → 1 < n →
    ∀ d, IsFirstMax (rank buf) (offsets (designators buf) inLen 4) d → 0 < rank buf d →
      DesignatorInside buf d n

/-- More turns do not undo an access outside. -/
theorem parseVpdPg83_more (h : parseVpdPg83 fuel buf inLen out = .outside) (n : ℕ) :
    parseVpdPg83 (fuel + n) buf inLen out = .outside := by
  have hne : chooseDesignator fuel buf inLen ≠ .unfinished := by
    intro hun
    rw [parseVpdPg83, hun] at h
    cases h
  rw [parseVpdPg83, chooseDesignator, whileBelow_more hne]
  exact h

theorem parseVpdPg83_inside_iff (hbuf : buf.length < sizeMod) :
    (∀ fuel, parseVpdPg83 fuel buf inLen out ≠ .outside) ↔ Page83Inside buf inLen out.length := by
  constructor
  · intro hinside
    constructor
    · intro pre d post hos hpre
      by_contra hin
      apply hinside inLen
      rw [parseVpdPg83, chooseDesignator_leaves hos hpre hin le_rfl]
      rfl
    · intro hpass hout d hfirst hrank
      have hformat := hinside inLen
      rw [parseVpdPg83_first hpass hfirst hrank hout le_rfl] at hformat
      exact (formatDesignator_inside_iff hbuf hout (hpass d hfirst.mem).1 hrank).mp hformat
  · intro hpage fuel houtside
    have hmore := parseVpdPg83_more houtside inLen
    rcases chooseDesignator_cases buf inLen with ⟨hpass, -⟩ | ⟨pre, d, post, hos, hpre, hcase⟩
    · by_cases hranks : ∀ e ∈ offsets (designators buf) inLen 4, rank buf e ≤ 0
      · rw [parseVpdPg83, chooseDesignator_passed hpass (Nat.le_add_left _ _), Outcome.bind_done,
          if_pos (foldl_consider_of_none hranks (by decide))] at hmore
        cases hmore
      · obtain ⟨e, he, hpos⟩ : ∃ e ∈ offsets (designators buf) inLen 4, 0 < rank buf e := by
          simpa using hranks
        obtain ⟨d, hfirst⟩ := @exists_isFirstMax _ _ _ (rank buf) _ (List.ne_nil_of_mem he)
        have hrank : 0 < rank buf d := lt_of_lt_of_le hpos (hfirst.le he)
        by_cases hout : 1 < out.length
        · rw [parseVpdPg83_first hpass hfirst hrank hout (Nat.le_add_left _ _)] at hmore
          exact (formatDesignator_inside_iff hbuf hout (hpass d hfirst.mem).1 hrank).mpr
            (hpage.chosen hpass hout d hfirst hrank) hmore
        · rw [parseVpdPg83, chooseDesignator_passed hpass (Nat.le_add_left _ _), Outcome.bind_done,
            foldl_consider_of_first hfirst hrank, if_neg (not_le.mpr hrank),
            if_pos (Nat.not_lt.mp hout)] at hmore
          cases hmore
    · rcases hcase with ⟨-, -, hstuck⟩ | ⟨hin, -⟩
      · rw [parseVpdPg83, hstuck] at hmore
        cases hmore
      · exact hin (hpage.walk pre d post hos hpre)

end Page83

theorem parseVpdC0Hp3par_inside {buf : List Byte} {inLen : ℕ} (h : inLen ≤ buf.length)
    {out : List Byte} (hout : 0 < out.length) : parseVpdC0Hp3par buf inLen out ≠ .outside := by
  obtain ⟨out₁, hclear, hlen₁⟩ := @exists_writeAt _ out (List.replicate out.length 0) 0 (by simp)
  rw [parseVpdC0Hp3par, hclear, Outcome.bind_done]
  have hdone : ∀ (r : ℤ) (bs : List Byte), (.done (r, bs) : Outcome (ℤ × List Byte)) ≠ .outside := by
    intro r bs hr
    cases hr
  split_ifs with hshort
  · exact hdone _ _
  · rw [byteAt_of_lt (by omega), Outcome.bind_done]
    split_ifs with hcut hrev
    · exact hdone _ _
    · exact hdone _ _
    · rw [readAt_of_le (by omega), Outcome.bind_done]
      dsimp only
      split_ifs with hlong
      · exact hdone _ _
      · generalize hlen : ofBe ((buf.drop 40).take 4) = len at hlong
        have hnameLen : ((buf.drop 44).take len).length = len := by
          rw [List.length_take, List.length_drop]
          omega
        obtain ⟨out₂, hname, hlen₂⟩ := @exists_writeAt _ out₁ ((buf.drop 44).take len) 0 (by omega)
        obtain ⟨out₃, hnul, -⟩ := @exists_writeAt _ out₂ [0] (out₂.length - 1) (by
          rw [List.length_singleton]
          omega)
        rw [readAt_of_le (by omega), Outcome.bind_done, hname, Outcome.bind_done, hnul]
        exact hdone _ _

/-- What is read of a page of a device for an output of `n` bytes, where `inLen` is the length that
its parser is given. -/
structure PageInside (buf : List Byte) (pg inLen n : ℕ) : Prop where
  serial : pg = 0x80 → lengthField buf + 4 ≤ buf.length
  designators : pg = 0x83 → Page83Inside buf inLen n

section Pages

variable {buf str : List Byte} {pg : ℕ}

/-- The two functions differ in the length that they give to the parser of page 0x83, and in the
pages that only one of them knows. -/
theorem page_inside_iff {inLen : ℕ} {other : Outcome (ℤ × List Byte)} (h4 : 4 ≤ buf.length)
    (hbuf : buf.length < sizeMod) (hstr : 0 < str.length) (hother : other ≠ .outside) :
    (∀ fuel, (if pg = 0x80 then parseVpdPg80 buf str
      else if pg = 0x83 then parseVpdPg83 fuel buf inLen str else other) ≠ .outside) ↔
      PageInside buf pg inLen str.length := by
  by_cases h80 : pg = 0x80
  · simp only [if_pos h80]
    rw [forall_const, parseVpdPg80_inside_iff h4 hstr]
    constructor
    · intro hlen
      exact ⟨fun _ => hlen, fun h83 => absurd (h80.symm.trans h83) (by decide)⟩
    · intro h
      exact h.serial h80
  · by_cases h83 : pg = 0x83
    · simp only [if_neg h80, if_pos h83]
      rw [parseVpdPg83_inside_iff hbuf]
      exact ⟨fun h => ⟨fun h' => absurd h' h80, fun _ => h⟩, fun h => h.designators h83⟩
    · simp only [if_neg h80, if_neg h83]
      exact iff_of_true (fun _ => hother) ⟨fun h => absurd h h80, fun h => absurd h h83⟩

theorem getVpdSysfs_eq (h4 : 4 ≤ buf.length) (fuel : ℕ) :
    getVpdSysfs fuel (some buf) pg str =
      if (buf.getD 1 0).toNat ≠ pg then .done (-enodata, str)
      else if pg = 0x80 then parseVpdPg80 buf str
      else if pg = 0x83 then parseVpdPg83 fuel buf (lengthField buf + 4) str
      else .done (-enosys, str) := by
  unfold getVpdSysfs
  dsimp only
  rw [byteAt_getD (by omega), Outcome.bind_done, pageLength_eq h4, Outcome.bind_done]

/-- The length that `get_vpd_sgio` uses is that of the page, at most of the buffer. -/
theorem getVpdSgio_eq (h4 : 4 ≤ buf.length) (fuel : ℕ) (vendId : VpdVendor) :
    getVpdSgio fuel (.ok buf) pg vendId str =
      if (buf.getD 1 0).toNat ≠ pg then .done (-enodata, str)
      else if pg = 0x80 then parseVpdPg80 buf str
      else if pg = 0x83 then parseVpdPg83 fuel buf (min (lengthField buf + 4) pageSize) str
      else getVendorPage buf (min (lengthField buf + 4) pageSize) pg vendId str := by
  have hcut : (if lengthField buf + 4 > pageSize then pageSize else lengthField buf + 4) =
      min (lengthField buf + 4) pageSize := by
    split_ifs <;> omega
  unfold getVpdSgio
  dsimp only
  rw [byteAt_getD (by omega), Outcome.bind_done, pageLength_eq h4, Outcome.bind_done, hcut]

theorem copy_inside {len : ℕ} (hbuf : len ≤ buf.length) (hstr : len ≤ str.length) :
    ((readAt buf 0 len).bind fun bs => (writeAt str 0 bs).bind fun str =>
      .done ((len : ℤ), str)) ≠ .outside := by
  have hreadLen : ((buf.drop 0).take len).length = len := by
    rw [List.drop_zero, List.length_take]
    omega
  obtain ⟨out, hwrite, -⟩ := @exists_writeAt _ str ((buf.drop 0).take len) 0 (by omega)
  rw [readAt_of_le (by omega), Outcome.bind_done, hwrite]
  intro h
  cases h

theorem getVendorPage_inside {buffLen : ℕ} (h : buffLen ≤ buf.length) (hstr : 0 < str.length)
    (pg : ℕ) (vendId : VpdVendor) : getVendorPage buf buffLen pg vendId str ≠ .outside := by
  unfold getVendorPage
  split_ifs with hcopy hshort hfits
  · intro h
    cases h
  · exact copy_inside h hfits
  · exact copy_inside (by omega) le_rfl
  · exact parseVpdC0Hp3par_inside h hstr
  · intro h
    cases h

/-- The functions look at the page number first. -/
theorem pageNumber_iff {f : ℕ → Outcome (ℤ × List Byte)} {b : ℕ} {c : Prop}
    (h : (∀ fuel, f fuel ≠ .outside) ↔ c) :
    (∀ fuel, (if b ≠ pg then .done (-enodata, str) else f fuel) ≠ .outside) ↔ (b = pg → c) := by
  by_cases hpg : b = pg
  · simp only [if_neg (not_not.mpr hpg)]
    rw [h]
    exact ⟨fun hc _ => hc, fun hc => hc hpg⟩
  · simp only [if_pos hpg]
    refine iff_of_true (fun _ h => ?_) fun h => absurd h hpg
    cases h

theorem getVpdSysfs_inside_iff (h4 : 4 ≤ buf.length) (hbuf : buf.length < sizeMod)
    (hstr : 0 < str.length) :
    (∀ fuel, getVpdSysfs fuel (some buf) pg str ≠ .outside) ↔
      ((buf.getD 1 0).toNat = pg → PageInside buf pg (lengthField buf + 4) str.length) := by
  simp only [getVpdSysfs_eq h4]
  refine pageNumber_iff (page_inside_iff h4 hbuf hstr ?_)
  intro h
  cases h

theorem getVpdSgio_inside_iff {vendId : VpdVendor} (hbuf : buf.length = pageSize)
    (hstr : 0 < str.length) :
    (∀ fuel, getVpdSgio fuel (.ok buf) pg vendId str ≠ .outside) ↔
      ((buf.getD 1 0).toNat = pg →
        PageInside buf pg (min (lengthField buf + 4) pageSize) str.length) := by
  have hsize : pageSize = 4096 := rfl
  have hmod : sizeMod = 2 ^ 64 := rfl
  have h4 : 4 ≤ buf.length := by omega
  simp only [getVpdSgio_eq h4]
  exact pageNumber_iff (page_inside_iff h4 (by omega) hstr
    (getVendorPage_inside (by omega) hstr pg vendId))

end Pages

/-- Exactly when the VPD functions stay inside of a page of 4096 bytes and of their output. -/
theorem vpd_inside_iff {buf out : List Byte} (hbuf : buf.length = pageSize)
    (hout : 0 < out.length) :
    (parseVpdPg80 buf out ≠ .outside ↔ lengthField buf + 4 ≤ pageSize) ∧
    (∀ inLen, (∀ fuel, parseVpdPg83 fuel buf inLen out ≠ .outside) ↔
      Page83Inside buf inLen out.length) ∧
    (∀ inLen ≤ pageSize, parseVpdC0Hp3par buf inLen out ≠ .outside) ∧
    (∀ pg, (∀ fuel, getVpdSysfs fuel (some buf) pg out ≠ .outside) ↔
      ((buf.getD 1 0).toNat = pg → PageInside buf pg (lengthField buf + 4) out.length)) ∧
    ∀ pg vendId, (∀ fuel, getVpdSgio fuel (.ok buf) pg vendId out ≠ .outside) ↔
      ((buf.getD 1 0).toNat = pg →
        PageInside buf pg (min (lengthField buf + 4) pageSize) out.length) := by
  have hsize : pageSize = 4096 := rfl
  have hmod : sizeMod = 2 ^ 64 := rfl
  have h4 : 4 ≤ buf.length := by omega
  refine ⟨?_, fun inLen => parseVpdPg83_inside_iff (by omega), fun inLen hlen => ?_, fun pg => ?_,
    fun pg vendId => getVpdSgio_inside_iff hbuf hout⟩
  · rw [← hbuf]
    exact parseVpdPg80_inside_iff h4 hout
  · exact parseVpdC0Hp3par_inside (by omega) hout
  · exact getVpdSysfs_inside_iff h4 (by omega) hout

section Sample

/-- A page in a buffer of 4096 bytes. -/
def inBuffer (page : List Byte) : List Byte := page ++ List.replicate (pageSize - page.length) 0

theorem inBuffer_length {page : List Byte} (h : page.length ≤ pageSize) :
    (inBuffer page).length = pageSize := by
  rw [inBuffer, List.length_append, List.length_replicate]
  omega

/-- The serial number "SN12" with blanks behind it. -/
def serialPage : List Byte := [0, 0x80, 0, 8, 0x53, 0x4e, 0x31, 0x32, 0x20, 0x20, 0x20, 0x20]

/-- A vendor designator and an NAA designator. -/
def designatorPage : List Byte := [0, 0x83, 0, 20, 0x02, 0x01, 0, 4, 0x41, 0x42, 0x43, 0x44,
  0x01, 0x03, 0, 8, 0x60, 0x01, 0x02, 0x03, 0x04, 0x05, 0x06, 0x07]

theorem designatorPage_inside (n : ℕ) : Page83Inside (inBuffer designatorPage) 24 n := by
  have hlen : (inBuffer designatorPage).length = 4096 := inBuffer_length (by decide)
  have hos : offsets (designators (inBuffer designatorPage)) 24 4 = [4, 12] := by
    have hfirst : (designators (inBuffer designatorPage)).next 4 = 12 := rfl
    have hsecond : (designators (inBuffer designatorPage)).next 12 = 24 := rfl
    rw [offsets_of_lt (by decide), hfirst, offsets_of_lt (by decide), hsecond, offsets_of_le le_rfl]
  have hmem {d : ℕ} (hd : d ∈ [4, 12]) : d = 4 ∨ d = 12 := by simpa using hd
  constructor
  · intro pre d post h _
    have hd : d ∈ [4, 12] := by
      rw [← hos, h]
      exact List.mem_append_right pre List.mem_cons_self
    unfold HeaderInside
    rw [hlen]
    obtain rfl | rfl := hmem hd <;> decide
  · intro _ _ d hd _
    rw [hos] at hd
    obtain rfl | rfl := hmem hd.mem
    · have hle : rank (inBuffer designatorPage) 12 ≤ rank (inBuffer designatorPage) 4 :=
        hd.le (by decide)
      exact absurd hle (by decide)
    · have htype : typeAt (inBuffer designatorPage) 12 = 0x3 := rfl
      have hlength : lengthAt (inBuffer designatorPage) 12 = 8 := rfl
      unfold DesignatorInside
      rw [if_pos (.inr htype), hlength, hlen]
      omega

theorem vpd_inside_iff_pages : let out := List.replicate 32 (0 : Byte)
    parseVpdPg80 (inBuffer serialPage) out ≠ .outside ∧
      ∀ fuel vendId, getVpdSgio fuel (.ok (inBuffer designatorPage)) 0x83 vendId out ≠ .outside := by
  have hout : 0 < (List.replicate 32 (0 : Byte)).length := by decide
  have hserial := @vpd_inside_iff (inBuffer serialPage) _ (inBuffer_length (by decide)) hout
  have hlun := @vpd_inside_iff (inBuffer designatorPage) _ (inBuffer_length (by decide)) hout
  refine ⟨hserial.1.mpr (by decide), fun fuel vendId => ?_⟩
  refine (hlun.2.2.2.2 0x83 vendId).mpr (fun _ => ?_) fuel
  exact ⟨fun h => absurd h (by decide), fun _ => designatorPage_inside _⟩

end Sample

/-- A page of serial numbers that is longer than the buffer. -/
def longPage : List Byte := 0 :: 0x80 :: 0xff :: 0xff :: List.replicate 4092 0x20

theorem longPage_length : longPage.length = pageSize := by
  rw [longPage, List.length_cons, List.length_cons, List.length_cons, List.length_cons,
    List.length_replicate]
  rfl

theorem longPage_lengthField : lengthField longPage = 65535 := rfl

/-- The first byte that `parse_vpd_pg80` looks at is far behind it. -/
theorem getVpdSysfs_longPage : ¬ ∀ buf out : List Byte, buf.length = pageSize → 0 < out.length →
    ∀ pg fuel, getVpdSysfs fuel (some buf) pg out ≠ .outside := by
  intro h
  have hinside := (@getVpdSysfs_inside_iff longPage [0] 0x80 (by rw [longPage_length]; decide)
    (by rw [longPage_length]; decide) Nat.one_pos).mp
      fun fuel => h longPage [0] longPage_length Nat.one_pos 0x80 fuel
  have hlen := (hinside rfl).serial rfl
  rw [longPage_lengthField, longPage_length] at hlen
  exact absurd hlen (by decide)

end MultipathTools.Discovery
