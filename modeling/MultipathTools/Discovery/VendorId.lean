import MultipathTools.Discovery.Designators

/-! T10 vendor IDs: the loop of `parse_vpd_pg83` over the blanks, turn by turn. -/
namespace MultipathTools.Discovery

/-- Every run of blanks is replaced by one underscore. -/
def squeeze : List Byte → List Byte
  | [] => []
  | b :: bs =>
    if b ≠ blank then b :: squeeze bs
    else if bs.head? = some blank then squeeze bs
    else underscore :: squeeze bs

/-- One underscore at the end is dropped, but not the first character. -/
def trim (t : List Byte) : List Byte :=
  if 1 < t.length ∧ t.getLast? = some underscore then t.dropLast else t

theorem squeeze_append {w : List Byte} (h : blank ∉ w) (r : List Byte) :
    squeeze (w ++ r) = w ++ squeeze r := by
  induction w with
  | nil => rfl
  | cons b w ih =>
    obtain ⟨hb, hw⟩ := not_or.mp (List.mem_cons.not.mp h)
    rw [List.cons_append, squeeze, if_pos (Ne.symm hb), ih hw]
    rfl

theorem squeeze_of_not_mem {w : List Byte} (h : blank ∉ w) : squeeze w = w := by
  rw [← List.append_nil w, squeeze_append h, List.append_nil]
  exact List.append_nil w

theorem squeeze_blanks (k : ℕ) {r : List Byte} (h : r.head? ≠ some blank) :
    squeeze (List.replicate (k + 1) blank ++ r) = underscore :: squeeze r := by
  induction k with
  | zero =>
    show squeeze (blank :: r) = _
    rw [squeeze, if_neg (not_not.mpr rfl), if_neg h]
  | succ k ih =>
    rw [List.replicate_succ, List.cons_append, squeeze, if_neg (not_not.mpr rfl)]
    rw [if_pos (by rfl)]
    exact ih

/-- The text up to the first run of blanks, the run, and what follows it. -/
theorem exists_blanks {r : List Byte} (h : blank ∈ r) :
    ∃ w k r', r = w ++ (List.replicate (k + 1) blank ++ r') ∧ blank ∉ w ∧
      r'.head? ≠ some blank := by
  induction r with
  | nil => cases h
  | cons b r ih =>
    by_cases hb : b = blank
    · subst hb
      by_cases hr : r.head? = some blank
      · obtain ⟨w, k, r', hsplit, hw, hr'⟩ := ih (List.mem_of_mem_head? hr)
        have hnil : w = [] := by
          cases w with
          | nil => rfl
          | cons c w =>
            rw [hsplit] at hr
            cases Option.some.inj hr
            exact absurd List.mem_cons_self hw
        subst hnil
        exact ⟨[], k + 1, r', by rw [hsplit]; rfl, hw, hr'⟩
      · exact ⟨[], 0, r, rfl, List.not_mem_nil, hr⟩
    · obtain ⟨w, k, r', hsplit, hw, hr'⟩ := ih ((List.mem_cons.mp h).resolve_left (Ne.symm hb))
      refine ⟨b :: w, k, r', by rw [hsplit]; rfl, ?_, hr'⟩
      exact List.not_mem_cons_of_ne_of_not_mem (Ne.symm hb) hw

theorem memchr_found {c : Byte} {w : List Byte} (hw : c ∉ w) (r : List Byte) {n : ℕ}
    (hn : w.length < n) : memchr c (w ++ c :: r) n = .done (some w.length) := by
  induction w generalizing n with
  | nil =>
    obtain ⟨n, rfl⟩ := Nat.exists_eq_add_of_le' hn
    exact if_pos rfl
  | cons b w ih =>
    obtain ⟨hb, hw⟩ := not_or.mp (List.mem_cons.not.mp hw)
    obtain ⟨n, rfl⟩ := Nat.exists_eq_add_of_le' (Nat.lt_of_le_of_lt (Nat.zero_le _) hn)
    rw [List.cons_append, memchr, if_neg (Ne.symm hb), ih hw (Nat.lt_of_succ_lt_succ hn)]
    rfl

theorem memchr_none {c : Byte} {bs : List Byte} {n : ℕ} (h : c ∉ bs.take n)
    (hn : n ≤ bs.length) : memchr c bs n = .done none := by
  induction bs generalizing n with
  | nil =>
    obtain rfl := Nat.le_zero.mp hn
    rfl
  | cons b bs ih =>
    cases n with
    | zero => rfl
    | succ n =>
      obtain ⟨hb, hbs⟩ := not_or.mp (List.mem_cons.not.mp h)
      rw [memchr, if_neg (Ne.symm hb), ih hbs (Nat.le_of_succ_le_succ hn)]
      rfl

theorem memchr_outside {c : Byte} {bs : List Byte} {n : ℕ} (h : c ∉ bs) (hn : bs.length < n) :
    memchr c bs n = .outside := by
  induction bs generalizing n with
  | nil =>
    obtain ⟨n, rfl⟩ := Nat.exists_eq_add_of_le' hn
    rfl
  | cons b bs ih =>
    obtain ⟨hb, hbs⟩ := not_or.mp (List.mem_cons.not.mp h)
    obtain ⟨n, rfl⟩ := Nat.exists_eq_add_of_le' (Nat.lt_of_le_of_lt (Nat.zero_le _) hn)
    rw [memchr, if_neg (Ne.symm hb), ih hbs (Nat.lt_of_succ_lt_succ hn)]
    rfl

theorem skipBlanks_run (k : ℕ) {b : Byte} (hb : b ≠ blank) (r : List Byte) :
    skipBlanks (List.replicate k blank ++ b :: r) = .done k := by
  induction k with
  | zero => exact if_neg hb
  | succ k ih =>
    rw [List.replicate_succ, List.cons_append, skipBlanks, if_pos rfl, ih]
    rfl

theorem skipBlanks_outside (k : ℕ) : skipBlanks (List.replicate k blank) = .outside := by
  induction k with
  | zero => rfl
  | succ k ih =>
    rw [List.replicate_succ, skipBlanks, if_pos rfl, ih]
    rfl

/-- `t` is the text that has been written. -/
structure Written (s : VendorState) (t : List Byte) (n : ℕ) : Prop where
  text : t <+: s.out
  len : s.len = t.length
  out : s.out.length = n

/-- `t` is the whole text, with its NUL. -/
structure Ended (s : VendorState) (t : List Byte) (n : ℕ) : Prop where
  text : t ++ [0] <+: s.out
  len : s.len = t.length
  out : s.out.length = n

theorem Ended.written {s : VendorState} {t : List Byte} {n : ℕ} (h : Ended s t n) :
    Written s t n :=
  ⟨(List.prefix_append _ _).trans h.text, h.len, h.out⟩

/-- What is appended to the text. -/
theorem Written.put {s : VendorState} {t : List Byte} {n : ℕ} (h : Written s t n)
    (bs : List Byte) (hle : (t ++ bs).length ≤ n) :
    ∃ s', s.put bs = .done s' ∧ Written s' (t ++ bs) n ∧ s'.vpd = s.vpd ∧ s'.vpdLen = s.vpdLen := by
  obtain ⟨out, hwrite, hlen, htext⟩ := writeAt_append h.len h.text (h.out ▸ hle)
  refine ⟨{ s with out := out, len := s.len + bs.length }, ?_, ?_, rfl, rfl⟩
  · rw [VendorState.put, hwrite]
    rfl
  · refine ⟨htext, ?_, hlen.trans h.out⟩
    show s.len + bs.length = _
    rw [h.len, List.length_append]

theorem Written.full {s : VendorState} {t : List Byte} {n : ℕ} (h : Written s t n)
    (hle : t.length < n) : ∃ s', s.full = .done s' ∧ Ended s' t n := by
  obtain ⟨out, hwrite, hlen, htext⟩ :=
    @writeAt_append _ s.out [0] s.len t h.len h.text (by rw [List.length_append, h.out]; exact hle)
  refine ⟨{ s with out := out }, ?_, htext, h.len, hlen.trans h.out⟩
  rw [VendorState.full, hwrite]
  rfl

section Loop

variable {s : VendorState} {t w r : List Byte} {n fuel : ℕ}

/-- The word in front of a blank is cut where the output is full. -/
theorem vendorTurn_cut (hs : Written s t n) (ht : t.length < n) (hvpd : s.vpd = w ++ blank :: r)
    (hw : blank ∉ w) (hlen : w.length < s.vpdLen) (hfull : n - 1 ≤ t.length + w.length) :
    ∃ s', vendorTurn s = .done (false, s') ∧ Ended s' ((t ++ w).take (n - 1)) n := by
  have hp : (if s.len + w.length > s.out.length - 1 then s.out.length - s.len - 1 else w.length) =
      n - 1 - t.length := by
    rw [hs.len, hs.out]
    split_ifs <;> omega
  have htake : s.vpd.take (n - 1 - t.length) = w.take (n - 1 - t.length) := by
    rw [hvpd, List.take_append_of_le_length (by omega)]
  have htext : t ++ w.take (n - 1 - t.length) = (t ++ w).take (n - 1) := by
    rw [List.take_append, List.take_of_length_le (by omega : t.length ≤ n - 1)]
  have hlength : ((t ++ w).take (n - 1)).length = n - 1 := by
    rw [List.length_take, List.length_append]
    omega
  obtain ⟨s₁, hput, hs₁, -, -⟩ := hs.put (w.take (n - 1 - t.length)) (by
    rw [htext, hlength]
    omega)
  rw [htext] at hs₁
  obtain ⟨s₂, hfull₂, hs₂⟩ := hs₁.full (by omega)
  have hchr : memchr blank s.vpd s.vpdLen = .done (some w.length) := by
    rw [hvpd]
    exact memchr_found hw r hlen
  refine ⟨s₂, ?_, hs₂⟩
  rw [vendorTurn, hchr, Outcome.bind_done]
  dsimp only
  rw [hp, htake, hput, Outcome.bind_done, if_pos (by rw [hs₁.len, hs₁.out, hlength]), hfull₂]
  rfl

/-- The word in front of a blank, and the underscore for the blanks. -/
theorem vendorTurn_mark (hs : Written s t n) (hvpd : s.vpd = w ++ blank :: r)
    (hw : blank ∉ w) (hlen : w.length < s.vpdLen) (hroom : t.length + w.length < n - 1) :
    ∃ s', Written s' (t ++ (w ++ [underscore])) n ∧ s'.vpd = s.vpd ∧ s'.vpdLen = s.vpdLen ∧
      vendorTurn s =
        if s'.len ≥ s'.out.length - 1 then s'.full.bind fun s => .done (false, s)
        else
          (skipBlanks (s'.vpd.drop w.length)).bind fun n => .done (true, VendorState.skip
            { s' with vpd := s'.vpd.drop w.length, vpdLen := s'.vpdLen - w.length } n) := by
  have hp : (if s.len + w.length > s.out.length - 1 then s.out.length - s.len - 1 else w.length) =
      w.length := by
    rw [hs.len, hs.out, if_neg (by omega)]
  have htake : s.vpd.take w.length = w := by rw [hvpd, List.take_left]
  obtain ⟨s₁, hput, hs₁, hvpd₁, hlen₁⟩ := hs.put w (by rw [List.length_append]; omega)
  have hroom₁ : ¬ s₁.len ≥ s₁.out.length - 1 := by
    rw [hs₁.len, hs₁.out, List.length_append]
    omega
  obtain ⟨s₂, hput₂, hs₂, hvpd₂, hlen₂⟩ := hs₁.put [underscore] (by
    rw [List.length_append, List.length_append, List.length_singleton]
    omega)
  have hchr : memchr blank s.vpd s.vpdLen = .done (some w.length) := by
    rw [hvpd]
    exact memchr_found hw r hlen
  refine ⟨s₂, List.append_assoc t w _ ▸ hs₂, hvpd₂.trans hvpd₁, hlen₂.trans hlen₁, ?_⟩
  rw [vendorTurn, hchr, Outcome.bind_done]
  dsimp only
  rw [hp, htake, hput, Outcome.bind_done, if_neg hroom₁, hput₂, Outcome.bind_done]

/-- The output is full with the word in front of a blank, or with the underscore behind it. -/
theorem vendorTurn_full (hs : Written s t n) (ht : t.length < n) (hvpd : s.vpd = w ++ blank :: r)
    (hw : blank ∉ w) (hlen : w.length < s.vpdLen) (hfull : n - 1 ≤ t.length + w.length + 1) :
    ∃ s', vendorTurn s = .done (false, s') ∧
      Ended s' ((t ++ (w ++ [underscore])).take (n - 1)) n := by
  rcases Nat.lt_or_ge (t.length + w.length) (n - 1) with hroom | hcut
  · obtain ⟨s₁, hs₁, -, -, heq⟩ := vendorTurn_mark hs hvpd hw hlen hroom
    have hlength : (t ++ (w ++ [underscore])).length = n - 1 := by
      rw [List.length_append, List.length_append, List.length_singleton]
      omega
    obtain ⟨s₂, hfull₂, hs₂⟩ := hs₁.full (by omega)
    rw [List.take_of_length_le (by omega)]
    refine ⟨s₂, ?_, hs₂⟩
    rw [heq, if_pos (by rw [hs₁.len, hs₁.out, hlength]), hfull₂]
    rfl
  · obtain ⟨s₁, heq, hs₁⟩ := vendorTurn_cut hs ht hvpd hw hlen hcut
    refine ⟨s₁, heq, ?_⟩
    rw [← List.append_assoc, List.take_append_of_le_length (by rw [List.length_append]; exact hcut)]
    exact hs₁

/-- The text goes on behind the blanks, with the length that is left; it is too large once
more blanks are skipped than there were. -/
theorem vendorTurn_next (hs : Written s t n) {k : ℕ} {b : Byte} (hb : b ≠ blank)
    (hvpd : s.vpd = w ++ (List.replicate (k + 1) blank ++ b :: r)) (hw : blank ∉ w)
    (hlen : w.length < s.vpdLen) (hroom : t.length + w.length + 1 < n - 1) :
    ∃ s', vendorTurn s = .done (true, s') ∧ Written s' (t ++ (w ++ [underscore])) n ∧
      s'.vpd = b :: r ∧
      s'.vpdLen = ((((s.vpdLen - w.length : ℕ) : ℤ) - (k + 1 : ℕ)) % sizeMod).toNat := by
  obtain ⟨s₁, hs₁, hvpd₁, hlen₁, heq⟩ := vendorTurn_mark hs hvpd hw hlen (by omega)
  have hdrop : s₁.vpd.drop w.length = List.replicate (k + 1) blank ++ b :: r := by
    rw [hvpd₁, hvpd, List.drop_left]
  have hroom₁ : ¬ s₁.len ≥ s₁.out.length - 1 := by
    rw [hs₁.len, hs₁.out, List.length_append, List.length_append, List.length_singleton]
    omega
  rw [hdrop, skipBlanks_run _ hb, if_neg hroom₁] at heq
  refine ⟨_, heq, ⟨hs₁.text, hs₁.len, hs₁.out⟩, ?_, ?_⟩
  · show (List.replicate (k + 1) blank ++ b :: r).drop (k + 1) = b :: r
    exact List.drop_left' (List.length_replicate)
  · rw [← hlen₁]
    rfl

/-- Nothing but blanks up to the end of the buffer. -/
theorem vendorTurn_outside (hs : Written s t n) {k : ℕ}
    (hvpd : s.vpd = w ++ List.replicate (k + 1) blank) (hw : blank ∉ w)
    (hlen : w.length < s.vpdLen) (hroom : t.length + w.length + 1 < n - 1) :
    vendorTurn s = .outside := by
  obtain ⟨s₁, hs₁, hvpd₁, -, heq⟩ := vendorTurn_mark hs hvpd hw hlen (by omega)
  have hdrop : s₁.vpd.drop w.length = List.replicate (k + 1) blank := by
    rw [hvpd₁, hvpd, List.drop_left]
  have hroom₁ : ¬ s₁.len ≥ s₁.out.length - 1 := by
    rw [hs₁.len, hs₁.out, List.length_append, List.length_append, List.length_singleton]
    omega
  rw [heq, if_neg hroom₁, hdrop, skipBlanks_outside]
  rfl

/-- No blank is left. -/
theorem vendorTurn_last (h : blank ∉ s.vpd.take s.vpdLen) (hlen : s.vpdLen ≤ s.vpd.length) :
    vendorTurn s = .done (false, s) := by
  rw [vendorTurn, memchr_none h hlen]
  rfl

theorem vendorTurn_leaves (h : blank ∉ s.vpd) (hlen : s.vpd.length < s.vpdLen) :
    vendorTurn s = .outside := by
  rw [vendorTurn, memchr_outside h hlen]
  rfl

theorem vendorLoop_stop {s' : VendorState} (h : vendorTurn s = .done (false, s')) :
    vendorLoop (fuel + 1) s = .done s' := by
  rw [vendorLoop, h]
  rfl

theorem vendorLoop_go {s' : VendorState} (h : vendorTurn s = .done (true, s')) :
    vendorLoop (fuel + 1) s = vendorLoop fuel s' := by
  rw [vendorLoop, h]
  rfl

theorem vendorLoop_outside (h : vendorTurn s = .outside) :
    vendorLoop (fuel + 1) s = .outside := by
  rw [vendorLoop, h]
  rfl

theorem vendorRest_full (h : s.out.length - 1 ≤ s.len) : vendorRest s = .done s :=
  if_neg fun hx => by omega

theorem vendorRest_empty (h : s.vpdLen = 0) : vendorRest s = .done s :=
  if_neg fun hx => by omega

/-- The word behind the last blank, cut where the output is full. -/
theorem vendorRest_word (hs : Written s t n) (hroom : t.length < n - 1) (hpos : 0 < s.vpdLen)
    (hlen : s.vpdLen ≤ s.vpd.length) (hmod : t.length + s.vpdLen < sizeMod) :
    ∃ s', vendorRest s = .done s' ∧
      Ended s' ((t ++ s.vpd.take s.vpdLen).take (n - 1)) n := by
  have hp : (if (s.len + s.vpdLen) % sizeMod > s.out.length - 1 then s.out.length - s.len - 1
      else s.vpdLen) = min s.vpdLen (n - 1 - t.length) := by
    rw [hs.len, hs.out, Nat.mod_eq_of_lt hmod]
    split_ifs <;> omega
  have htext : t ++ s.vpd.take (min s.vpdLen (n - 1 - t.length)) =
      (t ++ s.vpd.take s.vpdLen).take (n - 1) := by
    rw [List.take_append, List.take_of_length_le (by omega : t.length ≤ n - 1), List.take_take,
      Nat.min_comm]
  have hlength : ((t ++ s.vpd.take s.vpdLen).take (n - 1)).length ≤ n - 1 := List.length_take_le _ _
  obtain ⟨s₁, hput, hs₁, -, -⟩ :=
    hs.put (s.vpd.take (min s.vpdLen (n - 1 - t.length))) (by rw [htext]; omega)
  rw [htext] at hs₁
  obtain ⟨s₂, hfull, hs₂⟩ := hs₁.full (by omega)
  refine ⟨s₂, ?_, hs₂⟩
  rw [vendorRest, if_pos ⟨hpos, by rw [hs.len, hs.out]; exact hroom⟩]
  dsimp only
  rw [hp, readAt_of_le (by omega), Outcome.bind_done, List.drop_zero, hput, Outcome.bind_done, hfull]

/-- The last step, where the text has its NUL or ends with the underscore that is replaced
by it. -/
theorem vendorTrim_text (hs : Written s t n) (hpos : 0 < t.length) (hle : t.length < n)
    (h : t ++ [0] <+: s.out ∨ 1 < t.length ∧ t.getLast? = some underscore) :
    ∃ out, vendorTrim s = .done ((trim t).length, out) ∧ trim t ++ [0] <+: out := by
  obtain ⟨init, c, rfl⟩ : ∃ init c, t = init ++ [c] :=
    ⟨t.dropLast, t.getLast (List.length_pos_iff.mp hpos), (List.dropLast_append_getLast _).symm⟩
  have hlen : (init ++ [c]).length = init.length + 1 := List.length_append
  rw [List.getLast?_concat] at h
  have hlast : byteAt s.out (s.len - 1) = .done c := by
    obtain ⟨rest, hrest⟩ := hs.text
    rw [byteAt_eq_done_iff, hs.len, hlen, Nat.add_sub_cancel, ← hrest]
    simp
  by_cases hc : 1 < (init ++ [c]).length ∧ c = underscore
  · obtain ⟨hlong, rfl⟩ := hc
    have htrim : trim (init ++ [underscore]) = init := by
      rw [trim, if_pos ⟨hlong, List.getLast?_concat⟩, List.dropLast_concat]
    have hinit : init <+: s.out := (List.prefix_append _ _).trans hs.text
    have hpos' : s.len - 1 = init.length := by rw [hs.len, hlen, Nat.add_sub_cancel]
    obtain ⟨out, hwrite, -, htext⟩ := @writeAt_append _ s.out [0] (s.len - 1) init hpos' hinit (by
      rw [List.length_append, hs.out]
      exact Nat.le_of_lt (hlen ▸ hle))
    rw [htrim]
    refine ⟨out, ?_, htext⟩
    rw [vendorTrim, if_pos (by rw [hs.len]; exact hlong), hlast, Outcome.bind_done, if_pos rfl,
      hwrite, Outcome.bind_done, hpos']
  · have htrim : trim (init ++ [c]) = init ++ [c] := by
      rw [trim, List.getLast?_concat]
      exact if_neg fun hx => hc ⟨hx.1, Option.some.inj hx.2⟩
    have htext : init ++ [c] ++ [0] <+: s.out := by
      rcases h with h | ⟨hlong, hlast⟩
      · exact h
      · exact absurd ⟨hlong, Option.some.inj hlast⟩ hc
    rw [htrim]
    refine ⟨s.out, ?_, htext⟩
    unfold vendorTrim
    split_ifs with hlong
    · rw [hlast, Outcome.bind_done, if_neg fun hx => hc ⟨by rw [← hs.len]; exact hlong, hx⟩, hs.len]
    · rw [hs.len]

end Loop

end MultipathTools.Discovery
