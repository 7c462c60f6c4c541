import MultipathTools.Discovery.VendorText

/-! Which bytes `parse_vpd_pg83` reads for a T10 vendor ID, wherever the ID ends: the loop leaves the
buffer unless it stays in the ID or fills the output before. -/
namespace MultipathTools.Discovery

/-- Up to one of its blanks the text fills a buffer of `n` bytes, `used` of which are in use. -/
def Fills (text : List Byte) (used n : ℕ) : Prop :=
  ∃ w r, text = w ++ blank :: r ∧ n - 1 ≤ used + (squeeze (w ++ [blank])).length

theorem not_fills_of_not_mem {text : List Byte} (h : blank ∉ text) (used n : ℕ) :
    ¬ Fills text used n := by
  rintro ⟨w, r, rfl, -⟩
  exact h (by simp)

section Fills

variable {w r v text : List Byte} {k used n : ℕ}

/-- The text up to a blank of the first run is the word and one underscore. -/
theorem squeeze_run (hw : blank ∉ w) (k : ℕ) :
    squeeze (w ++ List.replicate (k + 1) blank) = w ++ [underscore] := by
  have hrun : squeeze (List.replicate (k + 1) blank) = [underscore] := by
    have hblanks : squeeze (List.replicate (k + 1) blank ++ []) = underscore :: squeeze [] :=
      squeeze_blanks k (by simp)
    rwa [List.append_nil] at hblanks
  rw [squeeze_append hw, hrun]

/-- A blank up to the end of the first run is in the run. -/
theorem before_blank {k : ℕ} {a : List Byte} (hw : blank ∉ w)
    (h : v ++ blank :: a = w ++ List.replicate (k + 1) blank) :
    ∃ j, v ++ [blank] = w ++ List.replicate (j + 1) blank := by
  rw [List.append_eq_append_iff] at h
  obtain ⟨c, hv, hrest⟩ | ⟨c, hv, hrest⟩ := h
  · cases c with
    | nil => exact ⟨0, by simpa using hv.symm⟩
    | cons b c =>
      obtain ⟨rfl, -⟩ := List.cons.inj hrest
      exact absurd (by simp [hv]) hw
  · have hblanks : ∀ b ∈ c, b = blank := by
      intro b hb
      have hmem : b ∈ List.replicate (k + 1) blank := by
        rw [hrest]
        exact List.mem_append_left _ hb
      exact List.eq_of_mem_replicate hmem
    refine ⟨c.length, ?_⟩
    rw [hv, List.append_assoc, List.replicate_succ', ← List.eq_replicate_of_mem hblanks]

/-- The first run of blanks, or the text behind it, fills the buffer. -/
theorem fills_iff (h : Blanks text w k r) (used n : ℕ) :
    Fills text used n ↔ n - 1 ≤ used + w.length + 1 ∨ Fills r (used + w.length + 1) n := by
  have hone : ∀ j, (squeeze (w ++ List.replicate (j + 1) blank)).length = w.length + 1 := by
    intro j
    rw [squeeze_run h.word, List.length_append, List.length_singleton]
  have hmore : ∀ v a, r = v ++ blank :: a →
      (squeeze (w ++ List.replicate (k + 1) blank ++ v ++ [blank])).length =
        w.length + 1 + (squeeze (v ++ [blank])).length := by
    intro v a hr
    have hhead : (v ++ [blank]).head? ≠ some blank := by
      cases v with
      | nil =>
        have hrest := h.rest
        rw [hr] at hrest
        exact absurd rfl hrest
      | cons b v =>
        have hrest := h.rest
        rw [hr] at hrest
        exact hrest
    rw [List.append_assoc, List.append_assoc, squeeze_append h.word, squeeze_blanks k hhead,
      List.length_append, List.length_cons]
    omega
  constructor
  · rintro ⟨v, a, htext, hfull⟩
    rw [h.split, ← List.append_assoc, List.append_eq_append_iff] at htext
    obtain ⟨c, hv, hr⟩ | ⟨c, hv, hr⟩ := htext
    · rw [hv, hmore c a hr] at hfull
      exact .inr ⟨c, a, hr, by omega⟩
    · cases c with
      | nil =>
        have hrest := h.rest
        rw [List.nil_append] at hr
        rw [← hr] at hrest
        exact absurd rfl hrest
      | cons b c =>
        obtain ⟨rfl, -⟩ := List.cons.inj hr
        obtain ⟨j, hj⟩ := before_blank h.word hv.symm
        rw [hj, hone] at hfull
        exact .inl (by omega)
  · rintro (hfull | ⟨v, a, hr, hfull⟩)
    · refine ⟨w, List.replicate k blank ++ r, by rw [h.split, List.replicate_succ]; rfl, ?_⟩
      have hlen := hone 0
      rw [List.replicate_one] at hlen
      omega
    · refine ⟨w ++ List.replicate (k + 1) blank ++ v, a, by rw [h.split, hr]; simp, ?_⟩
      rw [hmore v a hr]
      omega

end Fills

/-- The loop ends with a full output under `c`, and leaves the buffer else. -/
structure FullIff (x : Outcome VendorState) (c : Prop) (n : ℕ) : Prop where
  full : c → ∃ s t, x = .done s ∧ Written s t n ∧ t.length = n - 1
  outside : ¬ c → x = .outside

section Loop

variable {s : VendorState} {t id next : List Byte} {n fuel : ℕ}

/-- A turn in which the output becomes full. -/
theorem fullIff_of_full {w r : List Byte} {k : ℕ} (hs : Written s t n) (ht : t.length < n)
    (h : Blanks s.vpd w k r) (hlen : w.length < s.vpdLen) (hfull : n - 1 ≤ t.length + w.length + 1) :
    FullIff (vendorLoop (fuel + 1) s) (Fills s.vpd t.length n) n := by
  have hvpd : s.vpd = w ++ blank :: (List.replicate k blank ++ r) := by
    rw [h.split, List.replicate_succ]
    rfl
  obtain ⟨s₁, hturn, hs₁⟩ := vendorTurn_full hs ht hvpd h.word hlen hfull
  constructor
  · intro _
    refine ⟨s₁, _, vendorLoop_stop hturn, hs₁.written, ?_⟩
    rw [List.length_take, Blanks.mark_length]
    omega
  · intro hno
    exact absurd ((fills_iff h _ _).mpr (.inl hfull)) hno

/-- A turn that finds nothing but blanks up to the end of the buffer. -/
theorem fullIff_of_outside {w : List Byte} {k : ℕ} (hs : Written s t n)
    (h : Blanks s.vpd w k []) (hlen : w.length < s.vpdLen) (hroom : t.length + w.length + 1 < n - 1) :
    FullIff (vendorLoop (fuel + 1) s) (Fills s.vpd t.length n) n := by
  have hvpd := h.split
  rw [List.append_nil] at hvpd
  constructor
  · intro hfills
    obtain hfull | hnil := (fills_iff h _ _).mp hfills
    · exact absurd hfull (Nat.not_le.mpr hroom)
    · exact absurd hnil (not_fills_of_not_mem List.not_mem_nil _ _)
  · intro _
    exact vendorLoop_outside (vendorTurn_outside hs hvpd h.word hlen hroom)

/-- A turn behind which there is another. -/
theorem fullIff_of_next {s₁ : VendorState} {w r : List Byte} {k : ℕ} (h : Blanks s.vpd w k r)
    (hturn : vendorTurn s = .done (true, s₁)) (hroom : t.length + w.length + 1 < n - 1)
    (hrest : FullIff (vendorLoop fuel s₁) (Fills r (t ++ (w ++ [underscore])).length n) n) :
    FullIff (vendorLoop (fuel + 1) s) (Fills s.vpd t.length n) n := by
  rw [Blanks.mark_length] at hrest
  have hiff : Fills s.vpd t.length n ↔ Fills r (t.length + w.length + 1) n := by
    rw [fills_iff h]
    exact or_iff_right (Nat.not_le.mpr hroom)
  rw [vendorLoop_go hturn]
  exact ⟨fun hfills => hrest.full (hiff.mp hfills), fun hno => hrest.outside (mt hiff.mpr hno)⟩

/-- With a length that is larger than the buffer the loop ends only when the output is full. -/
theorem vendorLoop_over (hs : Written s t n) (ht : t.length < n) (hfuel : n < fuel + t.length)
    (hlen : s.vpd.length < s.vpdLen) (hmod : s.vpdLen < sizeMod) :
    FullIff (vendorLoop fuel s) (Fills s.vpd t.length n) n := by
  induction fuel generalizing s t with
  | zero => omega
  | succ fuel ih =>
    by_cases hblank : blank ∈ s.vpd
    · obtain ⟨w, k, r, hsplit, hw, hr⟩ := exists_blanks hblank
      have hb : Blanks s.vpd w k r := ⟨hsplit, hw, hr⟩
      have hlength := hb.length
      have hmark := Blanks.mark_length t w
      rcases Nat.lt_or_ge (t.length + w.length + 1) (n - 1) with hroom | hfull
      · cases r with
        | nil => exact fullIff_of_outside hs hb (by omega) hroom
        | cons b r =>
          obtain ⟨s₁, hturn, hs₁, hvpd₁, hlen₁⟩ := vendorTurn_next hs
            (fun hx => hr (congrArg some hx)) hsplit hw (by omega) hroom
          rw [List.length_cons] at hlength
          rw [Int.emod_eq_of_lt (by omega) (by omega)] at hlen₁
          have hlen' : s₁.vpd.length < s₁.vpdLen := by
            rw [hvpd₁, List.length_cons]
            omega
          refine fullIff_of_next hb hturn hroom ?_
          rw [← hvpd₁]
          exact ih hs₁ (by omega) (by omega) hlen' (by omega)
      · exact fullIff_of_full hs ht hb (by omega) hfull
    · refine ⟨fun hfills => absurd hfills (not_fills_of_not_mem hblank _ _), fun _ => ?_⟩
      exact vendorLoop_outside (vendorTurn_leaves hblank hlen)

/-- So it does with an ID whose blanks run on. -/
theorem vendorLoop_runsOn (hs : Written s t n) (ht : t.length < n) (hfuel : n < fuel + t.length)
    (hvpd : s.vpd = id ++ next) (hlen : s.vpdLen = id.length)
    (hmod : (id ++ next).length < sizeMod) (hruns : RunsOn id next) :
    FullIff (vendorLoop fuel s) (Fills s.vpd t.length n) n := by
  induction fuel generalizing s t id with
  | zero => omega
  | succ fuel ih =>
    obtain ⟨w, k, id', hid, hw, hid'⟩ := exists_blanks (List.mem_of_getLast? hruns.1)
    have hb : Blanks id w k id' := ⟨hid, hw, hid'⟩
    have hidLen := hb.length
    have hmark := Blanks.mark_length t w
    have hnextLen : (id ++ next).length = id.length + next.length := List.length_append
    cases id' with
    | cons b id' =>
      have hne : b ≠ blank := fun hx => hid' (congrArg some hx)
      have hvpd' : s.vpd = w ++ (List.replicate (k + 1) blank ++ b :: (id' ++ next)) := by
        rw [hvpd, hid]
        simp
      have hb' : Blanks s.vpd w k (b :: (id' ++ next)) := ⟨hvpd', hw, hid'⟩
      rcases Nat.lt_or_ge (t.length + w.length + 1) (n - 1) with hroom | hfull
      · obtain ⟨s₁, hturn, hs₁, hvpd₁, hlen₁⟩ := vendorTurn_next hs hne hvpd' hw (by omega) hroom
        rw [hlen, hidLen, Int.emod_eq_of_lt (by omega) (by omega)] at hlen₁
        have hruns' : RunsOn (b :: id') next :=
          ⟨(hb.getLast?.mp hruns.1).resolve_left (List.cons_ne_nil _ _), hruns.2⟩
        refine fullIff_of_next hb' hturn hroom ?_
        rw [← hvpd₁]
        refine ih hs₁ (by omega) (by omega) hvpd₁ (by omega) ?_ hruns'
        rw [List.length_append]
        omega
      · exact fullIff_of_full hs ht hb' (by omega) hfull
    | nil =>
      rw [List.length_nil] at hidLen
      -- the blanks go on to the end of the buffer, or to another word
      by_cases hnext : ∀ b ∈ next, b = blank
      · have hvpd' : s.vpd = w ++ (List.replicate (k + next.length + 1) blank ++ []) := by
          rw [hvpd, hid, List.eq_replicate_of_mem hnext, List.append_nil, List.append_nil,
            List.append_assoc, ← List.replicate_add, List.length_replicate, Nat.add_right_comm]
        have hb' : Blanks s.vpd w (k + next.length) [] := ⟨hvpd', hw, hid'⟩
        rcases Nat.lt_or_ge (t.length + w.length + 1) (n - 1) with hroom | hfull
        · exact fullIff_of_outside hs hb' (by omega) hroom
        · exact fullIff_of_full hs ht hb' (by omega) hfull
      · obtain ⟨j, b, r, hsplit, hne⟩ := exists_run hnext
        have hj : 0 < j := by
          refine Nat.pos_of_ne_zero fun hzero => ?_
          rw [hzero] at hsplit
          exact hne (hruns.2 b r hsplit)
        have hsplitLen : next.length = j + (r.length + 1) := by
          rw [hsplit, List.length_append, List.length_replicate, List.length_cons]
        have hvpd' : s.vpd = w ++ (List.replicate (k + j + 1) blank ++ b :: r) := by
          rw [hvpd, hid, hsplit, List.append_nil, List.append_assoc, ← List.append_assoc _ _ (b :: r),
            ← List.replicate_add, Nat.add_right_comm]
        have hb' : Blanks s.vpd w (k + j) (b :: r) := ⟨hvpd', hw, fun hx => hne (Option.some.inj hx)⟩
        rcases Nat.lt_or_ge (t.length + w.length + 1) (n - 1) with hroom | hfull
        · obtain ⟨s₁, hturn, hs₁, hvpd₁, hlen₁⟩ :=
            vendorTurn_next hs hne hvpd' hw (by omega) hroom
          have hwrap : s₁.vpdLen = sizeMod - j := by
            rw [hlen₁, hlen, hidLen, size_wraps (by omega) (by omega)]
            omega
          refine fullIff_of_next hb' hturn hroom ?_
          rw [← hvpd₁]
          refine vendorLoop_over hs₁ (by omega) (by omega) ?_ (by omega)
          rw [hvpd₁, hwrap, List.length_cons]
          omega
        · exact fullIff_of_full hs ht hb' (by omega) hfull

/-- The last step stays inside of the output. -/
theorem vendorTrim_inside (hs : Written s t n) (hpos : 0 < t.length) (ht : t.length < n) :
    vendorTrim s ≠ .outside := by
  have hlast : s.len - 1 < s.out.length := by
    rw [hs.len, hs.out]
    omega
  unfold vendorTrim
  split_ifs
  · rw [byteAt_of_lt hlast, Outcome.bind_done]
    split_ifs
    · rw [writeAt_of_le (by rw [List.length_singleton]; omega)]
      intro h
      cases h
    · intro h
      cases h
  · intro h
    cases h

theorem FullIff.format {c : Prop} (h : FullIff (vendorLoop fuel s) c n) (hn : 1 < n) :
    ((vendorLoop fuel s).bind vendorRest).bind vendorTrim ≠ .outside ↔ c := by
  constructor
  · intro hinside
    by_contra hc
    rw [h.outside hc] at hinside
    exact hinside rfl
  · intro hc
    obtain ⟨s', t', hdone, hs', ht'⟩ := h.full hc
    rw [hdone, Outcome.bind_done, vendorRest_full (by rw [hs'.len, hs'.out, ht']), Outcome.bind_done]
    exact vendorTrim_inside hs' (by omega) (by omega)

end Loop

/-- The vendor ID ends in the buffer, in front of something else than a blank if it ends with one;
or the output is full before. -/
def VendorInside (text : List Byte) (vpdLen n : ℕ) : Prop :=
  vpdLen ≤ text.length ∧ ¬ RunsOn (text.take vpdLen) (text.drop vpdLen) ∨ Fills text 1 n

/-- The accesses for a vendor ID are inside exactly if it is `VendorInside`. -/
theorem formatVendorId_inside_iff {buf out : List Byte} {vpd vpdLen : ℕ} (hout : 1 < out.length)
    (hbuf : buf.length < sizeMod) (hlen : vpdLen < 256) :
    formatVendorId buf vpd vpdLen out ≠ .outside ↔ VendorInside (buf.drop vpd) vpdLen out.length := by
  obtain ⟨heq, hs⟩ := formatVendorId_eq buf vpd vpdLen hout
  have hsize : sizeMod = 2 ^ 64 := rfl
  have hdrop : (buf.drop vpd).length ≤ buf.length := by
    rw [List.length_drop]
    exact Nat.sub_le _ _
  rw [heq, VendorInside]
  by_cases hin : vpdLen ≤ (buf.drop vpd).length
  · have hidLen : vpdLen = ((buf.drop vpd).take vpdLen).length := by
      rw [List.length_take, Nat.min_eq_left hin]
    have hsplit : (vendorStart buf vpd vpdLen out).vpd =
        (buf.drop vpd).take vpdLen ++ (buf.drop vpd).drop vpdLen :=
      (List.take_append_drop _ _).symm
    by_cases hruns : RunsOn ((buf.drop vpd).take vpdLen) ((buf.drop vpd).drop vpdLen)
    · have hfull := vendorLoop_runsOn hs hout (Nat.lt_succ_self _) hsplit hidLen
        (by rw [List.take_append_drop]; omega) hruns
      rw [hfull.format hout]
      exact (or_iff_right fun h => h.2 hruns).symm
    · refine iff_of_true ?_ (.inl ⟨hin, hruns⟩)
      obtain ⟨s', hdone, hs', -⟩ := vendor_writes hs Nat.one_pos hout (Nat.lt_succ_self _) hsplit
        hidLen (by rw [← hidLen, List.length_singleton]; omega) fun hx => absurd hx hruns
      have hlength : (([0x31] ++ squeeze ((buf.drop vpd).take vpdLen)).take (out.length - 1)).length =
          min (out.length - 1) (1 + (squeeze ((buf.drop vpd).take vpdLen)).length) := by
        rw [List.length_take, List.length_append, List.length_singleton]
      rw [hdone, Outcome.bind_done]
      exact vendorTrim_inside hs' (by omega) (by omega)
  · have hfull := vendorLoop_over hs hout (Nat.lt_succ_self _) (Nat.not_le.mp hin)
      (show vpdLen < sizeMod by omega)
    rw [hfull.format hout]
    exact (or_iff_right fun h => hin h.1).symm

end MultipathTools.Discovery
