import Mathlib.Data.List.Basic
import MultipathTools.Discovery.VendorId

/-! What `parse_vpd_pg83` makes of a T10 vendor ID, and exactly when it is the text that
the ID stands for. -/
namespace MultipathTools.Discovery

/-- The text of a vendor ID in a buffer of `n` bytes: `'1'` and the ID with every run of
blanks replaced by one underscore, cut, without an underscore at the end. -/
def vendorText (id : List Byte) (n : ℕ) : List Byte := trim ((0x31 :: squeeze id).take (n - 1))

/-- The blanks at the end of an ID run on in the bytes behind it, or to the end of the
buffer. -/
def RunsOn (id next : List Byte) : Prop :=
  id.getLast? = some blank ∧ ∀ b r, next = b :: r → b = blank

section Formats

variable {s : VendorState} {t w id next : List Byte} {k n fuel : ℕ}

/-- The blanks between two words, in the text and in the ID. -/
structure Blanks (id w : List Byte) (k : ℕ) (id' : List Byte) : Prop where
  split : id = w ++ (List.replicate (k + 1) blank ++ id')
  word : blank ∉ w
  rest : id'.head? ≠ some blank

theorem Blanks.length {id' : List Byte} (h : Blanks id w k id') :
    id.length = w.length + (k + 1 + id'.length) := by
  rw [h.split, List.length_append, List.length_append, List.length_replicate]

theorem Blanks.squeeze {id' : List Byte} (h : Blanks id w k id') (t : List Byte) :
    t ++ squeeze id = t ++ (w ++ [underscore]) ++ squeeze id' := by
  rw [h.split, squeeze_append h.word, squeeze_blanks k h.rest]
  simp

theorem Blanks.mark_length (t w : List Byte) :
    (t ++ (w ++ [underscore])).length = t.length + w.length + 1 := by
  simp [Nat.add_assoc]

theorem Blanks.getLast? {id' : List Byte} (h : Blanks id w k id') :
    id.getLast? = some blank ↔ id' = [] ∨ id'.getLast? = some blank := by
  by_cases hid' : id' = []
  · rw [h.split, hid', List.append_nil, List.replicate_succ', ← List.append_assoc,
      List.getLast?_concat]
    exact ⟨fun _ => Or.inl rfl, fun _ => rfl⟩
  · rw [h.split, List.getLast?_append_of_ne_nil _ (by simp), List.getLast?_append_of_ne_nil _ hid']
    exact ⟨Or.inr, fun hx => hx.resolve_left hid'⟩

/-- An ID that runs on does so in the part behind the blanks, or in the blanks. -/
theorem Blanks.runsOn {id' : List Byte} (h : Blanks id w k id') (next : List Byte) :
    RunsOn id next ↔ (id' = [] ∨ id'.getLast? = some blank) ∧ ∀ b r, next = b :: r → b = blank := by
  rw [RunsOn, h.getLast?]

/-- The NUL behind the text is there, or the underscore at its end is replaced by it. -/
def Closed (s : VendorState) (t : List Byte) : Prop :=
  t ++ [0] <+: s.out ∨ 1 < t.length ∧ t.getLast? = some underscore

/-- The loop and the rest together, from any turn on. The blanks at the end of the ID must not run
on, unless the output is full before. -/
theorem vendor_writes (hs : Written s t n) (hpos : 0 < t.length) (ht : t.length < n)
    (hfuel : n < fuel + t.length) (hvpd : s.vpd = id ++ next) (hlen : s.vpdLen = id.length)
    (hmod : t.length + id.length < sizeMod)
    (hruns : RunsOn id next → n - 1 ≤ (t ++ squeeze id).length) :
    ∃ s', (vendorLoop fuel s).bind vendorRest = .done s' ∧
      Written s' ((t ++ squeeze id).take (n - 1)) n ∧
      ((blank ∈ id ∨ (id ≠ [] ∧ t.length < n - 1) ∨ Closed s t) →
        Closed s' ((t ++ squeeze id).take (n - 1))) := by
  induction fuel generalizing s t id with
  | zero => omega
  | succ fuel ih =>
    by_cases hblank : blank ∈ id
    · obtain ⟨w, k, id', hid, hw, hid'⟩ := exists_blanks hblank
      have hb : Blanks id w k id' := ⟨hid, hw, hid'⟩
      have hidLen := hb.length
      have hmark := Blanks.mark_length t w
      rw [hb.squeeze t] at hruns ⊢
      rcases Nat.lt_or_ge (t.length + w.length + 1) (n - 1) with hroom | hfull
      · -- there is another turn, for what follows the blanks
        have hnext : ∃ b r, id' ++ next = b :: r ∧ b ≠ blank := by
          cases id' with
          | nil =>
            by_contra hnone
            have hfull := hruns ((hb.runsOn next).mpr ⟨Or.inl rfl, fun b r hbr => by
              by_contra hne
              exact hnone ⟨b, r, hbr, hne⟩⟩)
            rw [List.length_append, hmark] at hfull
            exact absurd hfull (Nat.not_le.mpr hroom)
          | cons b id' => exact ⟨b, id' ++ next, rfl, fun hx => hid' (congrArg some hx)⟩
        obtain ⟨b, r, hbr, hne⟩ := hnext
        have hvpd' : s.vpd = w ++ (List.replicate (k + 1) blank ++ b :: r) := by
          rw [hvpd, hid, List.append_assoc, List.append_assoc, hbr]
        obtain ⟨s₁, hturn, hs₁, hvpd₁, hlen₁⟩ :=
          vendorTurn_next hs hne hvpd' hw (by omega) hroom
        have hlen' : s₁.vpdLen = id'.length := by
          rw [hlen₁, hlen, hidLen, Int.emod_eq_of_lt (by omega) (by omega)]
          omega
        have hruns₁ : RunsOn id' next → n - 1 ≤ (t ++ (w ++ [underscore]) ++ squeeze id').length :=
          fun hruns' => hruns ((hb.runsOn next).mpr ⟨Or.inr hruns'.1, hruns'.2⟩)
        obtain ⟨s₂, hdone, hs₂, hclosed⟩ :=
          ih hs₁ (by omega) (by omega) (by omega) (hvpd₁.trans hbr.symm) hlen' (by omega) hruns₁
        rw [vendorLoop_go hturn]
        refine ⟨s₂, hdone, hs₂, fun _ => hclosed (Or.inr (Or.inr (Or.inr ⟨by omega, ?_⟩)))⟩
        rw [← List.append_assoc, List.getLast?_concat]
      · have hvpd' : s.vpd = w ++ blank :: (List.replicate k blank ++ (id' ++ next)) := by
          rw [hvpd, hid, List.replicate_succ]
          simp
        obtain ⟨s₁, hturn, hs₁⟩ :=
          vendorTurn_full hs ht hvpd' hw (by omega) hfull
        have htext : (t ++ (w ++ [underscore]) ++ squeeze id').take (n - 1) =
            (t ++ (w ++ [underscore])).take (n - 1) :=
          List.take_append_of_le_length (by omega)
        have htextLen : ((t ++ (w ++ [underscore])).take (n - 1)).length = n - 1 := by
          rw [List.length_take]
          omega
        rw [vendorLoop_stop hturn, Outcome.bind_done,
          vendorRest_full (by rw [hs₁.len, hs₁.out, htextLen]), htext]
        exact ⟨s₁, rfl, hs₁.written, fun _ => Or.inl hs₁.text⟩
    · have htake : s.vpd.take s.vpdLen = id := by rw [hvpd, hlen, List.take_left]
      have hle : s.vpdLen ≤ s.vpd.length := by
        rw [hvpd, hlen, List.length_append]
        omega
      rw [vendorLoop_stop (vendorTurn_last (htake ▸ hblank) hle), Outcome.bind_done,
        squeeze_of_not_mem hblank]
      by_cases hword : id ≠ [] ∧ t.length < n - 1
      · have hidPos := List.length_pos_iff.mpr hword.1
        obtain ⟨s₁, hrest, hs₁⟩ := vendorRest_word hs hword.2 (by omega) hle (by omega)
        rw [htake] at hs₁
        exact ⟨s₁, hrest, hs₁.written, fun _ => Or.inl hs₁.text⟩
      · -- nothing is written behind the text
        have hdone : vendorRest s = .done s ∧ (t ++ id).take (n - 1) = t := by
          by_cases hid : id = []
          · subst hid
            rw [List.append_nil]
            exact ⟨vendorRest_empty hlen, List.take_of_length_le (by omega)⟩
          · have hfull : n - 1 = t.length := by
              have hge := Nat.not_lt.mp fun hx => hword ⟨hid, hx⟩
              omega
            exact ⟨vendorRest_full (by rw [hs.len, hs.out]; omega), by rw [hfull, List.take_left]⟩
        rw [hdone.1, hdone.2]
        refine ⟨s, rfl, hs, ?_⟩
        rintro (hnul | hnul | hnul)
        · exact absurd hnul hblank
        · exact absurd hnul hword
        · exact hnul

/-- The loop, the rest and the last step together. -/
theorem vendor_formats (hs : Written s t n) (hpos : 0 < t.length) (ht : t.length < n)
    (hfuel : n < fuel + t.length) (hvpd : s.vpd = id ++ next) (hlen : s.vpdLen = id.length)
    (hmod : t.length + id.length < sizeMod)
    (hruns : RunsOn id next → n - 1 ≤ (t ++ squeeze id).length)
    (hnul : blank ∈ id ∨ (id ≠ [] ∧ t.length < n - 1) ∨ Closed s t) :
    ∃ out, ((vendorLoop fuel s).bind vendorRest).bind vendorTrim =
        .done ((trim ((t ++ squeeze id).take (n - 1))).length, out) ∧
      HoldsString out (trim ((t ++ squeeze id).take (n - 1))) := by
  obtain ⟨s', hdone, hs', hclosed⟩ := vendor_writes hs hpos ht hfuel hvpd hlen hmod hruns
  have htextLen : ((t ++ squeeze id).take (n - 1)).length =
      min (n - 1) (t.length + (squeeze id).length) := by
    rw [List.length_take, List.length_append]
  rw [hdone, Outcome.bind_done]
  exact vendorTrim_text hs' (by omega) (by omega) (hclosed hnul)

end Formats

section Longer

variable {s s' : VendorState} {t id next out : List Byte} {n fuel : ℕ} {x : ℤ}

theorem VendorState.put_len {bs : List Byte} (h : s.put bs = .done s') : s.len ≤ s'.len := by
  obtain ⟨out, -, hs⟩ := Outcome.bind_eq_done_iff.mp h
  cases hs
  exact Nat.le_add_right _ _

theorem VendorState.full_len (h : s.full = .done s') : s'.len = s.len := by
  obtain ⟨out, -, hs⟩ := Outcome.bind_eq_done_iff.mp h
  cases hs
  rfl

/-- A turn never shortens the text. -/
theorem vendorTurn_len {go : Bool} (h : vendorTurn s = .done (go, s')) : s.len ≤ s'.len := by
  obtain ⟨p, -, h⟩ := Outcome.bind_eq_done_iff.mp h
  cases p with
  | none =>
    cases h
    exact Nat.le_refl _
  | some p =>
    obtain ⟨s₁, hput, h⟩ := Outcome.bind_eq_done_iff.mp h
    have hword := VendorState.put_len hput
    by_cases hfull : s₁.len ≥ s₁.out.length - 1
    · rw [if_pos hfull] at h
      obtain ⟨s₂, hs₂, h⟩ := Outcome.bind_eq_done_iff.mp h
      cases h
      rw [VendorState.full_len hs₂]
      exact hword
    · rw [if_neg hfull] at h
      obtain ⟨s₂, hput₂, h⟩ := Outcome.bind_eq_done_iff.mp h
      have hmark := VendorState.put_len hput₂
      by_cases hfull₂ : s₂.len ≥ s₂.out.length - 1
      · rw [if_pos hfull₂] at h
        obtain ⟨s₃, hs₃, h⟩ := Outcome.bind_eq_done_iff.mp h
        cases h
        rw [VendorState.full_len hs₃]
        exact Nat.le_trans hword hmark
      · rw [if_neg hfull₂] at h
        obtain ⟨k, -, h⟩ := Outcome.bind_eq_done_iff.mp h
        cases h
        exact Nat.le_trans hword hmark

theorem vendorLoop_len (h : vendorLoop fuel s = .done s') : s.len ≤ s'.len := by
  induction fuel generalizing s with
  | zero => cases h
  | succ fuel ih =>
    obtain ⟨⟨go, s₁⟩, hturn, h⟩ := Outcome.bind_eq_done_iff.mp h
    have hle := vendorTurn_len hturn
    cases go with
    | true => exact Nat.le_trans hle (ih h)
    | false =>
      cases h
      exact hle

theorem vendorRest_len (h : vendorRest s = .done s') : s.len ≤ s'.len := by
  by_cases hrest : s.vpdLen > 0 ∧ s.len < s.out.length - 1
  · rw [vendorRest, if_pos hrest] at h
    obtain ⟨bs, -, h⟩ := Outcome.bind_eq_done_iff.mp h
    obtain ⟨s₁, hput, h⟩ := Outcome.bind_eq_done_iff.mp h
    rw [VendorState.full_len h]
    exact VendorState.put_len hput
  · rw [vendorRest, if_neg hrest] at h
    cases h
    exact Nat.le_refl _

theorem vendorTrim_len (h : vendorTrim s = .done (x, out)) : (s.len : ℤ) - 1 ≤ x := by
  unfold vendorTrim at h
  split_ifs at h
  · obtain ⟨b, -, h⟩ := Outcome.bind_eq_done_iff.mp h
    split_ifs at h
    · obtain ⟨out, -, h⟩ := Outcome.bind_eq_done_iff.mp h
      cases h
      omega
    · cases h
      omega
  · cases h
    omega

/-- What is written before the loop goes on is returned, up to an underscore. -/
theorem vendor_len (h : ((vendorLoop fuel s).bind vendorRest).bind vendorTrim = .done (x, out)) :
    (s.len : ℤ) - 1 ≤ x := by
  obtain ⟨s₁, h, htrim⟩ := Outcome.bind_eq_done_iff.mp h
  obtain ⟨s₂, hloop, hrest⟩ := Outcome.bind_eq_done_iff.mp h
  have hle := Nat.le_trans (vendorLoop_len hloop) (vendorRest_len hrest)
  have htrim' := vendorTrim_len htrim
  omega

/-- With a length that is larger than the buffer, another word is appended to the text. -/
theorem vendor_overrun (hs : Written s t n) (ht : t.length < n - 1) {b : Byte} {r : List Byte}
    (hvpd : s.vpd = b :: r) (hb : b ≠ blank) (hlen : s.vpd.length < s.vpdLen)
    (h : ((vendorLoop fuel s).bind vendorRest).bind vendorTrim = .done (x, out)) :
    (t.length : ℤ) ≤ x := by
  cases fuel with
  | zero => cases h
  | succ fuel =>
    by_cases hblank : blank ∈ s.vpd
    · obtain ⟨w, k, r', hsplit, hw, hr'⟩ := exists_blanks hblank
      have hlength := (Blanks.mk hsplit hw hr').length
      have hmark := Blanks.mark_length t w
      have hwPos : 0 < w.length := by
        cases w with
        | nil =>
          rw [hvpd] at hsplit
          cases hsplit
          exact absurd rfl hb
        | cons c w => exact Nat.succ_pos _
      rcases Nat.lt_or_ge (t.length + w.length + 1) (n - 1) with hroom | hfull
      · cases r' with
        | nil =>
          rw [List.append_nil] at hsplit
          rw [vendorLoop_outside (vendorTurn_outside hs hsplit hw (by omega) hroom)] at h
          cases h
        | cons c r' =>
          obtain ⟨s₁, hturn, hs₁, -, -⟩ := vendorTurn_next hs
            (fun hc => hr' (congrArg some hc)) hsplit hw (by omega) hroom
          rw [vendorLoop_go hturn] at h
          have hle := vendor_len h
          rw [hs₁.len, hmark] at hle
          omega
      · rw [List.replicate_succ] at hsplit
        obtain ⟨s₁, hturn, hs₁⟩ := vendorTurn_full hs (by omega) hsplit hw (by omega) hfull
        have htext : ((t ++ (w ++ [underscore])).take (n - 1)).length = n - 1 := by
          rw [List.length_take]
          omega
        rw [vendorLoop_stop hturn, Outcome.bind_done,
          vendorRest_full (by rw [hs₁.len, hs₁.out, htext]), Outcome.bind_done] at h
        have hle := vendorTrim_len h
        rw [hs₁.len, htext] at hle
        omega
    · rw [vendorLoop_outside (vendorTurn_leaves hblank hlen)] at h
      cases h

/-- What is left of a length that becomes negative. -/
theorem size_wraps {a b : ℕ} (h : a < b) (hb : b ≤ sizeMod) :
    ((((a : ℕ) : ℤ) - (b : ℕ)) % sizeMod).toNat = sizeMod - (b - a) := by
  have hwrap : ((a : ℤ) - (b : ℕ)) % sizeMod = (a : ℤ) - (b : ℕ) + sizeMod := by
    rw [← Int.add_emod_right, Int.emod_eq_of_lt (by omega) (by omega)]
  rw [hwrap]
  omega

/-- The blanks at the front, if there is something else. -/
theorem exists_run (h : ¬ ∀ b ∈ next, b = blank) :
    ∃ j b r, next = List.replicate j blank ++ b :: r ∧ b ≠ blank := by
  induction next with
  | nil => exact absurd (fun b hb => absurd hb List.not_mem_nil) h
  | cons b next ih =>
    by_cases hb : b = blank
    · subst hb
      obtain ⟨j, c, r, rfl, hc⟩ := ih fun hall => h fun c hc => by
        rcases List.mem_cons.mp hc with rfl | hc
        · rfl
        · exact hall c hc
      exact ⟨j + 1, c, r, rfl, hc⟩
    · exact ⟨0, b, next, rfl, hb⟩

/-- An ID whose blanks run on is followed by more text, or the buffer is left. -/
theorem vendor_runsOn (hs : Written s t n) (hvpd : s.vpd = id ++ next)
    (hlen : s.vpdLen = id.length) (hmod : (id ++ next).length < sizeMod) (hruns : RunsOn id next)
    (hroom : (t ++ squeeze id).length < n - 1)
    (h : ((vendorLoop fuel s).bind vendorRest).bind vendorTrim = .done (x, out)) :
    ((t ++ squeeze id).length : ℤ) ≤ x := by
  induction fuel generalizing s t id with
  | zero => cases h
  | succ fuel ih =>
    have hblank : blank ∈ id := List.mem_of_getLast? hruns.1
    obtain ⟨w, k, id', hid, hw, hid'⟩ := exists_blanks hblank
    have hb : Blanks id w k id' := ⟨hid, hw, hid'⟩
    have hidLen := hb.length
    have hmark := Blanks.mark_length t w
    rw [hb.squeeze t] at hroom ⊢
    rw [List.length_append] at hmod
    have hroom' : t.length + w.length + 1 < n - 1 := by
      rw [List.length_append, hmark] at hroom
      omega
    cases id' with
    | cons b id' =>
      have hvpd' : s.vpd = w ++ (List.replicate (k + 1) blank ++ b :: (id' ++ next)) := by
        rw [hvpd, hid]
        simp
      obtain ⟨s₁, hturn, hs₁, hvpd₁, hlen₁⟩ := vendorTurn_next hs
        (fun hx => hid' (congrArg some hx)) hvpd' hw (by omega) hroom'
      rw [vendorLoop_go hturn] at h
      have hlen' : s₁.vpdLen = (b :: id').length := by
        rw [hlen₁, hlen, hidLen, Int.emod_eq_of_lt (by omega) (by omega)]
        omega
      have hruns' : RunsOn (b :: id') next :=
        ⟨(hb.getLast?.mp hruns.1).resolve_left (List.cons_ne_nil _ _), hruns.2⟩
      exact ih hs₁ hvpd₁ hlen' (by rw [List.length_append]; omega) hruns' hroom h
    | nil =>
      -- the blanks go on to the end of the buffer, or to another word
      by_cases hnext : ∀ b ∈ next, b = blank
      · have hvpd' : s.vpd = w ++ List.replicate (k + next.length + 1) blank := by
          rw [hvpd, hid, List.eq_replicate_of_mem hnext, List.append_nil, List.append_assoc,
            ← List.replicate_add, List.length_replicate, Nat.add_right_comm]
        rw [vendorLoop_outside (vendorTurn_outside hs hvpd' hw (by omega) hroom')] at h
        cases h
      · have hmore : ∃ j b r, next = List.replicate (j + 1) blank ++ b :: r ∧ b ≠ blank := by
          obtain ⟨j, b, r, hsplit, hne⟩ := exists_run hnext
          cases j with
          | zero => exact absurd (hruns.2 b r hsplit) hne
          | succ j => exact ⟨j, b, r, hsplit, hne⟩
        obtain ⟨j, b, r, hsplit, hne⟩ := hmore
        have hnextLen : next.length = j + 1 + (r.length + 1) := by
          rw [hsplit, List.length_append, List.length_replicate, List.length_cons]
        have hvpd' : s.vpd = w ++ (List.replicate (k + (j + 1) + 1) blank ++ b :: r) := by
          rw [hvpd, hid, hsplit, List.append_nil, List.append_assoc, ← List.append_assoc _ _ (b :: r),
            ← List.replicate_add, Nat.add_right_comm]
        obtain ⟨s₁, hturn, hs₁, hvpd₁, hlen₁⟩ :=
          vendorTurn_next hs hne hvpd' hw (by omega) hroom'
        rw [vendorLoop_go hturn] at h
        have hover : s₁.vpd.length < s₁.vpdLen := by
          rw [hvpd₁, hlen₁, hlen, hidLen, List.length_nil, List.length_cons,
            size_wraps (by omega) (by omega)]
          omega
        rw [squeeze, List.append_nil]
        exact vendor_overrun hs₁ (by omega) hvpd₁ hne hover h

end Longer

theorem squeeze_getLast? {id : List Byte} (h : id.getLast? = some blank) :
    (squeeze id).getLast? = some underscore := by
  induction id with
  | nil => cases h
  | cons b id ih =>
    rw [squeeze]
    cases id with
    | nil =>
      cases h
      rfl
    | cons c id =>
      rw [List.getLast?_cons_cons] at h
      have hrest := ih h
      have hne : squeeze (c :: id) ≠ [] := by
        intro hnil
        rw [hnil] at hrest
        cases hrest
      split_ifs
      · rw [List.getLast?_cons_of_ne_nil hne]
        exact hrest
      · exact hrest
      · rw [List.getLast?_cons_of_ne_nil hne]
        exact hrest

/-- The state in front of the first turn. -/
def vendorStart (buf : List Byte) (vpd vpdLen : ℕ) (out : List Byte) : VendorState :=
  ⟨buf.drop vpd, vpdLen, 0x31 :: out.tail, 1⟩

theorem formatVendorId_eq (buf : List Byte) (vpd vpdLen : ℕ) {out : List Byte}
    (hout : 1 < out.length) :
    formatVendorId buf vpd vpdLen out =
      ((vendorLoop out.length (vendorStart buf vpd vpdLen out)).bind vendorRest).bind vendorTrim ∧
      Written (vendorStart buf vpd vpdLen out) [0x31] out.length := by
  have hwrite : writeAt out 0 [0x31] = .done (0x31 :: out.tail) := by
    rw [writeAt_of_le (by rw [List.length_singleton]; omega)]
    simp
  have hlen : (0x31 :: out.tail : List Byte).length = out.length := by
    rw [List.length_cons, List.length_tail]
    omega
  constructor
  · rw [formatVendorId, hwrite, Outcome.bind_done, hlen]
    rfl
  · exact ⟨List.prefix_append [0x31] out.tail, rfl, hlen⟩

theorem vendorText_runsOn {id next : List Byte} {n : ℕ} (hruns : RunsOn id next)
    (hroom : (squeeze id).length + 1 < n - 1) :
    (vendorText id n).length = (squeeze id).length := by
  have hlast := squeeze_getLast? hruns.1
  have hne : squeeze id ≠ [] := by
    intro hnil
    rw [hnil] at hlast
    cases hlast
  have hpos := List.length_pos_iff.mpr hne
  rw [vendorText, List.take_of_length_le (by rw [List.length_cons]; omega), trim, if_pos,
    List.length_dropLast, List.length_cons, Nat.add_sub_cancel]
  rw [List.getLast?_cons_of_ne_nil hne, List.length_cons]
  exact ⟨by omega, hlast⟩

theorem exists_two_bytes {out : List Byte} (h : 1 < out.length) :
    ∃ a b rest, out = a :: b :: rest := by
  rcases out with _ | ⟨a, _ | ⟨b, rest⟩⟩
  · exact absurd h (Nat.not_lt_zero 1)
  · exact absurd h (lt_irrefl 1)
  · exact ⟨a, b, rest, rfl⟩

/-- A vendor ID is formatted as its text if and only if the blanks at its end do not run
on unless the output is full before, and a NUL is written behind the text, or is there. -/
theorem formatVendorId_iff {buf out : List Byte} {vpd vpdLen : ℕ} (hout : 1 < out.length)
    (hin : vpd + vpdLen ≤ buf.length) (hbuf : buf.length < sizeMod) (hlen : vpdLen < 256) :
    let id := (buf.drop vpd).take vpdLen
    let next := buf.drop (vpd + vpdLen)
    (∃ out', formatVendorId buf vpd vpdLen out =
        .done ((vendorText id out.length).length, out') ∧
      HoldsString out' (vendorText id out.length)) ↔
    (RunsOn id next → out.length - 1 ≤ (squeeze id).length + 1) ∧
      (blank ∈ id ∨ (id ≠ [] ∧ 2 < out.length) ∨ out[1]? = some 0) := by
  intro id next
  obtain ⟨heq, hs⟩ := formatVendorId_eq buf vpd vpdLen hout
  have hidLen : id.length = vpdLen := by
    rw [List.length_take, List.length_drop]
    omega
  have hsplit : buf.drop vpd = id ++ next := by
    rw [← List.take_append_drop vpdLen (buf.drop vpd), List.drop_drop]
  have hsize : sizeMod = 2 ^ 64 := rfl
  rw [heq]
  constructor
  · rintro ⟨out', hdone, htext⟩
    constructor
    · intro hruns
      by_contra hroom
      have hle := vendor_runsOn hs hsplit hidLen.symm (by
        rw [← hsplit, List.length_drop]
        omega) hruns (by rw [List.singleton_append, List.length_cons]; omega) hdone
      rw [vendorText_runsOn hruns (by omega), List.singleton_append, List.length_cons] at hle
      omega
    · by_contra hnone
      obtain ⟨hblank, hnone⟩ := not_or.mp hnone
      obtain ⟨hword, hnul⟩ := not_or.mp hnone
      have hturn : vendorTurn (vendorStart buf vpd vpdLen out) = _ := vendorTurn_last hblank (by
        show vpdLen ≤ (buf.drop vpd).length
        rw [List.length_drop]
        omega)
      have hrest : vendorRest (vendorStart buf vpd vpdLen out) =
          .done (vendorStart buf vpd vpdLen out) ∧
          vendorText id out.length = [0x31] := by
        by_cases hid : id = []
        · rw [hid]
          refine ⟨vendorRest_empty (hidLen.symm.trans (by rw [hid]; rfl)), ?_⟩
          rw [vendorText, squeeze, List.take_of_length_le (by rw [List.length_singleton]; omega)]
          rfl
        · have htwo : out.length = 2 := by
            have hge := Nat.not_lt.mp fun hx => hword ⟨hid, hx⟩
            omega
          refine ⟨vendorRest_full (by rw [hs.out, htwo]; exact Nat.le_refl 1), ?_⟩
          rw [vendorText, htwo]
          rfl
      obtain ⟨n, hn⟩ := Nat.exists_eq_add_of_le' (Nat.lt_trans Nat.one_pos hout)
      rw [hn, vendorLoop_stop hturn, Outcome.bind_done, hrest.1, Outcome.bind_done] at hdone
      have hout' : out' = 0x31 :: out.tail := by
        have hpair := Outcome.done.inj hdone
        exact (congrArg Prod.snd hpair).symm
      rw [hrest.2, hout'] at htext
      apply hnul
      obtain ⟨a, b, rest, rfl⟩ := exists_two_bytes hout
      obtain ⟨-, htext⟩ := List.cons_prefix_cons.mp htext
      obtain ⟨rfl, -⟩ := List.cons_prefix_cons.mp htext
      rfl
  · rintro ⟨hruns, hnul⟩
    refine vendor_formats hs Nat.one_pos hout (Nat.lt_succ_self _) hsplit hidLen.symm (by
      rw [List.length_singleton]
      omega) (fun hx => ?_) ?_
    · rw [List.singleton_append, List.length_cons]
      exact hruns hx
    · rcases hnul with hnul | hnul | hnul
      · exact Or.inl hnul
      · refine Or.inr (Or.inl ⟨hnul.1, ?_⟩)
        rw [List.length_singleton]
        omega
      · refine Or.inr (Or.inr (Or.inl ?_))
        obtain ⟨a, b, rest, rfl⟩ := exists_two_bytes hout
        cases hnul
        exact List.prefix_append [0x31, 0] rest

/-- The bytes of a designator behind its header. -/
def identifier (buf : List Byte) (d : ℕ) : List Byte := (buf.drop (d + 4)).take (lengthAt buf d)

/-- What follows a designator in the buffer. -/
def behind (buf : List Byte) (d : ℕ) : List Byte := buf.drop (d + 4 + lengthAt buf d)

/-- A T10 vendor ID that is the first designator of the highest priority of a page is
returned as its text, with a NUL, if and only if the blanks at its end do not run on behind
it unless the output is full before, and it has a blank, or is not empty and there is room
for more than one character, or there is a NUL already. -/
theorem parseVpdPg83_vendorId_iff {buf out : List Byte} {inLen d : ℕ}
    (hpass : ∀ e ∈ offsets (designators buf) inLen 4, Passed buf e)
    (hfirst : IsFirstMax (rank buf) (offsets (designators buf) inLen 4) d)
    (hlun : OfLun buf d) (htype : typeAt buf d = 0x1)
    (hin : d + 4 + lengthAt buf d ≤ buf.length) (hbuf : buf.length < sizeMod)
    (hout : 1 < out.length) :
    let text := vendorText (identifier buf d) out.length
    (∃ fuel out', parseVpdPg83 fuel buf inLen out = .done (text.length, out') ∧
      HoldsString out' text) ↔
    (RunsOn (identifier buf d) (behind buf d) →
        out.length - 1 ≤ (squeeze (identifier buf d)).length + 1) ∧
      (blank ∈ identifier buf d ∨ (identifier buf d ≠ [] ∧ 2 < out.length) ∨
        out[1]? = some 0) := by
  intro text
  have hrank : 0 < rank buf d := by
    rw [rank_vendorId hlun htype]
    decide
  have hformat : formatDesignator buf d out = formatVendorId buf (d + 4) (lengthAt buf d) out := by
    rw [formatDesignator_eq (by omega), htype]
    rfl
  have hiff := formatVendorId_iff hout hin hbuf (lengthAt_lt buf d)
  dsimp only at hiff
  rw [identifier, behind, ← hiff, ← hformat]
  constructor
  · rintro ⟨fuel, out', hdone, htext⟩
    exact ⟨out', (parseVpdPg83_chosen hpass hfirst hrank hout).mp ⟨fuel, hdone⟩, htext⟩
  · rintro ⟨out', hdone, htext⟩
    obtain ⟨fuel, hdone⟩ := (parseVpdPg83_chosen hpass hfirst hrank hout).mpr hdone
    exact ⟨fuel, out', hdone, htext⟩

/-- The vendor ID "A  B". -/
def vendorPage : List Byte := [0, 0x83, 0, 8, 0x02, 0x01, 0, 4, 0x41, 0x20, 0x20, 0x42]

theorem parseVpdPg83_vendorId_page :
    ∃ fuel out', parseVpdPg83 fuel vendorPage 12 (List.replicate 8 0xff) =
      .done (4, out') ∧ HoldsString out' [0x31, 0x41, 0x5f, 0x42] := by
  have hos : offsets (designators vendorPage) 12 4 = [4] := by
    rw [offsets_of_lt (by decide), offsets_of_le (by decide)]
  have hall : ∀ e ∈ [4], Passed vendorPage e := by decide
  have hfirst : IsFirstMax (rank vendorPage) [4] 4 := ⟨[], [], rfl, by decide, by decide⟩
  rw [← hos] at hall hfirst
  have hends : RunsOn (identifier vendorPage 4) (behind vendorPage 4) →
      (List.replicate 8 (0xff : Byte)).length - 1 ≤
        (squeeze (identifier vendorPage 4)).length + 1 :=
    fun h => absurd h.1 (by decide)
  exact (parseVpdPg83_vendorId_iff hall hfirst (by decide) (by decide) (by decide) (by decide)
    (by decide)).mpr ⟨hends, Or.inl (by decide)⟩

/-- The vendor ID "A ", and a designator of a target port that begins with a blank. -/
def runOnPage : List Byte :=
  [0, 0x83, 0, 11, 0x02, 0x01, 0, 2, 0x41, 0x20, 0x20, 0x10, 0, 1, 0x20]

/-- The blanks of an ID run on, and what follows it becomes part of the text. -/
theorem parseVpdPg83_vendorId_fails :
    ¬ ∀ (buf out : List Byte) (inLen d : ℕ),
      (∀ e ∈ offsets (designators buf) inLen 4, Passed buf e) →
      IsFirstMax (rank buf) (offsets (designators buf) inLen 4) d → OfLun buf d →
      typeAt buf d = 0x1 → d + 4 + lengthAt buf d ≤ buf.length → buf.length < sizeMod →
      0 ∉ identifier buf d → 1 < out.length →
      ∃ fuel out', parseVpdPg83 fuel buf inLen out =
          .done ((vendorText (identifier buf d) out.length).length, out') ∧
        HoldsString out' (vendorText (identifier buf d) out.length) := by
  intro h
  have hos : offsets (designators runOnPage) 15 4 = [4, 10] := by
    rw [offsets_of_lt (by decide), offsets_of_lt (by decide), offsets_of_le (by decide)]
    rfl
  have hall : ∀ e ∈ [4, 10], Passed runOnPage e := by decide
  have hfirst : IsFirstMax (rank runOnPage) [4, 10] 4 := ⟨[], [10], rfl, by decide, by decide⟩
  rw [← hos] at hall hfirst
  obtain ⟨fuel, out', hdone, -⟩ := h runOnPage (List.replicate 6 0) 15 4 hall hfirst (by decide)
    (by decide) (by decide) (by decide) (by decide) (by decide)
  have hformat := (parseVpdPg83_chosen hall hfirst (by decide) (by decide)).mp ⟨fuel, hdone⟩
  have hlonger : formatDesignator runOnPage 4 (List.replicate 6 0) =
      .done (5, [0x31, 0x41, 0x5f, 0x10, 0, 0]) := by decide
  have htext : (vendorText (identifier runOnPage 4) (List.replicate 6 (0 : Byte)).length).length = 2 := by
    decide
  rw [hlonger, htext] at hformat
  cases congrArg Prod.fst (Outcome.done.inj hformat)

end MultipathTools.Discovery
