import Mathlib.Data.List.TakeWhile
import MultipathTools.Base.Merit
import MultipathTools.Discovery.Vpd83

/-! The walk over the designators of VPD page 0x83: which designators it meets, where it
gets stuck or leaves the buffer, and which one it chooses. -/
namespace MultipathTools.Discovery

/-- The designator behind the one at a position, by its length. -/
def designators (buf : List Byte) : Advance where
  next d := d + (buf.getD (d + 3) 0).toNat + 4
  lt_next d := by omega

/-- The designator is one of the logical unit. -/
def OfLun (buf : List Byte) (d : ℕ) : Prop := buf.getD (d + 1) 0 &&& 0x30 = 0

instance (buf : List Byte) (d : ℕ) : Decidable (OfLun buf d) := inferInstanceAs (Decidable (_ = _))

def typeAt (buf : List Byte) (d : ℕ) : ℕ := designatorType (buf.getD (d + 1) 0)

/-- A SCSI name designator of the logical unit, none of whose prefixes is known. -/
def Stuck (buf : List Byte) (d : ℕ) : Prop :=
  OfLun buf d ∧ typeAt buf d = 0x8 ∧ (buf.drop (d + 4)).take 4 ≠ euiPrefix ∧
    (buf.drop (d + 4)).take 4 ≠ naaPrefix ∧ (buf.drop (d + 4)).take 4 ≠ iqnPrefix

instance (buf : List Byte) (d : ℕ) : Decidable (Stuck buf d) :=
  inferInstanceAs (Decidable (_ ∧ _))

/-- How many bytes of a designator the walk looks at. -/
def looked (buf : List Byte) (d : ℕ) : ℕ :=
  if OfLun buf d ∧ typeAt buf d = 0x8 then 8
  else if OfLun buf d ∧ typeAt buf d = 0x3 then 5 else 4

/-- What the walk looks at lies in the buffer. -/
def HeaderInside (buf : List Byte) (d : ℕ) : Prop := d + looked buf d ≤ buf.length

instance (buf : List Byte) (d : ℕ) : Decidable (HeaderInside buf d) :=
  inferInstanceAs (Decidable (_ ≤ _))

/-- The priority of the designator at a position. -/
def rank (buf : List Byte) (d : ℕ) : ℤ :=
  if ¬ OfLun buf d then -1
  else match typeAt buf d with
  | 0x3 => naaPrio (buf.getD (d + 4) 0)
  | 0x8 => 4
  | 0x2 => 3
  | 0x1 => 2
  | _ => -1

/-- The designator is considered with its priority. -/
def consider (buf : List Byte) (c : Choice) (d : ℕ) : Choice := c.improve (rank buf d) d

theorem Choice.improve_prio {c : Choice} (h : -1 ≤ c.prio) (p : ℤ) (d : ℕ) :
    -1 ≤ (c.improve p d).prio := by
  unfold improve
  split_ifs with hp
  · exact le_of_lt (lt_of_le_of_lt h hp)
  · exact h

/-- A designator without priority does not become the best. -/
theorem Choice.improve_neg {c : Choice} (h : -1 ≤ c.prio) (d : ℕ) : c.improve (-1) d = c :=
  if_neg (not_lt.mpr h)

theorem foldl_consider_prio (buf : List Byte) (os : List ℕ) {c : Choice} (h : -1 ≤ c.prio) :
    -1 ≤ (os.foldl (consider buf) c).prio := by
  induction os generalizing c with
  | nil => exact h
  | cons d os ih => exact ih (Choice.improve_prio h _ d)

/-- The first designator of the highest priority is the one that is kept. -/
theorem foldl_consider_of_first {buf : List Byte} {os : List ℕ} {d : ℕ}
    (h : IsFirstMax (rank buf) os d) (hd : 0 < rank buf d) :
    os.foldl (consider buf) .none = ⟨rank buf d, d⟩ := by
  obtain ⟨c, hc, hfold⟩ := h.foldl (f := consider buf) (s := .none) Choice.prio
    (fun c e hlt => by rw [consider, Choice.improve, if_pos hlt])
    (fun c e hle => if_neg (not_lt.mpr hle)) (lt_trans (by decide) hd)
  rw [hfold]
  exact if_pos hc

/-- Without a designator that has a priority nothing is chosen. -/
theorem foldl_consider_of_none {buf : List Byte} {os : List ℕ} (h : ∀ d ∈ os, rank buf d ≤ 0)
    {c : Choice} (hc : c.prio ≤ 0) : (os.foldl (consider buf) c).prio ≤ 0 := by
  induction os generalizing c with
  | nil => exact hc
  | cons d os ih =>
    apply ih fun e he => h e (List.mem_cons_of_mem d he)
    show (c.improve _ d).prio ≤ 0
    unfold Choice.improve
    split_ifs
    · exact h d List.mem_cons_self
    · exact hc

theorem byteAt_getD {buf : List Byte} {i : ℕ} (h : i < buf.length) :
    byteAt buf i = .done (buf.getD i 0) := by
  rw [byteAt_of_lt h, List.getD_eq_getElem?_getD, List.getElem?_eq_getElem h, Option.getD_some]

theorem nextDesignator_eq {buf : List Byte} {d : ℕ} (h : d + 4 ≤ buf.length) (c : Choice) :
    nextDesignator buf d c = .done ((designators buf).next d, c) := by
  rw [nextDesignator, byteAt_getD (by omega)]
  rfl

theorem nextDesignator_outside {buf : List Byte} {d : ℕ} (h : buf.length < d + 4) (c : Choice) :
    nextDesignator buf d c = .outside := by
  rw [nextDesignator, byteAt_of_le (by omega)]
  rfl

section Step

variable {buf : List Byte} {d : ℕ} {c : Choice}

theorem rank_naa (hlun : OfLun buf d) (ht : typeAt buf d = 0x3) :
    rank buf d = naaPrio (buf.getD (d + 4) 0) := by
  rw [rank, if_neg (not_not.mpr hlun), ht]
  rfl

theorem rank_name (hlun : OfLun buf d) (ht : typeAt buf d = 0x8) : rank buf d = 4 := by
  rw [rank, if_neg (not_not.mpr hlun), ht]
  rfl

theorem rank_vendorId (hlun : OfLun buf d) (ht : typeAt buf d = 0x1) : rank buf d = 2 := by
  rw [rank, if_neg (not_not.mpr hlun), ht]
  rfl

/-- The second byte is that of a designator of the logical unit. -/
theorem association (hlun : OfLun buf d) : ¬ buf.getD (d + 1) 0 &&& 0x30 ≠ 0 := not_not.mpr hlun

/-- A designator of something else than the logical unit is only passed. -/
theorem designatorStep_other (h : d + 1 < buf.length) (hlun : ¬ OfLun buf d) :
    designatorStep buf d c = nextDesignator buf d c := by
  rw [designatorStep, byteAt_getD h, Outcome.bind_done]
  exact if_pos hlun

theorem designatorStep_naa (h : d + 1 < buf.length) (hlun : OfLun buf d)
    (ht : typeAt buf d = 0x3) :
    designatorStep buf d c =
      (byteAt buf (d + 4)).bind fun n => nextDesignator buf d (c.improve (naaPrio n) d) := by
  rw [designatorStep, byteAt_getD h, Outcome.bind_done]
  unfold typeAt at ht
  rw [if_neg (association hlun), ht]
  rfl

theorem designatorStep_name (h : d + 1 < buf.length) (hlun : OfLun buf d)
    (ht : typeAt buf d = 0x8) :
    designatorStep buf d c = (readAt buf (d + 4) 4).bind fun name =>
      if name ≠ euiPrefix ∧ name ≠ naaPrefix ∧ name ≠ iqnPrefix then .done (d, c)
      else nextDesignator buf d (c.improve 4 d) := by
  rw [designatorStep, byteAt_getD h, Outcome.bind_done]
  unfold typeAt at ht
  rw [if_neg (association hlun), ht]
  rfl

/-- The other designators of the logical unit, for which only the header is looked at. -/
theorem designatorStep_plain (h : d + 1 < buf.length) (hlun : OfLun buf d)
    (h3 : typeAt buf d ≠ 0x3) (h8 : typeAt buf d ≠ 0x8) (hc : -1 ≤ c.prio) :
    designatorStep buf d c = nextDesignator buf d (consider buf c d) := by
  rw [designatorStep, byteAt_getD h, Outcome.bind_done, if_neg (association hlun), consider, rank,
    if_neg (not_not.mpr hlun)]
  show (match typeAt buf d with
    | 0x3 => _
    | 0x8 => _
    | 0x2 => _
    | 0x1 => _
    | _ => _) = _
  split
  · contradiction
  · contradiction
  · rfl
  · rfl
  · rw [Choice.improve_neg hc]

/-- A turn that goes on considers the designator and goes to the next one. -/
theorem designatorStep_passes (hin : HeaderInside buf d) (hstuck : ¬ Stuck buf d)
    (hc : -1 ≤ c.prio) :
    designatorStep buf d c = .done ((designators buf).next d, consider buf c d) := by
  unfold HeaderInside looked at hin
  have h4 : d + 4 ≤ buf.length := by split_ifs at hin <;> omega
  by_cases hlun : OfLun buf d
  · by_cases h3 : typeAt buf d = 0x3
    · have hrank : consider buf c d = c.improve (naaPrio (buf.getD (d + 4) 0)) d := by
        rw [consider, rank_naa hlun h3]
      rw [if_neg (by omega), if_pos ⟨hlun, h3⟩] at hin
      rw [designatorStep_naa (by omega) hlun h3, byteAt_getD (by omega), Outcome.bind_done,
        nextDesignator_eq h4, hrank]
    · by_cases h8 : typeAt buf d = 0x8
      · have hrank : consider buf c d = c.improve 4 d := by
          rw [consider, rank_name hlun h8]
        rw [if_pos ⟨hlun, h8⟩] at hin
        rw [designatorStep_name (by omega) hlun h8, readAt_of_le (by omega), Outcome.bind_done,
          if_neg fun hname => hstuck ⟨hlun, h8, hname⟩, nextDesignator_eq h4, hrank]
      · rw [designatorStep_plain (by omega) hlun h3 h8 hc, nextDesignator_eq h4]
  · have hrank : consider buf c d = c := by
      rw [consider, rank, if_pos hlun, Choice.improve_neg hc]
    rw [designatorStep_other (by omega) hlun, nextDesignator_eq h4, hrank]

/-- A SCSI name with another prefix is looked at again and again. -/
theorem designatorStep_stuck (hin : HeaderInside buf d) (hstuck : Stuck buf d) :
    designatorStep buf d c = .done (d, c) := by
  obtain ⟨hlun, h8, hname⟩ := hstuck
  rw [HeaderInside, looked, if_pos ⟨hlun, h8⟩] at hin
  rw [designatorStep_name (by omega) hlun h8, readAt_of_le (by omega), Outcome.bind_done,
    if_pos hname]

theorem designatorStep_outside (hin : ¬ HeaderInside buf d) (hc : -1 ≤ c.prio) :
    designatorStep buf d c = .outside := by
  rcases Nat.lt_or_ge (d + 1) buf.length with h | h
  · unfold HeaderInside looked at hin
    by_cases hlun : OfLun buf d
    · by_cases h8 : typeAt buf d = 0x8
      · rw [if_pos ⟨hlun, h8⟩] at hin
        rw [designatorStep_name h hlun h8, readAt_of_lt (by omega), Outcome.bind_outside]
      · rw [if_neg fun hx => h8 hx.2] at hin
        by_cases h3 : typeAt buf d = 0x3
        · rw [if_pos ⟨hlun, h3⟩] at hin
          rw [designatorStep_naa h hlun h3, byteAt_of_le (by omega), Outcome.bind_outside]
        · rw [if_neg fun hx => h3 hx.2] at hin
          rw [designatorStep_plain h hlun h3 h8 hc, nextDesignator_outside (by omega)]
    · rw [if_neg fun hx => hlun hx.1, if_neg fun hx => hlun hx.1] at hin
      rw [designatorStep_other h hlun, nextDesignator_outside (by omega)]
  · rw [designatorStep, byteAt_of_le h, Outcome.bind_outside]

/-- The walk goes on behind the designator. -/
def Passed (buf : List Byte) (d : ℕ) : Prop := HeaderInside buf d ∧ ¬ Stuck buf d

instance (buf : List Byte) (d : ℕ) : Decidable (Passed buf d) := inferInstanceAs (Decidable (_ ∧ _))

theorem passes_of_passed {os : List ℕ} (h : ∀ e ∈ os, Passed buf e) :
    Passes (designatorStep buf) (designators buf) (consider buf) os .none := by
  refine passes_of_invariant (fun c => -1 ≤ c.prio) (by decide) fun e he c hc => ?_
  exact ⟨designatorStep_passes (h e he).1 (h e he).2 hc, Choice.improve_prio hc _ _⟩

/-- The walk leaves the buffer at a designator that is not inside. -/
theorem chooseDesignator_leaves {inLen fuel : ℕ} {pre post : List ℕ}
    (hos : offsets (designators buf) inLen 4 = pre ++ d :: post) (hpre : ∀ e ∈ pre, Passed buf e)
    (hin : ¬ HeaderInside buf d) (hfuel : inLen ≤ fuel) :
    chooseDesignator fuel buf inLen = .outside := by
  have hlength : (offsets (designators buf) inLen 4).length ≤ inLen - 4 := length_offsets_le
  have hless : pre.length < (offsets (designators buf) inLen 4).length := by
    rw [hos]
    simp
  exact whileBelow_outside hos (passes_of_passed hpre)
    (designatorStep_outside hin (foldl_consider_prio buf pre (by decide))) (by omega)

/-- The walk meets nothing but designators that it passes, and then has considered all of
them; or it gets stuck, or leaves the buffer, at the first that it does not pass. -/
theorem chooseDesignator_cases (buf : List Byte) (inLen : ℕ) :
    ((∀ d ∈ offsets (designators buf) inLen 4, Passed buf d) ∧
      ∀ fuel, inLen ≤ fuel → chooseDesignator fuel buf inLen =
        .done ((offsets (designators buf) inLen 4).foldl (consider buf) .none)) ∨
    ∃ pre d post, offsets (designators buf) inLen 4 = pre ++ d :: post ∧
      (∀ e ∈ pre, Passed buf e) ∧
      (HeaderInside buf d ∧ Stuck buf d ∧
          (∀ fuel, chooseDesignator fuel buf inLen = .unfinished) ∨
        ¬ HeaderInside buf d ∧
          ∀ fuel, inLen ≤ fuel → chooseDesignator fuel buf inLen = .outside) := by
  have hlength : (offsets (designators buf) inLen 4).length ≤ inLen - 4 := length_offsets_le
  cases hfind : (offsets (designators buf) inLen 4).find? (fun d => ¬ Passed buf d) with
  | none =>
    have hall : ∀ d ∈ offsets (designators buf) inLen 4, Passed buf d := by
      simpa using hfind
    exact Or.inl ⟨hall, fun fuel hfuel => whileBelow_done (passes_of_passed hall) (by omega)⟩
  | some d =>
    obtain ⟨hd, pre, post, hos, hpre⟩ := List.find?_eq_some_iff_append.mp hfind
    have hpre' : ∀ e ∈ pre, Passed buf e := by simpa using hpre
    refine Or.inr ⟨pre, d, post, hos, hpre', ?_⟩
    by_cases hin : HeaderInside buf d
    · have hstuck : Stuck buf d := by
        by_contra hstuck
        simp [Passed, hin, hstuck] at hd
      exact Or.inl ⟨hin, hstuck, fun fuel =>
        whileBelow_stuck hos (passes_of_passed hpre') (designatorStep_stuck hin hstuck)⟩
    · exact Or.inr ⟨hin, fun fuel hfuel => chooseDesignator_leaves hos hpre' hin hfuel⟩

end Step

/-- The buffer holds the string, with its NUL. -/
def HoldsString (out s : List Byte) : Prop := s ++ [0] <+: out

/-- The length field of a designator. -/
def lengthAt (buf : List Byte) (d : ℕ) : ℕ := (buf.getD (d + 3) 0).toNat

theorem lengthAt_lt (buf : List Byte) (d : ℕ) : lengthAt buf d < 256 := BitVec.isLt _

/-- The formatter that is used for a designator. -/
theorem formatDesignator_eq {buf : List Byte} {d : ℕ} (h : d + 4 ≤ buf.length) (out : List Byte) :
    formatDesignator buf d out =
      if typeAt buf d = 0x2 ∨ typeAt buf d = 0x3 then
        formatHex buf (d + 4) (typeAt buf d) (lengthAt buf d) out
      else if typeAt buf d = 0x8 ∧ lengthAt buf d < 4 then .done (-einval, out)
      else if typeAt buf d = 0x8 then formatName buf (d + 4) (lengthAt buf d) out
      else if typeAt buf d = 0x1 then formatVendorId buf (d + 4) (lengthAt buf d) out
      else .done (0, out) := by
  rw [formatDesignator, byteAt_getD (by omega), Outcome.bind_done, byteAt_getD (by omega)]
  rfl

/-- A page whose designators are all passed is walked through. -/
theorem chooseDesignator_passed {buf : List Byte} {inLen fuel : ℕ}
    (hpass : ∀ e ∈ offsets (designators buf) inLen 4, Passed buf e) (hfuel : inLen ≤ fuel) :
    chooseDesignator fuel buf inLen =
      .done ((offsets (designators buf) inLen 4).foldl (consider buf) .none) := by
  rcases chooseDesignator_cases buf inLen with ⟨-, hends⟩ | ⟨pre, e, post, hos, -, hcase⟩
  · exact hends fuel hfuel
  · have he : Passed buf e := by
      apply hpass
      rw [hos]
      exact List.mem_append_right pre List.mem_cons_self
    rcases hcase with ⟨-, hstuck, -⟩ | ⟨hin, -⟩
    · exact absurd hstuck he.2
    · exact absurd he.1 hin

/-- The first designator of the highest priority is formatted. -/
theorem parseVpdPg83_first {buf out : List Byte} {inLen d fuel : ℕ}
    (hpass : ∀ e ∈ offsets (designators buf) inLen 4, Passed buf e)
    (hfirst : IsFirstMax (rank buf) (offsets (designators buf) inLen 4) d) (hrank : 0 < rank buf d)
    (hout : 1 < out.length) (hfuel : inLen ≤ fuel) :
    parseVpdPg83 fuel buf inLen out = formatDesignator buf d out := by
  rw [parseVpdPg83, chooseDesignator_passed hpass hfuel, Outcome.bind_done,
    foldl_consider_of_first hfirst hrank, if_neg (not_le.mpr hrank), if_neg (Nat.not_le.mpr hout)]

/-- What is returned for a page is what the formatter returns for its first designator of
the highest priority. -/
theorem parseVpdPg83_chosen {buf out : List Byte} {inLen d : ℕ} {r : ℤ × List Byte}
    (hpass : ∀ e ∈ offsets (designators buf) inLen 4, Passed buf e)
    (hfirst : IsFirstMax (rank buf) (offsets (designators buf) inLen 4) d)
    (hrank : 0 < rank buf d) (hout : 1 < out.length) :
    (∃ fuel, parseVpdPg83 fuel buf inLen out = .done r) ↔ formatDesignator buf d out = .done r := by
  constructor
  · rintro ⟨fuel, hdone⟩
    obtain ⟨c, hc, hformat⟩ := Outcome.bind_eq_done_iff.mp hdone
    rw [← parseVpdPg83_first hpass hfirst hrank hout (Nat.le_add_left inLen fuel), parseVpdPg83,
      chooseDesignator, whileBelow_mono hc inLen]
    exact hformat
  · intro hdone
    exact ⟨inLen, (parseVpdPg83_first hpass hfirst hrank hout (Nat.le_refl _)).trans hdone⟩

/-- Without a designator that has a priority there is no WWID. -/
theorem parseVpdPg83_none {buf : List Byte} {inLen : ℕ}
    (hpass : ∀ e ∈ offsets (designators buf) inLen 4, Passed buf e)
    (hnone : ∀ e ∈ offsets (designators buf) inLen 4, rank buf e ≤ 0) (out : List Byte) :
    parseVpdPg83 inLen buf inLen out = .done (-enodata, out) := by
  rw [parseVpdPg83, chooseDesignator_passed hpass (Nat.le_refl _), Outcome.bind_done]
  exact if_pos (foldl_consider_of_none hnone (by decide))

/-- The designators that the walk comes to, up to the first that is not inside the buffer. -/
def reached (buf : List Byte) (inLen : ℕ) : List ℕ :=
  (offsets (designators buf) inLen 4).takeWhile fun d => HeaderInside buf d

/-- What is passed is reached, and what comes next where it is inside. -/
theorem reached_of_passed {buf : List Byte} {inLen d : ℕ} {pre post : List ℕ}
    (hos : offsets (designators buf) inLen 4 = pre ++ d :: post)
    (hpre : ∀ e ∈ pre, Passed buf e) :
    (HeaderInside buf d → d ∈ reached buf inLen) ∧
      (¬ HeaderInside buf d → reached buf inLen = pre) := by
  have hinside : ∀ e ∈ pre, decide (HeaderInside buf e) = true := by
    intro e he
    exact decide_eq_true (hpre e he).1
  constructor
  · intro hd
    rw [reached, hos, List.takeWhile_append_of_pos hinside, List.takeWhile_cons_of_pos (by simpa)]
    exact List.mem_append_right pre List.mem_cons_self
  · intro hd
    rw [reached, hos, List.takeWhile_append_of_pos hinside, List.takeWhile_cons_of_neg (by simpa),
      List.append_nil]

/-- The loop over the designators goes on at every designator that it reaches, and ends, if
and only if none of them is a SCSI name of the logical unit with an unknown prefix. -/
theorem chooseDesignator_ends_iff (buf : List Byte) (inLen : ℕ) :
    ((∀ d ∈ reached buf inLen, ∀ c, -1 ≤ c.prio →
        ∃ c', designatorStep buf d c = .done ((designators buf).next d, c')) ∧
      ∃ fuel, chooseDesignator fuel buf inLen ≠ .unfinished) ↔
      ∀ d ∈ reached buf inLen, ¬ Stuck buf d := by
  have hinside : ∀ d ∈ reached buf inLen, HeaderInside buf d := by
    intro d hd
    have hp := List.mem_takeWhile_imp (p := fun d => decide (HeaderInside buf d)) hd
    exact of_decide_eq_true hp
  constructor
  · rintro ⟨hgoes, -⟩ d hd hstuck
    obtain ⟨c', hstep⟩ := hgoes d hd .none (by decide)
    rw [designatorStep_stuck (hinside d hd) hstuck] at hstep
    have hnext := (designators buf).lt_next d
    injection hstep with hpair
    have hsame := congrArg Prod.fst hpair
    dsimp only at hsame
    omega
  · intro hnone
    refine ⟨fun d hd c hc => ⟨_, designatorStep_passes (hinside d hd) (hnone d hd) hc⟩, inLen, ?_⟩
    rcases chooseDesignator_cases buf inLen with ⟨-, hends⟩ | ⟨pre, d, post, hos, hpre, hcase⟩
    · rw [hends inLen le_rfl]
      intro h
      cases h
    · obtain ⟨hreached, -⟩ := reached_of_passed hos hpre
      rcases hcase with ⟨hin, hstuck, -⟩ | ⟨-, houtside⟩
      · exact absurd hstuck (hnone d (hreached hin))
      · rw [houtside inLen le_rfl]
        intro h
        cases h

/-- A page whose only designator is the SCSI name "foo." of the logical unit. -/
def fooPage : List Byte := [0, 0x83, 0, 8, 0x03, 0x08, 0, 4, 0x66, 0x6f, 0x6f, 0x2e]

/-- The loop is caught at a designator with an unknown prefix. -/
theorem chooseDesignator_ends_fails :
    ¬ ∀ buf inLen, inLen ≤ 65539 → ∃ fuel, chooseDesignator fuel buf inLen ≠ .unfinished := by
  intro h
  obtain ⟨fuel, hends⟩ := h fooPage 12 (by decide)
  apply hends
  have hos : offsets (designators fooPage) 12 4 = [] ++ 4 :: offsets (designators fooPage) 12 12 :=
    offsets_of_lt (by decide)
  exact whileBelow_stuck (f := consider fooPage) hos trivial
    (designatorStep_stuck (by decide) (by decide))

end MultipathTools.Discovery
