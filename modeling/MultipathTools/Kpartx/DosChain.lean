import MultipathTools.Kpartx.Dos

/-! Chains of extended partitions end, and stay in the array of slices. -/
namespace MultipathTools.Kpartx

variable {dev : DosDevice} {sp sp' : List Slice} {i : ℕ}

theorem setSlot_of_lt {f : Slice → Slice} (h : i < sp.length) :
    setSlot sp i f = .done (sp.modify i f) := if_pos h

section Extended

variable {en base start here : ℕ} {ns : ℤ} {p : Partition} {c c' : Chain} {more : Bool}

/-- The slice that a partition which is not extended gets. -/
def logicalSlice (dev : DosDevice) (en here : ℕ) (p : Partition) (s : Slice) : Slice :=
  { s with
    start := (here + dev.mul32 p.startSect) % 2 ^ 64
    size := dev.mul32 p.nrSects
    container := en + 1 }

/-- An extended partition that is followed, if there is none before it. -/
def Partition.live (p : Partition) : Bool :=
  isExtended p.sysType ∧ p.startSect ≠ 0 ∧ p.nrSects ≠ 0

/-- What a turn of the inner loop does. -/
inductive EntryTurn (dev : DosDevice) (en base : ℕ) (ns : ℤ) (start here : ℕ) (p : Partition)
    (c : Chain) : Chain → Bool → Prop
  | link (hlive : p.live) (hfirst : ¬ c.moretodo) :
    EntryTurn dev en base ns start here p c
      { c with next := (start + dev.mul32 p.startSect) % 2 ^ 64, moretodo := true } true
  | skip (hext : isExtended p.sysType) (hnot : ¬ p.live ∨ c.moretodo) :
    EntryTurn dev en base ns start here p c c true
  | store (hext : ¬ isExtended p.sysType) (hn : c.n < ns) :
    EntryTurn dev en base ns start here p c
      { c with
        sp := c.sp.modify (base + c.n) (logicalSlice dev en here p), n := c.n + 1, loopct := 0 } true
  | full (hext : ¬ isExtended p.sysType) (hn : ns ≤ c.n) : EntryTurn dev en base ns start here p c c false

theorem extendedEntry_turn (h : ∀ n : ℕ, n < ns → base + n < c.sp.length) :
    ∃ c' more, extendedEntry dev en base ns start here p c = .done (c', more) ∧
      EntryTurn dev en base ns start here p c c' more := by
  unfold extendedEntry
  by_cases hext : isExtended p.sysType
  · rw [if_pos hext]
    split_ifs with hlive
    · exact ⟨_, _, rfl, .link (by simp [Partition.live, hext, hlive.1, hlive.2.1]) hlive.2.2⟩
    · refine ⟨_, _, rfl, .skip hext ?_⟩
      simp only [Partition.live, hext, true_and, decide_eq_true_eq]
      tauto
  · rw [if_neg hext]
    split_ifs with hn
    · rw [setSlot_of_lt (h c.n hn), Outcome.bind_done]
      exact ⟨_, _, rfl, .store hext hn⟩
    · exact ⟨_, _, rfl, .full hext (not_lt.1 hn)⟩

/-- A rule for the inner loop, with the partitions that it has been at. -/
theorem extendedEntries_rule {Q : List Partition → Chain → Prop} {ps : List Partition}
    (hroom : ∀ prev c, Q prev c → ∀ n : ℕ, n < ns → base + n < c.sp.length)
    (hstep : ∀ prev, ∀ p ∈ ps, ∀ c c' more, Q prev c →
      EntryTurn dev en base ns start here p c c' more → Q (prev ++ [p]) c')
    {prev : List Partition} (h : Q prev c) :
    ∃ c' more prev', extendedEntries dev en base ns start here ps c = .done (c', more) ∧
      prev' <+: prev ++ ps ∧ Q prev' c' := by
  induction ps generalizing prev c with
  | nil => exact ⟨c, true, prev, rfl, by simp, h⟩
  | cons p ps ih =>
    obtain ⟨c', more, hturn, hcase⟩ := @extendedEntry_turn dev en base start here ns p c (hroom prev c h)
    have hq := hstep prev p (List.mem_cons_self ..) c c' more h hcase
    rw [extendedEntries, hturn, Outcome.bind_done]
    cases more with
    | true =>
      obtain ⟨c'', more', prev', hrest, hprefix, hq'⟩ :=
        ih (fun prev q hq => hstep prev q (List.mem_cons_of_mem p hq)) hq
      rw [List.append_assoc, List.singleton_append] at hprefix
      exact ⟨c'', more', prev', hrest, hprefix, hq'⟩
    | false =>
      refine ⟨c', false, prev ++ [p], rfl, ⟨ps, ?_⟩, hq⟩
      rw [List.append_assoc, List.singleton_append]

/-- The number of slices is in the array. -/
structure Chain.Within (c : Chain) (ns : ℤ) (len : ℕ) : Prop where
  length : c.sp.length = len
  count : c.n ≤ ns.toNat

/-- How many more turns the outer loop can take: free slots first, then turns without a slice. -/
def Chain.measure (c : Chain) (ns : ℤ) : ℕ := 101 * (ns.toNat - c.n) + (100 - c.loopct)

/-- The inner loop keeps the counter, unless it stores a slice. -/
theorem extendedEntries_within {len : ℕ} (hroom : ∀ n : ℕ, n < ns → base + n < len)
    (h : c.Within ns len) (ps : List Partition) :
    ∃ c' more, extendedEntries dev en base ns start here ps c = .done (c', more) ∧
      c'.Within ns len ∧ c.n ≤ c'.n ∧ (c'.n = c.n → c'.loopct = c.loopct) := by
  have hstep : ∀ c₁ c₂ p more,
      (c₁.Within ns len ∧ c.n ≤ c₁.n ∧ (c₁.n = c.n → c₁.loopct = c.loopct)) →
      EntryTurn dev en base ns start here p c₁ c₂ more →
      c₂.Within ns len ∧ c.n ≤ c₂.n ∧ (c₂.n = c.n → c₂.loopct = c.loopct) := by
    rintro c₁ c₂ p more ⟨hw, hle, hct⟩ hturn
    cases hturn with
    | link => exact ⟨⟨hw.length, hw.count⟩, hle, hct⟩
    | skip => exact ⟨hw, hle, hct⟩
    | store hext hn =>
      refine ⟨⟨(List.length_modify ..).trans hw.length, ?_⟩, Nat.le_succ_of_le hle, ?_⟩ <;>
      · dsimp only
        omega
    | full => exact ⟨hw, hle, hct⟩
  obtain ⟨c', more, -, hdone, -, hq⟩ := @extendedEntries_rule dev en base start here ns c
    (fun _ c' => c'.Within ns len ∧ c.n ≤ c'.n ∧ (c'.n = c.n → c'.loopct = c.loopct)) ps
    (fun _ c' h n hn => h.1.length ▸ hroom n hn)
    (fun _ p _ c₁ c₂ more h hturn => hstep c₁ c₂ p more h hturn) [] ⟨h, le_rfl, fun _ => rfl⟩
  exact ⟨c', more, hdone, hq⟩

/-- A rule for the outer loop, which ends. -/
theorem extendedLoop_rule {P : Chain → Prop} {len fuel : ℕ}
    (hroom : ∀ n : ℕ, n < ns → base + n < len)
    (hturn : ∀ c, P c → P c.turn)
    (hblock : ∀ c, P c → c.moretodo → c.Within ns len → P c.ask ∧
      ∀ bp, dev.getblock (BitVec.ofNat 32 c.next) = some bp → hasSignature bp →
        ∀ c' more, extendedEntries dev en base ns start c.next [partitionAt bp 0, partitionAt bp 1] c.ask =
          .done (c', more) → P c')
    (h : P c) (hwithin : c.Within ns len) (hfuel : c.measure ns < fuel) :
    ∃ c', extendedLoop dev en base ns start fuel c = .done c' ∧ P c' ∧ c'.Within ns len := by
  induction fuel generalizing c with
  | zero => exact absurd hfuel (Nat.not_lt_zero _)
  | succ fuel ih =>
    rw [extendedLoop]
    by_cases hmore : c.moretodo
    swap
    · exact ⟨c, if_pos hmore, h, hwithin⟩
    rw [if_neg (not_not.2 hmore)]
    have hturned : c.turn.Within ns len := ⟨hwithin.length, hwithin.count⟩
    have hasked : c.ask.Within ns len := ⟨hwithin.length, hwithin.count⟩
    obtain ⟨hask, hentries⟩ := hblock c h hmore hwithin
    split_ifs with hct
    · exact ⟨c.turn, rfl, hturn c h, hturned⟩
    cases hbp : dev.getblock (BitVec.ofNat 32 c.next) with
    | none => exact ⟨c.ask, rfl, hask, hasked⟩
    | some bp =>
      dsimp only
      split_ifs with hsig
      swap
      · exact ⟨c.ask, rfl, hask, hasked⟩
      obtain ⟨c', more, hdone, hw, hle, hsame⟩ :=
        @extendedEntries_within dev en base start c.next ns c.ask len hroom hasked
          [partitionAt bp 0, partitionAt bp 1]
      have hp := hentries bp hbp hsig c' more hdone
      rw [hdone, Outcome.bind_done]
      cases more with
      | true =>
        refine ih hp hw ?_
        have hcount := hw.count
        simp only [Chain.turn, Chain.ask, Chain.measure] at hct hle hsame hfuel ⊢
        omega
      | false => exact ⟨c', rfl, hp, hw⟩

end Extended

section Primary

variable {fuel : ℕ} {ns : BitVec 32} {bp : Block} {d : Dos} {all : Slice}

/-- Where `int` is too small for a number, the conversion makes it smaller. -/
theorem toInt_le {x : ℤ} (h : intMin ≤ x) : toInt x ≤ x := by
  by_cases hbig : x ≤ intMax
  · exact (toInt_of_isInt ⟨h, hbig⟩).le
  · exact (toInt_isInt _).2.trans (not_le.1 hbig).le

/-- The slots that `read_extended_partition` is given are in the array. -/
theorem add_lt_of_lt_toInt {n k : ℕ} (hn : n ≤ max 4 ns.toNat) (hk : (k : ℤ) < toInt (ns.toNat - n)) :
    n + k < ns.toNat := by
  have hlt := ns.isLt
  have hle := @toInt_le (ns.toNat - n) (by unfold intMin; omega)
  omega

/-- The variables of `read_dos_pt` while it goes on. -/
structure Dos.Within (d : Dos) (ns : BitVec 32) : Prop where
  length : d.sp.length = ns.toNat
  low : 4 ≤ d.n
  high : d.n ≤ max 4 ns.toNat

/-- The slice of a primary partition. -/
def primarySlice (dev : DosDevice) (p : Partition) (s : Slice) : Slice :=
  { s with start := dev.mul64 p.startSect, size := dev.mul64 p.nrSects }

/-- The slice of an extended partition. -/
def extendedSlice (dev : DosDevice) (s : Slice) : Slice :=
  { s with size := if dev.mul = 1 then 2 else dev.mul }

/-- The array before the chain of an extended partition. -/
def beforeChain (dev : DosDevice) (bp : Block) (i : ℕ) (sp : List Slice) : List Slice :=
  (sp.modify i (primarySlice dev (partitionAt bp i))).modify i (extendedSlice dev)

theorem beforeChain_length (i : ℕ) (sp : List Slice) :
    (beforeChain dev bp i sp).length = sp.length := by
  rw [beforeChain, List.length_modify, List.length_modify]

/-- The variables behind the chain of an extended partition. -/
def Dos.add (d : Dos) (i : ℕ) (c : Chain) : Dos :=
  { sp := c.sp, n := d.n + c.n, blocks := d.blocks ++ c.blocks.map (i, ·) }

/-- The bound suffices for one chain. -/
theorem measure_lt {n next : ℕ} (hn : n ≤ max 4 ns.toNat) (hfuel : 101 * (ns.toNat + 1) ≤ fuel) :
    Chain.measure { sp := sp, next := next } (toInt (ns.toNat - n)) < fuel := by
  have hslots : (toInt (ns.toNat - n)).toNat ≤ ns.toNat := by
    by_contra hlt
    have h := @add_lt_of_lt_toInt ns n ns.toNat hn (by omega)
    omega
  simp only [Chain.measure]
  omega

theorem readExtendedPartition_done {en n : ℕ} {p : Partition} (hn : n ≤ max 4 ns.toNat)
    (hlen : sp.length = ns.toNat) (hfuel : 101 * (ns.toNat + 1) ≤ fuel) :
    ∃ c, readExtendedPartition dev en n (toInt (ns.toNat - n)) fuel p sp = .done c ∧
      c.Within (toInt (ns.toNat - n)) ns.toNat := by
  have hroom : ∀ k : ℕ, k < toInt (ns.toNat - n) → n + k < ns.toNat :=
    fun k hk => add_lt_of_lt_toInt hn hk
  obtain ⟨c, hdone, -, hwithin⟩ := @extendedLoop_rule dev en n (dev.mul32 p.startSect) _ _
    (fun _ => True) _ _ hroom (fun _ _ => trivial)
    (fun _ _ _ _ => ⟨trivial, fun _ _ _ _ _ _ => trivial⟩) trivial ⟨hlen, Nat.zero_le _⟩
    (measure_lt hn hfuel)
  exact ⟨c, hdone, hwithin⟩

theorem Dos.Within.modify (h : d.Within ns) (f : Slice → Slice) :
    Dos.Within { d with sp := d.sp.modify i f } ns :=
  ⟨(List.length_modify ..).trans h.length, h.low, h.high⟩

theorem Dos.Within.add {c : Chain} (h : d.Within ns)
    (hc : c.Within (toInt (ns.toNat - d.n)) ns.toNat) : (d.add i c).Within ns := by
  refine ⟨hc.length, h.low.trans (Nat.le_add_right _ _), ?_⟩
  have hhigh := h.high
  simp only [Dos.add]
  by_cases hn : c.n = 0
  · omega
  · have hcount := hc.count
    have hlt := @add_lt_of_lt_toInt ns d.n (c.n - 1) hhigh (by omega)
    omega

/-- A rule for the loop over `m` entries, from entry `k` on. -/
theorem dosEntries_rule {R : ℕ → Dos → Prop} {E : Dos → Prop} {k m last : ℕ}
    (hfuel : 101 * (ns.toNat + 1) ≤ fuel)
    (hgpt : ∀ i d, d.Within ns → R i d → E { d with n := 0 })
    (hfull : ∀ i d, d.Within ns → R i d → ns.toNat ≤ i → E d)
    (hend : ∀ d, d.Within ns → R last d → E d)
    (hprimary : ∀ i d, d.Within ns → R i d → i < ns.toNat → i < last →
      ¬ isExtended (partitionAt bp i).sysType →
      R (i + 1) { d with sp := d.sp.modify i (primarySlice dev (partitionAt bp i)) })
    (hextended : ∀ i d c, d.Within ns → R i d → i < ns.toNat → i < last →
      isExtended (partitionAt bp i).sysType →
      readExtendedPartition dev i d.n (toInt (ns.toNat - d.n)) fuel (partitionAt bp i)
        (beforeChain dev bp i d.sp) = .done c → R (i + 1) (d.add i c))
    (h : R k d) (hwithin : d.Within ns) (hm : k + m = last) :
    ∃ d', dosEntries dev fuel ns bp (List.range' k m) d = .done d' ∧ E d' := by
  induction m generalizing k d with
  | zero => exact ⟨d, rfl, hend d hwithin (hm ▸ h)⟩
  | succ m ih =>
    rw [List.range'_succ, dosEntries]
    by_cases hg : isGpt (partitionAt bp k).sysType
    · exact ⟨_, if_pos hg, hgpt k d hwithin h⟩
    rw [if_neg hg]
    by_cases hk : k < ns.toNat
    swap
    · exact ⟨d, if_neg hk, hfull k d hwithin h (not_lt.1 hk)⟩
    rw [if_pos hk, setSlot_of_lt (hwithin.length ▸ hk), Outcome.bind_done]
    by_cases hext : isExtended (partitionAt bp k).sysType
    · obtain ⟨c, hdone, hc⟩ := @readExtendedPartition_done dev _ fuel ns k d.n (partitionAt bp k)
        hwithin.high ((beforeChain_length k d.sp).trans hwithin.length) hfuel
      have hadd := hextended k d c hwithin h hk (by omega) hext hdone
      unfold beforeChain primarySlice extendedSlice at hdone
      rw [if_pos hext, setSlot_of_lt, Outcome.bind_done, hdone, Outcome.bind_done]
      · exact ih hadd (hwithin.add hc) (by omega)
      · rw [List.length_modify, hwithin.length]
        exact hk
    · rw [if_neg hext]
      exact ih (hprimary k d hwithin h hk (by omega) hext) (hwithin.modify _) (by omega)

/-- The chains of extended partitions end, for every content of the disk, and only the slots of the
array are written. -/
theorem readDosPt_bounded (dev : DosDevice) (all : Slice) (sp : List Slice) (ns : BitVec 32)
    (hns : sp.length = ns.toNat) (h4 : 4 ≤ ns.toNat) {fuel : ℕ}
    (hfuel : 101 * (ns.toNat + 1) ≤ fuel) :
    ∃ ret d, readDosPt dev fuel ns all sp = .done (ret, d) ∧ d.sp.length = ns.toNat ∧
      ret ≤ ns.toNat := by
  unfold readDosPt
  split
  · exact ⟨-1, _, rfl, hns, by omega⟩
  rename_i bp hbp
  split_ifs
  · obtain ⟨d, hdone, hlen, hle⟩ := @dosEntries_rule dev fuel ns bp { sp := sp } (fun _ _ => True)
      (fun d => d.sp.length = ns.toNat ∧ d.n ≤ ns.toNat) 0 4 4 hfuel
      (fun _ d h _ => ⟨h.length, Nat.zero_le _⟩)
      (fun _ d h _ _ => ⟨h.length, h.high.trans (max_le h4 le_rfl)⟩)
      (fun d h _ => ⟨h.length, h.high.trans (max_le h4 le_rfl)⟩)
      (fun _ _ _ _ _ _ _ => trivial) (fun _ _ _ _ _ _ _ _ _ => trivial) trivial
      ⟨hns, le_rfl, le_max_left _ _⟩ rfl
    refine ⟨toInt d.n, d, ?_, hlen, ?_⟩
    · rw [show [0, 1, 2, 3] = List.range' 0 4 from rfl, hdone, Outcome.bind_done]
    · have hint := @toInt_le d.n (by unfold intMin; omega)
      omega
  · exact ⟨-1, _, rfl, hns, by omega⟩

end Primary

section Sample

/-- A block whose first entry is an extended partition of ten sectors. -/
def extendedMbr : Block :=
  ⟨List.replicate 446 0 ++ [0, 0, 0, 0, 5, 0, 0, 0, 100, 0, 0, 0, 10, 0, 0, 0] ++
    List.replicate 48 0 ++ [0x55, 0xaa], by decide +kernel⟩

/-- A disk with this block everywhere: the chain runs in a circle. -/
def cyclicDevice : DosDevice where
  sectorSize := 512
  sectorSize_lt := by decide
  getblock _ := some extendedMbr

theorem readDosPt_bounded_cyclic :
    ∃ ret d, readDosPt cyclicDevice 909 8 {} (List.replicate 8 {}) = .done (ret, d) ∧
      d.sp.length = 8 ∧ ret ≤ 8 :=
  readDosPt_bounded cyclicDevice {} (List.replicate 8 {}) 8 (by decide) (by decide) (by decide)

end Sample

end MultipathTools.Kpartx
