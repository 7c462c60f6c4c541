import MultipathTools.Kpartx.DosChain
import Mathlib.Tactic.NormNum

/-! The positions and sizes in DOS partition tables, as numbers without bound. -/
namespace MultipathTools.Kpartx

section Positions

variable (dev : DosDevice) (first : ℕ)

/-- The extended partition that a block leads to. -/
def nextEntry (bp : Block) : Option Partition := [partitionAt bp 0, partitionAt bp 1].find? Partition.live

/-- A position in the chain of extended partitions from `first` on. -/
inductive Link : ℕ → Prop
  | first : Link first
  | next {here : ℕ} {bp : Block} {p : Partition} (hlink : Link here)
    (hbp : dev.getblock (BitVec.ofNat 32 here) = some bp) (hsig : hasSignature bp)
    (hp : nextEntry bp = some p) : Link (first + dev.mul * p.startSect)

/-- The positions in the chain have 32 bits, and so do the products that are computed there, of the
logical partitions and of the entry that leads on. -/
structure NoWrap : Prop where
  position : ∀ here, Link dev first here → here < 2 ^ 32
  start : ∀ here bp, Link dev first here → dev.getblock (BitVec.ofNat 32 here) = some bp →
    hasSignature bp → ∀ p ∈ [partitionAt bp 0, partitionAt bp 1],
      ¬ isExtended p.sysType ∨ nextEntry bp = some p → dev.mul * p.startSect < 2 ^ 32
  size : ∀ here bp, Link dev first here → dev.getblock (BitVec.ofNat 32 here) = some bp →
    hasSignature bp → ∀ p ∈ [partitionAt bp 0, partitionAt bp 1], ¬ isExtended p.sysType →
      dev.mul * p.nrSects < 2 ^ 32

/-- The slice of a logical partition in the chain. -/
def Logical (s : Slice) : Prop :=
  ∃ here bp p, Link dev first here ∧ dev.getblock (BitVec.ofNat 32 here) = some bp ∧
    p ∈ [partitionAt bp 0, partitionAt bp 1] ∧ ¬ isExtended p.sysType ∧
    s.start = here + dev.mul * p.startSect ∧ s.size = dev.mul * p.nrSects

end Positions

section Chain

variable {dev : DosDevice} {first en base start here : ℕ} {ns : ℤ} {p : Partition} {c c' : Chain}
  {more : Bool} {bp : Block} {sp : List Slice}

theorem mul_lt : dev.mul < 2 ^ 22 := by
  have hlt := dev.sectorSize_lt
  unfold DosDevice.mul
  omega

/-- In 64 bits no product wraps. -/
theorem mul64_eq {x : ℕ} (h : x < 2 ^ 32) : dev.mul64 x = dev.mul * x := by
  refine Nat.mod_eq_of_lt ?_
  calc dev.mul * x ≤ 2 ^ 22 * 2 ^ 32 := Nat.mul_le_mul mul_lt.le h.le
    _ < 2 ^ 64 := by norm_num

theorem mul32_eq {x : ℕ} (h : dev.mul * x < 2 ^ 32) : dev.mul32 x = dev.mul * x := Nat.mod_eq_of_lt h

theorem live_isExtended (h : p.live) : isExtended p.sysType := by
  simp only [Partition.live, decide_eq_true_eq] at h
  exact h.1

/-- What has been stored for an extended partition, and asked of `getblock`. -/
structure Chain.Sound (dev : DosDevice) (first en base : ℕ) (sp : List Slice) (c : Chain) : Prop where
  frame : ∀ j, j < base ∨ base + c.n ≤ j → c.sp[j]? = sp[j]?
  slices : ∀ j, base ≤ j → j < base + c.n → ∃ s, c.sp[j]? = some s ∧ s.container = en + 1 ∧
    (NoWrap dev first → Logical dev first s)
  blocks : ∀ b ∈ c.blocks, NoWrap dev first → Link dev first b.toNat

/-- The link that the inner loop has found among these partitions. -/
def Chain.Pending (c : Chain) (dev : DosDevice) (start : ℕ) (ps : List Partition) : Prop :=
  match ps.find? Partition.live with
  | some p => c.moretodo ∧ c.next = (start + dev.mul32 p.startSect) % 2 ^ 64
  | none => ¬ c.moretodo

/-- Storing a slice keeps the others. -/
theorem Chain.Sound.store (h : c.Sound dev first en base sp) (hlen : base + c.n < c.sp.length)
    (hp : NoWrap dev first → ∀ s, Logical dev first (logicalSlice dev en here p s)) :
    Chain.Sound dev first en base sp
      { c with
        sp := c.sp.modify (base + c.n) (logicalSlice dev en here p), n := c.n + 1, loopct := 0 } := by
  refine ⟨fun j hj => ?_, fun j hlo hhi => ?_, h.blocks⟩
  · dsimp only at hj ⊢
    rw [List.getElem?_modify_ne _ _ (by omega)]
    exact h.frame j (by omega)
  · dsimp only at hhi ⊢
    by_cases heq : base + c.n = j
    · subst heq
      rw [List.getElem?_modify_eq, List.getElem?_eq_getElem hlen]
      exact ⟨_, rfl, rfl, fun hno => hp hno _⟩
    · rw [List.getElem?_modify_ne _ _ heq]
      exact h.slices j hlo (by omega)

theorem Chain.Pending.turn {ps : List Partition} (h : c.Pending dev start ps)
    (hturn : EntryTurn dev en base ns start here p c c' more) : c'.Pending dev start (ps ++ [p]) := by
  unfold Chain.Pending at h ⊢
  rw [List.find?_append]
  cases hfind : ps.find? Partition.live with
  | some q =>
    rw [hfind] at h
    cases hturn with
    | link hlive hfirst => exact absurd h.1 hfirst
    | skip => exact h
    | store => exact h
    | full => exact h
  | none =>
    rw [hfind] at h
    cases hturn with
    | link hlive hfirst =>
      rw [Option.none_or, List.find?_singleton, if_pos hlive]
      exact ⟨rfl, rfl⟩
    | skip hext hnot =>
      rw [Option.none_or, List.find?_singleton, if_neg (hnot.resolve_right h)]
      exact h
    | store hext =>
      rw [Option.none_or, List.find?_singleton, if_neg (mt live_isExtended hext)]
      exact h
    | full hext =>
      rw [Option.none_or, List.find?_singleton, if_neg (mt live_isExtended hext)]
      exact h

/-- Where the chain is, if it goes on. -/
def Chain.AtLink (c : Chain) (dev : DosDevice) (first : ℕ) : Prop :=
  c.moretodo → NoWrap dev first → Link dev first c.next

/-- What is stored for the partitions of a block at a position in the chain. -/
theorem logicalSlice_logical (hno : NoWrap dev first) (hlink : Link dev first here)
    (hbp : dev.getblock (BitVec.ofNat 32 here) = some bp) (hsig : hasSignature bp)
    (hp : p ∈ [partitionAt bp 0, partitionAt bp 1]) (hext : ¬ isExtended p.sysType) (s : Slice) :
    Logical dev first (logicalSlice dev en here p s) := by
  have hstart := hno.start here bp hlink hbp hsig p hp (.inl hext)
  have hsize := hno.size here bp hlink hbp hsig p hp hext
  have hpos := hno.position here hlink
  refine ⟨here, bp, p, hlink, hbp, hp, hext, ?_, mul32_eq hsize⟩
  rw [logicalSlice, mul32_eq hstart]
  exact Nat.mod_eq_of_lt (by omega)

/-- A block at a position in the chain leads to a position in the chain. -/
theorem Chain.Sound.block {len : ℕ} (hroom : ∀ n : ℕ, n < ns → base + n < len)
    (hstart : NoWrap dev first → start = first) (hwithin : c.Within ns len)
    (h : c.Sound dev first en base sp) (hlink : NoWrap dev first → Link dev first c.next) :
    c.ask.Sound dev first en base sp ∧
      ∀ bp, dev.getblock (BitVec.ofNat 32 c.next) = some bp → hasSignature bp →
        ∀ c' more, extendedEntries dev en base ns start c.next
          [partitionAt bp 0, partitionAt bp 1] c.ask = .done (c', more) →
          c'.Sound dev first en base sp ∧ c'.AtLink dev first := by
  have hask : c.ask.Sound dev first en base sp := by
    refine ⟨h.frame, h.slices, fun b hb hno => ?_⟩
    rcases List.mem_append.1 hb with hb | hb
    · exact h.blocks b hb hno
    · rw [List.mem_singleton.1 hb, BitVec.toNat_ofNat,
        Nat.mod_eq_of_lt (hno.position _ (hlink hno))]
      exact hlink hno
  refine ⟨hask, fun bp hbp hsig c' more hdone => ?_⟩
  obtain ⟨c'', more', ps, hdone', hprefix, ⟨-, hsound⟩, hpending⟩ :=
    @extendedEntries_rule dev en base start c.next ns c.ask
      (fun ps c => (c.sp.length = len ∧ c.Sound dev first en base sp) ∧ c.Pending dev start ps)
      [partitionAt bp 0, partitionAt bp 1]
      (fun _ c h n hn => h.1.1 ▸ hroom n hn)
      (by
        rintro prev p hp c₁ c₂ more ⟨⟨hlen, hs⟩, hpend⟩ hturn
        refine ⟨?_, hpend.turn hturn⟩
        cases hturn with
        | link => exact ⟨hlen, hs.frame, hs.slices, hs.blocks⟩
        | skip => exact ⟨hlen, hs⟩
        | store hext hn =>
          refine ⟨(List.length_modify ..).trans hlen, hs.store (hlen ▸ hroom _ hn) fun hno => ?_⟩
          exact logicalSlice_logical hno (hlink hno) hbp hsig hp hext
        | full => exact ⟨hlen, hs⟩)
      [] ⟨⟨hwithin.length, hask⟩, Bool.false_ne_true⟩
  cases hdone.symm.trans hdone'
  refine ⟨hsound, fun hmore hno => ?_⟩
  unfold Chain.Pending at hpending
  cases hfind : ps.find? Partition.live with
  | none =>
    rw [hfind] at hpending
    exact absurd hmore hpending
  | some p =>
    rw [hfind] at hpending
    have hnext : nextEntry bp = some p := hprefix.find?_eq_some hfind
    have hp : p ∈ [partitionAt bp 0, partitionAt bp 1] := List.mem_of_find?_eq_some hnext
    have hlt := hno.start c.next bp (hlink hno) hbp hsig p hp (.inr hnext)
    have hfirst := hno.position first .first
    rw [hpending.2, hstart hno, mul32_eq hlt, Nat.mod_eq_of_lt (by omega)]
    exact .next (hlink hno) hbp hsig hnext

end Chain

section Table

variable {dev : DosDevice} {fuel k n i : ℕ} {ns : BitVec 32} {bp : Block} {sp : List Slice}
  {p : Partition} {c : Chain} {d : Dos} {count : ℤ}

theorem readExtendedPartition_sound {en : ℕ} (hn : n ≤ max 4 ns.toNat) (hlen : sp.length = ns.toNat)
    (hfuel : 101 * (ns.toNat + 1) ≤ fuel)
    (hdone : readExtendedPartition dev en n (toInt (ns.toNat - n)) fuel p sp = .done c) :
    c.Sound dev (dev.mul * p.startSect) en n sp := by
  have hroom : ∀ k : ℕ, k < toInt (ns.toNat - n) → n + k < ns.toNat :=
    fun k hk => add_lt_of_lt_toInt hn hk
  have hstart : NoWrap dev (dev.mul * p.startSect) → dev.mul32 p.startSect = dev.mul * p.startSect :=
    fun hno => mul32_eq (hno.position _ .first)
  have hinit : (Chain.mk sp 0 (dev.mul32 p.startSect) true 0 []).Sound dev (dev.mul * p.startSect)
      en n sp :=
    ⟨fun _ _ => rfl, fun j hlo hhi => absurd hhi (not_lt.2 hlo), fun b hb => absurd hb (by simp)⟩
  have hlink : (Chain.mk sp 0 (dev.mul32 p.startSect) true 0 []).AtLink dev (dev.mul * p.startSect) :=
    fun _ hno => (hstart hno).symm ▸ .first
  obtain ⟨c', hdone', ⟨hsound, -⟩, -⟩ := @extendedLoop_rule dev en n (dev.mul32 p.startSect) _ _
    (fun c => c.Sound dev (dev.mul * p.startSect) en n sp ∧ c.AtLink dev (dev.mul * p.startSect))
    _ fuel hroom
    (fun c h => ⟨⟨h.1.frame, h.1.slices, h.1.blocks⟩, fun hmore => absurd hmore Bool.false_ne_true⟩)
    (fun c h hmore hwithin => by
      obtain ⟨hask, hentries⟩ := h.1.block hroom hstart hwithin (h.2 hmore)
      exact ⟨⟨hask, fun hmore => absurd hmore Bool.false_ne_true⟩, hentries⟩)
    ⟨hinit, hlink⟩ ⟨hlen, Nat.zero_le _⟩ (measure_lt hn hfuel)
  cases hdone.symm.trans hdone'
  exact hsound

/-- The size that a primary partition is reported with. -/
def primarySize (dev : DosDevice) (p : Partition) : ℕ :=
  if isExtended p.sysType then if dev.mul = 1 then 2 else dev.mul else dev.mul * p.nrSects

/-- The first `count` slices, of these `k` belong to primary partitions, and the chains that are
followed, as numbers without bound. -/
structure DosExact (dev : DosDevice) (bp : Block) (k : ℕ) (count : ℤ) (d : Dos) : Prop where
  primary : ∀ i : ℕ, i < k → i < count → ∃ s, d.sp[i]? = some s ∧
    s.start = dev.mul * (partitionAt bp i).startSect ∧ s.size = primarySize dev (partitionAt bp i)
  logical : ∀ j : ℕ, 4 ≤ j → j < count → ∃ i < 4, ∃ s, isExtended (partitionAt bp i).sysType ∧
    d.sp[j]? = some s ∧ s.container = i + 1 ∧
    (NoWrap dev (dev.mul * (partitionAt bp i).startSect) →
      Logical dev (dev.mul * (partitionAt bp i).startSect) s)
  links : ∀ i b, (i, b) ∈ d.blocks → NoWrap dev (dev.mul * (partitionAt bp i).startSect) →
    Link dev (dev.mul * (partitionAt bp i).startSect) b.toNat

theorem DosExact.mono {k' : ℕ} {count' : ℤ} (h : DosExact dev bp k count d) (hk : k' ≤ k)
    (hcount : count' ≤ count) : DosExact dev bp k' count' d where
  primary i hi hn := h.primary i (hi.trans_le hk) (hn.trans_le hcount)
  logical j hj hn := h.logical j hj (hn.trans_le hcount)
  links := h.links

theorem startSect_lt (bp : Block) (i : ℕ) : (partitionAt bp i).startSect < 2 ^ 32 := le32_lt

theorem nrSects_lt (bp : Block) (i : ℕ) : (partitionAt bp i).nrSects < 2 ^ 32 := le32_lt

/-- A primary partition that is not extended. -/
theorem DosExact.addPrimary (h : DosExact dev bp i d.n d) (hwithin : d.Within ns) (hi : i < 4)
    (hns : i < ns.toNat) (hext : ¬ isExtended (partitionAt bp i).sysType) :
    DosExact dev bp (i + 1) d.n
      { d with sp := d.sp.modify i (primarySlice dev (partitionAt bp i)) } := by
  refine ⟨fun j hj hn => ?_, fun j hj hn => ?_, h.links⟩
  · dsimp only
    by_cases heq : i = j
    · subst heq
      rw [List.getElem?_modify_eq, List.getElem?_eq_getElem (hwithin.length ▸ hns)]
      refine ⟨_, rfl, mul64_eq (startSect_lt bp i), ?_⟩
      rw [primarySize, if_neg hext]
      exact mul64_eq (nrSects_lt bp i)
    · rw [List.getElem?_modify_ne _ _ heq]
      exact h.primary j (by omega) hn
  · dsimp only
    rw [List.getElem?_modify_ne _ _ (by omega)]
    exact h.logical j hj hn

/-- An extended primary partition with its chain. -/
theorem DosExact.addExtended (h : DosExact dev bp i d.n d) (hwithin : d.Within ns) (hi : i < 4)
    (hns : i < ns.toNat) (hext : isExtended (partitionAt bp i).sysType)
    (hc : c.Sound dev (dev.mul * (partitionAt bp i).startSect) i d.n (beforeChain dev bp i d.sp)) :
    DosExact dev bp (i + 1) (d.add i c).n (d.add i c) := by
  have hlow := hwithin.low
  refine ⟨fun j hj hn => ?_, fun j hj hn => ?_, fun j b hmem hno => ?_⟩
  · rw [show (d.add i c).sp[j]? = c.sp[j]? from rfl, hc.frame j (by omega), beforeChain]
    by_cases heq : i = j
    · subst heq
      rw [List.getElem?_modify_eq, List.getElem?_modify_eq,
        List.getElem?_eq_getElem (hwithin.length ▸ hns)]
      refine ⟨_, rfl, mul64_eq (startSect_lt bp i), ?_⟩
      rw [primarySize, if_pos hext]
      rfl
    · rw [List.getElem?_modify_ne _ _ heq, List.getElem?_modify_ne _ _ heq]
      exact h.primary j (by omega) (by omega)
  · by_cases hold : j < d.n
    · rw [show (d.add i c).sp[j]? = c.sp[j]? from rfl, hc.frame j (.inl hold), beforeChain,
        List.getElem?_modify_ne _ _ (by omega), List.getElem?_modify_ne _ _ (by omega)]
      exact h.logical j hj (by exact_mod_cast hold)
    · obtain ⟨s, hs, hcont, hlog⟩ := hc.slices j (by omega) (by exact_mod_cast hn)
      exact ⟨i, hi, s, hext, hs, hcont, hlog⟩
  · rcases List.mem_append.1 hmem with hmem | hmem
    · exact h.links j b hmem hno
    · obtain ⟨b', hb', heq⟩ := List.mem_map.1 hmem
      cases heq
      exact hc.blocks b hb' hno

/-- Every slice that is reported has its start and size as numbers without bound, up to the sizes of
extended partitions, and so has every link, as far as nothing in the chain wraps. -/
theorem readDosPt_exact (dev : DosDevice) (all : Slice) (sp : List Slice) (ns : BitVec 32)
    (hns : sp.length = ns.toNat) {fuel : ℕ} (hfuel : 101 * (ns.toNat + 1) ≤ fuel) :
    ∃ ret d, readDosPt dev fuel ns all sp = .done (ret, d) ∧
      ∀ bp, dev.getblock (BitVec.ofNat 32 all.start) = some bp →
        DosExact dev bp (min 4 ns.toNat) ret d := by
  unfold readDosPt
  cases hbp : dev.getblock (BitVec.ofNat 32 all.start) with
  | none => exact ⟨-1, _, rfl, fun bp h => absurd h (by simp)⟩
  | some bp =>
    dsimp only
    split_ifs
    · obtain ⟨d, hdone, hexact⟩ := @dosEntries_rule dev fuel ns bp { sp := sp }
        (fun i d => DosExact dev bp i d.n d) (fun d => DosExact dev bp (min 4 ns.toNat) d.n d) 0 4 4 hfuel
        (fun i d _ h => ⟨fun j _ hn => absurd hn (by simp), fun j _ hn => absurd hn (by simp), h.links⟩)
        (fun i d _ h hi => h.mono ((min_le_right _ _).trans hi) le_rfl)
        (fun d _ h => h.mono (min_le_left _ _) le_rfl)
        (fun i d hwithin h hi h4 hext => h.addPrimary hwithin h4 hi hext)
        (fun i d c hwithin h hi h4 hext hdone => h.addExtended hwithin h4 hi hext
          (readExtendedPartition_sound hwithin.high
            ((beforeChain_length i d.sp).trans hwithin.length) hfuel hdone))
        ⟨fun j hj => absurd hj (Nat.not_lt_zero j), fun j hj hn => absurd hn (by dsimp only; omega),
          fun _ _ h => absurd h (by simp)⟩
        ⟨hns, le_rfl, le_max_left _ _⟩ rfl
      refine ⟨toInt d.n, d, ?_, fun bp' hbp' => ?_⟩
      · rw [show [0, 1, 2, 3] = List.range' 0 4 from rfl, hdone, Outcome.bind_done]
      · cases hbp'
        exact hexact.mono le_rfl (toInt_le (by unfold intMin; omega))
    · exact ⟨-1, _, rfl, fun bp' _ => ⟨fun j _ hn => absurd hn (by omega),
        fun j _ hn => absurd hn (by omega), fun _ _ h => absurd h (by simp)⟩⟩

end Table

section Sample

/-- A disk of which only the first block can be read. -/
def extendedDevice : DosDevice where
  sectorSize := 512
  sectorSize_lt := by norm_num
  getblock := fun blknr => if blknr = 0 then some extendedMbr else none

theorem readDosPt_exact_sample :
    ∃ ret d, readDosPt extendedDevice 505 4 {} (List.replicate 4 {}) = .done (ret, d) ∧
      ∀ bp, extendedDevice.getblock 0 = some bp → DosExact extendedDevice bp 4 ret d :=
  readDosPt_exact extendedDevice {} (List.replicate 4 {}) 4 (by decide) (by decide)

/-- The extended partition is reported with two sectors. -/
theorem readDosPt_exact_fails :
    ∃ ret d, readDosPt extendedDevice 505 4 {} (List.replicate 4 {}) = .done (ret, d) ∧
      ¬ ∀ i : ℕ, i < 4 → i < ret → ∃ s, d.sp[i]? = some s ∧
        s.start = extendedDevice.mul * (partitionAt extendedMbr i).startSect ∧
        s.size = extendedDevice.mul * (partitionAt extendedMbr i).nrSects := by
  have hdone : readDosPt extendedDevice 505 4 {} (List.replicate 4 {}) =
      .done (4, { sp := [{ start := 100, size := 2 }, {}, {}, {}], blocks := [(0, 100)] }) := by
    decide +kernel
  refine ⟨4, _, hdone, fun h => ?_⟩
  obtain ⟨s, hs, -, hsize⟩ := h 0 (by decide) (by decide)
  cases hs
  exact absurd hsize (by decide +kernel)

end Sample

end MultipathTools.Kpartx
