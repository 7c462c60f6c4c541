import MultipathTools.Kpartx.Gpt
import Mathlib.Tactic.NormNum

/-! When a GUID partition table is read inside the data that its checksums cover. -/
namespace MultipathTools.Kpartx

variable {dev : GptDevice} {lba : BitVec 64} {gpt ptes entries : List Byte} {ns : ℕ}

section Buffers

theorem le_alignedSize {size : ℕ} (h : dev.sectorSize ≠ 0) : size ≤ alignedSize dev size := by
  have hmod := Nat.mod_lt (size + dev.sectorSize - 1) (Nat.pos_of_ne_zero h)
  have hdiv := Nat.div_add_mod' (size + dev.sectorSize - 1) dev.sectorSize
  unfold alignedSize
  omega

theorem readLba_length_le {n : ℕ} (h : readLba dev lba n = some ptes) : ptes.length ≤ n := by
  unfold readLba at h
  split at h
  · split at h
    · cases h
      exact Nat.zero_le n
    · split_ifs at h
      obtain ⟨a, -, rfl⟩ := Option.map_eq_some_iff.1 h
      exact a.2
    · rename_i b bs hbs heq
      cases h
      exact hbs
  · cases h

/-- The buffer has the size that was asked for. -/
theorem le_length_of_allocRead {size : ℕ} (h : allocRead dev lba size = some ptes) :
    size ≤ ptes.length := by
  unfold allocRead at h
  split_ifs at h with hs
  obtain ⟨bs, hbs, rfl⟩ := Option.map_eq_some_iff.1 h
  have hle := readLba_length_le hbs
  have hsize := @le_alignedSize dev size hs.1
  simp only [List.length_append, List.length_replicate]
  omega

@[simp] theorem withoutCrc_length (h : 20 ≤ gpt.length) : (withoutCrc gpt).length = gpt.length := by
  simp only [withoutCrc, List.length_append, List.length_take, List.length_replicate,
    List.length_drop]
  omega

theorem entriesCount_eq (h : sizeofPartitionEntry gpt = sizeofGptEntry) :
    entriesCount gpt = sizeofGptEntry * (numPartitionEntries gpt % 2 ^ 25) := by
  unfold entriesCount
  rw [h, sizeofGptEntry]
  omega

end Buffers

section Header

/-- The header at this place, if it has the signature, does not claim to be longer than its buffer. -/
def HeaderFits (dev : GptDevice) (lba : BitVec 64) : Prop :=
  ∀ gpt, allocReadGptHeader dev lba = some gpt → gptSignature gpt = gptHeaderSignature →
    headerSize gpt ≤ gpt.length

/-- At this place is a header that has its own address and the right checksums, with its entries. -/
structure Accepted (dev : GptDevice) (lba : BitVec 64) (gpt ptes : List Byte) : Prop where
  header : allocReadGptHeader dev lba = some gpt
  signature : gptSignature gpt = gptHeaderSignature
  headerCrc : (efiCrc32 ((withoutCrc gpt).take (headerSize gpt))).toNat = headerCrc32 gpt
  address : myLba gpt = lba.toNat
  entrySize : sizeofPartitionEntry gpt = sizeofGptEntry
  read : allocReadGptEntries dev gpt = some ptes
  entriesCrc : (efiCrc32 (ptes.take (entriesCount gpt))).toNat = partitionEntryArrayCrc32 gpt

theorem length_of_header (h : allocReadGptHeader dev lba = some gpt) : 512 ≤ gpt.length :=
  le_length_of_allocRead h

theorem withoutCrc_header_length (h : allocReadGptHeader dev lba = some gpt) :
    (withoutCrc gpt).length = gpt.length := by
  have hlen := length_of_header h
  exact withoutCrc_length (by omega)

/-- No header at this place is accepted. -/
def Rejected (dev : GptDevice) (lba : BitVec 64) : Prop := ∀ gpt ptes, ¬ Accepted dev lba gpt ptes

/-- A header has one array of entries at most. -/
theorem Accepted.unique {gpt' ptes' : List Byte} (h : Accepted dev lba gpt ptes)
    (h' : Accepted dev lba gpt' ptes') : gpt' = gpt ∧ ptes' = ptes := by
  have hgpt : gpt' = gpt := Option.some_inj.1 (h'.header.symm.trans h.header)
  subst hgpt
  exact ⟨rfl, Option.some_inj.1 (h'.read.symm.trans h.read)⟩

theorem Accepted.entries_length (h : Accepted dev lba gpt ptes) :
    (ptes.take (entriesCount gpt)).length =
      sizeofGptEntry * (numPartitionEntries gpt % 2 ^ 25) := by
  have hread := h.read
  unfold allocReadGptEntries at hread
  split_ifs at hread
  have hle := le_length_of_allocRead hread
  rw [List.length_take, min_eq_left hle, entriesCount_eq h.entrySize]

theorem isGptValid_outside (h : ¬ HeaderFits dev lba) : isGptValid dev lba = .outside := by
  simp only [HeaderFits, not_forall, Nat.not_le] at h
  obtain ⟨gpt, hgpt, hsig, hlt⟩ := h
  rw [← withoutCrc_header_length hgpt] at hlt
  simp only [isGptValid, hgpt, hsig, ne_eq, not_true_eq_false, if_false,
    readAt_of_lt (show (withoutCrc gpt).length < 0 + headerSize gpt by omega),
    Outcome.bind_outside]

theorem isGptValid_accepted (hfits : HeaderFits dev lba) (h : Accepted dev lba gpt ptes) :
    isGptValid dev lba = .done (some (gpt, ptes.take (entriesCount gpt))) := by
  have hsize := hfits gpt h.header h.signature
  rw [← withoutCrc_header_length h.header] at hsize
  have hread := h.read
  unfold allocReadGptEntries at hread
  split_ifs at hread
  have hptes := le_length_of_allocRead hread
  simp only [isGptValid, h.header, h.signature, ne_eq, not_true_eq_false, if_false,
    readAt_of_le (show 0 + headerSize gpt ≤ (withoutCrc gpt).length by omega),
    Outcome.bind_done, List.drop_zero, h.headerCrc, h.address, h.entrySize, h.read,
    readAt_of_le (show 0 + entriesCount gpt ≤ ptes.length by omega), h.entriesCrc]

theorem isGptValid_rejected (hfits : HeaderFits dev lba) (h : Rejected dev lba) :
    isGptValid dev lba = .done none := by
  unfold isGptValid
  split
  · rfl
  rename_i gpt hgpt
  split
  · rfl
  rename_i hsig
  rw [not_not] at hsig
  have hsize := hfits gpt hgpt hsig
  rw [← withoutCrc_header_length hgpt] at hsize
  rw [readAt_of_le (show 0 + headerSize gpt ≤ (withoutCrc gpt).length by omega), Outcome.bind_done,
    List.drop_zero]
  split
  · rfl
  rename_i hcrc
  split
  · rfl
  rename_i haddr
  split
  · rfl
  rename_i hentry
  rw [not_not] at hcrc haddr hentry
  split
  · rfl
  rename_i ptes hread
  have hread' := hread
  unfold allocReadGptEntries at hread'
  split_ifs at hread'
  have hptes := le_length_of_allocRead hread'
  rw [readAt_of_le (show 0 + entriesCount gpt ≤ ptes.length by omega), Outcome.bind_done,
    List.drop_zero]
  split_ifs with hentries
  · rfl
  · exact absurd ⟨hgpt, hsig, hcrc, haddr, hentry, hread, not_not.1 hentries⟩ (h gpt ptes)

/-- What `is_gpt_valid` comes to. -/
theorem isGptValid_cases (dev : GptDevice) (lba : BitVec 64) :
    (¬ HeaderFits dev lba ∧ isGptValid dev lba = .outside) ∨
    (HeaderFits dev lba ∧ ∃ gpt ptes, Accepted dev lba gpt ptes ∧
      isGptValid dev lba = .done (some (gpt, ptes.take (entriesCount gpt)))) ∨
    (HeaderFits dev lba ∧ Rejected dev lba ∧ isGptValid dev lba = .done none) := by
  by_cases hfits : HeaderFits dev lba
  · by_cases h : ∃ gpt ptes, Accepted dev lba gpt ptes
    · obtain ⟨gpt, ptes, h⟩ := h
      exact .inr (.inl ⟨hfits, gpt, ptes, h, isGptValid_accepted hfits h⟩)
    · have hrej : Rejected dev lba := fun gpt ptes hacc => h ⟨gpt, ptes, hacc⟩
      exact .inr (.inr ⟨hfits, hrej, isGptValid_rejected hfits hrej⟩)
  · exact .inl ⟨hfits, isGptValid_outside hfits⟩

theorem isGptValid_inside_iff : isGptValid dev lba ≠ .outside ↔ HeaderFits dev lba := by
  obtain ⟨hfits, h⟩ | ⟨hfits, gpt, ptes, -, h⟩ | ⟨hfits, -, h⟩ := isGptValid_cases dev lba
  · exact iff_of_false (fun hne => hne h) hfits
  · exact iff_of_true (by simp [h]) hfits
  · exact iff_of_true (by simp [h]) hfits

end Header

section Table

/-- Every header that `find_valid_gpt` looks at fits. -/
structure HeadersFit (dev : GptDevice) : Prop where
  primary : HeaderFits dev 1
  alternate : ∀ gpt ptes, Accepted dev 1 gpt ptes →
    HeaderFits dev (BitVec.ofNat 64 (alternateLba gpt))
  last : (∀ gpt ptes, Accepted dev 1 gpt ptes →
    Rejected dev (BitVec.ofNat 64 (alternateLba gpt))) → HeaderFits dev dev.lastLba

/-- The header and the entries that are used: the primary ones, or else those at the end of the disk. -/
def Chosen (dev : GptDevice) (gpt ptes : List Byte) : Prop :=
  (goodPmbr dev ∨ dev.forceGpt) ∧
    (Accepted dev 1 gpt ptes ∨ Rejected dev 1 ∧ Accepted dev dev.lastLba gpt ptes)

theorem Chosen.accepted (h : Chosen dev gpt ptes) : ∃ lba, Accepted dev lba gpt ptes := by
  obtain ⟨-, h | ⟨-, h⟩⟩ := h
  · exact ⟨1, h⟩
  · exact ⟨dev.lastLba, h⟩

theorem Chosen.unique {gpt' ptes' : List Byte} (h : Chosen dev gpt ptes)
    (h' : Chosen dev gpt' ptes') : gpt' = gpt := by
  obtain ⟨-, h | ⟨hrej, h⟩⟩ := h
  · obtain ⟨-, h' | ⟨hrej', -⟩⟩ := h'
    · exact (h.unique h').1
    · exact absurd h (hrej' gpt ptes)
  · obtain ⟨-, h' | ⟨-, h'⟩⟩ := h'
    · exact absurd h' (hrej gpt' ptes')
    · exact (h.unique h').1

/-- With an accepted primary header, what is found elsewhere does not matter. -/
theorem findAlternate_accepted (h : Accepted dev 1 gpt ptes) (es : List Byte) :
    (HeadersFit dev ∧ ∃ found, findAlternate dev (some (gpt, es)) = .done found) ∨
    (¬ HeadersFit dev ∧ (HeaderFits dev 1 → findAlternate dev (some (gpt, es)) = .outside)) := by
  have hone {gpt' ptes'} (h' : Accepted dev 1 gpt' ptes') : gpt' = gpt := (h.unique h').1
  obtain ⟨hfits, ha⟩ | ⟨hfits, gpt', ptes', hacc, ha⟩ | ⟨hfits, hrej, ha⟩ :=
    isGptValid_cases dev (BitVec.ofNat 64 (alternateLba gpt))
  · exact .inr ⟨fun hall => hfits (hall.alternate gpt ptes h), fun _ => by simp [findAlternate, ha]⟩
  · by_cases hp : HeaderFits dev 1
    · refine .inl ⟨⟨hp, fun g p hg => ?_, fun hall => ?_⟩, ?_⟩
      · rw [hone hg]
        exact hfits
      · exact absurd hacc (hall gpt ptes h gpt' ptes')
      · simp [findAlternate, ha]
    · exact .inr ⟨fun hall => hp hall.primary, fun hp' => absurd hp' hp⟩
  · obtain ⟨hlast, hl⟩ | ⟨hlast, g', p', -, hl⟩ | ⟨hlast, -, hl⟩ := isGptValid_cases dev dev.lastLba
    · refine .inr ⟨fun hall => hlast (hall.last fun g p hg => ?_), fun _ => ?_⟩
      · rw [hone hg]
        exact hrej
      · simp [findAlternate, ha, hl]
    all_goals
      by_cases hp : HeaderFits dev 1
      · refine .inl ⟨⟨hp, fun g p hg => ?_, fun _ => hlast⟩, ?_⟩
        · rw [hone hg]
          exact hfits
        · simp [findAlternate, ha, hl]
      · exact .inr ⟨fun hall => hp hall.primary, fun hp' => absurd hp' hp⟩

/-- Without a primary header, the one at the end of the disk is used. -/
theorem headersFit_of_rejected (h : Rejected dev 1) :
    HeadersFit dev ↔ HeaderFits dev 1 ∧ HeaderFits dev dev.lastLba := by
  constructor
  · intro hall
    exact ⟨hall.primary, hall.last fun g p hg => absurd hg (h g p)⟩
  · rintro ⟨hp, hlast⟩
    exact ⟨hp, fun g p hg => absurd hg (h g p), fun _ => hlast⟩

/-- What `find_valid_gpt` comes to. -/
theorem findValidGpt_cases (hlba : dev.lastLba ≠ 0) :
    (¬ HeadersFit dev ∧ findValidGpt dev = .outside) ∨
    (HeadersFit dev ∧ ∃ gpt ptes, Chosen dev gpt ptes ∧
      findValidGpt dev = .done (some (gpt, ptes.take (entriesCount gpt)))) ∨
    (HeadersFit dev ∧ (∀ gpt ptes, ¬ Chosen dev gpt ptes) ∧ findValidGpt dev = .done none) := by
  obtain ⟨hfits, hv⟩ | ⟨hfits, gpt, ptes, hacc, hv⟩ | ⟨hfits, hrej, hv⟩ := isGptValid_cases dev 1
  · refine .inl ⟨fun h => hfits h.primary, ?_⟩
    simp only [findValidGpt, hlba, if_false, hv, Outcome.bind_outside]
  · obtain ⟨hall, found, ha⟩ | ⟨hall, ha⟩ :=
      findAlternate_accepted hacc (ptes.take (entriesCount gpt))
    · by_cases hp : goodPmbr dev = true ∨ dev.forceGpt = true
      · refine .inr (.inl ⟨hall, gpt, ptes, ⟨hp, .inl hacc⟩, ?_⟩)
        simp only [findValidGpt, hlba, if_false, hv, Outcome.bind_done, ha, Option.isNone_some,
          Bool.false_eq_true, false_and, ← not_or, hp, not_true_eq_false, Option.some_or]
      · refine .inr (.inr ⟨hall, fun g p h => hp h.1, ?_⟩)
        simp only [findValidGpt, hlba, if_false, hv, Outcome.bind_done, ha, Option.isNone_some,
          Bool.false_eq_true, false_and, ← not_or, hp, not_false_eq_true, if_true]
    · refine .inl ⟨hall, ?_⟩
      simp only [findValidGpt, hlba, if_false, hv, Outcome.bind_done, ha hfits, Outcome.bind_outside]
  · rw [headersFit_of_rejected hrej]
    obtain ⟨hlast, hl⟩ | ⟨hlast, g, p, hacc, hl⟩ | ⟨hlast, hrejl, hl⟩ :=
      isGptValid_cases dev dev.lastLba
    · refine .inl ⟨fun h => hlast h.2, ?_⟩
      simp only [findValidGpt, hlba, if_false, hv, Outcome.bind_done, findAlternate, hl,
        Outcome.bind_outside]
    · by_cases hp : goodPmbr dev = true ∨ dev.forceGpt = true
      · refine .inr (.inl ⟨⟨hfits, hlast⟩, g, p, ⟨hp, .inr ⟨hrej, hacc⟩⟩, ?_⟩)
        simp only [findValidGpt, hlba, if_false, hv, Outcome.bind_done, findAlternate, hl,
          Option.isNone_some, Bool.false_eq_true, and_false, ← not_or, hp, not_true_eq_false,
          Option.none_or]
      · refine .inr (.inr ⟨⟨hfits, hlast⟩, fun g p h => hp h.1, ?_⟩)
        simp only [findValidGpt, hlba, if_false, hv, Outcome.bind_done, findAlternate, hl,
          Option.isNone_some, Bool.false_eq_true, and_false, ← not_or, hp, not_false_eq_true,
          if_true]
    · refine .inr (.inr ⟨⟨hfits, hlast⟩, ?_, ?_⟩)
      · rintro g p ⟨-, hacc | ⟨-, hacc⟩⟩
        · exact hrej g p hacc
        · exact hrejl g p hacc
      · simp only [findValidGpt, hlba, if_false, hv, Outcome.bind_done, findAlternate, hl,
          Option.isNone_none, and_self, if_true]

end Table

section Slices

theorem gptSlice_done_iff {i k : ℕ} (hlen : entries.length = sizeofGptEntry * k) :
    (∃ s, gptSlice dev entries i = .done s) ↔ i < k := by
  constructor
  · rintro ⟨s, hs⟩
    by_contra hk
    rw [gptSlice, readAt_of_lt, Outcome.bind_outside] at hs
    · cases hs
    · simp only [sizeofGptEntry] at hlen ⊢
      omega
  · intro hk
    rw [gptSlice, readAt_of_le, Outcome.bind_done]
    · split_ifs <;> exact ⟨_, rfl⟩
    · simp only [sizeofGptEntry] at hlen ⊢
      omega

/-- The loop is inside the array if each of its turns is. -/
theorem gptSlices_done_iff {k : ℕ} (hlen : entries.length = sizeofGptEntry * k) (is : List ℕ) :
    (∃ sp, gptSlices dev entries is = .done sp) ↔ ∀ i ∈ is, i < k := by
  induction is with
  | nil => simp [gptSlices]
  | cons i is ih =>
    rw [List.forall_mem_cons, ← ih, ← gptSlice_done_iff hlen]
    constructor
    · rintro ⟨sp, hsp⟩
      rw [gptSlices, Outcome.bind_eq_done_iff] at hsp
      obtain ⟨s, hs, hsp⟩ := hsp
      rw [Outcome.bind_eq_done_iff] at hsp
      obtain ⟨sp', hsp', -⟩ := hsp
      exact ⟨⟨s, hs⟩, sp', hsp'⟩
    · rintro ⟨⟨s, hs⟩, sp, hsp⟩
      refine ⟨s :: sp, ?_⟩
      rw [gptSlices, hs, Outcome.bind_done, hsp, Outcome.bind_done]

theorem gptSlices_length {is : List ℕ} {sp : List (Option Slice)}
    (h : gptSlices dev entries is = .done sp) : sp.length = is.length := by
  induction is generalizing sp with
  | nil =>
    cases h
    rfl
  | cons i is ih =>
    rw [gptSlices, Outcome.bind_eq_done_iff] at h
    obtain ⟨s, -, h⟩ := h
    rw [Outcome.bind_eq_done_iff] at h
    obtain ⟨sp', hsp', heq⟩ := h
    cases heq
    rw [List.length_cons, List.length_cons, ih hsp']

/-- The checksums are computed inside the buffers, and the slices are taken from entries that the
checksum covers. -/
theorem readGptPt_inside_iff (dev : GptDevice) :
    (∀ lba, isGptValid dev lba ≠ .outside ↔ HeaderFits dev lba) ∧
    ∀ ns, (∃ sp n, readGptPt dev ns = .done (sp, n) ∧ sp.length ≤ ns) ↔
      (dev.lastLba ≠ 0 → HeadersFit dev ∧ ∀ gpt ptes, Chosen dev gpt ptes →
        min (numPartitionEntries gpt) ns ≤ numPartitionEntries gpt % 2 ^ 25) := by
  refine ⟨fun lba => isGptValid_inside_iff, fun ns => ?_⟩
  by_cases hlba : dev.lastLba = 0
  · refine iff_of_true ⟨[], 0, ?_, Nat.zero_le ns⟩ (absurd hlba)
    simp only [readGptPt, findValidGpt, hlba, if_true, Outcome.bind_done]
  simp only [ne_eq, hlba, not_false_eq_true, forall_const, readGptPt]
  obtain ⟨hall, hf⟩ | ⟨hall, gpt, ptes, hch, hf⟩ | ⟨hall, hno, hf⟩ := findValidGpt_cases hlba
  · refine iff_of_false ?_ fun h => hall h.1
    simp [hf]
  · rw [hf, Outcome.bind_done]
    obtain ⟨lba, hacc⟩ := hch.accepted
    have hslices := @gptSlices_done_iff dev _ _ hacc.entries_length
      (List.range (min (numPartitionEntries gpt) ns))
    simp only [List.mem_range, forall_lt_iff_le] at hslices
    constructor
    · rintro ⟨sp, n, hsp, -⟩
      rw [Outcome.bind_eq_done_iff] at hsp
      obtain ⟨sp', hsp', -⟩ := hsp
      refine ⟨hall, fun g p hch' => ?_⟩
      rw [hch.unique hch']
      exact hslices.1 ⟨sp', hsp'⟩
    · rintro ⟨-, h⟩
      obtain ⟨sp, hsp⟩ := hslices.2 (h gpt ptes hch)
      refine ⟨sp.map (·.getD {}), usedSlices sp, by simp only [hsp, Outcome.bind_done], ?_⟩
      rw [List.length_map, gptSlices_length hsp, List.length_range]
      exact min_le_right _ _
  · refine iff_of_true ⟨[], 0, by rw [hf, Outcome.bind_done], Nat.zero_le ns⟩
      ⟨hall, fun g p h => absurd h (hno g p)⟩

end Slices

section Sample

/-- A block with the signature of a header and the greatest `header_size`. -/
def hugeHeader : List Byte :=
  [0x45, 0x46, 0x49, 0x20, 0x50, 0x41, 0x52, 0x54, 0, 0, 1, 0, 0xff, 0xff, 0xff, 0xff] ++
    List.replicate 496 0

/-- A disk of such blocks. -/
def hugeHeaderDevice : GptDevice where
  sectorSize := 512
  lastLba := 100
  lseek _ := true
  read _ n := some ⟨hugeHeader.take n, by simp⟩
  lastSector _ := none
  malloc _ := true
  forceGpt := false

theorem readGptPt_inside_fails :
    ¬ ((∀ lba, isGptValid hugeHeaderDevice lba ≠ .outside) ∧
      ∃ sp n, readGptPt hugeHeaderDevice 256 = .done (sp, n) ∧ sp.length ≤ 256) := by
  have h : isGptValid hugeHeaderDevice 1 = .outside := by decide +kernel
  exact fun hin => hin.1 1 h

end Sample

end MultipathTools.Kpartx
