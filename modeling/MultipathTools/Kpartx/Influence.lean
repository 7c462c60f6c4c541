import MultipathTools.Kpartx.Shared

/-! What a partition reader takes over from the readers before it. -/
namespace MultipathTools.Kpartx

variable {dev : PartDevice} {ptp : Pts} {sp sp₀ : List Slice} {fuel : ℕ} {n : ℤ}

/-- The slots that get a start and a size when a reader comes to `n` slices. -/
def storedBy (dev : PartDevice) (ptp : Pts) (n : ℤ) : ℕ :=
  if ptp = .gpt then
    match readGptPt dev.gpt maxSlices with
    | .done (l, _) => l.length
    | _ => 0
  else n.toNat

/-- What a reader does from two arrays. -/
structure ReaderRel (dev : PartDevice) (ptp : Pts) (sp sp₀ : List Slice) (x y : ℤ × List Slice) : Prop where
  count : x.1 = y.1
  stored : ∃ W C, Stored W C sp sp₀ x.2 y.2 ∧ (0 < x.1 → ∀ j, W j ↔ j < storedBy dev ptp x.1) ∧
    (x.1 ≤ 0 → ptp ≠ .dos → ∀ j, ¬ C j)

/-- A reader that fails before it stores anything. -/
theorem ReaderRel.unchanged (h : sp.length = sp₀.length) (hn : n ≤ 0) :
    ReaderRel dev ptp sp sp₀ (n, sp) (n, sp₀) :=
  ⟨rfl, _, _, .start h, fun hpos => absurd hpos (not_lt.2 hn), fun _ _ _ => id⟩

/-- A reader that stores as many slices as it counts, without containers. -/
theorem ReaderRel.counted {W : ℕ → Prop} {a b : List Slice} (hptp : ptp ≠ .gpt)
    (h : Stored W (fun _ => False) sp sp₀ a b) (hW : 0 < n → ∀ j, W j ↔ j < n.toNat) :
    ReaderRel dev ptp sp sp₀ (n, a) (n, b) := by
  refine ⟨rfl, W, _, h, fun hpos j => ?_, fun _ _ _ => id⟩
  rw [hW hpos, storedBy, if_neg hptp]

theorem rel_storeAll (hptp : ptp ≠ .gpt) (h : sp.length = sp₀.length) (l : Option (List Slice)) :
    (storeAll sp l).Rel (ReaderRel dev ptp sp sp₀) (storeAll sp₀ l) := by
  cases l with
  | none => exact ReaderRel.unchanged h (by decide)
  | some l =>
    refine ((Stored.start h).rel_storeSlices l fun j => Iff.rfl).bind fun a b hab => ?_
    refine ReaderRel.counted hptp hab fun _ j => ?_
    simp

theorem rel_readSolarisPt (h : sp.length = sp₀.length) :
    (readSolarisPt dev sp).Rel (ReaderRel dev .solaris sp sp₀) (readSolarisPt dev sp₀) := by
  unfold readSolarisPt
  cases dev.getblock (dev.offset + 1) with
  | none => exact ReaderRel.unchanged h (by decide)
  | some bp =>
    dsimp only
    split_ifs
    · exact ReaderRel.unchanged h (by decide)
    · exact ReaderRel.unchanged h le_rfl
    · exact rel_storeAll (by decide) h _

theorem rel_readUnixwarePt (h : sp.length = sp₀.length) :
    (readUnixwarePt dev sp).Rel (ReaderRel dev .unixware sp sp₀) (readUnixwarePt dev sp₀) := by
  unfold readUnixwarePt
  cases dev.getblock (dev.offset + 29) with
  | none => exact ReaderRel.unchanged h (by decide)
  | some bp =>
    dsimp only
    split_ifs
    · exact ReaderRel.unchanged h (by decide)
    · exact rel_storeAll (by decide) h _

theorem rel_readPs3Pt (h : sp.length = sp₀.length) :
    (readPs3Pt dev sp).Rel (ReaderRel dev .ps3 sp sp₀) (readPs3Pt dev sp₀) := by
  unfold readPs3Pt
  split
  · dsimp only
    split_ifs
    · exact ReaderRel.unchanged h (by decide)
    · exact rel_storeAll (by decide) h _
  · exact ReaderRel.unchanged h (by decide)

theorem rel_readGptPtAt (h : sp.length = sp₀.length) :
    (readGptPtAt dev sp).Rel (ReaderRel dev .gpt sp sp₀) (readGptPtAt dev sp₀) := by
  unfold readGptPtAt
  cases hread : readGptPt dev.gpt maxSlices with
  | outside => trivial
  | unfinished => trivial
  | done x =>
    refine ((Stored.start h).rel_storeSlices x.1 fun j => Iff.rfl).bind fun a b hab => ?_
    refine ⟨rfl, _, _, hab, fun _ j => ?_, fun _ _ _ => id⟩
    simp [storedBy, hread]

section Labels

/-- A reader that settles containers among the slices that it has stored. -/
theorem ReaderRel.settled {W : ℕ → Prop} {a b : List Slice} {k : ℕ} (hptp : ptp ≠ .gpt)
    (h : Stored W (fun _ => False) sp sp₀ a b) (hW : ∀ j, W j ↔ j < k) :
    ReaderRel dev ptp sp sp₀ (k, containSlices k a) (k, containSlices k b) := by
  cases k with
  | zero => exact ⟨rfl, W, _, h, fun hpos => absurd hpos (lt_irrefl 0), fun _ _ _ => id⟩
  | succ k =>
    obtain ⟨C, hC⟩ := @Stored.containSlices W _ sp sp₀ a b (k + 1) h fun j hj => (hW j).2 hj
    refine ⟨rfl, W, C, hC, fun _ j => ?_, fun hle => ?_⟩
    · rw [hW, storedBy, if_neg hptp]
      rfl
    · dsimp only at hle
      omega

theorem rel_readBsdPtAt (h : sp.length = sp₀.length) :
    (readBsdPtAt dev sp).Rel (ReaderRel dev .bsd sp sp₀) (readBsdPtAt dev sp₀) := by
  unfold readBsdPtAt
  cases bsdDisklabel dev.getblock dev.offset with
  | none => exact ReaderRel.unchanged h (by decide)
  | some l =>
    dsimp only
    refine ((Stored.start h).rel_storeSlices (bsdSlices l maxSlices) fun j => Iff.rfl).bind
      fun a b hab => ?_
    exact ReaderRel.settled (by decide) hab fun j => by simp

theorem sunSlices_length (l : List Byte) (offset : BitVec 32) :
    (sunSlices l offset maxSlices).length = 8 := by
  simp [sunSlices, sunDiskMaxpartitions, maxSlices]

theorem rel_readSunPtAt (h : sp.length = sp₀.length) :
    (readSunPtAt dev sp).Rel (ReaderRel dev .sun sp sp₀) (readSunPtAt dev sp₀) := by
  unfold readSunPtAt
  cases sunDiskLabel dev.getblock dev.offset with
  | none => exact ReaderRel.unchanged h (by decide)
  | some l =>
    dsimp only
    refine ((Stored.start h).rel_storeSlices (sunSlices l dev.offset maxSlices) fun j => Iff.rfl).bind
      fun a b hab => ?_
    rw [sunSlices_length] at hab ⊢
    exact ReaderRel.settled (by decide) hab fun j => by simp

end Labels

section Loops

theorem rel_macLoop {W : ℕ → Prop} {a b : List Slice} {secsize k : ℕ} (blks : List ℕ)
    (h : Stored W (fun _ => False) sp sp₀ a b) (hW : ∀ j, W j ↔ j < k) :
    (macLoop dev secsize blks k a).Rel (ReaderRel dev .mac sp sp₀) (macLoop dev secsize blks k b) := by
  induction blks generalizing W a b k with
  | nil => exact ReaderRel.counted (by decide) h fun _ j => by simp [hW]
  | cons blk blks ih =>
    unfold macLoop
    cases macPart dev (blk * secsize) with
    | none => exact ReaderRel.counted (by decide) h fun hpos => absurd hpos (by decide)
    | some part =>
      dsimp only
      split_ifs
      · exact ReaderRel.counted (by decide) h fun _ j => by simp [hW]
      · refine (h.rel_storeSlice _ _ fun j => Iff.rfl).bind fun a' b' h' => ih h' fun j => ?_
        rw [hW]
        omega

theorem rel_readMacPt (h : sp.length = sp₀.length) :
    (readMacPt dev sp).Rel (ReaderRel dev .mac sp sp₀) (readMacPt dev sp₀) := by
  unfold readMacPt
  cases dev.getblock 0 with
  | none => exact ReaderRel.unchanged h (by decide)
  | some md =>
    dsimp only
    split_ifs
    · exact ReaderRel.unchanged h (by decide)
    · cases macPart dev (be16 md.1 2) with
      | none => exact ReaderRel.unchanged h (by decide)
      | some part =>
        dsimp only
        split_ifs
        · exact ReaderRel.unchanged h (by decide)
        · exact rel_macLoop _ (.start h) fun j => iff_of_false id (Nat.not_lt_zero j)

theorem rel_vol1Loop {W : ℕ → Prop} {a b : List Slice} {k counter : ℕ} (geo : HdGeometry)
    (blocksize : ℤ) (h : Stored W (fun _ => False) sp sp₀ a b) (hW : ∀ j, W j ↔ j < counter) :
    (vol1Loop dev.dasd geo blocksize fuel k counter a).Rel (ReaderRel dev .dasd sp sp₀)
      (vol1Loop dev.dasd geo blocksize fuel k counter b) := by
  induction fuel generalizing W a b k counter with
  | zero => trivial
  | succ fuel ih =>
    unfold vol1Loop
    cases dev.dasd.format1 k with
    | none => exact ReaderRel.counted (by decide) h fun _ j => by simp [hW]
    | some f1 =>
      dsimp only
      split_ifs
      · exact ih h hW
      · exact ReaderRel.counted (by decide) h fun _ j => by simp [hW]
      · refine (h.rel_storeSlice _ _ fun j => Iff.rfl).bind fun a' b' h' => ih h' fun j => ?_
        rw [hW]
        omega

theorem rel_dasdSlice (h : sp.length = sp₀.length) (offset : ℕ) (blocksize : ℤ) (size : ℕ) :
    (dasdSlice sp offset blocksize size).Rel (ReaderRel dev .dasd sp sp₀)
      (dasdSlice sp₀ offset blocksize size) := by
  refine ((Stored.start h).rel_storeSlice _ _ fun j => Iff.rfl).bind fun a b hab => ?_
  exact ReaderRel.counted (by decide) hab fun _ j => by simp

theorem rel_readDasdPt (h : sp.length = sp₀.length) :
    (readDasdPt dev.dasd fuel sp).Rel (ReaderRel dev .dasd sp sp₀) (readDasdPt dev.dasd fuel sp₀) := by
  unfold readDasdPt
  split
  · dsimp only
    split_ifs
    · unfold readDasdLabel
      dsimp only
      split_ifs
      · exact rel_dasdSlice h _ _ _
      · exact rel_dasdSlice h _ _ _
      · exact rel_vol1Loop _ _ (.start h) fun j => iff_of_false id (Nat.not_lt_zero j)
      · exact ReaderRel.unchanged h (by decide)
      · exact rel_dasdSlice h _ _ _
      · exact ReaderRel.unchanged h (by decide)
      · exact rel_dasdSlice h _ _ _
    · exact ReaderRel.unchanged h (by decide)
  · exact ReaderRel.unchanged h (by decide)

end Loops

theorem rel_readDosPtAt (h : sp.length = sp₀.length) :
    (readDosPtAt dev fuel sp).Rel (ReaderRel dev .dos sp sp₀) (readDosPtAt dev fuel sp₀) := by
  unfold readDosPtAt readDosPt
  cases dev.dos.getblock (BitVec.ofNat 32 dev.all.start) with
  | none => exact ReaderRel.unchanged h (by decide)
  | some bp =>
    dsimp only
    split_ifs
    · rw [Outcome.bind_assoc, Outcome.bind_assoc]
      have hempty : ∀ j, DosSlots 0 4 j ↔ False := by
        intro j
        refine iff_of_false ?_ id
        unfold DosSlots
        omega
      refine (@rel_dosEntries dev.dos sp sp₀ fuel bp 0 4 { sp := sp } sp₀ _ rfl le_rfl
        (show 4 ≤ 256 by decide)
        ((Stored.start h).congr hempty)).bind fun d e hde => ?_
      obtain ⟨b, W, C, rfl, hle, hst, hW⟩ := hde
      have hn : toInt d.n = d.n := by
        refine toInt_of_isInt ⟨?_, ?_⟩
        · unfold intMin
          omega
        · unfold intMax
          omega
      refine ⟨rfl, W, C, hst, fun hpos j => ?_, fun _ hne => absurd rfl hne⟩
      dsimp only at hpos ⊢
      rw [hn] at hpos ⊢
      rw [hW (by omega), storedBy, if_neg (by decide), Int.toNat_natCast]
    · exact ReaderRel.unchanged (n := -1) h (by decide)

/-- What a reader does with the array does not depend on it. -/
theorem Pts.rel_fn (ptp : Pts) (h : sp.length = sp₀.length) :
    (ptp.fn dev fuel sp).Rel (ReaderRel dev ptp sp sp₀) (ptp.fn dev fuel sp₀) := by
  cases ptp with
  | gpt => exact rel_readGptPtAt h
  | dos => exact rel_readDosPtAt h
  | bsd => exact rel_readBsdPtAt h
  | solaris => exact rel_readSolarisPt h
  | unixware => exact rel_readUnixwarePt h
  | dasd => exact rel_readDasdPt h
  | mac => exact rel_readMacPt h
  | sun => exact rel_readSunPtAt h
  | ps3 => exact rel_readPs3Pt h

section Order

variable {left out : List Slice} {before pts : List Pts}

/-- These readers are tried one after another, and fail. -/
inductive Fails (dev : PartDevice) (fuel : ℕ) : List Pts → List Slice → List Slice → Prop
  | nil (sp : List Slice) : Fails dev fuel [] sp sp
  | cons {ptp : Pts} {pts : List Pts} {n : ℤ} {sp sp' left : List Slice}
    (hfn : ptp.fn dev fuel sp = .done (n, sp')) (hn : n ≤ 0) (hrest : Fails dev fuel pts sp' left) :
    Fails dev fuel (ptp :: pts) sp left

/-- The loop stops at the first reader that succeeds. -/
theorem tryReaders_some (h : tryReaders dev fuel pts sp = .done (some (ptp, n, out))) :
    ∃ before after left, pts = before ++ ptp :: after ∧ Fails dev fuel before sp left ∧
      ptp.fn dev fuel left = .done (n, out) ∧ 0 < n := by
  induction pts generalizing sp with
  | nil =>
    rw [tryReaders] at h
    cases h
  | cons q pts ih =>
    rw [tryReaders, Outcome.bind_eq_done_iff] at h
    obtain ⟨⟨m, sp'⟩, hfn, hrest⟩ := h
    dsimp only at hrest
    split_ifs at hrest with hm
    · cases hrest
      exact ⟨[], pts, sp, rfl, .nil sp, hfn, hm⟩
    · obtain ⟨before, after, left, rfl, hfails, hdone⟩ := ih hrest
      exact ⟨q :: before, after, left, rfl, .cons hfn (not_lt.1 hm) hfails, hdone⟩

/-- What the reader of DOS tables leaves in an empty array. -/
def dosLeft (dev : PartDevice) (fuel : ℕ) : List Slice :=
  match readDosPtAt dev fuel noSlices with
  | .done (_, sp) => sp
  | _ => noSlices

theorem noSlices_length : noSlices.length = maxSlices := List.length_replicate

theorem slot_noSlices (j : ℕ) : slot noSlices j = {} := by
  unfold slot noSlices
  by_cases hj : j < (List.replicate maxSlices ({} : Slice)).length
  · rw [List.getD_eq_getElem _ _ hj, List.getElem_replicate]
  · rw [List.getD_eq_default _ _ (not_lt.1 hj)]

/-- A reader that fails leaves containers only if it is the one of DOS tables. -/
theorem failed_containers {seen : Prop} [Decidable seen] (hfn : ptp.fn dev fuel sp = .done (n, out))
    (hn : n ≤ 0) (hlen : sp.length = maxSlices)
    (hsp : ∀ j, (slot sp j).container = if seen then (slot (dosLeft dev fuel) j).container else 0) :
    out.length = maxSlices ∧ ∀ j, (slot out j).container =
      if seen ∨ ptp = .dos then (slot (dosLeft dev fuel) j).container else 0 := by
  have hrel := @Pts.rel_fn dev sp noSlices fuel ptp (hlen.trans noSlices_length.symm)
  rw [hfn] at hrel
  obtain ⟨y, hy, hr⟩ := hrel.exists_done
  obtain ⟨W, C, hst, -, hC⟩ := hr.stored
  refine ⟨hst.left.trans hlen, fun j => ?_⟩
  by_cases hdos : ptp = .dos
  · subst hdos
    have hleft : dosLeft dev fuel = y.2 := by
      unfold dosLeft
      rw [show readDosPtAt dev fuel noSlices = .done y from hy]
    rw [if_pos (.inr rfl), hleft]
    by_cases hj : C j
    · exact (hst.contained j hj).1
    · obtain ⟨hout, hfresh⟩ := hst.free j hj
      rw [slot_noSlices] at hfresh
      rw [hout, hsp, hleft, hfresh]
      split_ifs <;> rfl
  · rw [(hst.free j (hC hn hdos j)).1, hsp]
    simp only [hdos, or_false]

/-- The containers that are there after readers that fail. -/
theorem Fails.containers (h : Fails dev fuel before sp left) (hlen : sp.length = maxSlices)
    {seen : Prop} [Decidable seen]
    (hsp : ∀ j, (slot sp j).container = if seen then (slot (dosLeft dev fuel) j).container else 0) :
    left.length = maxSlices ∧ ∀ j, (slot left j).container =
      if seen ∨ .dos ∈ before then (slot (dosLeft dev fuel) j).container else 0 := by
  induction h generalizing seen with
  | nil => exact ⟨hlen, fun j => by simp [hsp]⟩
  | @cons ptp pts n sp sp' left hfn hn hrest ih =>
    obtain ⟨hlen', hsp'⟩ := failed_containers hfn hn hlen hsp
    obtain ⟨hleft, hcont⟩ := ih hlen' hsp'
    refine ⟨hleft, fun j => ?_⟩
    rw [hcont]
    refine if_congr ?_ rfl rfl
    rw [or_assoc, List.mem_cons, eq_comm]

theorem usedSlices_le (sp : List (Option Slice)) : usedSlices sp ≤ sp.length := by
  unfold usedSlices
  exact (List.dropWhile_sublist _).length_le.trans_eq List.length_reverse

/-- The slots that count have been written. -/
theorem readGptPt_count_le {gpt : GptDevice} {ns k : ℕ} {l : List Slice}
    (h : readGptPt gpt ns = .done (l, k)) : k ≤ l.length := by
  rw [readGptPt, Outcome.bind_eq_done_iff] at h
  obtain ⟨found, -, h⟩ := h
  cases found with
  | none =>
    cases h
    exact le_rfl
  | some found =>
    dsimp only at h
    rw [Outcome.bind_eq_done_iff] at h
    obtain ⟨slices, -, h⟩ := h
    cases h
    rw [List.length_map]
    exact usedSlices_le slices

/-- A reader stores at least the slices that it counts. -/
theorem le_storedBy (h : ptp.fn dev fuel sp = .done (n, out)) : n ≤ storedBy dev ptp n := by
  unfold storedBy
  split_ifs with hptp
  · subst hptp
    have hdone : readGptPtAt dev sp = .done (n, out) := h
    rw [readGptPtAt, Outcome.bind_eq_done_iff] at hdone
    obtain ⟨⟨l, k⟩, hread, hstore⟩ := hdone
    rw [Outcome.bind_eq_done_iff] at hstore
    obtain ⟨sp', -, heq⟩ := hstore
    cases heq
    rw [hread]
    exact Int.ofNat_le.2 (readGptPt_count_le hread)
  · exact Int.self_le_toNat n

/-- The slice in a slot. -/
def SameSlice (a b : List Slice) (j : ℕ) : Prop :=
  (slot a j).start = (slot b j).start ∧ (slot a j).size = (slot b j).size ∧
    (slot a j).container = (slot b j).container

/-- A container that both runs have stored is the same, any other one is what was there. -/
theorem Stored.container_eq_iff {W C : ℕ → Prop} {fresh : List Slice} {j c : ℕ}
    (h : Stored W C left noSlices out fresh) (hleft : (slot left j).container = c) :
    (slot out j).container = (slot fresh j).container ↔ c = 0 ∨ (slot fresh j).container ≠ 0 := by
  by_cases hj : C j
  · exact iff_of_true (h.contained j hj).1 (.inr (h.contained j hj).2)
  · obtain ⟨hout, hfresh⟩ := h.free j hj
    rw [slot_noSlices] at hfresh
    rw [hout, hleft, hfresh]
    simp

/-- The reader of DOS tables has not failed before, or has left no container in this slot, or the reader
sets one itself. -/
def NoContainerLeft (dev : PartDevice) (fuel : ℕ) (before : List Pts) (alone : List Slice) (j : ℕ) : Prop :=
  .dos ∈ before → (slot (dosLeft dev fuel) j).container = 0 ∨ (slot alone j).container ≠ 0

/-- The slices that are passed on are those of the reader alone, unless a container is left in one of their
slots. In the whole array, there are also the slices behind those that the reader has stored. -/
theorem tryReaders_independent_iff (dev : PartDevice) (fuel : ℕ) {order : List Pts}
    (h : tryReaders dev fuel order noSlices = .done (some (ptp, n, sp))) :
    ∃ before after left alone, order = before ++ ptp :: after ∧
      Fails dev fuel before noSlices left ∧
      tryReaders dev fuel [ptp] noSlices = .done (some (ptp, n, alone)) ∧
      ((∀ j : ℕ, j < n → SameSlice sp alone j) ↔
        ∀ j : ℕ, j < n → NoContainerLeft dev fuel before alone j) ∧
      ((∀ j, SameSlice sp alone j) ↔ ∀ j, NoContainerLeft dev fuel before alone j ∧
        (storedBy dev ptp n ≤ j → (slot left j).start = 0 ∧ (slot left j).size = 0)) := by
  obtain ⟨before, after, left, horder, hfails, hfn, hpos⟩ := tryReaders_some h
  have hzero : ∀ j, (slot noSlices j).container =
      if False then (slot (dosLeft dev fuel) j).container else 0 := fun j => by
    rw [slot_noSlices, if_neg id]
  obtain ⟨hleft, hcont⟩ := hfails.containers noSlices_length hzero
  simp only [false_or] at hcont
  have hrel := @Pts.rel_fn dev left noSlices fuel ptp (hleft.trans noSlices_length.symm)
  rw [hfn] at hrel
  obtain ⟨⟨m, alone⟩, hread, hcount, W, C, hst, hW, -⟩ := hrel.exists_done
  cases hcount
  have halone : tryReaders dev fuel [ptp] noSlices = .done (some (ptp, n, alone)) := by
    rw [tryReaders, hread, Outcome.bind_done]
    exact if_pos hpos
  have hsame : ∀ j, (slot sp j).container = (slot alone j).container ↔
      NoContainerLeft dev fuel before alone j := by
    intro j
    rw [hst.container_eq_iff (hcont j), NoContainerLeft]
    split_ifs with hdos
    · simp only [hdos, true_implies]
    · simp only [hdos, false_implies, true_or]
  have hwritten : ∀ j, j < storedBy dev ptp n → (slot sp j).start = (slot alone j).start ∧
      (slot sp j).size = (slot alone j).size :=
    fun j hj => hst.written j ((hW hpos j).2 hj)
  have hkept : ∀ j, storedBy dev ptp n ≤ j →
      ((slot sp j).start = (slot left j).start ∧ (slot alone j).start = 0) ∧
      ((slot sp j).size = (slot left j).size ∧ (slot alone j).size = 0) := by
    intro j hj
    obtain ⟨hstart, hsize, hstart', hsize'⟩ := hst.kept j fun hw => not_lt.2 hj ((hW hpos j).1 hw)
    rw [slot_noSlices] at hstart' hsize'
    exact ⟨⟨hstart, hstart'⟩, hsize, hsize'⟩
  refine ⟨before, after, left, alone, horder, hfails, halone, ?_, ?_⟩
  · constructor
    · exact fun h j hj => (hsame j).1 (h j hj).2.2
    · intro h j hj
      obtain ⟨hstart, hsize⟩ := hwritten j (Int.ofNat_lt.1 (hj.trans_le (le_storedBy hfn)))
      exact ⟨hstart, hsize, (hsame j).2 (h j hj)⟩
  · refine forall_congr' fun j => ?_
    constructor
    · rintro ⟨hstart, hsize, hc⟩
      refine ⟨(hsame j).1 hc, fun hj => ?_⟩
      obtain ⟨⟨hstart', hstart₀⟩, hsize', hsize₀⟩ := hkept j hj
      exact ⟨hstart'.symm.trans (hstart.trans hstart₀), hsize'.symm.trans (hsize.trans hsize₀)⟩
    · rintro ⟨hc, hzero⟩
      obtain hj | hj := lt_or_ge j (storedBy dev ptp n)
      · exact ⟨(hwritten j hj).1, (hwritten j hj).2, (hsame j).2 hc⟩
      · obtain ⟨⟨hstart, hstart₀⟩, hsize, hsize₀⟩ := hkept j hj
        obtain ⟨hleft₀, hsizeleft₀⟩ := hzero hj
        exact ⟨(hstart.trans hleft₀).trans hstart₀.symm, (hsize.trans hsizeleft₀).trans hsize₀.symm,
          (hsame j).2 hc⟩

end Order

section Sample

/-- A table with an extended partition, before one of type 0xEE. -/
def hybridMbr : Block :=
  ⟨List.replicate 446 0 ++ [0, 0, 0, 0, 5, 0, 0, 0, 2, 0, 0, 0, 9, 0, 0, 0] ++
    [0, 0, 0, 0, 0xee, 0, 0, 0, 1, 0, 0, 0, 99, 0, 0, 0] ++ List.replicate 32 0 ++ [0x55, 0xaa],
    by decide +kernel⟩

/-- A label with five partitions that do not overlap. -/
def bsdLabel : Block :=
  ⟨[0x57, 0x45, 0x56, 0x82] ++ List.replicate 134 0 ++ [5, 0] ++ List.replicate 8 0 ++
    (List.range 5).flatMap (fun k =>
      [10, 0, 0, 0, BitVec.ofNat 8 (20 * k + 20), 0, 0, 0, 0, 0, 0, 0, 7, 0, 0, 0]) ++
    List.replicate 284 0, by decide +kernel⟩

/-- A block with a signature, and nothing else. -/
def signedBlock : Block := ⟨List.replicate 510 0 ++ [0x55, 0xaa], by decide +kernel⟩

/-- A disk with both tables, and a block for the extended partition. -/
def hybridDevice : PartDevice where
  dos :=
    { cyclicDevice with
      getblock := fun blknr =>
        if blknr = 0 then some hybridMbr
        else if blknr = 1 then some bsdLabel
        else if blknr = 2 then some signedBlock
        else none }
  gpt :=
    { sectorSize := 512
      lastLba := 0
      lseek := fun _ => false
      read := fun _ _ => none
      lastSector := fun _ => none
      malloc := fun _ => true
      forceGpt := false }
  dasd :=
    { fstat := none
      openDasd := false
      biodasdinfo := none
      blksszget := none
      blkgetsize64 := none
      hdioGetgeo := none
      malloc := true
      label := none
      lseek := fun _ => false
      format1 := fun _ => none }
  behind _ := []
  all := {}

/-- The fifth slice of the BSD label, after these readers. -/
def fifthSlice (order : List Pts) : Option (Pts × ℤ × Slice) :=
  match tryReaders hybridDevice 505 order noSlices with
  | .done r => r.map fun (ptp, n, sp) => (ptp, n, slot sp 4)
  | _ => none

theorem exists_of_fifthSlice {order : List Pts} {s : Slice} (h : fifthSlice order = some (ptp, n, s)) :
    ∃ sp, tryReaders hybridDevice 505 order noSlices = .done (some (ptp, n, sp)) ∧ slot sp 4 = s := by
  unfold fifthSlice at h
  split at h
  · rename_i r hr
    obtain ⟨⟨q, m, sp⟩, rfl, heq⟩ := Option.map_eq_some_iff.1 h
    cases heq
    exact ⟨sp, hr, rfl⟩
  · cases h

/-- The reader of DOS tables leaves the container of a logical partition to that of BSD labels. -/
theorem fifthSlice_hybrid : fifthSlice [.gpt, .dos, .bsd] =
    some (.bsd, 5, { start := 100, size := 10, container := 1 }) := by
  decide +kernel

theorem fifthSlice_alone : fifthSlice [.bsd] = some (.bsd, 5, { start := 100, size := 10 }) := by
  decide +kernel

theorem tryReaders_independent_hybrid :
    ∃ sp, tryReaders hybridDevice 505 [.gpt, .dos, .bsd] noSlices = .done (some (.bsd, 5, sp)) ∧
      ∃ before after left alone, [Pts.gpt, .dos, .bsd] = before ++ .bsd :: after ∧
        Fails hybridDevice 505 before noSlices left ∧
        tryReaders hybridDevice 505 [.bsd] noSlices = .done (some (.bsd, 5, alone)) ∧
        ((∀ j : ℕ, (j : ℤ) < 5 → SameSlice sp alone j) ↔
          ∀ j : ℕ, (j : ℤ) < 5 → NoContainerLeft hybridDevice 505 before alone j) ∧
        ((∀ j, SameSlice sp alone j) ↔ ∀ j, NoContainerLeft hybridDevice 505 before alone j ∧
          (storedBy hybridDevice .bsd 5 ≤ j → (slot left j).start = 0 ∧ (slot left j).size = 0)) := by
  obtain ⟨sp, hdone, -⟩ := exists_of_fifthSlice fifthSlice_hybrid
  exact ⟨sp, hdone, tryReaders_independent_iff hybridDevice 505 hdone⟩

theorem tryReaders_independent_fails :
    ¬ ∀ (dev : PartDevice) (fuel : ℕ) (order order' : List Pts) (ptp : Pts) (n n' : ℤ)
      (sp sp' : List Slice), tryReaders dev fuel order noSlices = .done (some (ptp, n, sp)) →
      tryReaders dev fuel order' noSlices = .done (some (ptp, n', sp')) →
      n = n' ∧ ∀ j : ℕ, j < n → SameSlice sp sp' j := by
  intro h
  obtain ⟨sp, hdone, hslot⟩ := exists_of_fifthSlice fifthSlice_hybrid
  obtain ⟨alone, halone, hslot'⟩ := exists_of_fifthSlice fifthSlice_alone
  have hsame := ((h _ _ _ _ _ _ _ _ _ hdone halone).2 4 (by decide)).2.2
  rw [hslot, hslot'] at hsame
  exact absurd hsame (by decide)

end Sample

end MultipathTools.Kpartx
