import MultipathTools.Kpartx.Contained
import MultipathTools.Kpartx.DosChain
import MultipathTools.Kpartx.Readers

/-! Two runs of a partition reader on different arrays of slices. -/
namespace MultipathTools.Kpartx

section Arrays

variable {W W' C C' : ℕ → Prop} {sp sp₀ a b : List Slice} {i j n : ℕ} {f : Slice → Slice}

/-- Two runs from the arrays `sp` and `sp₀` have come to `a` and `b`: both have stored the same starts and
sizes in the slots `W`, the same containers in the slots `C`, and nothing elsewhere. -/
structure Stored (W C : ℕ → Prop) (sp sp₀ a b : List Slice) : Prop where
  length : a.length = b.length
  left : a.length = sp.length
  written : ∀ j, W j → (slot a j).start = (slot b j).start ∧ (slot a j).size = (slot b j).size
  kept : ∀ j, ¬ W j → (slot a j).start = (slot sp j).start ∧ (slot a j).size = (slot sp j).size ∧
    (slot b j).start = (slot sp₀ j).start ∧ (slot b j).size = (slot sp₀ j).size
  contained : ∀ j, C j → (slot a j).container = (slot b j).container ∧ (slot b j).container ≠ 0
  free : ∀ j, ¬ C j → (slot a j).container = (slot sp j).container ∧
    (slot b j).container = (slot sp₀ j).container

theorem Stored.start (h : sp.length = sp₀.length) :
    Stored (fun _ => False) (fun _ => False) sp sp₀ sp sp₀ :=
  ⟨h, rfl, fun _ h => h.elim, fun _ _ => ⟨rfl, rfl, rfl, rfl⟩, fun _ h => h.elim,
    fun _ _ => ⟨rfl, rfl⟩⟩

theorem Stored.congr (h : Stored W C sp sp₀ a b) (hW : ∀ j, W' j ↔ W j) :
    Stored W' C sp sp₀ a b := by
  rwa [show W' = W from funext fun j => propext (hW j)]

theorem slot_modify (hi : i < a.length) :
    slot (a.modify i f) j = if i = j then f (slot a j) else slot a j := by
  simp only [slot, List.getD_eq_getElem?_getD, List.getElem?_modify]
  split_ifs with heq
  · subst heq
    rw [List.getElem?_eq_getElem hi]
    rfl
  · simp

/-- A slot gets a start and a size, and maybe a container, in both runs. -/
theorem Stored.modify (h : Stored W C sp sp₀ a b) (hi : i < a.length)
    (hstart : (f (slot a i)).start = (f (slot b i)).start)
    (hsize : (f (slot a i)).size = (f (slot b i)).size)
    (hcont : (C' = C ∧ ∀ s, (f s).container = s.container) ∨
      ((∀ j, C' j ↔ j = i ∨ C j) ∧ ∃ c ≠ 0, ∀ s, (f s).container = c))
    (hW : ∀ j, W' j ↔ j = i ∨ W j) : Stored W' C' sp sp₀ (a.modify i f) (b.modify i f) := by
  have hib : i < b.length := h.length ▸ hi
  refine ⟨by simp only [List.length_modify, h.length], by rw [List.length_modify, h.left],
    fun j hj => ?_, fun j hj => ?_, fun j hj => ?_, fun j hj => ?_⟩
  · rw [slot_modify hi, slot_modify hib]
    split_ifs with heq
    · exact heq ▸ ⟨hstart, hsize⟩
    · exact h.written j (((hW j).1 hj).resolve_left (Ne.symm heq))
  · rw [hW, not_or] at hj
    rw [slot_modify hi, slot_modify hib, if_neg (Ne.symm hj.1), if_neg (Ne.symm hj.1)]
    exact h.kept j hj.2
  · rw [slot_modify hi, slot_modify hib]
    obtain ⟨rfl, hf⟩ | ⟨hC, c, hc, hf⟩ := hcont
    · split_ifs
      · rw [hf, hf]
        exact h.contained j hj
      · exact h.contained j hj
    · split_ifs with heq
      · rw [hf, hf]
        exact ⟨rfl, hc⟩
      · exact h.contained j (((hC j).1 hj).resolve_left (Ne.symm heq))
  · rw [slot_modify hi, slot_modify hib]
    obtain ⟨rfl, hf⟩ | ⟨hC, c, -, -⟩ := hcont
    · split_ifs
      · rw [hf, hf]
        exact h.free j hj
      · exact h.free j hj
    · rw [hC, not_or] at hj
      rw [if_neg (Ne.symm hj.1), if_neg (Ne.symm hj.1)]
      exact h.free j hj.2

theorem Stored.rel_setSlot (h : Stored W C sp sp₀ a b)
    (hstart : (f (slot a i)).start = (f (slot b i)).start)
    (hsize : (f (slot a i)).size = (f (slot b i)).size)
    (hcont : (C' = C ∧ ∀ s, (f s).container = s.container) ∨
      ((∀ j, C' j ↔ j = i ∨ C j) ∧ ∃ c ≠ 0, ∀ s, (f s).container = c))
    (hW : ∀ j, W' j ↔ j = i ∨ W j) :
    (setSlot a i f).Rel (Stored W' C' sp sp₀) (setSlot b i f) := by
  unfold setSlot
  rw [← h.length]
  split_ifs with hi
  · exact h.modify hi hstart hsize hcont hW
  · trivial

theorem Stored.rel_storeSlice (h : Stored W C sp sp₀ a b) (start size : ℕ)
    (hW : ∀ j, W' j ↔ j = i ∨ W j) :
    (storeSlice a i start size).Rel (Stored W' C sp sp₀) (storeSlice b i start size) :=
  h.rel_setSlot rfl rfl (.inl ⟨rfl, fun _ => rfl⟩) hW

theorem Stored.rel_storeSlices (l : List Slice) (h : Stored W C sp sp₀ a b)
    (hW : ∀ j, W' j ↔ W j ∨ n ≤ j ∧ j < n + l.length) :
    (storeSlices a n l).Rel (Stored W' C sp sp₀) (storeSlices b n l) := by
  induction l generalizing a b n W with
  | nil =>
    refine h.congr fun j => ?_
    rw [hW, List.length_nil]
    exact or_iff_left (by omega)
  | cons s l ih =>
    refine (h.rel_storeSlice s.start s.size fun j => Iff.rfl).bind fun a' b' h' => ih h' fun j => ?_
    rw [hW, List.length_cons, or_comm (a := j = n), or_assoc]
    refine or_congr_right ?_
    omega

end Arrays

section Contained

variable {W C : ℕ → Prop} {sp sp₀ a b : List Slice} {i j last n : ℕ}

theorem set_slot (a : List Slice) (i : ℕ) (f : Slice → Slice) :
    a.set i (f (slot a i)) = a.modify i f := by
  rw [@List.modify_eq_set _ ⟨{}⟩, slot, List.getD_eq_getElem?_getD]
  rfl

/-- A slot that both runs have stored changes, in both. -/
theorem Stored.change {f : Slice → Slice} (h : Stored W C sp sp₀ a b) (hi : W i)
    (hstart : ∀ s, (f s).start = s.start) (hsize : (f (slot a i)).size = (f (slot b i)).size)
    (hcont : (∀ s, (f s).container = s.container) ∨ ∃ c ≠ 0, ∀ s, (f s).container = c) :
    ∃ C, Stored W C sp sp₀ (a.set i (f (slot a i))) (b.set i (f (slot b i))) := by
  rw [set_slot, set_slot]
  by_cases hlt : i < a.length
  · have hstart' : (f (slot a i)).start = (f (slot b i)).start := by
      rw [hstart, hstart, (h.written i hi).1]
    have hW : ∀ j, W j ↔ j = i ∨ W j := fun j => ⟨.inr, fun hj => hj.elim (fun heq => heq ▸ hi) id⟩
    obtain hcont | hcont := hcont
    · exact ⟨C, h.modify hlt hstart' hsize (.inl ⟨rfl, hcont⟩) hW⟩
    · exact ⟨fun j => j = i ∨ C j, h.modify hlt hstart' hsize (.inr ⟨fun _ => Iff.rfl, hcont⟩) hW⟩
  · rw [List.modify_eq_self (not_lt.1 hlt), List.modify_eq_self (h.length ▸ not_lt.1 hlt)]
    exact ⟨C, h⟩

theorem Stored.containTurn (h : Stored W C sp sp₀ a b) (hi : W i) (hj : W j) :
    ∃ C, Stored W C sp sp₀ (containTurn i last a j) (containTurn i last b j) := by
  have hwi := h.written i hi
  have hwj := h.written j hj
  unfold Kpartx.containTurn
  dsimp only
  rw [← hwi.1, ← hwj.1, ← hwj.2]
  split_ifs
  · exact ⟨C, h⟩
  · exact ⟨C, h⟩
  · simpa only [hwi.1] using
      h.change (f := fun s => { s with size := 0 }) hi (fun _ => rfl) rfl (.inl fun _ => rfl)
  · exact ⟨C, h⟩
  · simpa only [hwi.1] using h.change (f := fun s => { s with container := j + 1 }) hi (fun _ => rfl)
      hwi.2 (.inr ⟨j + 1, Nat.succ_ne_zero j, fun _ => rfl⟩)
  · exact ⟨C, h⟩

theorem Stored.foldl_containTurn (h : Stored W C sp sp₀ a b) (hi : W i) (js : List ℕ)
    (hjs : ∀ j ∈ js, W j) :
    ∃ C, Stored W C sp sp₀ (js.foldl (Kpartx.containTurn i last) a)
      (js.foldl (Kpartx.containTurn i last) b) := by
  induction js generalizing a b C with
  | nil => exact ⟨C, h⟩
  | cons j js ih =>
    obtain ⟨C', h'⟩ := @Stored.containTurn _ _ _ _ _ _ i j last h hi (hjs j (List.mem_cons_self ..))
    exact ih h' fun k hk => hjs k (List.mem_cons_of_mem j hk)

theorem Stored.containSlice (h : Stored W C sp sp₀ a b) (hn : ∀ j < n, W j) (hi : W i) :
    ∃ C, Stored W C sp sp₀ (containSlice n a i) (containSlice n b i) := by
  have hwi := h.written i hi
  unfold Kpartx.containSlice
  dsimp only
  rw [← hwi.1, ← hwi.2]
  split_ifs
  · exact ⟨C, h⟩
  · exact h.foldl_containTurn hi _ fun j hj => hn j (List.mem_range.1 hj)

/-- The double loop, over slots that both runs have stored. -/
theorem Stored.containSlices (h : Stored W C sp sp₀ a b) (hn : ∀ j < n, W j) :
    ∃ C, Stored W C sp sp₀ (containSlices n a) (containSlices n b) := by
  have hloop : ∀ is : List ℕ, (∀ i ∈ is, i < n) → ∀ {a b C}, Stored W C sp sp₀ a b →
      ∃ C, Stored W C sp sp₀ (is.foldl (Kpartx.containSlice n) a)
        (is.foldl (Kpartx.containSlice n) b) := by
    intro is
    induction is with
    | nil => exact fun _ _ _ C h => ⟨C, h⟩
    | cons i is ih =>
      intro his a b C h
      obtain ⟨C', h'⟩ := h.containSlice hn (hn i (his i (List.mem_cons_self ..)))
      exact ih (fun k hk => his k (List.mem_cons_of_mem i hk)) h'
  exact hloop _ (fun i hi => List.mem_range.1 hi) h

end Contained

section DosTables

variable {dev : DosDevice} {W W' : ℕ → Prop} {sp sp₀ : List Slice} {en base start here fuel : ℕ}
  {ns : ℤ} {p : Partition} {c d : Chain}

/-- The chains of two runs differ in the array only. -/
def ChainRel (W : ℕ → Prop) (base : ℕ) (ns : ℤ) (sp sp₀ : List Slice) (c d : Chain) : Prop :=
  ∃ b C, d = { c with sp := b } ∧ c.n ≤ ns.toNat ∧
    Stored (fun j => W j ∨ base ≤ j ∧ j < base + c.n) C sp sp₀ c.sp b

theorem rel_extendedEntry (h : ChainRel W base ns sp sp₀ c d) :
    (extendedEntry dev en base ns start here p c).Rel
      (fun x y => x.2 = y.2 ∧ ChainRel W base ns sp sp₀ x.1 y.1)
      (extendedEntry dev en base ns start here p d) := by
  obtain ⟨b, C, rfl, hcount, hst⟩ := h
  unfold extendedEntry
  dsimp only
  split_ifs with hext hlive hn
  · exact ⟨rfl, b, C, rfl, hcount, hst⟩
  · exact ⟨rfl, b, C, rfl, hcount, hst⟩
  · have hset : (setSlot c.sp (base + c.n) (logicalSlice dev en here p)).Rel
        (Stored (fun j => j = base + c.n ∨ W j ∨ base ≤ j ∧ j < base + c.n)
          (fun j => j = base + c.n ∨ C j) sp sp₀)
        (setSlot b (base + c.n) (logicalSlice dev en here p)) :=
      hst.rel_setSlot rfl rfl
        (.inr ⟨fun _ => Iff.rfl, en + 1, Nat.succ_ne_zero en, fun _ => rfl⟩) fun j => Iff.rfl
    refine Outcome.Rel.bind hset fun a' b' h' => ⟨rfl, b', _, rfl, ?_, h'.congr fun j => ?_⟩
    · dsimp only
      omega
    · dsimp only
      rw [or_left_comm]
      refine or_congr_right ?_
      omega
  · exact ⟨rfl, b, C, rfl, hcount, hst⟩

theorem rel_extendedEntries (ps : List Partition) (h : ChainRel W base ns sp sp₀ c d) :
    (extendedEntries dev en base ns start here ps c).Rel
      (fun x y => x.2 = y.2 ∧ ChainRel W base ns sp sp₀ x.1 y.1)
      (extendedEntries dev en base ns start here ps d) := by
  induction ps generalizing c d with
  | nil => exact ⟨rfl, h⟩
  | cons p ps ih =>
    refine (rel_extendedEntry h).bind fun x y hxy => ?_
    rw [← hxy.1]
    split_ifs
    · exact ih hxy.2
    · exact hxy

theorem ChainRel.turn (h : ChainRel W base ns sp sp₀ c d) :
    ChainRel W base ns sp sp₀ c.turn d.turn := by
  obtain ⟨b, C, rfl, hcount, hst⟩ := h
  exact ⟨b, C, rfl, hcount, hst⟩

theorem ChainRel.ask (h : ChainRel W base ns sp sp₀ c d) : ChainRel W base ns sp sp₀ c.ask d.ask := by
  obtain ⟨b, C, rfl, hcount, hst⟩ := h
  exact ⟨b, C, rfl, hcount, hst⟩

theorem ChainRel.fields (h : ChainRel W base ns sp sp₀ c d) :
    d.moretodo = c.moretodo ∧ d.next = c.next ∧ d.turn.loopct = c.turn.loopct := by
  obtain ⟨b, C, rfl, -, -⟩ := h
  exact ⟨rfl, rfl, rfl⟩

theorem rel_extendedLoop (h : ChainRel W base ns sp sp₀ c d) :
    (extendedLoop dev en base ns start fuel c).Rel (ChainRel W base ns sp sp₀)
      (extendedLoop dev en base ns start fuel d) := by
  induction fuel generalizing c d with
  | zero => trivial
  | succ fuel ih =>
    obtain ⟨hmore, hnext, hct⟩ := h.fields
    rw [extendedLoop, extendedLoop, hmore, hnext, hct]
    by_cases hstop : c.moretodo
    swap
    · rw [if_pos hstop, if_pos hstop]
      exact h
    rw [if_neg (not_not.2 hstop), if_neg (not_not.2 hstop)]
    split_ifs
    · exact h.turn
    cases dev.getblock (BitVec.ofNat 32 c.next) with
    | none => exact h.ask
    | some bp =>
      dsimp only
      split_ifs
      · refine (rel_extendedEntries _ h.ask).bind fun x y hxy => ?_
        rw [← hxy.1]
        split_ifs
        · exact ih hxy.2
        · exact hxy.2
      · exact h.ask

theorem rel_readExtendedPartition {a b : List Slice} {C : ℕ → Prop} (h : Stored W C sp sp₀ a b) :
    (readExtendedPartition dev en base ns fuel p a).Rel (ChainRel W base ns sp sp₀)
      (readExtendedPartition dev en base ns fuel p b) := by
  refine rel_extendedLoop ⟨b, C, rfl, Nat.zero_le _, h.congr fun j => ?_⟩
  exact or_iff_left (by dsimp only; omega)

section Primary

variable {bp : Block} {i k m : ℕ}

/-- The slots of the first `k` primary partitions, and those of logical ones. -/
def DosSlots (k n j : ℕ) : Prop := j < k ∨ 4 ≤ j ∧ j < n

/-- The variables of two runs differ in the array only. -/
def DosRel (sp sp₀ : List Slice) (d e : Dos) : Prop :=
  ∃ b W C, e = { d with sp := b } ∧ d.n ≤ 256 ∧ Stored W C sp sp₀ d.sp b ∧
    (d.n ≠ 0 → ∀ j, W j ↔ j < d.n)

theorem rel_dosEntries {d : Dos} {b : List Slice} {C : ℕ → Prop} (hm : k + m = 4) (hn : 4 ≤ d.n)
    (hn' : d.n ≤ 256) (h : Stored (DosSlots k d.n) C sp sp₀ d.sp b) :
    (dosEntries dev fuel 256 bp (List.range' k m) d).Rel (DosRel sp sp₀)
      (dosEntries dev fuel 256 bp (List.range' k m) { d with sp := b }) := by
  induction m generalizing k d b C with
  | zero =>
    refine ⟨b, _, C, rfl, hn', h, fun _ j => ?_⟩
    unfold DosSlots
    omega
  | succ m ih =>
    have hadd : ∀ j, DosSlots (k + 1) d.n j ↔ j = k ∨ DosSlots k d.n j := by
      intro j
      unfold DosSlots
      omega
    rw [List.range'_succ, dosEntries, dosEntries]
    by_cases hg : isGpt (partitionAt bp k).sysType
    · rw [if_pos hg, if_pos hg]
      exact ⟨b, _, C, rfl, Nat.zero_le _, h, fun hne => absurd rfl hne⟩
    have hk : k < (256 : BitVec 32).toNat := by
      rw [show (256 : BitVec 32).toNat = 256 from rfl]
      omega
    rw [if_neg hg, if_neg hg, if_pos hk, if_pos hk]
    have hset : (setSlot d.sp k (primarySlice dev (partitionAt bp k))).Rel
        (Stored (DosSlots (k + 1) d.n) C sp sp₀) (setSlot b k (primarySlice dev (partitionAt bp k))) :=
      h.rel_setSlot rfl rfl (.inl ⟨rfl, fun _ => rfl⟩) hadd
    refine Outcome.Rel.bind hset fun a' b' h' => ?_
    by_cases hext : isExtended (partitionAt bp k).sysType
    · rw [if_pos hext, if_pos hext]
      have hk' : DosSlots (k + 1) d.n k := .inl (Nat.lt_succ_self k)
      have hset' : (setSlot a' k (extendedSlice dev)).Rel (Stored (DosSlots (k + 1) d.n) C sp sp₀)
          (setSlot b' k (extendedSlice dev)) :=
        h'.rel_setSlot (h'.written k hk').1 rfl (.inl ⟨rfl, fun _ => rfl⟩)
          fun j => ⟨.inr, fun hj => hj.elim (fun heq => heq ▸ hk') id⟩
      refine Outcome.Rel.bind hset' fun a₂ b₂ h₂ => ?_
      refine (rel_readExtendedPartition h₂).bind fun c e hce => ?_
      obtain ⟨b₃, C', rfl, hcount, hst⟩ := hce
      have hsum : d.n + c.n ≤ 256 := by
        by_cases hzero : c.n = 0
        · omega
        · have hlt := @add_lt_of_lt_toInt 256 d.n (c.n - 1) (hn'.trans (le_max_right _ _)) (by omega)
          rw [show (256 : BitVec 32).toNat = 256 from rfl] at hlt
          omega
      refine @ih (k + 1) { sp := c.sp, n := d.n + c.n, blocks := d.blocks ++ c.blocks.map (k, ·) } b₃ C'
        (by omega) (Nat.le_add_right_of_le hn) hsum (hst.congr fun j => ?_)
      unfold DosSlots
      dsimp only
      omega
    · rw [if_neg hext, if_neg hext]
      exact ih (by omega) hn hn' h'

end Primary

end DosTables

end MultipathTools.Kpartx
