import MultipathTools.Dmparser.Members
import MultipathTools.StructsVec.Adoption

/-! A map whose groups were read from a table, and what `update_pathvec_from_dm` leaves of
them. -/
namespace MultipathTools.StructsVec

open Dmparser

/-- The paths in the groups of a map. -/
def groupPaths (mpp : Multipath) : List Path := (mpp.pg.getD []).flatMap Pathgroup.paths

/-- The groups of a map in memory. -/
def pgObjs (pg : List Pathgroup) : List PgObj :=
  pg.map fun pgp => { id := pgp.id, paths := some (pgp.paths.map Path.addr) }

/-- The path vector as `disassemble_map` sees it. -/
def Store.paths (s : Store) : List Path := s.pathvec.map fun a => (s.heap a).toPath

/-- `CHECKINT_UNDEF`, an unsigned `~0`. -/
def checkintUndef : ℤ := 2 ^ 32 - 1

/-- The memory with the groups of a map: a path of the path vector has its index in them, and any
other path is an object that is new from `alloc_path`, with an `hwe` vector of its own and no udev
device. -/
def Store.load (s : Store) (hwe : BitVec 64 → ℕ) (mpp : Multipath) : Store :=
  { s with
    heap := fun a =>
      match (groupPaths mpp).find? fun pp => pp.addr = a with
      | none => s.heap a
      | some pp =>
        if a ∈ s.pathvec then { s.heap a with pgindex := pp.pgindex }
        else { toPath := pp, hwe := some (hwe a), checkint := checkintUndef }
    freed := []
    wwid := mpp.wwid
    mustReload := false }

theorem members_pgObjs (pg : List Pathgroup) :
    members (pgObjs pg) = (pg.flatMap Pathgroup.paths).map Path.addr := by
  rw [members, pgObjs, List.flatMap_map, List.map_flatMap]
  rfl

/-- The path vector holds the addresses of its paths, and all of them have a udev device. -/
structure Discovered (s : Store) : Prop where
  addr : ∀ a ∈ s.pathvec, (s.heap a).addr = a
  udev : ∀ a ∈ s.pathvec, (s.heap a).udev ≠ none

/-- The groups of the map come from the table `params`, which has each device at most once; new
paths have addresses of their own. -/
structure FromTable (alloc : CStr → BitVec 64) (params : CStr) (s : Store) (mpp : Multipath) :
    Prop where
  read : ∃ mpp₀ : Multipath, mpp₀.pg = none ∧ mpp = (disassembleMap alloc s.paths params mpp₀).1
  once : ((groupPaths mpp).map Path.devT).Nodup
  distinct : Set.InjOn alloc {word | word <:+: params}
  fresh : ∀ word, word <:+: params → alloc word ∉ s.pathvec

section Start

variable {alloc : CStr → BitVec 64} {params : CStr} {hwe : BitVec 64 → ℕ} {s : Store}
  {mpp : Multipath}

theorem FromTable.named (h : FromTable alloc params s mpp) {pp : Path}
    (hpp : pp ∈ groupPaths mpp) : Named alloc s.paths params pp := by
  obtain ⟨mpp₀, hnone, rfl⟩ := h.read
  obtain ⟨pgp, hpgp, hmem⟩ := List.mem_flatMap.mp hpp
  exact disassembleMap_named hnone pgp hpgp pp hmem

/-- What the address of a path in the groups tells about it. -/
theorem FromTable.addr_cases (h : FromTable alloc params s mpp) (hs : Discovered s) {pp : Path}
    (hpp : pp ∈ groupPaths mpp) :
    (pp.addr ∈ s.pathvec ∧ pp.devT = (s.heap pp.addr).devT) ∨
      ∃ word, word <:+: params ∧ pp.addr = alloc word ∧ pp.devT = word.take (blkDevSize - 1) := by
  rcases h.named hpp with ⟨q, hq, i, rfl⟩ | ⟨word, hword, i, rfl⟩
  · obtain ⟨a, ha, rfl⟩ := List.mem_map.mp hq
    refine Or.inl ?_
    dsimp only
    rw [hs.addr a ha]
    exact ⟨ha, rfl⟩
  · exact Or.inr ⟨word, hword, rfl, rfl⟩

theorem FromTable.devT_eq (h : FromTable alloc params s mpp) (hs : Discovered s) {pp qq : Path}
    (hpp : pp ∈ groupPaths mpp) (hqq : qq ∈ groupPaths mpp) (haddr : pp.addr = qq.addr) :
    pp.devT = qq.devT := by
  rcases h.addr_cases hs hpp with ⟨hp, hpdevT⟩ | ⟨word, hword, hp, hpdevT⟩
  · rcases h.addr_cases hs hqq with ⟨-, hqdevT⟩ | ⟨word, hword, hq, -⟩
    · rw [hpdevT, hqdevT, haddr]
    · rw [haddr, hq] at hp
      exact absurd hp (h.fresh word hword)
  · rcases h.addr_cases hs hqq with ⟨hq, -⟩ | ⟨word', hword', hq, hqdevT⟩
    · rw [← haddr, hp] at hq
      exact absurd hq (h.fresh word hword)
    · rw [hp, hq] at haddr
      rw [hpdevT, hqdevT, h.distinct hword hword' haddr]

/-- No object is in the groups twice. -/
theorem FromTable.nodup_addr (h : FromTable alloc params s mpp) (hs : Discovered s) :
    ((groupPaths mpp).map Path.addr).Nodup := by
  refine List.pairwise_map.mpr ((List.pairwise_map.mp h.once).imp_of_mem ?_)
  intro pp qq hpp hqq hne haddr
  exact hne (h.devT_eq hs hpp hqq haddr)

/-- A path in the groups has a udev device exactly if it is in the path vector. -/
theorem Discovered.load_udev (hs : Discovered s) {a : BitVec 64}
    (ha : a ∈ (groupPaths mpp).map Path.addr) :
    a ∈ s.pathvec ↔ ((s.load hwe mpp).heap a).udev ≠ none := by
  obtain ⟨pp, hpp, rfl⟩ := List.mem_map.mp ha
  rw [Store.load]
  dsimp only
  cases hfind : (groupPaths mpp).find? fun qq => qq.addr = pp.addr with
  | none => exact absurd (decide_eq_true rfl) (List.find?_eq_none.mp hfind pp hpp)
  | some qq =>
    dsimp only
    split_ifs with hmem
    · exact iff_of_true hmem (hs.udev pp.addr hmem)
    · exact iff_of_false hmem (not_not.mpr rfl)

theorem FromTable.sound (h : FromTable alloc params s mpp) (hs : Discovered s) {has : Bool}
    {wwid : CStr} :
    Sound mpp.addr has { s.load hwe mpp with wwid := wwid } { s.load hwe mpp with wwid := wwid } []
      ((groupPaths mpp).map Path.addr ++ []) where
  nodup := by
    rw [List.nil_append, List.append_nil]
    exact h.nodup_addr hs
  kept := List.forall_mem_nil _
  left := by
    intro a ha
    rw [List.append_nil] at ha
    exact ⟨List.not_mem_nil, hs.load_udev ha⟩
  alive := fun _ _ => List.not_mem_nil
  owner := fun _ _ _ => id
  wwid := rfl

end Start

/-- There is a WWID to compare with unless none is known and none could be guessed. -/
theorem guessMppWwid_eq_true {heap : BitVec 64 → PathObj} {pg : List PgObj} {wwid : CStr}
    (h : (guessMppWwid heap pg wwid).1 ≠ []) : (guessMppWwid heap pg wwid).2 = true := by
  unfold guessMppWwid at h ⊢
  split_ifs with hwwid
  · rfl
  · rw [if_neg hwwid] at h
    generalize List.find? _ _ = found at h ⊢
    rcases found with _ | a
    · exact absurd h hwwid
    · rfl

/-- What holds once a map whose groups were loaded into `s` has been adopted; `r` is what
`update_pathvec_from_dm` leaves and returns. -/
structure Adopted (mpp : Multipath) (s : Store) (r : Store × Option (List PgObj) × Bool) :
    Prop where
  nonempty : ∀ pgp ∈ r.2.1.getD [], pgp.paths ≠ none ∧ pgp.paths ≠ some []
  adopted : ∀ a ∈ members (r.2.1.getD []), (r.1.heap a).mpp = some mpp.addr ∧
    (r.1.heap a).udev ≠ none ∧ a ∈ r.1.pathvec ∧
    (r.1.wwid ≠ [] → (r.1.heap a).wwid = r.1.wwid)
  freed : ∀ a ∈ r.1.freed, a ∉ r.1.pathvec ∧ a ∉ members (r.2.1.getD [])
  owner : ∀ a, ∀ m ≠ mpp.addr, (s.heap a).mpp = some m → (r.1.heap a).mpp = some m
  reload : r.2.2 = true ↔ (∃ pp ∈ groupPaths mpp, pp.addr ∉ members (r.2.1.getD [])) ∨
    (r.2.1.getD []).length < (mpp.pg.getD []).length

/-- Of objects that are there once, fewer are left exactly if one is gone. -/
theorem length_lt_iff_of_sublist {l l' : List (BitVec 64)} (h : l'.Sublist l) (hl : l.Nodup) :
    l'.length < l.length ↔ ∃ a ∈ l, a ∉ l' := by
  constructor
  · intro hlt
    by_contra hnone
    have hsub : l ⊆ l' := fun a ha => not_not.mp fun ha' => hnone ⟨a, ha, ha'⟩
    exact absurd (hl.subperm hsub).length_le (Nat.not_le.mpr hlt)
  · intro ⟨a, ha, ha'⟩
    refine lt_of_le_of_ne h.length_le fun heq => ha' ?_
    rw [h.eq_of_length heq]
    exact ha

section Run

variable {env : Env} {flags : BitVec 32} {has : Bool} {s s₀ : Store} {mpp : Multipath}
  {pg : List Pathgroup}

/-- The loop over the groups, from a memory in which nothing has happened yet. -/
theorem adopted_of_sound (hpg : mpp.pg = some pg)
    (hsound : Sound mpp.addr has s₀ s₀ [] (members (pgObjs pg) ++ [])) (hheap : s₀.heap = s.heap)
    (hflag : s₀.mustReload = false) (hhas : s₀.wwid ≠ [] → has = true) :
    Adopted mpp s ((foreachSlot (visitGroup env flags mpp.addr has) 0 (pgObjs pg) s₀).1,
      some (foreachSlot (visitGroup env flags mpp.addr has) 0 (pgObjs pg) s₀).2,
      (foreachSlot (visitGroup env flags mpp.addr has) 0 (pgObjs pg) s₀).1.mustReload) := by
  have hrun := @sweepGroups_sound env flags mpp.addr has s₀ s₀ [] [] (pgObjs pg) hsound
  have hsub := @sweepGroups_sublist env flags mpp.addr has (pgObjs pg) s₀
  have hreload := @sweepGroups_reload env flags mpp.addr has (pgObjs pg) s₀
  have hnonempty := sweep_forall (@visitGroup_nonempty env flags mpp.addr has) (pgObjs pg) s₀
  have hnodup : (members (pgObjs pg)).Nodup := by
    have hstart := hsound.nodup
    rwa [List.nil_append, List.append_nil] at hstart
  rw [foreachSlot_eq]
  generalize sweep (visitGroup env flags mpp.addr has) (pgObjs pg) s₀ = r
    at hrun hsub hreload hnonempty ⊢
  rw [List.nil_append] at hrun
  refine ⟨hnonempty, fun a ha => ?_, fun a ha => ?_, fun a m hm hown => ?_, ?_⟩
  · obtain ⟨hmpp, hudev, hmem, hwwid⟩ := hrun.kept a ha
    refine ⟨hmpp, hudev, hmem, fun hne => hwwid (hhas ?_)⟩
    rwa [← hrun.wwid]
  · refine ⟨fun hmem => hrun.alive a hmem ha, fun hmem => ?_⟩
    obtain ⟨-, -, hvec, -⟩ := hrun.kept a hmem
    exact hrun.alive a hvec ha
  · rw [← hheap] at hown
    exact hrun.owner a m hm hown
  · have hgone := length_lt_iff_of_sublist hsub hnodup
    dsimp only
    rw [hreload, hflag, hgone, groupPaths, hpg, members_pgObjs, pgObjs, List.length_map]
    simp [or_comm]

theorem updatePathvecFromDm_adopted {alloc : CStr → BitVec 64} {params : CStr}
    {hwe : BitVec 64 → ℕ} (env : Env) (pathinfoFlags : BitVec 32)
    (h : FromTable alloc params s mpp) (hs : Discovered s) :
    Adopted mpp (s.load hwe mpp) (updatePathvecFromDm env pathinfoFlags mpp.addr
      (mpp.pg.map pgObjs) (s.load hwe mpp)) := by
  rcases hpg : mpp.pg with _ | pg
  · refine ⟨List.forall_mem_nil _, List.forall_mem_nil _, List.forall_mem_nil _,
      fun _ _ _ => id, ?_⟩
    simp [updatePathvecFromDm, groupPaths, hpg]
  · have hmembers : (groupPaths mpp).map Path.addr = members (pgObjs pg) := by
      rw [members_pgObjs, groupPaths, hpg]
      rfl
    have hsound := @FromTable.sound alloc params hwe s mpp h hs
    rw [hmembers] at hsound
    exact adopted_of_sound hpg hsound rfl rfl guessMppWwid_eq_true

/-- All parts of a text, in some order. -/
def parts (text : CStr) : List CStr := text.tails.flatMap List.inits

/-- Every part of a text has an address of its own, behind `base`. -/
def partAddr (base : ℕ) (text word : CStr) : BitVec 64 :=
  BitVec.ofNat 64 (base + 1 + (parts text).idxOf word)

theorem partAddr_spec {base : ℕ} {text : CStr} (hlen : base + 1 + (parts text).length < 2 ^ 64) :
    Set.InjOn (partAddr base text) {word | word <:+: text} ∧
      ∀ word, word <:+: text → base < (partAddr base text word).toNat := by
  have hpart {word : CStr} (h : word <:+: text) : (parts text).idxOf word < (parts text).length := by
    obtain ⟨t, hprefix, hsuffix⟩ := List.infix_iff_prefix_suffix.mp h
    refine List.idxOf_lt_length_of_mem (List.mem_flatMap.mpr ⟨t, ?_, ?_⟩)
    · exact (List.mem_tails t text).mpr hsuffix
    · exact (List.mem_inits word t).mpr hprefix
  have htoNat {word : CStr} (h : word <:+: text) :
      (partAddr base text word).toNat = base + 1 + (parts text).idxOf word := by
    have hlt := hpart h
    rw [partAddr, BitVec.toNat_ofNat, Nat.mod_eq_of_lt (by omega)]
  refine ⟨fun word h word' h' heq => ?_, fun word h => ?_⟩
  · have hidx := congrArg BitVec.toNat heq
    rw [htoNat h, htoNat h', Nat.add_left_cancel_iff] at hidx
    exact (List.idxOf_inj (List.idxOf_lt_length_iff.mp (hpart h))).mp hidx
  · rw [htoNat h]
    omega

end Run

/-- A table with two devices. -/
def pairTable : CStr := "0 0 1 1 queue-length 0 2 1 8:0 1 8:16 1 ".toList

/-- A path vector that has the first of them. -/
def pairStore : Store where
  heap := fun a => { addr := a, devT := "8:0".toList, udev := some 7 }
  pathvec := [1]

/-- A system that does not know the second. -/
def pairEnv : Env where
  getUdevDevice := fun _ _ => none
  devt2devname := fun _ _ => []
  pathinfo := fun _ pp _ => { path := pp.toPath }
  checkint := 5

def pairMap : Multipath :=
  (disassembleMap (partAddr 1 pairTable) pairStore.paths pairTable { addr := 3 }).1

theorem updatePathvecFromDm_adopted_pair :
    (groupPaths pairMap).map Path.devT = ["8:0".toList, "8:16".toList] ∧
      Adopted pairMap (pairStore.load (fun _ => 0) pairMap) (updatePathvecFromDm pairEnv 0
        pairMap.addr (pairMap.pg.map pgObjs) (pairStore.load (fun _ => 0) pairMap)) := by
  have hpaths : (groupPaths pairMap).map Path.devT = ["8:0".toList, "8:16".toList] := by decide
  have hlen : (parts pairTable).length = 861 := by decide +kernel
  obtain ⟨hinj, hbase⟩ := @partAddr_spec 1 pairTable (by rw [hlen]; norm_num)
  refine ⟨hpaths, updatePathvecFromDm_adopted pairEnv 0 ⟨⟨_, rfl, rfl⟩, ?_, hinj, ?_⟩ ⟨?_, ?_⟩⟩
  · rw [hpaths]
    decide
  · intro word hword hmem
    have haddr := hbase word hword
    rw [List.mem_singleton.mp hmem] at haddr
    exact absurd haddr (by decide)
  · exact fun a _ => rfl
  · exact fun a _ => Option.some_ne_none 7

end MultipathTools.StructsVec
