import MultipathTools.Base.Numeral
import MultipathTools.Base.Stopping

/-! `dm_remove_partmaps` of kpartx: the device-mapper maps that are taken for partitions of a device.
A map is as the kernel answers for it when the loop is at it. -/
namespace MultipathTools.Kpartx

/-- A `dev_t`. -/
structure DevNo where
  major : BitVec 32
  minor : BitVec 32
  deriving DecidableEq

structure Target where
  targetType : CStr
  params : CStr
  deriving DecidableEq

/-- The answer to `DM_DEVICE_INFO`. -/
structure DmInfo where
  isPresent : Bool
  devno : DevNo
  openCount : ℤ
  uuid : CStr
  deriving DecidableEq

/-- A map, with the answers to `DM_DEVICE_TABLE` and `DM_DEVICE_INFO`, `none` if the request fails,
and whether `DM_DEVICE_REMOVE` succeeds. -/
structure DmMap where
  name : CStr
  targets : Option (List Target)
  info : Option DmInfo
  removable : Bool
  deriving DecidableEq

def paramsSize : ℕ := 1024
def linearType : CStr := "linear".toList

/-- The first target is printed, a null pointer as `(null)`. -/
def dmGetMap (m : DmMap) : Option CStr :=
  m.targets.bind fun targets =>
    let params := (targets.head?.map Target.params).getD "(null)".toList
    if params.length ≤ paramsSize then some (params.take (paramsSize - 1)) else none

def dmGetOpencount (m : DmMap) : ℤ :=
  match m.info with
  | none => -1
  | some info => if info.isPresent then info.openCount else -1

/-- 1 for a match, 0 for none, -1 for an empty map or one of several targets. -/
def dmType (m : DmMap) (type : CStr) : ℤ :=
  match m.targets with
  | none => 0
  | some [] => -1
  | some [target] => if target.targetType = type then 1 else 0
  | some (_ :: _ :: _) => -1

def dmMapuuid (m : DmMap) : Option CStr :=
  m.info.bind fun info => if info.uuid = [] then none else some info.uuid

def uuidPrefix : CStr := "part".toList

/-- `dm_compare_uuid(mapuuid, name) == 0`. -/
def dmCompareUuid (mapuuid : CStr) (m : DmMap) : Bool :=
  match dmMapuuid m with
  | none => false
  | some partuuid =>
    let (number, p) := scanDigits (partuuid.drop uuidPrefix.length)
    strncmpEq partuuid uuidPrefix uuidPrefix.length ∧ number ≠ [] ∧ p = '-' :: mapuuid

/-- `dm_devn` finds the map of the name, and it is the device. -/
def isDmdev (names : List DmMap) (mapname : CStr) (devt : DevNo) : Bool :=
  (names.find? (·.name = mapname)).any fun m =>
    m.info.any fun info => info.isPresent ∧ info.devno = devt

/-- What `sprintf(dev_t, "%d:%d", ..)` writes. -/
def devText (devt : DevNo) : CStr := itoa devt.major.toInt ++ ':' :: itoa devt.minor.toInt

/-- What a part of a run returns, the maps that are gone, and what is on the terminal. -/
structure Sweep where
  r : ℤ
  removed : List DmMap
  printed : CStr
  deriving DecidableEq

def say (verbose : Bool) (m : DmMap) (text : String) : CStr :=
  if verbose then m.name ++ text.toList else []

def removePartmap (verbose : Bool) (m : DmMap) : Sweep :=
  if dmGetOpencount m ≠ 0 then ⟨1, [], say verbose m " is in use. Not removing\n"⟩
  else if ¬ m.removable then ⟨1, [], say verbose m ": failed to remove\n"⟩
  else ⟨0, [m], if verbose then "del devmap : ".toList ++ m.name ++ ['\n'] else []⟩

/-- What is printed before the rest of the loop. -/
def Sweep.after (text : CStr) (rest : Sweep) : Sweep := { rest with printed := text ++ rest.printed }

/-- The loop of `do_foreach_partmaps`; `own` is the name that it skips. -/
def foreachPartmap (own : Option CStr) (uuid : Option CStr) (devT : CStr) (verbose : Bool)
    (partmapFunc : DmMap → Sweep) : List DmMap → Sweep
  | [] => ⟨0, [], []⟩
  | m :: names =>
    let next := foreachPartmap own uuid devT verbose partmapFunc names
    if own = some m.name then next
    else
      match dmGetMap m with
      | none => next
      | some params =>
        if ¬ hasSubstr params devT then next
        else if dmType m linearType ≠ 1 then
          next.after (say verbose m ": is not a linear target. Not removing\n")
        else if uuid.any fun u => ¬ dmCompareUuid u m then
          next.after (say verbose m ": is not a kpartx partition. Not removing\n")
        else
          let done := partmapFunc m
          if done.r ≠ 0 then ⟨1, done.removed, done.printed⟩
          else ⟨next.r, done.removed ++ next.removed, done.printed ++ next.printed⟩

/-- `none` for names is a list that the kernel does not give. -/
def doForeachPartmaps (mapname : CStr) (uuid : Option CStr) (devt : DevNo) (verbose : Bool)
    (partmapFunc : DmMap → Sweep) (names : Option (List DmMap)) : Sweep :=
  match names with
  | none => ⟨1, [], []⟩
  | some names =>
    foreachPartmap (if isDmdev names mapname devt then some mapname else none) uuid (devText devt)
      verbose partmapFunc names

def dmRemovePartmaps (mapname : CStr) (uuid : Option CStr) (devt : DevNo) (verbose : Bool)
    (names : Option (List DmMap)) : Sweep :=
  doForeachPartmaps mapname uuid devt verbose (removePartmap verbose) names

/-- The device as the kernel writes it into a table. -/
def devName (devt : DevNo) : CStr := utoa 10 devt.major ++ ':' :: utoa 10 devt.minor

/-- The device is one of the words of a table. -/
def RefersTo (devt : DevNo) (params : CStr) : Prop := devName devt ∈ params.splitOn ' '

instance (devt : DevNo) (params : CStr) : Decidable (RefersTo devt params) :=
  inferInstanceAs (Decidable (_ ∈ _))

/-- The UUID of a partition: `part`, a number, and the UUID of its device after a dash. -/
def IsPartUuid (uuid partuuid : CStr) : Prop :=
  ∃ number : CStr, number ≠ [] ∧ (∀ c ∈ number, c.isDigit = true) ∧
    partuuid = uuidPrefix ++ number ++ '-' :: uuid

/-- A linear map over the device, with the UUID of one of its partitions if one is given. -/
structure IsPartition (uuid : Option CStr) (devt : DevNo) (m : DmMap) : Prop where
  linear : ∃ params, m.targets = some [⟨linearType, params⟩] ∧ RefersTo devt params
  partUuid : ∀ u, uuid = some u → ∃ info, m.info = some info ∧ IsPartUuid u info.uuid

/-- The tests that the loop makes before it removes a map. -/
def accepts (own : Option CStr) (uuid : Option CStr) (devT : CStr) (m : DmMap) : Bool :=
  own ≠ some m.name ∧ (dmGetMap m).any (hasSubstr · devT) ∧ dmType m linearType = 1 ∧
    uuid.all (dmCompareUuid · m)

/-- A map that is in use, or that the kernel keeps, ends the loop. -/
def isFree (m : DmMap) : Bool := dmGetOpencount m = 0 ∧ m.removable

def partmapTurn (own : Option CStr) (uuid : Option CStr) (devT : CStr) (m : DmMap) : Turn :=
  if ¬ accepts own uuid devT m then .skip else if isFree m then .take else .stop

section Turns

variable {own uuid : Option CStr} {devT : CStr} {m : DmMap}

theorem partmapTurn_take : partmapTurn own uuid devT m = .take ↔
    accepts own uuid devT m = true ∧ isFree m = true := by
  unfold partmapTurn
  cases accepts own uuid devT m <;> cases isFree m <;> simp

theorem partmapTurn_stop : partmapTurn own uuid devT m = .stop ↔
    accepts own uuid devT m = true ∧ isFree m = false := by
  unfold partmapTurn
  cases accepts own uuid devT m <;> cases isFree m <;> simp

end Turns

theorem removePartmap_isFree (verbose : Bool) {m : DmMap} (h : isFree m = true) :
    (removePartmap verbose m).r = 0 ∧ (removePartmap verbose m).removed = [m] := by
  obtain ⟨hopen, hrem⟩ : dmGetOpencount m = 0 ∧ m.removable = true := by simpa [isFree] using h
  rw [removePartmap, if_neg (not_not.mpr hopen), if_neg (not_not.mpr hrem)]
  exact ⟨rfl, rfl⟩

theorem removePartmap_not_isFree (verbose : Bool) {m : DmMap} (h : isFree m = false) :
    (removePartmap verbose m).r = 1 ∧ (removePartmap verbose m).removed = [] := by
  unfold removePartmap
  by_cases hopen : dmGetOpencount m = 0
  · have hrem : m.removable = false := by simpa [isFree, hopen] using h
    rw [if_neg (not_not.mpr hopen), hrem, if_pos (by decide)]
    exact ⟨rfl, rfl⟩
  · rw [if_pos hopen]
    exact ⟨rfl, rfl⟩

section Step

variable {own uuid : Option CStr} {devT : CStr} {verbose : Bool} {f : DmMap → Sweep} {m : DmMap}

theorem accepts_iff : accepts own uuid devT m = true ↔
    own ≠ some m.name ∧ (∃ params, dmGetMap m = some params ∧ hasSubstr params devT = true) ∧
      dmType m linearType = 1 ∧ ∀ u, uuid = some u → dmCompareUuid u m = true := by
  cases uuid <;> simp [accepts, Option.any_eq_true]

/-- A map that fails a test stays, and the loop goes on. -/
theorem foreachPartmap_rejected (h : accepts own uuid devT m = false) (names : List DmMap) :
    (foreachPartmap own uuid devT verbose f (m :: names)).removed =
      (foreachPartmap own uuid devT verbose f names).removed := by
  rw [foreachPartmap]
  by_cases hown : own = some m.name
  · rw [if_pos hown]
  rw [if_neg hown]
  cases hmap : dmGetMap m with
  | none => rfl
  | some params =>
    dsimp only
    by_cases hsub : hasSubstr params devT = true
    · rw [if_neg (not_not.mpr hsub)]
      by_cases htype : dmType m linearType = 1
      · rw [if_neg (not_not.mpr htype), if_pos]
        · rfl
        · cases uuid with
          | none => simp [accepts, hown, hmap, hsub, htype] at h
          | some u => simpa [accepts, hown, hmap, hsub, htype] using h
      · rw [if_pos htype]
        rfl
    · rw [if_pos hsub]

/-- A map that passes the tests is handed to the function. -/
theorem foreachPartmap_accepted (h : accepts own uuid devT m = true) (names : List DmMap) :
    (foreachPartmap own uuid devT verbose f (m :: names)).removed =
      if (f m).r ≠ 0 then (f m).removed
      else (f m).removed ++ (foreachPartmap own uuid devT verbose f names).removed := by
  obtain ⟨hown, ⟨params, hmap, hsub⟩, htype, huuid⟩ := accepts_iff.mp h
  have hall : ¬ (uuid.any fun u => ¬ dmCompareUuid u m) = true := by
    cases uuid with
    | none => simp
    | some u => simp [huuid u rfl]
  rw [foreachPartmap, if_neg hown, hmap]
  dsimp only
  rw [if_neg (not_not.mpr hsub), if_neg (not_not.mpr htype), if_neg hall]
  split_ifs <;> rfl

end Step

/-- The maps that the loop removes. -/
theorem foreachPartmap_removed (own uuid : Option CStr) (devT : CStr) (verbose : Bool)
    (names : List DmMap) :
    (foreachPartmap own uuid devT verbose (removePartmap verbose) names).removed =
      taken (partmapTurn own uuid devT) names := by
  induction names with
  | nil => rfl
  | cons m names ih =>
    cases hacc : accepts own uuid devT m with
    | false => rw [foreachPartmap_rejected hacc, ih, taken_cons_skip (by simp [partmapTurn, hacc])]
    | true =>
      rw [foreachPartmap_accepted hacc, ih]
      cases hfree : isFree m with
      | true =>
        obtain ⟨hr, hremoved⟩ := removePartmap_isFree verbose hfree
        rw [taken_cons_take (partmapTurn_take.mpr ⟨hacc, hfree⟩), hr, hremoved]
        rfl
      | false =>
        obtain ⟨hr, hremoved⟩ := removePartmap_not_isFree verbose hfree
        rw [taken_cons_stop (partmapTurn_stop.mpr ⟨hacc, hfree⟩), hr, hremoved]
        rfl

theorem dmType_linear {m : DmMap} :
    dmType m linearType = 1 ↔ ∃ params, m.targets = some [⟨linearType, params⟩] := by
  unfold dmType
  split
  · simp [*]
  · simp [*]
  · next target h =>
    obtain ⟨type, params⟩ := target
    simp [h]
  · simp [*]

/-- The test that `dm_compare_uuid` makes of a UUID. -/
theorem isPartUuid_iff {u t : CStr} : IsPartUuid u t ↔
    strncmpEq t uuidPrefix uuidPrefix.length = true ∧
      (scanDigits (t.drop uuidPrefix.length)).1 ≠ [] ∧
      (scanDigits (t.drop uuidPrefix.length)).2 = '-' :: u := by
  constructor
  · rintro ⟨number, hne, hdigits, rfl⟩
    have hscan : scanDigits (number ++ '-' :: u) = (number, '-' :: u) :=
      scanDigits_append hdigits (by simp [NoDigit])
    rw [List.append_assoc, List.drop_left, hscan]
    exact ⟨by simp [strncmpEq], hne, rfl⟩
  · intro ⟨hpart, hne, hrest⟩
    have htake : t.take uuidPrefix.length = uuidPrefix := by
      simpa [strncmpEq] using hpart
    have hsplit : (scanDigits (t.drop uuidPrefix.length)).1 ++ '-' :: u =
        t.drop uuidPrefix.length := by
      rw [← hrest]
      exact List.takeWhile_append_dropWhile
    refine ⟨(scanDigits (t.drop uuidPrefix.length)).1, hne, fun c hc => List.mem_takeWhile_imp hc, ?_⟩
    calc t = t.take uuidPrefix.length ++ t.drop uuidPrefix.length :=
          (List.take_append_drop _ _).symm
      _ = _ := by rw [htake, List.append_assoc, hsplit]

theorem dmCompareUuid_iff {u : CStr} {m : DmMap} :
    dmCompareUuid u m = true ↔ ∃ info, m.info = some info ∧ IsPartUuid u info.uuid := by
  unfold dmCompareUuid dmMapuuid
  cases m.info with
  | none => simp
  | some info =>
    by_cases hempty : info.uuid = []
    · simp [hempty, IsPartUuid, uuidPrefix]
    · simp [hempty, isPartUuid_iff]

theorem isPartition_iff {own uuid : Option CStr} {devt : DevNo} {m : DmMap} {params : CStr}
    (hacc : accepts own uuid (devText devt) m = true)
    (hparams : m.targets = some [⟨linearType, params⟩]) :
    IsPartition uuid devt m ↔ RefersTo devt params := by
  obtain ⟨-, -, -, huuid⟩ := accepts_iff.mp hacc
  constructor
  · intro h
    obtain ⟨params', hparams', href⟩ := h.linear
    rw [hparams] at hparams'
    cases hparams'
    exact href
  · intro href
    exact ⟨⟨params, hparams, href⟩, fun u hu => dmCompareUuid_iff.mp (huuid u hu)⟩

/-- The name that the loop skips. -/
def ownName (maps : List DmMap) (mapname : CStr) (devt : DevNo) : Option CStr :=
  if isDmdev maps mapname devt then some mapname else none

/-- `dm_remove_partmaps` removes partitions of the device only, exactly if no linear map that passes
its tests and can be removed has a table of other words, unless one that cannot be removed is before
it. -/
theorem dmRemovePartmaps_iff (mapname : CStr) (uuid : Option CStr) (devt : DevNo) (verbose : Bool)
    (maps : List DmMap) :
    (∀ m ∈ (dmRemovePartmaps mapname uuid devt verbose (some maps)).removed,
      IsPartition uuid devt m) ↔
    ∀ s m t params, maps = s ++ m :: t → m.targets = some [⟨linearType, params⟩] →
      ¬ RefersTo devt params →
      accepts (ownName maps mapname devt) uuid (devText devt) m = true → isFree m = true →
      ∃ k ∈ s, accepts (ownName maps mapname devt) uuid (devText devt) k = true ∧
        isFree k = false := by
  have hremoved : (dmRemovePartmaps mapname uuid devt verbose (some maps)).removed =
      taken (partmapTurn (ownName maps mapname devt) uuid (devText devt)) maps :=
    foreachPartmap_removed _ _ _ _ _
  rw [hremoved, forall_mem_taken_iff]
  simp only [partmapTurn_take, partmapTurn_stop]
  constructor
  · intro h s m t params hmaps hparams href hacc hfree
    exact h s m t hmaps ⟨hacc, hfree⟩ (mt (isPartition_iff hacc hparams).mp href)
  · intro h s m t hmaps ⟨hacc, hfree⟩ hpart
    obtain ⟨params, hparams⟩ := dmType_linear.mp (accepts_iff.mp hacc).2.2.1
    exact h s m t params hmaps hparams (mt (isPartition_iff hacc hparams).mpr hpart) hacc hfree

/-- The partition of `loop10`, which `kpartx` has made. -/
def loop10p1 : DmMap :=
  ⟨"loop10p1".toList, some [⟨linearType, "7:10 2048".toList⟩],
    some ⟨true, ⟨254, 0⟩, 0, "part1-devnode_7:10_Wh5pYvM".toList⟩, true⟩

/-- It is taken for a partition of `loop1`. -/
theorem dmRemovePartmaps_loop10 :
    ¬ ∀ m ∈ (dmRemovePartmaps "loop1".toList none ⟨7, 1⟩ false (some [loop10p1])).removed,
      IsPartition none ⟨7, 1⟩ m := by
  intro h
  have hremoved : loop10p1 ∈
      (dmRemovePartmaps "loop1".toList none ⟨7, 1⟩ false (some [loop10p1])).removed := by
    decide +kernel
  obtain ⟨params, hparams, href⟩ := (h loop10p1 hremoved).linear
  cases hparams
  have hother : ¬ RefersTo ⟨7, 1⟩ "7:10 2048".toList := by decide +kernel
  exact hother href

end MultipathTools.Kpartx
