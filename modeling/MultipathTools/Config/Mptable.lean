import MultipathTools.Base.Collapse
import MultipathTools.Config.Merge
import MultipathTools.Dict.Options

/-! The `multipath` sections (`config.c`), of which those with the same WWID are merged. -/
namespace MultipathTools.Config

open Dict (ReservationKey)

/-- The strings of `struct mpentry`, in the order of `merge_mpe`. -/
inductive MpeStr where
  | aliasName | uidAttribute | getuid | selector | features | prioName | prioArgs
  deriving DecidableEq, Repr

def mpeStrs : List MpeStr :=
  [.aliasName, .uidAttribute, .getuid, .selector, .features, .prioName, .prioArgs]

/-- The numbers of `struct mpentry`. -/
inductive MpeNum where
  | pgpolicy | pgfailback | rrWeight | noPathRetry | minio | minioRq | flushOnLastDel
  | userFriendlyNames | deferredRemove | delayWatchChecks | delayWaitChecks | sanPathErrThreshold
  | sanPathErrForgetRate | sanPathErrRecoveryTime | marginalPathErrSampleTime
  | marginalPathErrRateThreshold | marginalPathErrRecheckGapTime | marginalPathDoubleFailedTime
  | skipKpartx | maxSectorsKb | ghostDelay
  deriving DecidableEq, Repr

/-- The values whose presence is held in `attribute_flags`. -/
inductive MpeOwner where
  | uid | gid | mode
  deriving DecidableEq, Repr

/-- `enum attribute_bits`. -/
def MpeOwner.attributeBit : MpeOwner → ℕ
  | .uid => 0
  | .gid => 1
  | .mode => 2

/-- `struct mpentry`, with a WWID. -/
structure Mpentry where
  wwid : CStr
  str : MpeStr → Option CStr := fun _ => none
  reservation : ReservationKey := {}
  num : MpeNum → ℤ := fun _ => 0
  attributeFlags : BitVec 32 := 0
  owner : MpeOwner → BitVec 32 := fun _ => 0

/-- `attribute_flags & (1 << ATTR_UID)`, and the same for the others. -/
def Mpentry.hasOwner (mpe : Mpentry) (o : MpeOwner) : Bool :=
  mpe.attributeFlags &&& (1 <<< o.attributeBit) ≠ 0

/-- `merge_mpe`. -/
def mergeMpe (dst src : Mpentry) : Mpentry :=
  let (str, done) := mergeStrs dst.str src.str mpeStrs
  if done then
    { wwid := dst.wwid
      str
      reservation :=
        if dst.reservation.source = .none ∧ src.reservation.source ≠ .none then src.reservation
        else dst.reservation
      num := fun x => mergeNum (dst.num x) (src.num x)
      attributeFlags := mergeNum dst.attributeFlags src.attributeFlags
      owner := fun o => mergeNum (dst.owner o) (src.owner o) }
  else { dst with str }

/-- The loops of `merge_mptable` from slot `i` on. -/
def mergeMptableFrom (mptable : List Mpentry) (i : ℕ) : List Mpentry :=
  if h : i < mptable.length then
    let mp1 := mptable[i]
    match (mptable.drop (i + 1)).findIdx? fun mp2 => mp2.wwid = mp1.wwid with
    | some k =>
      mergeMptableFrom ((mptable.modify (i + 1 + k) fun mp2 => mergeMpe mp2 mp1).eraseIdx i) i
    | none => mergeMptableFrom mptable (i + 1)
  else mptable
termination_by mptable.length - i
decreasing_by
  · rw [List.length_eraseIdx_of_lt (by rwa [List.length_modify]), List.length_modify]
    omega
  · omega

/-- `merge_mptable`. -/
def mergeMptable (mptable : List Mpentry) : List Mpentry := mergeMptableFrom mptable 0

/-- An attribute of a section. -/
inductive MpeAttr where
  | str (s : MpeStr)
  | num (x : MpeNum)
  | reservation
  | owner (o : MpeOwner)
  deriving DecidableEq, Repr

inductive MpeValue where
  | str (s : CStr)
  | num (n : ℤ)
  | reservation (r : ReservationKey)
  | owner (id : BitVec 32)
  deriving DecidableEq, Repr

/-- What a section sets an attribute to. -/
def Mpentry.get (mpe : Mpentry) : MpeAttr → Option MpeValue
  | .str s => (mpe.str s).map .str
  | .num x => if mpe.num x = 0 then none else some (.num (mpe.num x))
  | .reservation =>
    if mpe.reservation.source = .none then none else some (.reservation mpe.reservation)
  | .owner o => if mpe.hasOwner o then some (.owner (mpe.owner o)) else none

section Merge

variable {dst src : Mpentry}

theorem nodup_mpeStrs : mpeStrs.Nodup := by decide

/-- Whether `merge_mpe` comes to the end. -/
def MergesAll (dst src : Mpentry) : Prop := reached dst.str src.str mpeStrs = mpeStrs

instance (dst src : Mpentry) : Decidable (MergesAll dst src) :=
  inferInstanceAs (Decidable (_ = mpeStrs))

theorem mergeMpe_eq (dst src : Mpentry) : mergeMpe dst src =
    { wwid := dst.wwid
      str := fun s =>
        if s ∈ reached dst.str src.str mpeStrs then (dst.str s).or (src.str s) else dst.str s
      reservation :=
        if MergesAll dst src then
          if dst.reservation.source = .none ∧ src.reservation.source ≠ .none then src.reservation
          else dst.reservation
        else dst.reservation
      num := fun x => if MergesAll dst src then mergeNum (dst.num x) (src.num x) else dst.num x
      attributeFlags :=
        if MergesAll dst src then mergeNum dst.attributeFlags src.attributeFlags
        else dst.attributeFlags
      owner := fun o =>
        if MergesAll dst src then mergeNum (dst.owner o) (src.owner o) else dst.owner o } := by
  unfold mergeMpe
  rw [mergeStrs_eq nodup_mpeStrs]
  dsimp only
  by_cases hall : MergesAll dst src
  · have hdone : decide (reached dst.str src.str mpeStrs = mpeStrs) = true := decide_eq_true hall
    simp only [hdone, hall, if_true]
  · have hdone : decide (reached dst.str src.str mpeStrs = mpeStrs) = false := decide_eq_false hall
    simp only [hdone, hall, if_false]
    rfl

theorem mergeMpe_wwid (dst src : Mpentry) : (mergeMpe dst src).wwid = dst.wwid := by
  rw [mergeMpe_eq]

theorem mergeMpe_str (s : MpeStr) : (mergeMpe dst src).str s =
    if s ∈ reached dst.str src.str mpeStrs then (dst.str s).or (src.str s) else dst.str s := by
  rw [mergeMpe_eq]

theorem mergeMpe_reservation : (mergeMpe dst src).reservation =
    if MergesAll dst src then
      if dst.reservation.source = .none ∧ src.reservation.source ≠ .none then src.reservation
      else dst.reservation
    else dst.reservation := by
  rw [mergeMpe_eq]

theorem mergeMpe_num (x : MpeNum) : (mergeMpe dst src).num x =
    if MergesAll dst src then mergeNum (dst.num x) (src.num x) else dst.num x := by
  rw [mergeMpe_eq]

theorem mergeMpe_attributeFlags : (mergeMpe dst src).attributeFlags =
    if MergesAll dst src then mergeNum dst.attributeFlags src.attributeFlags
    else dst.attributeFlags := by
  rw [mergeMpe_eq]

theorem mergeMpe_owner (o : MpeOwner) : (mergeMpe dst src).owner o =
    if MergesAll dst src then mergeNum (dst.owner o) (src.owner o) else dst.owner o := by
  rw [mergeMpe_eq]

end Merge

end MultipathTools.Config
