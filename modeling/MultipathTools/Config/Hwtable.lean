import MultipathTools.Config.Merge
import MultipathTools.Features.Queueing

/-! The hardware table (`config.c`): built-in entries, then those of the configuration files. -/
namespace MultipathTools.Config

open Features

/-- The strings of `struct hwentry`, in the order of `merge_hwe`. -/
inductive HweStr where
  | vendor | product | revision | getuid | uidAttribute | features | hwhandler | selector
  | checkerName | prioName | prioArgs | aliasPrefix | blProduct
  deriving DecidableEq, Repr

def hweStrs : List HweStr :=
  [.vendor, .product, .revision, .getuid, .uidAttribute, .features, .hwhandler, .selector,
    .checkerName, .prioName, .prioArgs, .aliasPrefix, .blProduct]

/-- The numbers of `struct hwentry` that `merge_hwe` merges and does not change otherwise. -/
inductive HweNum where
  | pgpolicy | pgfailback | rrWeight | minio | minioRq | flushOnLastDel | fastIoFail | devLoss
  | userFriendlyNames | detectPrio | detectChecker | deferredRemove | delayWatchChecks
  | delayWaitChecks | skipKpartx | maxSectorsKb | ghostDelay | allTgPt | vpdVendorId
  | sanPathErrThreshold | sanPathErrForgetRate | sanPathErrRecoveryTime
  | marginalPathErrSampleTime | marginalPathErrRateThreshold | marginalPathErrRecheckGapTime
  | marginalPathDoubleFailedTime
  deriving DecidableEq, Repr

/-- `struct hwentry`. -/
structure Hwentry where
  str : HweStr → Option CStr := fun _ => none
  num : HweNum → ℤ := fun _ => 0
  retainHwhandler : RetainHwhandler := .undef
  noPathRetry : ℤ := noPathRetryUndef

/-- The strings that a device is matched against. -/
structure Ident where
  vendor : Option CStr
  product : Option CStr
  revision : Option CStr
  deriving DecidableEq, Repr

def Hwentry.ident (hwe : Hwentry) : Ident :=
  ⟨hwe.str .vendor, hwe.str .product, hwe.str .revision⟩

/-- The comparison of one string in `hwe_strmatch`. -/
def strDiffers (a b : Option CStr) : Bool :=
  (b.isSome && a.isNone) || (a.isSome && (b.isNone || a ≠ b))

/-- `hwe_strmatch`: 0 for the same strings. -/
def hweStrmatch (hwe1 hwe2 : Hwentry) : ℤ :=
  if strDiffers (hwe1.str .vendor) (hwe2.str .vendor) then 1
  else if strDiffers (hwe1.str .product) (hwe2.str .product) then 1
  else if strDiffers (hwe1.str .revision) (hwe2.str .revision) then 1
  else 0

/-- `find_hwe`, where `matches_` is `hwe_regmatch` for a device. -/
def findHwe (hwtable : List Hwentry) (matches_ : Hwentry → Bool) : List Hwentry :=
  hwtable.reverse.filter matches_

/-- `merge_hwe`. -/
def mergeHwe (dst src : Hwentry) : Hwentry :=
  let (str, done) := mergeStrs dst.str src.str hweStrs
  if done then
    let noPathRetry := mergeNum dst.noPathRetry src.noPathRetry
    let retainHwhandler :=
      if dst.retainHwhandler = .undef then src.retainHwhandler else dst.retainHwhandler
    let r := reconcileFeaturesWithOptions (str .features) noPathRetry retainHwhandler
    { str := Function.update str .features r.1
      num := fun x => mergeNum (dst.num x) (src.num x)
      noPathRetry := r.2.1
      retainHwhandler := r.2.2 }
  else { dst with str }

/-- The first entry from the slot `j` on with the strings of `hwe1`. -/
def findDuplicate (hw : List Hwentry) (hwe1 : Hwentry) (j : ℕ) : Option ℕ :=
  ((hw.drop j).findIdx? fun hwe2 => hweStrmatch hwe2 hwe1 = 0).map (j + ·)

/-- The loops of `factorize_hwtable` from slot `i` on. -/
def factorizeFrom (hw : List Hwentry) (n i : ℕ) : List Hwentry :=
  if h : i < hw.length then
    let hwe1 := hw[i]
    -- drop invalid device configs
    if n ≤ i ∧ (hwe1.str .vendor = none ∨ hwe1.str .product = none) then
      factorizeFrom (hw.eraseIdx i) n i
    else
      match findDuplicate hw hwe1 (if n > i + 1 then n else i + 1) with
      | some j =>
        -- restart
        factorizeFrom ((hw.modify j fun hwe2 => mergeHwe hwe2 hwe1).eraseIdx i)
          (if i < n then n - 1 else n) 0
      | none => factorizeFrom hw n (i + 1)
  else hw
termination_by (hw.length, hw.length - i)
decreasing_by
  · exact Prod.Lex.left _ _ (by rw [List.length_eraseIdx_of_lt h]; omega)
  · refine Prod.Lex.left _ _ ?_
    rw [List.length_eraseIdx_of_lt (by rwa [List.length_modify]), List.length_modify]
    omega
  · exact Prod.Lex.right _ (by omega)

/-- `factorize_hwtable`, with the number of built-in entries. -/
def factorizeHwtable (hw : List Hwentry) (n : ℕ) : List Hwentry :=
  factorizeFrom hw n 0

/-- The numbers that `store_hwe` copies. -/
def storedNums : List HweNum :=
  [.pgpolicy, .pgfailback, .rrWeight, .minio, .minioRq, .flushOnLastDel, .fastIoFail, .devLoss,
    .userFriendlyNames, .detectPrio, .detectChecker, .ghostDelay, .vpdVendorId]

/-- `store_hwe`, by which the built-in entries come into the table. -/
def storeHwe (hwtable : List Hwentry) (dhwe : Hwentry) : List Hwentry × ℤ :=
  if hwtable.any fun tmp => hweStrmatch tmp dhwe = 0 then (hwtable, 0)
  else if dhwe.str .vendor = none ∨ dhwe.str .product = none ∨
      ∃ s ∈ hweStrs, dhwe.str s ≠ setParamStr (dhwe.str s) then (hwtable, 1)
  else
    (hwtable ++ [{ dhwe with num := fun x => if x ∈ storedNums then dhwe.num x else 0 }], 0)

/-- An attribute that a device gets from the hardware table. -/
inductive HweAttr where
  | str (s : HweStr)
  | num (x : HweNum)
  deriving DecidableEq, Repr

/-- The attributes apart from the strings that are matched, and from `features`. -/
def HweAttr.Plain (a : HweAttr) : Prop :=
  a ∉ [.str .vendor, .str .product, .str .revision, .str .features]

instance (a : HweAttr) : Decidable a.Plain := inferInstanceAs (Decidable (a ∉ _))

/-- What an entry sets an attribute to. -/
def Hwentry.get (hwe : Hwentry) : HweAttr → Option Value
  | .str s => (hwe.str s).map .str
  | .num x => if hwe.num x = 0 then none else some (.num (hwe.num x))

/-- The value that a device gets: that of the first entry of `find_hwe` that sets the attribute. -/
def effective (hwtable : List Hwentry) (matches_ : Ident → Bool) (a : HweAttr) : Option Value :=
  (findHwe hwtable fun hwe => matches_ hwe.ident).findSome? fun hwe => hwe.get a

end MultipathTools.Config
