import MultipathTools.Base.Numeral
import MultipathTools.Structs

/-! How `sysfs_set_scsi_tmo` of `discovery.c` adjusts `dev_loss` and `fast_io_fail`, before it
writes them for the paths of the map. -/
namespace MultipathTools.Discovery

def fastIoFailUnset : ℤ := 0
def fastIoFailOff : ℤ := -1
def fastIoFailZero : ℤ := -2
def devLossTmoUnset : ℤ := 0
def maxDevLossTmo : ℤ := uintMax

/-- A value of type `unsigned int`. -/
def IsUint (x : ℤ) : Prop := 0 ≤ x ∧ x ≤ uintMax

instance (x : ℤ) : Decidable (IsUint x) := inferInstanceAs (Decidable (_ ∧ _))

/-- Conversion to `unsigned int`. -/
def toUint (x : ℤ) : ℤ := x % 2 ^ 32

/-- `struct multipath`, with the timeouts and what they depend on. -/
structure TmoMultipath where
  devLoss : ℤ := devLossTmoUnset
  fastIoFail : ℤ := fastIoFailUnset
  noPathRetry : ℤ := noPathRetryUndef
  deriving DecidableEq, Repr

/-- The variable `dev_loss_tmo`: at least as long as queueing may go on. -/
def devLossTmo (mpp : TmoMultipath) (checkint : ℤ) : ℤ :=
  if mpp.noPathRetry > 0 then
    let noPathRetryTmo := mpp.noPathRetry * checkint
    let noPathRetryTmo := if noPathRetryTmo > maxDevLossTmo then maxDevLossTmo else noPathRetryTmo
    if noPathRetryTmo > mpp.devLoss then noPathRetryTmo else mpp.devLoss
  else if mpp.noPathRetry = noPathRetryQueue then maxDevLossTmo
  else mpp.devLoss

/-- `sysfs_set_scsi_tmo`, up to the loop over the paths. The product has 64 bits, which are
enough. -/
def adjustTmo (mpp : TmoMultipath) (checkint : ℤ) : TmoMultipath :=
  let devLossTmo := devLossTmo mpp checkint
  let mpp :=
    if mpp.devLoss ≠ devLossTmoUnset ∧ mpp.devLoss ≠ devLossTmo then
      { mpp with devLoss := devLossTmo }
    else mpp
  if mpp.devLoss ≠ devLossTmoUnset ∧ mpp.fastIoFail ≠ fastIoFailUnset ∧
      toUint mpp.fastIoFail ≥ mpp.devLoss then
    { mpp with fastIoFail := fastIoFailOff }
  else mpp

/-- The values that the fields can have: `fast_io_fail` is unset, off, zero or a number of
seconds. -/
structure TmoMultipath.Valid (mpp : TmoMultipath) : Prop where
  devLoss : IsUint mpp.devLoss
  fastIoFail : fastIoFailZero ≤ mpp.fastIoFail ∧ mpp.fastIoFail ≤ intMax
  noPathRetry : IsInt mpp.noPathRetry

/-- The number of seconds that a setting stands for. -/
def effectiveSeconds (fastIoFail : ℤ) : ℤ :=
  if fastIoFail = fastIoFailZero then 0 else fastIoFail

/-- How long a map may queue without paths, as far as `dev_loss` can be as long. -/
def queueingTime (mpp : TmoMultipath) (checkint : ℤ) : ℤ :=
  if mpp.noPathRetry = noPathRetryQueue then maxDevLossTmo
  else min (mpp.noPathRetry * checkint) maxDevLossTmo

/-- The timeouts `after` are consistent, and `fast_io_fail` is off only if it had to be. -/
structure Consistent (mpp after : TmoMultipath) (checkint : ℤ) : Prop where
  devLoss : after.devLoss ≠ devLossTmoUnset → queueingTime mpp checkint ≤ after.devLoss
  fastIoFail : after.fastIoFail = fastIoFailOff ↔ mpp.fastIoFail = fastIoFailOff ∨
    mpp.fastIoFail ≠ fastIoFailUnset ∧ mpp.devLoss ≠ devLossTmoUnset ∧
      after.devLoss ≤ effectiveSeconds mpp.fastIoFail

section Adjust

variable {mpp : TmoMultipath} {checkint : ℤ}

theorem toUint_of_nonneg {x : ℤ} (h : 0 ≤ x) (hx : x ≤ intMax) : toUint x = x := by
  unfold intMax at hx
  unfold toUint
  omega

/-- The special values are the largest numbers of seconds as `unsigned int`. -/
theorem toUint_zero : toUint fastIoFailZero = maxDevLossTmo - 1 := by decide

theorem devLossTmo_ge (h : mpp.Valid) : mpp.devLoss ≤ devLossTmo mpp checkint := by
  have hmax := h.devLoss.2
  unfold devLossTmo
  dsimp only
  split_ifs
  · omega
  · exact le_refl _
  · omega
  · exact le_refl _
  · exact hmax
  · exact le_refl _

theorem devLossTmo_le (h : mpp.Valid) : devLossTmo mpp checkint ≤ maxDevLossTmo := by
  have hmax : mpp.devLoss ≤ maxDevLossTmo := h.devLoss.2
  unfold devLossTmo
  dsimp only
  split_ifs <;> omega

theorem queueingTime_le_devLossTmo (h : mpp.Valid) (hc : IsUint checkint) :
    queueingTime mpp checkint ≤ devLossTmo mpp checkint := by
  unfold queueingTime devLossTmo
  dsimp only
  by_cases hpos : mpp.noPathRetry > 0
  · have hqueue : ¬ mpp.noPathRetry = noPathRetryQueue := by
      unfold noPathRetryQueue
      omega
    rw [if_neg hqueue, if_pos hpos]
    split_ifs <;> omega
  · rw [if_neg hpos]
    by_cases hqueue : mpp.noPathRetry = noPathRetryQueue
    · rw [if_pos hqueue, if_pos hqueue]
    · rw [if_neg hqueue, if_neg hqueue]
      have hproduct : mpp.noPathRetry * checkint ≤ 0 :=
        mul_nonpos_of_nonpos_of_nonneg (not_lt.mp hpos) hc.1
      exact (min_le_left _ _).trans (hproduct.trans h.devLoss.1)

/-- The largest timeout is reached only from the largest setting, or to queue as long. -/
theorem devLossTmo_eq_max_iff (h : mpp.Valid) :
    devLossTmo mpp checkint = maxDevLossTmo ↔ mpp.devLoss = maxDevLossTmo ∨
      mpp.noPathRetry = noPathRetryQueue ∨
        0 < mpp.noPathRetry ∧ maxDevLossTmo ≤ mpp.noPathRetry * checkint := by
  have hmax : mpp.devLoss ≤ maxDevLossTmo := h.devLoss.2
  unfold devLossTmo
  dsimp only
  by_cases hpos : mpp.noPathRetry > 0
  · have hqueue : ¬ mpp.noPathRetry = noPathRetryQueue := by
      unfold noPathRetryQueue
      omega
    rw [if_pos hpos]
    split_ifs <;> omega
  · rw [if_neg hpos]
    split_ifs <;> omega

/-- The timeout `dev_loss` stays unset, or gets long enough. -/
theorem adjustTmo_devLoss :
    (adjustTmo mpp checkint).devLoss =
      if mpp.devLoss = devLossTmoUnset then devLossTmoUnset else devLossTmo mpp checkint := by
  unfold adjustTmo
  dsimp only
  by_cases hunset : mpp.devLoss = devLossTmoUnset
  · simp [hunset]
  · by_cases hsame : mpp.devLoss = devLossTmo mpp checkint
    · simp [← hsame, hunset, apply_ite TmoMultipath.devLoss]
    · simp [hsame, hunset, apply_ite TmoMultipath.devLoss]

/-- `fast_io_fail` is turned off if it is not smaller, as an `unsigned int`. -/
theorem adjustTmo_fastIoFail (h : mpp.Valid) :
    (adjustTmo mpp checkint).fastIoFail =
      if mpp.devLoss ≠ devLossTmoUnset ∧ mpp.fastIoFail ≠ fastIoFailUnset ∧
        devLossTmo mpp checkint ≤ toUint mpp.fastIoFail then fastIoFailOff
      else mpp.fastIoFail := by
  have hge := @devLossTmo_ge mpp checkint h
  have hpos := h.devLoss.1
  unfold adjustTmo
  dsimp only
  by_cases hunset : mpp.devLoss = devLossTmoUnset
  · simp [hunset]
  · have hset : devLossTmo mpp checkint ≠ devLossTmoUnset := by
      unfold devLossTmoUnset at hunset ⊢
      omega
    by_cases hsame : mpp.devLoss = devLossTmo mpp checkint
    · simp [← hsame, hunset, apply_ite TmoMultipath.fastIoFail]
    · simp [hsame, hset, hunset, apply_ite TmoMultipath.fastIoFail]

/-- As an `unsigned int`, the special value for zero is taken for many seconds, the numbers of
seconds are what they are. -/
theorem off_iff_of_ne (h : mpp.Valid) (hoff : mpp.fastIoFail ≠ fastIoFailOff) {d : ℤ}
    (hd : 0 < d) (hdmax : d ≤ maxDevLossTmo) :
    ((mpp.fastIoFail ≠ fastIoFailUnset ∧ d ≤ toUint mpp.fastIoFail) ↔
      mpp.fastIoFail ≠ fastIoFailUnset ∧ d ≤ effectiveSeconds mpp.fastIoFail) ↔
      mpp.fastIoFail ≠ fastIoFailZero ∨ d = maxDevLossTmo := by
  by_cases hzero : mpp.fastIoFail = fastIoFailZero
  · have hunset : fastIoFailZero ≠ fastIoFailUnset := by decide
    rw [hzero, toUint_zero, effectiveSeconds, if_pos rfl]
    constructor
    · intro hiff
      right
      by_contra hmax
      have hle := (hiff.mp ⟨hunset, by omega⟩).2
      omega
    · intro hor
      have hmax := hor.resolve_left fun hne => hne rfl
      apply iff_of_false
      · rintro ⟨-, hle⟩
        omega
      · rintro ⟨-, hle⟩
        omega
  · have hnonneg : 0 ≤ mpp.fastIoFail := by
      have hlow := h.fastIoFail.1
      unfold fastIoFailZero at hlow hzero
      unfold fastIoFailOff at hoff
      omega
    rw [toUint_of_nonneg hnonneg h.fastIoFail.2, effectiveSeconds, if_neg hzero]
    exact iff_of_true Iff.rfl (Or.inl hzero)

/-- The timeouts get consistent exactly if `fast_io_fail` is not the special value for zero, or
`dev_loss` is unset or gets the largest value. -/
theorem adjustTmo_consistent_iff (h : mpp.Valid) (hc : IsUint checkint) :
    Consistent mpp (adjustTmo mpp checkint) checkint ↔
      mpp.fastIoFail ≠ fastIoFailZero ∨ mpp.devLoss = devLossTmoUnset ∨
        mpp.devLoss = maxDevLossTmo ∨ mpp.noPathRetry = noPathRetryQueue ∨
        0 < mpp.noPathRetry ∧ maxDevLossTmo ≤ mpp.noPathRetry * checkint := by
  have hfast := @adjustTmo_fastIoFail mpp checkint h
  have hloss := @adjustTmo_devLoss mpp checkint
  have hqueue : (adjustTmo mpp checkint).devLoss ≠ devLossTmoUnset →
      queueingTime mpp checkint ≤ (adjustTmo mpp checkint).devLoss := by
    intro hset
    rw [hloss] at hset ⊢
    split_ifs at hset ⊢
    · exact absurd rfl hset
    · exact queueingTime_le_devLossTmo h hc
  have hparts : Consistent mpp (adjustTmo mpp checkint) checkint ↔
      ((adjustTmo mpp checkint).fastIoFail = fastIoFailOff ↔ mpp.fastIoFail = fastIoFailOff ∨
        mpp.fastIoFail ≠ fastIoFailUnset ∧ mpp.devLoss ≠ devLossTmoUnset ∧
          (adjustTmo mpp checkint).devLoss ≤ effectiveSeconds mpp.fastIoFail) :=
    ⟨fun hcons => hcons.fastIoFail, fun hiff => ⟨hqueue, hiff⟩⟩
  rw [hparts, hfast, hloss]
  by_cases hunset : mpp.devLoss = devLossTmoUnset
  · simp [hunset]
  · have hd : 0 < devLossTmo mpp checkint := by
      have hge := @devLossTmo_ge mpp checkint h
      have hnonneg := h.devLoss.1
      unfold devLossTmoUnset at hunset
      omega
    by_cases hoff : mpp.fastIoFail = fastIoFailOff
    · have hne : fastIoFailOff ≠ fastIoFailZero := by decide
      simp [hoff, hne]
    · have hiff := off_iff_of_ne h hoff hd (devLossTmo_le h)
      rw [devLossTmo_eq_max_iff h] at hiff
      rw [if_neg hunset]
      simp only [hunset, hoff, ne_eq, not_false_eq_true, true_and, false_or] at hiff ⊢
      rw [← hiff]
      apply iff_congr _ Iff.rfl
      by_cases hturn : ¬mpp.fastIoFail = fastIoFailUnset ∧
          devLossTmo mpp checkint ≤ toUint mpp.fastIoFail
      · rw [if_pos hturn]
        exact iff_of_true rfl hturn
      · rw [if_neg hturn]
        exact iff_of_false hoff hturn

theorem adjustTmo_consistent_iff_queue :
    Consistent { devLoss := 600, fastIoFail := 5, noPathRetry := noPathRetryQueue }
        (adjustTmo { devLoss := 600, fastIoFail := 5, noPathRetry := noPathRetryQueue } 5) 5 ↔
      (5 : ℤ) ≠ fastIoFailZero ∨ (600 : ℤ) = devLossTmoUnset ∨ (600 : ℤ) = maxDevLossTmo ∨
        noPathRetryQueue = noPathRetryQueue ∨
        0 < noPathRetryQueue ∧ maxDevLossTmo ≤ noPathRetryQueue * 5 :=
  adjustTmo_consistent_iff ⟨by decide, by decide, by decide⟩ (by decide)

/-- Zero seconds are less than 600, but `fast_io_fail` is turned off. -/
theorem adjustTmo_consistent_fails :
    TmoMultipath.Valid { devLoss := 600, fastIoFail := fastIoFailZero } ∧
      (adjustTmo { devLoss := 600, fastIoFail := fastIoFailZero } 5).fastIoFail = fastIoFailOff ∧
      ¬ Consistent { devLoss := 600, fastIoFail := fastIoFailZero }
        (adjustTmo { devLoss := 600, fastIoFail := fastIoFailZero } 5) 5 := by
  refine ⟨⟨by decide, by decide, by decide⟩, by decide, fun h => ?_⟩
  have hoff := h.fastIoFail.mp (by decide)
  exact absurd hoff (by decide)

end Adjust

end MultipathTools.Discovery
