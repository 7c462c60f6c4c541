import MultipathTools.Base.Slots
import MultipathTools.Dict.Options

/-! The rules of the blacklists: how they are stored, matched and merged (`blacklist.c`). -/
namespace MultipathTools.Blacklist
open MultipathTools.Dict (checkInvert)

/-- The regular expressions of the C library. -/
structure Regexes where
  Regex : Type
  /-- The compiled expression, if `regcomp` takes it. -/
  regcomp : CStr → Option Regex
  /-- Zero for a match. -/
  regexec : Regex → CStr → ℤ

variable {E : Regexes}

/-- `struct blentry`. -/
structure Blentry (E : Regexes) where
  str : Option CStr
  regex : E.Regex
  invert : Bool
  origin : ℤ
  compiled : ∀ s ∈ str, E.regcomp (checkInvert s).1 = some regex ∧ invert = (checkInvert s).2

/-- One expression of a `struct blentry_device`: `vendor` with `vendor_reg` and `vendor_invert`, and
likewise for the product. There is no `reg` where `regcomp` has not filled it. -/
structure Pattern (E : Regexes) where
  str : Option CStr
  reg : Option E.Regex
  invert : Bool
  compiled : ∀ s ∈ str, ∀ r ∈ reg, E.regcomp (checkInvert s).1 = some r ∧ invert = (checkInvert s).2

structure BlentryDevice (E : Regexes) where
  vendor : Pattern E
  product : Pattern E
  origin : ℤ

/-- `store_ble`. -/
def storeBle (blist : List (Blentry E)) (str : CStr) (origin : ℤ) : ℤ × List (Blentry E) :=
  match h : E.regcomp (checkInvert str).1 with
  | none => (1, blist)
  | some regex =>
    let ble : Blentry E := ⟨some str, regex, (checkInvert str).2, origin, fun s hs => by
      obtain rfl := Option.mem_some.mp hs
      exact ⟨h, rfl⟩⟩
    (0, blist ++ [ble])

/-- An expression of an entry that `MALLOC` has zeroed. -/
def Pattern.empty : Pattern E := ⟨none, none, false, fun _ hs => nomatch hs⟩

/-- `alloc_ble_device`. -/
def allocBleDevice (blist : List (BlentryDevice E)) : List (BlentryDevice E) :=
  blist ++ [⟨.empty, .empty, 0⟩]

/-- `check_invert` and `regcomp` in `set_ble_device`: whether the string has been compiled. If not,
the string from before stays. -/
def Pattern.set (p : Pattern E) (str : CStr) : Bool × Pattern E :=
  match h : E.regcomp (checkInvert str).1 with
  | none => (false, ⟨p.str, none, (checkInvert str).2, fun _ _ _ hr => nomatch hr⟩)
  | some regex => (true, ⟨some str, some regex, (checkInvert str).2, fun s hs r hr => by
      obtain rfl := Option.mem_some.mp hs
      obtain rfl := Option.mem_some.mp hr
      exact ⟨h, rfl⟩⟩)

/-- The string and the compiled expression are freed. -/
def Pattern.clear (p : Pattern E) : Pattern E := ⟨none, none, p.invert, fun _ hs => nomatch hs⟩

/-- `set_ble_device`, for the last entry. -/
def setBleDevice (ble : BlentryDevice E) (vendor product : Option CStr) (origin : ℤ) :
    ℤ × BlentryDevice E :=
  let v := vendor.elim (true, ble.vendor) ble.vendor.set
  if v.1 then
    let p := product.elim (true, ble.product) ble.product.set
    if p.1 then (0, ⟨v.2, p.2, origin⟩)
    else (1, ⟨if vendor.isSome then v.2.clear else v.2, p.2, ble.origin⟩)
  else (1, { ble with vendor := v.2 })

/-- `!!regexec(reg, str, 0, NULL, 0) == invert`. -/
def hits (reg : E.Regex) (invert : Bool) (str : CStr) : Bool := (E.regexec reg str != 0) == invert

/-- `match_reglist`. -/
def matchReglist (blist : List (Blentry E)) (str : CStr) : Bool :=
  blist.any fun ble => hits ble.regex ble.invert str

/-- `!ble->vendor` or a match, and likewise for the product. There is no result of `regexec` where
`regcomp` has not filled the expression. -/
def Pattern.test (p : Pattern E) (str : CStr) : Option Bool :=
  if p.str.isNone then some true else p.reg.map fun r => hits r p.invert str

/-- The body of the loop in `match_reglist_device`. -/
def BlentryDevice.test (ble : BlentryDevice E) (vendor product : CStr) : Option Bool :=
  if ble.vendor.str.isNone ∧ ble.product.str.isNone then some false
  else
    (ble.vendor.test vendor).bind fun v =>
      if v then ble.product.test product else some false

/-- `match_reglist_device`. -/
def matchReglistDevice (blist : List (BlentryDevice E)) (vendor product : CStr) : Option Bool :=
  firstHit (fun ble => ble.test vendor product) blist

/-- Both strings are there, and `strcmp` finds no difference. -/
def sameStr (bl1 bl2 : Blentry E) : Bool := bl1.str.isSome ∧ bl1.str = bl2.str

/-- `merge_blacklist`. -/
def mergeBlacklist (blist : List (Blentry E)) : List (Blentry E) := distinctSlots sameStr 0 blist

/-- The body of the first loop of `merge_blacklist_device`. -/
def deleteEmpty (s : Unit) (ble : BlentryDevice E) : Unit × Option (BlentryDevice E) :=
  (s, if ble.vendor.str.isNone ∧ ble.product.str.isNone then none else some ble)

/-- Neither comparison in the second loop of `merge_blacklist_device` makes it continue. -/
def sameDevice (bl1 bl2 : BlentryDevice E) : Bool :=
  bl1.vendor.str = bl2.vendor.str ∧ bl1.product.str = bl2.product.str

/-- `merge_blacklist_device`. -/
def mergeBlacklistDevice (blist : List (BlentryDevice E)) : List (BlentryDevice E) :=
  distinctSlots sameDevice 0 (foreachSlot deleteEmpty 0 blist ()).2

end MultipathTools.Blacklist

/-! Merging the blacklists keeps what they decide (`blacklist.c`). -/
namespace MultipathTools.Blacklist
open MultipathTools.Dict (checkInvert)

variable {E : Regexes}

section Ready

/-- The expressions that are compared have been compiled. -/
def Pattern.Ready (p : Pattern E) : Prop := p.str.isSome → p.reg.isSome

def BlentryDevice.Ready (ble : BlentryDevice E) : Prop := ble.vendor.Ready ∧ ble.product.Ready

theorem Pattern.set_ready {p : Pattern E} {str : CStr} (h : (p.set str).1 = true) :
    (p.set str).2.Ready := by
  unfold Pattern.set at h ⊢
  split at h
  · cases h
  · intro _
    rfl

/-- An entry is ready after all calls of `set_ble_device` that succeed. -/
theorem setBleDevice_ready {ble : BlentryDevice E} {vendor product : Option CStr} {origin : ℤ}
    (hready : ble.Ready) (h : (setBleDevice ble vendor product origin).1 = 0) :
    (setBleDevice ble vendor product origin).2.Ready := by
  have hset (p : Pattern E) (hp : p.Ready) (str : Option CStr)
      (hok : (str.elim (true, p) p.set).1 = true) : (str.elim (true, p) p.set).2.Ready := by
    cases str with
    | none => exact hp
    | some s => exact Pattern.set_ready hok
  unfold setBleDevice at h ⊢
  dsimp only at h ⊢
  by_cases hv : (vendor.elim (true, ble.vendor) ble.vendor.set).1 = true
  · by_cases hp : (product.elim (true, ble.product) ble.product.set).1 = true
    · rw [if_pos hv, if_pos hp]
      exact ⟨hset _ hready.1 vendor hv, hset _ hready.2 product hp⟩
    · rw [if_pos hv, if_neg hp] at h
      cases h
  · rw [if_neg hv] at h
    cases h

theorem allocBleDevice_ready {blist : List (BlentryDevice E)} (h : ∀ ble ∈ blist, ble.Ready) :
    ∀ ble ∈ allocBleDevice blist, ble.Ready := by
  intro ble hble
  rcases List.mem_append.mp hble with hble | hble
  · exact h ble hble
  · obtain rfl := List.mem_singleton.mp hble
    have hempty : (Pattern.empty : Pattern E).Ready := fun hstr => nomatch hstr
    exact ⟨hempty, hempty⟩

theorem Pattern.Ready.test_isSome {p : Pattern E} (h : p.Ready) (str : CStr) :
    (p.test str).isSome := by
  unfold Pattern.test
  split_ifs with hstr
  · rfl
  · rw [Option.isSome_map]
    exact h (by simpa [← Option.isSome_iff_ne_none] using hstr)

theorem BlentryDevice.Ready.test_isSome {ble : BlentryDevice E} (h : ble.Ready)
    (vendor product : CStr) : (ble.test vendor product).isSome := by
  obtain ⟨v, hv⟩ := Option.isSome_iff_exists.mp (h.1.test_isSome vendor)
  unfold BlentryDevice.test
  rw [hv, Option.bind_some]
  split_ifs
  · rfl
  · exact h.2.test_isSome product
  · rfl

theorem matchReglistDevice_isSome {blist : List (BlentryDevice E)} (h : ∀ ble ∈ blist, ble.Ready)
    (vendor product : CStr) : (matchReglistDevice blist vendor product).isSome := by
  unfold matchReglistDevice
  induction blist with
  | nil => rfl
  | cons ble blist ih =>
    obtain ⟨b, hb⟩ := Option.isSome_iff_exists.mp
      ((h ble (List.mem_cons_self ..)).test_isSome vendor product)
    rw [firstHit, hb]
    cases b with
    | true => rfl
    | false => exact ih fun ble hble => h ble (List.mem_cons_of_mem _ hble)

end Ready

section Same

/-- Expressions of the same string match the same strings. -/
theorem hits_eq_of_sameStr {bl1 bl2 : Blentry E} (h : sameStr bl1 bl2 = true) (str : CStr) :
    hits bl2.regex bl2.invert str = hits bl1.regex bl1.invert str := by
  obtain ⟨hsome, heq⟩ := of_decide_eq_true h
  obtain ⟨s, hs⟩ := Option.isSome_iff_exists.mp hsome
  obtain ⟨hc1, hi1⟩ := bl1.compiled s hs
  obtain ⟨hc2, hi2⟩ := bl2.compiled s (heq ▸ hs)
  have hregex : bl2.regex = bl1.regex := Option.some.inj (hc2.symm.trans hc1)
  rw [hregex, hi1, hi2]

theorem Pattern.test_eq_of_str_eq {p q : Pattern E} (h : p.str = q.str) {str : CStr} {b c : Bool}
    (hp : p.test str = some b) (hq : q.test str = some c) : c = b := by
  unfold Pattern.test at hp hq
  rw [h] at hp
  cases hs : q.str with
  | none =>
    rw [hs] at hp hq
    exact (Option.some.inj hq).symm.trans (Option.some.inj hp)
  | some s =>
    rw [hs] at hp hq h
    obtain ⟨r, hr, rfl⟩ := Option.map_eq_some_iff.mp hp
    obtain ⟨t, ht, rfl⟩ := Option.map_eq_some_iff.mp hq
    obtain ⟨hc1, hi1⟩ := p.compiled s h r hr
    obtain ⟨hc2, hi2⟩ := q.compiled s hs t ht
    have hreg : t = r := Option.some.inj (hc2.symm.trans hc1)
    rw [hreg, hi1, hi2]

/-- A rule with the strings of one that does not match does not match. -/
theorem test_of_sameDevice {bl1 bl2 : BlentryDevice E} (h : sameDevice bl1 bl2 = true)
    {vendor product : CStr} (h1 : bl1.test vendor product = some false) {c : Bool}
    (h2 : bl2.test vendor product = some c) : c = false := by
  obtain ⟨hvendor, hproduct⟩ := of_decide_eq_true h
  unfold BlentryDevice.test at h1 h2
  rw [hvendor, hproduct] at h1
  split_ifs at h1 h2 with hempty
  · exact (Option.some.inj h2).symm
  · obtain ⟨v1, hv1, hp1⟩ := Option.bind_eq_some_iff.mp h1
    obtain ⟨v2, hv2, hp2⟩ := Option.bind_eq_some_iff.mp h2
    obtain rfl := Pattern.test_eq_of_str_eq hvendor hv1 hv2
    split_ifs at hp1 hp2 with hv
    · exact Pattern.test_eq_of_str_eq hproduct hp1 hp2
    · exact (Option.some.inj hp2).symm

end Same

section Merging

theorem matchReglist_eq (blist : List (Blentry E)) (str : CStr) :
    firstHit (fun ble => some (hits ble.regex ble.invert str)) blist =
      some (matchReglist blist str) := by
  induction blist with
  | nil => rfl
  | cons ble blist ih =>
    rw [firstHit, matchReglist, List.any_cons]
    cases hits ble.regex ble.invert str with
    | true => rfl
    | false => exact ih

theorem matchReglist_mergeBlacklist (blist : List (Blentry E)) (str : CStr) :
    matchReglist (mergeBlacklist blist) str = matchReglist blist str := by
  have hmerged := @firstHit_distinct _ sameStr _ _ _ (fun a b hab ha c hc => by
    have hb : hits b.regex b.invert str = c := Option.some.inj hc
    have ha : hits a.regex a.invert str = false := Option.some.inj ha
    rw [← hb, hits_eq_of_sameStr hab, ha]) (matchReglist_eq blist str)
  rw [matchReglist_eq] at hmerged
  rw [mergeBlacklist, distinctSlots_eq]
  exact Option.some.inj hmerged

/-- The rules with a vendor or a product. -/
def nonempty (blist : List (BlentryDevice E)) : List (BlentryDevice E) :=
  blist.filter fun ble => ¬ (ble.vendor.str.isNone ∧ ble.product.str.isNone)

theorem sweep_deleteEmpty (blist : List (BlentryDevice E)) (s : Unit) :
    (sweep deleteEmpty blist s).2 = nonempty blist := by
  unfold nonempty
  induction blist generalizing s with
  | nil => rfl
  | cons ble blist ih =>
    rw [sweep, deleteEmpty, ih]
    by_cases h : ble.vendor.str.isNone ∧ ble.product.str.isNone
    · rw [if_pos h, List.filter_cons_of_neg (by simp [h])]
      rfl
    · have hkept : decide (¬ (ble.vendor.str.isNone ∧ ble.product.str.isNone)) = true :=
        decide_eq_true h
      rw [if_neg h, List.filter_cons, if_pos hkept]
      rfl

theorem mergeBlacklistDevice_eq (blist : List (BlentryDevice E)) :
    mergeBlacklistDevice blist = distinct sameDevice (nonempty blist) := by
  rw [mergeBlacklistDevice, distinctSlots_eq, foreachSlot_eq, sweep_deleteEmpty]

theorem matchReglistDevice_mergeBlacklistDevice {blist : List (BlentryDevice E)}
    {vendor product : CStr} {answer : Bool}
    (h : matchReglistDevice blist vendor product = some answer) :
    matchReglistDevice (mergeBlacklistDevice blist) vendor product = some answer := by
  rw [mergeBlacklistDevice_eq]
  refine firstHit_distinct (fun _ _ hsame ha _ hb => test_of_sameDevice hsame ha hb) ?_
  refine firstHit_filter (fun ble _ hempty b hb => ?_) h
  have hboth : ble.vendor.str.isNone ∧ ble.product.str.isNone :=
    not_not.mp (of_decide_eq_false hempty)
  unfold BlentryDevice.test at hb
  rw [if_pos hboth] at hb
  exact (Option.some.inj hb).symm

/-- Every answer stays, no two rules have the same strings, and no rule for devices is without a
vendor and a product. -/
theorem merged_keeps_decisions (blist : List (Blentry E)) (devices : List (BlentryDevice E)) :
    (∀ str, matchReglist (mergeBlacklist blist) str = matchReglist blist str) ∧
    (∀ vendor product answer, matchReglistDevice devices vendor product = some answer →
      matchReglistDevice (mergeBlacklistDevice devices) vendor product = some answer) ∧
    ((mergeBlacklist blist).Pairwise fun bl1 bl2 => bl1.str.isSome → bl1.str ≠ bl2.str) ∧
    ((mergeBlacklistDevice devices).Pairwise fun bl1 bl2 =>
      bl1.vendor.str ≠ bl2.vendor.str ∨ bl1.product.str ≠ bl2.product.str) ∧
    ∀ ble ∈ mergeBlacklistDevice devices, ble.vendor.str.isSome ∨ ble.product.str.isSome := by
  refine ⟨matchReglist_mergeBlacklist blist,
    fun _ _ _ => matchReglistDevice_mergeBlacklistDevice, ?_, ?_, ?_⟩
  · rw [mergeBlacklist, distinctSlots_eq]
    refine (distinct_pairwise blist).imp fun hne hsome heq => ?_
    exact of_decide_eq_false hne ⟨hsome, heq⟩
  · rw [mergeBlacklistDevice_eq]
    refine (distinct_pairwise _).imp fun hne => ?_
    exact not_and_or.mp (of_decide_eq_false hne)
  · intro ble hble
    rw [mergeBlacklistDevice_eq] at hble
    have hkept := (List.mem_filter.mp ((distinct_sublist _).subset hble)).2
    have hnot : ¬ (ble.vendor.str.isNone ∧ ble.product.str.isNone) := of_decide_eq_true hkept
    rw [not_and_or] at hnot
    simpa [Option.isSome_iff_ne_none] using hnot

end Merging

end MultipathTools.Blacklist
