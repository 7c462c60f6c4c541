import Mathlib.Data.List.TakeWhile
import Mathlib.Logic.Function.Basic
import MultipathTools.Base.CString

/-! The merging of two configuration sections by `merge_str` and `merge_num` (`config.c`). -/
namespace MultipathTools.Config

/-- What a section sets an attribute to. -/
inductive Value where
  | str (s : CStr)
  | num (n : ℤ)
  deriving DecidableEq, Repr

/-- `set_param_str`: a copy, but none of an empty string. -/
def setParamStr : Option CStr → Option CStr
  | some (c :: s) => some (c :: s)
  | _ => none

/-- `merge_num`: 0 is unset. -/
def mergeNum {α : Type*} [Zero α] [DecidableEq α] (dst src : α) : α :=
  if dst = 0 ∧ src ≠ 0 then src else dst

section Numbers

variable {α : Type*} [Zero α] [DecidableEq α] {dst src : α}

theorem mergeNum_of_ne (h : dst ≠ 0) : mergeNum dst src = dst := if_neg fun hand => h hand.1

theorem mergeNum_zero (src : α) : mergeNum 0 src = src := by
  unfold mergeNum
  split_ifs with h
  · rfl
  · exact (not_not.mp fun hne => h ⟨rfl, hne⟩).symm

/-- As values that may be set. -/
theorem mergeNum_or {β : Type*} (f : α → β) : (if mergeNum dst src = 0 then none else
    some (f (mergeNum dst src))) =
    (if dst = 0 then none else some (f dst)).or (if src = 0 then none else some (f src)) := by
  by_cases h : dst = 0
  · subst h
    rw [mergeNum_zero, if_pos rfl, Option.none_or]
  · rw [mergeNum_of_ne h, if_neg h, Option.some_or]

end Numbers

section Strings

variable {σ : Type*}

/-- `merge_str` for one attribute after the other, and whether the end is reached: a string that
`set_param_str` does not copy makes the function return. -/
def mergeStrs [DecidableEq σ] (dst src : σ → Option CStr) : List σ → (σ → Option CStr) × Bool
  | [] => (dst, true)
  | s :: ss =>
    if dst s = none ∧ src s ≠ none then
      match setParamStr (src s) with
      | some v => mergeStrs (Function.update dst s (some v)) src ss
      | none => (dst, false)
    else mergeStrs dst src ss

/-- The attributes that `merge_str` comes to. It stops at one that is empty in the source and not
set in the destination. -/
def reached (dst src : σ → Option CStr) (ss : List σ) : List σ :=
  ss.takeWhile fun s => dst s ≠ none ∨ src s ≠ some []

variable {dst src : σ → Option CStr} {ss : List σ}

theorem setParamStr_of_ne {v : Option CStr} (h : v ≠ some []) : setParamStr v = v := by
  match v, h with
  | none, _ => rfl
  | some [], h => exact absurd rfl h
  | some (_ :: _), _ => rfl

theorem reached_congr {src' : σ → Option CStr} (h : ∀ s, src s = some [] ↔ src' s = some []) :
    reached dst src ss = reached dst src' ss := by
  simp only [reached, ne_eq, h]

theorem reached_cons {s : σ} (h : dst s ≠ none ∨ src s ≠ some []) :
    reached dst src (s :: ss) = s :: reached dst src ss :=
  List.takeWhile_cons_of_pos (decide_eq_true h)

theorem reached_cons_empty {s : σ} (hdst : dst s = none) (hsrc : src s = some []) :
    reached dst src (s :: ss) = [] := by
  refine List.takeWhile_cons_of_neg fun h => ?_
  rcases of_decide_eq_true h with hd | hs
  · exact hd hdst
  · exact hs hsrc

theorem reached_subset : reached dst src ss ⊆ ss := (List.takeWhile_sublist _).subset

theorem of_mem_reached {s : σ} (h : s ∈ reached dst src ss) : dst s ≠ none ∨ src s ≠ some [] := by
  have hp := List.mem_takeWhile_imp h
  exact of_decide_eq_true hp

variable [DecidableEq σ]

theorem reached_update {s : σ} {v : Option CStr} (hs : s ∉ ss) :
    reached (Function.update dst s v) src ss = reached dst src ss := by
  induction ss with
  | nil => rfl
  | cons t ss ih =>
    obtain ⟨hne, hnot⟩ := not_or.mp (List.mem_cons.not.mp hs)
    have htail := ih hnot
    unfold reached at htail ⊢
    rw [List.takeWhile_cons, List.takeWhile_cons, Function.update_of_ne (Ne.symm hne), htail]

/-- A merged string that is empty is one of the destination. -/
theorem merged_eq_nil {s : σ} : (if s ∈ reached dst src ss then (dst s).or (src s) else dst s) =
    some [] ↔ dst s = some [] := by
  split_ifs with hs
  · have hset := of_mem_reached hs
    cases hd : dst s with
    | some v => rfl
    | none =>
      rw [Option.none_or]
      exact iff_of_false (hset.resolve_left fun h => h hd) nofun
  · exact Iff.rfl

/-- The merged strings: what is not set is taken from the source, as far as `merge_str` comes. -/
theorem mergeStrs_eq (hss : ss.Nodup) : mergeStrs dst src ss =
    (fun s => if s ∈ reached dst src ss then (dst s).or (src s) else dst s,
      decide (reached dst src ss = ss)) := by
  induction ss generalizing dst with
  | nil => simp [mergeStrs, reached]
  | cons t ss ih =>
    obtain ⟨hnot, hnodup⟩ := List.nodup_cons.mp hss
    have htail : t ∉ reached dst src ss := fun h => hnot (reached_subset h)
    unfold mergeStrs
    split_ifs with hset
    · by_cases hempty : src t = some []
      · rw [hempty, reached_cons_empty hset.1 hempty]
        simp [setParamStr]
      · obtain ⟨v, hv⟩ := Option.ne_none_iff_exists'.mp hset.2
        rw [setParamStr_of_ne hempty, hv, reached_cons (.inr hempty)]
        dsimp only
        rw [ih hnodup, reached_update hnot]
        refine Prod.ext (funext fun s => ?_) (by simp)
        by_cases hs : s = t
        · subst hs
          simp [htail, hset.1, hv]
        · simp [hs]
    · have hkeep : (dst t).or (src t) = dst t := by
        cases hd : dst t with
        | some v => rfl
        | none =>
          rw [Option.none_or]
          exact not_not.mp fun hs => hset ⟨hd, hs⟩
      have hcons : dst t ≠ none ∨ src t ≠ some [] := by
        by_contra hno
        obtain ⟨hd, hs⟩ := not_or.mp hno
        exact hset ⟨not_not.mp hd, by rw [not_not.mp hs]; exact Option.some_ne_none _⟩
      rw [ih hnodup, reached_cons hcons]
      refine Prod.ext (funext fun s => ?_) (by simp)
      by_cases hs : s = t
      · subst hs
        simp [htail, hkeep]
      · simp [hs]

end Strings

end MultipathTools.Config
