import Mathlib.Data.List.Nodup
import Mathlib.Data.List.Perm.Subperm
import MultipathTools.Uevents.Order

/-! No event is lost or duplicated when the queue is filtered and merged. -/
namespace MultipathTools.Uevents

/-- An event as `uevent_prepare` leaves it in the queue. -/
def prepared (conf : UeventConfig) (uev : Uevent) : Uevent :=
  if !isDm uev.kernel ∧ ueventNeedMerge conf then ueventGetWwid conf uev else uev

/-- The events of the queue and of its merge lists. -/
def held (nodes : List Node) : List Uevent := nodes.flatMap fun node => node.uev :: node.mergeNode

/-- A later event of the same path makes an earlier one superfluous. -/
def Supersedes (later earlier : Uevent) : Prop :=
  earlier.arrival < later.arrival ∧ earlier.kernel = later.kernel ∧ isDm later.kernel = false ∧
    (later.action = "remove".toList ∨
      later.action = "add".toList ∧ earlier.action = "change".toList)

section Walk
variable {conf : UeventConfig} {later : Uevent}

theorem supersedes_of_canFilter {earlier : Uevent} (hlt : earlier.arrival < later.arrival)
    (h : ueventCanFilter earlier later = true) : Supersedes later earlier := by
  unfold ueventCanFilter at h
  unfold Supersedes
  split at h
  · rename_i hremove
    obtain ⟨hkernel, haction, hdm⟩ := hremove
    exact ⟨hlt, hkernel, by simpa using hdm, .inl haction⟩
  · simp only [Bool.decide_and, Bool.and_eq_true, decide_eq_true_eq] at h
    obtain ⟨hkernel, hchange, hadd, hdm⟩ := h
    exact ⟨hlt, hkernel, by simpa using hdm, .inr ⟨hadd, hchange⟩⟩

theorem not_canFilter_of_isDm {earlier : Uevent} (hdm : isDm earlier.kernel = true) :
    ueventCanFilter earlier later = false := by
  by_contra h
  have hcan : ueventCanFilter earlier later = true := by simpa using h
  unfold ueventCanFilter at hcan
  split at hcan
  · rename_i hremove
    obtain ⟨hkernel, -, hno⟩ := hremove
    rw [← hkernel, hdm] at hno
    cases hno
  · simp only [Bool.decide_and, Bool.and_eq_true, decide_eq_true_eq] at hcan
    obtain ⟨hkernel, -, -, hno⟩ := hcan
    rw [← hkernel, hdm] at hno
    cases hno

/-- The walk takes events out of the queue and leaves the others in their order. -/
theorem ueventMerge_perm (later : Uevent) (tmpq mergeNode : List Uevent) :
    ((ueventMerge later tmpq mergeNode).1 ++ (ueventMerge later tmpq mergeNode).2).Perm
      (mergeNode ++ tmpq) := by
  induction tmpq generalizing mergeNode with
  | nil => exact List.Perm.refl _
  | cons earlier tmpq ih =>
    unfold ueventMerge
    split_ifs
    · exact List.Perm.refl _
    · exact (ih (earlier :: mergeNode)).trans List.perm_middle.symm
    · exact List.perm_middle.trans (((ih mergeNode).cons earlier).trans List.perm_middle.symm)

theorem ueventMerge_taken (later : Uevent) (tmpq mergeNode : List Uevent) :
    ∃ taken : List Uevent, taken.Sublist tmpq ∧
      (ueventMerge later tmpq mergeNode).1 = taken.reverse ++ mergeNode := by
  induction tmpq generalizing mergeNode with
  | nil => exact ⟨[], List.Sublist.refl _, rfl⟩
  | cons earlier tmpq ih =>
    unfold ueventMerge
    split_ifs
    · exact ⟨[], List.nil_sublist _, rfl⟩
    · obtain ⟨taken, hsub, htaken⟩ := ih (earlier :: mergeNode)
      refine ⟨earlier :: taken, hsub.cons_cons earlier, ?_⟩
      rw [htaken, List.reverse_cons, List.append_assoc, List.singleton_append]
    · obtain ⟨taken, hsub, htaken⟩ := ih mergeNode
      exact ⟨taken, hsub.cons earlier, htaken⟩

theorem ueventMerge_isDm {tmpq mergeNode : List Uevent} (h : isDm later.kernel = true) :
    ueventMerge later tmpq mergeNode = (mergeNode, tmpq) := by
  cases tmpq with
  | nil => rfl
  | cons earlier tmpq =>
    have hstop : mergeNeedStop earlier later = true := by
      unfold mergeNeedStop
      rw [if_pos h]
    unfold ueventMerge
    rw [if_pos hstop]

theorem filterMerge_perm (conf : UeventConfig) (later : Uevent) (tmpq : List Uevent) :
    ((filterMerge conf later tmpq).1 ++ (filterMerge conf later tmpq).2).Perm
      (ueventFilter later tmpq) := by
  unfold filterMerge
  split_ifs
  · exact ueventMerge_perm later _ []
  · exact List.Perm.refl _

theorem filterMerge_taken (conf : UeventConfig) (later : Uevent) (tmpq : List Uevent) :
    (filterMerge conf later tmpq).1.reverse.Sublist tmpq := by
  unfold filterMerge
  split_ifs
  · obtain ⟨taken, hsub, htaken⟩ := ueventMerge_taken later (ueventFilter later tmpq) []
    rw [htaken, List.append_nil, List.reverse_reverse]
    exact hsub.trans List.filter_sublist
  · exact List.nil_sublist _

theorem filterMerge_isDm {tmpq : List Uevent} (h : isDm later.kernel = true) :
    (filterMerge conf later tmpq).1 = [] := by
  unfold filterMerge
  split_ifs
  · rw [ueventMerge_isDm h]
  · rfl

/-- An event before `later` is merged, stays in the queue, or is filtered. -/
theorem mem_filterMerge (conf : UeventConfig) (later : Uevent) {tmpq : List Uevent} {e : Uevent}
    (he : e ∈ tmpq) :
    e ∈ (filterMerge conf later tmpq).1 ∨ e ∈ (filterMerge conf later tmpq).2 ∨
      ueventCanFilter e later = true := by
  by_cases hf : ueventCanFilter e later = true
  · exact .inr (.inr hf)
  · have hmem : e ∈ ueventFilter later tmpq :=
      List.mem_filter.mpr ⟨he, by simpa using hf⟩
    have h := (filterMerge_perm conf later tmpq).mem_iff.mpr hmem
    rw [List.mem_append] at h
    exact h.imp_right .inl

end Walk

section Run
variable {conf : UeventConfig} {tmpq : List Uevent}

theorem held_cons (node : Node) (nodes : List Node) :
    held (node :: nodes) = node.uev :: (node.mergeNode ++ held nodes) := by
  simp [held]

/-- What is in the queue and in the merge lists came from the queue, once. -/
theorem held_mergeLoop_subperm (conf : UeventConfig) (tmpq : List Uevent) :
    (held (mergeLoop conf tmpq)).Subperm tmpq := by
  fun_induction mergeLoop conf tmpq with
  | case1 => exact List.Subperm.refl _
  | case2 later tmpq ih =>
    rw [held_cons, List.subperm_cons]
    have hperm := filterMerge_perm conf later tmpq
    have hfilter : (ueventFilter later tmpq).Sublist tmpq := List.filter_sublist
    have hrest : (_ ++ held (mergeLoop conf (filterMerge conf later tmpq).2)).Subperm _ :=
      (List.subperm_append_left (filterMerge conf later tmpq).1).mpr ih
    exact hrest.trans (hperm.subperm.trans hfilter.subperm)

/-- An event is kept, or a later one that is kept in the walk has filtered it. -/
theorem mem_held_mergeLoop (conf : UeventConfig) {tmpq : List Uevent} (hq : tmpq.Pairwise Newest)
    {e : Uevent} (he : e ∈ tmpq) :
    e ∈ held (mergeLoop conf tmpq) ∨ ∃ later ∈ tmpq, Supersedes later e := by
  fun_induction mergeLoop conf tmpq with
  | case1 => exact absurd he List.not_mem_nil
  | case2 later tmpq ih =>
    obtain ⟨hnew, hq⟩ := List.pairwise_cons.mp hq
    have hsub := (filterMerge_result conf later hq).sublist
    rw [held_cons]
    obtain rfl | he := List.mem_cons.mp he
    · exact .inl List.mem_cons_self
    · obtain hmerged | hstays | hfiltered := mem_filterMerge conf later he
      · exact .inl (List.mem_cons_of_mem _ (List.mem_append_left _ hmerged))
      · obtain hheld | ⟨l, hl, hsup⟩ := ih (hq.sublist hsub) hstays
        · exact .inl (List.mem_cons_of_mem _ (List.mem_append_right _ hheld))
        · exact .inr ⟨l, List.mem_cons_of_mem _ (hsub.subset hl), hsup⟩
      · exact .inr ⟨later, List.mem_cons_self, supersedes_of_canFilter (hnew e he) hfiltered⟩

/-- A device map event stays in the queue and takes nothing with it. -/
theorem isDm_mergeLoop (hq : tmpq.Pairwise Newest) {e : Uevent} (he : e ∈ tmpq)
    (hdm : isDm e.kernel = true) : ⟨e, []⟩ ∈ mergeLoop conf tmpq := by
  fun_induction mergeLoop conf tmpq with
  | case1 => exact absurd he List.not_mem_nil
  | case2 later tmpq ih =>
    obtain ⟨-, hq⟩ := List.pairwise_cons.mp hq
    have hr := filterMerge_result conf later hq
    obtain rfl | he := List.mem_cons.mp he
    · rw [filterMerge_isDm hdm]
      exact List.mem_cons_self
    · obtain hmerged | hstays | hfiltered := mem_filterMerge conf later he
      · have hno := isDm_of_canMerge (hr.canMerge e hmerged)
        rw [hdm] at hno
        cases hno
      · exact List.mem_cons_of_mem _ (ih (hq.sublist hr.sublist) hstays)
      · rw [not_canFilter_of_isDm hdm] at hfiltered
        cases hfiltered

theorem mergeLoop_sublist (hq : tmpq.Pairwise Newest) :
    ((mergeLoop conf tmpq).map Node.uev).Sublist tmpq := by
  fun_induction mergeLoop conf tmpq with
  | case1 => exact List.Sublist.refl _
  | case2 later tmpq ih =>
    obtain ⟨-, hq⟩ := List.pairwise_cons.mp hq
    have hsub := (filterMerge_result conf later hq).sublist
    exact ((ih (hq.sublist hsub)).trans hsub).cons_cons later

/-- A merge list, from the head, is in the order of reception. -/
theorem mergeNode_sublist (hq : tmpq.Pairwise Newest) {node : Node}
    (h : node ∈ mergeLoop conf tmpq) :
    node.mergeNode.Sublist tmpq.reverse ∧
      ∀ u ∈ node.mergeNode, ueventCanMerge u node.uev = true := by
  fun_induction mergeLoop conf tmpq with
  | case1 => exact absurd h List.not_mem_nil
  | case2 later tmpq ih =>
    obtain ⟨-, hq⟩ := List.pairwise_cons.mp hq
    have hr := filterMerge_result conf later hq
    obtain rfl | h := List.mem_cons.mp h
    · constructor
      · have htaken := ((filterMerge_taken conf later tmpq).cons later).reverse
        rwa [List.reverse_reverse] at htaken
      · exact hr.canMerge
    · obtain ⟨hsub, hmerge⟩ := ih (hq.sublist hr.sublist) h
      exact ⟨hsub.trans (hr.sublist.cons later).reverse, hmerge⟩

end Run

theorem prepared_arrival (conf : UeventConfig) (uev : Uevent) :
    (prepared conf uev).arrival = uev.arrival := by
  unfold prepared
  split
  · exact ueventGetWwid_arrival conf uev
  · rfl

theorem prepared_names (conf : UeventConfig) (uev : Uevent) :
    (prepared conf uev).kernel = uev.kernel ∧ (prepared conf uev).action = uev.action := by
  unfold prepared ueventGetWwid
  split
  · split <;> exact ⟨rfl, rfl⟩
  · exact ⟨rfl, rfl⟩

theorem prepared_isDm {conf : UeventConfig} {uev : Uevent} (h : isDm uev.kernel = true) :
    prepared conf uev = uev := by
  unfold prepared
  rw [if_neg (fun hno => by simp [h] at hno)]

theorem Supersedes.of_prepared {conf : UeventConfig} {later earlier : Uevent}
    (h : Supersedes (prepared conf later) (prepared conf earlier)) : Supersedes later earlier := by
  unfold Supersedes at *
  simpa only [prepared_arrival, prepared_names] using h

theorem arrivals_nodup {tmpq : List Uevent} (hq : tmpq.Pairwise Newest) :
    (tmpq.map Uevent.arrival).Nodup := by
  rw [List.Nodup, List.pairwise_map]
  exact hq.imp fun h => Nat.ne_of_gt h

/-- No event is lost or duplicated: one that is not discarded by its device name stays in the queue
or in one merge list, once, unless a later event of the same path makes it superfluous. -/
theorem mergeUevq_conserves (conf : UeventConfig) (uevs : List Uevent) :
    (∀ e ∈ receive uevs, ueventCanDiscard conf e = false →
      ((held (mergeUevq conf (receive uevs))).map Uevent.arrival).count e.arrival = 1 ∨
        ((held (mergeUevq conf (receive uevs))).map Uevent.arrival).count e.arrival = 0 ∧
          ∃ later ∈ receive uevs, Supersedes later e) ∧
      (∀ e ∈ receive uevs, isDm e.kernel = true → ⟨e, []⟩ ∈ mergeUevq conf (receive uevs)) ∧
      ((mergeUevq conf (receive uevs)).map Node.uev).Sublist
        ((receive uevs).map (prepared conf)) ∧
      ∀ node ∈ mergeUevq conf (receive uevs),
        node.mergeNode.Sublist ((receive uevs).map (prepared conf)).reverse ∧
          ∀ u ∈ node.mergeNode, u.wwid ≠ none ∧ u.wwid = node.uev.wwid ∧
            u.action = node.uev.action ∧ u.action ≠ "change".toList := by
  have hnew := ueventPrepare_newest conf (receive_newest uevs)
  have hqueue : (ueventPrepare conf (receive uevs)).Sublist
      ((receive uevs).map (prepared conf)) := List.filter_sublist.map _
  have hprepared : ∀ e ∈ receive uevs, ueventCanDiscard conf e = false →
      prepared conf e ∈ ueventPrepare conf (receive uevs) := by
    intro e he hkeep
    exact List.mem_map_of_mem (List.mem_filter.mpr ⟨he, by simp [hkeep]⟩)
  refine ⟨?_, ?_, ?_, ?_⟩
  · intro e he hkeep
    have hnodup : ((held (mergeUevq conf (receive uevs))).map Uevent.arrival).Nodup := by
      obtain ⟨kept, hperm, hsub⟩ := held_mergeLoop_subperm conf (ueventPrepare conf (receive uevs))
      exact (hperm.map _).nodup_iff.mp ((hsub.map _).nodup (arrivals_nodup hnew))
    by_cases hmem : e.arrival ∈ (held (mergeUevq conf (receive uevs))).map Uevent.arrival
    · exact .inl (List.count_eq_one_of_mem hnodup hmem)
    · refine .inr ⟨List.count_eq_zero.mpr hmem, ?_⟩
      obtain hheld | ⟨l, hl, hsup⟩ := mem_held_mergeLoop conf hnew (hprepared e he hkeep)
      · have harrival := List.mem_map_of_mem (f := Uevent.arrival) hheld
        rw [prepared_arrival] at harrival
        exact absurd harrival hmem
      · obtain ⟨later, hlater, rfl⟩ := List.mem_map.mp (hqueue.subset hl)
        exact ⟨later, hlater, hsup.of_prepared⟩
  · intro e he hdm
    have hkeep : ueventCanDiscard conf e = false := by
      unfold ueventCanDiscard
      rw [if_pos hdm]
    have hmem := hprepared e he hkeep
    rw [prepared_isDm hdm] at hmem
    exact isDm_mergeLoop hnew hmem hdm
  · exact (mergeLoop_sublist hnew).trans hqueue
  · intro node hnode
    obtain ⟨hsub, hmerge⟩ := mergeNode_sublist hnew hnode
    refine ⟨hsub.trans hqueue.reverse, ?_⟩
    intro u hu
    have h := hmerge u hu
    simp only [ueventCanMerge, Bool.decide_and, Bool.and_eq_true, decide_eq_true_eq] at h
    obtain ⟨hwwid, -, hsame, haction, hchange, -⟩ := h
    refine ⟨hwwid, hsame, haction, ?_⟩
    intro hu
    rw [hu] at hchange
    exact absurd hchange (by decide)

end MultipathTools.Uevents
