import MultipathTools.Uevents.Queue
import Mathlib.Data.List.Range

/-! The order in which the events of one device are serviced, compared with the order in which
they were received. Only a merge can change it. -/
namespace MultipathTools.Uevents

/-- The last received event comes first. -/
def Newest (a b : Uevent) : Prop := b.arrival < a.arrival

/-- What a walk back over `tmpq` leaves behind when it collects `mergeNode` for `later`. -/
structure MergeResult (later : Uevent) (tmpq mergeNode rest : List Uevent) : Prop where
  sublist : rest.Sublist tmpq
  received : mergeNode.Pairwise fun a b => a.arrival < b.arrival
  canMerge : ∀ u ∈ mergeNode, ueventCanMerge u later = true
  passed : ∀ u ∈ mergeNode, ∀ v ∈ rest, u.arrival < v.arrival →
    mergeNeedStop v later = false ∧ ueventCanMerge v later = false

theorem ueventMerge_mem {later u : Uevent} {tmpq mergeNode : List Uevent}
    (h : u ∈ (ueventMerge later tmpq mergeNode).1) : u ∈ mergeNode ∨ u ∈ tmpq := by
  induction tmpq generalizing mergeNode with
  | nil => exact .inl h
  | cons earlier tmpq ih =>
    unfold ueventMerge at h
    split_ifs at h
    · exact .inl h
    · obtain hm | hm := ih h
      · obtain rfl | hm := List.mem_cons.mp hm
        · exact .inr List.mem_cons_self
        · exact .inl hm
      · exact .inr (List.mem_cons_of_mem _ hm)
    · exact (ih h).imp_right (List.mem_cons_of_mem _)

/-- The walk collects in the order of reception: what it takes next was received before. -/
theorem ueventMerge_result (later : Uevent) {tmpq mergeNode : List Uevent}
    (hq : tmpq.Pairwise Newest) (hm : mergeNode.Pairwise fun a b => a.arrival < b.arrival)
    (hc : ∀ u ∈ mergeNode, ueventCanMerge u later = true)
    (hlt : ∀ u ∈ mergeNode, ∀ v ∈ tmpq, v.arrival < u.arrival) :
    MergeResult later tmpq (ueventMerge later tmpq mergeNode).1
      (ueventMerge later tmpq mergeNode).2 := by
  induction tmpq generalizing mergeNode with
  | nil => exact ⟨List.Sublist.refl _, hm, hc, by simp [ueventMerge]⟩
  | cons earlier tmpq ih =>
    obtain ⟨hnew, hq⟩ := List.pairwise_cons.mp hq
    have hlt' : ∀ u ∈ mergeNode, ∀ v ∈ tmpq, v.arrival < u.arrival :=
      fun u hu v hv => hlt u hu v (List.mem_cons_of_mem _ hv)
    unfold ueventMerge
    split_ifs with hstop hmerge
    · refine ⟨List.Sublist.refl _, hm, hc, fun u hu v hv h => ?_⟩
      exact absurd h (hlt u hu v hv).not_gt
    · have hm' : (earlier :: mergeNode).Pairwise fun a b => a.arrival < b.arrival :=
        List.pairwise_cons.mpr ⟨fun u hu => hlt u hu earlier List.mem_cons_self, hm⟩
      obtain ⟨hs, hr, hcm, hp⟩ := ih hq hm' (by simpa [hmerge] using hc)
        (by simpa using ⟨fun v hv => hnew v hv, hlt'⟩)
      exact ⟨hs.cons _, hr, hcm, hp⟩
    · obtain ⟨hs, hr, hcm, hp⟩ := ih hq hm hc hlt'
      refine ⟨hs.cons_cons _, hr, hcm, fun u hu v hv h => ?_⟩
      obtain rfl | hv := List.mem_cons.mp hv
      · exact ⟨by simpa using hstop, by simpa using hmerge⟩
      · exact hp u hu v hv h

theorem filterMerge_result (conf : UeventConfig) (later : Uevent) {tmpq : List Uevent}
    (hq : tmpq.Pairwise Newest) :
    MergeResult later tmpq (filterMerge conf later tmpq).1 (filterMerge conf later tmpq).2 := by
  have hf : (ueventFilter later tmpq).Sublist tmpq := List.filter_sublist
  unfold filterMerge
  split_ifs
  · obtain ⟨hs, hr, hcm, hp⟩ :=
      ueventMerge_result later (hq.sublist hf) .nil (by simp) (by simp)
    exact ⟨hs.trans hf, hr, hcm, hp⟩
  · exact ⟨hf, .nil, by simp, by simp⟩

theorem filterMerge_mem {conf : UeventConfig} {later u : Uevent} {tmpq : List Uevent}
    (h : u ∈ (filterMerge conf later tmpq).1) : u ∈ tmpq := by
  unfold filterMerge at h
  split_ifs at h
  · obtain h | h := ueventMerge_mem h
    · simp at h
    · exact List.mem_of_mem_filter h
  · simp at h

theorem serviceUevq_cons (node : Node) (nodes : List Node) :
    serviceUevq (node :: nodes) = serviceUevq nodes ++ uevTrigger node := by
  simp [serviceUevq]

theorem mem_uevTrigger {node : Node} {u : Uevent} (h : u ∈ uevTrigger node) :
    u = node.uev ∨ u ∈ node.mergeNode := by
  unfold uevTrigger at h
  split_ifs at h
  · exact .inl (List.mem_singleton.mp h)
  · exact (List.mem_append.mp h).symm.imp_left List.mem_singleton.mp

theorem mem_serviceUevq {conf : UeventConfig} {tmpq : List Uevent} (hq : tmpq.Pairwise Newest)
    {u : Uevent} (h : u ∈ serviceUevq (mergeLoop conf tmpq)) : u ∈ tmpq := by
  fun_induction mergeLoop conf tmpq with
  | case1 => simp [serviceUevq] at h
  | case2 later tmpq ih =>
    obtain ⟨-, hq⟩ := List.pairwise_cons.mp hq
    have hs := (filterMerge_result conf later hq).sublist
    rw [serviceUevq_cons, List.mem_append] at h
    obtain h | h := h
    · exact List.mem_cons_of_mem _ (hs.subset (ih (hq.sublist hs) h))
    · obtain rfl | h := mem_uevTrigger h
      · exact List.mem_cons_self
      · exact List.mem_cons_of_mem _ (filterMerge_mem h)

/-- `first` was received before `second` but waits for a later event `host` to be merged with:
`host` has its WWID and its action, and `second` does not stop the search for such an event. -/
def WaitsForHost (served : List Uevent) (first second : Uevent) : Prop :=
  first.wwid ≠ none ∧ second.wwid ≠ none ∧ strncmpEq first.action "change".toList 6 = false ∧
    (second.action = "change".toList ∨ second.wwid ≠ first.wwid) ∧
    ∃ host ∈ served, second.arrival < host.arrival ∧ host.wwid = first.wwid ∧
      host.action = first.action

/-- Two events serviced one after the other were received in that order, or belong to different
devices or to a device map, or the second waited for a host. -/
def InOrder (served : List Uevent) (a b : Uevent) : Prop :=
  a.kernel = b.kernel → isDm a.kernel = false → b.arrival < a.arrival → WaitsForHost served b a

/-- An event that a merge of `first` into `host` passed over does not stop the search. -/
theorem waitsForHost_of_passed {served : List Uevent} {host first second : Uevent}
    (hs : host ∈ served) (hlt : second.arrival < host.arrival)
    (hm : ueventCanMerge first host = true) (hstop : mergeNeedStop second host = false)
    (hno : ueventCanMerge second host = false) (hdm : isDm second.kernel = false) :
    WaitsForHost served first second := by
  simp only [ueventCanMerge, Bool.decide_and, Bool.and_eq_true, decide_eq_true_eq,
    Bool.not_eq_eq_eq_not, Bool.not_true] at hm
  obtain ⟨hw₁, -, hw, ha, hc, -⟩ := hm
  obtain ⟨hw₂, hor⟩ : second.wwid ≠ none ∧ (second.wwid = host.wwid →
      second.action = host.action ∨ second.action = "change".toList ∨
        host.action = "change".toList) := by
    unfold mergeNeedStop at hstop
    split_ifs at hstop with hhost hnone
    rw [not_or] at hnone
    refine ⟨hnone.1, fun hsame => ?_⟩
    by_contra hother
    rw [not_or, not_or] at hother
    exact of_decide_eq_false hstop ⟨hsame, hother⟩
  refine ⟨hw₁, hw₂, hc, ?_, host, hs, hlt, hw.symm, ha.symm⟩
  by_contra hcon
  obtain ⟨hchange, hsame⟩ := not_or.mp hcon
  have hsame : second.wwid = host.wwid := (not_not.mp hsame).trans hw
  have hhost : host.action ≠ "change".toList := by
    rintro he
    rw [ha, he] at hc
    exact absurd hc (by decide)
  have hact : second.action = host.action := by
    have := hor hsame
    tauto
  have : ueventCanMerge second host = true := by
    simp only [ueventCanMerge, Bool.decide_and, Bool.and_eq_true, decide_eq_true_eq]
    exact ⟨hw₂, hsame ▸ hw₂, hsame, hact, by rw [hact, ← ha, hc]; rfl, by rw [hdm]; rfl⟩
  exact absurd hno (by simp [this])

theorem isDm_of_canMerge {a b : Uevent} (h : ueventCanMerge a b = true) :
    isDm a.kernel = false := by
  simp only [ueventCanMerge, Bool.decide_and, Bool.and_eq_true] at h
  simpa using h.2.2.2.2.2

/-- The entry of `later` against all that is serviced before it, and within itself. -/
theorem inOrder_entry {served : List Uevent} {later : Uevent} {tmpq m rest : List Uevent}
    (hmem : later ∈ served) (hnew : ∀ v ∈ tmpq, Newest later v) (hsub : ∀ u ∈ m, u ∈ tmpq)
    (hr : MergeResult later tmpq m rest) :
    (uevTrigger ⟨later, m⟩).Pairwise (InOrder served) ∧
      ∀ a ∈ rest, ∀ b ∈ uevTrigger ⟨later, m⟩, InOrder served a b := by
  constructor
  · unfold uevTrigger
    split_ifs
    · exact List.pairwise_singleton _ _
    · refine List.pairwise_append.mpr ⟨hr.received.imp fun h _ _ hlt => absurd hlt h.not_gt,
        List.pairwise_singleton _ _, fun a ha b hb _ _ hlt => ?_⟩
      obtain rfl : b = later := List.mem_singleton.mp hb
      exact absurd hlt (hnew a (hsub a ha)).not_gt
  · intro a ha b hb hk hdm hlt
    have hlater : a.arrival < later.arrival := hnew a (hr.sublist.subset ha)
    obtain rfl | hb := mem_uevTrigger hb
    · exact absurd hlt hlater.not_gt
    · obtain ⟨hstop, hno⟩ := hr.passed b hb a ha hlt
      exact waitsForHost_of_passed hmem hlater (hr.canMerge b hb) hstop hno hdm

/-- The induction follows the walk of `merge_uevq`, from the last event to the first. -/
theorem serviceUevq_inOrder (conf : UeventConfig) {served tmpq : List Uevent}
    (hq : tmpq.Pairwise Newest)
    (hsub : ∀ u ∈ serviceUevq (mergeLoop conf tmpq), u ∈ served) :
    (serviceUevq (mergeLoop conf tmpq)).Pairwise (InOrder served) := by
  fun_induction mergeLoop conf tmpq with
  | case1 => simp [serviceUevq]
  | case2 later tmpq ih =>
    obtain ⟨hnew, hq⟩ := List.pairwise_cons.mp hq
    have hr := filterMerge_result conf later hq
    rw [serviceUevq_cons] at hsub ⊢
    have hlater : later ∈ served := by
      refine hsub later (List.mem_append_right _ ?_)
      unfold uevTrigger
      split_ifs <;> simp
    obtain ⟨hin, hcross⟩ := inOrder_entry hlater hnew (fun _ => filterMerge_mem) hr
    refine List.pairwise_append.mpr ⟨?_, hin, fun a ha => hcross a ?_⟩
    · exact ih (hq.sublist hr.sublist) fun u hu => hsub u (List.mem_append_left _ hu)
    · exact mem_serviceUevq (hq.sublist hr.sublist) ha

theorem receive_newest (uevs : List Uevent) : (receive uevs).Pairwise Newest := by
  unfold receive Newest
  rw [List.pairwise_reverse, List.pairwise_map]
  have h : (uevs.zipIdx.map Prod.snd).Pairwise (· < ·) := by
    rw [List.zipIdx_map_snd]
    exact List.pairwise_lt_range'
  exact List.pairwise_map.mp h

theorem ueventGetWwid_arrival (conf : UeventConfig) (uev : Uevent) :
    (ueventGetWwid conf uev).arrival = uev.arrival := by
  unfold ueventGetWwid
  split <;> rfl

theorem ueventPrepare_newest (conf : UeventConfig) {tmpq : List Uevent}
    (hq : tmpq.Pairwise Newest) : (ueventPrepare conf tmpq).Pairwise Newest := by
  unfold ueventPrepare
  refine List.pairwise_map.mpr ((hq.sublist List.filter_sublist).imp fun {a b} h => ?_)
  have harr : ∀ u : Uevent, (if (!isDm u.kernel) = true ∧ ueventNeedMerge conf = true then
      ueventGetWwid conf u else u).arrival = u.arrival := by
    intro u
    split_ifs
    · exact ueventGetWwid_arrival conf u
    · rfl
  simpa only [Newest, harr] using h

/-- The surviving events of one device are serviced in the order of reception, but for a
non-change event that waits for a host while a change event, or an event with another WWID,
passes by. -/
theorem serviceOrder_inOrder (conf : UeventConfig) (uevs : List Uevent) :
    (serviceOrder conf uevs).Pairwise (InOrder (serviceOrder conf uevs)) :=
  serviceUevq_inOrder conf (ueventPrepare_newest conf (receive_newest uevs)) fun _ => id

/-- An event of a path whose WWID is in its environment. -/
def pathEvent (action kernel wwid : String) : Uevent :=
  { action := action.toList, kernel := kernel.toList, envp := ["ID_SERIAL=".toList ++ wwid.toList] }

def mergeConf : UeventConfig := ⟨["sd:ID_SERIAL".toList], fun _ => 0⟩

/-- A change event, and an event with another WWID, is serviced before an earlier add event of
the same path, which waits for the add event of another path. -/
theorem serviceOrder_overtaken :
    ueventNeedMerge mergeConf = true ∧
    ¬ (serviceOrder mergeConf [pathEvent "add" "sda" "A", pathEvent "change" "sda" "A",
      pathEvent "add" "sdb" "A"]).Pairwise
        (fun a b => a.kernel = b.kernel → isDm a.kernel = false → a.arrival < b.arrival) ∧
    ¬ (serviceOrder mergeConf [pathEvent "add" "sda" "A", pathEvent "add" "sda" "B",
      pathEvent "add" "sdb" "A"]).Pairwise
        (fun a b => a.kernel = b.kernel → isDm a.kernel = false → a.arrival < b.arrival) := by
  decide +kernel

end MultipathTools.Uevents
