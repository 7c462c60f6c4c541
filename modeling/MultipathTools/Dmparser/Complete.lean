import MultipathTools.Dmparser.Accept
import MultipathTools.Dmparser.Faults

/-! When a table that `disassemble_map` accepts is complete. -/
namespace MultipathTools.Dmparser

open MultipathTools.Features

/-- The words suffice for `n` groups, where each group has as many selector arguments as it
announces itself. -/
def GroupsComplete : ℕ → List CStr → Prop
  | 0, _ => True
  | n + 1, ws => GroupWhole none ws ∧ GroupsComplete n (behindPaths (groupBody none ws))

/-- The words are all there that a table announces: the features, the hardware handler, the two
numbers of groups, and the groups. -/
def Complete (ws : List CStr) : Prop :=
  1 + number (ws.headD []) ≤ ws.length ∧
    1 + number ((behindArgs ws).headD []) ≤ (behindArgs ws).length ∧
    2 ≤ (behindArgs (behindArgs ws)).length ∧
    GroupsComplete (number ((behindArgs (behindArgs ws)).getD 0 []))
      ((behindArgs (behindArgs ws)).drop 2)

/-- The words of `n` groups suffice if each group has as many selector arguments as the first one
announces, or `k` of them if that is known. -/
def GroupsWhole : ℕ → Option ℕ → List CStr → Prop
  | 0, _, _ => True
  | n + 1, k, ws =>
    GroupWhole k ws ∧ GroupsWhole n (some (selectorArgs k ws)) (behindPaths (groupBody k ws))

/-- They do not suffice, and are accepted: the last group is short. -/
def GroupsShort (last : Option CStr) : ℕ → Option ℕ → List CStr → Prop
  | 0, _, _ => False
  | n + 1, k, ws =>
    (n = 0 ∧ GroupShort last k ws) ∨
      (GroupWhole k ws ∧
        GroupsShort last n (some (selectorArgs k ws)) (behindPaths (groupBody k ws)))

/-- Each of `n` groups announces the number of selector arguments that it is read with. -/
def SameArgs : ℕ → Option ℕ → List CStr → Prop
  | 0, _, _ => True
  | n + 1, k, ws =>
    (2 ≤ ws.length → selectorArgs none ws = selectorArgs k ws) ∧
      SameArgs n (some (selectorArgs k ws)) (behindPaths (groupBody k ws))

/-- The words of `n` groups are accepted. -/
def GroupsAccepted (last : Option CStr) : ℕ → Option ℕ → List CStr → Prop
  | 0, _, _ => True
  | n + 1, k, ws =>
    (n = 0 ∧ GroupShort last k ws) ∨
      (GroupWhole k ws ∧
        GroupsAccepted last n (some (selectorArgs k ws)) (behindPaths (groupBody k ws)))

section Groups

variable {last : Option CStr} {k : Option ℕ} {ws : List CStr} {n : ℕ}

theorem groupWhole_length (h : GroupWhole k ws) : 4 + selectorArgs k ws ≤ ws.length := by
  have hbody := h.1
  rw [groupBody, List.length_drop] at hbody
  omega

theorem groupsAccepted_iff :
    GroupsAccepted last n k ws ↔ GroupsWhole n k ws ∨ GroupsShort last n k ws := by
  induction n generalizing k ws with
  | zero => exact iff_of_true trivial (Or.inl trivial)
  | succ n ih =>
    rw [GroupsAccepted, GroupsWhole, GroupsShort, ih, and_or_left, or_left_comm]

theorem groupsComplete_iff (h : SameArgs n k ws) : GroupsComplete n ws ↔ GroupsWhole n k ws := by
  induction n generalizing k ws with
  | zero => exact Iff.rfl
  | succ n ih =>
    obtain ⟨hsame, hrest⟩ := h
    rw [GroupsComplete, GroupsWhole, ← ih hrest]
    by_cases hlen : 2 ≤ ws.length
    · have hbody : groupBody none ws = groupBody k ws := by
        rw [groupBody, groupBody, hsame hlen]
      rw [GroupWhole, GroupWhole, hbody]
    · have hshort {k : Option ℕ} : ¬GroupWhole k ws := by
        intro hwhole
        have hle := groupWhole_length hwhole
        omega
      exact iff_of_false (fun hc => hshort hc.1) fun hc => hshort hc.1

theorem not_groupWhole_of_short (h : GroupShort last k ws) : ¬GroupWhole k ws := by
  rintro ⟨htwo, hle⟩
  rcases h with h | ⟨h, -⟩ | ⟨-, h, -⟩
  · rw [groupBody_eq_nil h.2.1] at htwo
    exact absurd htwo (by simp)
  · omega
  · exact absurd hle (not_le.mpr h)

theorem not_groupsWhole_of_short (h : GroupsShort last n k ws) : ¬GroupsWhole n k ws := by
  induction n generalizing k ws with
  | zero => exact h.elim
  | succ n ih =>
    rintro ⟨hwhole, hrest⟩
    rcases h with ⟨-, hshort⟩ | ⟨-, hshort⟩
    · exact not_groupWhole_of_short hshort hwhole
    · exact ih hshort hrest

theorem behindPaths_of_short (h : GroupShort last k ws) : behindPaths (groupBody k ws) = [] := by
  rcases h with h | ⟨h, -⟩ | ⟨-, h, -⟩
  · rw [groupBody_eq_nil h.2.1]
    exact behindPaths_eq_nil rfl
  · exact behindPaths_eq_nil (List.drop_eq_nil_of_le (by omega))
  · exact List.drop_eq_nil_of_le h.le

/-- No group is read where nothing is left. -/
theorem not_groupsAccepted_nil {c : ℕ} : ¬GroupsAccepted last (n + 1) (some c) [] := by
  have hlast : ¬LastForCounts last (some c) [] := fun h => Option.some_ne_none c h.1
  have hnot := not_groupAccepted (@groupBody_eq_nil [] (some c) (Nat.zero_le 2)) hlast
  rintro (⟨-, hshort⟩ | ⟨hwhole, -⟩)
  · exact hnot (Or.inr hshort)
  · exact hnot (Or.inl hwhole)

end Groups

section Reads

variable {alloc : CStr → BitVec 64} {pathvec : List Path} {mpp m : Multipath}
  {last : Option CStr} {p : CStr} {ws : List CStr} {numPgArgs : ℤ} {k : Option ℕ}

/-- A group needs words that are still there, or the selector of the first one. -/
theorem readPathgroup_end {i : ℕ} (hsel : mpp.selector ≠ none) (hp : (splitWords p).length ≤ 1) :
    (readPathgroup alloc pathvec i mpp numPgArgs p).2 = none := by
  obtain ⟨selector, hselector⟩ := Option.ne_none_iff_exists'.mp hsel
  have hnil : splitWords (skipWords numPgArgs.toNat (skipWord (skipWord p))) = [] := by
    rw [splitWords_skipWords, splitWords_skipWord, skipWord_eq_nil hp]
    exact List.drop_nil
  rw [readPathgroup, readSelector, hselector]
  dsimp only
  rw [getWord_of_nil hnil]

theorem readPathgroups_unread {n i : ℕ} (hk : Knows mpp numPgArgs k) (h : Unread last p ws) :
    (readPathgroups alloc pathvec n i mpp numPgArgs p).2 = true ↔
      GroupsAccepted last n k ws ∧ GroupsStored pathvec last n k ws := by
  induction n generalizing i mpp numPgArgs p k ws with
  | zero => exact iff_of_true rfl ⟨trivial, trivial⟩
  | succ n ih =>
    have hgroup := @readPathgroup_unread alloc pathvec mpp last p ws numPgArgs k i hk h
    rw [readPathgroups]
    rcases hg : readPathgroup alloc pathvec i mpp numPgArgs p with ⟨m, _ | ⟨num, q⟩⟩
    · rw [hg] at hgroup
      have hnot := hgroup.not_of_none
      unfold GroupAccepted at hnot
      refine iff_of_false Bool.false_ne_true ?_
      rintro ⟨⟨-, hshort⟩ | ⟨hwhole, -⟩, hstored, -⟩
      · exact hnot ⟨Or.inr hshort, hstored⟩
      · exact hnot ⟨Or.inl hwhole, hstored⟩
    · have hsel := readPathgroup_selector hg
      rw [hg] at hgroup
      obtain ⟨⟨hacc, hstored⟩, hnum, honward⟩ := hgroup.of_some
      dsimp only
      rw [GroupsAccepted, GroupsStored, and_iff_right hstored]
      rcases honward with ⟨hne, hunread⟩ | ⟨hnil, hend⟩
      · have hwhole := hacc.resolve_right fun hshort => hne (behindPaths_of_short hshort)
        rw [ih (Or.inr ⟨hsel, congrArg some (hnum hne).symm⟩) hunread, and_iff_right hwhole]
        refine and_congr_left' ⟨Or.inr, ?_⟩
        rintro (⟨rfl, -⟩ | hrest)
        · exact trivial
        · exact hrest
      · rw [hnil]
        cases n with
        | zero =>
          refine iff_of_true rfl ⟨?_, trivial⟩
          rcases hacc with hwhole | hshort
          · exact Or.inr ⟨hwhole, trivial⟩
          · exact Or.inl ⟨rfl, hshort⟩
        | succ n =>
          have hstop : (readPathgroup alloc pathvec (i + 1) m num q).2 = none :=
            readPathgroup_end hsel hend
          rw [readPathgroups]
          generalize readPathgroup alloc pathvec (i + 1) m num q = r at hstop ⊢
          rcases r with ⟨m', _ | r⟩
          · refine iff_of_false Bool.false_ne_true ?_
            rintro ⟨⟨hzero, -⟩ | ⟨-, hrest⟩, -⟩
            · exact Nat.succ_ne_zero n hzero
            · exact not_groupsAccepted_nil hrest
          · cases hstop

theorem mergeArgs_unread {n : ℕ} {dst : CStr} (h : Unread last p ws) :
    SomeIff (mergeArgs n p dst).2 (last ≠ none ∨ n ≤ ws.length)
      fun q => Unread last q (ws.drop n) := by
  induction n generalizing p ws dst with
  | zero => exact SomeIff.some (Or.inr (Nat.zero_le _)) h
  | succ n ih =>
    rw [mergeArgs]
    rcases ws with _ | ⟨w, ws⟩
    · rcases last with _ | w
      · rw [h.getWord_none]
        refine SomeIff.none ?_
        rintro (hc | hc)
        · exact hc rfl
        · exact absurd hc (Nat.not_succ_le_zero n)
      · obtain ⟨q, hq, hunread⟩ := h.getWord_some
        rw [hq]
        have hrest : SomeIff (mergeArgs n q (mergeWords dst (strchop w))).2 _ _ := ih hunread
        rw [List.drop_nil] at hrest
        exact hrest.of_iff (iff_of_true (Or.inl (Option.some_ne_none w))
          (Or.inl (Option.some_ne_none w)))
    · obtain ⟨q, hq, hunread⟩ := h.getWord_cons
      rw [hq]
      exact (ih hunread).of_iff (or_congr_right Nat.succ_le_succ_iff)

theorem readArgs_unread (h : Unread last p ws) :
    SomeIff (readArgs p).2 (last ≠ none ∨ 1 + number (ws.headD []) ≤ ws.length)
      fun q => Unread last q (behindArgs ws) := by
  rw [readArgs]
  rcases ws with _ | ⟨w, ws⟩
  · rcases last with _ | w
    · rw [h.getWord_none]
      refine SomeIff.none ?_
      rintro (hc | hc)
      · exact hc rfl
      · rw [Nat.add_comm] at hc
        exact absurd hc (Nat.not_succ_le_zero _)
    · obtain ⟨q, hq, hunread⟩ := h.getWord_some
      rw [hq]
      have hrest : SomeIff (mergeArgs (number w) q (strchop w)).2 _ _ := mergeArgs_unread hunread
      rw [List.drop_nil] at hrest
      have hnil : behindArgs [] = [] := List.drop_nil
      rw [hnil]
      exact hrest.of_iff (iff_of_true (Or.inl (Option.some_ne_none w))
        (Or.inl (Option.some_ne_none w)))
  · obtain ⟨q, hq, hunread⟩ := h.getWord_cons
    have hbehind : behindArgs (w :: ws) = ws.drop (number w) := by
      rw [behindArgs, Nat.add_comm]
      rfl
    have hle : 1 + number w ≤ (w :: ws).length ↔ number w ≤ ws.length := by
      rw [List.length_cons]
      omega
    rw [hq, hbehind]
    exact (mergeArgs_unread hunread).of_iff (or_congr_right hle)

/-- Where the header of a table is short, it is accepted if all numbers are the last word, and
that is none. -/
def HeaderShort (last : Option CStr) (ws : List CStr) : Prop :=
  ws.length ≤ 1 ∧ ∃ w ∈ last, number w = 0

/-- What the code knows of the selector before it has read a group. -/
def knownArgs (known : Bool) : Option ℕ := if known then some 0 else none

theorem knows_start (mpp : Multipath) : Knows mpp 0 (knownArgs mpp.selector.isSome) := by
  unfold Knows knownArgs
  cases mpp.selector with
  | none => exact Or.inl ⟨rfl, rfl⟩
  | some s => exact Or.inr ⟨Option.some_ne_none s, rfl⟩

/-- No group is read from the last word alone, unless it is no number. -/
theorem groupsAccepted_nil_iff {w : CStr} :
    GroupsAccepted (some w) (number w) k [] ↔ number w = 0 := by
  constructor
  · intro h
    by_contra hne
    obtain ⟨n, hn⟩ := Nat.exists_eq_succ_of_ne_zero hne
    rw [hn] at h
    have hlast : ¬LastForCounts (some w) k [] := by
      rintro ⟨-, -, v, hv, hzero⟩
      obtain rfl : w = v := Option.some.inj hv
      exact hne hzero
    have hnot := not_groupAccepted (@groupBody_eq_nil [] k (Nat.zero_le 2)) hlast
    rcases h with ⟨-, hshort⟩ | ⟨hwhole, -⟩
    · exact hnot (Or.inr hshort)
    · exact hnot (Or.inl hwhole)
  · intro h
    rw [h]
    exact trivial

/-- The two numbers have been read, the second one perhaps from the same word. -/
theorem readGroups_counts {numPg nextpg q q' : CStr} {vs : List CStr}
    (hn : getWord p = (some numPg, q)) (hx : getWord q = (some nextpg, q'))
    (h : Unread last q' vs) :
    (readGroups alloc pathvec p mpp).2 = 0 ↔
      GroupsAccepted last (atoi numPg).toNat (knownArgs mpp.selector.isSome) vs ∧
        GroupsStored pathvec last (atoi numPg).toNat (knownArgs mpp.selector.isSome) vs := by
  rw [readGroups, hn]
  dsimp only
  rw [hx]
  dsimp only
  let mpp' : Multipath :=
    { mpp with pg := if 0 < atoi numPg then some (mpp.pg.getD []) else none, nextpg := atoi nextpg }
  have hgroups : (readPathgroups alloc pathvec (atoi numPg).toNat 0 mpp' 0 q').2 = true ↔ _ :=
    readPathgroups_unread (knows_start mpp') h
  rw [← hgroups]
  generalize readPathgroups alloc pathvec (atoi numPg).toNat 0 mpp' 0 q' = r
  rcases r with ⟨m, _ | _⟩
  · exact iff_of_false one_ne_zero Bool.false_ne_true
  · exact iff_of_true rfl rfl

theorem readGroups_unread (h : Unread last p ws) :
    (readGroups alloc pathvec p mpp).2 = 0 ↔ (HeaderShort last ws ∨ (2 ≤ ws.length ∧
      GroupsAccepted last (number (ws.getD 0 [])) (knownArgs mpp.selector.isSome) (ws.drop 2))) ∧
      (2 ≤ ws.length →
        GroupsStored pathvec last (number (ws.getD 0 [])) (knownArgs mpp.selector.isSome)
          (ws.drop 2)) := by
  by_cases htwo : 2 ≤ ws.length
  · rcases ws with _ | ⟨a, _ | ⟨b, ws⟩⟩
    · exact absurd htwo (by simp)
    · exact absurd htwo (by simp)
    · obtain ⟨q, hq, hunread⟩ := h.getWord_cons
      obtain ⟨q', hq', hunread'⟩ := hunread.getWord_cons
      rw [readGroups_counts hq hq' hunread', or_iff_right fun hc => absurd hc.1 (by omega),
        and_iff_right htwo, forall_prop_of_true htwo]
      exact Iff.rfl
  · rw [and_iff_left fun hc => absurd hc htwo, or_iff_left fun hc => htwo hc.1]
    have hle : ws.length ≤ 1 := by omega
    -- the last word stands for the next path group
    have hlast {w q : CStr} (hw : last = some w) (hq : getWord p = (some (strchop w), q))
        (hunread : Unread (some w) q []) :
        (readGroups alloc pathvec p mpp).2 = 0 ↔ HeaderShort last ws := by
      obtain ⟨q', hq', hunread'⟩ := hunread.getWord_some
      rw [readGroups_counts hq hq' hunread']
      constructor
      · rintro ⟨hacc, -⟩
        exact ⟨hle, w, hw, groupsAccepted_nil_iff.mp hacc⟩
      · rintro ⟨-, v, hv, hzero⟩
        obtain rfl : w = v := Option.some.inj (hw.symm.trans hv)
        exact ⟨groupsAccepted_nil_iff.mpr hzero, groupsStored_nil _ _⟩
    -- there is no word for it
    have hnone (hl : last = none) : ¬HeaderShort last ws := by
      rintro ⟨-, w, hw, -⟩
      rw [hl] at hw
      cases hw
    rcases ws with _ | ⟨a, _ | ⟨b, ws⟩⟩
    · rcases last with _ | w
      · refine iff_of_false ?_ (hnone rfl)
        rw [readGroups, h.getWord_none]
        exact one_ne_zero
      · obtain ⟨q, hq, hunread⟩ := h.getWord_some
        exact hlast rfl hq hunread
    · obtain ⟨q, hq, hunread⟩ := h.getWord_cons
      rcases last with _ | w
      · refine iff_of_false ?_ (hnone rfl)
        rw [readGroups, hq]
        dsimp only
        rw [hunread.getWord_none]
        exact one_ne_zero
      · obtain rfl : a = w := h.getLast w rfl a rfl
        exact hlast rfl hq hunread
    · exact absurd (Nat.le_add_left 2 ws.length) htwo

end Reads

section Table

-- the numbers are not evaluated here
attribute [local irreducible] number

variable {alloc : CStr → BitVec 64} {pathvec : List Path} {mpp : Multipath} {last : Option CStr}
  {params : CStr} {ws : List CStr} {known : Bool}

/-- The words of a table suffice, with the numbers of selector arguments that the code takes. -/
def TableWhole (known : Bool) (ws : List CStr) : Prop :=
  2 ≤ (behindArgs (behindArgs ws)).length ∧
    GroupsWhole (number ((behindArgs (behindArgs ws)).getD 0 [])) (knownArgs known)
      ((behindArgs (behindArgs ws)).drop 2)

/-- They do not suffice, and are accepted. -/
def TableShort (known : Bool) (last : Option CStr) (ws : List CStr) : Prop :=
  HeaderShort last (behindArgs (behindArgs ws)) ∨
    (2 ≤ (behindArgs (behindArgs ws)).length ∧
      GroupsShort last (number ((behindArgs (behindArgs ws)).getD 0 [])) (knownArgs known)
        ((behindArgs (behindArgs ws)).drop 2))

/-- Each group announces the number of selector arguments that the code takes. -/
def TableSameArgs (known : Bool) (ws : List CStr) : Prop :=
  SameArgs (number ((behindArgs (behindArgs ws)).getD 0 [])) (knownArgs known)
    ((behindArgs (behindArgs ws)).drop 2)

theorem behindArgs_eq_nil (h : ¬1 + number (ws.headD []) ≤ ws.length) : behindArgs ws = [] :=
  List.drop_eq_nil_of_le (not_le.mp h).le

/-- With words behind them, the features and the hardware handler are there. -/
theorem complete_iff : Complete ws ↔ 2 ≤ (behindArgs (behindArgs ws)).length ∧
    GroupsComplete (number ((behindArgs (behindArgs ws)).getD 0 []))
      ((behindArgs (behindArgs ws)).drop 2) := by
  constructor
  · exact fun h => h.2.2
  · intro h
    have hargs {vs : List CStr} (hne : behindArgs vs ≠ []) :
        1 + number (vs.headD []) ≤ vs.length := by
      by_contra hle
      exact hne (behindArgs_eq_nil hle)
    have hne : behindArgs (behindArgs ws) ≠ [] := by
      intro hnil
      rw [hnil] at h
      exact absurd h.1 (by simp)
    have hne' : behindArgs ws ≠ [] := by
      intro hnil
      rw [hnil] at hne
      exact hne List.drop_nil
    exact ⟨hargs hne', hargs hne, h⟩

theorem complete_iff_tableWhole (h : TableSameArgs known ws) :
    Complete ws ↔ TableWhole known ws := by
  unfold TableSameArgs at h
  rw [complete_iff, TableWhole, groupsComplete_iff h]

theorem not_tableWhole_of_short (h : TableShort known last ws) : ¬TableWhole known ws := by
  unfold TableShort HeaderShort at h
  unfold TableWhole
  generalize behindArgs (behindArgs ws) = vs at h ⊢
  generalize number (vs.getD 0 []) = n at h ⊢
  rintro ⟨htwo, hwhole⟩
  rcases h with ⟨hle, -⟩ | ⟨-, hshort⟩
  · omega
  · exact not_groupsWhole_of_short hshort hwhole

/-- The return code tells whether the words are accepted, and the devices are stored. -/
theorem disassembleMap_unread (h : Unread last params ws) :
    (disassembleMap alloc pathvec params mpp).2 = 0 ↔
      (TableWhole mpp.selector.isSome ws ∨ TableShort mpp.selector.isSome last ws) ∧
        TableStored pathvec mpp.selector.isSome last ws := by
  have hnil (hl : ¬(last ≠ none)) (hw : behindArgs (behindArgs ws) = []) :
      ¬((TableWhole mpp.selector.isSome ws ∨ TableShort mpp.selector.isSome last ws) ∧
        TableStored pathvec mpp.selector.isSome last ws) := by
    rw [not_not] at hl
    rw [TableWhole, TableShort, hw, hl]
    rintro ⟨⟨htwo, -⟩ | ⟨-, w, hw, -⟩ | ⟨htwo, -⟩, -⟩
    · exact absurd htwo (by simp)
    · cases hw
    · exact absurd htwo (by simp)
  have hfeatures := readArgs_unread h
  unfold disassembleMap
  dsimp only
  generalize readArgs params = f at hfeatures ⊢
  obtain ⟨features, _ | q⟩ := f
  · have hnot := hfeatures.not_of_none
    rw [not_or] at hnot
    refine iff_of_false one_ne_zero (hnil hnot.1 ?_)
    rw [behindArgs_eq_nil hnot.2]
    exact List.drop_nil
  · obtain ⟨-, hq⟩ := hfeatures.of_some
    have hhwhandler := readArgs_unread hq
    dsimp only
    generalize readArgs q = g at hhwhandler ⊢
    obtain ⟨hwhandler, _ | q'⟩ := g
    · have hnot := hhwhandler.not_of_none
      rw [not_or] at hnot
      exact iff_of_false one_ne_zero (hnil hnot.1 (behindArgs_eq_nil hnot.2))
    · obtain ⟨-, hq'⟩ := hhwhandler.of_some
      refine (readGroups_unread hq').trans ?_
      rw [groupsAccepted_iff, and_or_left, or_left_comm]
      exact Iff.rfl

/-- The word that a text ends with. -/
def lastWord (params : CStr) : Option CStr :=
  if params.getLast? = some ' ' then none else (splitWords params).getLast?

theorem unread_start (params : CStr) : Unread (lastWord params) params (splitWords params) := by
  unfold lastWord
  split_ifs with hblank
  · refine ⟨fun _ => endsBlank_of_getLast? hblank, fun h => absurd rfl h, ?_, fun w hw => ?_⟩
    · split_ifs with hnil
      · exact hnil
      · rfl
    · cases hw
  · have hword := endsWord_of_getLast? hblank
    refine ⟨fun h => ?_, fun _ => hword, ?_, ?_⟩
    · have hnil : params = [] := by
        by_contra hne
        exact splitWords_ne_nil hword hne (List.getLast?_eq_none_iff.mp h)
      rw [hnil]
      rintro c hc
      cases hc
    · split_ifs with hnil
      · rw [hnil]
        rfl
      · rfl
    · intro w hw v hv
      exact Option.some.inj ((Option.mem_def.mp hv).symm.trans hw)

/-- Under which condition a table whose words are accepted is complete. If its groups announce the
numbers of selector arguments that the code takes, the words must not be short in one of the ways
that are accepted. -/
def AcceptsComplete (known : Bool) (last : Option CStr) (ws : List CStr) : Prop :=
  (TableSameArgs known ws → ¬TableShort known last ws) ∧
    (¬TableSameArgs known ws → TableWhole known ws ∨ TableShort known last ws → Complete ws)

/-- A table with a device that is refused is not accepted; any other one is complete if it is
accepted, exactly under that condition. -/
theorem disassembleMap_complete_iff (alloc : CStr → BitVec 64) (pathvec : List Path)
    (mpp : Multipath) (params : CStr) :
    ((disassembleMap alloc pathvec params mpp).2 = 0 → Complete (splitWords params)) ↔
      (TableStored pathvec mpp.selector.isSome (lastWord params) (splitWords params) →
        AcceptsComplete mpp.selector.isSome (lastWord params) (splitWords params)) := by
  rw [disassembleMap_unread (unread_start params), and_comm, and_imp, AcceptsComplete]
  refine imp_congr_right fun _ => ?_
  by_cases hsame : TableSameArgs mpp.selector.isSome (splitWords params)
  · rw [complete_iff_tableWhole hsame]
    constructor
    · intro h
      exact ⟨fun _ hshort => not_tableWhole_of_short hshort (h (Or.inr hshort)),
        fun hnot => absurd hsame hnot⟩
    · rintro ⟨h, -⟩ hacc
      exact hacc.resolve_right (h hsame)
  · exact ⟨fun h => ⟨fun hc => absurd hc hsame, fun _ => h⟩, fun h => h.2 hsame⟩

end Table

/-- A table that is cut off behind the first of two devices. -/
theorem disassembleMap_incomplete :
    ¬∀ (alloc : CStr → BitVec 64) (pathvec : List Path) (mpp : Multipath) (params : CStr),
      (disassembleMap alloc pathvec params mpp).2 = 0 → Complete (splitWords params) := by
  intro h
  have hcomplete := h (fun _ => 0) [] {} "0 0 1 1 round-robin 0 2 1 8:0".toList rfl
  have hwords : behindArgs (behindArgs (splitWords "0 0 1 1 round-robin 0 2 1 8:0".toList)) =
      ["1".toList, "1".toList, "round-robin".toList, "0".toList, "2".toList, "1".toList,
        "8:0".toList] := by decide
  have hone : number "1".toList = 1 := by decide
  rw [complete_iff, hwords, List.getD_cons_zero, hone] at hcomplete
  have hle := hcomplete.2.1.2
  revert hle
  decide

end MultipathTools.Dmparser
