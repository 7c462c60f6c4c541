import Mathlib.Data.List.Count
import Mathlib.Data.List.Nodup
import Mathlib.Data.Set.Insert
import MultipathTools.Wwids.Entries

/-! The file of the known WWIDs as a set. -/
namespace MultipathTools.Wwids
open Alias (Io openFile)

inductive WwidOp where
  | remember (wwid : CStr)
  | remove (wwid : CStr)
  | replace (wwids : List CStr)
  deriving DecidableEq, Repr

/-- The WWIDs of an operation may be written to the file; those of a replacement are different
ones. -/
def WwidOp.Ok : WwidOp → Prop
  | .remember w | .remove w => IsWwid w
  | .replace ws => (∀ w ∈ ws, IsWwid w) ∧ ws.Nodup

/-- No I/O operation fails. -/
structure Succeeds (io : Io) : Prop where
  opens : io.opens = true
  canWrite : io.canWrite = true
  truncates : io.truncates = true
  header_fits : wwidsFileHeader.length ≤ io.room
  line_fits : Alias.wwidSize + 3 ≤ io.room

/-- The file after an operation. -/
def WwidOp.apply (op : WwidOp) (io : Io) (content : CStr) : CStr :=
  match op with
  | .remember w => (rememberWwid io content w).2
  | .remove w => (removeWwid io content w).2
  | .replace ws => (replaceWwids io content ws).2

/-- The file after some operations, each with its own I/O. -/
def applyAll (calls : List (Io × WwidOp)) (content : CStr) : CStr :=
  calls.foldl (fun content call => call.2.apply call.1 content) content

/-- What an operation does to a set of WWIDs. -/
def WwidOp.members (s : Set CStr) : WwidOp → Set CStr
  | .remember w => insert w s
  | .remove w => s \ {w}
  | .replace ws => {w | w ∈ ws}

/-- The last operation that concerns the WWID, in a list with the last one first, has added it. -/
def lastAdded (w : CStr) : List WwidOp → Bool
  | [] => false
  | .remember v :: ops => if v = w then true else lastAdded w ops
  | .remove v :: ops => if v = w then false else lastAdded w ops
  | .replace ws :: _ => ws.contains w

theorem mem_foldl_members (w : CStr) (ops : List WwidOp) :
    w ∈ ops.foldl WwidOp.members ∅ ↔ lastAdded w ops.reverse = true := by
  induction ops using List.reverseRecOn with
  | nil => simp [lastAdded]
  | append_singleton ops op ih =>
    rw [List.foldl_append, List.reverse_append]
    cases op with
    | remember v =>
      by_cases h : v = w
      · simp [WwidOp.members, lastAdded, h]
      · simp [WwidOp.members, lastAdded, h, Ne.symm h, ih]
    | remove v =>
      by_cases h : v = w
      · simp [WwidOp.members, lastAdded, h]
      · simp [WwidOp.members, lastAdded, h, Ne.symm h, ih]
    | replace ws => simp [WwidOp.members, lastAdded]

/-- The file holds a set of WWIDs: each element that can be found has one active entry, and any
other WWID that could be found has none. -/
def Holds (content : CStr) (s : Set CStr) : Prop :=
  ∃ es : List Entry, content = fileOf es ∧ (∀ e ∈ es, IsWwid e.wwid) ∧
    ∀ w, Unsigned w → (w ∈ s ∧ es.count ⟨w, true⟩ = 1) ∨ (w ∉ s ∧ es.count ⟨w, true⟩ = 0)

theorem fileOf_ne_nil (es : List Entry) : fileOf es ≠ [] := by
  simp [fileOf, headerLines]

/-- The file that `open_file` creates. -/
theorem holds_header : Holds wwidsFileHeader ∅ :=
  ⟨[], by simp [fileOf, wwidsFileHeader], by simp, by simp⟩

theorem openFile_fileOf {io : Io} (hio : Succeeds io) (es : List Entry) (header : CStr) :
    openFile io (fileOf es) header = (true, fileOf es) := by
  unfold openFile
  rw [hio.opens, if_neg (by simp), if_pos (fileOf_ne_nil es)]

/-- A WWID is appended as an active entry. -/
theorem writeOutWwid_fileOf {io : Io} (hio : Succeeds io) {w : CStr} (hw : IsWwid w)
    (es : List Entry) : writeOutWwid io (fileOf es) w = (1, fileOf (es ++ [⟨w, true⟩])) := by
  have hlen := hw.length_lt
  have hroom := hio.line_fits
  have hline : ('/' :: (w ++ ['/', '\n'])).length = w.length + 3 := by simp
  have happend : io.append (fileOf es) ('/' :: (w ++ ['/', '\n'])) =
      (true, fileOf (es ++ [⟨w, true⟩])) := by
    unfold Io.append
    rw [if_pos (by omega)]
    simp [fileOf, Entry.line]
  unfold writeOutWwid
  dsimp only
  rw [if_neg (by omega), happend]
  rfl

theorem Holds.lookup {content : CStr} {s : Set CStr} (h : Holds content s) {w : CStr}
    (hw : w.length < Alias.wwidSize) :
    lookupWwid w content = true ↔ Unsigned w ∧ w ∈ s := by
  obtain ⟨es, rfl, hes, hcount⟩ := h
  rw [lookupWwid_fileOf hw hes, ← List.count_pos_iff]
  refine and_congr_right fun hu => ?_
  obtain ⟨hmem, hone⟩ | ⟨hmem, hzero⟩ := hcount w hu
  · exact iff_of_true (by omega) hmem
  · exact iff_of_false (by omega) hmem

theorem Holds.append {es : List Entry} {s : Set CStr} {w : CStr} (hw : IsWwid w)
    (hes : ∀ e ∈ es, IsWwid e.wwid)
    (hcount : ∀ v, Unsigned v →
      (v ∈ s ∧ es.count ⟨v, true⟩ = 1) ∨ (v ∉ s ∧ es.count ⟨v, true⟩ = 0))
    (hno : Unsigned w → w ∉ s) : Holds (fileOf (es ++ [⟨w, true⟩])) (insert w s) := by
  refine ⟨_, rfl, ?_, fun v hv => ?_⟩
  · intro e he
    obtain he | he := List.mem_append.mp he
    · exact hes e he
    · rw [List.mem_singleton.mp he]
      exact hw
  · rw [List.count_append, List.count_singleton]
    by_cases hvw : v = w
    · subst hvw
      have hzero := ((hcount v hv).resolve_left fun h => hno hv h.1).2
      exact .inl ⟨Set.mem_insert v s, by simp [hzero]⟩
    · simpa [hvw, Ne.symm hvw] using hcount v hv

theorem Holds.remember {io : Io} (hio : Succeeds io) {content : CStr} {s : Set CStr} {w : CStr}
    (hw : IsWwid w) (h : Holds content s) : Holds (rememberWwid io content w).2 (insert w s) := by
  have hfound := h.lookup hw.length_lt
  obtain ⟨es, rfl, hes, hcount⟩ := h
  unfold rememberWwid checkWwidsFile
  simp only [openFile_fileOf hio]
  by_cases hin : Unsigned w ∧ w ∈ s
  · simp only [hfound.mpr hin, Bool.not_true, Bool.false_eq_true, if_false, if_true]
    rw [Set.insert_eq_of_mem hin.2]
    exact ⟨es, rfl, hes, hcount⟩
  · have hno : lookupWwid w (fileOf es) = false := by
      rw [← Bool.not_eq_true]
      exact mt hfound.mp hin
    simp only [hno, hio.canWrite, writeOutWwid_fileOf hio hw, Bool.not_true, Bool.false_eq_true,
      if_false]
    exact Holds.append hw hes hcount fun hu hmem => hin ⟨hu, hmem⟩

/-- Deactivating the entry of a WWID takes it out of the set. -/
theorem Holds.deactivate {pre post : List Entry} {s : Set CStr} {w : CStr}
    (hes : ∀ e ∈ pre ++ ⟨w, true⟩ :: post, IsWwid e.wwid)
    (hcount : ∀ v, Unsigned v → (v ∈ s ∧ (pre ++ ⟨w, true⟩ :: post).count ⟨v, true⟩ = 1) ∨
      (v ∉ s ∧ (pre ++ ⟨w, true⟩ :: post).count ⟨v, true⟩ = 0)) :
    Holds (fileOf (pre ++ ⟨w, false⟩ :: post)) (s \ {w}) := by
  refine ⟨_, rfl, ?_, fun v hv => ?_⟩
  · intro e he
    obtain he | he := List.mem_append.mp he
    · exact hes e (List.mem_append_left _ he)
    · obtain rfl | he := List.mem_cons.mp he
      · exact hes ⟨w, true⟩ (by simp)
      · exact hes e (List.mem_append_right _ (List.mem_cons_of_mem _ he))
  · have hold := hcount v hv
    simp only [List.count_append, List.count_cons, beq_iff_eq, Entry.mk.injEq, Bool.false_eq_true,
      and_true, and_false, if_false, Set.mem_sdiff, Set.mem_singleton_iff] at hold ⊢
    by_cases hvw : v = w
    · subst hvw
      rw [if_pos rfl] at hold
      exact .inr ⟨fun h => h.2 rfl, by omega⟩
    · rw [if_neg (Ne.symm hvw)] at hold
      simpa [hvw] using hold

theorem Holds.remove {io : Io} (hio : Succeeds io) {content : CStr} {s : Set CStr} {w : CStr}
    (hw : IsWwid w) (h : Holds content s) : Holds (removeWwid io content w).2 (s \ {w}) := by
  obtain ⟨es, rfl, hes, hcount⟩ := h
  unfold removeWwid
  simp only [openFile_fileOf hio, hio.canWrite, Bool.not_true, Bool.false_eq_true, if_false]
  by_cases hin : (⟨w, true⟩ : Entry) ∈ es
  · obtain ⟨pre, post, rfl, hfirst⟩ := List.eq_append_cons_of_mem hin
    rw [doRemoveWwid_fileOf hw hes hfirst]
    exact Holds.deactivate hes hcount
  · rw [doRemoveWwid_none hw hes hin]
    refine ⟨es, rfl, hes, fun v hv => ?_⟩
    by_cases hvw : v = w
    · exact .inr ⟨fun h => h.2 hvw, List.count_eq_zero_of_not_mem (hvw ▸ hin)⟩
    · simpa [hvw] using hcount v hv

theorem writeOutWwids_fileOf {io : Io} (hio : Succeeds io) {ws : List CStr}
    (hws : ∀ w ∈ ws, IsWwid w) (es : List Entry) :
    writeOutWwids io (fileOf es) ws = (0, fileOf (es ++ ws.map fun w => ⟨w, true⟩)) := by
  induction ws generalizing es with
  | nil => simp [writeOutWwids]
  | cons w ws ih =>
    obtain ⟨hw, hws'⟩ := List.forall_mem_cons.mp hws
    rw [writeOutWwids, writeOutWwid_fileOf hio hw]
    dsimp only
    rw [if_neg (by omega), ih hws', List.map_cons, List.append_assoc, List.singleton_append]

theorem Holds.replace {io : Io} (hio : Succeeds io) {content : CStr} {s : Set CStr} {ws : List CStr}
    (hws : ∀ w ∈ ws, IsWwid w) (hnodup : ws.Nodup) (h : Holds content s) :
    Holds (replaceWwids io content ws).2 {w | w ∈ ws} := by
  obtain ⟨es, rfl, -⟩ := h
  have hheader : io.append [] wwidsFileHeader = (true, fileOf []) := by
    rw [Io.append, if_pos hio.header_fits]
    simp [fileOf, wwidsFileHeader]
  unfold replaceWwids
  simp only [openFile_fileOf hio, hio.canWrite, hio.truncates, hheader, Bool.not_true,
    Bool.false_eq_true, if_false, writeOutWwids_fileOf hio hws, List.nil_append]
  refine ⟨_, rfl, ?_, fun w _ => ?_⟩
  · intro e he
    obtain ⟨w, hw, rfl⟩ := List.mem_map.mp he
    exact hws w hw
  · have hinj : Function.Injective fun w => (⟨w, true⟩ : Entry) := fun v w h => (Entry.mk.inj h).1
    rw [List.count_map_of_injective _ _ hinj]
    by_cases hw : w ∈ ws
    · exact .inl ⟨hw, List.count_eq_one_of_mem hnodup hw⟩
    · exact .inr ⟨hw, List.count_eq_zero_of_not_mem hw⟩

/-- The step lemma: the file goes on holding the set that the operations make. -/
theorem Holds.apply {io : Io} (hio : Succeeds io) {content : CStr} {s : Set CStr} (op : WwidOp)
    (hop : op.Ok) (h : Holds content s) : Holds (op.apply io content) (op.members s) := by
  cases op with
  | remember w => exact h.remember hio hop
  | remove w => exact h.remove hio hop
  | replace ws => exact h.replace hio hop.1 hop.2

theorem Holds.applyAll {calls : List (Io × WwidOp)} (hcalls : ∀ c ∈ calls, Succeeds c.1 ∧ c.2.Ok)
    {content : CStr} {s : Set CStr} (h : Holds content s) :
    Holds (applyAll calls content) ((calls.map Prod.snd).foldl WwidOp.members s) := by
  induction calls generalizing content s with
  | nil => exact h
  | cons c calls ih =>
    obtain ⟨hc, hcalls'⟩ := List.forall_mem_cons.mp hcalls
    exact ih hcalls' (h.apply hc.1 _ hc.2)

/-- After any operations on the file that `open_file` creates, a WWID is found iff the last
operation that concerns it has added it, unless it has a negative character: such a WWID is never
found. An operation on another WWID does not change what is found. -/
theorem applyAll_lookup_iff (calls : List (Io × WwidOp))
    (hcalls : ∀ c ∈ calls, Succeeds c.1 ∧ c.2.Ok) (io : Io) (hio : Succeeds io) (w : CStr)
    (hw : IsWwid w) :
    ((lookupWwid w (applyAll calls wwidsFileHeader) = true ↔
        lastAdded w (calls.map Prod.snd).reverse = true) ↔
      (Unsigned w ∨ lastAdded w (calls.map Prod.snd).reverse = false)) ∧
    (((checkWwidsFile io (applyAll calls wwidsFileHeader) w false).1 = 0 ↔
        lastAdded w (calls.map Prod.snd).reverse = true) ↔
      (Unsigned w ∨ lastAdded w (calls.map Prod.snd).reverse = false)) ∧
    ∀ v, IsWwid v → v ≠ w →
      lookupWwid w ((WwidOp.remember v).apply io (applyAll calls wwidsFileHeader)) =
          lookupWwid w (applyAll calls wwidsFileHeader) ∧
        lookupWwid w ((WwidOp.remove v).apply io (applyAll calls wwidsFileHeader)) =
          lookupWwid w (applyAll calls wwidsFileHeader) := by
  have hholds := holds_header.applyAll hcalls
  have hlookup := hholds.lookup hw.length_lt
  rw [mem_foldl_members] at hlookup
  have hiff : (lookupWwid w (applyAll calls wwidsFileHeader) = true ↔
      lastAdded w (calls.map Prod.snd).reverse = true) ↔
      (Unsigned w ∨ lastAdded w (calls.map Prod.snd).reverse = false) := by
    rw [hlookup, and_iff_right_iff_imp, ← Bool.not_eq_true, ← imp_iff_or_not]
  refine ⟨hiff, ?_, fun v hv hne => ⟨?_, ?_⟩⟩
  · obtain ⟨es, hes, -⟩ := hholds
    rw [← hiff, hes]
    unfold checkWwidsFile
    simp only [openFile_fileOf hio]
    cases lookupWwid w (fileOf es) <;> simp
  · have h := (hholds.apply hio (.remember v) hv).lookup hw.length_lt
    rw [Bool.eq_iff_iff, h, hholds.lookup hw.length_lt]
    simp [WwidOp.members, hne.symm]
  · have h := (hholds.apply hio (.remove v) hv).lookup hw.length_lt
    rw [Bool.eq_iff_iff, h, hholds.lookup hw.length_lt]
    simp [WwidOp.members, hne.symm]

/-- Two WWIDs, one the end of the other, are written, and the shorter one is removed. -/
theorem applyAll_lookup_iff_removed :
    lookupWwid "3600b".toList (applyAll [({ room := 1000 }, .replace ["3600b".toList, "600b".toList]),
      ({ room := 1000 }, .remove "600b".toList)] wwidsFileHeader) = true := by
  have hio : Succeeds { room := 1000 } := ⟨rfl, rfl, rfl, by decide +kernel, by decide⟩
  have hlong : IsWwid "3600b".toList := by constructor <;> decide
  have hshort : IsWwid "600b".toList := by constructor <;> decide
  have hreplace : (WwidOp.replace ["3600b".toList, "600b".toList]).Ok :=
    ⟨List.forall_mem_cons.mpr ⟨hlong, List.forall_mem_cons.mpr ⟨hshort, by simp⟩⟩, by decide⟩
  refine ((applyAll_lookup_iff _ ?_ _ hio _ hlong).1.mpr (.inl (by decide))).mpr (by decide)
  intro c hc
  obtain rfl | hc := List.mem_cons.mp hc
  · exact ⟨hio, hreplace⟩
  · obtain rfl := List.mem_singleton.mp hc
    exact ⟨hio, hshort⟩

/-- A WWID with a byte from `0x80` on. -/
def umlautWwid : CStr := "3600\xe4".toList

/-- It is remembered, and not found. -/
theorem applyAll_lookup_fails :
    ¬ ∀ (calls : List (Io × WwidOp)), (∀ c ∈ calls, Succeeds c.1 ∧ c.2.Ok) →
      ∀ w, IsWwid w → (lookupWwid w (applyAll calls wwidsFileHeader) = true ↔
        lastAdded w (calls.map Prod.snd).reverse = true) := by
  intro h
  have hio : Succeeds { room := 1000 } := ⟨rfl, rfl, rfl, by decide +kernel, by decide⟩
  have hw : IsWwid umlautWwid := by constructor <;> decide
  have hfound := (h [({ room := 1000 }, .remember umlautWwid)]
    (List.forall_mem_singleton.mpr ⟨hio, hw⟩) umlautWwid hw).mpr (by decide)
  revert hfound
  decide +kernel

end MultipathTools.Wwids
