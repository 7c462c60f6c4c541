import Mathlib.Logic.Function.Basic
import MultipathTools.Prkey.Entries

/-! The file of the reservation keys as a map from WWIDs to keys. -/
namespace MultipathTools.Prkey
open Alias (Io openFile wwidSize)

/-- A call of `set_prkey`. -/
structure SetCall where
  wwid : CStr
  prkey : BitVec 64
  saFlags : BitVec 8
  deriving DecidableEq, Repr

/-- No I/O operation fails. -/
structure Succeeds (io : Io) : Prop where
  opens : io.opens = true
  canWrite : io.canWrite = true
  line_fits : prkeySize + wwidSize ≤ io.room

/-- The file after a call. -/
def SetCall.apply (c : SetCall) (io : Io) (content : CStr) : CStr :=
  (setPrkey io content c.wwid c.prkey c.saFlags).2

/-- The file after some calls, each with its own I/O. -/
def applyAll (calls : List (Io × SetCall)) (content : CStr) : CStr :=
  calls.foldl (fun content call => call.2.apply call.1 content) content

/-- The key and the flags that a call leaves for its WWID. -/
def SetCall.value (c : SetCall) : Option (BitVec 64 × BitVec 8) :=
  if c.prkey ≠ 0 then some (c.prkey, c.saFlags &&& aptplMask) else none

/-- What the last call for the WWID leaves, in a list with the last one first. -/
def lastSet (w : CStr) : List SetCall → Option (BitVec 64 × BitVec 8)
  | [] => none
  | c :: cs => if c.wwid = w then c.value else lastSet w cs

/-- What the entries say of a WWID. -/
def entryValue (es : List Entry) (w : CStr) : Option (BitVec 64 × BitVec 8) :=
  match es.find? (·.wwid = w) with
  | none => none
  | some e => if e.live then some (e.key, e.saFlags) else none

/-- The file holds a map of keys. -/
def Holds (content : CStr) (keys : CStr → Option (BitVec 64 × BitVec 8)) : Prop :=
  ∃ es : List Entry, content = fileOf es ∧ (∀ e ∈ es, IsWwid e.wwid) ∧ ∀ w, keys w = entryValue es w

theorem saFlags_masked : ∀ f : BitVec 8,
    (if f &&& aptplMask ≠ 0 then aptplMask else 0) = f &&& aptplMask := by
  decide

theorem parsePrkey_format (prkey : BitVec 64) (saFlags : BitVec 8) :
    parsePrkey (formatPrkey prkey saFlags) = some prkey := by
  have hlen := length_toHex 16 prkey.toNat
  have hne : toHex 16 prkey.toNat ≠ [] := by
    intro h
    rw [h] at hlen
    cases hlen
  have hx : ∀ c : Char, (if saFlags ≠ 0 then 'X' else 'x') = c → c = 'x' ∨ c = 'X' := by
    intro c hc
    rw [← hc]
    split <;> simp
  have hvalue : BitVec.ofNat 64 (ofHex (toHex 16 prkey.toNat)) = prkey := by
    have hlt : prkey.toNat < 16 ^ 16 := prkey.isLt
    rw [ofHex_toHex, Nat.mod_eq_of_lt hlt, BitVec.ofNat_toNat, BitVec.setWidth_eq]
  have hdigits : (toHex 16 prkey.toNat).takeWhile isxdigit = toHex 16 prkey.toNat :=
    List.takeWhile_eq_self_iff.mpr isxdigit_toHex
  unfold parsePrkey formatPrkey
  simp only [List.head?_cons, if_true, List.tail_cons, Option.some.injEq, hx _ rfl, hne, hlen,
    hdigits, hvalue, lt_irrefl, or_self, ne_eq, not_true_eq_false, if_false]

theorem mem_formatPrkey_iff (prkey : BitVec 64) (saFlags : BitVec 8) :
    'X' ∈ formatPrkey prkey saFlags ↔ saFlags ≠ 0 := by
  have hhex : 'X' ∉ toHex 16 prkey.toNat := fun h => absurd (isxdigit_toHex _ h) (by decide)
  unfold formatPrkey
  by_cases h : saFlags = 0 <;> simp [h, hhex]

theorem fileOf_ne_nil (es : List Entry) : fileOf es ≠ [] := by
  simp [fileOf, headerLines]

theorem openFile_fileOf {io : Io} (hio : Succeeds io) (es : List Entry) :
    openFile io (fileOf es) prkeysFileHeader = (true, fileOf es) := by
  unfold openFile
  rw [hio.opens, if_neg (by simp), if_pos (fileOf_ne_nil es)]

/-- The first entry of a WWID. -/
theorem find_entry (es : List Entry) (w : CStr) :
    (∃ ds e fs, es = ds ++ e :: fs ∧ e.wwid = w ∧ (∀ d ∈ ds, d.wwid ≠ w) ∧
        es.find? (·.wwid = w) = some e) ∨
      (∀ e ∈ es, e.wwid ≠ w) ∧ es.find? (·.wwid = w) = none := by
  cases h : es.find? (·.wwid = w) with
  | none =>
    right
    exact ⟨by simpa using h, rfl⟩
  | some e =>
    obtain ⟨hw, ds, fs, rfl, hds⟩ := List.find?_eq_some_iff_append.mp h
    exact .inl ⟨ds, e, fs, rfl, by simpa using hw, by simpa using hds, rfl⟩

theorem Entry.head_text (e : Entry) : e.text.head? = some '#' ↔ e.live = false := by
  unfold Entry.text Entry.keystr formatPrkey
  cases e.live <;> simp

/-- What `do_prkey` reads. -/
theorem readPrkey_fileOf {w : CStr} (hw : IsWwid w) {es : List Entry}
    (hes : ∀ e ∈ es, IsWwid e.wwid) :
    readPrkey (fileOf es) w =
      (es.find? (·.wwid = w)).bind fun e => if e.live then some e.keystr else none := by
  obtain ⟨ds, e, fs, rfl, rfl, hds, hfind⟩ | ⟨hno, hfind⟩ := find_entry es w
  · obtain ⟨ptr, hloc, htext⟩ := locate_found hes hds
    have hhead : ptr.head? = e.text.head? := by
      rw [← htext]
      cases ptr <;> simp [prkeySize]
    rw [readPrkey, hloc, hfind, Option.bind_some]
    simp only [hhead, htext, e.head_text]
    cases hlive : e.live <;> simp [Entry.text, hlive]
  · rw [readPrkey, locate_absent hw hes hno, hfind, Option.bind_none]

/-- `get_prkey` returns what the entries say. -/
theorem getPrkey_fileOf {io : Io} (hio : Succeeds io) {w : CStr} (hw : IsWwid w) {es : List Entry}
    (hes : ∀ e ∈ es, IsWwid e.wwid) : (getPrkey io (fileOf es) w).1 = entryValue es w := by
  have hflags : ∀ e : Entry, (if e.saFlags ≠ 0 then aptplMask else 0) = e.saFlags := by
    intro e
    unfold Entry.saFlags
    cases e.aptpl <;> decide
  unfold getPrkey entryValue
  rw [if_neg hw.ne_nil, openFile_fileOf hio]
  dsimp only
  rw [if_neg (by simp), readPrkey_fileOf hw hes]
  cases es.find? (·.wwid = w) with
  | none => rfl
  | some e =>
    cases hlive : e.live with
    | false => simp [hlive]
    | true =>
      simp only [hlive, Option.bind_some, if_true, Entry.keystr, parsePrkey_format,
        Option.map_some, mem_formatPrkey_iff, hflags]

theorem safeWrite_replace {io : Io} {a b b' c : CStr} (hlen : b'.length = b.length)
    (hroom : b'.length ≤ io.room) :
    safeWrite io (a ++ (b ++ c)) a.length b' = (true, a ++ (b' ++ c)) := by
  have hdrop : (a ++ (b ++ c)).drop (a.length + b'.length) = c := by
    rw [hlen, ← List.drop_drop, List.drop_left, List.drop_left]
  unfold safeWrite
  dsimp only
  rw [List.take_of_length_le hroom, List.take_left, hdrop, List.append_assoc, decide_eq_true hroom]

theorem safeWrite_append {io : Io} {content b : CStr} (hroom : b.length ≤ io.room) :
    safeWrite io content content.length b = (true, content ++ b) := by
  unfold safeWrite
  dsimp only
  rw [List.take_of_length_le hroom, List.take_length, List.drop_eq_nil_of_le (by omega),
    List.append_nil, decide_eq_true hroom]

/-- The entry that a call writes. -/
def SetCall.entry (c : SetCall) : Entry where
  wwid := c.wwid
  key := c.prkey
  aptpl := c.saFlags &&& aptplMask ≠ 0
  live := true

theorem SetCall.entry_saFlags (c : SetCall) : c.entry.saFlags = c.saFlags &&& aptplMask := by
  rw [← saFlags_masked]
  simp [SetCall.entry, Entry.saFlags]

theorem SetCall.entry_line (c : SetCall) :
    c.entry.line = formatPrkey c.prkey (c.saFlags &&& aptplMask) ++ ' ' :: c.wwid := by
  rw [← c.entry_saFlags]
  rfl

theorem fileOf_split (ds : List Entry) (e : Entry) (fs : List Entry) :
    fileOf (ds ++ e :: fs) = unlines (headerLines ++ ds.map Entry.line) ++
      (e.line ++ '\n' :: unlines (fs.map Entry.line)) := by
  simp [fileOf]

theorem entryValue_at {ds fs : List Entry} {e : Entry} (hds : ∀ d ∈ ds, d.wwid ≠ e.wwid) :
    entryValue (ds ++ e :: fs) e.wwid = if e.live then some (e.key, e.saFlags) else none := by
  have hfind : (ds ++ e :: fs).find? (·.wwid = e.wwid) = some e :=
    List.find?_eq_some_iff_append.mpr ⟨by simp, ds, fs, rfl, by simpa using hds⟩
  rw [entryValue, hfind]

theorem entryValue_other {ds fs : List Entry} {e : Entry} {v : CStr} (hv : e.wwid ≠ v) :
    entryValue (ds ++ e :: fs) v = entryValue (ds ++ fs) v := by
  unfold entryValue
  rw [List.find?_append, List.find?_append, List.find?_cons_of_neg (by simpa using hv)]

/-- An entry in the place of another one of the same WWID. -/
theorem entryValue_replace {ds fs : List Entry} {e : Entry} (e' : Entry)
    (hds : ∀ d ∈ ds, d.wwid ≠ e.wwid) (he : e'.wwid = e.wwid) (v : CStr) : entryValue (ds ++ e' :: fs) v =
      if v = e.wwid then if e'.live then some (e'.key, e'.saFlags) else none
      else entryValue (ds ++ e :: fs) v := by
  split
  · rename_i hv
    rw [hv, ← he]
    exact entryValue_at (by rwa [he])
  · rename_i hv
    rw [entryValue_other (by rw [he]; exact Ne.symm hv), entryValue_other (Ne.symm hv)]

theorem entryValue_absent {es : List Entry} {w : CStr} (hno : ∀ e ∈ es, e.wwid ≠ w) :
    entryValue es w = none := by
  have hfind : es.find? (·.wwid = w) = none := by simpa using hno
  rw [entryValue, hfind]

theorem line_room {io : Io} (hio : Succeeds io) {e : Entry} (he : IsWwid e.wwid) :
    (e.line ++ ['\n']).length ≤ io.room := by
  have := hio.line_fits
  have := he.length_lt
  rw [List.length_append, e.length_line, List.length_singleton]
  omega

def Entry.deleted (e : Entry) : Entry := { e with live := false }

/-- A deleted entry differs from a live one in the first character of its line. -/
theorem Entry.line_deleted (e : Entry) : e.deleted.line = '#' :: e.line.tail := by
  unfold Entry.line Entry.text Entry.deleted
  cases e.live <;> simp [Entry.keystr, Entry.saFlags, formatPrkey]

theorem Entry.line_cons (e : Entry) : ∃ d l, e.line = d :: l := by
  apply List.exists_cons_of_length_pos
  rw [e.length_line]
  unfold prkeySize
  omega

theorem forall_replace {ds fs : List Entry} {e e' : Entry}
    (hes : ∀ d ∈ ds ++ e :: fs, IsWwid d.wwid) (he : e.wwid = e'.wwid) :
    ∀ d ∈ ds ++ e' :: fs, IsWwid d.wwid := by
  intro d hd
  obtain hd | hd := List.mem_append.mp hd
  · exact hes d (List.mem_append_left _ hd)
  · obtain rfl | hd := List.mem_cons.mp hd
    · rw [← he]
      exact hes e (by simp)
    · exact hes d (List.mem_append_right _ (List.mem_cons_of_mem _ hd))

theorem Succeeds.byte_fits {io : Io} (hio : Succeeds io) : ['#'].length ≤ io.room := by
  have := hio.line_fits
  unfold prkeySize at this
  rw [List.length_singleton]
  omega

/-- What a call does to the entries. -/
theorem setPrkey_fileOf {io : Io} (hio : Succeeds io) {c : SetCall} (hc : IsWwid c.wwid)
    {es : List Entry} (hes : ∀ e ∈ es, IsWwid e.wwid) :
    ∃ es', c.apply io (fileOf es) = fileOf es' ∧ (∀ e ∈ es', IsWwid e.wwid) ∧
      ∀ v, entryValue es' v = if v = c.wwid then c.value else entryValue es v := by
  have hbuf : formatPrkey c.prkey (c.saFlags &&& aptplMask) ++ ' ' :: (c.wwid ++ ['\n']) =
      c.entry.line ++ ['\n'] := by
    rw [c.entry_line, List.append_assoc, List.cons_append]
  have hroom := line_room hio (e := c.entry) hc
  unfold SetCall.apply setPrkey
  simp only [if_neg hc.ne_nil, openFile_fileOf hio, hio.canWrite, Bool.not_true,
    Bool.false_eq_true, if_false]
  obtain ⟨ds, e, fs, rfl, he, hds, -⟩ | ⟨hno, -⟩ := find_entry es c.wwid
  · have hloc : ∃ ptr, locate (fileOf (ds ++ e :: fs)) c.wwid =
        .found (unlines (headerLines ++ ds.map Entry.line)).length ptr := by
      rw [← he] at hds ⊢
      obtain ⟨ptr, h, -⟩ := locate_found hes hds
      exact ⟨ptr, h⟩
    obtain ⟨ptr, hloc⟩ := hloc
    rw [← he] at hds
    by_cases hkey : c.prkey = 0
    · refine ⟨ds ++ e.deleted :: fs, ?_, ?_, ?_⟩
      · simp only [hkey, ne_eq, not_true_eq_false, if_false, writePrkey, hloc]
        obtain ⟨d, l, hline⟩ := e.line_cons
        rw [fileOf_split, fileOf_split, e.line_deleted, hline, List.cons_append,
          ← List.singleton_append, @safeWrite_replace io _ [d] ['#'] _ rfl hio.byte_fits]
        rfl
      · exact forall_replace hes rfl
      · intro v
        rw [entryValue_replace e.deleted hds rfl, he, SetCall.value,
          if_neg (not_not.mpr hkey)]
        rfl
    · refine ⟨ds ++ c.entry :: fs, ?_, ?_, ?_⟩
      · simp only [hkey, ne_eq, not_false_eq_true, if_true, writePrkey, hloc, hbuf]
        have hlen : (c.entry.line ++ ['\n']).length = (e.line ++ ['\n']).length := by
          rw [List.length_append, List.length_append, c.entry.length_line, e.length_line, he]
          rfl
        rw [fileOf_split, fileOf_split, ← List.singleton_append, ← List.append_assoc e.line,
          safeWrite_replace hlen hroom, List.append_assoc]
      · exact forall_replace hes he
      · intro v
        rw [entryValue_replace c.entry hds he.symm, he, SetCall.value, if_pos hkey,
          ← c.entry_saFlags]
        rfl
  · by_cases hkey : c.prkey = 0
    · refine ⟨es, ?_, hes, ?_⟩
      · simp only [hkey, ne_eq, not_true_eq_false, if_false, writePrkey, locate_absent hc hes hno]
      · intro v
        split
        · rename_i hv
          rw [hv, entryValue_absent hno, SetCall.value, if_neg (not_not.mpr hkey)]
        · rfl
    · refine ⟨es ++ [c.entry], ?_, ?_, ?_⟩
      · simp only [hkey, ne_eq, not_false_eq_true, if_true, writePrkey, locate_absent hc hes hno,
          hbuf, safeWrite_append hroom]
        simp [fileOf]
      · intro d hd
        obtain hd | hd := List.mem_append.mp hd
        · exact hes d hd
        · rw [List.mem_singleton.mp hd]
          exact hc
      · intro v
        by_cases hv : v = c.wwid
        · rw [if_pos hv, hv, SetCall.value, if_pos hkey, ← c.entry_saFlags]
          exact entryValue_at hno
        · rw [if_neg hv, entryValue_other (Ne.symm hv), List.append_nil]

/-- The file that `open_file` creates. -/
theorem holds_header : Holds prkeysFileHeader fun _ => none :=
  ⟨[], by simp [fileOf, prkeysFileHeader], by simp, fun _ => rfl⟩

/-- The step lemma: a call sets the value of its WWID and leaves the others. -/
theorem Holds.apply {io : Io} (hio : Succeeds io) {c : SetCall} (hc : IsWwid c.wwid) {content : CStr}
    {keys : CStr → Option (BitVec 64 × BitVec 8)} (h : Holds content keys) :
    Holds (c.apply io content) (Function.update keys c.wwid c.value) := by
  obtain ⟨es, rfl, hes, hkeys⟩ := h
  obtain ⟨es', hfile, hes', hvalue⟩ := setPrkey_fileOf hio hc hes
  refine ⟨es', hfile, hes', ?_⟩
  intro v
  rw [Function.update_apply, hvalue, hkeys]

theorem Holds.applyAll {calls : List (Io × SetCall)}
    (hcalls : ∀ c ∈ calls, Succeeds c.1 ∧ IsWwid c.2.wwid) {content : CStr}
    {keys : CStr → Option (BitVec 64 × BitVec 8)} (h : Holds content keys) :
    Holds (applyAll calls content)
      ((calls.map Prod.snd).foldl (fun keys c => Function.update keys c.wwid c.value) keys) := by
  induction calls generalizing content keys with
  | nil => exact h
  | cons c calls ih =>
    obtain ⟨hc, hcalls'⟩ := List.forall_mem_cons.mp hcalls
    exact ih hcalls' (h.apply hc.1 hc.2)

theorem foldl_update (w : CStr) (cs : List SetCall) :
    cs.foldl (fun keys c => Function.update keys c.wwid c.value) (fun _ => none) w =
      lastSet w cs.reverse := by
  induction cs using List.reverseRecOn with
  | nil => rfl
  | append_singleton cs c ih =>
    rw [List.foldl_append, List.reverse_append, List.foldl_cons, List.foldl_nil,
      Function.update_apply, ih]
    simp only [List.reverse_singleton, List.singleton_append, lastSet, eq_comm]

theorem Holds.getPrkey {io : Io} (hio : Succeeds io) {w : CStr} (hw : IsWwid w) {content : CStr}
    {keys : CStr → Option (BitVec 64 × BitVec 8)} (h : Holds content keys) :
    (getPrkey io content w).1 = keys w := by
  obtain ⟨es, rfl, hes, hkeys⟩ := h
  rw [hkeys, getPrkey_fileOf hio hw hes]

/-- After any calls of `set_prkey` on the file that `open_file` creates, `get_prkey` returns what
the last call for the WWID has set, and a call for another WWID does not change that. -/
theorem applyAll_getPrkey (calls : List (Io × SetCall))
    (hcalls : ∀ c ∈ calls, Succeeds c.1 ∧ IsWwid c.2.wwid) (io : Io) (hio : Succeeds io) (w : CStr)
    (hw : IsWwid w) :
    (getPrkey io (applyAll calls prkeysFileHeader) w).1 =
        lastSet w (calls.map Prod.snd).reverse ∧
      ∀ c : SetCall, IsWwid c.wwid → c.wwid ≠ w →
        (getPrkey io (c.apply io (applyAll calls prkeysFileHeader)) w).1 =
          (getPrkey io (applyAll calls prkeysFileHeader) w).1 := by
  have hholds := holds_header.applyAll hcalls
  constructor
  · rw [hholds.getPrkey hio hw, foldl_update]
  · intro c hc hne
    rw [(hholds.apply hio hc).getPrkey hio hw, hholds.getPrkey hio hw,
      Function.update_of_ne hne.symm]

theorem applyAll_getPrkey_restored :
    (getPrkey { room := 200 } (applyAll [({ room := 200 }, ⟨"3600b".toList, 0x1234, 1⟩),
        ({ room := 200 }, ⟨"600b".toList, 7, 0⟩), ({ room := 200 }, ⟨"3600b".toList, 0, 0⟩),
        ({ room := 200 }, ⟨"3600b".toList, 9, 1⟩)] prkeysFileHeader) "3600b".toList).1 =
      some (9, 1) := by
  have hio : Succeeds { room := 200 } := ⟨rfl, rfl, by decide⟩
  have hlong : IsWwid "3600b".toList := by constructor <;> decide
  have hshort : IsWwid "600b".toList := by constructor <;> decide
  apply (applyAll_getPrkey _ _ _ hio _ hlong).1.trans
  · decide
  · intro c hc
    simp only [List.mem_cons, List.not_mem_nil, or_false] at hc
    obtain rfl | rfl | rfl | rfl := hc
    · exact ⟨hio, hlong⟩
    · exact ⟨hio, hshort⟩
    · exact ⟨hio, hlong⟩
    · exact ⟨hio, hlong⟩

end MultipathTools.Prkey
