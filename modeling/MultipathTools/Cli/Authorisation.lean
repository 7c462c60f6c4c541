import MultipathTools.Base.BinarySum
import MultipathTools.Cli.Handlers

/-! Who may execute which command. A client that is not root passes `uxsock_trigger` with a
prefix of the text; the handler is then found by a sum of keyword codes. -/
namespace MultipathTools.Cli

open MultipathTools.Parser

/-- The keywords that only say what a command applies to. -/
def Keyword.isArgument : Keyword → Bool
  | .paths | .maps | .path | .map | .group | .daemon | .status | .stats | .topology | .config
  | .blacklist | .devices | .raw | .wildcards | .fmt | .json | .key | .localConf => true
  | _ => false

/-- The handler lists something that the keywords of the text ask for. -/
def ReadOnly (h : Handler) (v : List Keyword) : Prop :=
  h.keywords.count .list = 1 ∧ ∀ kw ∈ h.keywords, kw ≠ .list → kw.isArgument = true ∧ kw ∈ v

theorem Keyword.bit_injective : Function.Injective Keyword.bit := fun a b h => by
  rw [← Keyword.ofNat_ctorIdx a, ← Keyword.ofNat_ctorIdx b]
  exact congrArg Keyword.ofNat h

theorem Keyword.bit_lt (kw : Keyword) : kw.bit < 43 := by
  cases kw <;> decide

theorem Keyword.code_toNat (kw : Keyword) : kw.code.toNat = 2 ^ kw.bit := by
  have h : 2 ^ kw.bit < 2 ^ 43 := Nat.pow_lt_pow_right (by decide) kw.bit_lt
  rw [Keyword.code, UInt64.toNat_ofNat', Nat.mod_eq_of_lt (h.trans (by decide))]

theorem fingerprint_toNat (v : List Keyword) :
    (fingerprint v).toNat = binSum (v.map Keyword.bit) % 2 ^ 64 := by
  induction v with
  | nil => rfl
  | cons kw v ih =>
    rw [fingerprint, UInt64.toNat_add, ih, Keyword.code_toNat]
    simp

theorem map_bit_nodup {v : List Keyword} : (v.map Keyword.bit).Nodup ↔ v.Nodup :=
  List.nodup_map_iff Keyword.bit_injective

theorem mem_map_bit {v : List Keyword} {kw : Keyword} : kw.bit ∈ v.map Keyword.bit ↔ kw ∈ v :=
  List.mem_map_of_injective Keyword.bit_injective

theorem map_bit_lt (v : List Keyword) : ∀ i ∈ v.map Keyword.bit, i < 43 := by
  simpa using fun kw _ => Keyword.bit_lt kw

/-- What the table of handlers guarantees of each of them. -/
structure Handler.Registered (h : Handler) : Prop where
  fingerprint_eq : h.fingerprint = Cli.fingerprint h.keywords
  nodup : h.keywords.Nodup
  list_args : .list ∈ h.keywords → ∀ kw ∈ h.keywords, kw ≠ .list → kw.isArgument = true

theorem registered_of_mem {h : Handler} (hh : h ∈ handlers) : h.Registered := by
  have hall : ∀ h ∈ handlers, h.fingerprint = fingerprint h.keywords ∧ h.keywords.Nodup ∧
      (.list ∈ h.keywords → ∀ kw ∈ h.keywords, kw ≠ .list → kw.isArgument = true) := by
    decide +kernel
  obtain ⟨h₁, h₂, h₃⟩ := hall h hh
  exact ⟨h₁, h₂, h₃⟩

theorem findHandler_eq_some {hs : List Handler} {fp : UInt64} {h : Handler}
    (hf : findHandler hs fp = some h) : h ∈ hs ∧ h.fingerprint = fp := by
  refine ⟨List.mem_of_find?_eq_some hf, ?_⟩
  have hp := List.find?_some hf
  simpa using hp

theorem findHandler_registered {fp : UInt64} {h : Handler}
    (hf : findHandler handlers fp = some h) : h.Registered ∧ h.fingerprint = fp :=
  (findHandler_eq_some hf).imp_left registered_of_mem

/-- The handler's own sum is the sum of the keywords, up to a wrap of the 64 bits. -/
theorem binSum_handler {v : List Keyword} {h : Handler}
    (hf : findHandler handlers (fingerprint v) = some h) :
    binSum (h.keywords.map Keyword.bit) = binSum (v.map Keyword.bit) % 2 ^ 64 := by
  obtain ⟨hr, hfp⟩ := findHandler_registered hf
  have hlt := binSum_lt (map_bit_nodup.mpr hr.nodup) (map_bit_lt h.keywords)
  rw [← fingerprint_toNat, ← hfp, hr.fingerprint_eq, fingerprint_toNat,
    Nat.mod_eq_of_lt (hlt.trans (by decide))]

/-- The handler that is found belongs to the set of keywords exactly when what the repeated
keywords add to the sum is lost by wrapping. -/
theorem handler_keywords_iff {v : List Keyword} {h : Handler}
    (hf : findHandler handlers (fingerprint v) = some h) :
    (∀ kw, kw ∈ h.keywords ↔ kw ∈ v) ↔ 2 ^ 64 ∣ surplus (v.map Keyword.bit) := by
  have hr := (findHandler_registered hf).1
  have hsum := binSum_handler hf
  have hnd := map_bit_nodup.mpr hr.nodup
  rw [binSum_eq_add_surplus (v.map _)] at hsum
  have hlt : ∑ i ∈ (v.map Keyword.bit).toFinset, 2 ^ i < 2 ^ 64 :=
    (sum_toFinset_lt (map_bit_lt v)).trans (by decide)
  constructor
  · intro hset
    have hfin : (h.keywords.map Keyword.bit).toFinset = (v.map Keyword.bit).toFinset := by
      ext i
      simp [hset]
    rw [binSum_eq_sum_toFinset hnd, hfin] at hsum
    omega
  · intro hdvd kw
    have heq : binSum (h.keywords.map Keyword.bit) = binSum (v.dedup.map Keyword.bit) := by
      rw [binSum_eq_sum_toFinset (map_bit_nodup.mpr v.nodup_dedup)]
      have hfin : (v.dedup.map Keyword.bit).toFinset = (v.map Keyword.bit).toFinset := by
        ext i
        simp
      rw [hfin]
      omega
    rw [← mem_map_bit, mem_iff_of_binSum_eq hnd (map_bit_nodup.mpr v.nodup_dedup) heq,
      mem_map_bit, List.mem_dedup]

/-- For fewer keywords than would wrap the sum: a handler for a part of the keywords of the
text that it was found by is a handler for all of them, none of them repeated. -/
theorem nodup_of_handler_subset {v : List Keyword} {h : Handler} (hlen : v.length < 2 ^ 20)
    (hf : findHandler handlers (fingerprint v) = some h) (hsub : ∀ kw ∈ h.keywords, kw ∈ v) :
    v.Nodup := by
  have hr := (findHandler_registered hf).1
  have hnd := map_bit_nodup.mpr hr.nodup
  have hle := binSum_le (map_bit_lt v)
  have hsum := binSum_handler hf
  rw [List.length_map] at hle
  rw [Nat.mod_eq_of_lt (by omega), binSum_eq_add_surplus (v.map _), binSum_eq_sum_toFinset hnd]
    at hsum
  have hfin : ∑ i ∈ (h.keywords.map Keyword.bit).toFinset, 2 ^ i ≤
      ∑ i ∈ (v.map Keyword.bit).toFinset, 2 ^ i := by
    refine Finset.sum_le_sum_of_subset fun i hi => ?_
    simp only [List.mem_toFinset, List.mem_map] at hi ⊢
    obtain ⟨kw, hkw, rfl⟩ := hi
    exact ⟨kw, hsub kw hkw, rfl⟩
  exact map_bit_nodup.mp (surplus_eq_zero_iff.mp (by omega))

theorem findKeyLoop_eq_some {str : CStr} {foundkw : Option Key} {ks : List Key} {kw : Key}
    (h : findKeyLoop str foundkw ks = some kw) :
    foundkw = some kw ∨ kw ∈ ks ∧ str <+: kw.str := by
  induction ks generalizing foundkw with
  | nil => exact .inl h
  | cons k ks ih =>
    have hstr : strncmpEq k.str str str.length = true → str <+: k.str := fun he => by
      have he : k.str.take str.length = str := by simpa [strncmpEq] using he
      exact he ▸ List.take_prefix _ _
    have hrest : kw ∈ ks ∧ str <+: kw.str → kw ∈ k :: ks ∧ str <+: kw.str :=
      fun hk => ⟨List.mem_cons_of_mem _ hk.1, hk.2⟩
    unfold findKeyLoop at h
    split_ifs at h with hn hl hl
    · exact (ih h).imp_right hrest
    · cases h
      exact .inr ⟨List.mem_cons_self, hstr (by simpa using hn)⟩
    · cases foundkw with
      | none =>
        obtain he | hk := ih h
        · cases he
          exact .inr ⟨List.mem_cons_self, hstr (by simpa using hn)⟩
        · exact .inr (hrest hk)
      | some f => cases h
    · exact (ih h).imp_right hrest

/-- The words that let a client pass that is not root. -/
def listWords : List CStr := ["list".toList, "show".toList]

/-- A word that begins with one of them is no other keyword. -/
theorem findKey_of_listWord {p str : CStr} {kw : Key} (hp : p ∈ listWords) (hs : p <+: str)
    (h : findKey str = some kw) : kw.code = .list ∧ kw.hasParam = false := by
  have hall : ∀ kw ∈ keys, ∀ p ∈ listWords, p <+: kw.str →
      kw.code = .list ∧ kw.hasParam = false := by
    decide
  obtain h | ⟨hk, hstr⟩ := findKeyLoop_eq_some h
  · cases h
  · exact hall kw hk p hp (hs.trans hstr)

/-- The first token of such a text. -/
theorem strvecLoop_of_listWord {p cmd : CStr} (hp : p ∈ listWords) (hc : p <+: cmd) :
    ∃ w strvec, strvecLoop false cmd = .word w :: strvec ∧ p <+: w := by
  have hall : ∀ p ∈ listWords, p ≠ [] ∧ ∀ c ∈ p, isWordChar c = true := by decide
  obtain ⟨hne, hw⟩ := hall p hp
  obtain ⟨s, rfl⟩ := hc
  obtain ⟨c, p, rfl⟩ := List.exists_cons_of_ne_nil hne
  have hc : isWordChar c = true := hw c List.mem_cons_self
  obtain ⟨⟨⟨hb, hcm⟩, hbr⟩, hq⟩ : ((isBlank c = false ∧ isComment c = false) ∧
      isBrace c = false) ∧ c ≠ '"' := by
    simpa [isWordChar] using hc
  have hskip : skipBlanks false (c :: p ++ s) = c :: (p ++ s) := by
    simp [skipBlanks, hb]
  have htok : (nextToken false c (p ++ s)).1 =
      .word ((c :: p ++ s).takeWhile isWordChar) := by
    simp [nextToken, hq, hbr]
  refine ⟨(c :: p ++ s).takeWhile isWordChar, _,
    htok ▸ strvecLoop_cons hskip fun _ => hcm, ?_⟩
  rw [List.takeWhile_append_of_pos hw]
  exact List.prefix_append _ _

theorem except_map_eq_ok {ε α β : Type} {x : Except ε α} {f : α → β} {b : β}
    (h : x.map f = .ok b) : ∃ a, x = .ok a ∧ f a = b := by
  cases x with
  | error e => cases h
  | ok a => exact ⟨a, rfl, Except.ok.inj h⟩

theorem cmdvecLoop_length {strvec : List Token} {cmdkw : Option CmdKey} {v : List CmdKey}
    (h : cmdvecLoop strvec cmdkw = .ok v) :
    v.length ≤ strvec.length + if cmdkw.isSome then 1 else 0 := by
  fun_induction cmdvecLoop strvec cmdkw generalizing v with
  | case1 => cases h; simp
  | case2 => cases h
  | case3 strvec cmdkw ih => have := ih h; simp only [List.length_cons]; omega
  | case4 buff strvec cmdkw ih =>
    obtain ⟨v, hv, rfl⟩ := except_map_eq_ok h
    simpa using (ih hv).trans (Nat.le_succ _)
  | case5 => cases h
  | case6 =>
    rename_i ih
    simpa using ih h
  | case7 =>
    rename_i ih
    obtain ⟨v, hv, rfl⟩ := except_map_eq_ok h
    simpa using ih hv

theorem getCmdvec_eq_ok {cmd : CStr} {v : List CmdKey} (h : getCmdvec cmd = .ok v) :
    cmdvecLoop (strvecLoop false cmd) none = .ok v := by
  unfold getCmdvec allocStrvec at h
  cases hs : strvecLoop false cmd with
  | nil => simp [hs] at h
  | cons tok strvec => simpa [hs] using h

theorem getCmdvec_length {cmd : CStr} {v : List CmdKey} (h : getCmdvec cmd = .ok v) :
    v.length ≤ cmd.length :=
  (cmdvecLoop_length (getCmdvec_eq_ok h)).trans (strvecLoop_length false cmd)

/-- A text that begins with one of the words has `LIST` for its first keyword. -/
theorem list_mem_of_listWord {p cmd : CStr} {v : List CmdKey} (hp : p ∈ listWords)
    (hc : p <+: cmd) (h : getCmdvec cmd = .ok v) : .list ∈ v.map CmdKey.code := by
  obtain ⟨w, strvec, htok, hw⟩ := strvecLoop_of_listWord hp hc
  have hv := getCmdvec_eq_ok h
  rw [htok, cmdvecLoop] at hv
  cases hk : findKey w with
  | none => simp [hk] at hv
  | some kw =>
    obtain ⟨hcode, hparam⟩ := findKey_of_listWord hp hw hk
    simp only [hk, hparam, Bool.false_eq_true, if_false] at hv
    obtain ⟨v, -, rfl⟩ := except_map_eq_ok hv
    simp [hcode]

theorem parseCmd_eq_exec {cmd : CStr} {h : Handler} {fn : CliFn} {v : List CmdKey}
    (hp : parseCmd cmd = .exec h fn v) :
    getCmdvec cmd = .ok v ∧ findHandler handlers (fingerprint (v.map CmdKey.code)) = some h := by
  unfold parseCmd at hp
  cases hv : getCmdvec cmd with
  | error r => simp [hv] at hp
  | ok v' =>
    rw [hv] at hp
    dsimp only at hp
    cases hf : findHandler handlers (fingerprint (v'.map CmdKey.code)) with
    | none => simp [hf] at hp
    | some h' =>
      rw [hf] at hp
      dsimp only at hp
      cases hfn : h'.fn with
      | none => simp [hfn] at hp
      | some fn' =>
        rw [hfn] at hp
        cases hp
        exact ⟨rfl, hf⟩

theorem uxsockTrigger_eq_exec {cmd : CStr} {h : Handler} {fn : CliFn} {v : List CmdKey}
    (ht : uxsockTrigger cmd false = .cmd (.exec h fn v)) :
    (∃ p ∈ listWords, p <+: cmd) ∧ parseCmd cmd = .exec h fn v := by
  have hpre : ∀ p : CStr, strncmpEq cmd p p.length = true → p <+: cmd := fun p he => by
    have he : cmd.take p.length = p := by simpa [strncmpEq] using he
    exact he ▸ List.take_prefix _ _
  unfold uxsockTrigger at ht
  split_ifs at ht with hd
  refine ⟨?_, TriggerResult.cmd.inj ht⟩
  by_cases hl : strncmpEq cmd "list".toList 4 = true
  · exact ⟨_, List.mem_cons_self, hpre "list".toList hl⟩
  · have hs : strncmpEq cmd "show".toList 4 = true := by
      by_contra hs
      exact hd ⟨rfl, by rw [Bool.not_eq_true] at hl; rw [hl]; rfl,
        by rw [Bool.not_eq_true] at hs; rw [hs]; rfl⟩
    exact ⟨_, List.mem_cons_of_mem _ List.mem_cons_self, hpre "show".toList hs⟩

/-- What a client that is not root gets executed only lists what its text asks for exactly when
the text repeats no keyword; and the handler that a sequence of keywords finds is the one of
that set exactly when the 64 bits lose what the repetitions add. -/
theorem uxsockTrigger_readOnly_iff (cmd : CStr) (v : List Keyword) :
    (∀ h fn cmdvec, cmd.length < maxCmdLen →
      uxsockTrigger cmd false = .cmd (.exec h fn cmdvec) →
      (ReadOnly h (cmdvec.map CmdKey.code) ↔ (cmdvec.map CmdKey.code).Nodup)) ∧
    ∀ h, findHandler handlers (fingerprint v) = some h →
      ((∀ kw, kw ∈ h.keywords ↔ kw ∈ v) ↔ 2 ^ 64 ∣ surplus (v.map Keyword.bit)) := by
  refine ⟨fun h fn cmdvec hlen ht => ?_, fun h => handler_keywords_iff⟩
  obtain ⟨⟨p, hp, hpc⟩, hparse⟩ := uxsockTrigger_eq_exec ht
  obtain ⟨hv, hf⟩ := parseCmd_eq_exec hparse
  have hlist := list_mem_of_listWord hp hpc hv
  have hr := (findHandler_registered hf).1
  constructor
  · rintro ⟨-, hargs⟩
    refine nodup_of_handler_subset ?_ hf fun kw hkw => ?_
    · have := getCmdvec_length hv
      simp only [maxCmdLen] at hlen
      rw [List.length_map]
      omega
    · by_cases hkl : kw = .list
      · exact hkl ▸ hlist
      · exact (hargs kw hkw hkl).2
  · intro hnd
    have hset := (handler_keywords_iff hf).mpr
      (by rw [surplus_eq_zero_iff.mpr (map_bit_nodup.mpr hnd)]; exact dvd_zero _)
    have hmem := (hset .list).mpr hlist
    exact ⟨List.count_eq_one_of_mem hr.nodup hmem,
      fun kw hkw hne => ⟨hr.list_args hmem kw hkw hne, (hset kw).mp hkw⟩⟩

/-- Both parts apply to `list paths`. -/
theorem uxsockTrigger_list_paths :
    ∃ h cmdvec, uxsockTrigger "list paths".toList false = .cmd (.exec h .cliListPaths cmdvec) ∧
      ReadOnly h (cmdvec.map CmdKey.code) ∧ ∀ kw, kw ∈ h.keywords ↔ kw ∈ [.list, .paths] := by
  refine ⟨⟨[.list, .paths], fingerprint [.list, .paths], true, some .cliListPaths⟩,
    [⟨.list, false, none⟩, ⟨.paths, false, none⟩], by decide +kernel, ?_, ?_⟩
  · exact ((uxsockTrigger_readOnly_iff "list paths".toList []).1 _ .cliListPaths _ (by decide)
      (by decide +kernel)).mpr (by decide)
  · exact ((uxsockTrigger_readOnly_iff [] [.list, .paths]).2 _ (by decide +kernel)).mpr
      (by decide)

/-- `LIST` given twice adds up to `ADD`: a client that is not root adds a path. -/
theorem uxsockTrigger_list_list_path :
    ∃ h cmdvec, uxsockTrigger "list list path sda".toList false =
        .cmd (.exec h .cliAddPath cmdvec) ∧
      h.keywords = [.add, .path] ∧ ¬ ReadOnly h (cmdvec.map CmdKey.code) ∧
      findHandler handlers (fingerprint [.list, .list, .path]) = some h ∧
      ¬ ∀ kw, kw ∈ h.keywords ↔ kw ∈ [.list, .list, .path] := by
  refine ⟨⟨[.add, .path], fingerprint [.add, .path], true, some .cliAddPath⟩,
    [⟨.list, false, none⟩, ⟨.list, false, none⟩, ⟨.path, true, some "sda".toList⟩],
    by decide +kernel, rfl, fun h => ?_, by decide +kernel, fun h => ?_⟩
  · exact absurd h.1 (by decide)
  · exact absurd ((h .add).mp (by decide)) (by decide)

end MultipathTools.Cli
