import MultipathTools.Dmparser.Disassemble

/-! The queueing mode of a map (`propsel.c`): `no_path_retry` and the word `queue_if_no_path`
in the features, from the configured string to the table that is loaded. -/
namespace MultipathTools.Features

open MultipathTools.Dmparser

/-- The buffer of a configuration line (`MAXBUF`); what is configured is shorter. -/
def maxBuf : ℕ := 1024

/-- Both translations of `reconcile_features_with_options`: whether the search finds the name in
the features, and the features from which it is then removed. -/
def takeFeature (features : Option CStr) (n : CStr) : Bool × Option CStr :=
  match features with
  | none => (false, none)
  | some f => if hasSubstr f n then (true, (removeFeature features n).1) else (false, features)

/-- `reconcile_features_with_options`. -/
def reconcileFeaturesWithOptions (features : Option CStr) (noPathRetry : ℤ)
    (retainHwhandler : RetainHwhandler) : Option CStr × ℤ × RetainHwhandler :=
  let q := takeFeature features queueIfNoPath
  let r := takeFeature q.2 retainAttachedHwHandler
  (r.2, if q.1 ∧ noPathRetry = noPathRetryUndef then noPathRetryQueue else noPathRetry,
    if r.1 ∧ retainHwhandler = .undef then .on else retainHwhandler)

/-- `select_features`: the first string that is set in the sections `multipaths`, `overrides`,
the hardware table and `defaults`, else `DEFAULT_FEATURES`. -/
def selectFeatures (sources : List (Option CStr)) (mp : Multipath) : Multipath :=
  let features := ((sources.findSome? id).getD "0".toList)
  let r := reconcileFeaturesWithOptions (some features) mp.noPathRetry mp.retainHwhandler
  { mp with features := r.1, noPathRetry := r.2.1, retainHwhandler := r.2.2 }

/-- The words of a text, at single or more blanks. -/
def splitWords (s : CStr) : List CStr := (s.splitOnP (· = ' ')).filter (· ≠ [])

/-- The feature words of a feature string; the first word is the count. -/
def featureWords (f : CStr) : List CStr := (splitWords f).tail

/-- What the table says about queueing agrees with the map: it begins with features whose count
is right, which tell the kernel to queue exactly when the map is to queue. -/
structure QueueingAgrees (mp : Multipath) (table : CStr) : Prop where
  begins : printStr mp.features ++ [' '] <+: table
  count : (strtoul (printStr mp.features)).1 = (featureWords (printStr mp.features)).length
  queue : queueIfNoPath ∈ featureWords (printStr mp.features) ↔
    mp.noPathRetry = noPathRetryQueue ∨ 0 < mp.noPathRetry
  retain : (featureWords (printStr mp.features)).count retainAttachedHwHandler ≤ 1

theorem splitOnP_unwords {w : CStr} {ws : List CStr} (hw : ' ' ∉ w) (hws : ∀ v ∈ ws, IsWord v) :
    (w ++ unwords ws).splitOnP (· = ' ') = w :: ws := by
  have hno : ∀ c ∈ w, decide (c = ' ') = false := fun c hc =>
    decide_eq_false fun h => hw (h ▸ hc)
  induction ws generalizing w with
  | nil => rw [unwords_nil, List.append_nil, List.splitOnP_eq_singleton hno]
  | cons v ws ih =>
    have hv := (hws v List.mem_cons_self).blank_not_mem
    rw [unwords_cons, List.splitOnP_append_cons_of_forall_mem hno _ rfl,
      ih hv (fun u hu => hws u (List.mem_cons_of_mem _ hu))
        fun c hc => decide_eq_false fun h => hv (h ▸ hc)]

theorem featureWords_render {ws : List CStr} (hw : ∀ w ∈ ws, IsWord w) :
    featureWords (render ws) = ws := by
  have hd : ' ' ∉ Nat.toDigits 10 ws.length := fun h =>
    absurd (isDigit_toDigits h) (by decide)
  have hf : ws.filter (· ≠ []) = ws :=
    List.filter_eq_self.mpr fun w h => by simpa using (hw w h).1
  rw [featureWords, splitWords, render, splitOnP_unwords hd hw, List.filter_cons_of_pos]
  · exact hf
  · simp

/-- A list of words in which the search for the two feature names finds only these. -/
structure CleanWords (ws : List CStr) : Prop where
  words : ∀ w ∈ ws, IsWord w
  queue : Clean queueIfNoPath ws
  retain : Clean retainAttachedHwHandler ws
  short : ws.length + 2 < 2 ^ 31

/-- Appending a word that is not there. -/
def addWord (n : CStr) (add : Prop) [Decidable add] (ws : List CStr) : List CStr :=
  if add ∧ n ∉ ws then ws ++ [n] else ws

theorem hasSubstr_render {n : CStr} {ws : List CStr} (hn : IsFeature n) (hc : Clean n ws) :
    hasSubstr (render ws) n = true ↔ n ∈ ws := by
  rw [hasSubstr_iff, render_infix_iff hn, hc.infix_iff]

theorem takeFeature_render {n : CStr} {ws : List CStr} (hn : IsFeature n) (hc : Clean n ws)
    (hw : ∀ w ∈ ws, IsWord w) (hlen : ws.length < 2 ^ 31) :
    takeFeature (some (render ws)) n = (decide (n ∈ ws), some (render (ws.erase n))) := by
  unfold takeFeature
  dsimp only
  split_ifs with h
  · rw [hasSubstr_render hn hc] at h
    rw [removeFeature_render hn hc hw hlen, decide_eq_true h]
  · rw [hasSubstr_render hn hc] at h
    rw [List.erase_of_not_mem h, decide_eq_false h]

/-- The options and the features after `reconcile_features_with_options`. -/
theorem reconcile_render {ws : List CStr} (hc : CleanWords ws) (noPathRetry : ℤ)
    (retainHwhandler : RetainHwhandler) :
    reconcileFeaturesWithOptions (some (render ws)) noPathRetry retainHwhandler =
      (some (render ((ws.erase queueIfNoPath).erase retainAttachedHwHandler)),
        if queueIfNoPath ∈ ws ∧ noPathRetry = noPathRetryUndef then noPathRetryQueue
          else noPathRetry,
        if retainAttachedHwHandler ∈ ws ∧ retainHwhandler = .undef then .on
          else retainHwhandler) := by
  have hlen := hc.short
  have hsub := List.erase_sublist (a := queueIfNoPath) (l := ws)
  have hmem : retainAttachedHwHandler ∈ ws.erase queueIfNoPath ↔ retainAttachedHwHandler ∈ ws :=
    List.mem_erase_of_ne (by decide)
  unfold reconcileFeaturesWithOptions
  rw [takeFeature_render isFeature_queue hc.queue hc.words (by omega)]
  dsimp only
  rw [takeFeature_render isFeature_retain (hc.retain.sublist hsub)
    (fun w h => hc.words w (hsub.subset h)) (hsub.length_le.trans_lt (by omega))]
  simp only [decide_eq_true_eq, hmem]

theorem addFeature_clean {n : CStr} {ws : List CStr} (hn : IsFeature n) (hc : Clean n ws)
    (hw : ∀ w ∈ ws, IsWord w) (hlen : ws.length + 1 < 2 ^ 31) (add : Prop) [Decidable add] :
    (if add then (addFeature (some (render ws)) n).1 else some (render ws)) =
      some (render (addWord n add ws)) := by
  unfold addWord
  by_cases ha : add
  · rw [if_pos ha, addFeature_render hn hw hlen]
    by_cases hm : n ∈ ws
    · rw [if_pos (hc.infix_iff.mpr hm), if_neg (by simp [hm])]
    · rw [if_neg (by rwa [hc.infix_iff]), if_pos ⟨ha, hm⟩]
  · rw [if_neg ha, if_neg (by simp [ha])]

/-- The words that the table announces for a map whose features are clean. -/
def tableWords (mp : Multipath) (ver : ℕ) (ws : List CStr) : List CStr :=
  addWord retainAttachedHwHandler (mp.retainHwhandler = .on ∧ ver < kernelVersion 4 3 0)
    (addWord queueIfNoPath
      (mp.noPathRetry ≠ noPathRetryUndef ∧ mp.noPathRetry ≠ noPathRetryFail) ws)

theorem mem_addWord {n w : CStr} {add : Prop} [Decidable add] {ws : List CStr} :
    w ∈ addWord n add ws ↔ w ∈ ws ∨ w = n ∧ add := by
  unfold addWord
  split_ifs <;> grind

theorem count_addWord {n : CStr} {add : Prop} [Decidable add] {ws : List CStr} (w : CStr) :
    (addWord n add ws).count w =
      ws.count w + if w = n ∧ add ∧ n ∉ ws then 1 else 0 := by
  unfold addWord
  split_ifs <;> grind

theorem addMapFeatures_render {mp : Multipath} {ws : List CStr} (hc : CleanWords ws)
    (hf : mp.features = some (render ws)) (ver : ℕ) :
    (addMapFeatures mp ver).features = some (render (tableWords mp ver ws)) ∧
      (∀ w ∈ tableWords mp ver ws, IsWord w) ∧
      (addMapFeatures mp ver).noPathRetry = mp.noPathRetry := by
  have hlen := hc.short
  let addQ : Prop := mp.noPathRetry ≠ noPathRetryUndef ∧ mp.noPathRetry ≠ noPathRetryFail
  have hw : ∀ w ∈ addWord queueIfNoPath addQ ws, IsWord w := by
    intro w hmem
    obtain h | ⟨rfl, -⟩ := mem_addWord.mp hmem
    · exact hc.words w h
    · exact isFeature_queue.word
  have hr : Clean retainAttachedHwHandler (addWord queueIfNoPath addQ ws) := by
    intro w hmem hi
    obtain h | ⟨rfl, -⟩ := mem_addWord.mp hmem
    · exact hc.retain w h hi
    · exact absurd (hasSubstr_iff.mpr hi) (by decide)
  have hl : (addWord queueIfNoPath addQ ws).length + 1 < 2 ^ 31 := by
    unfold addWord
    split_ifs
    · rw [List.length_append, List.length_singleton]
      omega
    · omega
  have hq := addFeature_clean isFeature_queue hc.queue hc.words (by omega) addQ
  have hadd := addFeature_clean isFeature_retain hr hw hl
    (mp.retainHwhandler = .on ∧ ver < kernelVersion 4 3 0)
  refine ⟨?_, fun w hmem => ?_, ?_⟩
  · unfold addMapFeatures tableWords
    dsimp only
    have hq' : (if addQ then { mp with features := (addFeature mp.features queueIfNoPath).1 }
        else mp).features = some (render (addWord queueIfNoPath addQ ws)) := by
      rw [← hq, ← hf]
      split_ifs <;> rfl
    have hret : (if addQ then { mp with features := (addFeature mp.features queueIfNoPath).1 }
        else mp).retainHwhandler = mp.retainHwhandler := by
      split_ifs <;> rfl
    rw [← hadd, ← hq', apply_ite Multipath.features]
    simp only [addQ] at hret ⊢
    rw [hret]
  · obtain h | ⟨rfl, -⟩ := mem_addWord.mp hmem
    · exact hw w h
    · exact isFeature_retain.word
  · unfold addMapFeatures
    dsimp only
    split_ifs <;> rfl

/-- The words of the table from the configured words and options. -/
def configuredWords (ws : List CStr) : List CStr :=
  (ws.erase queueIfNoPath).erase retainAttachedHwHandler

theorem CleanWords.configured {ws : List CStr} (hc : CleanWords ws) :
    CleanWords (configuredWords ws) := by
  have hsub : (configuredWords ws).Sublist ws := List.erase_sublist.trans List.erase_sublist
  have hlen := hsub.length_le
  have hshort := hc.short
  exact ⟨fun w h => hc.words w (hsub.subset h), hc.queue.sublist hsub, hc.retain.sublist hsub,
    by omega⟩

theorem selectFeatures_render {ws : List CStr} (hc : CleanWords ws) {sources : List (Option CStr)}
    (hconf : sources.findSome? id = some (render ws)) (mp : Multipath) :
    (selectFeatures sources mp).features = some (render (configuredWords ws)) ∧
      (selectFeatures sources mp).noPathRetry =
        if queueIfNoPath ∈ ws ∧ mp.noPathRetry = noPathRetryUndef then noPathRetryQueue
        else mp.noPathRetry := by
  simp [selectFeatures, hconf, reconcile_render hc, configuredWords]

theorem queue_mem_tableWords_iff {ws : List CStr} {mp : Multipath} {ver : ℕ} :
    queueIfNoPath ∈ tableWords mp ver (configuredWords ws) ↔ 2 ≤ ws.count queueIfNoPath ∨
      mp.noPathRetry ≠ noPathRetryUndef ∧ mp.noPathRetry ≠ noPathRetryFail := by
  have hne : queueIfNoPath ≠ retainAttachedHwHandler := by decide
  have hcount : queueIfNoPath ∈ configuredWords ws ↔ 2 ≤ ws.count queueIfNoPath := by
    rw [configuredWords, List.mem_erase_of_ne hne, ← List.count_pos_iff, List.count_erase_self]
    omega
  rw [tableWords, mem_addWord, mem_addWord, hcount]
  simp [hne]

theorem retain_count_tableWords_le_iff {ws : List CStr} (mp : Multipath) (ver : ℕ) :
    (tableWords mp ver (configuredWords ws)).count retainAttachedHwHandler ≤ 1 ↔
      ws.count retainAttachedHwHandler ≤ 2 := by
  have hne : retainAttachedHwHandler ≠ queueIfNoPath := by decide
  have hcount : (configuredWords ws).count retainAttachedHwHandler =
      ws.count retainAttachedHwHandler - 1 := by
    rw [configuredWords, List.count_erase_self, List.count_erase_of_ne hne]
  have hpos : retainAttachedHwHandler ∈ configuredWords ws ↔
      0 < (configuredWords ws).count retainAttachedHwHandler := List.count_pos_iff.symm
  rw [tableWords, count_addWord, count_addWord]
  simp only [mem_addWord, hpos, hcount, hne, false_and, or_false, if_false, true_and]
  split_ifs <;> omega

theorem length_addWord_le (n : CStr) (add : Prop) [Decidable add] (ws : List CStr) :
    (addWord n add ws).length ≤ ws.length + 1 := by
  unfold addWord
  split_ifs <;> simp

/-- For configured words that do not contain the two names inside of longer words, the table
agrees with the queueing mode exactly when `queue_if_no_path` is not given twice to a map that
is to fail, and `retain_attached_hw_handler` is not given three times. -/
theorem queueingAgrees_iff (ws : List CStr) (hw : ∀ w ∈ ws, IsWord w)
    (hq : Clean queueIfNoPath ws) (hr : Clean retainAttachedHwHandler ws)
    (hbuf : (render ws).length < maxBuf) (sources : List (Option CStr))
    (hconf : sources.findSome? id = some (render ws)) (mp mp' : Multipath)
    (hnpr : noPathRetryQueue ≤ mp.noPathRetry) (ver : ℕ) (table : CStr)
    (ht : assembleMap (selectFeatures sources mp) paramsSize ver = (mp', some table)) :
    QueueingAgrees mp' table ↔
      (ws.count queueIfNoPath ≤ 1 ∨ mp.noPathRetry ≠ noPathRetryFail) ∧
        ws.count retainAttachedHwHandler ≤ 2 := by
  have hshort : ws.length + 2 < 2 ^ 31 := by
    have hlen := length_le_unwords ws
    rw [render, List.length_append] at hbuf
    simp only [maxBuf] at hbuf
    omega
  have hc : CleanWords ws := ⟨hw, hq, hr, hshort⟩
  obtain ⟨hf, hn⟩ := selectFeatures_render hc hconf mp
  obtain ⟨rfl, hpre⟩ := assembleMap_features ht
  obtain ⟨hf', hw', hn'⟩ := addMapFeatures_render hc.configured hf ver
  have hlen : (tableWords (selectFeatures sources mp) ver (configuredWords ws)).length < 2 ^ 31 := by
    have hsub : (configuredWords ws).length ≤ ws.length :=
      (List.erase_sublist.trans List.erase_sublist).length_le
    have h₁ := length_addWord_le retainAttachedHwHandler
      ((selectFeatures sources mp).retainHwhandler = .on ∧ ver < kernelVersion 4 3 0)
      (addWord queueIfNoPath ((selectFeatures sources mp).noPathRetry ≠ noPathRetryUndef ∧
        (selectFeatures sources mp).noPathRetry ≠ noPathRetryFail) (configuredWords ws))
    have h₂ := length_addWord_le queueIfNoPath ((selectFeatures sources mp).noPathRetry ≠
      noPathRetryUndef ∧ (selectFeatures sources mp).noPathRetry ≠ noPathRetryFail)
      (configuredWords ws)
    rw [tableWords]
    omega
  have hmode : queueIfNoPath ∈ tableWords (selectFeatures sources mp) ver (configuredWords ws) ↔
      2 ≤ ws.count queueIfNoPath ∨ (selectFeatures sources mp).noPathRetry ≠ noPathRetryUndef ∧
        (selectFeatures sources mp).noPathRetry ≠ noPathRetryFail := queue_mem_tableWords_iff
  have hmem : queueIfNoPath ∈ ws ↔ 0 < ws.count queueIfNoPath := List.count_pos_iff.symm
  have hagree : (queueIfNoPath ∈ tableWords (selectFeatures sources mp) ver (configuredWords ws) ↔
      (selectFeatures sources mp).noPathRetry = noPathRetryQueue ∨
        0 < (selectFeatures sources mp).noPathRetry) ↔
      ws.count queueIfNoPath ≤ 1 ∨ mp.noPathRetry ≠ noPathRetryFail := by
    rw [hmode, hn]
    simp only [hmem, noPathRetryUndef, noPathRetryFail, noPathRetryQueue] at hnpr ⊢
    split_ifs <;> omega
  rw [← hagree, ← retain_count_tableWords_le_iff (selectFeatures sources mp) ver]
  constructor
  · intro h
    have hq := h.queue
    have hr := h.retain
    rw [hf', printStr_some, featureWords_render hw'] at hq hr
    exact ⟨hn' ▸ hq, hr⟩
  · rintro ⟨hq, hr⟩
    refine ⟨hpre, ?_, ?_, ?_⟩ <;> rw [hf', printStr_some, featureWords_render hw']
    · rw [strtoul_render hlen]
    · rw [hn']
      exact hq
    · exact hr

/-- A map with one path, and the table that is loaded for configured features. -/
def onePathMap (noPathRetry : ℤ) : Multipath :=
  { noPathRetry := noPathRetry, hwhandler := some "0".toList, selector := some "round-robin 0".toList,
    minio := 1, pg := some [{ paths := [{ devT := "8:0".toList }] }] }

def loadTable (features : String) (noPathRetry : ℤ) : Multipath × Option CStr :=
  assembleMap (selectFeatures [none, some features.toList] (onePathMap noPathRetry)) paramsSize
    (kernelVersion 5 0 0)

theorem queueingAgrees_deprecated :
    loadTable "2 queue_if_no_path pg_init_retries" 0 =
        ((loadTable "2 queue_if_no_path pg_init_retries" 0).1,
          some "2 pg_init_retries queue_if_no_path 0 1 1 round-robin 0 1 1 8:0 1".toList) ∧
      QueueingAgrees (loadTable "2 queue_if_no_path pg_init_retries" 0).1
        "2 pg_init_retries queue_if_no_path 0 1 1 round-robin 0 1 1 8:0 1".toList := by
  have ht : loadTable "2 queue_if_no_path pg_init_retries" 0 =
      ((loadTable "2 queue_if_no_path pg_init_retries" 0).1,
        some "2 pg_init_retries queue_if_no_path 0 1 1 round-robin 0 1 1 8:0 1".toList) := by
    decide
  refine ⟨ht, (queueingAgrees_iff [queueIfNoPath, "pg_init_retries".toList] (by decide)
    (by decide) (by decide) (by decide) _ (by decide) _ _ (by decide) _ _ ht).mpr
      (by decide)⟩

/-- Given twice, the word stays although the map is to fail; given inside of a longer word, it is
cut out of it and the count is one too small. -/
theorem queueing_disagrees :
    (∃ table, (loadTable "2 queue_if_no_path queue_if_no_path" noPathRetryFail).2 = some table ∧
      ¬ QueueingAgrees (loadTable "2 queue_if_no_path queue_if_no_path" noPathRetryFail).1 table) ∧
    ∃ table, (loadTable "2 pg_init_retries xqueue_if_no_path" 0).2 = some table ∧
      ¬ QueueingAgrees (loadTable "2 pg_init_retries xqueue_if_no_path" 0).1 table := by
  refine ⟨⟨"1 queue_if_no_path 0 1 1 round-robin 0 1 1 8:0 1".toList, by decide,
    fun h => absurd h.queue (by decide)⟩,
    ⟨"2 pg_init_retries x queue_if_no_path 0 1 1 round-robin 0 1 1 8:0 1".toList,
      by decide, fun h => absurd h.count (by decide)⟩⟩

end MultipathTools.Features
