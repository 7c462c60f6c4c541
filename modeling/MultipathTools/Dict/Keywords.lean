import MultipathTools.Dict.Options

/-! The keywords of `multipath.conf` with a handler and a print function (`init_keywords` of
`dict.c`), and the reading of a line (`process_stream` of `parser.c`). -/
namespace MultipathTools.Dict
open MultipathTools.Parser

/-- How an option is declared: by its handler, its print function, and the default that is printed
in the `defaults` section where the option is not set. -/
inductive Family where
  | int (kind : IntKind) (default : Option {d : ℤ // kind.Valid d ∧ d ≠ 0} := none)
  | uint (kind : UintKind)
  | str (default : Option CStr := none)
  | partitionDelim | configDir | uidAttrs | mode | uid | gid | maxFds | reservationKey | ble
  | disableChangedWwids | deprecated

namespace Family

def Val : Family → Type
  | .int _ _ => ℤ
  | .uint _ => BitVec 32
  | .str _ => Option CStr
  | .partitionDelim => Option CStr
  | .configDir => Option CStr
  | .uidAttrs => List CStr
  | .mode => Option (BitVec 32)
  | .uid => Option (BitVec 32)
  | .gid => Option (BitVec 32)
  | .maxFds => ℤ
  | .reservationKey => ReservationKey
  | .ble => Blentry
  | .disableChangedWwids => Unit
  | .deprecated => Unit

def handler (env : Env) : (f : Family) → List Token → Handled f.Val
  | .int kind _ => kind.handler
  | .uint kind => kind.handler
  | .str _ => setStr
  | .partitionDelim => partitionDelimHandler
  | .configDir => configDirHandler env
  | .uidAttrs => uidAttrsHandler
  | .mode => setMode
  | .uid => setUid env
  | .gid => setGid env
  | .maxFds => maxFdsHandler env
  | .reservationKey => setReservationKey
  | .ble => bleHandler env
  | .disableChangedWwids => fun _ => {}
  | .deprecated => deprecatedHandler

/-- `snprint_def_*` as `declare_def_snprint_defint` declares it, or as `declare_def_snprint` does. -/
def printInt (kind : IntKind) (default : Option {d : ℤ // kind.Valid d ∧ d ≠ 0}) (v : ℤ) :
    Option CStr :=
  match default with
  | some d => if v = 0 then kind.print d else kind.print v
  | none => kind.print v

/-- Likewise for strings, with `declare_def_snprint_defstr`. -/
def printStr (default : Option CStr) (v : Option CStr) : Option CStr :=
  match default with
  | some d => if v = none then Parser.printStr (some d) else Parser.printStr v
  | none => Parser.printStr v

def print (env : Env) : (f : Family) → f.Val → Option CStr
  | .int kind default => printInt kind default
  | .uint kind => kind.print
  | .str default => printStr default
  | .partitionDelim => printPartitionDelim
  | .configDir => Parser.printStr
  | .uidAttrs => printUidAttrs
  | .mode => printAttr
  | .uid => printAttr
  | .gid => printAttr
  | .maxFds => printMaxFds env
  | .reservationKey => printReservationKey
  | .ble => printBle
  | .disableChangedWwids => fun _ => some "ignored".toList
  | .deprecated => fun _ => none

end Family

structure Keyword where
  string : CStr
  family : Family

/-- The keywords of `defaults` that have a print function. -/
def defaultsKeywords : List Keyword :=
  [⟨"verbosity".toList, .int .int⟩,
    ⟨"polling_interval".toList, .uint .checkint⟩,
    ⟨"max_polling_interval".toList, .uint .uint⟩,
    ⟨"reassign_maps".toList, .int .yesNo⟩,
    ⟨"multipath_dir".toList, .str⟩,
    ⟨"path_selector".toList, .str (some "service-time 0".toList)⟩,
    ⟨"path_grouping_policy".toList, .int .pgpolicy (some ⟨1, by decide⟩)⟩,
    ⟨"uid_attrs".toList, .uidAttrs⟩,
    ⟨"uid_attribute".toList, .str (some "ID_SERIAL".toList)⟩,
    ⟨"getuid_callout".toList, .str⟩,
    ⟨"prio".toList, .str (some "const".toList)⟩,
    ⟨"prio_args".toList, .str (some "".toList)⟩,
    ⟨"features".toList, .str (some "0".toList)⟩,
    ⟨"path_checker".toList, .str (some "tur".toList)⟩,
    ⟨"alias_prefix".toList, .str (some "mpath".toList)⟩,
    ⟨"failback".toList, .int .pgfailback (some ⟨-failbackManual, by decide⟩)⟩,
    ⟨"rr_min_io".toList, .int .int (some ⟨1000, by decide⟩)⟩,
    ⟨"rr_min_io_rq".toList, .int .int (some ⟨1, by decide⟩)⟩,
    ⟨"max_fds".toList, .maxFds⟩,
    ⟨"rr_weight".toList, .int .rrWeight (some ⟨rrWeightNone, by decide⟩)⟩,
    ⟨"no_path_retry".toList, .int .noPathRetry⟩,
    ⟨"queue_without_daemon".toList, .int .queueWithoutDaemon⟩,
    ⟨"checker_timeout".toList, .int .nonzero⟩,
    ⟨"allow_usb_devices".toList, .int .yesNo⟩,
    ⟨"pg_timeout".toList, .deprecated⟩,
    ⟨"flush_on_last_del".toList, .int .yesNoUndef (some ⟨ynuNo, by decide⟩)⟩,
    ⟨"user_friendly_names".toList, .int .yesNoUndef (some ⟨ynuNo, by decide⟩)⟩,
    ⟨"mode".toList, .mode⟩,
    ⟨"uid".toList, .uid⟩,
    ⟨"gid".toList, .gid⟩,
    ⟨"fast_io_fail_tmo".toList, .int .fastIoFail (some ⟨5, by decide⟩)⟩,
    ⟨"dev_loss_tmo".toList, .uint .devLoss⟩,
    ⟨"bindings_file".toList, .str⟩,
    ⟨"wwids_file".toList, .str⟩,
    ⟨"prkeys_file".toList, .str⟩,
    ⟨"log_checker_err".toList, .int .logCheckerErr⟩,
    ⟨"reservation_key".toList, .reservationKey⟩,
    ⟨"all_tg_pt".toList, .int .yesNoUndef (some ⟨ynuNo, by decide⟩)⟩,
    ⟨"retain_attached_hw_handler".toList, .int .yesNoUndef (some ⟨ynuYes, by decide⟩)⟩,
    ⟨"detect_prio".toList, .int .yesNoUndef (some ⟨ynuYes, by decide⟩)⟩,
    ⟨"detect_checker".toList, .int .yesNoUndef (some ⟨ynuYes, by decide⟩)⟩,
    ⟨"force_sync".toList, .int .yesNo⟩,
    ⟨"strict_timing".toList, .int .yesNo⟩,
    ⟨"deferred_remove".toList, .int .yesNoUndef (some ⟨ynuNo, by decide⟩)⟩,
    ⟨"partition_delimiter".toList, .partitionDelim⟩,
    ⟨"config_dir".toList, .configDir⟩,
    ⟨"delay_watch_checks".toList, .int .offIntUndef (some ⟨nuNo, by decide⟩)⟩,
    ⟨"delay_wait_checks".toList, .int .offIntUndef (some ⟨nuNo, by decide⟩)⟩,
    ⟨"san_path_err_threshold".toList, .int .offIntUndef (some ⟨nuNo, by decide⟩)⟩,
    ⟨"san_path_err_forget_rate".toList, .int .offIntUndef (some ⟨nuNo, by decide⟩)⟩,
    ⟨"san_path_err_recovery_time".toList, .int .offIntUndef (some ⟨nuNo, by decide⟩)⟩,
    ⟨"marginal_path_err_sample_time".toList, .int .offIntUndef (some ⟨nuNo, by decide⟩)⟩,
    ⟨"marginal_path_err_rate_threshold".toList, .int .offIntUndef (some ⟨nuNo, by decide⟩)⟩,
    ⟨"marginal_path_err_recheck_gap_time".toList, .int .offIntUndef (some ⟨nuNo, by decide⟩)⟩,
    ⟨"marginal_path_double_failed_time".toList, .int .offIntUndef (some ⟨nuNo, by decide⟩)⟩,
    ⟨"find_multipaths".toList, .int .findMultipaths⟩,
    ⟨"uxsock_timeout".toList, .uint .uxsockTimeout⟩,
    ⟨"retrigger_tries".toList, .int .int⟩,
    ⟨"retrigger_delay".toList, .int .int⟩,
    ⟨"missing_uev_wait_timeout".toList, .int .int⟩,
    ⟨"skip_kpartx".toList, .int .yesNoUndef (some ⟨ynuNo, by decide⟩)⟩,
    ⟨"disable_changed_wwids".toList, .disableChangedWwids⟩,
    ⟨"remove_retries".toList, .int .int⟩,
    ⟨"max_sectors_kb".toList, .int .nonzero⟩,
    ⟨"ghost_delay".toList, .int .offIntUndef⟩,
    ⟨"find_multipaths_timeout".toList, .int .int (some ⟨-10, by decide⟩)⟩,
    ⟨"enable_foreign".toList, .str (some "NONE".toList)⟩,
    ⟨"marginal_pathgroups".toList, .int .yesNo⟩]

/-- The keywords of `blacklist` and of `blacklist_exceptions`. -/
def blacklistKeywords : List Keyword :=
  [⟨"devnode".toList, .ble⟩,
    ⟨"wwid".toList, .ble⟩,
    ⟨"property".toList, .ble⟩,
    ⟨"protocol".toList, .ble⟩]

/-- The keywords of `device` in these sections. -/
def blacklistDeviceKeywords : List Keyword :=
  [⟨"vendor".toList, .ble⟩,
    ⟨"product".toList, .ble⟩]

/-- The keywords of `device` in `devices`. -/
def deviceKeywords : List Keyword :=
  [⟨"vendor".toList, .str⟩,
    ⟨"product".toList, .str⟩,
    ⟨"revision".toList, .str⟩,
    ⟨"product_blacklist".toList, .str⟩,
    ⟨"path_grouping_policy".toList, .int .pgpolicy⟩,
    ⟨"uid_attribute".toList, .str⟩,
    ⟨"getuid_callout".toList, .str⟩,
    ⟨"path_selector".toList, .str⟩,
    ⟨"path_checker".toList, .str⟩,
    ⟨"alias_prefix".toList, .str⟩,
    ⟨"features".toList, .str⟩,
    ⟨"hardware_handler".toList, .str⟩,
    ⟨"prio".toList, .str⟩,
    ⟨"prio_args".toList, .str⟩,
    ⟨"failback".toList, .int .pgfailback⟩,
    ⟨"rr_weight".toList, .int .rrWeight⟩,
    ⟨"no_path_retry".toList, .int .noPathRetry⟩,
    ⟨"rr_min_io".toList, .int .nonzero⟩,
    ⟨"rr_min_io_rq".toList, .int .nonzero⟩,
    ⟨"pg_timeout".toList, .deprecated⟩,
    ⟨"flush_on_last_del".toList, .int .yesNoUndef⟩,
    ⟨"fast_io_fail_tmo".toList, .int .fastIoFail⟩,
    ⟨"dev_loss_tmo".toList, .uint .devLoss⟩,
    ⟨"user_friendly_names".toList, .int .yesNoUndef⟩,
    ⟨"retain_attached_hw_handler".toList, .int .yesNoUndef⟩,
    ⟨"detect_prio".toList, .int .yesNoUndef⟩,
    ⟨"detect_checker".toList, .int .yesNoUndef⟩,
    ⟨"deferred_remove".toList, .int .yesNoUndef⟩,
    ⟨"delay_watch_checks".toList, .int .offIntUndef⟩,
    ⟨"delay_wait_checks".toList, .int .offIntUndef⟩,
    ⟨"san_path_err_threshold".toList, .int .offIntUndef⟩,
    ⟨"san_path_err_forget_rate".toList, .int .offIntUndef⟩,
    ⟨"san_path_err_recovery_time".toList, .int .offIntUndef⟩,
    ⟨"marginal_path_err_sample_time".toList, .int .offIntUndef⟩,
    ⟨"marginal_path_err_rate_threshold".toList, .int .offIntUndef⟩,
    ⟨"marginal_path_err_recheck_gap_time".toList, .int .offIntUndef⟩,
    ⟨"marginal_path_double_failed_time".toList, .int .offIntUndef⟩,
    ⟨"skip_kpartx".toList, .int .yesNoUndef⟩,
    ⟨"max_sectors_kb".toList, .int .nonzero⟩,
    ⟨"ghost_delay".toList, .int .offIntUndef⟩,
    ⟨"all_tg_pt".toList, .int .yesNoUndef⟩,
    ⟨"vpd_vendor".toList, .int .vpdVendor⟩]

/-- The keywords of `overrides`. -/
def overridesKeywords : List Keyword :=
  [⟨"path_grouping_policy".toList, .int .pgpolicy⟩,
    ⟨"uid_attribute".toList, .str⟩,
    ⟨"getuid_callout".toList, .str⟩,
    ⟨"path_selector".toList, .str⟩,
    ⟨"path_checker".toList, .str⟩,
    ⟨"alias_prefix".toList, .str⟩,
    ⟨"features".toList, .str⟩,
    ⟨"prio".toList, .str⟩,
    ⟨"prio_args".toList, .str⟩,
    ⟨"failback".toList, .int .pgfailback⟩,
    ⟨"rr_weight".toList, .int .rrWeight⟩,
    ⟨"no_path_retry".toList, .int .noPathRetry⟩,
    ⟨"rr_min_io".toList, .int .nonzero⟩,
    ⟨"rr_min_io_rq".toList, .int .nonzero⟩,
    ⟨"flush_on_last_del".toList, .int .yesNoUndef⟩,
    ⟨"fast_io_fail_tmo".toList, .int .fastIoFail⟩,
    ⟨"dev_loss_tmo".toList, .uint .devLoss⟩,
    ⟨"user_friendly_names".toList, .int .yesNoUndef⟩,
    ⟨"retain_attached_hw_handler".toList, .int .yesNoUndef⟩,
    ⟨"detect_prio".toList, .int .yesNoUndef⟩,
    ⟨"detect_checker".toList, .int .yesNoUndef⟩,
    ⟨"deferred_remove".toList, .int .yesNoUndef⟩,
    ⟨"delay_watch_checks".toList, .int .offIntUndef⟩,
    ⟨"delay_wait_checks".toList, .int .offIntUndef⟩,
    ⟨"san_path_err_threshold".toList, .int .offIntUndef⟩,
    ⟨"san_path_err_forget_rate".toList, .int .offIntUndef⟩,
    ⟨"san_path_err_recovery_time".toList, .int .offIntUndef⟩,
    ⟨"marginal_path_err_sample_time".toList, .int .offIntUndef⟩,
    ⟨"marginal_path_err_rate_threshold".toList, .int .offIntUndef⟩,
    ⟨"marginal_path_err_recheck_gap_time".toList, .int .offIntUndef⟩,
    ⟨"marginal_path_double_failed_time".toList, .int .offIntUndef⟩,
    ⟨"skip_kpartx".toList, .int .yesNoUndef⟩,
    ⟨"max_sectors_kb".toList, .int .nonzero⟩,
    ⟨"ghost_delay".toList, .int .offIntUndef⟩,
    ⟨"all_tg_pt".toList, .int .yesNoUndef⟩]

/-- The keywords of `multipath` in `multipaths`. -/
def multipathKeywords : List Keyword :=
  [⟨"wwid".toList, .str⟩,
    ⟨"alias".toList, .str⟩,
    ⟨"path_grouping_policy".toList, .int .pgpolicy⟩,
    ⟨"path_selector".toList, .str⟩,
    ⟨"prio".toList, .str⟩,
    ⟨"prio_args".toList, .str⟩,
    ⟨"failback".toList, .int .pgfailback⟩,
    ⟨"rr_weight".toList, .int .rrWeight⟩,
    ⟨"no_path_retry".toList, .int .noPathRetry⟩,
    ⟨"rr_min_io".toList, .int .nonzero⟩,
    ⟨"rr_min_io_rq".toList, .int .nonzero⟩,
    ⟨"pg_timeout".toList, .deprecated⟩,
    ⟨"flush_on_last_del".toList, .int .yesNoUndef⟩,
    ⟨"features".toList, .str⟩,
    ⟨"mode".toList, .mode⟩,
    ⟨"uid".toList, .uid⟩,
    ⟨"gid".toList, .gid⟩,
    ⟨"reservation_key".toList, .reservationKey⟩,
    ⟨"user_friendly_names".toList, .int .yesNoUndef⟩,
    ⟨"deferred_remove".toList, .int .yesNoUndef⟩,
    ⟨"delay_watch_checks".toList, .int .offIntUndef⟩,
    ⟨"delay_wait_checks".toList, .int .offIntUndef⟩,
    ⟨"san_path_err_threshold".toList, .int .offIntUndef⟩,
    ⟨"san_path_err_forget_rate".toList, .int .offIntUndef⟩,
    ⟨"san_path_err_recovery_time".toList, .int .offIntUndef⟩,
    ⟨"marginal_path_err_sample_time".toList, .int .offIntUndef⟩,
    ⟨"marginal_path_err_rate_threshold".toList, .int .offIntUndef⟩,
    ⟨"marginal_path_err_recheck_gap_time".toList, .int .offIntUndef⟩,
    ⟨"marginal_path_double_failed_time".toList, .int .offIntUndef⟩,
    ⟨"skip_kpartx".toList, .int .yesNoUndef⟩,
    ⟨"max_sectors_kb".toList, .int .nonzero⟩,
    ⟨"ghost_delay".toList, .int .offIntUndef⟩]

/-- All keywords with a handler and a print function. -/
def keywords : List Keyword :=
  defaultsKeywords ++ blacklistKeywords ++ blacklistDeviceKeywords ++ deviceKeywords ++
    overridesKeywords ++ multipathKeywords

namespace Keyword

/-- The line of a keyword, as `snprint_keyword` prints it. -/
def printLine (env : Env) (k : Keyword) (level : ℕ) (v : k.family.Val) : Option CStr :=
  snprintKeyword k.string (k.family.print env v) (keywordFormat level)

/-- A line is tokenised, checked, and given to the handler if it is one of the keyword. -/
def readLine (env : Env) (k : Keyword) (line : CStr) : Handled k.family.Val :=
  match allocStrvec line with
  | none => {}
  | some strvec =>
    let valid := validateConfigStrvec strvec
    if valid.1 ≠ 0 then { log := valid.2 }
    else if optionName strvec ≠ k.string then
      { log := valid.2 ++ [.unknownKeyword (optionName strvec)] }
    else
      let r := k.family.handler env strvec
      { r with log := valid.2 ++ r.log ++ if r.rc ≠ 0 then [.parsingFailed line] else [] }

end Keyword

/-- A name that is a token of its own and starts no section. -/
def IsName (s : CStr) : Prop := IsBareWord s ∧ isSublevelKeyword s = false

instance (s : CStr) : Decidable (IsName s) := inferInstanceAs (Decidable (_ ∧ _))

/-- The names of sections, character by character. -/
def sublevelKeywords : List CStr :=
  [['d', 'e', 'f', 'a', 'u', 'l', 't', 's'], ['b', 'l', 'a', 'c', 'k', 'l', 'i', 's', 't'],
    ['b', 'l', 'a', 'c', 'k', 'l', 'i', 's', 't', '_', 'e', 'x', 'c', 'e', 'p', 't', 'i', 'o', 'n',
      's'],
    ['d', 'e', 'v', 'i', 'c', 'e', 's'], ['d', 'e', 'v', 'i', 'c', 'e'],
    ['m', 'u', 'l', 't', 'i', 'p', 'a', 't', 'h', 's'],
    ['m', 'u', 'l', 't', 'i', 'p', 'a', 't', 'h']]

theorem isSublevelKeyword_eq (str : CStr) :
    isSublevelKeyword str = decide (str ∈ sublevelKeywords) := by
  unfold isSublevelKeyword sublevelKeywords
  repeat rw [String.toList_ofList]

-- The kernel decodes a literal slowly, so the characters are taken from `hs`.
theorem isName_cons {s : String} {l : CStr} {f : Family} {ks : List Keyword}
    (hs : s = String.ofList l) (hl : IsBareWord l ∧ l ∉ sublevelKeywords)
    (hks : ∀ k ∈ ks, IsName k.string) :
    ∀ k ∈ (⟨s.toList, f⟩ : Keyword) :: ks, IsName k.string := by
  have hname : IsName s.toList := by
    rw [hs, String.toList_ofList, IsName, isSublevelKeyword_eq, decide_eq_false_iff_not]
    exact hl
  exact List.forall_mem_cons.mpr ⟨hname, hks⟩

theorem keywords_isName : ∀ k ∈ keywords, IsName k.string := by
  unfold keywords defaultsKeywords blacklistKeywords blacklistDeviceKeywords deviceKeywords
    overridesKeywords multipathKeywords
  simp only [List.cons_append, List.nil_append]
  repeat' apply isName_cons rfl (by decide +kernel)
  exact List.forall_mem_nil _

end MultipathTools.Dict
