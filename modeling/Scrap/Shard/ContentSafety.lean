/-
# From a scan result to the content-quarantine records

A scanner's result passes three checks on its way into the Projection:

| where | what it checks of the detection time |
| :-- | :-- |
| the scheduler, `validateDetection` | positive |
| the leader, `quarantineCommandFromDetection` | positive |
| every Member, `validateContentQuarantine` | positive and at most the year 9999 |

The rest is checked alike at all three. A detection time past the bound therefore becomes a
committed command that no Member can apply (`quarantine_commands_apply_iff`).

The second half follows the records through a log of commands. A `QuarantineDocument` writes a
whole record with `confirmed_at_us` zero, so one that arrives for a confirmed Document undoes the
confirmation, the only way to lose one before a release (`confirmed_quarantine_kept_iff`).
-/
import Scrap.Index.ContentQuarantine

namespace Scrap

open Function Text

/-! ## Commands -/

/-- The enum of the command; any number without a name counts as unspecified. -/
inductive QuarantineScanType where
  | unspecified
  | initial
  | rescan
deriving DecidableEq

inductive QuarantineReason where
  | unspecified
  | scannerDetection
deriving DecidableEq

structure QuarantineDocument where
  transactionID : String
  documentName : String
  blockID : UInt64
  detectedAtUs : Int
  scanType : QuarantineScanType
  reason : QuarantineReason
deriving DecidableEq

structure ConfirmQuarantine where
  transactionID : String
  documentName : String
  confirmedAtUs : Int
deriving DecidableEq

structure ReleaseQuarantine where
  transactionID : String
  documentName : String
  releasedAtUs : Int
deriving DecidableEq

inductive SafetyErr where
  | identity (err : TextErr)
  /-- `quarantine block_id is required` -/
  | blockIDRequired
  /-- `quarantine detected_at_us is required` -/
  | detectedAtRequired
  /-- `quarantine confirmed_at_us is required` -/
  | confirmedAtRequired
  /-- `quarantine released_at_us is required` -/
  | releasedAtRequired
  /-- `quarantine scan_type is required` -/
  | scanTypeRequired
  /-- `quarantine reason is required` -/
  | reasonRequired
  /-- `ErrInvalidDetection: detection count %d exceeds %d` -/
  | detectionCount (n : Nat)
  | index (err : ContentQuarantineErr)
deriving DecidableEq

def contentQuarantineScanTypeFromCommand : QuarantineScanType → Except SafetyErr UInt8
  | .initial => .ok contentQuarantineScanTypeInitial
  | .rescan => .ok contentQuarantineScanTypeRescan
  | .unspecified => .error .scanTypeRequired

def contentQuarantineReasonFromCommand : QuarantineReason → Except SafetyErr UInt8
  | .scannerDetection => .ok contentQuarantineReasonScannerDetection
  | .unspecified => .error .reasonRequired

def applyQuarantineDocument (cmd : QuarantineDocument) (db : QuarantineStore) :
    Except SafetyErr QuarantineStore :=
  match validateDocumentIdentity cmd.transactionID cmd.documentName "" with
  | .error err => .error (.identity err)
  | .ok () =>
    match contentQuarantineScanTypeFromCommand cmd.scanType with
    | .error err => .error err
    | .ok scanType =>
      match contentQuarantineReasonFromCommand cmd.reason with
      | .error err => .error err
      | .ok reason =>
        if cmd.detectedAtUs ≤ 0 then .error .detectedAtRequired
        else
          match db.putContentQuarantine ⟨cmd.transactionID, cmd.documentName, cmd.blockID,
              cmd.detectedAtUs, 0, scanType, reason⟩ with
          | .error err => .error (.index err)
          | .ok db' => .ok db'

def applyConfirmQuarantine (cmd : ConfirmQuarantine) (db : QuarantineStore) :
    Except SafetyErr QuarantineStore :=
  match validateDocumentIdentity cmd.transactionID cmd.documentName "" with
  | .error err => .error (.identity err)
  | .ok () =>
    if cmd.confirmedAtUs ≤ 0 then .error .confirmedAtRequired
    else
      match db.confirmContentQuarantine cmd.transactionID cmd.documentName
          cmd.confirmedAtUs with
      | .error err => .error (.index err)
      | .ok db' => .ok db'

def applyReleaseQuarantine (cmd : ReleaseQuarantine) (db : QuarantineStore) :
    Except SafetyErr QuarantineStore :=
  match validateDocumentIdentity cmd.transactionID cmd.documentName "" with
  | .error err => .error (.identity err)
  | .ok () =>
    if cmd.releasedAtUs ≤ 0 then .error .releasedAtRequired
    else
      match db.releaseContentQuarantine cmd.transactionID cmd.documentName with
      | .error err => .error (.index err)
      | .ok db' => .ok db'

/-! ## What an apply of `QuarantineDocument` needs -/

structure QuarantineDocument.Accepted (cmd : QuarantineDocument) : Prop where
  identity : ValidIdentity cmd.transactionID cmd.documentName
  scanType : cmd.scanType ≠ .unspecified
  reason : cmd.reason ≠ .unspecified
  detected : 0 < cmd.detectedAtUs ∧ cmd.detectedAtUs ≤ maxContentQuarantineUnixMicro

def QuarantineDocument.record (cmd : QuarantineDocument) : ContentQuarantine :=
  ⟨cmd.transactionID, cmd.documentName, cmd.blockID, cmd.detectedAtUs, 0,
    if cmd.scanType = .rescan then contentQuarantineScanTypeRescan
      else contentQuarantineScanTypeInitial,
    contentQuarantineReasonScannerDetection⟩

variable {t : Int} {cmd : QuarantineDocument} {db db' : QuarantineStore} {txID docName : String}
  {blockID : UInt64}

theorem QuarantineDocument.Accepted.record_valid (h : cmd.Accepted) : cmd.record.Valid where
  identity := h.identity
  detected := h.detected
  confirmed := ⟨Int.le_refl 0, show (0 : Int) ≤ maxContentQuarantineUnixMicro by decide⟩
  scanType := by
    by_cases hr : cmd.scanType = .rescan
    · exact .inr (if_pos hr)
    · exact .inl (if_neg hr)
  reason := rfl

theorem contentQuarantineScanTypeFromCommand_of_ne {t : QuarantineScanType}
    (h : t ≠ .unspecified) : contentQuarantineScanTypeFromCommand t =
      .ok (if t = .rescan then contentQuarantineScanTypeRescan
        else contentQuarantineScanTypeInitial) := by
  cases t with
  | unspecified => exact absurd rfl h
  | initial => rfl
  | rescan => rfl

theorem contentQuarantineReasonFromCommand_of_ne {r : QuarantineReason}
    (h : r ≠ .unspecified) :
    contentQuarantineReasonFromCommand r = .ok contentQuarantineReasonScannerDetection := by
  cases r with
  | unspecified => exact absurd rfl h
  | scannerDetection => rfl

theorem applyQuarantineDocument_of_accepted (h : cmd.Accepted) (db : QuarantineStore) :
    applyQuarantineDocument cmd db =
      .ok (update db (contentQuarantineKeyBytes cmd.transactionID cmd.documentName)
        (some (encodeContentQuarantine cmd.record))) := by
  have hput := putContentQuarantine_of_valid db h.record_valid
  have hdet : ¬ cmd.detectedAtUs ≤ 0 := by have := h.detected; omega
  simp only [applyQuarantineDocument, validateDocumentIdentity_ok_iff.mpr h.identity,
    contentQuarantineScanTypeFromCommand_of_ne h.scanType,
    contentQuarantineReasonFromCommand_of_ne h.reason, if_neg hdet]
  change (match db.putContentQuarantine cmd.record with
    | .error err => Except.error (SafetyErr.index err)
    | .ok db' => .ok db') = _
  rw [hput]
  rfl

theorem applyQuarantineDocument_ok (h : applyQuarantineDocument cmd db = .ok db') :
    cmd.Accepted := by
  unfold applyQuarantineDocument at h
  cases hid : validateDocumentIdentity cmd.transactionID cmd.documentName "" with
  | error err => simp [hid] at h
  | ok u => ?_
  cases hs : contentQuarantineScanTypeFromCommand cmd.scanType with
  | error err => simp [hid, hs] at h
  | ok scanType => ?_
  cases hr : contentQuarantineReasonFromCommand cmd.reason with
  | error err => simp [hid, hs, hr] at h
  | ok reason => ?_
  by_cases hdet : cmd.detectedAtUs ≤ 0
  · simp [hid, hs, hr, hdet] at h
  simp only [hid, hs, hr, if_neg hdet] at h
  split at h
  · cases h
  rename_i hput
  have hv := putContentQuarantine_ok hput
  refine ⟨hv.identity, ?_, ?_, hv.detected⟩
  · rintro hu
    simp [hu, contentQuarantineScanTypeFromCommand] at hs
  · rintro hu
    simp [hu, contentQuarantineReasonFromCommand] at hr

theorem applyQuarantineDocument_ok_iff (cmd : QuarantineDocument) (db : QuarantineStore) :
    (∃ db', applyQuarantineDocument cmd db = .ok db') ↔ cmd.Accepted :=
  ⟨fun ⟨_, h⟩ => applyQuarantineDocument_ok h,
    fun h => ⟨_, applyQuarantineDocument_of_accepted h db⟩⟩

/-! ## From a scan result to commands -/

inductive DetectionScanType where
  | initial
  | rescan
  | other (text : String)
deriving DecidableEq

inductive DetectionReason where
  | scannerDetection
  | other (text : String)
deriving DecidableEq

structure Detection where
  transactionID : String
  documentName : String
  detectedAtUs : Int
  scanType : DetectionScanType
  reason : DetectionReason
deriving DecidableEq

inductive ResultStatus where
  | clean
  | detected
  | other (text : String)
deriving DecidableEq

structure ScanResult where
  status : ResultStatus
  detections : List Detection
deriving DecidableEq

/-- `ErrInvalidDetection`, by its text. -/
inductive DetectionErr where
  /-- `detected result without detections` -/
  | withoutDetections
  /-- `detections require detected result` -/
  | requireDetected
  | identity (err : TextErr)
  | detectedAtRequired
  | scanTypeRequired
  | reasonRequired
deriving DecidableEq

def validateDetection (d : Detection) : Except DetectionErr Unit :=
  match validateDocumentIdentity d.transactionID d.documentName "" with
  | .error err => .error (.identity err)
  | .ok () =>
    if d.detectedAtUs ≤ 0 then .error .detectedAtRequired
    else if d.scanType ≠ .initial ∧ d.scanType ≠ .rescan then .error .scanTypeRequired
    else if d.reason ≠ .scannerDetection then .error .reasonRequired
    else .ok ()

def validateDetections : List Detection → Except DetectionErr Unit
  | [] => .ok ()
  | d :: ds =>
    match validateDetection d with
    | .error err => .error err
    | .ok () => validateDetections ds

def validateDetectionResult (result : ScanResult) : Except DetectionErr Unit :=
  if result.detections = [] then
    if result.status = .detected then .error .withoutDetections else .ok ()
  else if result.status ≠ .detected then .error .requireDetected
  else validateDetections result.detections

def quarantineScanTypeFromDetection : DetectionScanType → Except SafetyErr QuarantineScanType
  | .initial => .ok .initial
  | .rescan => .ok .rescan
  | .other _ => .error .scanTypeRequired

def quarantineReasonFromDetection : DetectionReason → Except SafetyErr QuarantineReason
  | .scannerDetection => .ok .scannerDetection
  | .other _ => .error .reasonRequired

def quarantineCommandFromDetection (blockID : UInt64) (d : Detection) :
    Except SafetyErr QuarantineDocument :=
  if blockID = 0 then .error .blockIDRequired
  else
    match validateDocumentIdentity d.transactionID d.documentName "" with
    | .error err => .error (.identity err)
    | .ok () =>
      if d.detectedAtUs ≤ 0 then .error .detectedAtRequired
      else
        match quarantineScanTypeFromDetection d.scanType with
        | .error err => .error err
        | .ok scanType =>
          match quarantineReasonFromDetection d.reason with
          | .error err => .error err
          | .ok reason =>
            .ok ⟨d.transactionID, d.documentName, blockID, d.detectedAtUs, scanType, reason⟩

def maxDetectionsPerBlock : Nat := 8192

def quarantineCommands (blockID : UInt64) : List Detection →
    Except SafetyErr (List QuarantineDocument)
  | [] => .ok []
  | d :: ds =>
    match quarantineCommandFromDetection blockID d with
    | .error err => .error err
    | .ok cmd =>
      match quarantineCommands blockID ds with
      | .error err => .error err
      | .ok cmds => .ok (cmd :: cmds)

/-- `Shard.ReportDetections`: no command is proposed before all of the batch are built. -/
def shardReportDetections (blockID : UInt64) (batch : List Detection) :
    Except SafetyErr (List QuarantineDocument) :=
  if maxDetectionsPerBlock < batch.length then .error (.detectionCount batch.length)
  else quarantineCommands blockID batch

/-- The slices of `n` that the loop of `reportDetections` takes. -/
def batches (n : Nat) (ds : List Detection) : List (List Detection) :=
  if _h : n = 0 ∨ ds = [] then []
  else ds.take n :: batches n (ds.drop n)
termination_by ds.length
decreasing_by
  have hpos : 0 < ds.length := List.length_pos_iff.mpr (fun hd => _h (.inr hd))
  simp only [List.length_drop]
  omega

/-- The commands that the batches put into the log; a batch that fails ends the report. -/
def reportBatches (blockID : UInt64) : List (List Detection) → List QuarantineDocument
  | [] => []
  | batch :: rest =>
    match shardReportDetections blockID batch with
    | .error _ => []
    | .ok cmds => cmds ++ reportBatches blockID rest

/-- The commands of a scan result: `reportDetections`, with the Shard as the reporter. -/
def reportDetections (blockID : UInt64) (result : ScanResult) : List QuarantineDocument :=
  match validateDetectionResult result with
  | .error _ => []
  | .ok () => reportBatches blockID (batches maxDetectionsPerBlock result.detections)

/-! ## What the scheduler accepts -/

structure Detection.Valid (d : Detection) : Prop where
  identity : ValidIdentity d.transactionID d.documentName
  detected : 0 < d.detectedAtUs
  scanType : d.scanType = .initial ∨ d.scanType = .rescan
  reason : d.reason = .scannerDetection

variable {d : Detection}

theorem validateDetection_ok (h : validateDetection d = .ok ()) : d.Valid := by
  unfold validateDetection at h
  split at h
  · cases h
  rename_i hid
  split_ifs at h with h1 h2 h3
  refine ⟨validateDocumentIdentity_ok_iff.mp hid, by omega, ?_, not_not.mp h3⟩
  by_contra hs
  exact h2 (not_or.mp hs)

theorem validateDetections_ok {ds : List Detection} (h : validateDetections ds = .ok ()) :
    ∀ d ∈ ds, d.Valid := by
  induction ds with
  | nil => simp
  | cons d ds ih =>
    rw [validateDetections] at h
    split at h
    · cases h
    rename_i hd
    rintro e (_ | ⟨_, he⟩)
    · exact validateDetection_ok hd
    · exact ih h e he

theorem validateDetectionResult_ok {result : ScanResult}
    (h : validateDetectionResult result = .ok ()) : ∀ d ∈ result.detections, d.Valid := by
  unfold validateDetectionResult at h
  by_cases hnil : result.detections = []
  · simp [hnil]
  by_cases hst : result.status = .detected
  · simp only [if_neg hnil, hst] at h
    exact validateDetections_ok h
  · simp [hnil, hst] at h

def Detection.command (blockID : UInt64) (d : Detection) : QuarantineDocument :=
  ⟨d.transactionID, d.documentName, blockID, d.detectedAtUs,
    if d.scanType = .rescan then .rescan else .initial, .scannerDetection⟩

theorem quarantineCommandFromDetection_of_valid (hb : blockID ≠ 0) (h : d.Valid) :
    quarantineCommandFromDetection blockID d = .ok (d.command blockID) := by
  have hdet : ¬ d.detectedAtUs ≤ 0 := by have := h.detected; omega
  unfold quarantineCommandFromDetection
  rw [if_neg hb, validateDocumentIdentity_ok_iff.mpr h.identity]
  simp only [if_neg hdet]
  rcases h.scanType with hs | hs
  · simp [hs, h.reason, quarantineScanTypeFromDetection, quarantineReasonFromDetection,
      Detection.command]
  · simp [hs, h.reason, quarantineScanTypeFromDetection, quarantineReasonFromDetection,
      Detection.command]

theorem quarantineCommands_of_valid (hb : blockID ≠ 0) {ds : List Detection}
    (h : ∀ d ∈ ds, d.Valid) :
    quarantineCommands blockID ds = .ok (ds.map (·.command blockID)) := by
  induction ds with
  | nil => rfl
  | cons d ds ih =>
    simp only [quarantineCommands,
      quarantineCommandFromDetection_of_valid hb (h d List.mem_cons_self),
      ih (fun e he => h e (List.mem_cons_of_mem _ he)), List.map_cons]

theorem shardReportDetections_zero {batch : List Detection} (hne : batch ≠ []) :
    ∃ err, shardReportDetections 0 batch = .error err := by
  unfold shardReportDetections
  by_cases hlen : maxDetectionsPerBlock < batch.length
  · exact ⟨_, if_pos hlen⟩
  · obtain ⟨d, ds, rfl⟩ := List.exists_cons_of_ne_nil hne
    exact ⟨.blockIDRequired, by rw [if_neg hlen]; rfl⟩

theorem batches_ne_nil {n : Nat} : ∀ (ds : List Detection), ∀ batch ∈ batches n ds,
    batch ≠ [] ∧ batch.length ≤ n := by
  intro ds
  induction ds using batches.induct (n := n) with
  | case1 ds h =>
    rw [batches, dif_pos h]
    simp
  | case2 ds h ih =>
    rw [batches, dif_neg h]
    obtain ⟨hn, hds⟩ := not_or.mp h
    rintro batch (_ | ⟨_, hb⟩)
    · exact ⟨by simp [hn, hds], List.length_take_le n ds⟩
    · exact ih batch hb

theorem flatten_batches {n : Nat} (hn : n ≠ 0) : ∀ (ds : List Detection),
    (batches n ds).flatten = ds := by
  intro ds
  induction ds using batches.induct (n := n) with
  | case1 ds h =>
    rw [batches, dif_pos h]
    exact (h.resolve_left hn).symm
  | case2 ds h ih => rw [batches, dif_neg h, List.flatten_cons, ih, List.take_append_drop]

theorem reportBatches_of_valid (hb : blockID ≠ 0) :
    ∀ {bs : List (List Detection)}, (∀ b ∈ bs, b.length ≤ maxDetectionsPerBlock) →
      (∀ b ∈ bs, ∀ d ∈ b, d.Valid) →
      reportBatches blockID bs = bs.flatten.map (·.command blockID)
  | [], _, _ => rfl
  | b :: bs, hlen, hv => by
    have hcmds : shardReportDetections blockID b = .ok (b.map (·.command blockID)) := by
      rw [shardReportDetections, if_neg (Nat.not_lt.mpr (hlen b List.mem_cons_self))]
      exact quarantineCommands_of_valid hb (hv b List.mem_cons_self)
    simp only [reportBatches, hcmds, List.flatten_cons, List.map_append,
      reportBatches_of_valid hb (fun c hc => hlen c (List.mem_cons_of_mem _ hc))
        (fun c hc => hv c (List.mem_cons_of_mem _ hc))]

theorem reportDetections_of_accepted {result : ScanResult}
    (h : validateDetectionResult result = .ok ()) :
    reportDetections blockID result =
      if blockID = 0 then [] else result.detections.map (·.command blockID) := by
  unfold reportDetections
  rw [h]
  by_cases hb : blockID = 0
  · subst hb
    show reportBatches 0 (batches maxDetectionsPerBlock result.detections) = []
    cases hbs : batches maxDetectionsPerBlock result.detections with
    | nil => rfl
    | cons b bs => ?_
    have hne := (batches_ne_nil result.detections b (by rw [hbs]; exact List.mem_cons_self)).1
    obtain ⟨err, herr⟩ := shardReportDetections_zero hne
    rw [reportBatches, herr]
  · rw [if_neg hb]
    have hflat := flatten_batches (n := maxDetectionsPerBlock) (by decide) result.detections
    have hvalid : ∀ b ∈ batches maxDetectionsPerBlock result.detections, ∀ d ∈ b, d.Valid := by
      intro b hmem d hd
      refine validateDetectionResult_ok h d ?_
      rw [← hflat]
      exact List.mem_flatten.mpr ⟨b, hmem, hd⟩
    have hrep := reportBatches_of_valid hb
      (fun b hmem => (batches_ne_nil result.detections b hmem).2) hvalid
    rw [hflat] at hrep
    exact hrep

theorem Detection.Valid.command_accepted_iff (h : d.Valid) (blockID : UInt64) :
    (d.command blockID).Accepted ↔ d.detectedAtUs ≤ maxContentQuarantineUnixMicro := by
  constructor
  · exact fun ha => ha.detected.2
  intro hle
  refine ⟨h.identity, ?_, fun hr => QuarantineReason.noConfusion hr, h.detected, hle⟩
  show (if d.scanType = .rescan then QuarantineScanType.rescan else .initial) ≠ .unspecified
  by_cases hs : d.scanType = .rescan
  · rw [if_pos hs]
    decide
  · rw [if_neg hs]
    decide

/-- The commands of an accepted scan result apply on every Member exactly when no detection time
lies past the year 9999 (or the report has no Block and builds none). -/
theorem quarantine_commands_apply_iff (blockID : UInt64) (result : ScanResult)
    (h : validateDetectionResult result = .ok ()) :
    (∀ cmd ∈ reportDetections blockID result, ∀ db : QuarantineStore,
        ∃ db', applyQuarantineDocument cmd db = .ok db') ↔
      (blockID = 0 ∨ ∀ d ∈ result.detections, d.detectedAtUs ≤ maxContentQuarantineUnixMicro) := by
  have hvalid := validateDetectionResult_ok h
  rw [reportDetections_of_accepted h]
  by_cases hb : blockID = 0
  · simp [hb]
  simp only [hb, if_false, List.mem_map, false_or]
  constructor
  · intro hall d hd
    have hok := hall _ ⟨d, hd, rfl⟩ (fun _ => none)
    exact ((hvalid d hd).command_accepted_iff blockID).mp
      ((applyQuarantineDocument_ok_iff _ _).mp hok)
  · rintro hle _ ⟨d, hd, rfl⟩ db
    exact (applyQuarantineDocument_ok_iff _ _).mpr
      (((hvalid d hd).command_accepted_iff blockID).mpr (hle d hd))

/-- A scanner that stamps nanoseconds. -/
def nanosecondResult : ScanResult :=
  ⟨.detected, [⟨"tx", "doc.xml", 1716700003000000000, .initial, .scannerDetection⟩]⟩

/-- The result is accepted, its command is built, and no Member applies it. -/
theorem nanosecond_detection_stops_apply :
    validateDetectionResult nanosecondResult = .ok () ∧ quarantineCommandFromDetection 1
          ⟨"tx", "doc.xml", 1716700003000000000, .initial, .scannerDetection⟩ =
        .ok ⟨"tx", "doc.xml", 1, 1716700003000000000, .initial, .scannerDetection⟩ ∧
      ⟨"tx", "doc.xml", 1, 1716700003000000000, .initial, .scannerDetection⟩ ∈
        reportDetections 1 nanosecondResult ∧
      ∀ db : QuarantineStore, applyQuarantineDocument
          ⟨"tx", "doc.xml", 1, 1716700003000000000, .initial, .scannerDetection⟩ db =
        .error (.index .detectedAtRange) := by
  have hres : validateDetectionResult nanosecondResult = .ok () := by decide +kernel
  refine ⟨hres, by decide +kernel, ?_, fun db => rfl⟩
  rw [reportDetections_of_accepted hres]
  decide

/-- A result stamped in microseconds: its command applies. -/
def microsecondResult : ScanResult :=
  ⟨.detected, [⟨"tx", "doc.xml", 1716700003000000, .initial, .scannerDetection⟩]⟩

theorem quarantine_commands_apply_microseconds :
    validateDetectionResult microsecondResult = .ok () ∧
      ∀ cmd ∈ reportDetections 1 microsecondResult, ∀ db : QuarantineStore,
        ∃ db', applyQuarantineDocument cmd db = .ok db' := by
  have hres : validateDetectionResult microsecondResult = .ok () := by decide +kernel
  refine ⟨hres, (quarantine_commands_apply_iff 1 microsecondResult hres).mpr (.inr ?_)⟩
  decide

/-! ## Runs of the commands -/

inductive ContentCommand where
  | quarantineDoc (cmd : QuarantineDocument)
  | confirmQuarantine (cmd : ConfirmQuarantine)
  | releaseQuarantine (cmd : ReleaseQuarantine)
deriving DecidableEq

namespace ContentCommand

def apply (c : ContentCommand) (db : QuarantineStore) : Except SafetyErr QuarantineStore :=
  match c with
  | quarantineDoc cmd => applyQuarantineDocument cmd db
  | confirmQuarantine cmd => applyConfirmQuarantine cmd db
  | releaseQuarantine cmd => applyReleaseQuarantine cmd db

def step (db : QuarantineStore) (c : ContentCommand) : QuarantineStore :=
  match c.apply db with
  | .ok db' => db'
  | .error _ => db

/-- The store behind the commands that a Member applies: the log, and what a restart applies again.
-/
def run (db : QuarantineStore) (cs : List ContentCommand) : QuarantineStore := cs.foldl step db

end ContentCommand

/-- The confirmation time of a Document's record, if it is confirmed. -/
def QuarantineStore.confirmedAt (db : QuarantineStore) (txID docName : String) : Option Int :=
  match db.getContentQuarantine txID docName with
  | .error _ => none
  | .ok q => if 0 < q.confirmedAtUs then some q.confirmedAtUs else none

def ContentCommand.Releases (c : ContentCommand) (db : QuarantineStore)
    (txID docName : String) : Prop :=
  ∃ cmd db', c = .releaseQuarantine cmd ∧ cmd.transactionID = txID ∧
    cmd.documentName = docName ∧ c.apply db = .ok db'

def Unreleased (txID docName : String) : QuarantineStore → List ContentCommand → Prop
  | _, [] => True
  | db, c :: cs => ¬ c.Releases db txID docName ∧ Unreleased txID docName (c.step db) cs

/-- A confirmed record stays confirmed, with its time, until a release of its Document. -/
def KeepsConfirmations (db : QuarantineStore) (cs : List ContentCommand) : Prop :=
  ∀ before during after txID docName t, cs = before ++ during ++ after →
    (ContentCommand.run db before).confirmedAt txID docName = some t →
    Unreleased txID docName (ContentCommand.run db before) during →
    (ContentCommand.run db (before ++ during)).confirmedAt txID docName = some t

/-- A `QuarantineDocument` that passes its checks, for a Document whose record is
confirmed. -/
def ContentCommand.Requarantines (c : ContentCommand) (db : QuarantineStore) : Prop :=
  ∃ cmd, c = .quarantineDoc cmd ∧ cmd.Accepted ∧
    db.confirmedAt cmd.transactionID cmd.documentName ≠ none

/-! ## What a command leaves alone -/

theorem confirmedAt_eq_some :
    db.confirmedAt txID docName = some t ↔
      ∃ q, db.getContentQuarantine txID docName = .ok q ∧ q.confirmedAtUs = t ∧ 0 < t := by
  unfold QuarantineStore.confirmedAt
  cases hget : db.getContentQuarantine txID docName with
  | error err => simp
  | ok q => ?_
  by_cases hq : 0 < q.confirmedAtUs
  · simp only [if_pos hq, Option.some.injEq, Except.ok.injEq, exists_eq_left']
    exact ⟨fun h => ⟨h, h ▸ hq⟩, fun h => h.1⟩
  · simp only [if_neg hq, reduceCtorEq, Except.ok.injEq, exists_eq_left', false_iff]
    rintro ⟨rfl, ht⟩
    exact hq ht

theorem getContentQuarantine_identity {q : ContentQuarantine}
    (h : db.getContentQuarantine txID docName = .ok q) :
    q.transactionID = txID ∧ q.documentName = docName := by
  unfold QuarantineStore.getContentQuarantine at h
  cases hkey : contentQuarantineKey txID docName with
  | error err => simp [hkey] at h
  | ok key => ?_
  cases hval : db key with
  | none => simp [hkey, hval] at h
  | some val =>
    simp only [hkey, hval] at h
    exact decodeContentQuarantine_identity h

theorem confirmedAt_update_of_ne (db : QuarantineStore) (v : Option (List UInt8))
    {txID' docName' : String} (hv : ValidIdentity txID' docName')
    (hne : ¬ (txID' = txID ∧ docName' = docName)) :
    QuarantineStore.confirmedAt
        (update db (contentQuarantineKeyBytes txID' docName') v) txID docName =
      db.confirmedAt txID docName := by
  unfold QuarantineStore.confirmedAt QuarantineStore.getContentQuarantine
  cases hkey : contentQuarantineKey txID docName with
  | error err => rfl
  | ok key => ?_
  obtain ⟨hvalid, rfl⟩ := contentQuarantineKey_ok_iff.mp hkey
  have hk : contentQuarantineKeyBytes txID docName ≠ contentQuarantineKeyBytes txID' docName' := by
    intro heq
    obtain ⟨htx, hdoc⟩ := contentQuarantineKeyBytes_inj hvalid.1.2.2 hv.1.2.2 heq
    exact hne ⟨htx.symm, hdoc.symm⟩
  simp only [update_of_ne hk]

theorem confirmedAt_quarantineDoc (h : cmd.Accepted) (db : QuarantineStore) :
    (ContentCommand.step db (.quarantineDoc cmd)).confirmedAt cmd.transactionID
      cmd.documentName = none := by
  have hstep : ContentCommand.step db (.quarantineDoc cmd) =
      update db (contentQuarantineKeyBytes cmd.transactionID cmd.documentName)
        (some (encodeContentQuarantine cmd.record)) := by
    simp [ContentCommand.step, ContentCommand.apply, applyQuarantineDocument_of_accepted h]
  have hget : QuarantineStore.getContentQuarantine
      (update db (contentQuarantineKeyBytes cmd.transactionID cmd.documentName)
        (some (encodeContentQuarantine cmd.record))) cmd.transactionID cmd.documentName =
      .ok cmd.record := by
    have hdec := decodeContentQuarantine_encode h.record_valid
    rw [show cmd.record.transactionID = cmd.transactionID from rfl,
      show cmd.record.documentName = cmd.documentName from rfl] at hdec
    simp only [QuarantineStore.getContentQuarantine, contentQuarantineKey_of_valid h.identity,
      update_self, hdec]
  rw [hstep, QuarantineStore.confirmedAt, hget]
  rfl

theorem confirmedAt_confirm {cmd : ConfirmQuarantine} (ht : db.confirmedAt txID docName = some t)
    (h : applyConfirmQuarantine cmd db = .ok db') : db'.confirmedAt txID docName = some t := by
  unfold applyConfirmQuarantine at h
  cases hid : validateDocumentIdentity cmd.transactionID cmd.documentName "" with
  | error err => simp [hid] at h
  | ok u => ?_
  by_cases hc : cmd.confirmedAtUs ≤ 0
  · simp [hid, hc] at h
  simp only [hid, if_neg hc, QuarantineStore.confirmContentQuarantine] at h
  cases hget : db.getContentQuarantine cmd.transactionID cmd.documentName with
  | error err =>
    cases err with
    | notFound =>
      simp only [hget, Except.ok.injEq] at h
      rwa [← h]
    | _ => simp [hget] at h
  | ok q =>
    by_cases hq : 0 < q.confirmedAtUs
    · simp only [hget, if_pos hq, Except.ok.injEq] at h
      rwa [← h]
    simp only [hget, if_neg hq] at h
    cases hput : db.putContentQuarantine { q with confirmedAtUs := cmd.confirmedAtUs }
      with
    | error err => simp [hput] at h
    | ok db'' =>
      have hv := putContentQuarantine_ok hput
      simp only [hput, Except.ok.injEq] at h
      rw [putContentQuarantine_of_valid db hv, Except.ok.injEq] at hput
      rw [← h, ← hput, confirmedAt_update_of_ne db _ hv.identity, ht]
      rintro ⟨htx, hdoc⟩
      -- the record read under the command's identity is not confirmed
      obtain ⟨q', hq', hqt, htpos⟩ := confirmedAt_eq_some.mp ht
      have hident := getContentQuarantine_identity hget
      have hsame : q = q' := by
        have htx' : cmd.transactionID = txID := hident.1 ▸ htx
        have hdoc' : cmd.documentName = docName := hident.2 ▸ hdoc
        rw [htx', hdoc', hq'] at hget
        exact (Except.ok.inj hget).symm
      subst hsame
      omega

theorem confirmedAt_release {cmd : ReleaseQuarantine}
    (hne : ¬ (cmd.transactionID = txID ∧ cmd.documentName = docName))
    (h : applyReleaseQuarantine cmd db = .ok db') :
    db'.confirmedAt txID docName = db.confirmedAt txID docName := by
  unfold applyReleaseQuarantine at h
  cases hid : validateDocumentIdentity cmd.transactionID cmd.documentName "" with
  | error err => simp [hid] at h
  | ok u => ?_
  have hvalid := validateDocumentIdentity_ok_iff.mp hid
  by_cases hc : cmd.releasedAtUs ≤ 0
  · simp [hid, hc] at h
  simp only [hid, if_neg hc, QuarantineStore.releaseContentQuarantine,
    contentQuarantineKey_of_valid hvalid] at h
  cases hget : db.getContentQuarantine cmd.transactionID cmd.documentName with
  | error err =>
    cases err with
    | notFound =>
      simp only [hget, Except.ok.injEq] at h
      rw [← h]
    | _ => simp [hget] at h
  | ok q =>
    simp only [hget, Except.ok.injEq] at h
    rw [← h, confirmedAt_update_of_ne db none hvalid hne]

/-- One command: a confirmation is lost only to a release or to a second quarantine of the Document.
-/
theorem confirmedAt_step {c : ContentCommand} (ht : db.confirmedAt txID docName = some t)
    (hrel : ¬ c.Releases db txID docName) (hreq : ¬ c.Requarantines db) :
    (c.step db).confirmedAt txID docName = some t := by
  unfold ContentCommand.step
  cases happ : c.apply db with
  | error err => exact ht
  | ok db' => ?_
  cases c with
  | quarantineDoc cmd =>
    have hacc : cmd.Accepted := applyQuarantineDocument_ok happ
    have hdb : update db
        (contentQuarantineKeyBytes cmd.transactionID cmd.documentName)
        (some (encodeContentQuarantine cmd.record)) = db' :=
      Except.ok.inj ((applyQuarantineDocument_of_accepted hacc db).symm.trans happ)
    show QuarantineStore.confirmedAt db' txID docName = some t
    rw [← hdb, confirmedAt_update_of_ne db _ hacc.identity, ht]
    rintro ⟨rfl, rfl⟩
    exact hreq ⟨cmd, rfl, hacc, by rw [ht]; simp⟩
  | confirmQuarantine cmd => exact confirmedAt_confirm ht happ
  | releaseQuarantine cmd =>
    show QuarantineStore.confirmedAt db' txID docName = some t
    rw [confirmedAt_release (fun hid => hrel ⟨cmd, db', rfl, hid.1, hid.2, happ⟩) happ, ht]

theorem ContentCommand.run_append (db : QuarantineStore) (cs ds : List ContentCommand) :
    ContentCommand.run db (cs ++ ds) = ContentCommand.run (ContentCommand.run db cs) ds :=
  List.foldl_append

theorem confirmedAt_run :
    ∀ {cs : List ContentCommand} {db : QuarantineStore},
      db.confirmedAt txID docName = some t → Unreleased txID docName db cs →
      (∀ before c after, cs = before ++ c :: after →
        ¬ c.Requarantines (ContentCommand.run db before)) →
      (ContentCommand.run db cs).confirmedAt txID docName = some t
  | [], _, ht, _, _ => ht
  | c :: cs, db, ht, hrel, hreq => by
    have hstep := confirmedAt_step ht hrel.1 (hreq [] c cs rfl)
    have hreq' : ∀ before d after, cs = before ++ d :: after →
        ¬ d.Requarantines (ContentCommand.run (c.step db) before) := by
      intro before d after hsplit
      exact hreq (c :: before) d after (by rw [hsplit]; rfl)
    show (ContentCommand.run (c.step db) cs).confirmedAt txID docName = some t
    exact confirmedAt_run hstep hrel.2 hreq'

/-- A run keeps every confirmation up to its release exactly when no command of it
quarantines a confirmed Document again. -/
theorem confirmed_quarantine_kept_iff (db : QuarantineStore) (cs : List ContentCommand) :
    KeepsConfirmations db cs ↔ ∀ before c after, cs = before ++ c :: after →
        ¬ c.Requarantines (ContentCommand.run db before) := by
  constructor
  · rintro hkeep before c after hsplit ⟨cmd, rfl, hacc, hconf⟩
    obtain ⟨t, ht⟩ := Option.ne_none_iff_exists'.mp hconf
    have hun : Unreleased cmd.transactionID cmd.documentName (ContentCommand.run db before)
        [.quarantineDoc cmd] := by
      refine ⟨?_, trivial⟩
      rintro ⟨rel, db', hrel, -⟩
      exact ContentCommand.noConfusion hrel
    have hafter := hkeep before [.quarantineDoc cmd] after _ _ t (by simpa using hsplit) ht hun
    rw [ContentCommand.run_append] at hafter
    have hnone := confirmedAt_quarantineDoc hacc (ContentCommand.run db before)
    have hsome : (ContentCommand.step (ContentCommand.run db before)
        (.quarantineDoc cmd)).confirmedAt cmd.transactionID cmd.documentName = some t := hafter
    rw [hnone] at hsome
    exact Option.some_ne_none t hsome.symm
  · intro hreq before during after txID docName t hsplit ht hrel
    rw [ContentCommand.run_append]
    refine confirmedAt_run ht hrel ?_
    intro b c a hd
    rw [← ContentCommand.run_append]
    exact hreq (before ++ b) c (a ++ after) (by rw [hsplit, hd]; simp)

/-- A detection, its confirmation by an operator, and a detection by the rescan of a new signature
version. -/
def rescanLog : List ContentCommand :=
  [.quarantineDoc ⟨"tx", "doc.xml", 1, 1716700001000000, .initial, .scannerDetection⟩,
    .confirmQuarantine ⟨"tx", "doc.xml", 1716700003000000⟩,
    .quarantineDoc ⟨"tx", "doc.xml", 1, 1716700009000000, .rescan, .scannerDetection⟩]

theorem rescan_undoes_confirmation :
    (ContentCommand.run (fun _ => none) (rescanLog.take 2)).confirmedAt "tx" "doc.xml" =
        some 1716700003000000 ∧
      (ContentCommand.run (fun _ => none) rescanLog).confirmedAt "tx" "doc.xml" = none ∧
      ¬ KeepsConfirmations (fun _ => none) rescanLog := by
  have hconf : (ContentCommand.run (fun _ => none) (rescanLog.take 2)).confirmedAt "tx"
      "doc.xml" = some 1716700003000000 := by decide +kernel
  have hlost : (ContentCommand.run (fun _ => none) rescanLog).confirmedAt "tx" "doc.xml" =
      none := by decide +kernel
  refine ⟨hconf, hlost, fun hkeep => ?_⟩
  have hun : Unreleased "tx" "doc.xml" (ContentCommand.run (fun _ => none) (rescanLog.take 2))
      (rescanLog.drop 2) := by
    refine ⟨?_, trivial⟩
    rintro ⟨rel, db', hrel, -⟩
    exact ContentCommand.noConfusion hrel
  have hstill := hkeep (rescanLog.take 2) (rescanLog.drop 2) [] "tx" "doc.xml" _ rfl hconf hun
  rw [List.take_append_drop] at hstill
  exact Option.some_ne_none _ hstill.symm

end Scrap
