/-
# The scan scheduler and its durable watermark

`Scheduler.RunOnce` scans the sealed Blocks of a Shard and keeps a watermark: the highest Block ID
the scan frontier has passed, and the signature version it was passed under. A run resets it when
the provider reports another version or when it lies above every listed Block.

`startRun` is `RunOnce` up to its loop and `scanNext` one turn of the loop, so that a process may
end between any two. What the store, the provider, the lister, the engine and the reporter answer
is in the events.

The log is a ghost: what was listed, scanned and saved, newest first.
-/
import Scrap.Lib.Fallible
import Scrap.Shard.ContentSafety

namespace Scrap.Avscan

open Scrap.Fallible

/-- A `Block` of the sealed listing, without its size. -/
structure Block where
  blockID : UInt64
  restored : Bool
deriving DecidableEq

structure Progress where
  lastScannedBlockID : UInt64
  lastSignatureVersionScanned : String
deriving DecidableEq

structure RunProgressState where
  enabled : Bool
  frontier : UInt64
  signatureVersion : String
  resetDuplicateSuppression : Bool

/-! ## Errors and reasons -/

inductive RunErr where
  | listFailed
  | engineUnavailable
  | scanFailed
  /-- A panic of the engine, which `safeScan` recovers. -/
  | scanPanic
  /-- A panic outside the engine, which `RunOnce` itself recovers. -/
  | runPanic
  /-- `context.Canceled` or `context.DeadlineExceeded`. -/
  | canceled
  | ioBudget
  | paused
  | progressFailed
  | signatureVersion
  | quarantineFailed
  | detectionReporterUnavailable
  | invalidDetection (err : DetectionErr)
deriving DecidableEq

inductive Reason where
  | listFailed
  | engineUnavailable
  | scanFailed
  | scanPanic
  | canceled
  | ioBudget
  | paused
  | progressFailed
  | quarantineFailed
deriving DecidableEq

/-- `reasonForScanError`, `reasonForProgressError` and `reasonForWaitError`. -/
def RunErr.reason : RunErr → Reason
  | .listFailed => .listFailed
  | .engineUnavailable => .engineUnavailable
  | .scanFailed => .scanFailed
  | .scanPanic | .runPanic => .scanPanic
  | .canceled => .canceled
  | .ioBudget => .ioBudget
  | .paused => .paused
  | .progressFailed | .signatureVersion => .progressFailed
  | .quarantineFailed | .detectionReporterUnavailable | .invalidDetection _ => .quarantineFailed

def fatalScanReason (reason : Reason) : Bool :=
  reason = .canceled || reason = .engineUnavailable

def RunErr.endsRun (err : RunErr) : Bool := fatalScanReason err.reason || err = .runPanic

/-! ## What the scheduler asks of others -/

/-- A sealed listing and the order `sort.Slice` brings it into, which is not stable: of two entries
with one Block ID either may come first. -/
structure Listing where
  blocks : List Block
  ordered : List Block
  perm : ordered.Perm blocks
  sorted : ordered.Pairwise fun a b => a.blockID ≤ b.blockID

structure StartEnv where
  isLeader : Bool
  loadErr : Option RunErr
  version : Except RunErr String
  resetErr : Option RunErr
  listing : Except RunErr Listing
  reconcileErr : Option RunErr
  saveErr : Option RunErr

structure BlockEnv where
  waitErr : Option RunErr
  scan : Except RunErr ScanResult
  hasReporter : Bool
  report : List Detection → Option RunErr
  saveErr : Option RunErr

inductive LogEvent where
  | listed (blocks : List Block)
  /-- A scan that ended without an error, and the detections whose report returned nil. -/
  | scanned (blockID : UInt64) (result : ScanResult) (reported : List Detection)
  | saved (progress : Progress)

inductive Phase where
  | idle
  | scanning (env : StartEnv) (listing : Listing) (progress : RunProgressState)
      (blocks : List Block) (firstErr : Option RunErr)
  | returned (env : StartEnv) (err : Option RunErr)

structure Scheduler where
  /-- The process has a progress store and a signature version provider. -/
  enabled : Bool
  store : Option Progress
  completed : UInt64 → Bool
  phase : Phase
  log : List LogEvent

def Scheduler.start (enabled : Bool) : Scheduler := ⟨enabled, none, fun _ => false, .idle, []⟩

/-! ## Preparing a run -/

def Progress.zero : Progress := ⟨0, ""⟩

def maxSignatureVersionLen : Nat := 128

def isSignatureVersionByte (b : Char) : Bool :=
  ('a' ≤ b && b ≤ 'z') || ('A' ≤ b && b ≤ 'Z') || ('0' ≤ b && b ≤ '9') ||
    b = '.' || b = '-' || b = '_' || b = ':'

def validateSignatureVersion (version : String) : Bool :=
  version.utf8ByteSize ≤ maxSignatureVersionLen && version.toList.all isSignatureVersionByte

/-- `SaveScannerProgress`: a save that fails changes nothing. -/
def Scheduler.save (s : Scheduler) (p : Progress) : Option RunErr → Option RunErr × Scheduler
  | some err => (some err, s)
  | none => (none, { s with store := some p, log := .saved p :: s.log })

def Scheduler.saveProgress (s : Scheduler) (p : RunProgressState) (err : Option RunErr) :
    Option RunErr × Scheduler :=
  s.save ⟨p.frontier, p.signatureVersion⟩ err

def Scheduler.clearCompleted (s : Scheduler) : Scheduler := { s with completed := fun _ => false }

/-- `progressWithCurrentSignature`, with the state `progressForRun` makes of it. -/
def Scheduler.progressWithCurrentSignature (env : StartEnv) (progress : Progress) (s : Scheduler) :
    Except RunErr RunProgressState × Scheduler :=
  match env.version with
  | .error err => (.error err, s)
  | .ok current =>
    if validateSignatureVersion current = false then (.error .signatureVersion, s)
    else if current = progress.lastSignatureVersionScanned then
      (.ok ⟨true, progress.lastScannedBlockID, current, false⟩, s)
    else
      match s.save ⟨0, current⟩ env.resetErr with
      | (some err, s) => (.error err, s)
      | (none, s) => (.ok ⟨true, 0, current, true⟩, s)

def Scheduler.progressForRun (env : StartEnv) (s : Scheduler) :
    Except RunErr RunProgressState × Scheduler :=
  if s.enabled = false then (.ok ⟨false, 0, "", false⟩, s)
  else
    match env.loadErr with
    | some err => (.error err, s)
    | none =>
      let progress := s.store.getD .zero
      if validateSignatureVersion progress.lastSignatureVersionScanned = false then
        (.error .signatureVersion, s)
      else s.progressWithCurrentSignature env progress

def maxListedBlockID (blocks : List Block) : UInt64 :=
  blocks.foldl (fun m b => if m < b.blockID then b.blockID else m) 0

def Scheduler.reconcileProgressWithBlocks (env : StartEnv) (progress : RunProgressState)
    (blocks : List Block) (s : Scheduler) : Except RunErr RunProgressState × Scheduler :=
  if progress.enabled = false ∨ blocks = [] then (.ok progress, s)
  else if progress.frontier ≤ maxListedBlockID blocks then (.ok progress, s)
  else
    let reset := { progress with frontier := 0, resetDuplicateSuppression := true }
    match s.saveProgress reset env.reconcileErr with
    | (some err, s) => (.error err, s)
    | (none, s) => (.ok reset, s)

/-- `clearCompleted` where the run has reset the watermark. -/
def Scheduler.clearIf (s : Scheduler) (progress : RunProgressState) : Scheduler :=
  if progress.resetDuplicateSuppression then s.clearCompleted else s

def Scheduler.prepareScanRun (env : StartEnv) (s : Scheduler) :
    Except RunErr (RunProgressState × Listing) × Scheduler :=
  match s.progressForRun env with
  | (.error err, s) => (.error err, s)
  | (.ok progress, s) =>
    let s := s.clearIf progress
    match env.listing with
    | .error err => (.error err, s)
    | .ok listing =>
      let s := { s with log := .listed listing.blocks :: s.log }
      match s.reconcileProgressWithBlocks env progress listing.blocks with
      | (.error err, s) => (.error err, s)
      | (.ok progress, s) => (.ok (progress, listing), s.clearIf progress)

/-- The loop of `eligibleBlocks` behind the Block IDs in `seen`. -/
def Scheduler.eligibleFrom (s : Scheduler) (progress : RunProgressState) :
    List UInt64 → List Block → List Block
  | _, [] => []
  | seen, block :: rest =>
    if seen.contains block.blockID then s.eligibleFrom progress seen rest
    else if progress.enabled && block.blockID ≤ progress.frontier && !block.restored then
      s.eligibleFrom progress (block.blockID :: seen) rest
    else if s.completed block.blockID then
      s.eligibleFrom progress (block.blockID :: seen) rest
    else block :: s.eligibleFrom progress (block.blockID :: seen) rest

def Scheduler.eligibleBlocks (s : Scheduler) (listing : Listing) (progress : RunProgressState) :
    List Block :=
  s.eligibleFrom progress [] listing.ordered

/-! ## Moving the watermark -/

def Listing.listed (l : Listing) (b : UInt64) : Bool := l.blocks.any (·.blockID = b)

def Listing.isRestored (l : Listing) (b : UInt64) : Bool :=
  l.blocks.any fun block => block.blockID = b && block.restored

/-- The loop of `advanceProgressFrontier`: at most `n` more IDs, up to one not to be passed. -/
def advanceFrontier (passes : UInt64 → Bool) : Nat → UInt64 → UInt64
  | 0, frontier => frontier
  | n + 1, frontier =>
    if passes (frontier + 1) then advanceFrontier passes n (frontier + 1) else frontier

/-- A Block ID is passed when its Block is completed or is not listed. -/
def Scheduler.advancedFrontier (s : Scheduler) (listing : Listing) (frontier : UInt64) : UInt64 :=
  advanceFrontier (fun next => s.completed next || !listing.listed next)
    ((maxListedBlockID listing.blocks).toNat - frontier.toNat) frontier

/-- `pruneCompletedLocked` over all of the map, or over the IDs just passed. -/
def Scheduler.prune (s : Scheduler) (listing : Listing) (before frontier : UInt64)
    (fullPrune : Bool) : Scheduler :=
  { s with
    completed := fun b =>
      s.completed b &&
        !((fullPrune || decide (before < b)) && decide (b ≤ frontier) && !listing.isRestored b) }

def Scheduler.advanceProgressFrontier (s : Scheduler) (listing : Listing)
    (progress : RunProgressState) (fullPrune : Bool) : RunProgressState × Scheduler :=
  let frontier := s.advancedFrontier listing progress.frontier
  ({ progress with frontier }, s.prune listing progress.frontier frontier fullPrune)

/-- The frontier of the run moves whether the save succeeds or not. -/
def Scheduler.persistAdvancedProgress (s : Scheduler) (listing : Listing)
    (progress : RunProgressState) (fullPrune : Bool) (saveErr : Option RunErr) :
    Option RunErr × RunProgressState × Scheduler :=
  if progress.enabled = false then (none, progress, s)
  else
    let advanced := s.advanceProgressFrontier listing progress fullPrune
    if advanced.1.frontier = progress.frontier then (none, advanced)
    else
      let saved := advanced.2.saveProgress advanced.1 saveErr
      (saved.1, advanced.1, saved.2)

/-! ## Scanning -/

/-- The reports of the batches up to the first that fails. -/
def reportAll (report : List Detection → Option RunErr) : List (List Detection) →
    List Detection × Option RunErr
  | [] => ([], none)
  | batch :: rest =>
    match report batch with
    | some .canceled => ([], some .canceled)
    | some .runPanic => ([], some .runPanic)
    | some _ => ([], some .quarantineFailed)
    | none =>
      let later := reportAll report rest
      (batch ++ later.1, later.2)

def reportDetections (env : BlockEnv) (result : ScanResult) : List Detection × Option RunErr :=
  match validateDetectionResult result with
  | .error err => ([], some (.invalidDetection err))
  | .ok () =>
    if result.detections = [] then ([], none)
    else if env.hasReporter = false then ([], some .detectionReporterUnavailable)
    else reportAll env.report (batches maxDetectionsPerBlock result.detections)

def Scheduler.scanOne (s : Scheduler) (env : BlockEnv) (block : Block) :
    Option RunErr × Scheduler :=
  match env.scan with
  | .error err => (some err, s)
  | .ok result =>
    match reportDetections env result with
    | (_, some err) => (some err, s)
    | (reported, none) =>
      (none, { s with
        completed := Function.update s.completed block.blockID true
        log := .scanned block.blockID result reported :: s.log })

def Scheduler.tryScanBlock (s : Scheduler) (env : BlockEnv) (listing : Listing)
    (progress : RunProgressState) (block : Block) :
    Option RunErr × RunProgressState × Scheduler :=
  match s.scanOne env block with
  | (some err, s) => (some err, progress, s)
  | (none, s) => s.persistAdvancedProgress listing progress false env.saveErr

def Scheduler.startRun (s : Scheduler) (env : StartEnv) : Scheduler :=
  if env.isLeader = false then { s with phase := .returned env none }
  else
    match s.prepareScanRun env with
    | (.error err, s) => { s with phase := .returned env (some err) }
    | (.ok (progress, listing), s) =>
      let blocks := s.eligibleBlocks listing progress
      match s.persistAdvancedProgress listing progress true env.saveErr with
      | (some err, _, s) => { s with phase := .returned env (some err) }
      | (none, progress, s) => { s with phase := .scanning env listing progress blocks none }

def Scheduler.scanNext (s : Scheduler) (env : BlockEnv) : Scheduler :=
  match s.phase with
  | .idle | .returned _ _ => s
  | .scanning start _ _ [] firstErr => { s with phase := .returned start firstErr }
  | .scanning start listing progress (block :: rest) firstErr =>
    match env.waitErr with
    | some err => { s with phase := .returned start (some err) }
    | none =>
      match s.tryScanBlock env listing progress block with
      | (none, progress, s) =>
        { s with phase := .scanning start listing progress rest firstErr }
      | (some err, progress, s) =>
        let first := firstErr.getD err
        if err.endsRun then { s with phase := .returned start (some first) }
        else { s with phase := .scanning start listing progress rest (some first) }

inductive Event where
  /-- `RunOnce` is called; a run in progress holds the lock. -/
  | runOnce (env : StartEnv)
  | scanNext (env : BlockEnv)
  /-- The process ends, wherever it is, and another starts. -/
  | restart (enabled : Bool)

def Scheduler.step (s : Scheduler) : Event → Scheduler
  | .runOnce env =>
    match s.phase with
    | .scanning .. => s
    | .idle | .returned _ _ => s.startRun env
  | .scanNext env => s.scanNext env
  | .restart enabled => { s with enabled, completed := fun _ => false, phase := .idle }

def Event.run (event : Event) : EStateM Empty Scheduler Unit := modify fun s => s.step event

/-! ## What the watermark says -/

def recorded : List LogEvent → Progress
  | [] => .zero
  | .saved p :: _ => p
  | .listed _ :: log | .scanned .. :: log => recorded log

/-- The Block was scanned, all detections reported, since the recorded version became so. -/
def ScannedSince (b : UInt64) : List LogEvent → Prop
  | [] => False
  | .scanned b' result reported :: log =>
    (b' = b ∧ reported = result.detections) ∨ ScannedSince b log
  | .saved p :: log =>
    p.lastSignatureVersionScanned = (recorded log).lastSignatureVersionScanned ∧ ScannedSince b log
  | .listed _ :: log => ScannedSince b log

def lastListing : List LogEvent → List Block
  | [] => []
  | .listed blocks :: _ => blocks
  | .scanned .. :: log | .saved _ :: log => lastListing log

/-- The Block was listed in the run in which the watermark passed it. -/
def PassedListed (b : UInt64) : List LogEvent → Prop
  | [] => False
  | .saved p :: log =>
    if (recorded log).lastScannedBlockID < b then
      b ≤ p.lastScannedBlockID ∧ ∃ block ∈ lastListing log, block.blockID = b
    else b ≤ p.lastScannedBlockID ∧ PassedListed b log
  | .listed _ :: log | .scanned .. :: log => PassedListed b log

instance ScannedSince.dec (b : UInt64) : (log : List LogEvent) → Decidable (ScannedSince b log)
  | [] => inferInstanceAs (Decidable False)
  | .scanned b' result reported :: log =>
    have := ScannedSince.dec b log
    inferInstanceAs (Decidable ((b' = b ∧ reported = result.detections) ∨ ScannedSince b log))
  | .saved p :: log =>
    have := ScannedSince.dec b log
    inferInstanceAs (Decidable (p.lastSignatureVersionScanned =
      (recorded log).lastSignatureVersionScanned ∧ ScannedSince b log))
  | .listed _ :: log => ScannedSince.dec b log

instance PassedListed.dec (b : UInt64) : (log : List LogEvent) → Decidable (PassedListed b log)
  | [] => inferInstanceAs (Decidable False)
  | .saved p :: log =>
    have := PassedListed.dec b log
    inferInstanceAs (Decidable (if (recorded log).lastScannedBlockID < b then
      b ≤ p.lastScannedBlockID ∧ ∃ block ∈ lastListing log, block.blockID = b
      else b ≤ p.lastScannedBlockID ∧ PassedListed b log))
  | .listed _ :: log | .scanned .. :: log => PassedListed.dec b log

/-! ## The log grows -/

theorem not_passedListed_zero : ∀ log : List LogEvent, ¬ PassedListed 0 log := by
  intro log
  induction log with
  | nil => exact id
  | cons event log ih =>
    cases event with
    | listed blocks => exact ih
    | scanned b result reported => exact ih
    | saved p => exact fun h => ih h.2

/-- What a run does to the log behind its listing. -/
structure Grows (old new : List LogEvent) : Prop where
  version : (recorded new).lastSignatureVersionScanned = (recorded old).lastSignatureVersionScanned
  frontier : (recorded old).lastScannedBlockID ≤ (recorded new).lastScannedBlockID
  listing : lastListing new = lastListing old
  scanned : ∀ b, ScannedSince b old → ScannedSince b new

theorem Grows.refl (log : List LogEvent) : Grows log log :=
  ⟨rfl, UInt64.le_refl _, rfl, fun _ => id⟩

theorem Grows.trans {a b c : List LogEvent} (hab : Grows a b) (hbc : Grows b c) : Grows a c :=
  ⟨hbc.version.trans hab.version, UInt64.le_trans hab.frontier hbc.frontier,
    hbc.listing.trans hab.listing, fun x hx => hbc.scanned x (hab.scanned x hx)⟩

theorem Grows.scan (log : List LogEvent) (b : UInt64) (result : ScanResult)
    (reported : List Detection) : Grows log (.scanned b result reported :: log) :=
  ⟨rfl, UInt64.le_refl _, rfl, fun _ => .inr⟩

variable {log : List LogEvent} {err : Option RunErr} {p : Progress} {s' : Scheduler}

theorem Grows.save (hv : p.lastSignatureVersionScanned = (recorded log).lastSignatureVersionScanned)
    (hf : (recorded log).lastScannedBlockID ≤ p.lastScannedBlockID) :
    Grows log (.saved p :: log) :=
  ⟨hv, hf, rfl, fun _ hb => ⟨hv, hb⟩⟩

/-- The first half of what the watermark promises. -/
def Watermark (log : List LogEvent) : Prop :=
  ∀ b, b ≤ (recorded log).lastScannedBlockID → PassedListed b log → ScannedSince b log

/-- A save under the recorded version keeps the promise if what it newly passes is scanned. -/
theorem Watermark.save (h : Watermark log)
    (hv : p.lastSignatureVersionScanned = (recorded log).lastSignatureVersionScanned)
    (hnew : ∀ b, (recorded log).lastScannedBlockID < b → b ≤ p.lastScannedBlockID →
      (∃ block ∈ lastListing log, block.blockID = b) → ScannedSince b log) :
    Watermark (.saved p :: log) := by
  intro b hb hpassed
  refine ⟨hv, ?_⟩
  simp only [PassedListed] at hpassed
  split at hpassed
  next hlt => exact hnew b hlt hb hpassed.2
  next hle => exact h b (UInt64.not_lt.mp hle) hpassed.2

theorem Watermark.reset (version : String) :
    Watermark (.saved ⟨0, version⟩ :: log) := by
  intro b hb hpassed
  obtain rfl : b = 0 := UInt64.le_antisymm hb (UInt64.zero_le)
  exact absurd hpassed (not_passedListed_zero _)

/-! ## The frontier -/

theorem advanceFrontier_spec (passes : UInt64 → Bool) : ∀ {n : Nat} {f : UInt64},
    f.toNat + n < 2 ^ 64 → f ≤ advanceFrontier passes n f ∧
      ∀ b, f < b → b ≤ advanceFrontier passes n f → passes b = true := by
  intro n
  induction n with
  | zero =>
    intro f _
    exact ⟨UInt64.le_refl _, fun b hlt hle => absurd hle (UInt64.not_le.mpr hlt)⟩
  | succ n ih =>
    intro f hf
    have hsucc : (f + 1).toNat = f.toNat + 1 := Nat.mod_eq_of_lt (by simp; omega)
    simp only [advanceFrontier]
    split
    next hpass =>
      obtain ⟨hle, hall⟩ := ih (f := f + 1) (by omega)
      rw [UInt64.le_iff_toNat_le] at hle
      refine ⟨UInt64.le_iff_toNat_le.mpr (by omega), fun b hlt hb => ?_⟩
      rcases UInt64.lt_or_eq_of_le (UInt64.le_iff_toNat_le.mpr
        (by rw [UInt64.lt_iff_toNat_lt] at hlt; omega) : f + 1 ≤ b) with h | rfl
      · exact hall b h hb
      · exact hpass
    next => exact ⟨UInt64.le_refl _, fun b hlt hle => absurd hle (UInt64.not_le.mpr hlt)⟩

/-! ## What holds between the steps of a run -/

structure Scheduler.Sound (s : Scheduler) : Prop where
  stored : s.store.getD .zero = recorded s.log
  watermark : Watermark s.log
  completed : ∀ b, s.completed b = true → ScannedSince b s.log

/-- The watermark of a run is at or above the durable one, and what is listed between was scanned.
-/
structure RunSound (s : Scheduler) (env : StartEnv) (listing : Listing)
    (progress : RunProgressState) : Prop where
  listed : lastListing s.log = listing.blocks
  enabled : progress.enabled = s.enabled
  version : s.enabled = true → env.version = .ok progress.signatureVersion ∧
    progress.signatureVersion = (recorded s.log).lastSignatureVersionScanned
  frontier : s.enabled = true → (recorded s.log).lastScannedBlockID ≤ progress.frontier
  passed : ∀ b, (recorded s.log).lastScannedBlockID < b → b ≤ progress.frontier →
    (∃ block ∈ listing.blocks, block.blockID = b) → ScannedSince b s.log

section Steps

variable {s : Scheduler} {env : StartEnv} {listing : Listing} {progress : RunProgressState}

theorem Scheduler.Sound.clearIf (h : s.Sound) (progress : RunProgressState) :
    (s.clearIf progress).Sound := by
  unfold Scheduler.clearIf
  split
  · exact ⟨h.stored, h.watermark, nofun⟩
  · exact h

@[simp] theorem Scheduler.clearIf_log (s : Scheduler) (progress : RunProgressState) :
    (s.clearIf progress).log = s.log := by
  unfold Scheduler.clearIf
  split <;> rfl

@[simp] theorem Scheduler.clearIf_enabled (s : Scheduler) (progress : RunProgressState) :
    (s.clearIf progress).enabled = s.enabled := by
  unfold Scheduler.clearIf
  split <;> rfl

theorem Scheduler.Sound.save (h : s.Sound) (err : Option RunErr)
    (hv : p.lastSignatureVersionScanned = (recorded s.log).lastSignatureVersionScanned)
    (hnew : ∀ b, (recorded s.log).lastScannedBlockID < b → b ≤ p.lastScannedBlockID →
      (∃ block ∈ lastListing s.log, block.blockID = b) → ScannedSince b s.log) :
    (s.save p err).2.Sound := by
  cases err with
  | some err => exact h
  | none => exact ⟨rfl, h.watermark.save hv hnew, fun b hb => ⟨hv, h.completed b hb⟩⟩

theorem Scheduler.progressForRun_cases (s : Scheduler) (env : StartEnv) :
    (∃ err, s.progressForRun env = (.error err, s)) ∨
    (s.enabled = false ∧ s.progressForRun env = (.ok ⟨false, 0, "", false⟩, s)) ∨
    (s.enabled = true ∧ ∃ current, env.version = .ok current ∧
      ((current = (s.store.getD .zero).lastSignatureVersionScanned ∧ s.progressForRun env =
          (.ok ⟨true, (s.store.getD .zero).lastScannedBlockID, current, false⟩, s)) ∨
       s.progressForRun env = (.ok ⟨true, 0, current, true⟩,
          { s with store := some ⟨0, current⟩, log := .saved ⟨0, current⟩ :: s.log }))) := by
  unfold Scheduler.progressForRun
  split
  next hoff => exact .inr (.inl ⟨hoff, rfl⟩)
  next hon =>
    replace hon : s.enabled = true := by simpa using hon
    cases hload : env.loadErr with
    | some err => exact .inl ⟨err, rfl⟩
    | none => ?_
    dsimp only
    split
    · exact .inl ⟨_, rfl⟩
    unfold Scheduler.progressWithCurrentSignature
    cases hver : env.version with
    | error err => exact .inl ⟨err, rfl⟩
    | ok current => ?_
    dsimp only
    split
    · exact .inl ⟨_, rfl⟩
    split
    next heq => exact .inr (.inr ⟨hon, current, rfl, .inl ⟨heq, rfl⟩⟩)
    next =>
      cases hreset : env.resetErr with
      | some err => exact .inl ⟨err, rfl⟩
      | none => exact .inr (.inr ⟨hon, current, rfl, .inr rfl⟩)

/-- A run's own watermark where it agrees with the durable one. -/
structure Fresh (s : Scheduler) (env : StartEnv) (progress : RunProgressState) : Prop where
  enabled : progress.enabled = s.enabled
  version : s.enabled = true → env.version = .ok progress.signatureVersion ∧
    progress.signatureVersion = (recorded s.log).lastSignatureVersionScanned
  frontier : s.enabled = true → progress.frontier = (recorded s.log).lastScannedBlockID
  off : s.enabled = false → progress.frontier = 0

theorem Fresh.congr (h : Fresh s env progress) (he : s'.enabled = s.enabled)
    (hl : recorded s'.log = recorded s.log) : Fresh s' env progress :=
  ⟨he ▸ h.enabled, by rw [he, hl]; exact h.version, by rw [he, hl]; exact h.frontier,
    by rw [he]; exact h.off⟩

namespace Scheduler

theorem progressForRun_sound (h : s.Sound) {r : Except RunErr RunProgressState}
    (hr : s.progressForRun env = (r, s')) :
    s'.enabled = s.enabled ∧ (∀ err, r = .error err → s'.Sound) ∧
      ∀ progress, r = .ok progress → (s'.clearIf progress).Sound ∧ Fresh s' env progress := by
  rcases s.progressForRun_cases env with ⟨err, hc⟩ | ⟨hoff, hc⟩ | ⟨hon, current, hver, hc⟩
  · cases hr.symm.trans hc
    exact ⟨rfl, fun _ _ => h, nofun⟩
  · cases hr.symm.trans hc
    refine ⟨rfl, nofun, fun progress hp => ?_⟩
    cases hp
    exact ⟨h.clearIf _, hoff.symm, by simp [hoff], by simp [hoff], fun _ => rfl⟩
  · rcases hc with ⟨heq, hc⟩ | hc
    · cases hr.symm.trans hc
      refine ⟨rfl, nofun, fun progress hp => ?_⟩
      cases hp
      refine ⟨h.clearIf _, hon.symm, fun _ => ⟨hver, ?_⟩, fun _ => ?_, by simp [hon]⟩
      · rw [← h.stored, ← heq]
      · rw [← h.stored]
    · cases hr.symm.trans hc
      refine ⟨rfl, nofun, fun progress hp => ?_⟩
      cases hp
      refine ⟨⟨rfl, .reset current, nofun⟩, hon.symm, fun _ => ⟨hver, rfl⟩,
        fun _ => rfl, fun _ => rfl⟩

theorem reconcile_sound (h : s.Sound) (hf : Fresh s env progress) {blocks : List Block}
    {r : Except RunErr RunProgressState}
    (hr : s.reconcileProgressWithBlocks env progress blocks = (r, s')) :
    s'.enabled = s.enabled ∧ lastListing s'.log = lastListing s.log ∧ s'.Sound ∧
      ∀ p, r = .ok p → Fresh s' env p := by
  unfold reconcileProgressWithBlocks at hr
  split at hr
  next =>
    cases hr
    exact ⟨rfl, rfl, h, fun p hp => Except.ok.inj hp ▸ hf⟩
  next hon =>
    have hen : s.enabled = true := by
      rw [← hf.enabled]
      simpa using not_or.mp hon |>.1
    split at hr
    next =>
      cases hr
      exact ⟨rfl, rfl, h, fun p hp => Except.ok.inj hp ▸ hf⟩
    next =>
      have hsave := h.save (p := ⟨0, progress.signatureVersion⟩) env.reconcileErr
        (hf.version hen).2
        (fun b hlt hle => absurd (UInt64.lt_of_lt_of_le hlt hle) UInt64.not_lt_zero)
      cases herr : env.reconcileErr with
      | some err =>
        simp only [herr] at hr
        cases hr
        exact ⟨rfl, rfl, h, nofun⟩
      | none =>
        rw [herr] at hsave
        simp only [herr] at hr
        cases hr
        refine ⟨rfl, rfl, hsave, fun p hp => ?_⟩
        cases hp
        exact ⟨hf.enabled, fun _ => ⟨(hf.version hen).1, rfl⟩, fun _ => rfl, fun _ => rfl⟩

theorem prepareScanRun_sound (h : s.Sound)
    {r : Except RunErr (RunProgressState × Listing)} (hr : s.prepareScanRun env = (r, s')) :
    s'.Sound ∧ s'.enabled = s.enabled ∧ ∀ progress listing, r = .ok (progress, listing) →
      env.listing = .ok listing ∧ lastListing s'.log = listing.blocks ∧ Fresh s' env progress := by
  unfold prepareScanRun at hr
  rcases hpr : s.progressForRun env with ⟨r₁, s₁⟩
  obtain ⟨hen₁, herr₁, hok₁⟩ := progressForRun_sound h hpr
  rw [hpr] at hr
  cases r₁ with
  | error err =>
    cases hr
    exact ⟨herr₁ err rfl, hen₁, nofun⟩
  | ok progress₁ =>
    obtain ⟨hs₁, hf₁⟩ := hok₁ progress₁ rfl
    cases hlist : env.listing with
    | error err =>
      simp only [hlist] at hr
      cases hr
      exact ⟨hs₁, (clearIf_enabled ..).trans hen₁, nofun⟩
    | ok listing =>
      simp only [hlist] at hr
      -- the listing of this run enters the log
      let s₂ : Scheduler := { s₁.clearIf progress₁ with
        log := .listed listing.blocks :: (s₁.clearIf progress₁).log }
      have hs₂ : s₂.Sound := { hs₁ with }
      have hf₂ : Fresh s₂ env progress₁ := hf₁.congr (clearIf_enabled ..) (by simp [s₂, recorded])
      rcases hrec : s₂.reconcileProgressWithBlocks env progress₁ listing.blocks with ⟨r₃, s₃⟩
      obtain ⟨hen₃, hl₃, hs₃, hok₃⟩ := reconcile_sound hs₂ hf₂ hrec
      have hen : s₃.enabled = s.enabled := hen₃.trans ((clearIf_enabled ..).trans hen₁)
      rw [hrec] at hr
      cases r₃ with
      | error err =>
        cases hr
        exact ⟨hs₃, hen, nofun⟩
      | ok progress₃ =>
        cases hr
        refine ⟨hs₃.clearIf _, (clearIf_enabled ..).trans hen, ?_⟩
        intro progress listing' hp
        cases Except.ok.inj hp
        refine ⟨rfl, ?_, (hok₃ progress₃ rfl).congr (clearIf_enabled ..) (by simp)⟩
        rw [clearIf_log]
        exact hl₃

end Scheduler

theorem Fresh.runSound (h : Fresh s env progress) (hl : lastListing s.log = listing.blocks) :
    RunSound s env listing progress := by
  refine ⟨hl, h.enabled, h.version, fun hen => h.frontier hen ▸ UInt64.le_refl _, ?_⟩
  intro b hlt hle
  cases hen : s.enabled with
  | true => exact absurd (h.frontier hen ▸ hle) (UInt64.not_le.mpr hlt)
  | false =>
    have h0 : b ≤ 0 := h.off hen ▸ hle
    exact absurd (UInt64.lt_of_lt_of_le hlt h0) UInt64.not_lt_zero

/-! ### The loop -/

/-- A state of the same process that is sound for the run, and whose log has grown. -/
structure Follows (s : Scheduler) (env : StartEnv) (listing : Listing)
    (progress' : RunProgressState) (s' : Scheduler) : Prop where
  sound : s'.Sound
  run : RunSound s' env listing progress'
  grows : Grows s.log s'.log
  enabled : s'.enabled = s.enabled

theorem Listing.listed_iff {b : UInt64} :
    listing.listed b = true ↔ ∃ block ∈ listing.blocks, block.blockID = b := by
  simp [Listing.listed]

theorem Scheduler.advance_sound (h : s.Sound) (hrun : RunSound s env listing progress)
    (fullPrune : Bool) :
    let advanced := s.advanceProgressFrontier listing progress fullPrune
    advanced.2.Sound ∧ RunSound advanced.2 env listing advanced.1 := by
  obtain ⟨hle, hall⟩ := advanceFrontier_spec
    (fun next => s.completed next || !listing.listed next)
    (n := (maxListedBlockID listing.blocks).toNat - progress.frontier.toNat)
    (f := progress.frontier) (by
      have hm := (maxListedBlockID listing.blocks).toNat_lt
      have hf := progress.frontier.toNat_lt
      omega)
  refine ⟨⟨h.stored, h.watermark, fun b hb => ?_⟩, hrun.listed, hrun.enabled, hrun.version,
    fun hen => UInt64.le_trans (hrun.frontier hen) hle, fun b hlt hb hlist => ?_⟩
  · simp only [Scheduler.advanceProgressFrontier, Scheduler.prune, Bool.and_eq_true] at hb
    exact h.completed b hb.1
  by_cases hold : b ≤ progress.frontier
  · exact hrun.passed b hlt hold hlist
  · have hpass := hall b (UInt64.not_le.mp hold) hb
    simp only [Listing.listed_iff.mpr hlist, Bool.not_true, Bool.or_false] at hpass
    exact h.completed b hpass

theorem Scheduler.persist_sound (h : s.Sound) (hrun : RunSound s env listing progress)
    {fullPrune : Bool} {saveErr : Option RunErr} {progress' : RunProgressState}
    (hr : s.persistAdvancedProgress listing progress fullPrune saveErr = (err, progress', s')) :
    Follows s env listing progress' s' := by
  unfold Scheduler.persistAdvancedProgress at hr
  split at hr
  next =>
    cases hr
    exact ⟨h, hrun, .refl _, rfl⟩
  next hon =>
    obtain ⟨hs, hr'⟩ := Scheduler.advance_sound h hrun fullPrune
    have hlog : (s.advanceProgressFrontier listing progress fullPrune).2.log = s.log := rfl
    have hen : (s.advanceProgressFrontier listing progress fullPrune).2.enabled = s.enabled := rfl
    have hen' : s.enabled = true := by
      rw [← hrun.enabled]
      simpa using hon
    generalize s.advanceProgressFrontier listing progress fullPrune = advanced at hr hs hr' hlog hen
    obtain ⟨p, t⟩ := advanced
    dsimp only at hr hs hr' hlog hen
    split at hr
    next =>
      cases hr
      exact ⟨hs, hr', hlog ▸ .refl _, hen⟩
    next =>
      have hv := (hr'.version (hen.trans hen')).2
      have hle := hr'.frontier (hen.trans hen')
      have hsave := hs.save (p := ⟨p.frontier, p.signatureVersion⟩) saveErr hv
        (by rw [hr'.listed]; exact hr'.passed)
      cases hr
      cases saveErr with
      | some err => exact ⟨hs, hr', hlog ▸ .refl _, hen⟩
      | none => ?_
      refine ⟨hsave, ⟨hr'.listed, hr'.enabled, ?_, ?_, ?_⟩, hlog ▸ .save hv hle, hen⟩
      · exact fun he => ⟨(hr'.version he).1, rfl⟩
      · exact fun _ => UInt64.le_refl _
      · exact fun b hlt hb _ => absurd hb (UInt64.not_le.mpr hlt)

theorem reportAll_ok {report : List Detection → Option RunErr} : ∀ {batches : List (List Detection)}
    {reported : List Detection}, reportAll report batches = (reported, none) →
    reported = batches.flatten := by
  intro batches
  induction batches with
  | nil =>
    intro reported h
    exact (Prod.mk.inj h).1.symm
  | cons batch rest ih =>
    intro reported h
    unfold reportAll at h
    split at h
    · cases h
    · cases h
    · cases h
    · obtain ⟨rfl, hrest⟩ := Prod.mk.inj h
      have hflat : (reportAll report rest).1 = rest.flatten := ih (Prod.ext rfl hrest)
      exact congrArg (batch ++ ·) hflat

theorem reportDetections_ok {env : BlockEnv} {result : ScanResult} {reported : List Detection}
    (h : reportDetections env result = (reported, none)) : reported = result.detections := by
  unfold reportDetections at h
  split at h
  · cases h
  split at h
  next hnil => rw [hnil]; exact (Prod.mk.inj h).1.symm
  next =>
    split at h
    · cases h
    · rw [reportAll_ok h]
      exact flatten_batches (by decide) _

theorem RunSound.grows (h : RunSound s env listing progress) (hg : Grows s.log s'.log)
    (hrec : recorded s'.log = recorded s.log) (hen : s'.enabled = s.enabled) :
    RunSound s' env listing progress :=
  ⟨hg.listing.trans h.listed, h.enabled.trans hen.symm, by rw [hen, hrec]; exact h.version,
    by rw [hen, hrec]; exact h.frontier,
    fun b hlt hb hl => hg.scanned b (h.passed b (hrec ▸ hlt) hb hl)⟩

theorem Scheduler.scanOne_sound (h : s.Sound) (hrun : RunSound s env listing progress)
    {benv : BlockEnv} {block : Block} (hr : s.scanOne benv block = (err, s')) :
    Follows s env listing progress s' ∧ (err = none → ScannedSince block.blockID s'.log) := by
  unfold Scheduler.scanOne at hr
  split at hr
  next =>
    cases hr
    exact ⟨⟨h, hrun, .refl _, rfl⟩, nofun⟩
  next result _ =>
    split at hr
    next =>
      cases hr
      exact ⟨⟨h, hrun, .refl _, rfl⟩, nofun⟩
    next reported hrep =>
      cases hr
      have hg := Grows.scan s.log block.blockID result reported
      have hnow : ScannedSince block.blockID
          (.scanned block.blockID result reported :: s.log) :=
        .inl ⟨rfl, reportDetections_ok hrep⟩
      refine ⟨⟨⟨h.stored, fun b hb hp => .inr (h.watermark b hb hp), fun b hb => ?_⟩,
        hrun.grows hg rfl rfl, hg, rfl⟩, fun _ => hnow⟩
      by_cases hb' : b = block.blockID
      · exact hb' ▸ hnow
      · have hold : Function.update s.completed block.blockID true b = s.completed b :=
          Function.update_of_ne hb' ..
        exact .inr (h.completed b (hold.symm.trans hb))

theorem Scheduler.tryScanBlock_sound (h : s.Sound) (hrun : RunSound s env listing progress)
    {benv : BlockEnv} {block : Block} {progress' : RunProgressState}
    (hr : s.tryScanBlock benv listing progress block = (err, progress', s')) :
    Follows s env listing progress' s' ∧ (err = none → ScannedSince block.blockID s'.log) := by
  unfold Scheduler.tryScanBlock at hr
  rcases hone : s.scanOne benv block with ⟨err₁, s₁⟩
  obtain ⟨hfol, hnow⟩ := Scheduler.scanOne_sound h hrun hone
  rw [hone] at hr
  cases err₁ with
  | some e =>
    cases hr
    exact ⟨hfol, nofun⟩
  | none =>
    have hper := Scheduler.persist_sound hfol.sound hfol.run hr
    exact ⟨⟨hper.sound, hper.run, hfol.grows.trans hper.grows, hper.enabled.trans hfol.enabled⟩,
      fun _ => hper.grows.scanned _ (hnow rfl)⟩

/-! ### Which Blocks a run leaves out -/

/-- The Block is scanned, or it is listed as not restored at or below the watermark. -/
def Covered (log : List LogEvent) (blocks : List Block) (b : UInt64) : Prop :=
  ScannedSince b log ∨ (⟨b, false⟩ ∈ blocks ∧ b ≤ (recorded log).lastScannedBlockID)

theorem Covered.grows {old new : List LogEvent} {blocks : List Block} {b : UInt64}
    (h : Covered old blocks b) (hg : Grows old new) : Covered new blocks b :=
  h.imp (hg.scanned b) fun h => ⟨h.1, UInt64.le_trans h.2 hg.frontier⟩

/-- What became of a listed Block ID in the loop. -/
def Scheduler.Placed (s : Scheduler) (progress : RunProgressState) (seen : List UInt64)
    (blocks out : List Block) (b : UInt64) : Prop :=
  b ∈ seen ∨ s.completed b = true ∨
    (progress.enabled = true ∧ b ≤ progress.frontier ∧ ⟨b, false⟩ ∈ blocks) ∨
    ∃ e ∈ out, e.blockID = b

theorem Scheduler.Placed.cons {seen seen' : List UInt64} {first : Block} {rest out out' : List Block}
    (hfirst : s.Placed progress seen (first :: rest) out' first.blockID)
    (hseen : seen' ⊆ first.blockID :: seen) (hout : out ⊆ out')
    (ih : ∀ block ∈ rest, s.Placed progress seen' rest out block.blockID) :
    ∀ block ∈ first :: rest, s.Placed progress seen (first :: rest) out' block.blockID := by
  refine List.forall_mem_cons.mpr ⟨hfirst, fun block hblock => ?_⟩
  rcases ih block hblock with h | h | ⟨hen, hle, h⟩ | ⟨e, he, h⟩
  · rcases List.mem_cons.mp (hseen h) with heq | h
    · exact heq ▸ hfirst
    · exact .inl h
  · exact .inr (.inl h)
  · exact .inr (.inr (.inl ⟨hen, hle, List.mem_cons_of_mem _ h⟩))
  · exact .inr (.inr (.inr ⟨e, hout he, h⟩))

theorem Scheduler.eligibleFrom_covers (s : Scheduler) (progress : RunProgressState)
    (blocks : List Block) (seen : List UInt64) :
    ∀ block ∈ blocks, s.Placed progress seen blocks (s.eligibleFrom progress seen blocks)
      block.blockID := by
  fun_induction s.eligibleFrom progress seen blocks with
  | case1 => nofun
  | case2 seen first rest hseen ih =>
    exact .cons (.inl (List.contains_iff_mem.mp hseen)) (List.subset_cons_self ..) (fun _ => id) ih
  | case3 seen first rest hseen hskip ih =>
    simp only [Bool.and_eq_true, decide_eq_true_eq, Bool.not_eq_true'] at hskip
    refine .cons (.inr (.inr (.inl ⟨hskip.1.1, hskip.1.2, ?_⟩))) (fun _ => id) (fun _ => id) ih
    exact hskip.2 ▸ List.mem_cons_self
  | case4 seen first rest hseen hskip hdone ih =>
    exact .cons (.inr (.inl hdone)) (fun _ => id) (fun _ => id) ih
  | case5 seen first rest hseen hskip hdone ih =>
    exact .cons (.inr (.inr (.inr ⟨first, List.mem_cons_self, rfl⟩))) (fun _ => id)
      (List.subset_cons_self ..) ih

theorem Scheduler.eligibleBlocks_covers (h : s.Sound) (hf : Fresh s env progress) :
    ∀ block ∈ listing.blocks, Covered s.log listing.blocks block.blockID ∨
      ∃ e ∈ s.eligibleBlocks listing progress, e.blockID = block.blockID := by
  intro block hblock
  rcases s.eligibleFrom_covers progress listing.ordered [] block (listing.perm.mem_iff.mpr hblock)
    with hseen | hdone | ⟨hen, hle, hmem⟩ | he
  · cases hseen
  · exact .inl (.inl (h.completed _ hdone))
  · have hle' := hf.frontier (hf.enabled ▸ hen) ▸ hle
    exact .inl (.inr ⟨listing.perm.mem_iff.mp hmem, hle'⟩)
  · exact .inr he

/-! ## Every step -/

def Phase.Sound (s : Scheduler) : Phase → Prop
  | .idle => True
  | .scanning env listing progress blocks firstErr =>
    env.listing = .ok listing ∧ RunSound s env listing progress ∧
    (firstErr = none → ∀ block ∈ listing.blocks, Covered s.log listing.blocks block.blockID ∨
      ∃ e ∈ blocks, e.blockID = block.blockID)
  | .returned env err => err = none → env.isLeader = true → (s.enabled = true →
        env.version = .ok (recorded s.log).lastSignatureVersionScanned) ∧
      ∃ listing, env.listing = .ok listing ∧
        ∀ block ∈ listing.blocks, Covered s.log listing.blocks block.blockID

namespace Scheduler

theorem startRun_sound (h : s.Sound) (env : StartEnv) :
    (s.startRun env).Sound ∧ (s.startRun env).phase.Sound (s.startRun env) := by
  unfold startRun
  split
  next hlead =>
    refine ⟨{ h with }, fun _ hl => ?_⟩
    rw [hlead] at hl
    cases hl
  next =>
    rcases hprep : s.prepareScanRun env with ⟨r, s₁⟩
    obtain ⟨hs₁, hen₁, hok⟩ := prepareScanRun_sound h hprep
    cases r with
    | error err => exact ⟨{ hs₁ with }, nofun⟩
    | ok prepared => ?_
    obtain ⟨progress, listing⟩ := prepared
    obtain ⟨hlist, hlast, hfresh⟩ := hok progress listing rfl
    dsimp only
    rcases hper : s₁.persistAdvancedProgress listing progress true env.saveErr
      with ⟨err, progress', s₂⟩
    have hfol := persist_sound hs₁ (hfresh.runSound hlast) hper
    have hs₂ := hfol.sound
    cases err with
    | some e => exact ⟨{ hs₂ with }, nofun⟩
    | none => ?_
    refine ⟨{ hs₂ with }, hlist, ?_, fun _ block hb => ?_⟩
    · exact hfol.run.grows (.refl _) rfl rfl
    · exact (eligibleBlocks_covers hs₁ hfresh block hb).imp
        (fun hc => hc.grows hfol.grows) id

theorem scanNext_sound (h : s.Sound) (hphase : s.phase.Sound s) (benv : BlockEnv) :
    (s.scanNext benv).Sound ∧ (s.scanNext benv).phase.Sound (s.scanNext benv) := by
  unfold scanNext
  split
  next => exact ⟨h, hphase⟩
  next => exact ⟨h, hphase⟩
  next start listing progress firstErr hst =>
    rw [hst] at hphase
    obtain ⟨hlist, hrun, hcov⟩ := hphase
    refine ⟨{ h with }, fun hnone _ => ⟨fun hen => ?_, listing, hlist, fun block hb => ?_⟩⟩
    · exact (hrun.version hen).2 ▸ (hrun.version hen).1
    · rcases hcov hnone block hb with hc | ⟨e, he, _⟩
      · exact hc
      · cases he
  next start listing progress block rest firstErr hst =>
    rw [hst] at hphase
    obtain ⟨hlist, hrun, hcov⟩ := hphase
    cases hwait : benv.waitErr with
    | some err => exact ⟨{ h with }, nofun⟩
    | none => ?_
    rcases htry : s.tryScanBlock benv listing progress block with ⟨err, progress', s₁⟩
    obtain ⟨hfol, hnow⟩ := tryScanBlock_sound h hrun htry
    have hs₁ := hfol.sound
    cases err with
    | none =>
      refine ⟨{ hs₁ with }, hlist, hfol.run.grows (.refl _) rfl rfl, fun hnone b hb => ?_⟩
      rcases hcov hnone b hb with hc | ⟨e, he, hid⟩
      · exact .inl (hc.grows hfol.grows)
      · rcases List.mem_cons.mp he with rfl | he
        · exact .inl (.inl (hid ▸ hnow rfl))
        · exact .inr ⟨e, he, hid⟩
    | some err =>
      dsimp only
      split
      · exact ⟨{ hs₁ with }, nofun⟩
      · exact ⟨{ hs₁ with }, hlist, hfol.run.grows (.refl _) rfl rfl, nofun⟩

theorem step_sound (h : s.Sound) (hphase : s.phase.Sound s) (event : Event) :
    (s.step event).Sound ∧ (s.step event).phase.Sound (s.step event) := by
  cases event with
  | runOnce env =>
    simp only [step]
    split
    · exact ⟨h, hphase⟩
    · exact startRun_sound h env
    · exact startRun_sound h env
  | scanNext env => exact scanNext_sound h hphase env
  | restart enabled => exact ⟨⟨h.stored, h.watermark, nofun⟩, trivial⟩

end Scheduler

end Steps

theorem Scheduler.run_sound {enabled : Bool} {events : List Event} {s : Scheduler}
    (hrun : (runAll Event.run events).run (.start enabled) = .ok () s) :
    s.Sound ∧ s.phase.Sound s := by
  refine runAll_invariant (P := fun _ t => t.Sound ∧ t.phase.Sound t) ⟨?_, trivial⟩ ?_ hrun
  · exact ⟨rfl, fun _ _ hp => absurd hp id, nofun⟩
  · intro l event t t' ht hstep
    cases hstep
    exact Scheduler.step_sound ht.1 ht.2 event

/-- In every sequence of runs and restarts, a Block ID that was listed in the run in which the
durable watermark passed it was scanned, with its detections reported, after the recorded version
became so. A run that returns nil leaves every listed Block scanned under the provider's version,
but for one below the watermark, listed as not restored, that was not listed when the watermark
passed it. -/
theorem watermark_blocks_scanned {enabled : Bool} {events : List Event} {s : Scheduler}
    (hrun : (runAll Event.run events).run (.start enabled) = .ok () s) :
    (∀ b, b ≤ (s.store.getD .zero).lastScannedBlockID → PassedListed b s.log →
      ScannedSince b s.log) ∧
    s.store.getD .zero = recorded s.log ∧
    ∀ env, s.phase = .returned env none → env.isLeader = true →
      (s.enabled = true → env.version = .ok (recorded s.log).lastSignatureVersionScanned) ∧
      ∃ listing, env.listing = .ok listing ∧ ∀ block ∈ listing.blocks,
        ScannedSince block.blockID s.log ∨
        (⟨block.blockID, false⟩ ∈ listing.blocks ∧
          block.blockID ≤ (s.store.getD .zero).lastScannedBlockID ∧
          ¬ PassedListed block.blockID s.log) := by
  obtain ⟨hs, hphase⟩ := Scheduler.run_sound hrun
  rw [hs.stored]
  refine ⟨hs.watermark, rfl, fun env hret hlead => ?_⟩
  rw [hret] at hphase
  obtain ⟨hver, listing, hlist, hcov⟩ := hphase rfl hlead
  refine ⟨hver, listing, hlist, fun block hb => ?_⟩
  rcases hcov block hb with hscan | ⟨hmem, hle⟩
  · exact .inl hscan
  · by_cases hp : PassedListed block.blockID s.log
    · exact .inl (hs.watermark _ hle hp)
    · exact .inr ⟨hmem, hle, hp⟩

/-! ## Two runs over a growing listing -/

def quietStart (version : String) (listing : Listing) : StartEnv :=
  ⟨true, none, .ok version, none, .ok listing, none, none⟩

def cleanScan : BlockEnv := ⟨none, .ok ⟨.clean, []⟩, true, fun _ => none, none⟩

def oneAndThree : Listing := ⟨[⟨1, false⟩, ⟨3, false⟩], _, .refl _, by decide⟩

def oneToThree : Listing := ⟨[⟨1, false⟩, ⟨2, false⟩, ⟨3, false⟩], _, .refl _, by decide⟩

/-- Block `2` is absent in the run that scans the others, and present in the next. -/
def gapFilledRuns : List Event :=
  [.runOnce (quietStart "v1" oneAndThree), .scanNext cleanScan, .scanNext cleanScan,
    .scanNext cleanScan, .runOnce (quietStart "v1" oneToThree), .scanNext cleanScan]

/-- The watermark has passed Block `2` while it was absent; the run that lists it returns nil
without a scan. -/
theorem gap_filled_below_watermark : ∃ s : Scheduler,
    (runAll Event.run gapFilledRuns).run (.start true) = .ok () s ∧
    s.phase = .returned (quietStart "v1" oneToThree) none ∧
    s.store = some ⟨3, "v1"⟩ ∧ ¬ ScannedSince 2 s.log := by
  have hrun := outcome_ok_iff.mp
    (show outcome (runAll Event.run gapFilledRuns) (.start true) = .ok () from rfl)
  exact ⟨_, hrun, rfl, rfl, by decide +kernel⟩

theorem watermark_blocks_scanned_gap : ∃ s : Scheduler,
    (runAll Event.run gapFilledRuns).run (.start true) = .ok () s ∧
    PassedListed 3 s.log ∧ ScannedSince 3 s.log := by
  have hrun := outcome_ok_iff.mp
    (show outcome (runAll Event.run gapFilledRuns) (.start true) = .ok () from rfl)
  have hpassed : PassedListed 3 (after (runAll Event.run gapFilledRuns) (.start true)).log := by
    decide +kernel
  exact ⟨_, hrun, hpassed, (watermark_blocks_scanned hrun).1 3 (by decide +kernel) hpassed⟩

end Scrap.Avscan
