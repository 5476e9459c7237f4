/-
# Restores, evictions and the scan record

A restored Block is to be scanned again. `RestorePendingScan` compares the generation
(`restored_at_us`) of the restore marker with the one in the scan record, and `RecordRestoreScan`
takes the generation from the marker it finds when the scan is over, without the lock under which
Blocks are evicted and restored.

The machine of this file has one Block, the steps left of the one operation that holds
`lifecycleMutationMu`, and the scanner between two of its own steps:

    evict, cleanup     the steps of `applyEvictionBlock` and `cleanupHotMarker`
    restore            marker, .blk, eviction marker
    repair             .blk, .idx, quarantined files, and only then the marker
    list .. record     ListSealedBlocks, Scan, ReadRestoreMarker, WriteRestoreScanRecord

A step may fail, the process may end, and deep scrub may quarantine the Block, at any point.
`recorded` is a ghost: a scan that had ended well was recorded after the marker now in place was
written. It need not have been a scan of this restore (`scan_of_earlier_restore_recorded`).
-/
import Scrap.Shard.LocalBlock

namespace Scrap

open Block Fallible

/-! ## Marker and record -/

/-- The error is the first field that does not pass. -/
def validateRestoreScanRecord (record : RestoreScanRecord) (blockID : UInt64) :
    Except String Unit :=
  if record.version ≠ markerVersion then .error "version"
  else if record.blockID ≠ blockID ∨ record.blockID = 0 then .error "block_id"
  else if record.restoredAtUs ≤ 0 then .error "restored_at_us"
  else if record.scannedAtUs ≤ 0 then .error "scanned_at_us"
  else .ok ()

/-- A marker or a record that does not read keeps the Block pending. -/
def LocalBlock.restorePendingScan (l : LocalBlock) (blockID : UInt64) : Bool :=
  match l.restoreMarker with
  | none => false
  | some marker =>
    match validateRestoreMarker marker blockID with
    | .error _ => true
    | .ok () =>
      match l.restoreScanRecord with
      | none => true
      | some record =>
        match validateRestoreScanRecord record blockID with
        | .error _ => true
        | .ok () => record.restoredAtUs ≠ marker.restoredAtUs

def recordSuccessfulRestore (blockID : UInt64) (marker : RestoreMarker) : List FileStep :=
  let marker := { marker with version := markerVersion, blockID := blockID }
  match validateRestoreMarker marker blockID with
  | .error _ => []
  | .ok () => [.writeRestoreMarker marker, .removeEvictionMarker]

/-! ## The steps of an operation -/

inductive RestoreStep where
  | file (step : FileStep)
  /-- `publishRepairedBlock` renames the `.blk`, then the `.idx`, syncs and removes the quarantined
  files. -/
  | renameRepairedBlk (f : BlkFile)
  | renameRepairedIdx (g : IdxFile)
  | syncRepaired
  | removeQuarantined

def RestoreStep.run : RestoreStep → LocalBlock → LocalBlock
  | .file step, l => step.run l
  | .renameRepairedBlk f, l => { l with files := { l.files with blk := some f }, restored := true }
  | .renameRepairedIdx g, l => { l with files := { l.files with idx := some g } }
  | .syncRepaired, l => l
  | .removeQuarantined, l =>
    { l with files := { l.files with blkQuarantine := none, idxQuarantine := none } }

/-- `publishVerifiedRepairRestore` -/
def publishRepairRestore (blockID : UInt64) (f : BlkFile) (g : IdxFile) (marker : RestoreMarker) :
    List RestoreStep :=
  [.renameRepairedBlk f, .renameRepairedIdx g, .syncRepaired, .removeQuarantined] ++
    (recordSuccessfulRestore blockID marker).map .file

/-- `repairPublishRollback`: what the step that fails undoes. -/
def LocalBlock.rollback (l : LocalBlock) : List RestoreStep → LocalBlock
  | .renameRepairedIdx _ :: _ => { l with files := { l.files with blk := none }, restored := false }
  | .syncRepaired :: _ =>
    { l with files := { l.files with blk := none, idx := none }, restored := false }
  | _ => l

/-! ## The machine -/

/-- The scanner and this Block. `restored` is the listing's flag; `since` is a ghost: not restored
since the scan began. -/
inductive ScanStage where
  | idle
  | listed (restored : Bool)
  | scanning (restored since : Bool)
  /-- the engine and the reports have returned nil -/
  | succeeded (restored : Bool)
  /-- `RecordRestoreScan` has read the marker -/
  | markerRead (restoredAtUs scannedAtUs : Int)
deriving DecidableEq

structure RestoreScan where
  block : LocalBlock
  todo : List RestoreStep
  stage : ScanStage
  /-- `restored_at_us` of the latest restore -/
  latest : Int
  /-- the `.blk` is that of a repair restore that has not written its marker -/
  unmarkedRepair : Bool
  /-- a scan that ended well was recorded after the marker in place was written -/
  recorded : Bool
  /-- a scan that began after the latest restore ended well -/
  scanned : Bool

def RestoreScan.start (files : BlockFiles) : RestoreScan :=
  ⟨⟨files, none, none, false⟩, [], .idle, 0, false, false, false⟩

def ScanStage.restart : ScanStage → ScanStage
  | .scanning restored _ => .scanning restored false
  | stage => stage

/-- The ghosts of a step: a restore makes every scan one of an earlier restore. -/
def RestoreScan.note (s : RestoreScan) : RestoreStep → RestoreScan
  | .file (.writeRestoreMarker _) =>
    { s with unmarkedRepair := false, recorded := false, scanned := false, stage := s.stage.restart }
  | .file (.renameBlk _) =>
    { s with unmarkedRepair := false, scanned := false, stage := s.stage.restart }
  | .renameRepairedBlk _ =>
    { s with unmarkedRepair := true, scanned := false, stage := s.stage.restart }
  | _ => s

inductive RestoreScanEvent where
  | evict (shardID : UInt64) (windowSeconds : Int) (plan : EvictionPlan) (selected : PlanBlock)
      (record : Option ConfirmedUpload) (r : ApplyReadings)
  | cleanup
  | restore (f : BlkFile) (marker : RestoreMarker)
  | repair (f : BlkFile) (g : IdxFile) (marker : RestoreMarker)
  | next
  /-- the next step of the operation fails, and the operation returns -/
  | fail
  | crash
  /-- deep scrub moves both files aside -/
  | quarantine
  | list
  /-- the engine opens the Block -/
  | scan
  /-- the engine and the reports return nil -/
  | succeed
  | readMarker (scannedAtUs : Int)
  | writeRecord
  /-- the scanner gives up: an error, or a Block that is not eligible -/
  | drop

def RestoreScan.step (b : UInt64) (s : RestoreScan) : RestoreScanEvent → RestoreScan
  | .evict shardID windowSeconds plan selected record r =>
    if s.todo.isEmpty ∧ selected.blockID = b then
      { s with todo :=
          (s.block.applyEvictionBlock shardID windowSeconds plan selected record r).2.map .file }
    else s
  | .cleanup =>
    if s.todo.isEmpty then { s with todo := (s.block.cleanupHotMarker b).map .file } else s
  | .restore f marker =>
    if s.todo.isEmpty ∧ s.latest < marker.restoredAtUs then
      { s with latest := marker.restoredAtUs, todo := (publishRestoredBlock b f marker).map .file }
    else s
  | .repair f g marker =>
    if s.todo.isEmpty ∧ s.latest < marker.restoredAtUs then
      { s with latest := marker.restoredAtUs, todo := publishRepairRestore b f g marker }
    else s
  | .next =>
    match s.todo with
    | [] => s
    | step :: rest => { s.note step with block := step.run s.block, todo := rest }
  | .fail => { s with block := s.block.rollback s.todo, todo := [] }
  | .crash => { s with todo := [], stage := .idle }
  | .quarantine =>
    { s with block := { s.block with
        files := { s.block.files with
          blk := none, idx := none
          blkQuarantine := s.block.files.blk, idxQuarantine := s.block.files.idx }
        restored := false } }
  | .list =>
    match s.stage with
    | .idle =>
      if s.block.files.blk.isSome then
        { s with stage := .listed (s.block.restorePendingScan b) }
      else s
    | _ => s
  | .scan =>
    match s.stage with
    | .listed restored =>
      if s.block.files.blk.isSome then { s with stage := .scanning restored true }
      else { s with stage := .idle }
    | _ => s
  | .succeed =>
    match s.stage with
    | .scanning restored since =>
      { s with stage := .succeeded restored, scanned := s.scanned || since }
    | _ => s
  | .readMarker scannedAtUs =>
    match s.stage with
    | .succeeded true =>
      if scannedAtUs ≤ 0 then { s with stage := .idle }
      else
        match s.block.restoreMarker with
        | none => { s with stage := .idle }
        | some marker =>
          match validateRestoreMarker marker b with
          | .error _ => { s with stage := .idle }
          | .ok () =>
            { s with stage := .markerRead marker.restoredAtUs scannedAtUs, recorded := true }
    | .succeeded false => { s with stage := .idle }
    | _ => s
  | .writeRecord =>
    match s.stage with
    | .markerRead restoredAtUs scannedAtUs =>
      { s with
        block := { s.block with
          restoreScanRecord := some ⟨markerVersion, b, restoredAtUs, scannedAtUs⟩ }
        stage := .idle }
    | _ => s
  | .drop => { s with stage := .idle }

def RestoreScanEvent.run (b : UInt64) (event : RestoreScanEvent) :
    EStateM Empty RestoreScan Unit :=
  modify fun s => s.step b event

/-! ## The order of the steps -/

/-- The steps left of an operation, from a Block that is or is not restored and has or has no
restore marker: except by a repair a `.blk` is only renamed into place behind a marker; a marker is
only removed from a Block that is not restored; at most one marker is written. -/
def Ordered : Bool → Bool → List RestoreStep → Prop
  | _, _, [] => True
  | _, marked, .file .unlinkBlk :: rest => Ordered false marked rest
  | restored, _, .file (.writeRestoreMarker _) :: rest =>
    (∀ m, .file (.writeRestoreMarker m) ∉ rest) ∧ Ordered restored true rest
  | _, marked, .file (.renameBlk _) :: rest => marked = true ∧ Ordered true marked rest
  | restored, _, .file .removeRestoreMarker :: rest =>
    restored = false ∧ Ordered restored false rest
  | _, marked, .renameRepairedBlk _ :: rest => Ordered true marked rest
  | restored, marked, .file (.writeEvictionMarker _) :: rest
  | restored, marked, .file .removeEvictionMarker :: rest
  | restored, marked, .file .removeRestoreScanRecord :: rest
  | restored, marked, .renameRepairedIdx _ :: rest
  | restored, marked, .syncRepaired :: rest
  | restored, marked, .removeQuarantined :: rest => Ordered restored marked rest

theorem Ordered.unrestored : ∀ {todo : List RestoreStep} {restored marked : Bool},
    Ordered restored marked todo → Ordered false marked todo := by
  intro todo
  induction todo with
  | nil => exact fun _ => trivial
  | cons step rest ih =>
    intro restored marked h
    cases step with
    | file step =>
      cases step with
      | writeEvictionMarker m => exact ih h
      | removeEvictionMarker => exact ih h
      | unlinkBlk => exact h
      | writeRestoreMarker m => exact ⟨h.1, ih h.2⟩
      | renameBlk f => exact h
      | removeRestoreMarker => exact ⟨rfl, ih h.2⟩
      | removeRestoreScanRecord => exact ih h
    | renameRepairedBlk f => exact h
    | renameRepairedIdx g => exact ih h
    | syncRepaired => exact ih h
    | removeQuarantined => exact ih h

/-- An eviction writes no restore marker, and unlinks the `.blk` before it removes one. -/
theorem applyEvictionBlock_ordered (l : LocalBlock) (shardID : UInt64) (windowSeconds : Int)
    (plan : EvictionPlan) (selected : PlanBlock) (record : Option ConfirmedUpload)
    (r : ApplyReadings) (restored marked : Bool) :
    let todo := (l.applyEvictionBlock shardID windowSeconds plan selected record r).2.map
      RestoreStep.file
    Ordered restored marked todo ∧ ∀ m, .file (.writeRestoreMarker m) ∉ todo := by
  obtain ⟨pre, post, hsteps, hpre, hpost⟩ :=
    l.applyEvictionBlock_steps shardID windowSeconds plan selected record r
  rw [hsteps]
  rcases hpre with rfl | ⟨m, rfl⟩ <;> rcases hpost with rfl | rfl | rfl <;> simp [Ordered]

theorem cleanupHotMarker_ordered (l : LocalBlock) (b : UInt64) (restored marked : Bool) :
    let todo := (l.cleanupHotMarker b).map RestoreStep.file
    Ordered restored marked todo ∧ ∀ m, .file (.writeRestoreMarker m) ∉ todo := by
  unfold LocalBlock.cleanupHotMarker
  split
  · exact ⟨trivial, nofun⟩
  · split_ifs <;> simp [Ordered]

/-- Both restores write the marker they were given, and the plain one before the `.blk`. -/
theorem publish_ordered (b : UInt64) (f : BlkFile) (marker : RestoreMarker)
    (restored marked : Bool) :
    let todo := (publishRestoredBlock b f marker).map RestoreStep.file
    Ordered restored marked todo ∧
      ∀ m, .file (.writeRestoreMarker m) ∈ todo → m.restoredAtUs = marker.restoredAtUs := by
  simp only [publishRestoredBlock]
  split
  · exact ⟨trivial, by simp⟩
  · simp [Ordered]

theorem publishRepair_ordered (b : UInt64) (f : BlkFile) (g : IdxFile) (marker : RestoreMarker)
    (restored marked : Bool) :
    let todo := publishRepairRestore b f g marker
    Ordered restored marked todo ∧
      ∀ m, .file (.writeRestoreMarker m) ∈ todo → m.restoredAtUs = marker.restoredAtUs := by
  simp only [publishRepairRestore, recordSuccessfulRestore]
  split <;> simp [Ordered]

/-! ## Generations -/

def LocalBlock.markerGeneration (l : LocalBlock) : Option Int := l.restoreMarker.map (·.restoredAtUs)

def LocalBlock.recordGeneration (l : LocalBlock) : Option Int :=
  l.restoreScanRecord.map (·.restoredAtUs)

def ScanStage.generation : ScanStage → Option Int
  | .markerRead restoredAtUs _ => some restoredAtUs
  | _ => none

/-- The generation is in a file or in the hands of the scanner. -/
def RestoreScan.Holds (s : RestoreScan) (t : Int) : Prop :=
  s.block.markerGeneration = some t ∨ s.block.recordGeneration = some t ∨
    s.stage.generation = some t

structure RestoreScan.Sound (s : RestoreScan) : Prop where
  ordered : Ordered s.block.restored s.block.restoreMarker.isSome s.todo
  marked : s.block.restored = true → s.unmarkedRepair = false → s.block.restoreMarker.isSome = true
  old : ∀ t, s.Holds t → t ≤ s.latest
  /-- A marker still to be written is newer than all there is. -/
  fresh : ∀ m, .file (.writeRestoreMarker m) ∈ s.todo →
    m.restoredAtUs ≤ s.latest ∧ ∀ t, s.Holds t → t < m.restoredAtUs
  /-- The generation of the marker is nowhere else before a scan was recorded under it. -/
  bound : ∀ t, s.block.markerGeneration = some t →
    s.block.recordGeneration = some t ∨ s.stage.generation = some t → s.recorded = true

@[simp] theorem ScanStage.restart_generation (stage : ScanStage) :
    stage.restart.generation = stage.generation := by
  cases stage <;> rfl

section Steps

variable {b : UInt64} {s : RestoreScan}

namespace RestoreScan

theorem Sound.shrink {s' : RestoreScan} (h : s.Sound)
    (hordered : Ordered s'.block.restored s'.block.restoreMarker.isSome s'.todo)
    (hmarked : s'.block.restored = true → s'.unmarkedRepair = false →
      s'.block.restoreMarker.isSome = true)
    (htodo : ∀ m, .file (.writeRestoreMarker m) ∈ s'.todo → .file (.writeRestoreMarker m) ∈ s.todo)
    (hmarker : ∀ t, s'.block.markerGeneration = some t → s.block.markerGeneration = some t)
    (hrecord : ∀ t, s'.block.recordGeneration = some t → s.block.recordGeneration = some t)
    (hstage : ∀ t, s'.stage.generation = some t → s.stage.generation = some t)
    (hlatest : s'.latest = s.latest) (hrecorded : s'.recorded = s.recorded) : s'.Sound := by
  have hholds : ∀ t, s'.Holds t → s.Holds t := fun t ht =>
    ht.imp (hmarker t) (Or.imp (hrecord t) (hstage t))
  refine ⟨hordered, hmarked, fun t ht => hlatest ▸ h.old t (hholds t ht), fun m hm => ?_, ?_⟩
  · obtain ⟨hle, hlt⟩ := h.fresh m (htodo m hm)
    exact ⟨hlatest ▸ hle, fun t ht => hlt t (hholds t ht)⟩
  · intro t ht hclaim
    rw [hrecorded]
    exact h.bound t (hmarker t ht) (hclaim.imp (hrecord t) (hstage t))

theorem Sound.setStage (h : s.Sound) {stage : ScanStage} (scanned : Bool)
    (hstage : stage.generation = none) : { s with stage, scanned }.Sound :=
  h.shrink h.ordered h.marked (fun _ => id) (fun _ => id) (fun _ => id)
    (fun _ ht => nomatch hstage.symm.trans ht) rfl rfl

theorem Sound.begin (h : s.Sound) {todo : List RestoreStep} {latest : Int}
    (hle : s.latest ≤ latest)
    (hordered : Ordered s.block.restored s.block.restoreMarker.isSome todo)
    (hnew : ∀ m, .file (.writeRestoreMarker m) ∈ todo →
      s.latest < m.restoredAtUs ∧ m.restoredAtUs = latest) :
    { s with todo, latest }.Sound := by
  refine ⟨hordered, h.marked, fun t ht => Int.le_trans (h.old t ht) hle, fun m hm => ?_, h.bound⟩
  obtain ⟨hlt, heq⟩ := hnew m hm
  exact ⟨Int.le_of_eq heq, fun t ht => Int.lt_of_le_of_lt (h.old t ht) hlt⟩

theorem next_sound (h : s.Sound) : (s.step b .next).Sound := by
  simp only [step]
  split
  · exact h
  next step rest htodo =>
  have hord := htodo ▸ h.ordered
  have hrest : ∀ m, .file (.writeRestoreMarker m) ∈ rest →
      .file (.writeRestoreMarker m) ∈ s.todo := fun m hm => htodo ▸ List.mem_cons_of_mem _ hm
  cases step with
  | file step =>
    cases step with
    | writeEvictionMarker m =>
      exact h.shrink hord h.marked hrest (fun _ => id) (fun _ => id) (fun _ => id) rfl rfl
    | removeEvictionMarker =>
      exact h.shrink hord h.marked hrest (fun _ => id) (fun _ => id) (fun _ => id) rfl rfl
    | unlinkBlk =>
      exact h.shrink hord nofun hrest (fun _ => id) (fun _ => id)
        (fun _ => id) rfl rfl
    | writeRestoreMarker m =>
      -- the new marker is newer than what the record and the scanner hold
      obtain ⟨hle, hlt⟩ := h.fresh m (htodo ▸ List.mem_cons_self)
      have hclaim : ∀ t, s.block.recordGeneration = some t ∨
          s.stage.restart.generation = some t → s.Holds t := by
        intro t ht
        rw [ScanStage.restart_generation] at ht
        exact .inr ht
      refine ⟨hord.2, fun _ _ => rfl, fun t ht => ?_, fun m' hm' => ?_, fun t ht hc => ?_⟩
      · rcases ht with ht | ht
        · exact Option.some.inj ht ▸ hle
        · exact h.old t (hclaim t ht)
      · exact absurd hm' (hord.1 m')
      · have hbad := hlt t (hclaim t hc)
        rw [← Option.some.inj ht] at hbad
        exact absurd hbad (Int.lt_irrefl _)
    | renameBlk f =>
      refine h.shrink hord.2 (fun _ _ => hord.1) hrest (fun _ => id) (fun _ => id) ?_ rfl rfl
      exact fun t ht => (ScanStage.restart_generation s.stage).symm.trans ht
    | removeRestoreMarker =>
      exact h.shrink hord.2 (fun hr => nomatch hord.1.symm.trans hr) hrest
        nofun (fun _ => id) (fun _ => id) rfl rfl
    | removeRestoreScanRecord =>
      exact h.shrink hord h.marked hrest (fun _ => id) nofun
        (fun _ => id) rfl rfl
  | renameRepairedBlk f =>
    refine h.shrink hord nofun hrest (fun _ => id) (fun _ => id) ?_ rfl rfl
    exact fun t ht => (ScanStage.restart_generation s.stage).symm.trans ht
  | renameRepairedIdx g =>
    exact h.shrink hord h.marked hrest (fun _ => id) (fun _ => id) (fun _ => id) rfl rfl
  | syncRepaired =>
    exact h.shrink hord h.marked hrest (fun _ => id) (fun _ => id) (fun _ => id) rfl rfl
  | removeQuarantined =>
    exact h.shrink hord h.marked hrest (fun _ => id) (fun _ => id) (fun _ => id) rfl rfl

theorem Sound.beginRestore (h : s.Sound) {todo : List RestoreStep} {latest : Int}
    (hlt : s.latest < latest)
    (hordered : Ordered s.block.restored s.block.restoreMarker.isSome todo)
    (hnew : ∀ m, .file (.writeRestoreMarker m) ∈ todo → m.restoredAtUs = latest) :
    { s with todo, latest }.Sound :=
  h.begin (Int.le_of_lt hlt) hordered fun m hm => ⟨hnew m hm ▸ hlt, hnew m hm⟩

theorem fail_sound (h : s.Sound) : (s.step b .fail).Sound := by
  -- a rollback takes the `.blk` away and touches neither marker nor record
  have hroll : ∀ todo, (s.block.rollback todo).restoreMarker = s.block.restoreMarker ∧
      (s.block.rollback todo).restoreScanRecord = s.block.restoreScanRecord ∧
      ((s.block.rollback todo).restored = true → s.block.restored = true) := by
    intro todo
    unfold LocalBlock.rollback
    split
    · exact ⟨rfl, rfl, nofun⟩
    · exact ⟨rfl, rfl, nofun⟩
    · exact ⟨rfl, rfl, id⟩
  obtain ⟨hmarker, hrecord, hrestored⟩ := hroll s.todo
  refine h.shrink trivial (fun hr hu => ?_) nofun (fun t ht => ?_)
    (fun t ht => ?_) (fun _ => id) rfl rfl
  · exact (congrArg Option.isSome hmarker).trans (h.marked (hrestored hr) hu)
  · exact (congrArg (Option.map _) hmarker).symm.trans ht
  · exact (congrArg (Option.map _) hrecord).symm.trans ht

theorem readMarker_sound (h : s.Sound) (scannedAtUs : Int) :
    (s.step b (.readMarker scannedAtUs)).Sound := by
  simp only [step]
  split
  · split
    · exact h.setStage s.scanned rfl
    split
    next => exact h.setStage s.scanned rfl
    next marker hm =>
      split
      · exact h.setStage s.scanned rfl
      have hgen : s.block.markerGeneration = some marker.restoredAtUs := by
        simp [LocalBlock.markerGeneration, hm]
      have hholds : ∀ t, Holds { s with
          stage := .markerRead marker.restoredAtUs scannedAtUs, recorded := true } t →
          s.Holds t := by
        rintro t (ht | ht | ht)
        · exact .inl ht
        · exact .inr (.inl ht)
        · exact .inl (hgen.trans ht)
      exact ⟨h.ordered, h.marked, fun t ht => h.old t (hholds t ht),
        fun m hm' => ⟨(h.fresh m hm').1, fun t ht => (h.fresh m hm').2 t (hholds t ht)⟩,
        fun _ _ _ => rfl⟩
  · exact h.setStage s.scanned rfl
  · exact h

theorem writeRecord_sound (h : s.Sound) : (s.step b .writeRecord).Sound := by
  simp only [step]
  split
  next restoredAtUs scannedAtUs hst =>
    have hgen : s.stage.generation = some restoredAtUs := by rw [hst]; rfl
    have hholds : ∀ t, Holds { s with
        block := { s.block with
          restoreScanRecord := some ⟨markerVersion, b, restoredAtUs, scannedAtUs⟩ }
        stage := .idle } t → s.Holds t := by
      rintro t (ht | ht | ht)
      · exact .inl ht
      · exact .inr (.inr (hgen.trans ht))
      · cases ht
    refine ⟨h.ordered, h.marked, fun t ht => h.old t (hholds t ht),
      fun m hm => ⟨(h.fresh m hm).1, fun t ht => (h.fresh m hm).2 t (hholds t ht)⟩, ?_⟩
    rintro t ht (hc | hc)
    · exact h.bound t ht (.inr (hgen.trans hc))
    · cases hc
  · exact h

theorem step_sound (h : s.Sound) (event : RestoreScanEvent) :
    (s.step b event).Sound := by
  cases event with
  | evict shardID windowSeconds plan selected record r =>
    simp only [step]
    split
    · obtain ⟨hord, hnone⟩ := applyEvictionBlock_ordered s.block shardID windowSeconds plan
        selected record r s.block.restored s.block.restoreMarker.isSome
      exact h.begin (Int.le_refl _) hord fun m hm => absurd hm (hnone m)
    · exact h
  | cleanup =>
    simp only [step]
    split
    · obtain ⟨hord, hnone⟩ := cleanupHotMarker_ordered s.block b s.block.restored
        s.block.restoreMarker.isSome
      exact h.begin (Int.le_refl _) hord fun m hm => absurd hm (hnone m)
    · exact h
  | restore f marker =>
    simp only [step]
    split
    next hbegin =>
      obtain ⟨hord, hnew⟩ := publish_ordered b f marker s.block.restored
        s.block.restoreMarker.isSome
      exact h.beginRestore hbegin.2 hord hnew
    next => exact h
  | repair f g marker =>
    simp only [step]
    split
    next hbegin =>
      obtain ⟨hord, hnew⟩ := publishRepair_ordered b f g marker s.block.restored
        s.block.restoreMarker.isSome
      exact h.beginRestore hbegin.2 hord hnew
    next => exact h
  | next => exact next_sound h
  | fail => exact fail_sound h
  | crash =>
    exact h.shrink trivial h.marked nofun (fun _ => id) (fun _ => id)
      nofun rfl rfl
  | quarantine =>
    exact h.shrink h.ordered.unrestored nofun (fun _ => id) (fun _ => id)
      (fun _ => id) (fun _ => id) rfl rfl
  | list =>
    simp only [step]
    split
    · split
      · exact h.setStage s.scanned rfl
      · exact h
    · exact h
  | scan =>
    simp only [step]
    split
    · split
      · exact h.setStage s.scanned rfl
      · exact h.setStage s.scanned rfl
    · exact h
  | succeed =>
    simp only [step]
    split
    · exact h.setStage _ rfl
    · exact h
  | readMarker scannedAtUs => exact readMarker_sound h scannedAtUs
  | writeRecord => exact writeRecord_sound h
  | drop => exact h.setStage s.scanned rfl

end RestoreScan

end Steps

theorem RestoreScan.start_sound (files : BlockFiles) : (RestoreScan.start files).Sound := by
  refine ⟨trivial, nofun, fun t ht => ?_, nofun, ?_⟩
  · rcases ht with ht | ht | ht <;> cases ht
  · rintro t ht
    cases ht

/-- A marker whose record suppresses the scan is one that a record was made under. -/
theorem RestoreScan.Sound.recorded_of_not_pending {b : UInt64} {s : RestoreScan} (h : s.Sound)
    (hmarked : s.block.restoreMarker.isSome = true)
    (hpending : s.block.restorePendingScan b = false) : s.recorded = true := by
  obtain ⟨marker, hm⟩ := Option.isSome_iff_exists.mp hmarked
  simp only [LocalBlock.restorePendingScan, hm] at hpending
  split at hpending
  · cases hpending
  split at hpending
  · cases hpending
  rename_i record hr
  split at hpending
  · cases hpending
  have hgen : record.restoredAtUs = marker.restoredAtUs := by simpa using hpending
  refine h.bound marker.restoredAtUs ?_ (.inl ?_)
  · simp [LocalBlock.markerGeneration, hm]
  · simp [LocalBlock.recordGeneration, hr, hgen]

/-- In every interleaving, a present restored Block whose latest restore has written its marker is
reported as not pending only if a scan that ended well was recorded after that. -/
theorem not_pending_scan_recorded {b : UInt64} {files : BlockFiles}
    {events : List RestoreScanEvent} {s : RestoreScan}
    (hrun : (runAll (RestoreScanEvent.run b) events).run (.start files) = .ok () s)
    (hrestored : s.block.restored = true) (hmarked : s.unmarkedRepair = false)
    (hpending : s.block.restorePendingScan b = false) : s.recorded = true := by
  have hsound : s.Sound := by
    refine runAll_invariant (P := fun _ t => t.Sound) (RestoreScan.start_sound files) ?_ hrun
    intro l event t t' ht hstep
    cases hstep
    exact RestoreScan.step_sound ht event
  exact hsound.recorded_of_not_pending (hsound.marked hrestored hmarked) hpending

/-! ## A scan that a restore overtakes -/

def evictionToEnd : List RestoreScanEvent :=
  [.evict 7 0 ⟨0, ""⟩ ⟨1, 7, 40, "blocks/1.blk"⟩ (some uploadedRecord)
    ⟨false, 60, false, 61, 62, 63, false⟩, .next, .next, .next, .next]

def restorationToEnd (restoredAtUs : Int) : List RestoreScanEvent :=
  [.restore newBlkFile ⟨0, 0, restoredAtUs, "backend", "read"⟩, .next, .next, .next]

def scannedAfterRestore : List RestoreScanEvent :=
  evictionToEnd ++ restorationToEnd 70 ++ [.list, .scan, .succeed, .readMarker 80, .writeRecord]

theorem not_pending_scan_recorded_once : ∃ s : RestoreScan,
    (runAll (RestoreScanEvent.run 1) scannedAfterRestore).run (.start uploadedBlock.files) =
      .ok () s ∧
    s.block.restored = true ∧ s.block.restorePendingScan 1 = false ∧ s.recorded = true := by
  have hrun := outcome_ok_iff.mp (show outcome (runAll (RestoreScanEvent.run 1)
    scannedAfterRestore) (.start uploadedBlock.files) = .ok () from rfl)
  exact ⟨_, hrun, by decide +kernel, by decide +kernel,
    not_pending_scan_recorded hrun (by decide +kernel) (by decide +kernel) (by decide +kernel)⟩

/-- The Block is evicted and restored again while the engine has it open. -/
def restoredDuringScan : List RestoreScanEvent :=
  evictionToEnd ++ restorationToEnd 70 ++ [.list, .scan] ++ evictionToEnd ++ restorationToEnd 90 ++
    [.succeed, .readMarker 100, .writeRecord]

/-- The only scan began before the latest restore, yet its record is one of that restore: the Block
is not pending. -/
theorem scan_of_earlier_restore_recorded : ∃ s : RestoreScan,
    (runAll (RestoreScanEvent.run 1) restoredDuringScan).run (.start uploadedBlock.files) =
      .ok () s ∧
    s.block.files.blk = some newBlkFile ∧ s.block.restored = true ∧
    s.block.restoreMarker = some ⟨1, 1, 90, "backend", "read"⟩ ∧
    s.block.restorePendingScan 1 = false ∧ s.scanned = false := by
  have hrun := outcome_ok_iff.mp (show outcome (runAll (RestoreScanEvent.run 1)
    restoredDuringScan) (.start uploadedBlock.files) = .ok () from rfl)
  exact ⟨_, hrun, by decide +kernel⟩

end Scrap
