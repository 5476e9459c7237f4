/-
# The files of a Block that is evicted and restored

Eviction removes the `.blk` of an uploaded Block and leaves a marker that says where its bytes are;
a restore puts the `.blk` back and leaves a marker that says so. A crash may fall between any two
of their file operations:

    applyEvictionBlock      write the eviction marker, unlink the .blk,
                            remove the restore marker, remove the scan record
      skipped at the end    write the eviction marker (and, on a leader, remove it)
    publishRestoredBlock    write the restore marker, rename the .blk into place,
                            remove the eviction marker
    cleanupHotMarker        remove an eviction marker whose .blk is there
-/
import Scrap.Lib.Crash
import Scrap.Shard.Rebuild

namespace Scrap

open Block Crash

/-! ## Files and steps -/

structure RestoreMarker where
  version : Nat
  blockID : UInt64
  restoredAtUs : Int
  source : String
  reason : String
deriving DecidableEq

structure RestoreScanRecord where
  version : Nat
  blockID : UInt64
  restoredAtUs : Int
  scannedAtUs : Int
deriving DecidableEq

/-- The files of one Block, with the two that restores add. `restored` is no file: the `.blk` was
put in place by `PublishRestoredBlock`. -/
structure LocalBlock where
  files : BlockFiles
  /-- `.blk.restore.json` -/
  restoreMarker : Option RestoreMarker
  /-- `.blk.restore.scanned.json` -/
  restoreScanRecord : Option RestoreScanRecord
  restored : Bool
deriving DecidableEq

/-- The error is the first field that does not pass. -/
def validateRestoreMarker (marker : RestoreMarker) (blockID : UInt64) : Except String Unit :=
  if marker.version ≠ markerVersion then .error "version"
  else if marker.blockID ≠ blockID ∨ marker.blockID = 0 then .error "block_id"
  else if marker.restoredAtUs ≤ 0 then .error "restored_at_us"
  else if marker.source = "" then .error "source"
  else if marker.reason = "" then .error "reason"
  else .ok ()

/-- The file operations, each atomic and durable. Markers are renamed into place as a whole. -/
inductive FileStep where
  | writeEvictionMarker (marker : EvictionMarker)
  | removeEvictionMarker
  | unlinkBlk
  | writeRestoreMarker (marker : RestoreMarker)
  | renameBlk (f : BlkFile)
  | removeRestoreMarker
  | removeRestoreScanRecord

def FileStep.run : FileStep → LocalBlock → LocalBlock
  | .writeEvictionMarker m, l => { l with files := { l.files with evictionMarker := some m } }
  | .removeEvictionMarker, l => { l with files := { l.files with evictionMarker := none } }
  | .unlinkBlk, l => { l with files := { l.files with blk := none }, restored := false }
  | .writeRestoreMarker m, l => { l with restoreMarker := some m }
  | .renameBlk f, l => { l with files := { l.files with blk := some f }, restored := true }
  | .removeRestoreMarker, l => { l with restoreMarker := none }
  | .removeRestoreScanRecord, l => { l with restoreScanRecord := none }

/-- What `Classify` returns, the restore marker included. -/
structure LocalLifecycle where
  lifecycle : Lifecycle
  restoreMarker : Option RestoreMarker
deriving DecidableEq

/-- The error is the field of an invalid marker. -/
def LocalBlock.classify (l : LocalBlock) (blockID : UInt64) : Except String LocalLifecycle :=
  match l.files.classify blockID with
  | .error field => .error field
  | .ok lifecycle =>
    if lifecycle.state = .metadataLoss then .ok ⟨lifecycle, none⟩
    else
      match l.restoreMarker with
      | none => .ok ⟨lifecycle, none⟩
      | some marker =>
        match validateRestoreMarker marker blockID with
        | .error field => .error field
        | .ok () => .ok ⟨lifecycle, some marker⟩

/-! ## Operations -/

/-- The marker, if it passes its checks. -/
def prepareEviction (confirmed : ConfirmedUpload) (evictedAtUs : Int) (trigger reason : String) :
    Except String (List FileStep) :=
  let marker : EvictionMarker := ⟨markerVersion, confirmed.blockID, confirmed.blockObject.key,
    confirmed.blockObject.sizeBytes, confirmed.blockObject.validationToken, evictedAtUs, trigger,
    reason⟩
  match validateEvictionMarker marker confirmed.blockID with
  | .error field => .error field
  | .ok () => .ok [.writeEvictionMarker marker]

def publishRestoredBlock (blockID : UInt64) (f : BlkFile) (marker : RestoreMarker) :
    List FileStep :=
  let marker := { marker with version := markerVersion, blockID := blockID }
  match validateRestoreMarker marker blockID with
  | .error _ => []
  | .ok () => [.writeRestoreMarker marker, .renameBlk f, .removeEvictionMarker]

def LocalBlock.cleanupHotMarker (l : LocalBlock) (blockID : UInt64) : List FileStep :=
  match l.classify blockID with
  | .error _ => []
  | .ok lc => if lc.lifecycle.state = .hotCleanupNeeded then [.removeEvictionMarker] else []

structure EvictionPlan where
  expiresAtUs : Int
  reason : String
deriving DecidableEq

structure PlanBlock where
  blockID : UInt64
  shardID : UInt64
  sizeBytes : Int
  backendKey : String
deriving DecidableEq

inductive SkipReason where
  | shardFilter
  | localStateNotHot
  | leaderHotCopyRequired
  | hotResidencyWindow
  | planExpired
deriving DecidableEq

inductive EvictionErr where
  /-- `classify Block: %w` -/
  | classify (field : String)
  /-- `get ConfirmUpload: %w` -/
  | getConfirmUpload
  /-- `confirmed Shard mismatch for Block %d` -/
  | confirmedShard
  /-- `confirmed Block size mismatch for Block %d` -/
  | confirmedSize
  /-- `missing Backend key for Block %d` -/
  | missingBackendKey
  /-- `confirmed Backend key mismatch for Block %d` -/
  | confirmedBackendKey
  /-- `Block %d restore authority mismatch` -/
  | restoreAuthority (field : String)
  /-- the marker does not pass its checks -/
  | marker (field : String)
deriving DecidableEq

inductive ApplyBlock where
  | skipped (reason : SkipReason)
  | failed (err : EvictionErr)
  | evicted (bytesFreed : Int)
deriving DecidableEq

/-- What a call of `applyEvictionBlockLocked` reads of the clock and of the Raft node, in that
order. -/
structure ApplyReadings where
  leaderSkip : Bool
  nowSkip : Int
  leaderGuard : Bool
  nowGuard : Int
  nowMarker : Int
  nowUnlink : Int
  leaderUnlink : Bool
deriving DecidableEq

def restoredHotResidencyApplies (windowSeconds : Int) (lc : LocalLifecycle) (nowUs : Int) : Bool :=
  match lc.restoreMarker with
  | none => false
  | some marker => 0 < windowSeconds ∧ nowUs < marker.restoredAtUs + windowSeconds * 1000000

/-- `evictionApplySkipReason` behind its check of the Shard. -/
def evictionApplySkipReason (windowSeconds : Int) (lc : LocalLifecycle) (r : ApplyReadings) :
    Option SkipReason :=
  if lc.lifecycle.state ≠ .hot ∧ lc.lifecycle.state ≠ .hotCleanupNeeded then
    some .localStateNotHot
  else if r.leaderSkip then some .leaderHotCopyRequired
  else if restoredHotResidencyApplies windowSeconds lc r.nowSkip then some .hotResidencyWindow
  else none

/-- `committedConfirmUploadAuthorityLocked`: the Block's authority record, checked when it is read.
-/
def committedConfirmUploadAuthority (record : Option ConfirmedUpload) (blockID : UInt64) :
    Option ConfirmedUpload :=
  match record with
  | none => none
  | some u =>
    if u.blockID ≠ blockID then none
    else
      match validateConfirmedUploadAuthorityRecord u with
      | .error _ => none
      | .ok () => some u

def validateEvictionApplyAuthority (selected : PlanBlock) (confirmed : ConfirmedUpload) :
    Except EvictionErr Unit :=
  if selected.shardID ≠ confirmed.shardID then .error .confirmedShard
  else if selected.sizeBytes ≠ confirmed.blockObject.sizeBytes then .error .confirmedSize
  else if selected.backendKey = "" then .error .missingBackendKey
  else if selected.backendKey ≠ confirmed.blockObject.key then .error .confirmedBackendKey
  else .ok ()

def EvictionPlan.expired (plan : EvictionPlan) (nowUs : Int) : Bool :=
  0 < plan.expiresAtUs ∧ plan.expiresAtUs ≤ nowUs

def evictionReasonForMarker (plan : EvictionPlan) : String :=
  if plan.reason ≠ "" then plan.reason else "evidence_run"

/-- A marker that is there is used if it names the confirmed object. -/
def prepareEvictionMarkerForApply (plan : EvictionPlan) (lc : LocalLifecycle)
    (confirmed : ConfirmedUpload) (nowUs : Int) : Except EvictionErr (List FileStep) :=
  if lc.lifecycle.state = .hotCleanupNeeded then
    match validateRestoreAuthority confirmed lc.lifecycle with
    | .error field => .error (.restoreAuthority field)
    | .ok () => .ok []
  else
    match prepareEviction confirmed nowUs "operator_requested" (evictionReasonForMarker plan) with
    | .error field => .error (.marker field)
    | .ok steps => .ok steps

/-- The end of an apply: the plan and the leadership are looked at again, then the `.blk` is
unlinked and the restore markers go. -/
def unlinkEvictedBlock (plan : EvictionPlan) (lc : LocalLifecycle) (confirmed : ConfirmedUpload)
    (r : ApplyReadings) : ApplyBlock × List FileStep :=
  if plan.expired r.nowUnlink then (.skipped .planExpired, [])
  else if r.leaderUnlink then
    (.skipped .leaderHotCopyRequired,
      if lc.lifecycle.state = .hot then [.removeEvictionMarker] else [])
  else
    (.evicted confirmed.blockObject.sizeBytes,
      [.unlinkBlk, .removeRestoreMarker, .removeRestoreScanRecord])

/-- `applyEvictionBlockLocked`, on a Shard with this ID and hot residency window: result and file
operations. -/
def LocalBlock.applyEvictionBlock (l : LocalBlock) (shardID : UInt64) (windowSeconds : Int)
    (plan : EvictionPlan) (selected : PlanBlock) (record : Option ConfirmedUpload)
    (r : ApplyReadings) : ApplyBlock × List FileStep :=
  if selected.shardID ≠ shardID then (.skipped .shardFilter, [])
  else
    match l.classify selected.blockID with
    | .error field => (.failed (.classify field), [])
    | .ok lc =>
      match evictionApplySkipReason windowSeconds lc r with
      | some reason => (.skipped reason, [])
      | none =>
        match committedConfirmUploadAuthority record selected.blockID with
        | none => (.failed .getConfirmUpload, [])
        | some confirmed =>
          match validateEvictionApplyAuthority selected confirmed with
          | .error err => (.failed err, [])
          | .ok () =>
            if r.leaderGuard then (.skipped .leaderHotCopyRequired, [])
            else if plan.expired r.nowGuard then (.skipped .planExpired, [])
            else
              match prepareEvictionMarkerForApply plan lc confirmed r.nowMarker with
              | .error err => (.failed err, [])
              | .ok prepared =>
                let (result, steps) := unlinkEvictedBlock plan lc confirmed r
                (result, prepared ++ steps)

/-- The call gets past every check in front of the marker: `lc` is the Block as it sees it,
`confirmed` the upload it goes by, `prepared` what it does for the marker. -/
structure LocalBlock.Admits (l : LocalBlock) (shardID : UInt64) (windowSeconds : Int)
    (plan : EvictionPlan) (selected : PlanBlock) (record : Option ConfirmedUpload)
    (r : ApplyReadings) (lc : LocalLifecycle) (confirmed : ConfirmedUpload)
    (prepared : List FileStep) : Prop where
  shard : selected.shardID = shardID
  classified : l.classify selected.blockID = .ok lc
  unskipped : evictionApplySkipReason windowSeconds lc r = none
  authority : committedConfirmUploadAuthority record selected.blockID = some confirmed
  valid : validateEvictionApplyAuthority selected confirmed = .ok ()
  follower : r.leaderGuard = false
  current : plan.expired r.nowGuard = false
  marker : prepareEvictionMarkerForApply plan lc confirmed r.nowMarker = .ok prepared

variable {r : ApplyReadings} {confirmed : ConfirmedUpload} {plan : EvictionPlan}
  {prepared : List FileStep} {lc : LocalLifecycle}

theorem LocalBlock.Admits.apply_eq {l : LocalBlock} {shardID : UInt64} {windowSeconds : Int}
    {selected : PlanBlock} {record : Option ConfirmedUpload}
    (h : l.Admits shardID windowSeconds plan selected record r lc confirmed prepared) :
    l.applyEvictionBlock shardID windowSeconds plan selected record r =
      ((unlinkEvictedBlock plan lc confirmed r).1,
        prepared ++ (unlinkEvictedBlock plan lc confirmed r).2) := by
  simp [LocalBlock.applyEvictionBlock, h.shard, h.classified, h.unskipped, h.authority, h.valid,
    h.follower, h.current, h.marker]

theorem LocalBlock.applyEvictionBlock_cases (l : LocalBlock) (shardID : UInt64)
    (windowSeconds : Int) (plan : EvictionPlan) (selected : PlanBlock)
    (record : Option ConfirmedUpload) (r : ApplyReadings) :
    (∃ lc confirmed prepared,
      l.Admits shardID windowSeconds plan selected record r lc confirmed prepared) ∨
      (l.applyEvictionBlock shardID windowSeconds plan selected record r).2 = [] := by
  unfold LocalBlock.applyEvictionBlock
  split
  · exact .inr rfl
  rename_i hshard
  split
  · exact .inr rfl
  rename_i lc hc
  split
  · exact .inr rfl
  rename_i hskip
  split
  · exact .inr rfl
  rename_i confirmed hconfirmed
  split
  · exact .inr rfl
  rename_i hvalid
  split
  · exact .inr rfl
  rename_i hleader
  split
  · exact .inr rfl
  rename_i hexpired
  split
  · exact .inr rfl
  rename_i prepared hprepared
  exact .inl ⟨lc, confirmed, prepared, not_not.mp hshard, hc, hskip, hconfirmed, hvalid,
    Bool.not_eq_true _ ▸ hleader, Bool.not_eq_true _ ▸ hexpired, hprepared⟩

inductive LifecycleOp (b : UInt64) : LocalBlock → List FileStep → Prop
  | evict {l : LocalBlock} (shardID : UInt64) (windowSeconds : Int) (plan : EvictionPlan)
      (selected : PlanBlock) (record : Option ConfirmedUpload) (r : ApplyReadings) :
      selected.blockID = b →
      LifecycleOp b l (l.applyEvictionBlock shardID windowSeconds plan selected record r).2
  | publish {l : LocalBlock} (f : BlkFile) (marker : RestoreMarker) :
      LifecycleOp b l (publishRestoredBlock b f marker)
  | cleanup {l : LocalBlock} : LifecycleOp b l (l.cleanupHotMarker b)

/-! ## What every crash point keeps -/

/-- The `.idx` is there, markers pass their checks, a missing `.blk` has its eviction marker and a
restored one its restore marker. -/
structure LocalBlock.Sound (b : UInt64) (l : LocalBlock) : Prop where
  idx : l.files.idx.isSome
  eviction : ∀ m, l.files.evictionMarker = some m → validateEvictionMarker m b = .ok ()
  restore : ∀ m, l.restoreMarker = some m → validateRestoreMarker m b = .ok ()
  evicted : l.files.blk = none → l.files.evictionMarker.isSome
  marked : l.restored = true → l.restoreMarker.isSome

namespace LocalBlock.Sound

variable {b : UInt64} {l : LocalBlock}

theorem writeEvictionMarker (h : l.Sound b) {m : EvictionMarker}
    (hm : validateEvictionMarker m b = .ok ()) :
    ((FileStep.writeEvictionMarker m).run l).Sound b where
  idx := h.idx
  eviction := by
    rintro _ ⟨⟩
    exact hm
  restore := h.restore
  evicted := fun _ => rfl
  marked := h.marked

theorem removeEvictionMarker (h : l.Sound b) (hblk : l.files.blk ≠ none) :
    (FileStep.removeEvictionMarker.run l).Sound b where
  idx := h.idx
  eviction := nofun
  restore := h.restore
  evicted := fun hnone => absurd hnone hblk
  marked := h.marked

theorem unlinkBlk (h : l.Sound b) (hmarker : l.files.evictionMarker.isSome) :
    (FileStep.unlinkBlk.run l).Sound b where
  idx := h.idx
  eviction := h.eviction
  restore := h.restore
  evicted := fun _ => hmarker
  marked := nofun

theorem writeRestoreMarker (h : l.Sound b) {m : RestoreMarker}
    (hm : validateRestoreMarker m b = .ok ()) :
    ((FileStep.writeRestoreMarker m).run l).Sound b where
  idx := h.idx
  eviction := h.eviction
  restore := by
    rintro _ ⟨⟩
    exact hm
  evicted := h.evicted
  marked := fun _ => rfl

theorem renameBlk (h : l.Sound b) (hmarker : l.restoreMarker.isSome) (f : BlkFile) :
    ((FileStep.renameBlk f).run l).Sound b where
  idx := h.idx
  eviction := h.eviction
  restore := h.restore
  evicted := nofun
  marked := fun _ => hmarker

theorem removeRestoreMarker (h : l.Sound b) (hrestored : l.restored = false) :
    (FileStep.removeRestoreMarker.run l).Sound b where
  idx := h.idx
  eviction := h.eviction
  restore := nofun
  evicted := h.evicted
  marked := fun htrue => nomatch hrestored.symm.trans htrue

theorem removeRestoreScanRecord (h : l.Sound b) :
    (FileStep.removeRestoreScanRecord.run l).Sound b :=
  ⟨h.idx, h.eviction, h.restore, h.evicted, h.marked⟩

end LocalBlock.Sound

section Operations

variable {b : UInt64} {l : LocalBlock}

theorem LocalBlock.classify_ok (hc : l.classify b = .ok lc)
    (hstate : lc.lifecycle.state ≠ .metadataLoss) :
    lc.lifecycle = classifyState l.files.blk.isSome l.files.evictionMarker := by
  have hfiles : l.files.classify b = .ok lc.lifecycle := by
    unfold LocalBlock.classify at hc
    cases hf : l.files.classify b with
    | error field => simp [hf] at hc
    | ok lifecycle => ?_
    simp only [hf] at hc
    split_ifs at hc
    · cases hc; rfl
    split at hc
    · cases hc; rfl
    · split at hc
      · cases hc
      · cases hc; rfl
  unfold BlockFiles.classify at hfiles
  split_ifs at hfiles
  · rw [← Except.ok.inj hfiles] at hstate
    exact absurd rfl hstate
  cases hm : l.files.evictionMarker with
  | none =>
    simp only [hm] at hfiles
    exact (Except.ok.inj hfiles).symm
  | some m =>
    simp only [hm] at hfiles
    split at hfiles
    · cases hfiles
    · exact (Except.ok.inj hfiles).symm

theorem LocalBlock.hot_files (hc : l.classify b = .ok lc) (hstate : lc.lifecycle.state = .hot) :
    l.files.blk ≠ none ∧ l.files.evictionMarker = none := by
  rw [LocalBlock.classify_ok hc (by simp [hstate])] at hstate
  revert hstate
  cases l.files.blk <;> cases l.files.evictionMarker <;> simp [classifyState]

theorem LocalBlock.cleanup_files (hc : l.classify b = .ok lc)
    (hstate : lc.lifecycle.state = .hotCleanupNeeded) :
    l.files.blk ≠ none ∧ l.files.evictionMarker.isSome := by
  rw [LocalBlock.classify_ok hc (by simp [hstate])] at hstate
  revert hstate
  cases l.files.blk <;> cases l.files.evictionMarker <;> simp [classifyState]

theorem cleanupHotMarker_stands (h : l.Sound b) :
    Stands FileStep.run (LocalBlock.Sound b) (l.cleanupHotMarker b) l := by
  unfold LocalBlock.cleanupHotMarker
  split
  · exact stands_nil.mpr h
  rename_i lc hc
  split_ifs with hstate
  · have hblk := (LocalBlock.cleanup_files hc hstate).1
    exact stands_cons.mpr ⟨h, stands_nil.mpr (h.removeEvictionMarker hblk)⟩
  · exact stands_nil.mpr h

/-- The restore marker is written first, so that the renamed `.blk` has it; the eviction marker goes
last. -/
theorem publishRestoredBlock_stands (h : l.Sound b) (f : BlkFile) (marker : RestoreMarker) :
    Stands FileStep.run (LocalBlock.Sound b) (publishRestoredBlock b f marker) l := by
  simp only [publishRestoredBlock]
  split
  · exact stands_nil.mpr h
  rename_i hvalid
  have hwritten := h.writeRestoreMarker hvalid
  have hrenamed := hwritten.renameBlk rfl f
  have hremoved := hrenamed.removeEvictionMarker nofun
  exact stands_cons.mpr ⟨h, stands_cons.mpr ⟨hwritten, stands_cons.mpr ⟨hrenamed,
    stands_nil.mpr hremoved⟩⟩⟩

theorem committedConfirmUploadAuthority_blockID {record : Option ConfirmedUpload}
    {u : ConfirmedUpload} (h : committedConfirmUploadAuthority record b = some u) :
    u.blockID = b := by
  cases record with
  | none => cases h
  | some v => ?_
  simp only [committedConfirmUploadAuthority] at h
  split_ifs at h with hid
  split at h
  · cases h
  · cases h
    exact not_not.mp hid

theorem prepareEvictionMarkerForApply_ok {nowUs : Int}
    (hp : prepareEvictionMarkerForApply plan lc confirmed nowUs = .ok prepared) :
    (lc.lifecycle.state = .hotCleanupNeeded ∧
        validateRestoreAuthority confirmed lc.lifecycle = .ok () ∧ prepared = []) ∨
      (lc.lifecycle.state ≠ .hotCleanupNeeded ∧ ∃ m : EvictionMarker,
        validateEvictionMarker m confirmed.blockID = .ok () ∧
        (m.backendKey = confirmed.blockObject.key ∧ m.sizeBytes = confirmed.blockObject.sizeBytes ∧
          m.validationToken = confirmed.blockObject.validationToken) ∧
        prepared = [.writeEvictionMarker m]) := by
  simp only [prepareEvictionMarkerForApply] at hp
  split_ifs at hp with hcleanup
  · split at hp
    · cases hp
    · rename_i hauth
      cases hp
      exact .inl ⟨hcleanup, hauth, rfl⟩
  · simp only [prepareEviction] at hp
    split at hp
    · cases hp
    rename_i hsteps
    split at hsteps
    · cases hsteps
    rename_i hvalid
    cases hsteps
    cases hp
    exact .inr ⟨hcleanup, _, hvalid, ⟨rfl, rfl, rfl⟩, rfl⟩

/-- Behind the marker preparation the Block has its `.blk` and an eviction marker, a new one if it
was Hot. -/
theorem prepareEvictionMarkerForApply_stands {nowUs : Int} (h : l.Sound b)
    (hc : l.classify b = .ok lc) (hid : confirmed.blockID = b)
    (hstate : lc.lifecycle.state = .hot ∨ lc.lifecycle.state = .hotCleanupNeeded)
    (hp : prepareEvictionMarkerForApply plan lc confirmed nowUs = .ok prepared) :
    Stands FileStep.run (LocalBlock.Sound b) prepared l ∧
      (runSteps FileStep.run prepared l).files.blk ≠ none ∧
      (runSteps FileStep.run prepared l).files.evictionMarker.isSome := by
  obtain ⟨hcleanup, -, rfl⟩ | ⟨hcleanup, m, hvalid, -, rfl⟩ := prepareEvictionMarkerForApply_ok hp
  · exact ⟨stands_nil.mpr h, LocalBlock.cleanup_files hc hcleanup⟩
  have hhot := hstate.resolve_right hcleanup
  subst hid
  exact ⟨stands_cons.mpr ⟨h, stands_nil.mpr (h.writeEvictionMarker hvalid)⟩,
    (LocalBlock.hot_files hc hhot).1, rfl⟩

theorem unlinkEvictedBlock_stands (h : l.Sound b) (hblk : l.files.blk ≠ none)
    (hmarker : l.files.evictionMarker.isSome) :
    Stands FileStep.run (LocalBlock.Sound b) (unlinkEvictedBlock plan lc confirmed r).2 l := by
  unfold unlinkEvictedBlock
  split_ifs
  · exact stands_nil.mpr h
  · exact stands_cons.mpr ⟨h, stands_nil.mpr (h.removeEvictionMarker hblk)⟩
  · exact stands_nil.mpr h
  -- the marker outlives the .blk, and the restore marker only goes once the .blk has gone
  have hunlinked := h.unlinkBlk hmarker
  have hunmarked := hunlinked.removeRestoreMarker rfl
  exact stands_cons.mpr ⟨h, stands_cons.mpr ⟨hunlinked, stands_cons.mpr ⟨hunmarked,
    stands_nil.mpr hunmarked.removeRestoreScanRecord⟩⟩⟩

theorem evictionApplySkipReason_none {windowSeconds : Int}
    (h : evictionApplySkipReason windowSeconds lc r = none) :
    lc.lifecycle.state = .hot ∨ lc.lifecycle.state = .hotCleanupNeeded := by
  unfold evictionApplySkipReason at h
  split_ifs at h with hstate
  by_contra hne
  exact hstate (not_or.mp hne)

theorem LocalBlock.applyEvictionBlock_steps (l : LocalBlock) (shardID : UInt64) (windowSeconds : Int)
    (plan : EvictionPlan) (selected : PlanBlock) (record : Option ConfirmedUpload)
    (r : ApplyReadings) : ∃ pre post,
    (l.applyEvictionBlock shardID windowSeconds plan selected record r).2 = pre ++ post ∧
    (pre = [] ∨ ∃ m, pre = [.writeEvictionMarker m]) ∧
    (post = [] ∨ post = [.removeEvictionMarker] ∨
      post = [.unlinkBlk, .removeRestoreMarker, .removeRestoreScanRecord]) := by
  obtain ⟨lc, confirmed, prepared, hadmits⟩ | hnil :=
    l.applyEvictionBlock_cases shardID windowSeconds plan selected record r
  · refine ⟨prepared, _, congrArg Prod.snd hadmits.apply_eq, ?_, ?_⟩
    · obtain ⟨-, -, rfl⟩ | ⟨-, m, -, -, rfl⟩ := prepareEvictionMarkerForApply_ok hadmits.marker
      · exact .inl rfl
      · exact .inr ⟨m, rfl⟩
    · unfold unlinkEvictedBlock
      split_ifs <;> simp
  · exact ⟨[], [], hnil, .inl rfl, .inl rfl⟩

theorem applyEvictionBlock_stands (h : l.Sound b) (shardID : UInt64) (windowSeconds : Int)
    (plan : EvictionPlan) (selected : PlanBlock) (record : Option ConfirmedUpload)
    (r : ApplyReadings) (hsel : selected.blockID = b) :
    Stands FileStep.run (LocalBlock.Sound b)
      (l.applyEvictionBlock shardID windowSeconds plan selected record r).2 l := by
  subst hsel
  obtain ⟨lc, confirmed, prepared, hadmits⟩ | hnil :=
    l.applyEvictionBlock_cases shardID windowSeconds plan selected record r
  · obtain ⟨hstands, hblk, hmarker⟩ := prepareEvictionMarkerForApply_stands h hadmits.classified
      (committedConfirmUploadAuthority_blockID hadmits.authority)
      (evictionApplySkipReason_none hadmits.unskipped) hadmits.marker
    rw [hadmits.apply_eq]
    exact stands_append hstands fun hsound => unlinkEvictedBlock_stands hsound hblk hmarker
  · rw [hnil]
    exact stands_nil.mpr h

theorem LifecycleOp.stands {steps : List FileStep} (h : l.Sound b) (hop : LifecycleOp b l steps) :
    Stands FileStep.run (LocalBlock.Sound b) steps l := by
  cases hop with
  | evict shardID windowSeconds plan selected record r hsel =>
    exact applyEvictionBlock_stands h shardID windowSeconds plan selected record r hsel
  | publish f marker => exact publishRestoredBlock_stands h f marker
  | cleanup => exact cleanupHotMarker_stands h

end Operations

/-! ## Every sequence of operations -/

theorem LocalBlock.Sound.classify_evicted {b : UInt64} {l : LocalBlock} (h : l.Sound b)
    (hblk : l.files.blk = none) :
    ∃ m lc, l.files.evictionMarker = some m ∧ validateEvictionMarker m b = .ok () ∧
      l.classify b = .ok lc ∧ lc.lifecycle = ⟨.evicted, some m⟩ := by
  obtain ⟨m, hm⟩ := Option.isSome_iff_exists.mp (h.evicted hblk)
  have hidx : l.files.idx.isNone = false := by simpa using h.idx
  have hfiles : l.files.classify b = .ok ⟨.evicted, some m⟩ := by
    simp [BlockFiles.classify, hidx, hm, h.eviction m hm, hblk, classifyState]
  cases hr : l.restoreMarker with
  | none =>
    exact ⟨m, ⟨⟨.evicted, some m⟩, none⟩, hm, h.eviction m hm,
      by simp [LocalBlock.classify, hfiles, hr], rfl⟩
  | some marker =>
    exact ⟨m, ⟨⟨.evicted, some m⟩, some marker⟩, hm, h.eviction m hm,
      by simp [LocalBlock.classify, hfiles, hr, h.restore marker hr], rfl⟩

/-- From a Block that was never restored and has its two files, any sequence of eviction applies,
restore publications and marker cleanups, each cut anywhere, leaves a Block whose missing `.blk` has
a valid eviction marker, and whose restored `.blk` has its restore marker. -/
theorem evicted_or_present {b : UInt64} {start l : LocalBlock} (hidx : start.files.idx.isSome)
    (hblk : start.files.blk.isSome) (hstart : start.restored = false)
    (heviction : ∀ m, start.files.evictionMarker = some m → validateEvictionMarker m b = .ok ())
    (hrestore : ∀ m, start.restoreMarker = some m → validateRestoreMarker m b = .ok ())
    (hrun : Reached FileStep.run (LifecycleOp b) start l) :
    (l.files.blk = none → ∃ m lc, l.files.evictionMarker = some m ∧
      validateEvictionMarker m b = .ok () ∧ l.classify b = .ok lc ∧
      lc.lifecycle = ⟨.evicted, some m⟩) ∧
    (l.restored = true → ∃ m, l.restoreMarker = some m ∧ validateRestoreMarker m b = .ok ()) := by
  have hsound : start.Sound b :=
    { idx := hidx
      eviction := heviction
      restore := hrestore
      evicted := fun hnone => by simp [hnone] at hblk
      marked := fun htrue => nomatch hstart.symm.trans htrue }
  have h : l.Sound b := Reached.invariant hsound (fun _ _ hs hop => hop.stands hs) hrun
  refine ⟨h.classify_evicted, fun hrestored => ?_⟩
  obtain ⟨m, hm⟩ := Option.isSome_iff_exists.mp (h.marked hrestored)
  exact ⟨m, hm, h.restore m hm⟩

def uploadedBlock : LocalBlock :=
  ⟨⟨some newBlkFile, some newIndexFile, none, none, none, none⟩, none, none, false⟩

def uploadedRecord : ConfirmedUpload :=
  ⟨1, 7, 50, 40, 0, ⟨"blocks/1.blk", 40, "token"⟩, ⟨"blocks/1.idx", 8, "token"⟩⟩

def uploadedEviction : List FileStep :=
  (uploadedBlock.applyEvictionBlock 7 0 ⟨0, ""⟩ ⟨1, 7, 40, "blocks/1.blk"⟩ (some uploadedRecord)
    ⟨false, 60, false, 61, 62, 63, false⟩).2

/-- An eviction cut right behind the unlink, and a restore of it cut right behind the rename. -/
theorem evicted_or_present_cut :
    let gone := runSteps FileStep.run (uploadedEviction.take 2) uploadedBlock
    let back := runSteps FileStep.run
      ((publishRestoredBlock 1 newBlkFile ⟨0, 0, 70, "backend", "read"⟩).take 2) gone
    (gone.files.blk = none ∧ ∃ lc, gone.classify 1 = .ok lc ∧ lc.lifecycle.state = .evicted) ∧
      back.files.blk = some newBlkFile ∧ ∃ m, back.restoreMarker = some m := by
  have hgone : Reached FileStep.run (LifecycleOp 1) uploadedBlock
      (runSteps FileStep.run (uploadedEviction.take 2) uploadedBlock) :=
    Reached.cut 2 Reached.start (LifecycleOp.evict 7 0 _ _ _ _ rfl)
  have hback := Reached.cut 2 hgone (LifecycleOp.publish newBlkFile ⟨0, 0, 70, "backend", "read"⟩)
  have heviction : ∀ m, uploadedBlock.files.evictionMarker = some m →
      validateEvictionMarker m 1 = .ok () := by simp [uploadedBlock]
  have hrestore : ∀ m, uploadedBlock.restoreMarker = some m →
      validateRestoreMarker m 1 = .ok () := by simp [uploadedBlock]
  have hevicted := evicted_or_present rfl rfl rfl heviction hrestore hgone
  have hrestored := evicted_or_present rfl rfl rfl heviction hrestore hback
  obtain ⟨m, lc, -, -, hclassify, hlc⟩ := hevicted.1 (by decide +kernel)
  obtain ⟨marker, hmarker, -⟩ := hrestored.2 (by decide +kernel)
  exact ⟨⟨by decide +kernel, lc, hclassify, by rw [hlc]⟩, by decide +kernel, marker, hmarker⟩

end Scrap
