/-
# The swap of a rebuilt Projection

A Projection is a directory. The live one is `pebble`; a rebuild writes `pebble.rebuild-<t>`, and
the swap moves the live one to `pebble.previous-<t>` and the rebuilt one to `pebble`. After a crash
between any two calls the start of the Shard puts the directories in order
(`recoverProjectionSwapDirs`).

A Member accepts its own Raft snapshot only if the Projection's applied index covers it
(`restoreRaftSnapshot`). The rebuild copies the applied index when its bulk phase ends; a snapshot
that is taken later raises it in the live Projection alone, so the swap writes it once more, behind
the renames. In between the live directory has the older one.
-/
import Scrap.Index.Store
import Scrap.Lib.Fallible

namespace Scrap

open Fallible

/-! ## Directories -/

/-- What a complete Projection holds: its records and its `\x00applied-index\x00` key. -/
structure PebbleDir where
  idx : Index
  appliedIndex : UInt64

inductive ProjectionDir where
  | absent
  | empty
  /-- a part of the files is removed -/
  | torn
  | whole (p : PebbleDir)

structure DataDir where
  live : ProjectionDir
  /-- `pebble.previous-*` that former rebuilds have left, in the order of their names -/
  previous : List ProjectionDir
  /-- the `pebble.previous-*` of this rebuild, whose name comes last -/
  oldDir : ProjectionDir
  /-- `pebble.rebuild-*` that former rebuilds have left -/
  rebuilds : List ProjectionDir
  /-- the `pebble.rebuild-*` of this rebuild -/
  tempDir : ProjectionDir

def projectionDirMissingOrEmpty : ProjectionDir → Bool
  | .absent | .empty => true
  | .torn | .whole _ => false

/-- `index.Open`, which creates the Projection in an empty directory. -/
def openIndex : ProjectionDir → Option PebbleDir
  | .absent | .empty => some ⟨.empty, 0⟩
  | .torn => none
  | .whole p => some p

/-- `ensureShardDirs`, as far as the live Projection is concerned. -/
def ensureShardDirs (d : DataDir) : DataDir :=
  match d.live with
  | .absent => { d with live := .empty }
  | _ => d

/-- `pebble.previous-*` in the order of the names. -/
def DataDir.globPrevious (d : DataDir) : List ProjectionDir :=
  match d.oldDir with
  | .absent => d.previous
  | old => d.previous ++ [old]

/-- The newest previous Projection replaces a missing live one, and everything else is removed. -/
def recoverProjectionSwapDirs (d : DataDir) : DataDir :=
  let live :=
    match d.globPrevious.getLast?, projectionDirMissingOrEmpty d.live with
    | some newest, true => newest
    | _, _ => d.live
  ⟨live, [], .absent, [], .absent⟩

/-! ## Raft snapshots -/

structure SnapshotMember where
  shardID : UInt64
  memberHostname : String
  memberID : String

structure RaftSnapshotManifest where
  version : Int
  shardID : UInt64
  memberHostname : String
  memberID : String
  createdAtUs : Int
  appliedIndex : UInt64

def raftSnapshotManifestVersion : Int := 2

def raftSnapshotManifestMinVersion : Int := 1

inductive SnapshotErr where
  /-- `shard %d: raft snapshot has no manifest` -/
  | noManifest
  /-- `shard %d: unsupported raft snapshot manifest version %d` -/
  | unsupportedVersion (version : Int)
  /-- `shard %d: raft snapshot manifest is for shard %d` -/
  | otherShard (shardID : UInt64)
  /-- `shard %d: member %s/%s fell behind the raft retention window …` -/
  | fellBehind (memberHostname memberID : String)
  /-- `shard %d: projection unavailable while restoring raft snapshot` -/
  | projectionUnavailable
  /-- `shard %d: projection applied index %d is behind self snapshot index %d …` -/
  | behindSelfSnapshot (durable snapshot : UInt64)
deriving DecidableEq

/-- The manifest that `raftSnapshotData` writes, behind the applied index in the Projection. -/
def SnapshotMember.manifest (m : SnapshotMember) (nowUs : Int) (appliedIndex : UInt64) :
    RaftSnapshotManifest :=
  ⟨raftSnapshotManifestVersion, m.shardID, m.memberHostname, m.memberID, nowUs, appliedIndex⟩

/-- There is no durable index without a Projection. -/
def verifySelfSnapshotDurableState (durable : Option UInt64) (manifest : RaftSnapshotManifest) :
    Except SnapshotErr Unit :=
  match durable with
  | none => .error .projectionUnavailable
  | some durable =>
    if durable < manifest.appliedIndex then
      .error (.behindSelfSnapshot durable manifest.appliedIndex)
    else .ok ()

/-- `restoreRaftSnapshot` of data that parse, if there are any. -/
def restoreRaftSnapshot (m : SnapshotMember) (durable : Option UInt64)
    (data : Option RaftSnapshotManifest) : Except SnapshotErr Unit :=
  match data with
  | none => .error .noManifest
  | some manifest =>
    if manifest.version < raftSnapshotManifestMinVersion ∨
        raftSnapshotManifestVersion < manifest.version then
      .error (.unsupportedVersion manifest.version)
    else if manifest.shardID ≠ m.shardID then .error (.otherShard manifest.shardID)
    else if manifest.memberHostname = m.memberHostname ∧ manifest.memberID = m.memberID then
      verifySelfSnapshotDurableState durable manifest
    else .error (.fellBehind manifest.memberHostname manifest.memberID)

inductive RestartErr where
  /-- `shard: open index: %w` -/
  | openIndex
  /-- `raft: restore snapshot: %w` -/
  | restore (err : SnapshotErr)
deriving DecidableEq

/-- The start of a Member as far as its Projection goes: the newest snapshot that the WAL has is
restored. -/
def restart (m : SnapshotMember) (d : DataDir) (snapshot : Option RaftSnapshotManifest) :
    Except RestartErr DataDir :=
  let d := recoverProjectionSwapDirs (ensureShardDirs d)
  match openIndex d.live with
  | none => .error .openIndex
  | some p =>
    match snapshot with
    | none => .ok { d with live := .whole p }
    | some manifest =>
      match restoreRaftSnapshot m (some p.appliedIndex) (some manifest) with
      | .error err => .error (.restore err)
      | .ok () => .ok { d with live := .whole p }

/-! ## The swap -/

inductive SwapCall where
  | close
  | renameCurrent
  | syncMoved
  | reopenCurrent
  | renameRebuilt
  | syncInstalled
  | renameBack
  | reopenBack
  | openRebuilt
  | removeRebuilt
  | reopenRestored
  | persistAppliedIndex
  | removePrevious
  | syncRemoved
deriving DecidableEq

inductive SwapErr where
  /-- `shard: close current index: %w` -/
  | closeCurrent
  /-- `shard: rename current index: %w` -/
  | renameCurrent
  /-- `shard: rename current index: %w; reopen current index: %w` -/
  | renameCurrentReopen
  /-- `shard: sync data dir after moving projection: %w` -/
  | syncMoved
  /-- `shard: install rebuild index: %w` -/
  | installRebuild
  /-- `shard: install rebuild index: %w; reopen current index: %w` -/
  | installRebuildReopen
  /-- `shard: sync data dir after installing projection: %w` -/
  | syncInstalled
  /-- `shard: reopen rebuilt index: %w` -/
  | reopenRebuilt
  /-- `shard: reopen rebuilt index: %w; restore current index: %w` -/
  | reopenRebuiltRestore
  /-- `shard: restore applied index after rebuild swap: %w` -/
  | restoreAppliedIndex
  /-- `shard: sync data dir after removing previous projection: %w` -/
  | syncRemoved
deriving DecidableEq

/-- The last thing that was done before a crash. -/
inductive SwapPoint where
  | finalized
  | closed
  | moved
  | installed
  | reopened
  | repersisted
  | removingPrevious
  | removedPrevious
  | movedBack
  | removingRebuilt
  | removedRebuilt
  | reopenedBack
  | removedTemp
deriving DecidableEq

structure Swapping where
  dirs : DataDir
  /-- the handle `s.idx`, with the applied index that it has loaded -/
  idx : Option PebbleDir
  crashPoints : List (SwapPoint × DataDir)

abbrev SwapM := EStateM SwapErr Swapping

namespace Swapping

def put (point : SwapPoint) (d : DataDir) : SwapM Unit :=
  modify fun x => { x with dirs := d, crashPoints := x.crashPoints ++ [(point, d)] }

/-- `reopenProjectionLocked`: false if the call fails. -/
def reopenProjection (fails : SwapCall → Bool) (call : SwapCall) (point : SwapPoint) :
    SwapM Bool := do
  let x ← get
  match openIndex x.dirs.live with
  | none => pure false
  | some p =>
    if fails call then pure false
    else do
      put point { x.dirs with live := .whole p }
      modify fun x => { x with idx := some p }
      pure true

/-- `os.Rename(oldDir, pebbleDir)`, its error unread. A directory is not renamed to one with files.
-/
def renameBack (fails : SwapCall → Bool) : SwapM Unit := do
  let x ← get
  if fails .renameBack || !projectionDirMissingOrEmpty x.dirs.live then pure ()
  else put .movedBack { x.dirs with live := x.dirs.oldDir, oldDir := .absent }

def removeRebuilt (fails : SwapCall → Bool) : SwapM Unit := do
  let x ← get
  put .removingRebuilt { x.dirs with live := .torn }
  if fails .removeRebuilt then pure ()
  else do
    put .removingRebuilt { x.dirs with live := .empty }
    put .removedRebuilt { x.dirs with live := .absent }

def removePrevious (fails : SwapCall → Bool) : SwapM Unit := do
  let x ← get
  match x.dirs.oldDir with
  | .absent => pure ()
  | _ => do
      put .removingPrevious { x.dirs with oldDir := .torn }
      if fails .removePrevious then pure ()
      else do
        put .removingPrevious { x.dirs with oldDir := .empty }
        put .removedPrevious { x.dirs with oldDir := .absent }

def moveCurrentProjection (fails : SwapCall → Bool) : SwapM Unit := do
  let x ← get
  if fails .renameCurrent then
    if ← reopenProjection fails .reopenCurrent .closed then throw .renameCurrent
    else throw .renameCurrentReopen
  else do
    put .moved { x.dirs with live := .absent, oldDir := x.dirs.live }
    if fails .syncMoved then throw .syncMoved else pure ()

def installRebuiltProjection (fails : SwapCall → Bool) : SwapM Unit := do
  let x ← get
  if fails .renameRebuilt then do
    renameBack fails
    if ← reopenProjection fails .reopenBack .reopenedBack then throw .installRebuild
    else throw .installRebuildReopen
  else do
    put .installed { x.dirs with live := x.dirs.tempDir, tempDir := .absent }
    if fails .syncInstalled then throw .syncInstalled else pure ()

def reopenInstalledProjection (fails : SwapCall → Bool) : SwapM Unit := do
  if ← reopenProjection fails .openRebuilt .reopened then pure ()
  else do
    removeRebuilt fails
    renameBack fails
    if ← reopenProjection fails .reopenRestored .reopenedBack then throw .reopenRebuilt
    else throw .reopenRebuiltRestore

/-- The applied index of the replaced Projection is written once more if it is newer. -/
def persistAppliedIndex (fails : SwapCall → Bool) (oldWatermark : UInt64) : SwapM Unit := do
  let x ← get
  match x.idx with
  | none => pure ()
  | some p =>
    if p.appliedIndex < oldWatermark then
      if fails .persistAppliedIndex then throw .restoreAppliedIndex
      else do
        put .repersisted { x.dirs with live := .whole { p with appliedIndex := oldWatermark } }
        modify fun x => { x with idx := some { p with appliedIndex := oldWatermark } }
    else pure ()

def swapRebuiltProjection (fails : SwapCall → Bool) : SwapM Unit := do
  let x ← get
  let oldWatermark := (x.idx.map (·.appliedIndex)).getD 0
  modify fun x => { x with idx := none }
  if fails .close then throw .closeCurrent
  else do
    put .closed x.dirs
    moveCurrentProjection fails
    installRebuiltProjection fails
    reopenInstalledProjection fails
    persistAppliedIndex fails oldWatermark
    removePrevious fails
    if fails .syncRemoved then throw .syncRemoved else pure ()

/-- The rest of `doRebuild`: with no handle left the previous Projection is kept. -/
def cleanUp (fails : SwapCall → Bool) : SwapM Unit := do
  let x ← get
  put .removedTemp { x.dirs with tempDir := .absent }
  if x.idx.isNone then pure () else removePrevious fails

/-- `doRebuild` from the end of the finalize step on. -/
def doRebuild (fails : SwapCall → Bool) : SwapM Unit := do
  attempt (swapRebuiltProjection fails)
  cleanUp fails

/-- The lock is held and the rebuilt Projection is closed. -/
def start (d : DataDir) (p : PebbleDir) : Swapping := ⟨d, some p, [(.finalized, d)]⟩

end Swapping

/-- The states of the directories in the course of a swap whose calls succeed. -/
def crashPoints (d : DataDir) (p : PebbleDir) : List (SwapPoint × DataDir) :=
  (after (Swapping.doRebuild fun _ => false) (.start d p)).crashPoints

/-! ## Runs of a Member -/

inductive RebuildPhase where
  | idle
  | scanning
  /-- the applied index is copied -/
  | carried
deriving DecidableEq

structure ProjectionRun where
  dirs : DataDir
  phase : RebuildPhase
  /-- a manifest whose applied index is in the Projection already -/
  inflight : Option RaftSnapshotManifest
  /-- the newest snapshot with a record in the WAL -/
  snapshot : Option RaftSnapshotManifest

/-- The newest snapshot, if the one in flight is saved or not. -/
def ProjectionRun.newest (x : ProjectionRun) (saved : Bool) : Option RaftSnapshotManifest :=
  if saved then x.inflight.or x.snapshot else x.snapshot

/-- The rebuilt Projection takes over the applied index, if there is one. -/
def PebbleDir.carry (q p : PebbleDir) : PebbleDir :=
  if 0 < p.appliedIndex then { q with appliedIndex := p.appliedIndex } else q

/-- The finalize step completes the rebuilt Projection. -/
def DataDir.finalize (d : DataDir) (rebuilt : Index) : DataDir :=
  match d.tempDir with
  | .whole q => { d with tempDir := .whole { q with idx := rebuilt } }
  | _ => d

/-- What a Member can come to: it applies entries, takes snapshots, rebuilds its Projection, and
comes back from any crash it can start from. -/
inductive ProjectionRun.Reached (m : SnapshotMember) : ProjectionRun → Prop where
  | fresh : Reached m ⟨⟨.whole ⟨.empty, 0⟩, [], .absent, [], .absent⟩, .idle, none, none⟩
  | apply {x : ProjectionRun} {p : PebbleDir} (idx : Index) : Reached m x → x.dirs.live = .whole p →
      Reached m { x with dirs := { x.dirs with live := .whole { p with idx := idx } } }
  /-- `raftSnapshotData`; `maybeTriggerSnapshotLocked` calls it behind the newest snapshot -/
  | snapshotData {x : ProjectionRun} {p : PebbleDir} (nowUs : Int) (appliedIndex : UInt64) :
      Reached m x → x.dirs.live = .whole p →
      (∀ s ∈ x.snapshot, s.appliedIndex < appliedIndex) →
      Reached m { x with
        dirs := { x.dirs with live := .whole { p with appliedIndex := appliedIndex } }
        inflight := some (m.manifest nowUs appliedIndex) }
  /-- `persistSnapshotLocked` -/
  | saveSnapshot {x : ProjectionRun} {s : RaftSnapshotManifest} : Reached m x →
      x.inflight = some s → Reached m { x with inflight := none, snapshot := some s }
  /-- the bulk phase -/
  | prepare {x : ProjectionRun} (idx : Index) : Reached m x → x.phase = .idle → Reached m { x with
        dirs := { x.dirs with tempDir := .whole ⟨idx, 0⟩ }, phase := .scanning }
  /-- the end of `prepareRebuildProjection` -/
  | carry {x : ProjectionRun} {p q : PebbleDir} : Reached m x → x.phase = .scanning →
      x.dirs.live = .whole p → x.dirs.tempDir = .whole q →
      Reached m { x with
        dirs := { x.dirs with tempDir := .whole (q.carry p) }, phase := .carried }
  /-- the rebuild fails before the swap -/
  | abandon {x : ProjectionRun} : Reached m x →
      Reached m { x with dirs := { x.dirs with tempDir := .absent }, phase := .idle }
  | swap {x : ProjectionRun} {p q : PebbleDir} (rebuilt : Index) : Reached m x →
      x.phase = .carried → x.dirs.live = .whole p → x.dirs.tempDir = .whole q →
      Reached m { x with
        dirs := (after (Swapping.doRebuild fun _ => false)
          (.start (x.dirs.finalize rebuilt) p)).dirs
        phase := .idle }
  | crash {x : ProjectionRun} {d : DataDir} : Reached m x →
      restart m x.dirs x.snapshot = .ok d → Reached m ⟨d, .idle, none, x.snapshot⟩
  | crashInSwap {x : ProjectionRun} {p q : PebbleDir} (rebuilt : Index) {point : SwapPoint}
      {d d' : DataDir} (saved : Bool) : Reached m x → x.phase = .carried →
      x.dirs.live = .whole p → x.dirs.tempDir = .whole q →
      (point, d) ∈ crashPoints (x.dirs.finalize rebuilt) p →
      restart m d (x.newest saved) = .ok d' → Reached m ⟨d', .idle, none, x.newest saved⟩

/-! ## What the Member finds after a crash -/

variable {d : DataDir} {snapshot : Option RaftSnapshotManifest}

section Restart

variable {m : SnapshotMember}

theorem restore_own (nowUs : Int) (durable appliedIndex : UInt64) :
    restoreRaftSnapshot m (some durable) (some (m.manifest nowUs appliedIndex)) = .ok () ↔
      appliedIndex ≤ durable := by
  have hversion : ¬ ((m.manifest nowUs appliedIndex).version < raftSnapshotManifestMinVersion ∨
      raftSnapshotManifestVersion < (m.manifest nowUs appliedIndex).version) := by
    show ¬ ((2 : Int) < 1 ∨ (2 : Int) < 2)
    decide
  simp only [restoreRaftSnapshot, if_neg hversion]
  by_cases hlt : durable < appliedIndex
  · simp [SnapshotMember.manifest, verifySelfSnapshotDurableState, hlt]
  · simp [SnapshotMember.manifest, verifySelfSnapshotDurableState, hlt, UInt64.not_lt.mp hlt]

theorem restart_ok_iff {p : PebbleDir}
    (hlive : (recoverProjectionSwapDirs (ensureShardDirs d)).live = .whole p)
    (hown : ∀ s ∈ snapshot, ∃ nowUs, s = m.manifest nowUs s.appliedIndex) :
    (∃ d', restart m d snapshot = .ok d') ↔ ∀ s ∈ snapshot, s.appliedIndex ≤ p.appliedIndex := by
  unfold restart
  simp only [hlive, openIndex]
  cases snapshot with
  | none => simp
  | some s => ?_
  obtain ⟨nowUs, hs⟩ := hown s rfl
  have hrestore := restore_own (m := m) nowUs p.appliedIndex s.appliedIndex
  rw [← hs] at hrestore
  cases hres : restoreRaftSnapshot m (some p.appliedIndex) (some s) with
  | ok u => simp [hres, hrestore.mp hres]
  | error err => ?_
  have hnot : ¬ s.appliedIndex ≤ p.appliedIndex := fun hle => by simp [hrestore.mpr hle] at hres
  simp [hres, hnot]

end Restart

section Points

variable {m : SnapshotMember} {d d' : DataDir} {p q : PebbleDir} {point : SwapPoint}

/-- The rebuilt Projection is in place with the applied index that it was given first. -/
def SwapPoint.Early (point : SwapPoint) : Prop := point = .installed ∨ point = .reopened

def DataDir.found (d : DataDir) : ProjectionDir :=
  (recoverProjectionSwapDirs (ensureShardDirs d)).live

/-- The rebuilt Projection with the applied index of the one it replaces, if that is newer. -/
def PebbleDir.raise (q p : PebbleDir) : PebbleDir :=
  if q.appliedIndex < p.appliedIndex then { q with appliedIndex := p.appliedIndex } else q

theorem PebbleDir.raise_idx : (q.raise p).idx = q.idx := by
  unfold PebbleDir.raise
  split <;> rfl

theorem PebbleDir.le_raise : p.appliedIndex ≤ (q.raise p).appliedIndex := by
  unfold PebbleDir.raise
  split
  · exact UInt64.le_refl _
  · rename_i h
    exact UInt64.not_lt.mp h

theorem doRebuild_after (prev rebuilds : List ProjectionDir) (p q : PebbleDir) :
    after (Swapping.doRebuild fun _ => false)
        (.start ⟨.whole p, prev, .absent, rebuilds, .whole q⟩ p) =
      ⟨⟨.whole (q.raise p), prev, .absent, rebuilds, .absent⟩, some (q.raise p),
        [(.finalized, ⟨.whole p, prev, .absent, rebuilds, .whole q⟩),
          (.closed, ⟨.whole p, prev, .absent, rebuilds, .whole q⟩),
          (.moved, ⟨.absent, prev, .whole p, rebuilds, .whole q⟩),
          (.installed, ⟨.whole q, prev, .whole p, rebuilds, .absent⟩),
          (.reopened, ⟨.whole q, prev, .whole p, rebuilds, .absent⟩)] ++
        (if q.appliedIndex < p.appliedIndex then
          [(.repersisted, ⟨.whole (q.raise p), prev, .whole p, rebuilds, .absent⟩)] else []) ++
        [(.removingPrevious, ⟨.whole (q.raise p), prev, .torn, rebuilds, .absent⟩),
          (.removingPrevious, ⟨.whole (q.raise p), prev, .empty, rebuilds, .absent⟩),
          (.removedPrevious, ⟨.whole (q.raise p), prev, .absent, rebuilds, .absent⟩),
          (.removedTemp, ⟨.whole (q.raise p), prev, .absent, rebuilds, .absent⟩)]⟩ := by
  by_cases h : q.appliedIndex < p.appliedIndex
  · simp [after, Swapping.doRebuild, Swapping.cleanUp, Swapping.swapRebuiltProjection,
      Swapping.start, Swapping.put, Swapping.moveCurrentProjection,
      Swapping.installRebuiltProjection, Swapping.reopenInstalledProjection,
      Swapping.reopenProjection, openIndex, Swapping.persistAppliedIndex, Swapping.removePrevious,
      PebbleDir.raise, h]
  · simp [after, Swapping.doRebuild, Swapping.cleanUp, Swapping.swapRebuiltProjection,
      Swapping.start, Swapping.put, Swapping.moveCurrentProjection,
      Swapping.installRebuiltProjection, Swapping.reopenInstalledProjection,
      Swapping.reopenProjection, openIndex, Swapping.persistAppliedIndex, Swapping.removePrevious,
      PebbleDir.raise, h]

theorem DataDir.finalize_of_whole (h : d.tempDir = .whole q) (rebuilt : Index) :
    d.finalize rebuilt = { d with tempDir := .whole { q with idx := rebuilt } } := by
  rw [DataDir.finalize, h]

theorem doRebuild_dirs (hlive : d.live = .whole p) (htemp : d.tempDir = .whole q)
    (hold : d.oldDir = .absent) (rebuilt : Index) :
    (after (Swapping.doRebuild fun _ => false) (.start (d.finalize rebuilt) p)).dirs =
      { d with live := .whole (PebbleDir.raise { q with idx := rebuilt } p), tempDir := .absent } := by
  obtain ⟨live, prev, old, rebuilds, temp⟩ := d
  obtain rfl : live = .whole p := hlive
  obtain rfl : temp = .whole q := htemp
  obtain rfl : old = .absent := hold
  rw [DataDir.finalize_of_whole rfl, doRebuild_after]

theorem found_whole (p : PebbleDir) (prev : List ProjectionDir) (old : ProjectionDir)
    (rebuilds : List ProjectionDir) (temp : ProjectionDir) :
    DataDir.found ⟨.whole p, prev, old, rebuilds, temp⟩ = .whole p := by
  simp [DataDir.found, ensureShardDirs, recoverProjectionSwapDirs, projectionDirMissingOrEmpty]

theorem found_moved (p : PebbleDir) (prev rebuilds : List ProjectionDir) (temp : ProjectionDir) :
    DataDir.found ⟨.absent, prev, .whole p, rebuilds, temp⟩ = .whole p := by
  simp [DataDir.found, ensureShardDirs, recoverProjectionSwapDirs, projectionDirMissingOrEmpty,
    DataDir.globPrevious]

/-- Every state of a swap leads to the old or to the rebuilt Projection. -/
theorem crashPoints_found (hlive : d.live = .whole p) (htemp : d.tempDir = .whole q)
    (hold : d.oldDir = .absent) {rebuilt : Index}
    (hpoint : (point, d') ∈ crashPoints (d.finalize rebuilt) p) :
    (point.Early ∧ d'.found = .whole { q with idx := rebuilt }) ∨
      ¬ point.Early ∧ ∃ r, d'.found = .whole r ∧ (r.idx = p.idx ∨ r.idx = rebuilt) ∧
        p.appliedIndex ≤ r.appliedIndex := by
  obtain ⟨live, prev, old, rebuilds, temp⟩ := d
  obtain rfl : live = .whole p := hlive
  obtain rfl : temp = .whole q := htemp
  obtain rfl : old = .absent := hold
  have hnew : ∃ r, ProjectionDir.whole (PebbleDir.raise { q with idx := rebuilt } p) = .whole r ∧
      (r.idx = p.idx ∨ r.idx = rebuilt) ∧ p.appliedIndex ≤ r.appliedIndex :=
    ⟨_, rfl, .inr PebbleDir.raise_idx, PebbleDir.le_raise⟩
  have hcur : ∃ r, ProjectionDir.whole p = .whole r ∧ (r.idx = p.idx ∨ r.idx = rebuilt) ∧
      p.appliedIndex ≤ r.appliedIndex := ⟨p, rfl, .inl rfl, UInt64.le_refl _⟩
  rw [DataDir.finalize_of_whole rfl, crashPoints, doRebuild_after] at hpoint
  rcases List.mem_append.mp hpoint with hpoint | hlast
  · rcases List.mem_append.mp hpoint with hfirst | hpersist
    · simp only [List.mem_cons, List.not_mem_nil, or_false] at hfirst
      rcases hfirst with ⟨rfl, rfl⟩ | ⟨rfl, rfl⟩ | ⟨rfl, rfl⟩ | ⟨rfl, rfl⟩ | ⟨rfl, rfl⟩
      · exact .inr ⟨by simp [SwapPoint.Early], by rw [found_whole]; exact hcur⟩
      · exact .inr ⟨by simp [SwapPoint.Early], by rw [found_whole]; exact hcur⟩
      · exact .inr ⟨by simp [SwapPoint.Early], by rw [found_moved]; exact hcur⟩
      · exact .inl ⟨.inl rfl, found_whole ..⟩
      · exact .inl ⟨.inr rfl, found_whole ..⟩
    · split at hpersist
      · obtain ⟨rfl, rfl⟩ : point = .repersisted ∧ d' = _ := by simpa using hpersist
        exact .inr ⟨by simp [SwapPoint.Early], by rw [found_whole]; exact hnew⟩
      · cases hpersist
  · simp only [List.mem_cons, List.not_mem_nil, or_false] at hlast
    rcases hlast with ⟨rfl, rfl⟩ | ⟨rfl, rfl⟩ | ⟨rfl, rfl⟩ | ⟨rfl, rfl⟩
    all_goals exact .inr ⟨by simp [SwapPoint.Early], by rw [found_whole]; exact hnew⟩

end Points

/-! ## Every run -/

section Run

variable {m : SnapshotMember} {x : ProjectionRun} {p q : PebbleDir}

/-- The Projection is complete and covers the snapshots of the Member. -/
structure ProjectionRun.Covered (m : SnapshotMember) (x : ProjectionRun) : Prop where
  oldDir : x.dirs.oldDir = .absent
  live : ∃ p, x.dirs.live = .whole p ∧ ∀ s, x.snapshot = some s ∨ x.inflight = some s →
      (∃ nowUs, s = m.manifest nowUs s.appliedIndex) ∧ s.appliedIndex ≤ p.appliedIndex

theorem ProjectionRun.newest_cases {saved : Bool} {s : RaftSnapshotManifest}
    (h : s ∈ x.newest saved) : x.snapshot = some s ∨ x.inflight = some s := by
  unfold ProjectionRun.newest at h
  cases saved with
  | false => exact .inl h
  | true => ?_
  cases hin : x.inflight with
  | none =>
    rw [hin] at h
    exact .inl (by simpa using h)
  | some s' =>
    rw [hin] at h
    exact .inr (by simpa using h)

theorem restart_live {d' : DataDir} (hfound : d.found = .whole p)
    (h : restart m d snapshot = .ok d') :
    d' = ⟨.whole p, [], .absent, [], .absent⟩ := by
  have hlive : (recoverProjectionSwapDirs (ensureShardDirs d)).live = .whole p := hfound
  unfold restart at h
  simp only [hlive, openIndex] at h
  cases snapshot with
  | none => exact (Except.ok.inj h).symm
  | some s => ?_
  cases hres : restoreRaftSnapshot m (some p.appliedIndex) (some s) with
  | error err => simp [hres] at h
  | ok u =>
    simp only [hres] at h
    exact (Except.ok.inj h).symm

theorem restart_covered {d' : DataDir} (hfound : d.found = .whole p)
    (hown : ∀ s ∈ snapshot, ∃ nowUs, s = m.manifest nowUs s.appliedIndex)
    (h : restart m d snapshot = .ok d') :
    ProjectionRun.Covered m ⟨d', .idle, none, snapshot⟩ := by
  have hcovers := (restart_ok_iff hfound hown).mp ⟨d', h⟩
  obtain rfl := restart_live hfound h
  refine ⟨rfl, p, rfl, fun s hs => ?_⟩
  rcases hs with hs | hs
  · exact ⟨hown s hs, hcovers s hs⟩
  · cases hs

theorem ProjectionRun.Covered.own (h : x.Covered m) {s : RaftSnapshotManifest}
    (hs : x.snapshot = some s ∨ x.inflight = some s) :
    ∃ nowUs, s = m.manifest nowUs s.appliedIndex := by
  obtain ⟨p, -, hcover⟩ := h.live
  exact (hcover s hs).1

theorem ProjectionRun.Covered.le (h : x.Covered m) (hlive : x.dirs.live = .whole p)
    {s : RaftSnapshotManifest} (hs : x.snapshot = some s ∨ x.inflight = some s) :
    s.appliedIndex ≤ p.appliedIndex := by
  obtain ⟨p', hlive', hcover⟩ := h.live
  obtain rfl : p' = p := ProjectionDir.whole.inj (hlive'.symm.trans hlive)
  exact (hcover s hs).2

theorem DataDir.found_of_whole (h : d.live = .whole p) : d.found = .whole p := by
  obtain ⟨live, prev, old, rebuilds, temp⟩ := d
  obtain rfl : live = .whole p := h
  exact found_whole ..

theorem ProjectionRun.Reached.covered (h : x.Reached m) : x.Covered m := by
  induction h with
  | fresh => exact ⟨rfl, _, rfl, fun s hs => by rcases hs with hs | hs <;> cases hs⟩
  | apply idx _ hlive ih => exact ⟨ih.oldDir, _, rfl, fun s hs => ⟨ih.own hs, ih.le hlive hs⟩⟩
  | snapshotData nowUs appliedIndex _ hlive hlater ih =>
    refine ⟨ih.oldDir, _, rfl, fun s hs => ?_⟩
    rcases hs with hs | hs
    · exact ⟨ih.own (.inl hs), UInt64.le_of_lt (hlater s hs)⟩
    · cases hs
      exact ⟨⟨nowUs, rfl⟩, UInt64.le_refl _⟩
  | saveSnapshot _ hin ih =>
    obtain ⟨p, hlive, hcover⟩ := ih.live
    refine ⟨ih.oldDir, p, hlive, fun s hs => ?_⟩
    rcases hs with hs | hs
    · exact hcover s (.inr (hin.trans hs))
    · cases hs
  | prepare idx _ _ ih => exact ⟨ih.oldDir, ih.live⟩
  | carry _ _ _ _ ih => exact ⟨ih.oldDir, ih.live⟩
  | abandon _ ih => exact ⟨ih.oldDir, ih.live⟩
  | @swap x p q rebuilt _ _ hlive htemp ih =>
    have hdirs := doRebuild_dirs hlive htemp ih.oldDir rebuilt
    refine ⟨?_, PebbleDir.raise { q with idx := rebuilt } p, ?_, fun s hs =>
      ⟨ih.own hs, UInt64.le_trans (ih.le hlive hs) PebbleDir.le_raise⟩⟩
    · rw [hdirs]
      exact ih.oldDir
    · rw [hdirs]
  | crash _ hrestart ih =>
    obtain ⟨p, hlive, -⟩ := ih.live
    exact restart_covered (DataDir.found_of_whole hlive) (fun s hs => ih.own (.inl hs)) hrestart
  | @crashInSwap x p q rebuilt point d d' saved _ _ hlive htemp hpoint hrestart ih =>
    have hown : ∀ s ∈ x.newest saved, ∃ nowUs, s = m.manifest nowUs s.appliedIndex :=
      fun s hs => ih.own (x.newest_cases hs)
    rcases crashPoints_found hlive htemp ih.oldDir hpoint with
      ⟨-, hfound⟩ | ⟨-, r, hfound, -⟩
    · exact restart_covered hfound hown hrestart
    · exact restart_covered hfound hown hrestart

/-- The live directory has the old or the rebuilt Projection, and the newest snapshot is accepted.
-/
def Recovers (m : SnapshotMember) (old rebuilt : Index) (d : DataDir)
    (snapshot : Option RaftSnapshotManifest) : Prop :=
  (∃ p, (recoverProjectionSwapDirs (ensureShardDirs d)).live = .whole p ∧
      (p.idx = old ∨ p.idx = rebuilt)) ∧
    ∃ d', restart m d snapshot = .ok d'

/-- A crash in a swap. Only between the install and the second write of the applied index does a
snapshot taken since the copy matter. -/
theorem swap_restart_iff (h : x.Reached m) (hlive : x.dirs.live = .whole p)
    (htemp : x.dirs.tempDir = .whole q) (rebuilt : Index) {point : SwapPoint} {d : DataDir}
    (hpoint : (point, d) ∈ crashPoints (x.dirs.finalize rebuilt) p) (saved : Bool) :
    Recovers m p.idx rebuilt d (x.newest saved) ↔
      (point.Early → ∀ s ∈ x.newest saved, s.appliedIndex ≤ q.appliedIndex) := by
  have hcovered := h.covered
  have hown : ∀ s ∈ x.newest saved, ∃ nowUs, s = m.manifest nowUs s.appliedIndex :=
    fun s hs => hcovered.own (x.newest_cases hs)
  rcases crashPoints_found hlive htemp hcovered.oldDir hpoint with
    ⟨hearly, hfound⟩ | ⟨hlate, r, hfound, hidx, hle⟩
  · have hrestart := restart_ok_iff hfound hown
    constructor
    · rintro ⟨-, hok⟩ -
      exact hrestart.mp hok
    · intro hcond
      exact ⟨⟨_, hfound, .inr rfl⟩, hrestart.mpr (hcond hearly)⟩
  · refine iff_of_true ⟨⟨r, hfound, hidx⟩, (restart_ok_iff hfound hown).mpr fun s hs => ?_⟩
      fun hearly => absurd hearly hlate
    exact UInt64.le_trans (hcovered.le hlive (x.newest_cases hs)) hle

end Run

/-! ## A snapshot in the window -/

def memberOne : SnapshotMember := ⟨1, "member-1", "a"⟩

def recordT : Index := Index.empty.putEntry "t" ⟨[1], 1, false⟩

/-- A rebuild copies applied index `5`, then a snapshot is taken at `10`. -/
def snapshotInRebuild : ProjectionRun :=
  ⟨⟨.whole ⟨recordT, 10⟩, [], .absent, [], .whole ⟨recordT, 5⟩⟩, .carried, none,
    some (memberOne.manifest 2 10)⟩

theorem snapshotInRebuild_reached : snapshotInRebuild.Reached memberOne := by
  have happlied := ProjectionRun.Reached.apply recordT
    (.fresh (m := memberOne)) rfl
  have hfirst := ProjectionRun.Reached.saveSnapshot
    (.snapshotData 1 5 happlied rfl (by simp)) rfl
  have hcarried := ProjectionRun.Reached.carry
    (.prepare recordT hfirst rfl) rfl rfl rfl
  have hlater : ∀ s ∈ some (memberOne.manifest 1 5), s.appliedIndex < 10 := by
    rintro s hs
    cases hs
    decide
  exact .saveSnapshot (.snapshotData 2 10 hcarried rfl hlater) rfl

theorem snapshotInRebuild_finalize : snapshotInRebuild.dirs.finalize recordT =
    ⟨.whole ⟨recordT, 10⟩, [], .absent, [], .whole ⟨recordT, 5⟩⟩ := rfl

/-- The Member does not start from a crash behind the install. -/
theorem install_before_applied_index : ∃ d, snapshotInRebuild.Reached memberOne ∧
    (.installed, d) ∈ crashPoints (snapshotInRebuild.dirs.finalize recordT) ⟨recordT, 10⟩ ∧
    restart memberOne d (snapshotInRebuild.newest false) =
      .error (.restore (.behindSelfSnapshot 5 10)) := by
  refine ⟨⟨.whole ⟨recordT, 5⟩, [], .whole ⟨recordT, 10⟩, [], .absent⟩, snapshotInRebuild_reached,
    ?_, rfl⟩
  rw [snapshotInRebuild_finalize, crashPoints, doRebuild_after]
  simp

/-- It starts from one between the renames. -/
theorem swap_restart_moved : ∃ d,
    (.moved, d) ∈ crashPoints (snapshotInRebuild.dirs.finalize recordT) ⟨recordT, 10⟩ ∧
    Recovers memberOne recordT recordT d (snapshotInRebuild.newest false) := by
  have hpoint : (.moved, ⟨.absent, [], .whole ⟨recordT, 10⟩, [], .whole ⟨recordT, 5⟩⟩) ∈
      crashPoints (snapshotInRebuild.dirs.finalize recordT) ⟨recordT, 10⟩ := by
    rw [snapshotInRebuild_finalize, crashPoints, doRebuild_after]
    simp
  exact ⟨_, hpoint, (swap_restart_iff snapshotInRebuild_reached rfl rfl recordT hpoint false).mpr
    fun hearly => by rcases hearly with h | h <;> cases h⟩

end Scrap
