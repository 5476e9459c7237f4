/-
# The eviction marker and the confirmed upload

The eviction marker of a Block is written once, from the confirmed upload of that moment. A read of
the metadata of an evicted Block, and a restore of it, compare the marker with the confirmed upload
that stands in the Projection now, and fail as data loss when key, size or validation token differ.

The confirmed upload can change after the eviction. A rewrap, or an index append to a closed Block,
requeues the upload also on a Member that has evicted the Block; the leader uploads under a new key,
and the ConfirmUpload replaces the record here. Nothing rewrites the marker
(`confirm_outdates_marker`).
-/
import Scrap.Shard.LocalBlock
import Scrap.Shard.Obligations

namespace Scrap

open Block Crash Fallible Function

/-! ## A Member with restore markers -/

structure EvictingMember where
  shard : Shard
  restoreMarker : UInt64 → Option RestoreMarker
  restoreScanRecord : UInt64 → Option RestoreScanRecord
  restored : UInt64 → Bool

namespace EvictingMember

def localBlock (m : EvictingMember) (b : UInt64) : LocalBlock :=
  ⟨m.shard.blocks b, m.restoreMarker b, m.restoreScanRecord b, m.restored b⟩

def setLocalBlock (m : EvictingMember) (b : UInt64) (l : LocalBlock) : EvictingMember :=
  ⟨m.shard.setBlock b l.files, update m.restoreMarker b l.restoreMarker,
    update m.restoreScanRecord b l.restoreScanRecord,
    update m.restored b l.restored⟩

end EvictingMember

/-! ## Reads and restores -/

inductive LocalReadErr where
  /-- `Block %d lifecycle marker invalid with no committed ConfirmUpload` -/
  | markerInvalidUnconfirmed (field : String)
  /-- `Block %d lifecycle marker invalid` -/
  | markerInvalid (field : String)
  /-- `Block %d has no committed ConfirmUpload` -/
  | noConfirmUpload (err : UploadErr)
  /-- `Block %d restore authority mismatch` -/
  | restoreAuthority (field : String)
  /-- `Block %d local state %s` -/
  | localState (state : LifecycleState)
  /-- `Backend restore is not configured` -/
  | backendUnavailable
deriving DecidableEq

/-- `classifyReadErrorLocked`; a marker that does not parse is the only error here. -/
def Shard.classifyReadError (s : Shard) (blockID : UInt64) (field : String) : LocalReadErr :=
  match s.idx.getConfirmedUpload blockID with
  | .error _ => .markerInvalidUnconfirmed field
  | .ok _ => .markerInvalid field

/-- `ensureEvictedMetadataAuthority`, repeated by `restoreInput`: the confirmed upload that the
marker agrees with. -/
def Shard.evictedAuthority (s : Shard) (blockID : UInt64) (lifecycle : Lifecycle) :
    Except LocalReadErr ConfirmedUpload :=
  match s.idx.getConfirmedUpload blockID with
  | .error err => .error (.noConfirmUpload err)
  | .ok confirmed =>
    match validateRestoreAuthority confirmed lifecycle with
    | .error field => .error (.restoreAuthority field)
    | .ok () => .ok confirmed

def EvictingMember.ensureMetadataReadAllowed (m : EvictingMember) (blockID : UInt64) :
    Except LocalReadErr Unit :=
  match (m.localBlock blockID).classify blockID with
  | .error field =>
    -- servableDespiteInvalidMarker
    if (m.shard.blocks blockID).blk.isSome then .ok ()
    else .error (m.shard.classifyReadError blockID field)
  | .ok lc =>
    match lc.lifecycle.state with
    | .hot | .hotCleanupNeeded => .ok ()
    | .evicted =>
      match m.shard.evictedAuthority blockID lc.lifecycle with
      | .error err => .error err
      | .ok _ => .ok ()
    | .metadataLoss => .error (.localState .metadataLoss)
    | .unexpectedLoss => .error (.localState .unexpectedLoss)

/-- The confirmed upload to download, `none` for a Block that is not evicted. -/
def EvictingMember.restoreInput (m : EvictingMember) (backend : Bool) (blockID : UInt64) :
    Except LocalReadErr (Option ConfirmedUpload) :=
  match (m.localBlock blockID).classify blockID with
  | .error field => .error (m.shard.classifyReadError blockID field)
  | .ok lc =>
    if lc.lifecycle.state ≠ .evicted then .ok none
    else
      match m.shard.evictedAuthority blockID lc.lifecycle with
      | .error err => .error err
      | .ok confirmed => if backend then .ok (some confirmed) else .error .backendUnavailable

/-! ## Steps -/

inductive FileOp where
  | evict (windowSeconds : Int) (plan : EvictionPlan) (selected : PlanBlock) (r : ApplyReadings)
  | publish (blockID : UInt64) (f : BlkFile) (marker : RestoreMarker)
  | cleanup (blockID : UInt64)

def FileOp.blockID : FileOp → UInt64
  | .evict _ _ selected _ => selected.blockID
  | .publish b _ _ => b
  | .cleanup b => b

def FileOp.steps (shardID : UInt64) (l : LocalBlock) : FileOp → List FileStep
  | .evict windowSeconds plan selected r =>
    (l.applyEvictionBlock shardID windowSeconds plan selected
      l.files.confirmedUploadAuthority r).2
  | .publish b f marker => publishRestoredBlock b f marker
  | .cleanup b => l.cleanupHotMarker b

/-- A committed entry is applied, or a file operation gets as far as its `n`-th step. -/
inductive EvictionEvent where
  | entry (e : LogEntry)
  | files (op : FileOp) (n : Nat)

def EvictionEvent.run (c : Crypto) : EvictionEvent → EStateM ShardErr EvictingMember Unit
  | .entry e => fun m =>
    match (e.apply c).run m.shard with
    | .ok () s => .ok () { m with shard := s }
    | .error err s => .error err { m with shard := s }
  | .files op n => modify fun m =>
    let l := m.localBlock op.blockID
    m.setLocalBlock op.blockID (runSteps FileStep.run ((op.steps m.shard.shardID l).take n) l)

/-! ## Marker and confirmed upload -/

/-- The marker is about this object of the Backend. -/
def EvictionMarker.Names (marker : EvictionMarker) (object : BackendObjectMetadata) : Prop :=
  marker.backendKey = object.key ∧ marker.sizeBytes = object.sizeBytes ∧
    marker.validationToken = object.validationToken

theorem validateRestoreAuthority_ok {confirmed : ConfirmedUpload} {lifecycle : Lifecycle} :
    validateRestoreAuthority confirmed lifecycle = .ok () ↔
      ∃ marker, lifecycle.evictionMarker = some marker ∧ marker.Names confirmed.blockObject := by
  unfold validateRestoreAuthority EvictionMarker.Names
  cases lifecycle.evictionMarker with
  | none => simp
  | some marker => ?_
  simp only [Option.some.injEq, exists_eq_left']
  split_ifs with hkey hsize htoken
  · simp [hkey]
  · simp [hsize]
  · simp [htoken]
  · simp only [true_iff]
    exact ⟨not_not.mp hkey, not_not.mp hsize, not_not.mp htoken⟩

/-- The marker of a Block without its `.blk` names the object of `confirmed`. -/
def BlockFiles.Matches (files : BlockFiles) (confirmed : Option ConfirmedUpload) : Prop :=
  files.blk = none → ∀ marker, files.evictionMarker = some marker →
    ∃ u, confirmed = some u ∧ marker.Names u.blockObject

/-- The authority files are in the Projection, and the markers of evicted Blocks agree with
it. -/
structure Shard.Matched (s : Shard) : Prop where
  authority : ∀ b u, (s.blocks b).confirmedUploadAuthority = some u →
    s.idx.confirmedUploads b = some u
  evicted : ∀ b, (s.blocks b).Matches (s.idx.confirmedUploads b)

/-! ## File operations -/

variable {u : ConfirmedUpload} {m : EvictingMember} {lc : LocalLifecycle} {b : UInt64}

section Files

variable {confirmed : Option ConfirmedUpload} {l : LocalBlock}

theorem BlockFiles.Matches.of_blk {files : BlockFiles} (h : files.blk ≠ none) :
    files.Matches confirmed := fun hnone => absurd hnone h

theorem BlockFiles.Matches.of_unmarked {files : BlockFiles} (h : files.evictionMarker = none) :
    files.Matches confirmed := fun _ _ hm => nomatch h.symm.trans hm

theorem FileStep.run_rest (step : FileStep) (l : LocalBlock) :
    { (step.run l).files with blk := none, evictionMarker := none } =
      { l.files with blk := none, evictionMarker := none } := by
  cases step <;> rfl

theorem runSteps_rest (steps : List FileStep) (l : LocalBlock) :
    { (runSteps FileStep.run steps l).files with blk := none, evictionMarker := none } =
      { l.files with blk := none, evictionMarker := none } := by
  induction steps generalizing l with
  | nil => rfl
  | cons step steps ih => rw [runSteps_cons, ih, step.run_rest]

theorem runSteps_authority (steps : List FileStep) (l : LocalBlock) :
    (runSteps FileStep.run steps l).files.confirmedUploadAuthority =
      l.files.confirmedUploadAuthority := by
  have hrest := congrArg BlockFiles.confirmedUploadAuthority (runSteps_rest steps l)
  exact hrest

theorem classifyState_evictionMarker (blkExists : Bool) (marker : Option EvictionMarker) :
    (classifyState blkExists marker).evictionMarker = marker := by
  unfold classifyState
  split <;> rfl

/-- The preparation of an apply leaves the `.blk`, and a marker for the confirmed object. -/
theorem prepareEvictionMarkerForApply_names {plan : EvictionPlan} {nowUs : Int}
    {prepared : List FileStep} (hc : l.classify b = .ok lc)
    (hstate : lc.lifecycle.state = .hot ∨ lc.lifecycle.state = .hotCleanupNeeded)
    (hp : prepareEvictionMarkerForApply plan lc u nowUs = .ok prepared) :
    Stands FileStep.run (fun k => k.files.blk ≠ none) prepared l ∧
      ∃ marker, (runSteps FileStep.run prepared l).files.evictionMarker = some marker ∧
        marker.Names u.blockObject := by
  obtain ⟨hcleanup, hauth, rfl⟩ | ⟨hcleanup, m, -, hnames, rfl⟩ :=
    prepareEvictionMarkerForApply_ok hp
  · obtain ⟨hblk, -⟩ := LocalBlock.cleanup_files hc hcleanup
    obtain ⟨marker, hmarker, hnames⟩ := validateRestoreAuthority_ok.mp hauth
    rw [LocalBlock.classify_ok hc (by simp [hcleanup])] at hmarker
    rw [classifyState_evictionMarker] at hmarker
    exact ⟨stands_nil.mpr hblk, marker, hmarker, hnames⟩
  · obtain ⟨hblk, -⟩ := LocalBlock.hot_files hc (hstate.resolve_right hcleanup)
    exact ⟨stands_cons.mpr ⟨hblk, stands_nil.mpr hblk⟩, m, rfl, hnames⟩

theorem unlinkEvictedBlock_matches {plan : EvictionPlan} {r : ApplyReadings}
    (hblk : l.files.blk ≠ none) {marker : EvictionMarker}
    (hmarker : l.files.evictionMarker = some marker) (hnames : marker.Names u.blockObject) :
    Stands FileStep.run (fun k => k.files.Matches (some u)) (unlinkEvictedBlock plan lc u r).2
      l := by
  have hpresent : l.files.Matches (some u) := .of_blk hblk
  have hgone : ∀ k : LocalBlock, k.files.evictionMarker = some marker →
      k.files.Matches (some u) := by
    intro k hk _ marker' hmarker'
    cases hk.symm.trans hmarker'
    exact ⟨u, rfl, hnames⟩
  unfold unlinkEvictedBlock
  split_ifs
  · exact stands_nil.mpr hpresent
  · exact stands_cons.mpr ⟨hpresent, stands_nil.mpr (.of_unmarked rfl)⟩
  · exact stands_nil.mpr hpresent
  · exact stands_cons.mpr ⟨hpresent, stands_cons.mpr ⟨hgone _ hmarker, stands_cons.mpr
      ⟨hgone _ hmarker, stands_nil.mpr (hgone _ hmarker)⟩⟩⟩

theorem committedConfirmUploadAuthority_some {record : Option ConfirmedUpload}
    (h : committedConfirmUploadAuthority record b = some u) :
    record = some u := by
  cases record with
  | none => cases h
  | some v => ?_
  simp only [committedConfirmUploadAuthority] at h
  split_ifs at h
  split at h
  · cases h
  · exact h

/-- No file operation, wherever it is cut, parts the marker from the confirmed upload. -/
theorem FileOp.stands_matches (shardID : UInt64) (op : FileOp)
    (hauth : ∀ u, l.files.confirmedUploadAuthority = some u → confirmed = some u)
    (h : l.files.Matches confirmed) :
    Stands FileStep.run (fun k => k.files.Matches confirmed) (op.steps shardID l) l := by
  have hstay : Stands FileStep.run (fun k => k.files.Matches confirmed) [] l := stands_nil.mpr h
  cases op with
  | cleanup b =>
    show Stands _ _ (l.cleanupHotMarker b) l
    unfold LocalBlock.cleanupHotMarker
    split
    · exact hstay
    · split_ifs
      · exact stands_cons.mpr ⟨h, stands_nil.mpr (.of_unmarked rfl)⟩
      · exact hstay
  | publish b f marker =>
    simp only [FileOp.steps, publishRestoredBlock]
    split
    · exact hstay
    · exact stands_cons.mpr ⟨h, stands_cons.mpr ⟨h, stands_cons.mpr
        ⟨.of_blk (by simp [FileStep.run]), stands_nil.mpr (.of_unmarked rfl)⟩⟩⟩
  | evict windowSeconds plan selected r =>
    show Stands _ _ (l.applyEvictionBlock _ _ _ _ _ _).2 l
    obtain ⟨lc, u, prepared, hadmits⟩ | hnil := l.applyEvictionBlock_cases shardID windowSeconds
      plan selected l.files.confirmedUploadAuthority r
    · obtain ⟨hblk, marker, hmarker, hnames⟩ := prepareEvictionMarkerForApply_names
        hadmits.classified (evictionApplySkipReason_none hadmits.unskipped) hadmits.marker
      obtain rfl := hauth u (committedConfirmUploadAuthority_some hadmits.authority)
      rw [hadmits.apply_eq]
      refine stands_append (fun n => .of_blk (hblk n)) fun _ => ?_
      have hend := hblk prepared.length
      rw [List.take_length] at hend
      exact unlinkEvictedBlock_matches hend hmarker hnames
    · rw [hnil]
      exact hstay

end Files

theorem Shard.Matched.setBlock {s : Shard} (h : s.Matched) {files : BlockFiles}
    (hauth : files.confirmedUploadAuthority = (s.blocks b).confirmedUploadAuthority)
    (hmatch : files.Matches (s.idx.confirmedUploads b)) : (s.setBlock b files).Matched := by
  constructor
  · intro b' u hu
    by_cases hb : b' = b
    · subst hb
      exact h.authority _ u (hauth ▸ by simpa [Shard.setBlock] using hu)
    · exact h.authority b' u (by simpa [Shard.setBlock, hb] using hu)
  · intro b'
    by_cases hb : b' = b
    · subst hb
      simpa [Shard.setBlock] using hmatch
    · have hold := h.evicted b'
      simpa [Shard.setBlock, hb] using hold

theorem Shard.Matched.files (h : m.shard.Matched) (c : Crypto) (op : FileOp) (n : Nat) :
    (after (EvictionEvent.run c (.files op n)) m).shard.Matched := by
  have hauth : ∀ u, (m.localBlock op.blockID).files.confirmedUploadAuthority = some u →
      m.shard.idx.confirmedUploads op.blockID = some u := h.authority op.blockID
  have hmatch := op.stands_matches m.shard.shardID hauth (h.evicted op.blockID) n
  exact h.setBlock (runSteps_authority _ _) hmatch

/-! ## Committed entries -/

section Entries

variable {c : Crypto} {s s' t : Shard}

def Shard.SameFiles (s t : Shard) : Prop :=
  ∀ b, { t.blocks b with idx := none } = { s.blocks b with idx := none }

theorem Shard.SameFiles.closed (s : Shard) : Shard.IndexClosed s.SameFiles where
  setIdxFile := by
    intro t h b f _ f' b'
    rw [← h b']
    by_cases hb : b' = b <;> simp [Shard.setBlock, hb]
  withIndex := fun h _ => h
  cleanup := fun h _ => h

theorem Shard.SameFiles.wake (h : s.SameFiles t) (key : String) (r : Option ShardErr) :
    s.SameFiles (t.wake key r) := by
  unfold Shard.wake
  split
  · exact h
  · exact h

theorem Shard.Matched.of_same (h : s.Matched) (hfiles : s.SameFiles t)
    (hconfirmed : t.idx.confirmedUploads = s.idx.confirmedUploads) : t.Matched := by
  constructor
  · intro b u hu
    have hb := congrArg BlockFiles.confirmedUploadAuthority (hfiles b)
    rw [hconfirmed]
    exact h.authority b u (hb.symm.trans hu)
  · intro b hblk marker hmarker
    have hb := congrArg BlockFiles.blk (hfiles b)
    have hm := congrArg BlockFiles.evictionMarker (hfiles b)
    rw [hconfirmed]
    exact h.evicted b (hb.symm.trans hblk) marker (hm.symm.trans hmarker)

theorem Shard.Matched.closeIfOpen (h : s.Matched) (b : UInt64) : (s.closeIfOpen b).Matched := by
  unfold Shard.closeIfOpen
  split
  · have hset : (s.setBlock s.nextBlockID { s.blocks s.nextBlockID with
        blk := some newBlkFile, idx := some newIndexFile }).Matched :=
      h.setBlock rfl (.of_blk (by simp))
    exact ⟨hset.authority, hset.evicted⟩
  · exact h

theorem Shard.Matched.putConfirmed (h : s.Matched)
    (hnames : (s.blocks u.blockID).blk = none → ∀ marker,
      (s.blocks u.blockID).evictionMarker = some marker → marker.Names u.blockObject) :
    (s.putConfirmed u).Matched := by
  constructor
  · intro b v hv
    by_cases hb : b = u.blockID
    · subst hb
      simpa [Shard.putConfirmed, Shard.setBlock] using hv
    · have hold := h.authority b v
        (by simpa [Shard.putConfirmed, Shard.setBlock, hb] using hv)
      simpa [Shard.putConfirmed, hb] using hold
  · intro b
    by_cases hb : b = u.blockID
    · subst hb
      intro hblk marker hmarker
      exact ⟨u, by simp [Shard.putConfirmed],
        hnames (by simpa [Shard.putConfirmed, Shard.setBlock] using hblk) marker
          (by simpa [Shard.putConfirmed, Shard.setBlock] using hmarker)⟩
    · simpa [Shard.putConfirmed, Shard.setBlock, hb] using h.evicted b

/-- A ConfirmUpload that replaces the record of a Block without its `.blk` names the marker's
object. -/
def LogEntry.KeepsMarker (s : Shard) (e : LogEntry) : Prop :=
  ∀ cmd, e.cmd = .confirmUpload cmd → (s.slot cmd.blockID).Accepts cmd →
    (s.blocks cmd.blockID).blk = none →
    ∀ marker, (s.blocks cmd.blockID).evictionMarker = some marker → marker.Names cmd.blockObject

theorem Shard.Matched.withPending (h : s.Matched) (p : UInt64 → Option PendingUpload) :
    (s.withPending p).Matched := ⟨h.authority, h.evicted⟩

theorem Shard.Matched.confirm (h : s.Matched) {e : LogEntry} {cmd : ConfirmUpload}
    (hcmd : e.cmd = .confirmUpload cmd) (hkeeps : e.KeepsMarker s)
    (hrun : (applyConfirmUpload cmd).run s = .ok () s') : s'.Matched := by
  rcases applyConfirmUpload_cases hrun with ⟨u, hu, rfl⟩ | ⟨-, rfl⟩ | ⟨-, rfl⟩
  · obtain ⟨haccepts, -⟩ := (s.confirmRecord_slot cmd).1 u hu
    obtain ⟨⟨n, rfl⟩, -⟩ := Index.confirmRecord_ok hu
    exact ((h.putConfirmed (hkeeps cmd hcmd haccepts)).withPending _).closeIfOpen _
  · exact h
  · exact (h.closeIfOpen _).withPending _

theorem Shard.Matched.entry (hg : s.Good) (h : s.Matched) {e : LogEntry}
    (hkeeps : e.KeepsMarker s) (hrun : (e.apply c).run s = .ok () s') : s'.Matched := by
  have hconfirmed : (∀ cmd, e.cmd ≠ .confirmUpload cmd) →
      s'.idx.confirmedUploads = s.idx.confirmedUploads := by
    intro hother
    funext b
    by_cases hb : b = e.cmd.blockID
    · subst hb
      rcases LogEntry.apply_confirmed hg hrun with hold | ⟨cmd, n, hcmd, -⟩
      · exact hold
      · exact absurd hcmd (hother cmd)
    · have hslot := LogEntry.apply_slot hg hrun b
      rw [if_neg hb] at hslot
      exact congrArg Slot.confirmed hslot
  obtain ⟨i, cmd⟩ := e
  cases cmd with
  | commitDoc doc =>
    refine h.of_same ?_ (hconfirmed (by simp))
    obtain ⟨t, hdoc, rfl⟩ := applyCommitDocumentCommand_ok hrun
    exact ((applyCommitDocument_keeps (Shard.SameFiles.closed s) doc i).ok (fun _ => rfl)
      hdoc).wake _ _
  | rewrapDoc cmd =>
    refine h.of_same ?_ (hconfirmed (by simp))
    obtain ⟨t, key, r, rfl, ⟨rfl, -⟩ | hdoc⟩ := applyRewrapDocumentEnvelopeCommand_ok hrun
    · exact Shard.SameFiles.wake (fun _ => rfl) _ _
    · exact ((applyRewrapDocumentEnvelope_keeps (Shard.SameFiles.closed s) c cmd _).ok
        (fun _ => rfl) hdoc).wake _ _
  | sealBlock cmd =>
    have hsame := hconfirmed (by simp)
    obtain ⟨idx, -, rfl⟩ := applySealBlock_ok hrun
    have hslots := Shard.slot_closeIfOpen { s with idx := idx } cmd.blockID
    have hidx : idx.confirmedUploads = s.idx.confirmedUploads := by
      rw [← hsame]
      exact (funext fun b => congrArg Slot.confirmed (congrFun hslots b)).symm
    have hset : Shard.Matched { s with idx := idx } := h.of_same (fun _ => rfl) hidx
    exact hset.closeIfOpen _
  | confirmUpload cmd => exact h.confirm rfl hkeeps hrun

end Entries

/-! ## Runs -/

def EvictionEvent.KeepsMarker (m : EvictingMember) : EvictionEvent → Prop
  | .entry e => e.KeepsMarker m.shard
  | .files _ _ => True

theorem runSteps_idx (steps : List FileStep) (l : LocalBlock) :
    (runSteps FileStep.run steps l).files.idx = l.files.idx := by
  have hrest := congrArg BlockFiles.idx (runSteps_rest steps l)
  exact hrest

theorem EvictingMember.good_files (h : m.shard.Good) (c : Crypto) (op : FileOp) (n : Nat) :
    (after (EvictionEvent.run c (.files op n)) m).shard.Good := by
  refine h.of_same rfl (fun b => ?_) fun _ hb => hb
  have hidx := runSteps_idx ((op.steps m.shard.shardID (m.localBlock op.blockID)).take n)
    (m.localBlock op.blockID)
  show (update m.shard.blocks op.blockID _ b).idx = _
  by_cases hb : b = op.blockID
  · subst hb
    rw [update_self]
    exact hidx
  · rw [update_of_ne hb]

theorem EvictionEvent.matched {c : Crypto} {m' : EvictingMember} (ev : EvictionEvent)
    (h : m.shard.Good ∧ m.shard.Matched) (hkeeps : ev.KeepsMarker m)
    (hrun : (ev.run c).run m = .ok () m') : m'.shard.Good ∧ m'.shard.Matched := by
  cases ev with
  | entry e =>
    simp only [EvictionEvent.run, EStateM.run] at hrun
    split at hrun
    next hres =>
      cases hrun
      exact ⟨(apply_good h.1 hres).1, h.2.entry h.1 hkeeps hres⟩
    next => cases hrun
  | files op n =>
    rw [← after_of_ok hrun]
    exact ⟨EvictingMember.good_files h.1 c op n, h.2.files c op n⟩

theorem Shard.Matched.evictedAuthority (h : m.shard.Matched)
    (hc : (m.localBlock b).classify b = .ok lc) (hstate : lc.lifecycle.state = .evicted) :
    ∃ marker u, lc.lifecycle.evictionMarker = some marker ∧
      m.shard.idx.confirmedUploads b = some u ∧ marker.Names u.blockObject := by
  have hlc := LocalBlock.classify_ok hc (by simp [hstate])
  have hfiles : (m.shard.blocks b).blk = none ∧ ∃ marker,
      (m.shard.blocks b).evictionMarker = some marker := by
    rw [hlc] at hstate
    revert hstate
    show (classifyState (m.shard.blocks b).blk.isSome (m.shard.blocks b).evictionMarker).state =
      .evicted → _
    cases (m.shard.blocks b).blk <;> cases (m.shard.blocks b).evictionMarker <;>
      simp [classifyState]
  obtain ⟨hblk, marker, hmarker⟩ := hfiles
  obtain ⟨u, hu, hnames⟩ := h.evicted b hblk marker hmarker
  exact ⟨marker, u, by rw [hlc, classifyState_evictionMarker]; exact hmarker, hu, hnames⟩

theorem Shard.Matched.evictedAuthority_ne (h : m.shard.Matched)
    (hc : (m.localBlock b).classify b = .ok lc) (hstate : lc.lifecycle.state = .evicted)
    (field : String) :
    m.shard.evictedAuthority b lc.lifecycle ≠ .error (.restoreAuthority field) := by
  obtain ⟨marker, u, hmarker, hu, hnames⟩ := h.evictedAuthority hc hstate
  have hok := validateRestoreAuthority_ok.mpr ⟨marker, hmarker, hnames⟩
  unfold Shard.evictedAuthority Index.getConfirmedUpload
  by_cases hb : b = 0 <;> simp [hb, hu, hok]

theorem Shard.classifyReadError_ne (s : Shard) (b : UInt64) (f field : String) :
    s.classifyReadError b f ≠ .restoreAuthority field := by
  unfold Shard.classifyReadError
  split <;> simp

theorem Shard.Matched.metadataRead_ne (h : m.shard.Matched) (b : UInt64) (field : String) :
    m.ensureMetadataReadAllowed b ≠ .error (.restoreAuthority field) := by
  unfold EvictingMember.ensureMetadataReadAllowed
  cases hc : (m.localBlock b).classify b with
  | error f =>
    split_ifs
    · simp
    · simpa using m.shard.classifyReadError_ne b f field
  | ok lc =>
    simp only
    cases hstate : lc.lifecycle.state with
    | evicted =>
      have hne := h.evictedAuthority_ne hc hstate field
      cases hauth : m.shard.evictedAuthority b lc.lifecycle with
      | error err => simpa [hauth] using hne
      | ok u => simp
    | _ => simp

theorem Shard.Matched.restoreInput_ne (h : m.shard.Matched) (backend : Bool) (b : UInt64)
    (field : String) :
    m.restoreInput backend b ≠ .error (.restoreAuthority field) := by
  unfold EvictingMember.restoreInput
  cases hc : (m.localBlock b).classify b with
  | error f => simpa using m.shard.classifyReadError_ne b f field
  | ok lc => ?_
  by_cases hstate : lc.lifecycle.state = .evicted
  · have hne := h.evictedAuthority_ne hc hstate field
    cases hauth : m.shard.evictedAuthority b lc.lifecycle with
    | error err => simpa [hstate, hauth] using hne
    | ok u => cases backend <;> simp [hstate, hauth]
  · simp [hstate]

/-- In every run of committed entries and of evictions, restores and marker cleanups, cut anywhere,
in which a ConfirmUpload that replaces the record of a Block without its `.blk` names the marker's
object: an evicted Block has a marker for the object confirmed now, and no metadata read and no
restore fails for a mismatch of the two. -/
theorem evicted_matches_confirmed (c : Crypto) {m m' : EvictingMember}
    {events : List EvictionEvent} (hgood : m.shard.Good) (hstart : m.shard.Matched)
    (hkeeps : Meets (EvictionEvent.run c) EvictionEvent.KeepsMarker m events)
    (hrun : (runAll (EvictionEvent.run c) events).run m = .ok () m') (b : UInt64) :
    (∀ lc, (m'.localBlock b).classify b = .ok lc → lc.lifecycle.state = .evicted →
      ∃ marker u, lc.lifecycle.evictionMarker = some marker ∧
        m'.shard.idx.confirmedUploads b = some u ∧ marker.Names u.blockObject) ∧
    (∀ field, m'.ensureMetadataReadAllowed b ≠ .error (.restoreAuthority field)) ∧
    ∀ backend field, m'.restoreInput backend b ≠ .error (.restoreAuthority field) := by
  have h : m'.shard.Matched := (Meets.invariant
    (P := fun m => m.shard.Good ∧ m.shard.Matched)
    (fun ev _ _ hs hev hstep => ev.matched hs hev hstep) ⟨hgood, hstart⟩ hkeeps hrun).2
  exact ⟨fun lc hc hstate => h.evictedAuthority hc hstate, fun field => h.metadataRead_ne b field,
    fun backend field => h.restoreInput_ne backend b field⟩

/-! ## A replacement upload of an evicted Block -/

/-- A Member that has received the Frames of two Documents in Block `1`. -/
def receivingMember : EvictingMember :=
  ⟨receiveTwo (Shard.fresh 1 true), fun _ => none, fun _ => none, fun _ => false⟩

/-- Block `1` is sealed and uploaded with one of its Documents applied, and then evicted. -/
def evictUploaded : List EvictionEvent :=
  [.entry ⟨1, .commitDoc (docOfT "x" 1 40)⟩, .entry ⟨2, .sealBlock ⟨1, 1, 120, 1⟩⟩,
    .entry ⟨3, .confirmUpload ⟨1, 1, 1,
      ⟨"local/shards/0000000000000001/0000000000000001.blk", 120, "etag"⟩,
      ⟨"local/shards/0000000000000001/0000000000000001.idx", 200, "etag"⟩, 0⟩⟩,
    .files (.evict 0 ⟨0, ""⟩
      ⟨1, 1, 120, "local/shards/0000000000000001/0000000000000001.blk"⟩
      ⟨false, 60, false, 61, 62, 63, false⟩) 4]

/-- The other Document is applied, and the leader's upload of the same `.blk` under the new
generation's key is confirmed. -/
def replaceUpload : List EvictionEvent :=
  [.entry ⟨4, .commitDoc (docOfT "y" 1 80)⟩, .entry ⟨5, .confirmUpload ⟨1, 1, 2,
      ⟨"local/shards/0000000000000001/0000000000000001/generations/0000000000000004.blk", 120,
        "etag"⟩,
      ⟨"local/shards/0000000000000001/0000000000000001/generations/0000000000000004.idx", 300,
        "etag2"⟩, 4⟩⟩]

theorem receivingMember_matched : receivingMember.shard.Matched := by
  have hfiles : ∀ b, (receivingMember.shard.blocks b).confirmedUploadAuthority = none ∧
      (receivingMember.shard.blocks b).evictionMarker = none := by
    intro b
    by_cases hb : b = 1
    · subst hb
      exact ⟨rfl, rfl⟩
    · simp [receivingMember, receiveTwo, Shard.fresh, Shard.openNewBlock, Shard.emptyDir,
        BlockFiles.absent, hb]
  constructor
  · intro b u hu
    simp [(hfiles b).1] at hu
  · intro b
    exact .of_unmarked (hfiles b).2

/-- The run without the replacement meets the condition: the confirm finds the `.blk`. -/
theorem evicted_matches_confirmed_uploaded : ∃ m lc,
    (runAll (EvictionEvent.run keylessCrypto) evictUploaded).run receivingMember = .ok () m ∧
    (m.localBlock 1).classify 1 = .ok lc ∧ lc.lifecycle.state = .evicted ∧
    ∃ marker u, lc.lifecycle.evictionMarker = some marker ∧
      m.shard.idx.confirmedUploads 1 = some u ∧ marker.Names u.blockObject := by
  have hrun := outcome_ok_iff.mp
    (show outcome (runAll (EvictionEvent.run keylessCrypto) evictUploaded) receivingMember =
      .ok () by decide +kernel)
  have hblk : ((after (runAll (EvictionEvent.run keylessCrypto) (evictUploaded.take 2))
      receivingMember).shard.blocks 1).blk ≠ none := by decide +kernel
  have hkeeps : Meets (EvictionEvent.run keylessCrypto) EvictionEvent.KeepsMarker receivingMember
      evictUploaded := by
    refine ⟨nofun, nofun, ?_, trivial, trivial⟩
    intro cmd hcmd _ hnone
    cases hcmd
    exact absurd hnone hblk
  have hall := evicted_matches_confirmed keylessCrypto receiveTwo_good receivingMember_matched
    hkeeps hrun 1
  have hevicted : ∃ lc, ((after (runAll (EvictionEvent.run keylessCrypto) evictUploaded)
      receivingMember).localBlock 1).classify 1 = .ok lc ∧ lc.lifecycle.state = .evicted :=
    ⟨_, rfl, by decide +kernel⟩
  obtain ⟨lc, hc, hstate⟩ := hevicted
  exact ⟨_, lc, hrun, hc, hstate, hall.1 lc hc hstate⟩

theorem confirm_outdates_marker :
    receivingMember.shard.Good ∧ receivingMember.shard.Matched ∧ ∃ m,
      (runAll (EvictionEvent.run keylessCrypto) (evictUploaded ++ replaceUpload)).run
        receivingMember = .ok () m ∧
      ((m.localBlock 1).classify 1).toOption.map (·.lifecycle.state) = some .evicted ∧
      m.ensureMetadataReadAllowed 1 = .error (.restoreAuthority "backend key") ∧
      m.restoreInput true 1 = .error (.restoreAuthority "backend key") :=
  ⟨receiveTwo_good, receivingMember_matched, _, outcome_ok_iff.mp (by decide +kernel),
    by decide +kernel⟩

end Scrap
