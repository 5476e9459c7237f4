/-
# The content scanner of a Member

`scannerCoordinator` gives the scan scheduler every `.blk` of the directory but that of the open
Block, whose ID it reads first, and the engine opens a listed Block when it is its turn. The
watermark treats a Block ID that it has passed as done for good, and a Block that is not listed as
gone. Neither need be so: the previous Block can be opened again by a stream and grow
(`reopened_block_unscanned`), and a Block that is sealed between the two readings of a listing is
missing from it.

`ScanEvent.Leaves` excludes the two (`watermark_covers_documents`).

`passed` is a ghost: all bytes the engine was given, with the version of the run.
-/
import Scrap.Avscan.Frontier
import Scrap.Block.Reader
import Scrap.Shard.EvictedAuthority
import Scrap.Shard.RestoreScan
import Scrap.Shard.SealProposals

namespace Scrap

open Block Crash Fallible Function

/-! ## The machine -/

structure PassedBytes where
  version : String
  blockID : UInt64
  blk : BlkFile
deriving DecidableEq

structure ScanMember where
  member : EvictingMember
  /-- what phase B of the Openlog recovery will look at -/
  candidates : List TruncationCandidate
  scheduler : Avscan.Scheduler
  /-- `ListSealedBlocks` has read the ID of the open Block -/
  openBlockID : Option UInt64
  /-- what the engine has read of the Block whose turn it is -/
  reading : Option BlkFile
  passed : List PassedBytes

namespace ScanMember

def start (s : Shard) : ScanMember :=
  ⟨⟨s, fun _ => none, fun _ => none, fun _ => false⟩, [], .start true, none, none, []⟩

def shard (x : ScanMember) : Shard := x.member.shard

def withShard (x : ScanMember) (s : Shard) : ScanMember :=
  { x with member := { x.member with shard := s } }

def pending (x : ScanMember) (b : UInt64) : Bool := (x.member.localBlock b).restorePendingScan b

def currentOpenBlockID (x : ScanMember) : UInt64 := x.shard.blockWriter.elim 0 (·.blockID)

/-- `ListSealedBlocks`, when the directory has the Block IDs `ids`. -/
def listSealedBlocks (x : ScanMember) (openBlockID : UInt64) (ids : List UInt64) :
    List Avscan.Block :=
  (ids.filter fun b => b ≠ openBlockID ∧ (x.shard.blocks b).blk.isSome).map
    fun b => ⟨b, x.pending b⟩

end ScanMember

/-- The listing that a run is answered with is this one. -/
def lists (env : Avscan.StartEnv) (blocks : List Avscan.Block) : Bool :=
  match env.listing with
  | .error _ => true
  | .ok listing => listing.blocks = blocks

/-- A scan does not succeed before the engine has read the Block. -/
def engineAnswer (reading : Option BlkFile) (env : Avscan.BlockEnv) : Avscan.BlockEnv :=
  match reading with
  | some _ => env
  | none =>
    { env with
      scan := match env.scan with
        | .ok _ => .error .scanFailed
        | .error err => .error err }

namespace ScanMember

/-- The Block whose turn it is, with the version of the run. -/
def turn (x : ScanMember) : Option (String × Avscan.Block) :=
  match x.scheduler.phase with
  | .scanning _ _ progress (block :: _) _ => some (progress.signatureVersion, block)
  | _ => none

/-- The engine opens the Block whose turn it is and reads it. -/
def scanBlock (x : ScanMember) : ScanMember :=
  match x.turn with
  | none => x
  | some (version, block) =>
    match (x.shard.blocks block.blockID).blk with
    | none => x
    | some f => { x with reading := some f, passed := ⟨version, block.blockID, f⟩ :: x.passed }

def succeeded (x : ScanMember) (env : Avscan.BlockEnv) : Option Avscan.Block :=
  match x.turn with
  | none => none
  | some (_, block) =>
    if env.waitErr = none ∧ (x.scheduler.scanOne env block).1 = none then some block else none

def recordRestoreScan (x : ScanMember) (b : UInt64) (scannedAtUs : Int) : ScanMember :=
  if scannedAtUs ≤ 0 then x
  else
    match x.member.restoreMarker b with
    | none => x
    | some marker =>
      match validateRestoreMarker marker b with
      | .error _ => x
      | .ok () =>
        { x with member := { x.member with
            restoreScanRecord := update x.member.restoreScanRecord b
              (some ⟨markerVersion, b, marker.restoredAtUs, scannedAtUs⟩) } }

/-- `RecordRestoredBlockScanned`, for a restored Block that was scanned. -/
def recorded (x : ScanMember) (env : Avscan.BlockEnv) (scannedAtUs : Int) : ScanMember :=
  match x.succeeded env with
  | none => x
  | some block => if block.restored then x.recordRestoreScan block.blockID scannedAtUs else x

def scanNext (x : ScanMember) (env : Avscan.BlockEnv) (scannedAtUs : Int) : ScanMember :=
  let env := engineAnswer x.reading env
  { (x.recorded env scannedAtUs) with scheduler := x.scheduler.scanNext env, reading := none }

def restarted (x : ScanMember) (ids : List UInt64) : ScanMember :=
  { (x.withShard (after (openShard ids) x.shard)) with
    candidates :=
      match (openShard ids).run x.shard with
      | .ok candidates _ => candidates
      | .error _ _ => []
    scheduler := x.scheduler.step (.restart true)
    openBlockID := none
    reading := none }

end ScanMember

inductive ScanEvent where
  /-- a call of the Member; a restart is one of the whole process -/
  | call (member : MemberCall)
  | entry (e : LogEntry)
  /-- phase B of the Openlog recovery -/
  | recover
  /-- an eviction, a restore or a cleanup gets as far as its `n`-th step -/
  | files (op : FileOp) (n : Nat)
  /-- a listing begins -/
  | readOpen
  /-- `RunOnce` up to its loop; the directory has the Block IDs `ids` -/
  | runOnce (env : Avscan.StartEnv) (ids : List UInt64)
  | scanBlock
  | scanNext (env : Avscan.BlockEnv) (scannedAtUs : Int)

def ScanEvent.run (c : Crypto) : ScanEvent → EStateM ShardErr ScanMember Unit
  | .call (.restart ids) => modify (·.restarted ids)
  | .call member => modify fun x => x.withShard (after (member.run c) x.shard)
  | .entry e => fun x =>
    match (e.apply c).run x.shard with
    | .ok () s => .ok () (x.withShard s)
    | .error err s => .error err (x.withShard s)
  | .recover => modify fun x =>
    { (x.withShard (after (resolveOpenlogTruncations x.candidates) x.shard)) with
      candidates := [] }
  | .files op n => modify fun x =>
    let l := x.member.localBlock op.blockID
    { x with
      member := x.member.setLocalBlock op.blockID
        (runSteps FileStep.run ((op.steps x.shard.shardID l).take n) l) }
  | .readOpen => modify fun x => { x with openBlockID := some x.currentOpenBlockID }
  | .runOnce env ids => modify fun x =>
    match x.openBlockID with
    | none => x
    | some openBlockID =>
      if lists env (x.listSealedBlocks openBlockID ids) then
        { x with scheduler := x.scheduler.step (.runOnce env), openBlockID := none }
      else x
  | .scanBlock => modify (·.scanBlock)
  | .scanNext env scannedAtUs => modify (·.scanNext env scannedAtUs)

/-! ## The condition -/

def MemberCall.opens (s : Shard) : MemberCall → List UInt64
  | .restart ids => [scanMaxBlockID ids]
  | call => s.nextBlockID :: (MemberStep.call call).target?.toList

/-- The event opens no Block that the scanner has reached, and lists all that is there. -/
def ScanEvent.Leaves (x : ScanMember) : ScanEvent → Prop
  | .call member => ∀ b ∈ member.opens x.shard, x.scheduler.reaches b = false
  | .entry _ => x.scheduler.reaches x.shard.nextBlockID = false
  | .files (.publish b f marker) _ =>
    -- a restore has a generation of its own, and brings no bytes that a scan of the Block that is
    -- in progress has not read
    (∀ record, x.member.restoreScanRecord b = some record →
      record.restoredAtUs ≠ marker.restoredAtUs) ∧
    ∀ version block g, x.turn = some (version, block) → block.blockID = b → x.reading = some g →
      f.frames <+: g.frames
  | .runOnce env _ => ∀ listing, env.listing = .ok listing →
      -- the open Block is above the listed ones, and every Block below the last of them is listed
      (∀ w, x.shard.blockWriter = some w → Avscan.maxListedBlockID listing.blocks < w.blockID) ∧
      ∀ b, b ≤ Avscan.maxListedBlockID listing.blocks → (x.shard.blocks b).blk.isSome →
        listing.listed b = true
  | _ => True

/-! ## The invariant -/

namespace ScanMember

/-- The engine was given these Frames under the version. -/
def Passed (x : ScanMember) (v : String) (b : UInt64) (f : BlkFile) : Prop :=
  ∃ p ∈ x.passed, p.version = v ∧ p.blockID = b ∧ f.frames <+: p.blk.frames

/-- The Block is closed, and what it has was passed or waits for the scan of a restore. -/
def Clean (x : ScanMember) (v : String) (b : UInt64) : Prop :=
  x.shard.isOpen b = false ∧
    ∀ f, (x.shard.blocks b).blk = some f → x.pending b = true ∨ x.Passed v b f

structure Sound (x : ScanMember) : Prop where
  zero : (x.shard.blocks 0).blk = none
  clears : x.scheduler.Clears x.Clean
  /-- the Blocks that a run lists are closed -/
  listed : ∀ env listing progress blocks firstErr,
    x.scheduler.phase = .scanning env listing progress blocks firstErr →
      ∀ b, b ≤ Avscan.maxListedBlockID listing.blocks → x.shard.isOpen b = false
  /-- the engine has read what the Block whose turn it is still has -/
  reading : ∀ g, x.reading = some g → ∃ v block, x.turn = some (v, block) ∧
    x.Passed v block.blockID g ∧
      ∀ f, (x.shard.blocks block.blockID).blk = some f → f.frames <+: g.frames

variable {x y : ScanMember} {v : String} {b : UInt64} {f g : BlkFile}

theorem Passed.initial (h : x.Passed v b g) (hfg : f.frames <+: g.frames) : x.Passed v b f := by
  obtain ⟨p, hp, hv, hb, hg⟩ := h
  exact ⟨p, hp, hv, hb, hfg.trans hg⟩

theorem Sound.closed (h : x.Sound) (hb : x.scheduler.reaches b = true) : x.shard.isOpen b = false := by
  rcases h.clears.of_reaches hb with hclean | ⟨_, _, _, _, _, hphase, hle⟩
  · exact hclean.1
  · exact h.listed _ _ _ _ _ hphase b hle

theorem turn_scanning (h : x.turn = some (v, block)) : ∃ env listing progress rest firstErr,
    x.scheduler.phase = .scanning env listing progress (block :: rest) firstErr ∧
      progress.signatureVersion = v := by
  unfold turn at h
  split at h
  next env listing progress block' rest firstErr hphase =>
    cases h
    exact ⟨_, _, _, _, _, hphase, rfl⟩
  next => cases h

end ScanMember

variable {block : Avscan.Block} {f : BlkFile} {s : Shard} {b : UInt64}

theorem Avscan.le_maxListedBlockID {blocks : List Avscan.Block} (h : block ∈ blocks) :
    block.blockID ≤ maxListedBlockID blocks := by
  have hfold : ∀ (blocks : List Avscan.Block) (m : UInt64),
      m ≤ blocks.foldl (fun m b => if m < b.blockID then b.blockID else m) m ∧
        ∀ block ∈ blocks, block.blockID ≤
          blocks.foldl (fun m b => if m < b.blockID then b.blockID else m) m := by
    intro blocks
    induction blocks with
    | nil => exact fun m => ⟨UInt64.le_refl _, nofun⟩
    | cons first rest ih =>
      intro m
      have hnext : m ≤ (if m < first.blockID then first.blockID else m) ∧
          first.blockID ≤ (if m < first.blockID then first.blockID else m) := by
        split
        next hlt => exact ⟨UInt64.le_of_lt hlt, UInt64.le_refl _⟩
        next hnot => exact ⟨UInt64.le_refl _, UInt64.not_lt.mp hnot⟩
      obtain ⟨hle, hall⟩ := ih (if m < first.blockID then first.blockID else m)
      refine ⟨UInt64.le_trans hnext.1 hle, fun block hblock => ?_⟩
      rcases List.mem_cons.mp hblock with rfl | hblock
      · exact UInt64.le_trans hnext.2 hle
      · exact hall block hblock
  exact (hfold blocks 0).2 block h

/-! ## The steps of the Shard -/

/-- `b` is closed in `t`, and has no Frame that it did not have in `s`. -/
def Shard.Shrinks (b : UInt64) (s t : Shard) : Prop :=
  t.isOpen b = false ∧ ∀ f, (t.blocks b).blk = some f →
    ∃ f', (s.blocks b).blk = some f' ∧ f.frames <+: f'.frames

theorem Shard.Stays.shrinks {t : Shard} (h : s.Stays b t) : s.Shrinks b t :=
  ⟨h.1, fun f hf => ⟨f, h.2 ▸ hf, List.prefix_rfl⟩⟩

theorem truncateFile_initial {o : Option BlkFile} {size : Nat} (h : truncateFile o size = some f) :
    ∃ f', o = some f' ∧ f.frames <+: f'.frames := by
  cases o with
  | none => cases h
  | some f' => ?_
  refine ⟨f', rfl, ?_⟩
  rw [← Option.some.inj h]
  split
  · exact List.prefix_rfl
  · exact cutFrames_initial _ _

theorem resolveOpenlogTruncations_shrinks (h : s.isOpen b = false)
    (cands : List TruncationCandidate) :
    s.Shrinks b (after (resolveOpenlogTruncations cands) s) := by
  have hkeeps : Keeps (s.Shrinks b) (resolveOpenlogTruncations cands) := by
    refine resolveOpenlogTruncations_keeps (fun _ _ ht => ht) fun cand hmem t ht => ?_
    refine ⟨ht.1, fun f hf => ?_⟩
    by_cases hb : b = cand.blockID
    · subst hb
      have hcut : truncateFile (t.blocks cand.blockID).blk cand.startOffset = some f := by
        simpa [Shard.setBlk, Shard.setBlock] using hf
      obtain ⟨f₁, hf₁, hinit⟩ := truncateFile_initial hcut
      obtain ⟨f₀, hf₀, hinit₀⟩ := ht.2 f₁ hf₁
      exact ⟨f₀, hf₀, hinit.trans hinit₀⟩
    · exact ht.2 f (by simpa [Shard.setBlk, Shard.setBlock, hb] using hf)
  exact hkeeps s ⟨h, fun f hf => ⟨f, hf, List.prefix_rfl⟩⟩

theorem MemberCall.shrinks {c : Crypto} {call : MemberCall} (h : s.isOpen b = false)
    (hopens : b ∉ call.opens s) : s.Shrinks b (after (call.run c) s) := by
  by_cases hr : (MemberStep.call call).restarts = true
  · cases call with
    | restart ids =>
      have hb : scanMaxBlockID ids ≠ b := fun heq => hopens (by simp [MemberCall.opens, heq])
      exact (openShard_rests hb).stays.shrinks
    | _ => cases hr
  · have hopens' : b ∉ s.nextBlockID :: (MemberStep.call call).target?.toList := by
      cases call with
      | restart ids => exact absurd rfl hr
      | _ => exact hopens
    have hspares : (MemberStep.call call).Spares s b := by
      simp only [List.mem_cons, Option.mem_toList, not_or] at hopens'
      exact ⟨Ne.symm hopens'.1, hopens'.2⟩
    exact (MemberCall.rests h hspares (by simpa using hr)).stays.shrinks

namespace ScanMember

variable {x : ScanMember}

theorem Sound.withShard (h : x.Sound) {t : Shard} (hshrinks : ∀ b,
    x.scheduler.reaches b = true → x.shard.isOpen b = false → x.shard.Shrinks b t) :
    (x.withShard t).Sound := by
  have hreached : ∀ b, x.scheduler.reaches b = true → x.shard.Shrinks b t :=
    fun b hb => hshrinks b hb (h.closed hb)
  refine ⟨?_, h.clears.mono fun b hb hclean => ?_, fun env listing progress blocks err hphase b hb => ?_,
    fun g hg => ?_⟩
  · have hzero := hreached 0 (by simp [Avscan.Scheduler.reaches])
    cases hf : (t.blocks 0).blk with
    | none => exact hf
    | some f =>
      obtain ⟨f', hf', -⟩ := hzero.2 f hf
      exact absurd (h.zero.symm.trans hf') (by simp)
  · refine ⟨(hreached b hb).1, fun f hf => ?_⟩
    obtain ⟨f', hf', hinit⟩ := (hreached b hb).2 f hf
    exact (hclean.2 f' hf').imp id fun hpassed => hpassed.initial hinit
  · exact (hreached b (by simp [Avscan.Scheduler.reaches, show x.scheduler.phase = _ from hphase, hb])).1
  · obtain ⟨v, block, hturn, hpassed, hread⟩ := h.reading g hg
    refine ⟨v, block, hturn, hpassed, fun f hf => ?_⟩
    obtain ⟨env, listing, progress, rest, firstErr, hphase, -⟩ := turn_scanning hturn
    have hlisted : block ∈ listing.blocks := (h.clears.run _ _ _ _ _ hphase).2 List.mem_cons_self
    have hb := Avscan.le_maxListedBlockID hlisted
    obtain ⟨f', hf', hinit⟩ := (hreached block.blockID
      (by simp [Avscan.Scheduler.reaches, hphase, hb])).2 f hf
    exact hinit.trans (hread f' hf')

theorem Sound.restarted (h : x.Sound) {ids : List UInt64}
    (hopens : x.scheduler.reaches (scanMaxBlockID ids) = false) : (x.restarted ids).Sound := by
  have hshard : (x.withShard (after (openShard ids) x.shard)).Sound := by
    refine h.withShard fun b hb _ => ?_
    have hne : scanMaxBlockID ids ≠ b := by
      rintro rfl
      rw [hb] at hopens
      cases hopens
    exact (openShard_rests hne).stays.shrinks
  exact ⟨hshard.zero, hshard.clears.restart, (fun _ _ _ _ _ hphase => nomatch hphase), nofun⟩

end ScanMember

/-! ## The file operations -/

theorem LocalBlock.restorePendingScan_marked {l : LocalBlock} {marker : RestoreMarker}
    (hm : l.restoreMarker = some marker)
    (hgen : ∀ record, l.restoreScanRecord = some record →
      record.restoredAtUs ≠ marker.restoredAtUs) : l.restorePendingScan b = true := by
  unfold LocalBlock.restorePendingScan
  rw [hm]
  simp only
  cases validateRestoreMarker marker b with
  | error err => rfl
  | ok u => ?_
  cases hr : l.restoreScanRecord with
  | none => rfl
  | some record => ?_
  simp only
  cases validateRestoreScanRecord record b with
  | error err => rfl
  | ok u => simpa using hgen record hr

section Files

variable {l : LocalBlock} {shardID : UInt64}

/-- What a file operation may leave: a `.blk` that waits for its scan, or the one that was there, as
pending as before. -/
def LocalBlock.Guards (b : UInt64) (l k : LocalBlock) : Prop :=
  ∀ f, k.files.blk = some f → k.restorePendingScan b = true ∨
    (l.files.blk = some f ∧ k.restorePendingScan b = l.restorePendingScan b)

theorem FileOp.stands_guards (op : FileOp) (hgen : ∀ b f marker, op = .publish b f marker →
    ∀ record, l.restoreScanRecord = some record → record.restoredAtUs ≠ marker.restoredAtUs) :
    Stands FileStep.run (l.Guards op.blockID) (op.steps shardID l) l := by
  have hsame : l.Guards op.blockID l := fun f hf => .inr ⟨hf, rfl⟩
  cases op with
  | evict windowSeconds plan selected r =>
    obtain ⟨pre, post, hsteps, hpre, hpost⟩ := l.applyEvictionBlock_steps shardID windowSeconds
      plan selected l.files.confirmedUploadAuthority r
    simp only [FileOp.steps, hsteps]
    have hunlink : ∀ k : LocalBlock, l.Guards selected.blockID k →
        (∀ f, k.files.blk = some f → l.files.blk = some f ∧
          k.restorePendingScan selected.blockID = l.restorePendingScan selected.blockID) →
        Stands FileStep.run (l.Guards selected.blockID) post k := by
      intro k hk hkeep
      have hgone : ∀ k' : LocalBlock, k'.files.blk = none → l.Guards selected.blockID k' := by
        intro k' hnone f hf
        rw [hnone] at hf
        cases hf
      rcases hpost with rfl | rfl | rfl
      · exact stands_nil.mpr hk
      · exact stands_cons.mpr ⟨hk, stands_nil.mpr fun f hf => .inr (hkeep f hf)⟩
      · exact stands_cons.mpr ⟨hk, stands_cons.mpr ⟨hgone _ rfl, stands_cons.mpr
          ⟨hgone _ rfl, stands_nil.mpr (hgone _ rfl)⟩⟩⟩
    rcases hpre with rfl | ⟨m, rfl⟩
    · exact hunlink l hsame fun f hf => ⟨hf, rfl⟩
    · exact stands_cons.mpr ⟨hsame, hunlink _ (fun f hf => .inr ⟨hf, rfl⟩) fun f hf => ⟨hf, rfl⟩⟩
  | publish b f marker =>
    simp only [FileOp.steps, publishRestoredBlock]
    split
    · exact stands_nil.mpr hsame
    have hmarked : ∀ k : LocalBlock,
        k.restoreMarker = some { marker with version := markerVersion, blockID := b } →
        k.restoreScanRecord = l.restoreScanRecord → l.Guards b k := by
      intro k hm hr f' _
      refine .inl (LocalBlock.restorePendingScan_marked hm fun record hrecord => ?_)
      exact hgen b f marker rfl record (hr ▸ hrecord)
    exact stands_cons.mpr ⟨hsame, stands_cons.mpr ⟨hmarked _ rfl rfl, stands_cons.mpr
      ⟨hmarked _ rfl rfl, stands_nil.mpr (hmarked _ rfl rfl)⟩⟩⟩
  | cleanup b =>
    simp only [FileOp.steps, LocalBlock.cleanupHotMarker]
    split
    · exact stands_nil.mpr hsame
    · split
      · exact stands_cons.mpr ⟨hsame, stands_nil.mpr hsame⟩
      · exact stands_nil.mpr hsame

/-- Only a restore puts a `.blk` in place, and none of Block `0`. -/
theorem FileOp.renames {op : FileOp} (h : .renameBlk f ∈ op.steps shardID l) :
    ∃ b marker, op = .publish b f marker ∧ b ≠ 0 := by
  cases op with
  | evict windowSeconds plan selected r =>
    obtain ⟨pre, post, hsteps, hpre, hpost⟩ := l.applyEvictionBlock_steps shardID windowSeconds
      plan selected l.files.confirmedUploadAuthority r
    simp only [FileOp.steps, hsteps] at h
    rcases hpre with rfl | ⟨m, rfl⟩ <;> rcases hpost with rfl | rfl | rfl <;> simp at h
  | publish b f' marker =>
    simp only [FileOp.steps, publishRestoredBlock] at h
    split at h
    · cases h
    next hvalid =>
      obtain rfl : f = f' := by simpa using h
      refine ⟨b, marker, rfl, ?_⟩
      rintro rfl
      simp [validateRestoreMarker] at hvalid
  | cleanup b =>
    simp only [FileOp.steps, LocalBlock.cleanupHotMarker] at h
    split at h
    · cases h
    · split at h <;> simp at h

theorem FileOp.stands_blk (op : FileOp) : Stands FileStep.run
    (fun k => ∀ f, k.files.blk = some f →
      l.files.blk = some f ∨ ∃ b marker, op = .publish b f marker ∧ b ≠ 0)
    (op.steps shardID l) l := by
  refine stands_of_forall (fun f hf => .inl hf) fun step hstep k hk f hf => ?_
  cases step with
  | renameBlk g =>
    cases hf
    exact .inr (FileOp.renames hstep)
  | unlinkBlk => cases hf
  | _ => exact hk f hf

end Files

namespace ScanMember

variable {x : ScanMember}

theorem Sound.files (h : x.Sound) {op : FileOp} {n : Nat} (hcond : (ScanEvent.files op n).Leaves x)
    {k : LocalBlock} (hk : k = runSteps FileStep.run
      ((op.steps x.shard.shardID (x.member.localBlock op.blockID)).take n)
      (x.member.localBlock op.blockID)) :
    Sound { x with member := x.member.setLocalBlock op.blockID k } := by
  have hguards : (x.member.localBlock op.blockID).Guards op.blockID k := by
    rw [hk]
    refine FileOp.stands_guards op (fun b f marker hop => ?_) n
    subst hop
    exact hcond.1
  have hblk : ∀ f, k.files.blk = some f → (x.shard.blocks op.blockID).blk = some f ∨
      ∃ b marker, op = .publish b f marker ∧ b ≠ 0 := by
    rw [hk]
    exact FileOp.stands_blk op n
  -- the Block of the operation is `k`, and the others are as before
  generalize hy : ({ x with member := x.member.setLocalBlock op.blockID k } : ScanMember) = y
  have hopen : ∀ b, y.shard.isOpen b = x.shard.isOpen b := by
    rw [← hy]
    exact fun _ => rfl
  have hat : y.member.localBlock op.blockID = k := by
    rw [← hy]
    simp [EvictingMember.localBlock, EvictingMember.setLocalBlock, Shard.setBlock]
  have hother : ∀ b, b ≠ op.blockID → y.member.localBlock b = x.member.localBlock b := by
    intro b hb
    rw [← hy]
    simp [EvictingMember.localBlock, EvictingMember.setLocalBlock, Shard.setBlock, hb]
  have hfiles : ∀ b, y.shard.blocks b = (y.member.localBlock b).files := fun _ => rfl
  have hnew : ∀ b f, (y.shard.blocks b).blk = some f → (x.shard.blocks b).blk = some f ∨
      ∃ marker, op = .publish b f marker ∧ b ≠ 0 := by
    intro b f hf
    rw [hfiles] at hf
    by_cases hb : b = op.blockID
    · subst hb
      rw [hat] at hf
      rcases hblk f hf with hold | ⟨b, marker, rfl, hne⟩
      · exact .inl hold
      · exact .inr ⟨marker, rfl, hne⟩
    · rw [hother b hb] at hf
      exact .inl hf
  have hclean : ∀ b, x.Clean x.scheduler.version b → y.Clean x.scheduler.version b := by
    refine fun b hb => ⟨(hopen b).trans hb.1, fun f hf => ?_⟩
    have hpassed : x.Passed x.scheduler.version b f → y.Passed x.scheduler.version b f := by
      rw [← hy]
      exact id
    rw [hfiles] at hf
    unfold pending
    by_cases hblock : b = op.blockID
    · subst hblock
      rw [hat] at hf ⊢
      rcases hguards f hf with hpending | ⟨hold, hsame⟩
      · exact .inl hpending
      · rw [hsame]
        exact (hb.2 f hold).imp id hpassed
    · rw [hother b hblock] at hf ⊢
      exact (hb.2 f hf).imp id hpassed
  refine ⟨?_, ?_, fun env listing progress blocks err hphase b hb => ?_, fun g hg => ?_⟩
  · cases hf : (y.shard.blocks 0).blk with
    | none => rfl
    | some f =>
      rcases hnew 0 f hf with hold | ⟨-, -, hne⟩
      · exact absurd (h.zero.symm.trans hold) (by simp)
      · exact absurd rfl hne
  · have hclears := h.clears.mono fun b _ hb => hclean b hb
    rw [← hy] at hclears ⊢
    exact hclears
  · rw [hopen]
    rw [← hy] at hphase
    exact h.listed _ _ _ _ _ hphase b hb
  · have hg' : x.reading = some g := by
      rw [← hy] at hg
      exact hg
    obtain ⟨v, block, hturn, hpassed, hread⟩ := h.reading g hg'
    refine ⟨v, block, by rw [← hy]; exact hturn, by rw [← hy]; exact hpassed, fun f hf => ?_⟩
    rcases hnew _ f hf with hold | ⟨marker, rfl, -⟩
    · exact hread f hold
    · exact hcond.2 v block g hturn rfl hg'

/-! ## The steps of the scanner -/

theorem Sound.runOnce (h : x.Sound) {env : Avscan.StartEnv} {ids : List UInt64}
    (hcond : (ScanEvent.runOnce env ids).Leaves x) :
    Sound { x with scheduler := x.scheduler.step (.runOnce env), openBlockID := none } := by
  have hclosed : ∀ listing b, env.listing = .ok listing →
      b ≤ Avscan.maxListedBlockID listing.blocks → x.shard.isOpen b = false := by
    intro listing b henv hb
    cases hw : x.shard.blockWriter with
    | none => simp [Shard.isOpen, hw]
    | some w => ?_
    have habove := (hcond listing henv).1 w hw
    simp only [Shard.isOpen, hw, decide_eq_false_iff_not]
    rintro rfl
    exact absurd habove (UInt64.not_lt.mpr hb)
  have hstarted : Sound { x with
      scheduler := x.scheduler.startRun env, openBlockID := none, reading := none } := by
    refine ⟨h.zero, h.clears.startRun env (fun v => ⟨?_, fun f hf => ?_⟩)
      (fun listing henv v b hb hnot => ⟨hclosed listing b henv hb, fun f hf => ?_⟩),
      fun env' listing progress blocks err hphase b hb => ?_, by simp⟩
    · exact h.closed (by simp [Avscan.Scheduler.reaches])
    · exact absurd (h.zero.symm.trans hf) (by simp)
    · have hlisted := (hcond listing henv).2 b hb (by rw [hf]; rfl)
      rw [hnot] at hlisted
      cases hlisted
    · exact hclosed listing b (Avscan.Scheduler.startRun_listing hphase) hb
  have hidle : (∀ env' listing progress blocks firstErr,
      x.scheduler.phase ≠ .scanning env' listing progress blocks firstErr) → x.reading = none := by
    intro hphase
    cases hg : x.reading with
    | none => rfl
    | some g => ?_
    obtain ⟨v, block, hturn, -⟩ := h.reading g hg
    obtain ⟨_, _, _, _, _, hscan, -⟩ := turn_scanning hturn
    exact absurd hscan (hphase _ _ _ _ _)
  simp only [Avscan.Scheduler.step]
  split
  next => exact ⟨h.zero, h.clears, h.listed, h.reading⟩
  next hphase =>
    rw [← hidle (by simp [hphase])] at hstarted
    exact hstarted
  next hphase =>
    rw [← hidle (by simp [hphase])] at hstarted
    exact hstarted

theorem Sound.scanBlock (h : x.Sound) : x.scanBlock.Sound := by
  unfold ScanMember.scanBlock
  cases hturn : x.turn with
  | none => exact h
  | some turn => ?_
  obtain ⟨v, block⟩ := turn
  simp only
  cases hf : (x.shard.blocks block.blockID).blk with
  | none => exact h
  | some f => ?_
  refine ⟨h.zero, h.clears.mono fun b _ hb => ⟨hb.1, fun f' hf' => ?_⟩, h.listed,
    fun g hg => ⟨v, block, hturn, ?_, fun f' hf' => ?_⟩⟩
  · refine (hb.2 f' hf').imp id fun ⟨p, hp, hpassed⟩ => ?_
    exact ⟨p, List.mem_cons_of_mem _ hp, hpassed⟩
  · cases hg
    exact ⟨_, List.mem_cons_self, rfl, rfl, List.prefix_rfl⟩
  · cases hg
    cases hf.symm.trans hf'
    exact List.prefix_rfl

theorem recordRestoreScan_frame (x : ScanMember) (b : UInt64) (t : Int) :
    (x.recordRestoreScan b t).shard = x.shard ∧ (x.recordRestoreScan b t).passed = x.passed ∧
      ∀ b', b' ≠ b → (x.recordRestoreScan b t).pending b' = x.pending b' := by
  unfold recordRestoreScan
  split
  · exact ⟨rfl, rfl, fun _ _ => rfl⟩
  split
  · exact ⟨rfl, rfl, fun _ _ => rfl⟩
  split
  · exact ⟨rfl, rfl, fun _ _ => rfl⟩
  · refine ⟨rfl, rfl, fun b' hb' => ?_⟩
    simp [pending, EvictingMember.localBlock, hb']

theorem recorded_frame (x : ScanMember) (env : Avscan.BlockEnv) (t : Int) :
    (x.recorded env t).shard = x.shard ∧ (x.recorded env t).passed = x.passed ∧
      ∀ b, (∀ block, x.succeeded env = some block → b ≠ block.blockID) →
        (x.recorded env t).pending b = x.pending b := by
  unfold recorded
  cases x.succeeded env with
  | none => exact ⟨rfl, rfl, fun _ _ => rfl⟩
  | some block => ?_
  simp only
  split
  · obtain ⟨hshard, hpassed, hpending⟩ := x.recordRestoreScan_frame block.blockID t
    exact ⟨hshard, hpassed, fun b hb => hpending b (hb block rfl)⟩
  · exact ⟨rfl, rfl, fun _ _ => rfl⟩

theorem succeeded_turn {env : Avscan.BlockEnv} (h : x.succeeded env = some block) :
    ∃ v, x.turn = some (v, block) ∧ (x.scheduler.scanOne env block).1 = none := by
  unfold succeeded at h
  split at h
  · cases h
  next v block' hturn =>
    split at h
    · next hok =>
        cases h
        exact ⟨v, hturn, hok.2⟩
    · cases h

theorem Sound.scanned (h : x.Sound) {env : Avscan.BlockEnv}
    (hs : x.succeeded (engineAnswer x.reading env) = some block) :
    x.shard.isOpen block.blockID = false ∧ ∀ f, (x.shard.blocks block.blockID).blk = some f →
      x.Passed x.scheduler.version block.blockID f := by
  obtain ⟨v, hturn, hone⟩ := succeeded_turn hs
  obtain ⟨env', listing, progress, rest, err, hphase, hv⟩ := turn_scanning hturn
  obtain ⟨hrun, hsub⟩ := h.clears.run _ _ _ _ _ hphase
  have hlisted := Avscan.le_maxListedBlockID (hsub List.mem_cons_self)
  refine ⟨h.listed _ _ _ _ _ hphase _ hlisted, fun f hf => ?_⟩
  cases hg : x.reading with
  | none =>
    rw [hg] at hone
    cases hscan : env.scan <;> simp [Avscan.Scheduler.scanOne, engineAnswer, hscan] at hone
  | some g =>
    obtain ⟨v', block', hturn', hpassed, hread⟩ := h.reading g hg
    cases Option.some.inj (hturn.symm.trans hturn')
    rw [← hrun.version, hv]
    exact hpassed.initial (hread f hf)

theorem Sound.scanNext (h : x.Sound) (env : Avscan.BlockEnv) (scannedAtUs : Int) :
    (x.scanNext env scannedAtUs).Sound := by
  unfold ScanMember.scanNext
  have hscanned : ∀ block, x.succeeded (engineAnswer x.reading env) = some block →
      x.shard.isOpen block.blockID = false ∧
      ∀ f, (x.shard.blocks block.blockID).blk = some f →
        x.Passed x.scheduler.version block.blockID f := fun block hs => h.scanned hs
  generalize engineAnswer x.reading env = answer at hscanned ⊢
  obtain ⟨hshard, hpassed, hpending⟩ := x.recorded_frame answer scannedAtUs
  have hpass : ∀ b f, x.Passed x.scheduler.version b f →
      (x.recorded answer scannedAtUs).Passed x.scheduler.version b f := by
    intro b f hp
    unfold Passed
    rwa [hpassed]
  have hdone : ∀ block, x.succeeded answer = some block →
      (x.recorded answer scannedAtUs).Clean x.scheduler.version block.blockID := by
    intro block hs
    obtain ⟨hclosed, hall⟩ := hscanned block hs
    rw [← hshard] at hclosed hall
    exact ⟨hclosed, fun f hf => .inr (hpass _ f (hall f hf))⟩
  have hclean : ∀ b, x.Clean x.scheduler.version b →
      (x.recorded answer scannedAtUs).Clean x.scheduler.version b := by
    intro b hb
    by_cases hblock : ∃ block, x.succeeded answer = some block ∧ b = block.blockID
    · obtain ⟨block, hs, rfl⟩ := hblock
      exact hdone block hs
    have hsame := hpending b fun block hs hb' => hblock ⟨block, hs, hb'⟩
    unfold Clean
    rw [hshard, hsame]
    exact ⟨hb.1, fun f hf => (hb.2 f hf).imp id (hpass b f)⟩
  have hzero := h.zero
  rw [← hshard] at hzero
  refine ⟨hzero, ?_, fun env' listing progress blocks err hphase b hb => ?_, by simp⟩
  · refine (h.clears.mono fun b _ => hclean b).scanNext answer
      fun env' listing progress block rest err hphase hwait hone => hdone block ?_
    simp [succeeded, turn, hphase, hwait, hone]
  · obtain ⟨_, _, _, hold⟩ := Avscan.Scheduler.scanNext_listing hphase
    have hclosed := h.listed _ _ _ _ _ hold b hb
    rwa [← hshard] at hclosed

end ScanMember

/-! ## Runs -/

theorem ScanEvent.sound {c : Crypto} {x y : ScanMember} (event : ScanEvent) (h : x.Sound)
    (hcond : event.Leaves x) (hrun : (event.run c).run x = .ok () y) : y.Sound := by
  cases event with
  | call member =>
    cases member with
    | restart ids =>
      cases hrun
      exact h.restarted (hcond _ (by simp [MemberCall.opens]))
    | _ =>
      cases hrun
      refine h.withShard fun b hb hclosed => MemberCall.shrinks hclosed fun hopens => ?_
      have hnot := hcond b hopens
      rw [hb] at hnot
      cases hnot
  | entry e =>
    simp only [ScanEvent.run, EStateM.run] at hrun
    split at hrun
    next happly =>
      cases hrun
      refine h.withShard fun b hb hclosed => ?_
      refine (LogEntry.apply_stays hclosed ?_ happly).shrinks
      rintro rfl
      exact absurd hb (by rw [hcond]; simp)
    next => cases hrun
  | recover =>
    cases hrun
    have hsound := h.withShard fun b _ hclosed =>
      resolveOpenlogTruncations_shrinks hclosed x.candidates
    exact ⟨hsound.zero, hsound.clears, hsound.listed, hsound.reading⟩
  | files op n =>
    cases hrun
    exact h.files hcond rfl
  | readOpen =>
    cases hrun
    exact ⟨h.zero, h.clears, h.listed, h.reading⟩
  | runOnce env ids =>
    cases hrun
    simp only
    split
    · exact h
    · split
      · exact h.runOnce (show (ScanEvent.runOnce env ids).Leaves x from hcond)
      · exact h
  | scanBlock =>
    cases hrun
    exact h.scanBlock
  | scanNext env scannedAtUs =>
    cases hrun
    exact h.scanNext env scannedAtUs

theorem ScanMember.start_sound (shardID : UInt64) (uploadEnabled : Bool) :
    (ScanMember.start (Shard.fresh shardID uploadEnabled)).Sound where
  zero := rfl
  clears := by
    refine .stopped ⟨rfl, rfl, fun b hb => ?_, nofun⟩ (fun _ _ _ _ _ => nofun)
    obtain rfl : b = 0 := UInt64.le_antisymm hb UInt64.zero_le
    exact ⟨rfl, nofun⟩
  listed := fun _ _ _ _ _ hphase => nomatch hphase
  reading := nofun

theorem Block.readDocumentFrames_initial {g : BlkFile} (h : f.frames <+: g.frames) {e : IndexEntry}
    {payloads : List (List UInt8)} (hread : readDocumentFrames (some f) e = .ok payloads) :
    readDocumentFrames (some g) e = .ok payloads := by
  obtain ⟨frames, torn⟩ := g
  obtain ⟨rest, rfl⟩ := h
  by_cases hcount : 0 < e.frameCount.toNat
  · obtain ⟨fs, doc, gs, hframes, hoff, hlen, -⟩ := readDocumentFrames_split hcount hread
    obtain ⟨framesf, tornf⟩ := f
    subst hframes
    rw [(readDocumentFrames_append gs tornf hoff hlen).1] at hread
    simp only [List.append_assoc]
    rw [(readDocumentFrames_append (gs ++ rest) torn hoff hlen).1, hread]
  · have hzero : e.frameCount.toNat = 0 := by omega
    simp only [readDocumentFrames, hzero] at hread ⊢
    exact hread

/-- In every run that opens no Block the scanner has reached, and whose listings are complete, each
Document at or below the durable watermark was in bytes that the engine was given under its version,
unless its Block waits for the scan of its restore. -/
theorem watermark_covers_documents (c : Crypto) {shardID : UInt64} {uploadEnabled : Bool}
    {events : List ScanEvent} {x : ScanMember}
    (hrun : (runAll (ScanEvent.run c) events).run (.start (Shard.fresh shardID uploadEnabled)) =
      .ok () x)
    (hcond : Meets (ScanEvent.run c) (fun y event => event.Leaves y)
      (.start (Shard.fresh shardID uploadEnabled)) events) :
    ∀ w, x.scheduler.store = some w → ∀ b, b ≤ w.lastScannedBlockID → x.pending b = false →
      ∀ f, (x.shard.blocks b).blk = some f → ∀ e payloads,
        readDocumentFrames (some f) e = .ok payloads →
        ∃ p ∈ x.passed, p.version = w.lastSignatureVersionScanned ∧ p.blockID = b ∧
          readDocumentFrames (some p.blk) e = .ok payloads := by
  have hstep : ∀ event y y', y.Sound → event.Leaves y →
      (ScanEvent.run c event).run y = .ok () y' → y'.Sound :=
    fun event y y' hy hleaves hstep => event.sound hy hleaves hstep
  have hsound := Meets.invariant hstep (ScanMember.start_sound shardID uploadEnabled) hcond hrun
  intro w hw b hb hpending f hf e payloads hread
  have hdurable : x.scheduler.durable = w := by rw [Avscan.Scheduler.durable, hw]; rfl
  have hclean := hsound.clears.passes.passed b (by rw [hdurable]; exact hb)
  rw [Avscan.Scheduler.version, hdurable] at hclean
  rcases hclean.2 f hf with hwaits | ⟨p, hp, hv, hid, hinit⟩
  · rw [hpending] at hwaits
    cases hwaits
  · exact ⟨p, hp, hv, hid, readDocumentFrames_initial hinit hread⟩

/-! ## A Block that grows behind the watermark -/

/-- `x` is written to Block `1` and committed, and the next write seals the Block. -/
def sealOne : List ScanEvent :=
  [.call (.append ⟨"t", "x", "text/plain", eightByteBody⟩ none "w1" 1),
    .entry ⟨1, .commitDoc (docOfT "x" 1 40)⟩,
    .call (.prepare 64 ⟨"t", "y", "text/plain", eightByteBody⟩ (.ok ()) (.ok ()))]

def onlyOne : Avscan.Listing := ⟨[⟨1, false⟩], _, .refl _, by decide⟩

def scanOne : List ScanEvent :=
  [.readOpen, .runOnce (Avscan.quietStart "v1" onlyOne) [1, 2], .scanBlock,
    .scanNext Avscan.cleanScan 9, .scanNext Avscan.cleanScan 9]

/-- Member `2`, which has Block `1` open, streams `z` to it, and `z` is committed. -/
def growOne : List ScanEvent :=
  [.call (.stream ⟨2, 2⟩ ⟨"t", "z", "text/plain", 1, 80, 1, 8, List.replicate 32 7, [], 2, 2⟩
      eightByteBody "w3" 6 []),
    .entry ⟨2, .commitDoc (docOfT "z" 1 80)⟩]

def recordZ : IndexEntry := ⟨"t", "z", "text/plain", 1, 80, 1, 8, keylessCrypto.sha256 [], []⟩

theorem reopened_block_unscanned : ∃ x f entries,
    (runAll (ScanEvent.run keylessCrypto) (sealOne ++ scanOne ++ growOne)).run
      (.start (Shard.fresh 1 true)) = .ok () x ∧
    x.scheduler.store = some ⟨1, "v1"⟩ ∧ x.pending 1 = false ∧
    (x.shard.blocks 1).blk = some f ∧
    openIndexReader (x.shard.blocks 1).idx = .ok entries ∧ recordZ ∈ entries ∧
    readDocumentFrames (some f) recordZ = .ok [List.replicate 8 0] ∧
    ∀ p ∈ x.passed, readDocumentFrames (some p.blk) recordZ ≠ .ok [List.replicate 8 0] := by
  have hrun := outcome_ok_iff.mp (show outcome (runAll (ScanEvent.run keylessCrypto)
    (sealOne ++ scanOne ++ growOne)) (.start (Shard.fresh 1 true)) = .ok () by decide +kernel)
  exact ⟨_, blkOf [eightBytes, eightBytes], [{ recordZ with docName := "x", firstFrameOff := 40 },
    recordZ], hrun, by decide +kernel⟩

theorem watermark_covers_documents_sealed : ∃ x f p,
    (runAll (ScanEvent.run keylessCrypto) (sealOne ++ scanOne)).run
      (.start (Shard.fresh 1 true)) = .ok () x ∧
    x.scheduler.store = some ⟨1, "v1"⟩ ∧ x.pending 1 = false ∧
    (x.shard.blocks 1).blk = some f ∧ p ∈ x.passed ∧ p.version = "v1" ∧ p.blockID = 1 ∧
    readDocumentFrames (some p.blk) { recordZ with docName := "x", firstFrameOff := 40 } =
      .ok [List.replicate 8 0] := by
  have hrun := outcome_ok_iff.mp (show outcome (runAll (ScanEvent.run keylessCrypto)
    (sealOne ++ scanOne)) (.start (Shard.fresh 1 true)) = .ok () by decide +kernel)
  have hcond : Meets (ScanEvent.run keylessCrypto) (fun y event => event.Leaves y)
      (.start (Shard.fresh 1 true)) (sealOne ++ scanOne) := by
    refine ⟨fun b hb => ?_, ?_, fun b hb => ?_, trivial, fun listing hlist => ?_,
      trivial, trivial, trivial, trivial⟩
    · rw [List.mem_singleton.mp hb]
      decide +kernel
    · show Avscan.Scheduler.reaches _ _ = false
      decide +kernel
    · rw [List.mem_singleton.mp hb]
      decide +kernel
    cases hlist
    refine ⟨fun w hw => ?_, fun b hb hblk => ?_⟩
    · cases hw
      decide +kernel
    -- Block `0` has no `.blk`
    have hle : b.toNat ≤ 1 := UInt64.le_iff_toNat_le.mp hb
    obtain rfl | rfl : b = 0 ∨ b = 1 := by
      rw [← UInt64.toNat_inj, ← UInt64.toNat_inj]
      simp only [UInt64.toNat_zero, UInt64.toNat_one]
      omega
    · cases hblk
    · rfl
  have hcovers := watermark_covers_documents keylessCrypto hrun hcond ⟨1, "v1"⟩ (by decide +kernel)
    1 (by decide) (by decide +kernel) (blkOf [eightBytes]) (by decide +kernel)
    { recordZ with docName := "x", firstFrameOff := 40 } [List.replicate 8 0] (by decide +kernel)
  obtain ⟨p, hp, hv, hid, hread⟩ := hcovers
  exact ⟨_, blkOf [eightBytes], p, hrun, by decide +kernel, by decide +kernel, by decide +kernel,
    hp, hv, hid, hread⟩

end Scrap
