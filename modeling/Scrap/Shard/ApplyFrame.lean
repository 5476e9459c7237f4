/-
# What an apply leaves alone

An apply of a CommitDocument or a RewrapDocumentEnvelope, also one that fails, touches the
`.idx` files, the Projection and the prep files: no `.blk`, no writer, no waiter. These are
the frame lemmas of the two commands, one per function.
-/
import Scrap.Shard.Apply
import Scrap.Shard.Refine

namespace Scrap

open Block Fallible

/-- The `.blk` files and the open Block are those of `s`. -/
structure Shard.SameBytes (s t : Shard) : Prop where
  blockWriter : t.blockWriter = s.blockWriter
  nextBlockID : t.nextBlockID = s.nextBlockID
  blk : ∀ b, (t.blocks b).blk = (s.blocks b).blk

/-- `t` is `s` but for the `.idx` files, the Projection and the prep files. -/
structure Shard.IndexOnly (s t : Shard) : Prop extends Shard.SameBytes s t where
  proposals : t.proposals = s.proposals
  channels : t.channels = s.channels

theorem Shard.SameBytes.wake {s t : Shard} (h : s.SameBytes t) (key : String)
    (r : Option ShardErr) : s.SameBytes (t.wake key r) := by
  unfold Shard.wake
  split
  · exact h
  · exact ⟨h.blockWriter, h.nextBlockID, h.blk⟩

theorem Shard.view_wake (s : Shard) (key : String) (r : Option ShardErr) :
    (s.wake key r).view = s.view := by
  unfold Shard.wake
  split <;> rfl

namespace Shard.IndexOnly

variable {s t : Shard}

theorem refl (s : Shard) : s.IndexOnly s := ⟨⟨rfl, rfl, fun _ => rfl⟩, rfl, rfl⟩

theorem setIdxFile (h : s.IndexOnly t) (b : UInt64) (idx : Option IdxFile) :
    s.IndexOnly (t.setBlock b { t.blocks b with idx := idx }) := by
  refine ⟨⟨h.blockWriter, h.nextBlockID, fun b' => ?_⟩, h.proposals, h.channels⟩
  rw [← h.blk b']
  by_cases hb : b' = b <;> simp [Shard.setBlock, hb]

theorem withIndex (h : s.IndexOnly t) (idx : Index) : s.IndexOnly { t with idx := idx } :=
  ⟨⟨h.blockWriter, h.nextBlockID, h.blk⟩, h.proposals, h.channels⟩

theorem cleanup (h : s.IndexOnly t) (doc : CommitDocument) :
    s.IndexOnly (t.cleanupCommittedOpenlogPreps doc) :=
  ⟨⟨h.blockWriter, h.nextBlockID, h.blk⟩, h.proposals, h.channels⟩

end Shard.IndexOnly

/-- `I` does not look at what is in the `.idx` files, the Projection or the prep files. -/
structure Shard.IndexClosed (I : Shard → Prop) : Prop where
  setIdxFile : ∀ {t}, I t → ∀ {b f}, (t.blocks b).idx = some f → ∀ f',
    I (t.setBlock b { t.blocks b with idx := some f' })
  withIndex : ∀ {t}, I t → ∀ idx, I { t with idx := idx }
  cleanup : ∀ {t}, I t → ∀ doc, I (t.cleanupCommittedOpenlogPreps doc)

theorem Shard.IndexOnly.closed (s : Shard) : Shard.IndexClosed s.IndexOnly :=
  ⟨fun h b _ _ f' => h.setIdxFile b (some f'), fun h => h.withIndex, fun h => h.cleanup⟩

theorem replaceRewrapEnvelope_some {c : Crypto} {idx : Option IdxFile}
    {cmd : RewrapDocumentEnvelope} {r : Option IdxFile × Bool}
    (h : replaceRewrapEnvelope c idx cmd = .ok r) : ∃ f f', idx = some f ∧ r.1 = some f' := by
  cases idx with
  | none => simp [replaceRewrapEnvelope, validateRewrapCurrentEnvelope, openIndexReader] at h
  | some f => ?_
  unfold replaceRewrapEnvelope at h
  split at h
  · cases h
  · cases h
    exact ⟨f, f, rfl, rfl⟩
  simp only at h
  split at h
  · cases h
  · cases h
    exact ⟨f, _, rfl, rfl⟩

section Closed

variable {I : Shard → Prop} (hI : Shard.IndexClosed I)
include hI

theorem blockIndexEntriesForApply_keeps (b : UInt64) (t : String) :
    Keeps I (blockIndexEntriesForApply b t) := by
  refine Keeps.get fun u hu => ?_
  cases openIndexReader (u.blocks b).idx with
  | ok entries => exact hu
  | error err => ?_
  cases err with
  | corruptTail =>
    cases hidx : (u.blocks b).idx with
    | none => exact hu
    | some f => exact hI.setIdxFile hu hidx _
  | _ => exact hu

theorem inspectCommitProjectionBlocks_keeps (doc : CommitDocument) (n : UInt16) :
    ∀ (ids : List UInt64) (resolved : Nat) (state : CommitProjectionState),
      Keeps I (inspectCommitProjectionBlocks doc n resolved state ids)
  | [], _, _ => Keeps.pure _
  | b :: ids, resolved, state => by
    refine (blockIndexEntriesForApply_keeps hI b doc.transactionID).bind fun entries => ?_
    cases inspectCommitProjectionBlock doc n b resolved state entries with
    | error err => exact Keeps.throw _
    | ok r => exact inspectCommitProjectionBlocks_keeps doc n ids r.2 r.1

theorem inspectCommitProjectionState_keeps (doc : CommitDocument) :
    Keeps I (inspectCommitProjectionState doc) := by
  refine Keeps.get fun u hu => ?_
  cases u.commitProjectionEntry doc.transactionID with
  | error err => exact hu
  | ok entry => ?_
  cases entry with
  | none => exact hu
  | some entry =>
    exact ((inspectCommitProjectionBlocks_keeps hI doc _ _ _ _).bind
      fun _ => Keeps.pure _) u hu

theorem cleanup_keeps (doc : CommitDocument) :
    Keeps I (modify (·.cleanupCommittedOpenlogPreps doc) : ShardM PUnit) :=
  Keeps.modify fun _ hu => hI.cleanup hu doc

theorem handleExistingCommitProjection_keeps (doc : CommitDocument)
    (state : CommitProjectionState) :
    Keeps I (handleExistingCommitProjection doc state) := by
  unfold handleExistingCommitProjection
  cases state.existing with
  | none => exact Keeps.pure _
  | some d => ?_
  simp only
  split
  · refine (cleanup_keeps hI doc).bind fun _ => ?_
    split
    · exact Keeps.pure _
    · exact Keeps.throw _
  · split
    · exact Keeps.throw _
    · exact Keeps.pure _

theorem requeue_keeps (b : UInt64) (gen : Int) :
    Keeps I (requeueBlockUploadAfterIndexAppend b gen) := by
  intro u hu
  by_cases hready : u.RequeueReady b gen
  · obtain ⟨p, hrun⟩ := requeue_ok hready
    rw [after_of_ok hrun]
    exact hI.withIndex hu _
  · obtain ⟨err, hrun⟩ := requeue_error hready
    rw [after, hrun]
    exact hu

theorem blockIndexContainsDocument_keeps (b : UInt64) (t name : String) :
    Keeps I (blockIndexContainsDocumentRepairingTail b t name) := by
  refine Keeps.get fun u hu => ?_
  cases openIndexReader (u.blocks b).idx with
  | ok entries => exact hu
  | error err => ?_
  cases err with
  | corruptTail =>
    cases hidx : (u.blocks b).idx with
    | none => exact hu
    | some f => exact hI.setIdxFile hu hidx _
  | _ => exact hu

theorem appendDocumentIndexEntry_keeps (doc : CommitDocument) (entry : IndexEntry) (i : UInt64)
    (already : Bool) : Keeps I (appendDocumentIndexEntry doc entry i already) := by
  refine Keeps.get fun u hu => ?_
  split
  · split
    · exact hu
    cases hidx : (u.blocks doc.blockID).idx with
    | none => exact hu
    | some f =>
      simp only
      cases f.append entry with
      | error err => exact hu
      | ok f' => exact hI.setIdxFile hu hidx f'
  · refine ((blockIndexContainsDocument_keeps hI _ _ _).bind fun contains => ?_) u hu
    split
    · exact requeue_keeps hI _ _
    refine Keeps.get fun w hw => ?_
    cases hidx : (w.blocks doc.blockID).idx with
    | none => exact hw
    | some f => ?_
    simp only
    cases f.append entry with
    | error err => exact hw
    | ok f' => exact requeue_keeps hI _ _ _ (hI.setIdxFile hw hidx f')

theorem commitNewDocument_keeps (doc : CommitDocument) (i : UInt64) (a counted : Bool) :
    Keeps I (commitNewDocument doc i a counted) := by
  have hpre : Keeps I (preflightProjectionDocCount doc.transactionID) := by
    refine Keeps.get fun u hu => ?_
    cases u.idx.preflightProjectionDocCount doc.transactionID <;> exact hu
  have hadd : Keeps I (addProjectionDocument doc.transactionID doc.blockID) := by
    refine Keeps.get fun u hu => ?_
    rcases u.idx.addProjectionDocument doc.transactionID doc.blockID with ⟨res, idx⟩
    cases res <;> exact hI.withIndex hu idx
  have hclean := cleanup_keeps hI doc
  unfold commitNewDocument
  cases doc.indexEntry? with
  | none => exact Keeps.throw _
  | some entry => ?_
  have happ := appendDocumentIndexEntry_keeps hI doc entry i a
  cases counted with
  | true => exact happ.bind fun _ => hclean
  | false => exact hpre.bind fun _ => happ.bind fun _ => hadd.bind fun _ => hclean

theorem applyCommitDocument_keeps (doc : CommitDocument) (i : UInt64) :
    Keeps I (applyCommitDocument doc i) := by
  refine (inspectCommitProjectionState_keeps hI doc).bind fun state =>
    (handleExistingCommitProjection_keeps hI doc state).bind fun handled => ?_
  split
  · exact Keeps.pure _
  · exact commitNewDocument_keeps hI doc i _ _

theorem applyRewrapDocumentEnvelope_keeps (c : Crypto) (cmd : RewrapDocumentEnvelope)
    (gen : Int) : Keeps I (applyRewrapDocumentEnvelope c cmd gen) := by
  unfold applyRewrapDocumentEnvelope
  cases validateRewrapCommand c cmd with
  | error err => exact Keeps.throw _
  | ok u => ?_
  refine Keeps.get fun t ht => ?_
  cases hrep : replaceRewrapEnvelope c (t.blocks cmd.blockID).idx cmd with
  | error err => exact ht
  | ok r => ?_
  obtain ⟨f, f', hidx, hf'⟩ := replaceRewrapEnvelope_some hrep
  have hset := hI.setIdxFile ht hidx f'
  rw [← hf'] at hset
  simp only [after_set_bind]
  unfold finishRewrapApply
  split
  · exact requeue_keeps hI _ _ _ hset
  · exact hset

end Closed

section Commands

variable (s : Shard)

theorem applyCommitDocument_indexOnly (doc : CommitDocument) (i : UInt64) :
    s.IndexOnly (after (applyCommitDocument doc i) s) :=
  applyCommitDocument_keeps (Shard.IndexOnly.closed s) doc i s (.refl s)

theorem applyRewrapDocumentEnvelope_indexOnly (c : Crypto) (cmd : RewrapDocumentEnvelope)
    (gen : Int) : s.IndexOnly (after (applyRewrapDocumentEnvelope c cmd gen) s) :=
  applyRewrapDocumentEnvelope_keeps (Shard.IndexOnly.closed s) c cmd gen s (.refl s)

/-! ## The commands -/

theorem applyCommitDocumentCommand_sameBytes (doc : CommitDocument) (i : UInt64) :
    s.SameBytes (after (applyCommitDocumentCommand doc i) s) := by
  have h := (applyCommitDocument_indexOnly s doc i).toSameBytes
  rw [applyCommitDocumentCommand_after]
  exact h.wake _ _

theorem applyRewrapDocumentEnvelopeCommand_sameBytes (c : Crypto) (cmd : RewrapDocumentEnvelope)
    (i : UInt64) : s.SameBytes (after (applyRewrapDocumentEnvelopeCommand c cmd i) s) := by
  have h := (applyRewrapDocumentEnvelope_indexOnly s c cmd
    (rewrapUploadGeneration cmd i)).toSameBytes
  unfold after at h ⊢
  rw [applyRewrapDocumentEnvelopeCommand_run]
  cases hr : (applyRewrapDocumentEnvelope c cmd (rewrapUploadGeneration cmd i)).run s with
  | ok u t =>
    rw [hr] at h
    exact h.wake _ _
  | error err t =>
    rw [hr] at h
    cases err <;> exact h.wake _ _

end Commands

end Scrap
