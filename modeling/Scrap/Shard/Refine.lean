/-
# The apply refines the view

`applyCommitDocument` on a good state is `View.commit` on its view, together with the requeue of a
closed Block's upload:

* `applyCommitDocument_ok`: a successful apply moves the view as `View.commit` does, keeps the state
  good and leaves everything else of the Shard alone (`SameRest`);
* `applyCommitDocument_ok_iff`: it succeeds exactly when `View.commit` does and the Block it wrote
  to, when closed, can be requeued.
-/
import Scrap.Shard.View

namespace Scrap

open Block Fallible Function

/-- All but the `.idx` records, the Transaction records, the pending uploads and the prep files; and
no tail is torn. -/
structure Shard.SameRest (s s' : Shard) : Prop where
  shardID : s'.shardID = s.shardID
  uploadEnabled : s'.uploadEnabled = s.uploadEnabled
  blockWriter : s'.blockWriter = s.blockWriter
  nextBlockID : s'.nextBlockID = s.nextBlockID
  proposals : s'.proposals = s.proposals
  channels : s'.channels = s.channels
  confirmed : s'.idx.confirmedUploads = s.idx.confirmedUploads
  files : ∀ b, { s'.blocks b with idx := none } = { s.blocks b with idx := none }
  intact : s.Intact → s'.Intact

theorem Shard.SameRest.refl (s : Shard) : s.SameRest s :=
  ⟨rfl, rfl, rfl, rfl, rfl, rfl, rfl, fun _ => rfl, id⟩

variable {o : Bool} {doc : CommitDocument} {e : Entry} {f : IdxFile} {gen : Int} {s s' : Shard}
  {t : String} {b i : UInt64} {v v' : View}

theorem Shard.SameRest.trans {t u : Shard} (h : s.SameRest t) (h' : t.SameRest u) :
    s.SameRest u :=
  ⟨h'.shardID.trans h.shardID, h'.uploadEnabled.trans h.uploadEnabled,
    h'.blockWriter.trans h.blockWriter, h'.nextBlockID.trans h.nextBlockID,
    h'.proposals.trans h.proposals, h'.channels.trans h.channels,
    h'.confirmed.trans h.confirmed, fun b => (h'.files b).trans (h.files b),
    fun hi => h'.intact (h.intact hi)⟩

theorem Shard.SameRest.isOpen (h : s.SameRest s') (b : UInt64) :
    s'.isOpen b = s.isOpen b := by
  rw [Shard.isOpen, Shard.isOpen, h.blockWriter]

theorem Shard.SameRest.blk (h : s.SameRest s') (b : UInt64) :
    (s'.blocks b).blk = (s.blocks b).blk := by
  have hb := congrArg BlockFiles.blk (h.files b)
  exact hb

theorem Shard.SameRest.blkQuarantine (h : s.SameRest s') (b : UInt64) :
    (s'.blocks b).blkQuarantine = (s.blocks b).blkQuarantine := by
  have hb := congrArg BlockFiles.blkQuarantine (h.files b)
  exact hb

theorem Shard.SameRest.idxQuarantine (h : s.SameRest s') (b : UInt64) :
    (s'.blocks b).idxQuarantine = (s.blocks b).idxQuarantine := by
  have hb := congrArg BlockFiles.idxQuarantine (h.files b)
  exact hb

theorem Shard.Mends.sameRest (h : s.Mends s') : s.SameRest s' := by
  refine ⟨?_, ?_, ?_, ?_, ?_, ?_, ?_, fun b => ?_, h.intact⟩
  on_goal 8 =>
    rcases h.files b with hb | ⟨f, -, hb⟩
    · rw [hb]
    · rw [hb]
  all_goals rw [h.rest]

/-! ## Prep files are outside the view -/

@[simp] theorem Shard.cleanup_view (s : Shard) (doc : CommitDocument) :
    (s.cleanupCommittedOpenlogPreps doc).view = s.view := rfl

theorem Shard.Good.cleanup (hg : s.Good) (doc : CommitDocument) :
    (s.cleanupCommittedOpenlogPreps doc).Good :=
  ⟨hg.wf, hg.openIdx⟩

theorem Shard.sameRest_cleanup (s : Shard) (doc : CommitDocument) :
    s.SameRest (s.cleanupCommittedOpenlogPreps doc) :=
  ⟨rfl, rfl, rfl, rfl, rfl, rfl, rfl, fun _ => rfl, id⟩

/-! ## The decision on an existing record -/

theorem handleExistingCommitProjection_eq (doc : CommitDocument)
    (state : CommitProjectionState) (s : Shard) :
    (handleExistingCommitProjection doc state).run s = match commitAction doc state with
      | .done => .ok true (s.cleanupCommittedOpenlogPreps doc)
      | .write _ _ => .ok false s
      | .reject err =>
        .error err (if state.targetCounted then s.cleanupCommittedOpenlogPreps doc else s) := by
  unfold handleExistingCommitProjection commitAction
  cases state.existing with
  | none => rfl
  | some p => ?_
  obtain ⟨b, existing⟩ := p
  cases hc : state.targetCounted with
  | true =>
    by_cases hm : commitDocumentMatchesExisting doc existing = true
    · simp only [hm]; rfl
    · simp only [hm]; rfl
  | false =>
    simp only [Bool.false_eq_true]
    by_cases hm : b ≠ doc.blockID ∨ (!commitDocumentMatchesExisting doc existing) = true
    · rw [if_pos hm, if_pos hm]; rfl
    · rw [if_neg hm, if_neg hm]; rfl

theorem commitAction_write {state : CommitProjectionState} {a c : Bool}
    (h : commitAction doc state = .write a c) :
    state.targetExists = a ∧ state.targetCounted = c := by
  unfold commitAction at h
  unfold CommitProjectionState.targetExists
  cases hex : state.existing with
  | none =>
    simp only [hex] at h
    cases h
    exact ⟨rfl, rfl⟩
  | some p =>
    simp only [hex] at h
    cases hc : state.targetCounted with
    | true => simp only [hc, if_true] at h; split at h <;> cases h
    | false => ?_
    simp only [hc, Bool.false_eq_true, if_false] at h
    split at h
    · cases h
    · cases h
      exact ⟨rfl, rfl⟩

/-! ## The requeue of a closed Block -/

/-- With uploads enabled, a size is known for the Block and the record is valid. -/
def Shard.RequeueReady (s : Shard) (b : UInt64) (gen : Int) : Prop :=
  s.uploadEnabled = true →
    ∃ size, s.sealedSizeForUploadRequeue b = .ok size ∧ b ≠ 0 ∧ 0 ≤ size ∧ 0 ≤ gen

theorem Shard.Good.withPending (hg : s.Good) (p : UInt64 → Option PendingUpload) :
    (s.withPending p).Good :=
  ⟨hg.wf, hg.openIdx⟩

theorem Shard.sameRest_withPending (s : Shard) (p : UInt64 → Option PendingUpload) :
    s.SameRest (s.withPending p) :=
  ⟨rfl, rfl, rfl, rfl, rfl, rfl, rfl, fun _ => rfl, id⟩

theorem validatePendingUpload_ok {u : PendingUpload} :
    validatePendingUpload u = .ok () ↔
      u.blockID ≠ 0 ∧ 0 ≤ u.sealedSizeBytes ∧ 0 ≤ u.sealedAtUs ∧ 0 ≤ u.uploadGeneration := by
  unfold validatePendingUpload
  split
  · simp_all
  split
  · simp only [reduceCtorEq, false_iff]; omega
  split
  · simp only [reduceCtorEq, false_iff]; omega
  split
  · simp only [reduceCtorEq, false_iff]; omega
  · simp only [true_iff]
    exact ⟨by assumption, by omega, by omega, by omega⟩

theorem requeue_ok (h : s.RequeueReady b gen) :
    ∃ p, (requeueBlockUploadAfterIndexAppend b gen).run s = .ok () (s.withPending p) := by
  rw [requeueBlockUploadAfterIndexAppend, get_bind]
  by_cases hu : s.uploadEnabled = true
  · obtain ⟨size, hsize, hb, hs, hgen⟩ := h hu
    have hv : validatePendingUpload ⟨b, s.shardID, size, gen, gen⟩ = .ok () :=
      validatePendingUpload_ok.mpr ⟨hb, hs, hgen, hgen⟩
    simp only [if_pos hu, hsize, Index.putPendingUpload, hv]
    exact ⟨_, rfl⟩
  · rw [if_neg hu]
    exact ⟨s.idx.pendingUploads, rfl⟩

theorem requeue_error (h : ¬ s.RequeueReady b gen) :
    ∃ err, (requeueBlockUploadAfterIndexAppend b gen).run s = .error err s := by
  rw [requeueBlockUploadAfterIndexAppend, get_bind]
  have hu : s.uploadEnabled = true := by
    by_contra hc
    exact h fun ht => absurd ht hc
  rw [if_pos hu]
  cases hsize : s.sealedSizeForUploadRequeue b with
  | error err => exact ⟨err, rfl⟩
  | ok size => ?_
  cases hv : validatePendingUpload ⟨b, s.shardID, size, gen, gen⟩ with
  | error err => exact ⟨.requeueBlockUpload err, by simp [Index.putPendingUpload, hv]⟩
  | ok u =>
    obtain ⟨hb, hs, hgen, -⟩ := validatePendingUpload_ok.mp hv
    exact absurd (fun _ => ⟨size, hsize, hb, hs, hgen⟩) h

/-! ## The `.idx` record -/

theorem Shard.Good.setIdx_append (hg : s.Good) (htorn : f.torn = false) (e : IndexEntry) :
    (s.setIdx b { f with entries := f.entries ++ [e] }).Good := by
  refine ⟨hg.wf, ?_⟩
  intro c hopen
  by_cases hcb : c = b
  · subst hcb
    exact ⟨{ f with entries := f.entries ++ [e] }, by simp, htorn⟩
  · rw [s.setIdx_blocks_of_ne b _ hcb]
    exact hg.openIdx c hopen

theorem Shard.sameRest_setIdx (s : Shard) (b : UInt64) (hf : f.torn = false) :
    s.SameRest (s.setIdx b f) := by
  refine ⟨rfl, rfl, rfl, rfl, rfl, rfl, rfl, fun c => ?_, fun hi c g hg => ?_⟩
  · by_cases hcb : c = b
    · subst hcb
      simp
    · rw [s.setIdx_blocks_of_ne b f hcb]
  · by_cases hcb : c = b
    · subst hcb
      obtain rfl : f = g := by simpa using hg
      exact hf
    · rw [s.setIdx_blocks_of_ne b f hcb] at hg
      exact hi c g hg

theorem Shard.view_setBlock (s : Shard) (b : UInt64) (files : BlockFiles) :
    (s.setBlock b files).view =
      { s.view with idx := update s.view.idx b (files.idx.map (·.entries)) } := by
  have hidx : (s.setBlock b files).view.idx = update s.view.idx b (files.idx.map (·.entries)) := by
    funext c
    by_cases hcb : c = b <;> simp [Shard.view, Shard.setBlock, hcb]
  rw [← hidx]
  rfl

theorem Shard.view_setIdx (s : Shard) (b : UInt64) (f : IdxFile) :
    (s.setIdx b f).view = { s.view with idx := update s.view.idx b (some f.entries) } :=
  s.view_setBlock b _

theorem Shard.requeueReady_setIdx {c : UInt64} :
    (s.setIdx c f).RequeueReady b gen ↔ s.RequeueReady b gen := by
  have hblk : ((s.setIdx c f).blocks b).blk = (s.blocks b).blk := by
    by_cases hbc : b = c
    · subst hbc
      simp
    · rw [s.setIdx_blocks_of_ne c f hbc]
  unfold Shard.RequeueReady Shard.sealedSizeForUploadRequeue
  rw [hblk]
  rfl

theorem Shard.Mends.requeueReady (h : s.Mends s') :
    s'.RequeueReady b gen ↔ s.RequeueReady b gen := by
  unfold Shard.RequeueReady Shard.sealedSizeForUploadRequeue
  rw [h.sameRest.blk b, h.idx_eq, h.sameRest.uploadEnabled]

theorem containsDocument_run (hf : (s.blocks b).idx = some f) (doc : CommitDocument) :
    ∃ s', (blockIndexContainsDocumentRepairingTail b doc.transactionID doc.documentName).run s =
        .ok (View.hasRecord f.entries doc) s' ∧ s.Mends s' ∧
      (s'.blocks b).idx = some { f with torn := false } := by
  rw [blockIndexContainsDocumentRepairingTail, get_bind, hf]
  cases htorn : f.torn with
  | false =>
    refine ⟨s, by simp [openIndexReader, htorn, View.hasRecord], .refl s, ?_⟩
    rw [hf, ← htorn]
  | true =>
    refine ⟨_, ?_, .setIdx hf, by simp⟩
    simp only [openIndexReader, htorn]
    rfl

def View.Grows (v w : View) : Prop := ∀ b, (v.idx b).getD [] <+: (w.idx b).getD []

variable {entry : IndexEntry} {already : Bool}

theorem View.writeIdx_some :
    v.writeIdx o doc entry already = some v' ↔ ∃ es, v.idx doc.blockID = some es ∧
      ((if o then already else View.hasRecord es doc) = true ∧ v' = v ∨
        (if o then already else View.hasRecord es doc) = false ∧ FieldsFit entry ∧
          v' = { v with idx := update v.idx doc.blockID (some (es ++ [entry])) }) := by
  unfold View.writeIdx
  cases v.idx doc.blockID with
  | none => simp
  | some es => ?_
  simp only [Option.some.injEq, exists_eq_left']
  generalize (if o then already else View.hasRecord es doc) = found
  cases found with
  | true => simp [eq_comm]
  | false => ?_
  by_cases hfit : FieldsFit entry <;> simp [hfit, eq_comm]

theorem View.writeIdx_grows (h : v.writeIdx o doc entry already = some v') : v.Grows v' := by
  obtain ⟨es, hes, ⟨-, rfl⟩ | ⟨-, -, rfl⟩⟩ := View.writeIdx_some.mp h
  · exact fun _ => List.prefix_rfl
  · intro b
    by_cases hb : b = doc.blockID <;> simp [hb, hes]

/-- The Transaction records of `s`, and its `.idx` records with perhaps more behind them. -/
structure Shard.Grown (s u : Shard) : Prop where
  good : u.Good
  txs : u.idx.txs = s.idx.txs
  grows : s.view.Grows u.view

theorem Shard.Mends.grown (h : s.Mends s') (hg : s.Good) : s.Grown s' :=
  ⟨h.good hg, by rw [h.idx_eq], fun _ => h.view ▸ List.prefix_rfl⟩

theorem append_open (hg : s.Good) (hopen : s.isOpen doc.blockID = true) (entry : IndexEntry)
    (i : UInt64) (already : Bool) :
    (∃ s', (appendDocumentIndexEntry doc entry i already).run s = .ok () s' ∧ s'.Good ∧
        s.SameRest s' ∧ s'.idx = s.idx ∧
        s.view.writeIdx true doc entry already = some s'.view) ∨
      ((∃ err, (appendDocumentIndexEntry doc entry i already).run s = .error err s) ∧
        s.view.writeIdx true doc entry already = none) := by
  obtain ⟨f, hf, htorn⟩ := hg.openIdx _ hopen
  have hv : s.view.idx doc.blockID = some f.entries := by simp [Shard.view, hf]
  rw [appendDocumentIndexEntry, get_bind, if_pos hopen]
  cases already with
  | true => exact .inl ⟨s, rfl, hg, .refl s, rfl, by simp [View.writeIdx, hv]⟩
  | false => ?_
  simp only [hf]
  by_cases hfit : FieldsFit entry
  · refine .inl ⟨s.setIdx doc.blockID { f with entries := f.entries ++ [entry] }, ?_,
      hg.setIdx_append htorn entry, s.sameRest_setIdx _ htorn, rfl, ?_⟩
    · rw [IdxFile.append_of_fit hfit htorn]
      rfl
    · simp [View.writeIdx, hv, hfit, Shard.view_setIdx]
  · obtain ⟨err, herr⟩ := IdxFile.append_of_not_fit f hfit
    exact .inr ⟨⟨_, by rw [herr]; rfl⟩, by simp [View.writeIdx, hv, hfit]⟩

theorem append_closed (hg : s.Good) (hopen : s.isOpen doc.blockID = false) (entry : IndexEntry)
    (i : UInt64) (already : Bool) :
    (∃ s', (appendDocumentIndexEntry doc entry i already).run s = .ok () s' ∧ s'.Good ∧
        s.SameRest s' ∧ s'.idx.txs = s.idx.txs ∧
        s.view.writeIdx false doc entry already = some s'.view ∧
        s.RequeueReady doc.blockID (uploadGenerationFromApplyIndex i doc.createdAtUs)) ∨
      ((∃ err s', (appendDocumentIndexEntry doc entry i already).run s = .error err s' ∧
          s.Grown s') ∧
        (s.view.writeIdx false doc entry already = none ∨ ¬ s.RequeueReady doc.blockID
            (uploadGenerationFromApplyIndex i doc.createdAtUs))) := by
  rw [appendDocumentIndexEntry, get_bind, if_neg (by simp [hopen])]
  cases hf : (s.blocks doc.blockID).idx with
  | none =>
    have hv : s.view.idx doc.blockID = none := by simp [Shard.view, hf]
    refine .inr ⟨⟨.openHistoricalReadIdx .notExist, s, ?_, (Shard.Mends.refl s).grown hg⟩,
      .inl (by simp [View.writeIdx, hv])⟩
    refine bind_of_error ?_
    rw [blockIndexContainsDocumentRepairingTail, get_bind, hf]
    rfl
  | some f =>
    have hv : s.view.idx doc.blockID = some f.entries := by simp [Shard.view, hf]
    obtain ⟨t, ht, hm, hft⟩ := containsDocument_run hf doc
    have hgt := hm.good hg
    rw [bind_of_ok ht, ← hm.requeueReady]
    by_cases hrec : View.hasRecord f.entries doc = true
    · -- the record is there: only the requeue is left
      have hw : s.view.writeIdx false doc entry already = some t.view := by
        simp [View.writeIdx, hv, hrec, hm.view]
      rw [if_pos hrec, hw]
      by_cases hq : t.RequeueReady doc.blockID
          (uploadGenerationFromApplyIndex i doc.createdAtUs)
      · obtain ⟨p, hp⟩ := requeue_ok hq
        exact .inl ⟨_, hp, hgt.withPending p, hm.sameRest.trans (t.sameRest_withPending p),
          by rw [← hm.idx_eq]; rfl, rfl, hq⟩
      · obtain ⟨err, herr⟩ := requeue_error hq
        exact .inr ⟨⟨err, t, herr, hm.grown hg⟩, .inr hq⟩
    · rw [if_neg hrec, get_bind]
      simp only [hft]
      by_cases hfit : FieldsFit entry
      · have hw : s.view.writeIdx false doc entry already =
            some (t.setIdx doc.blockID ⟨f.entries ++ [entry], false⟩).view := by
          simp [View.writeIdx, hv, hrec, hfit, Shard.view_setIdx, hm.view]
        have happend : IdxFile.append { f with torn := false } entry =
            .ok ⟨f.entries ++ [entry], false⟩ :=
          IdxFile.append_of_fit hfit rfl
        simp only [happend, hw]
        by_cases hq : t.RequeueReady doc.blockID
            (uploadGenerationFromApplyIndex i doc.createdAtUs)
        · obtain ⟨p, hp⟩ := requeue_ok
            (Shard.requeueReady_setIdx.mpr hq)
          exact .inl ⟨_, hp,
            (hgt.setIdx_append (f := ⟨f.entries, false⟩) rfl entry).withPending p,
            hm.sameRest.trans ((t.sameRest_setIdx _ rfl).trans (Shard.sameRest_withPending _ p)),
            by rw [← hm.idx_eq]; rfl, rfl, hq⟩
        · obtain ⟨err, herr⟩ := requeue_error
            (mt Shard.requeueReady_setIdx.mp hq)
          exact .inr ⟨⟨err, _, herr, hgt.setIdx_append (f := ⟨f.entries, false⟩) rfl entry,
            by rw [← hm.idx_eq]; rfl, View.writeIdx_grows hw⟩, .inr hq⟩
      · obtain ⟨err, herr⟩ := IdxFile.append_of_not_fit { f with torn := false } hfit
        refine .inr ⟨⟨.appendHistoricalWriteIdx err, t, ?_, hm.grown hg⟩,
          .inl (by simp [View.writeIdx, hv, hrec, hfit])⟩
        rw [herr]
        rfl

/-- The command's Block is open, or its upload can be requeued. -/
def Shard.CanRequeue (s : Shard) (doc : CommitDocument) (i : UInt64) : Prop :=
  s.isOpen doc.blockID = false →
    s.RequeueReady doc.blockID (uploadGenerationFromApplyIndex i doc.createdAtUs)

theorem append_run (hg : s.Good) (doc : CommitDocument) (entry : IndexEntry) (i : UInt64)
    (already : Bool) :
    (∃ s', (appendDocumentIndexEntry doc entry i already).run s = .ok () s' ∧ s'.Good ∧
        s.SameRest s' ∧ s'.idx.txs = s.idx.txs ∧ s.CanRequeue doc i ∧
        s.view.writeIdx (s.isOpen doc.blockID) doc entry already = some s'.view) ∨
      ((∃ err s', (appendDocumentIndexEntry doc entry i already).run s = .error err s' ∧
          s.Grown s') ∧
        (s.view.writeIdx (s.isOpen doc.blockID) doc entry already = none ∨
          ¬ s.CanRequeue doc i)) := by
  cases hopen : s.isOpen doc.blockID with
  | true =>
    have hq : s.CanRequeue doc i := fun h => absurd (hopen.symm.trans h) (by simp)
    rcases append_open hg hopen entry i already with
      ⟨s', hrun, hg', hsame, hidx, hw⟩ | ⟨⟨err, hrun⟩, hw⟩
    · exact .inl ⟨s', hrun, hg', hsame, by rw [hidx], hq, hw⟩
    · exact .inr ⟨⟨err, s, hrun, (Shard.Mends.refl s).grown hg⟩, .inl hw⟩
  | false =>
    rcases append_closed hg hopen entry i already with
      ⟨s', hrun, hg', hsame, hidx, hw, hq⟩ | ⟨hrun, hw | hq⟩
    · exact .inl ⟨s', hrun, hg', hsame, hidx, fun _ => hq, hw⟩
    · exact .inr ⟨hrun, .inl hw⟩
    · exact .inr ⟨hrun, .inr fun h => hq (h hopen)⟩

/-! ## The Transaction record -/

theorem Entry.addDocument_ne_nil (e : Entry) (b : UInt64) : (e.addDocument b).blockIDs ≠ [] := by
  unfold Entry.addDocument
  by_cases hlast : e.blockIDs.getLast? = some b
  · simp only [if_pos hlast]
    rintro hnil
    simp [hnil] at hlast
  · simp [if_neg hlast]

/-- With room, the two writes of `addProjectionDocument` are one. -/
theorem Index.addProjectionDocument_of_get {idx : Index} (hget : idx.get t = .ok e)
    (hroom : e.docCount ≠ maxDocCount) (hfits : (e.addDocument b).blockIDs.length < 65536) :
    idx.addProjectionDocument t b = (.ok (), idx.putEntry t (e.addDocument b)) := by
  simp only [Index.addProjectionDocument, hget, Entry.addDocument] at hfits ⊢
  by_cases hlast : e.blockIDs.getLast? = some b
  · simp only [hlast, ne_eq, not_true_eq_false, if_false, if_true]
    rw [Index.incrementDocCount_of_get hget hroom]
  simp only [ne_eq, hlast] at hfits ⊢
  rw [Index.addBlockID_of_get hget]
  have hget' : (idx.putEntry t { e with blockIDs := e.blockIDs ++ [b] }).get t =
      .ok { e with blockIDs := e.blockIDs ++ [b] } :=
    idx.get_putEntry_self t hfits
  simp only
  rw [Index.incrementDocCount_of_get hget' hroom]
  simp

/-- A record with `65536` Blocks does not decode, so the increment fails on it. -/
theorem Index.addProjectionDocument_overflow {idx : Index} (hget : idx.get t = .ok e)
    (hlt : e.blockIDs.length < 65536) (hfits : 65536 ≤ (e.addDocument b).blockIDs.length) :
    ∃ err idx', idx.addProjectionDocument t b = (.error err, idx') := by
  simp only [Index.addProjectionDocument, hget, Entry.addDocument] at hfits ⊢
  by_cases hlast : e.blockIDs.getLast? = some b
  · simp only [hlast, if_true] at hfits
    omega
  simp only [ne_eq, hlast, if_false, List.length_append, List.length_singleton] at hfits ⊢
  rw [Index.addBlockID_of_get hget]
  have hdecode := decodeEntry_overflow (e := { e with blockIDs := e.blockIDs ++ [b] })
    (by simp; omega)
  obtain ⟨err, herr⟩ := hdecode
  simp only [Index.incrementDocCount, Index.get, Index.putEntry, update_self, herr]
  exact ⟨_, _, rfl⟩

theorem Shard.view_putEntry (h : e.blockIDs.length < 65536) :
    Shard.view { s with idx := s.idx.putEntry t e } =
      { s.view with tx := update s.view.tx t (some e) } := by
  have htx : (Shard.view { s with idx := s.idx.putEntry t e }).tx =
      update s.view.tx t (some e) := by
    funext t'
    by_cases ht : t' = t
    · subst ht
      simp [Shard.view, Index.get_putEntry_self _ _ h, Except.toOption]
    · simp [Shard.view, Index.get_putEntry_of_ne _ e ht, ht]
  show (⟨s.view.idx, (Shard.view { s with idx := s.idx.putEntry t e }).tx⟩ : View) = _
  rw [htx]

theorem Shard.Good.putEntry (hg : s.Good) (hne : e.blockIDs ≠ [])
    (hlt : e.blockIDs.length < 65536) :
    Shard.Good { s with idx := s.idx.putEntry t e } :=
  ⟨hg.wf.putEntry t hne hlt, hg.openIdx⟩

namespace View

/-- The record of a Transaction with one more Document in `b`, the first one included. -/
def nextEntry (v : View) (t : String) (b : UInt64) : Entry :=
  match v.tx t with
  | none => ⟨[b], 1, false⟩
  | some e => e.addDocument b

theorem count_some :
    v.count t b = some v' ↔ (v.hasRoom t ∧ v.listFits t b) ∧
      v' = { v with tx := update v.tx t (some (v.nextEntry t b)) } := by
  unfold count hasRoom listFits nextEntry
  cases v.tx t with
  | none => simp [eq_comm]
  | some e => ?_
  by_cases h : e.docCount = maxDocCount <;> simp [h, eq_comm (a := v')]

theorem count_eq_none :
    v.count t b = none ↔ ¬ (v.hasRoom t ∧ v.listFits t b) := by
  rw [← not_iff_not, not_not, ← ne_eq, Option.ne_none_iff_exists']
  simp [count_some]

theorem writeIdx_tx (h : v.writeIdx o doc entry already = some v') : v'.tx = v.tx := by
  obtain ⟨es, -, ⟨-, rfl⟩ | ⟨-, -, rfl⟩⟩ := writeIdx_some.mp h
  · rfl
  · rfl

theorem commitWrite_some {a c : Bool} :
    v.commitWrite o doc a c = some v' ↔ ∃ entry v₁, doc.indexEntry? = some entry ∧
      v.writeIdx o doc entry a = some v₁ ∧
      (c = true ∧ v' = v₁ ∨ c = false ∧ v₁.count doc.transactionID doc.blockID = some v') := by
  unfold commitWrite
  cases doc.indexEntry? with
  | none => simp
  | some entry => ?_
  cases hw : v.writeIdx o doc entry a with
  | none => simp [hw]
  | some v₁ => cases c <;> simp [hw, eq_comm]

theorem commit_some :
    v.commit o doc = some v' ↔ v.action doc = .done ∧ v' = v ∨
      ∃ a c, v.action doc = .write a c ∧ v.commitWrite o doc a c = some v' := by
  unfold commit
  cases v.action doc with
  | reject err => simp
  | done => simp [eq_comm]
  | write a c => ?_
  refine ⟨fun h => .inr ⟨a, c, rfl, h⟩, ?_⟩
  rintro (⟨hdone, -⟩ | ⟨a', c', hact, h⟩)
  · cases hdone
  · cases hact
    exact h

end View

theorem preflight_run (hg : s.Good) (t : String) :
    (s.view.hasRoom t ∧ (preflightProjectionDocCount t).run s = .ok () s) ∨
      (¬ s.view.hasRoom t ∧ (preflightProjectionDocCount t).run s =
        .error (.incrementDocCount .docCountAtMaximum) s) := by
  rw [preflightProjectionDocCount]
  cases htx : s.view.tx t with
  | none =>
    have hget := hg.view_tx_none.mp htx
    refine .inl ⟨fun e he => absurd (htx.symm.trans he) (by simp), ?_⟩
    simp [Index.preflightProjectionDocCount, hget]
  | some e =>
    have hget := Shard.view_tx_some.mp htx
    by_cases hfull : e.docCount = maxDocCount
    · refine .inr ⟨fun h => h e htx hfull, ?_⟩
      simp [Index.preflightProjectionDocCount, hget, hfull]
    refine .inl ⟨fun e' he' => ?_, ?_⟩
    · obtain rfl : e = e' := by simpa using htx.symm.trans he'
      exact hfull
    · simp [Index.preflightProjectionDocCount, hget, hfull]

theorem addProjection_run (hg : s.Good) (b : UInt64) (hroom : s.view.hasRoom t) :
    (∃ s', (addProjectionDocument t b).run s = .ok () s' ∧ s'.Good ∧ s.SameRest s' ∧
        s.view.count t b = some s'.view) ∨
      ((∃ err s', (addProjectionDocument t b).run s = .error err s') ∧
        s.view.count t b = none) := by
  rw [addProjectionDocument, get_bind]
  cases htx : s.view.tx t with
  | none =>
    have hget := hg.view_tx_none.mp htx
    have hview := Shard.view_putEntry (s := s) (t := t) (e := ⟨[b], 1, false⟩) (by simp)
    have hnew : s.idx.addProjectionDocument t b = (.ok (), s.idx.putEntry t ⟨[b], 1, false⟩) := by
      simp only [Index.addProjectionDocument, hget]
      rfl
    simp only [hnew]
    refine .inl ⟨_, rfl, hg.putEntry (by simp) (by simp), ⟨rfl, rfl, rfl, rfl, rfl, rfl, rfl,
      fun _ => rfl, id⟩, ?_⟩
    simp [View.count, htx, hview]
  | some e =>
    have hget := Shard.view_tx_some.mp htx
    have hlt := (hg.tx_wf htx).2
    have hfull := hroom e htx
    by_cases hfits : (e.addDocument b).blockIDs.length < 65536
    · have hview := Shard.view_putEntry (s := s) (t := t) hfits
      simp only [Index.addProjectionDocument_of_get hget hfull hfits]
      refine .inl ⟨_, rfl, hg.putEntry (e.addDocument_ne_nil b) hfits, ⟨rfl, rfl, rfl, rfl, rfl,
        rfl, rfl, fun _ => rfl, id⟩, ?_⟩
      simp [View.count, htx, hfull, hview, hfits]
    · obtain ⟨err, idx', herr⟩ :=
        Index.addProjectionDocument_overflow hget hlt (Nat.le_of_not_lt hfits)
      simp only [herr]
      exact .inr ⟨⟨err, _, rfl⟩, by simp [View.count, htx, Nat.le_of_not_lt hfits]⟩

/-! ## The writes of a Document that is not yet fully committed -/

theorem View.commit_idx (h : v.commit o doc = some v') :
    v'.idx = v.idx ∨ (v.action doc).isWrite = true ∧ ∃ es entry, v.idx doc.blockID = some es ∧
      v'.idx = update v.idx doc.blockID (some (es ++ [entry])) := by
  obtain ⟨-, rfl⟩ | ⟨a, c, hact, hwrite⟩ := View.commit_some.mp h
  · exact .inl rfl
  obtain ⟨entry, v₁, -, hw, hcount⟩ := View.commitWrite_some.mp hwrite
  have hidx : v'.idx = v₁.idx := by
    obtain ⟨-, rfl⟩ | ⟨-, hc⟩ := hcount
    · rfl
    · rw [(View.count_some.mp hc).2]
  obtain ⟨es, hes, ⟨-, rfl⟩ | ⟨-, -, rfl⟩⟩ := View.writeIdx_some.mp hw
  · exact .inl hidx
  · exact .inr ⟨by rw [hact]; rfl, es, entry, hes, hidx⟩

theorem commitNewDocument_run (hg : s.Good) (doc : CommitDocument) (i : UInt64) (a c : Bool) :
    (∃ s', (commitNewDocument doc i a c).run s = .ok () s' ∧ s'.Good ∧ s.SameRest s' ∧
        s.CanRequeue doc i ∧
        s.view.commitWrite (s.isOpen doc.blockID) doc a c = some s'.view) ∨
      ((∃ err s', (commitNewDocument doc i a c).run s = .error err s') ∧
        (s.view.commitWrite (s.isOpen doc.blockID) doc a c = none ∨ ¬ s.CanRequeue doc i)) := by
  rw [commitNewDocument, View.commitWrite]
  cases hentry : doc.indexEntry? with
  | none => exact .inr ⟨⟨_, s, rfl⟩, .inl rfl⟩
  | some entry => ?_
  simp only
  cases c with
  | true =>
    rcases append_run hg doc entry i a with
      ⟨s', hrun, hg', hsame, -, hq, hw⟩ | ⟨⟨err, s', hrun, -⟩, hw | hq⟩
    · refine .inl ⟨s'.cleanupCommittedOpenlogPreps doc, ?_, hg'.cleanup doc,
        hsame.trans (s'.sameRest_cleanup doc), hq, ?_⟩
      · simp [hrun]
      · simp [hw]
    · exact .inr ⟨⟨err, s', by simp [hrun]⟩, .inl (by simp [hw])⟩
    · exact .inr ⟨⟨err, s', by simp [hrun]⟩, .inr hq⟩
  | false =>
    rcases preflight_run hg doc.transactionID with ⟨hroom, hpre⟩ | ⟨hfull, hpre⟩
    · rcases append_run hg doc entry i a with
        ⟨s', hrun, hg', hsame, htxs, hq, hw⟩ | ⟨⟨err, s', hrun, -⟩, hw | hq⟩
      · -- the `.idx` record does not change the Transaction record
        have htx : s'.view.tx = s.view.tx := View.writeIdx_tx hw
        have hroom' : s'.view.hasRoom doc.transactionID := by
          unfold View.hasRoom at hroom ⊢
          rwa [htx]
        rcases addProjection_run hg' doc.blockID hroom' with
          ⟨s'', hadd, hg'', hsame', hcount⟩ | ⟨⟨err, s'', hadd⟩, hcount⟩
        · refine .inl ⟨s''.cleanupCommittedOpenlogPreps doc, ?_, hg''.cleanup doc,
            (hsame.trans hsame').trans (s''.sameRest_cleanup doc), hq, ?_⟩
          · simp [hpre, hrun, hadd]
          · simp [hw, hcount]
        · exact .inr ⟨⟨err, s'', by simp [hpre, hrun, hadd]⟩, .inl (by simp [hw, hcount])⟩
      · exact .inr ⟨⟨err, s', by simp [hpre, hrun]⟩, .inl (by simp [hw])⟩
      · exact .inr ⟨⟨err, s', by simp [hpre, hrun]⟩, .inr hq⟩
    · refine .inr ⟨⟨_, s, by simp [hpre]; rfl⟩, .inl ?_⟩
      cases hw : s.view.writeIdx (s.isOpen doc.blockID) doc entry a with
      | none => simp
      | some v' => ?_
      have hfull' : ¬ v'.hasRoom doc.transactionID := by
        unfold View.hasRoom at hfull ⊢
        rwa [View.writeIdx_tx hw]
      simpa using View.count_eq_none.mpr fun h => hfull' h.1

/-! ## The apply -/

/-- What `applyCommitDocument` does in front of its writes `k`. -/
def decided (doc : CommitDocument) (k : CommitProjectionState → ShardM Unit) : ShardM Unit := do
  let state ← inspectCommitProjectionState doc
  let handled ← handleExistingCommitProjection doc state
  if handled then pure () else k state

/-- The decision of an apply on a good state, with any writes `k` behind it. -/
theorem decided_run (hg : s.Good) (doc : CommitDocument)
    (k : CommitProjectionState → ShardM Unit) :
    ∃ t, s.Mends t ∧ match s.view.action doc with
      | .done => (decided doc k).run s = .ok () (t.cleanupCommittedOpenlogPreps doc)
      | .write a c => ∃ state : CommitProjectionState, state.targetExists = a ∧
          state.targetCounted = c ∧ (decided doc k).run s = (k state).run t
      | .reject err =>
        (decided doc k).run s = .error err t ∨
          (decided doc k).run s = .error err (t.cleanupCommittedOpenlogPreps doc) := by
  unfold View.action decided
  obtain ⟨t, hm, hinspect⟩ := inspectCommitProjectionState_run hg doc
  refine ⟨t, hm, ?_⟩
  cases hstate : s.view.commitState doc with
  | error err =>
    rw [hstate] at hinspect
    exact .inl (bind_of_error hinspect)
  | ok state =>
    rw [hstate] at hinspect
    have hhandle := handleExistingCommitProjection_eq doc state t
    rw [bind_of_ok hinspect]
    cases hact : commitAction doc state with
    | done =>
      simp only [hact] at hhandle ⊢
      rw [bind_of_ok hhandle]
      rfl
    | write a c =>
      simp only [hact] at hhandle ⊢
      obtain ⟨hex, hc⟩ := commitAction_write hact
      exact ⟨state, hex, hc, by rw [bind_of_ok hhandle]; rfl⟩
    | reject err =>
      simp only [hact] at hhandle ⊢
      split at hhandle
      · exact .inr (bind_of_error hhandle)
      · exact .inl (bind_of_error hhandle)

theorem applyCommitDocument_eq (hg : s.Good) (doc : CommitDocument) (i : UInt64) :
    ∃ t, s.Mends t ∧ match s.view.action doc with
      | .done => (applyCommitDocument doc i).run s = .ok () (t.cleanupCommittedOpenlogPreps doc)
      | .write a c => (applyCommitDocument doc i).run s = (commitNewDocument doc i a c).run t
      | .reject err =>
        ∃ s', (applyCommitDocument doc i).run s = .error err s' ∧ s'.view = s.view ∧
          s'.Good ∧ s.SameRest s' := by
  obtain ⟨t, hm, hrun⟩ := decided_run hg doc
    fun state => commitNewDocument doc i state.targetExists state.targetCounted
  refine ⟨t, hm, ?_⟩
  cases hact : s.view.action doc with
  | done =>
    rw [hact] at hrun
    exact hrun
  | write a c =>
    rw [hact] at hrun
    obtain ⟨state, rfl, rfl, hrun⟩ := hrun
    exact hrun
  | reject err =>
    rw [hact] at hrun
    rcases hrun with hrun | hrun
    · exact ⟨t, hrun, hm.view, hm.good hg, hm.sameRest⟩
    · exact ⟨_, hrun, hm.view, (hm.good hg).cleanup doc,
        hm.sameRest.trans (t.sameRest_cleanup doc)⟩

theorem Shard.Mends.canRequeue {t : Shard} (h : s.Mends t) :
    t.CanRequeue doc i ↔ s.CanRequeue doc i := by
  unfold Shard.CanRequeue
  rw [h.isOpen, h.requeueReady]

theorem applyCommitDocument_ok (hg : s.Good) (h : (applyCommitDocument doc i).run s = .ok () s') :
    s.view.commit (s.isOpen doc.blockID) doc = some s'.view ∧ s'.Good ∧ s.SameRest s' := by
  obtain ⟨t, hm, heq⟩ := applyCommitDocument_eq hg doc i
  have hgt := hm.good hg
  unfold View.commit
  cases hact : s.view.action doc with
  | done =>
    simp only [hact] at heq ⊢
    obtain rfl : t.cleanupCommittedOpenlogPreps doc = s' := by simpa using heq.symm.trans h
    exact ⟨congrArg some hm.view.symm, hgt.cleanup doc, hm.sameRest.trans (t.sameRest_cleanup doc)⟩
  | write a c =>
    simp only [hact] at heq ⊢
    rcases commitNewDocument_run hgt doc i a c with
      ⟨u, hrun, hg', hsame, -, hw⟩ | ⟨⟨err, u, hrun⟩, -⟩
    · obtain rfl : u = s' := by simpa using hrun.symm.trans (heq.symm.trans h)
      rw [hm.view, hm.isOpen] at hw
      exact ⟨hw, hg', hm.sameRest.trans hsame⟩
    · exact absurd (hrun.symm.trans (heq.symm.trans h)) (by simp)
  | reject err =>
    simp only [hact] at heq
    obtain ⟨u, hu, -⟩ := heq
    exact absurd (hu.symm.trans h) (by simp)

theorem applyCommitDocument_intact (hg : s.Good) (hi : s.Intact)
    (h : (applyCommitDocument doc i).run s = .ok () s') :
    s'.Good ∧ s'.Intact := by
  obtain ⟨-, hg', hrest⟩ := applyCommitDocument_ok hg h
  exact ⟨hg', hrest.intact hi⟩

/-- The command writes: it is neither rejected nor committed before. -/
def View.Writes (v : View) (doc : CommitDocument) : Prop :=
  ∃ a c, v.action doc = .write a c

theorem applyCommitDocument_ok_iff (hg : s.Good) (doc : CommitDocument) (i : UInt64) :
    (∃ s', (applyCommitDocument doc i).run s = .ok () s') ↔
      (∃ v', s.view.commit (s.isOpen doc.blockID) doc = some v') ∧
        (s.view.Writes doc → s.CanRequeue doc i) := by
  obtain ⟨t, hm, heq⟩ := applyCommitDocument_eq hg doc i
  unfold View.commit View.Writes
  cases hact : s.view.action doc with
  | done =>
    simp only [hact] at heq ⊢
    exact iff_of_true ⟨_, heq⟩ ⟨⟨_, rfl⟩, by simp⟩
  | write a c =>
    simp only [hact] at heq ⊢
    rcases commitNewDocument_run (hm.good hg) doc i a c with
      ⟨u, hrun, -, -, hq, hw⟩ | ⟨⟨err, u, hrun⟩, hfail⟩
    · rw [hm.view, hm.isOpen] at hw
      exact iff_of_true ⟨u, heq.trans hrun⟩ ⟨⟨_, hw⟩, fun _ => hm.canRequeue.mp hq⟩
    rw [hm.view, hm.isOpen, hm.canRequeue] at hfail
    refine iff_of_false ?_ ?_
    · rintro ⟨s', hs'⟩
      exact absurd (hrun.symm.trans (heq.symm.trans hs')) (by simp)
    rintro ⟨⟨v', hv'⟩, hq⟩
    rcases hfail with hnone | hnq
    · exact absurd (hnone.symm.trans hv') (by simp)
    · exact hnq (hq ⟨a, c, rfl⟩)
  | reject err =>
    simp only [hact] at heq ⊢
    obtain ⟨u, hu, -⟩ := heq
    refine iff_of_false ?_ (by simp)
    rintro ⟨s', hs'⟩
    exact absurd (hu.symm.trans hs') (by simp)

end Scrap
