/-
# The upload outbox of a Block

`Slot` is the pending and the confirmed record of a Block in the upload tables. A committed entry
changes the slot of the Block it names and no other (`apply_slot`):

    SealBlock       a pending record of generation zero, unless the pending record has a
                    positive generation
    ConfirmUpload   the confirmed record of the pending one's generation, and no pending record;
                    a stale generation is skipped, a wrong size clears the pending record
    CommitDocument, RewrapDocumentEnvelope
                    a pending record of the entry's generation when the entry writes to the
                    `.idx` of a closed Block (a REQUEUE), nothing otherwise
-/
import Scrap.Shard.ApplyFrame
import Scrap.Shard.Lifecycle
import Scrap.Shard.Member

namespace Scrap

open Block Fallible Function

@[ext] structure Slot where
  pending : Option PendingUpload
  confirmed : Option ConfirmedUpload
deriving DecidableEq

def Shard.slot (s : Shard) (b : UInt64) : Slot :=
  ⟨s.idx.pendingUploads b, s.idx.confirmedUploads b⟩

/-! ## The three operations -/

def SealBlock.pendingUpload (cmd : SealBlock) : PendingUpload :=
  ⟨cmd.blockID, cmd.shardID, cmd.sealedSizeBytes, cmd.sealedAtUs, 0⟩

def Slot.Requeued (x : Slot) : Prop := ∃ p, x.pending = some p ∧ 0 < p.uploadGeneration

def Slot.onSeal (x : Slot) (cmd : SealBlock) : Slot :=
  match x.pending with
  | none => ⟨some cmd.pendingUpload, x.confirmed⟩
  | some p => if 0 < p.uploadGeneration then x else ⟨some cmd.pendingUpload, x.confirmed⟩

def Slot.onConfirm (x : Slot) (c : ConfirmUpload) : Slot :=
  match x.pending with
  | some p =>
    if p.uploadGeneration ≠ c.uploadGeneration then x
    else if c.blockObject.sizeBytes ≠ p.sealedSizeBytes then ⟨none, x.confirmed⟩
    else ⟨none, some (confirmedUploadFromCommand c p.sealedSizeBytes)⟩
  | none =>
    match x.confirmed with
    | none => x
    | some q =>
      if q.uploadGeneration ≠ c.uploadGeneration then x
      else if c.blockObject.sizeBytes ≠ q.sealedSizeBytes then x
      else ⟨none, some (confirmedUploadFromCommand c q.sealedSizeBytes)⟩

def Slot.Accepts (x : Slot) (c : ConfirmUpload) : Prop :=
  match x.pending with
  | some p => p.uploadGeneration = c.uploadGeneration ∧ c.blockObject.sizeBytes = p.sealedSizeBytes
  | none => ∃ q, x.confirmed = some q ∧ q.uploadGeneration = c.uploadGeneration ∧
      c.blockObject.sizeBytes = q.sealedSizeBytes

/-- The slot after a requeue. A Block without a known size is not requeued. -/
def Shard.requeueSlot (s : Shard) (b : UInt64) (gen : Int) : Slot :=
  if s.uploadEnabled then
    match s.sealedSizeForUploadRequeue b with
    | .error _ => s.slot b
    | .ok size => ⟨some ⟨b, s.shardID, size, gen, gen⟩, (s.slot b).confirmed⟩
  else s.slot b

/-! ## What an entry does -/

def RaftCommand.blockID : RaftCommand → UInt64
  | .commitDoc doc => doc.blockID
  | .rewrapDoc cmd => cmd.blockID
  | .sealBlock cmd => cmd.blockID
  | .confirmUpload cmd => cmd.blockID

/-- The generation of the record that a requeue by the entry at index `i` writes. -/
def RaftCommand.generation (i : UInt64) : RaftCommand → Int
  | .commitDoc doc => uploadGenerationFromApplyIndex i doc.createdAtUs
  | .rewrapDoc cmd => rewrapUploadGeneration cmd i
  | .sealBlock _ => 0
  | .confirmUpload _ => 0

/-- The entry writes to the `.idx` of a closed Block, or finds there what it would write. -/
def Shard.requeues (c : Crypto) (s : Shard) : RaftCommand → Bool
  | .commitDoc doc => !s.isOpen doc.blockID && (s.view.action doc).isWrite
  | .rewrapDoc cmd =>
    !s.isOpen cmd.blockID &&
      match replaceRewrapEnvelope c (s.blocks cmd.blockID).idx cmd with
      | .ok (_, changed) => changed
      | .error _ => false
  | .sealBlock _ => false
  | .confirmUpload _ => false

def Shard.nextSlot (c : Crypto) (s : Shard) (i : UInt64) : RaftCommand → Slot
  | .sealBlock cmd => (s.slot cmd.blockID).onSeal cmd
  | .confirmUpload cmd => (s.slot cmd.blockID).onConfirm cmd
  | cmd =>
    if s.requeues c cmd then s.requeueSlot cmd.blockID (cmd.generation i)
    else s.slot cmd.blockID

/-! ## The seal and the confirm -/

variable {doc : CommitDocument} {gen : Int} {cmd : RewrapDocumentEnvelope} {t : String}
  {b i : UInt64}

section Uploads

variable {s s' : Shard}

theorem Shard.slot_congr (hp : s'.idx.pendingUploads = s.idx.pendingUploads)
    (hc : s'.idx.confirmedUploads = s.idx.confirmedUploads) : s'.slot = s.slot := by
  funext b
  rw [Shard.slot, Shard.slot, hp, hc]

theorem Shard.slot_of_idx (h : s'.idx = s.idx) : s'.slot = s.slot :=
  Shard.slot_congr (by rw [h]) (by rw [h])

theorem Shard.slot_update_pending {p : Option PendingUpload}
    (hp : s'.idx.pendingUploads = update s.idx.pendingUploads b p)
    (hc : s'.idx.confirmedUploads = s.idx.confirmedUploads) :
    s'.slot = update s.slot b ⟨p, (s.slot b).confirmed⟩ := by
  funext b'
  by_cases hb : b' = b <;> simp [Shard.slot, hp, hc, hb]

theorem Index.putPendingUpload_ok {idx idx' : Index} {u : PendingUpload}
    (h : idx.putPendingUpload u = .ok idx') :
    idx' = { idx with pendingUploads := update idx.pendingUploads u.blockID (some u) } := by
  unfold Index.putPendingUpload at h
  cases hv : validatePendingUpload u with
  | error err => simp [hv] at h
  | ok v => simpa [hv] using h.symm

theorem Index.applyCommittedSeal_ok {idx idx' : Index} {cmd : SealBlock}
    (h : idx.applyCommittedSeal cmd = .ok idx') :
    ((∃ p, idx.pendingUploads cmd.blockID = some p ∧ 0 < p.uploadGeneration) ∧ idx' = idx) ∨
      ((∀ p, idx.pendingUploads cmd.blockID = some p → ¬ 0 < p.uploadGeneration) ∧
        idx.putPendingUpload cmd.pendingUpload = .ok idx') := by
  unfold Index.applyCommittedSeal Index.getPendingUpload at h
  by_cases hb : cmd.blockID = 0
  · simp [hb] at h
  rw [if_neg hb] at h
  cases hp : idx.pendingUploads cmd.blockID with
  | none =>
    simp only [hp] at h
    split at h
    · cases h
    · next hput => exact .inr ⟨by simp, hput.trans (congrArg Except.ok (Except.ok.inj h))⟩
  | some p =>
    simp only [hp] at h
    by_cases hgen : 0 < p.uploadGeneration
    · rw [if_pos hgen] at h
      exact .inl ⟨⟨p, rfl, hgen⟩, (Except.ok.inj h).symm⟩
    rw [if_neg hgen] at h
    split at h
    · cases h
    · next hput =>
        exact .inr ⟨by simpa using hgen, hput.trans (congrArg Except.ok (Except.ok.inj h))⟩

theorem applySealBlock_slot {cmd : SealBlock} (h : (applySealBlock cmd).run s = .ok () s') :
    s'.slot = update s.slot cmd.blockID ((s.slot cmd.blockID).onSeal cmd) := by
  rw [applySealBlock, get_bind] at h
  split at h
  · cases h
  rename_i idx hseal
  obtain rfl : Shard.closeIfOpen { s with idx := idx } cmd.blockID = s' := by simpa using h
  rw [Shard.slot_of_idx (Shard.closeIfOpen_idx { s with idx := idx } cmd.blockID)]
  rcases Index.applyCommittedSeal_ok hseal with ⟨⟨p, hp, hgen⟩, rfl⟩ | ⟨hgen, hput⟩
  · have hkeep : (s.slot cmd.blockID).onSeal cmd = s.slot cmd.blockID := by
      simp [Slot.onSeal, Shard.slot, hp, hgen]
    rw [hkeep, update_eq_self]
  · have hnew : (s.slot cmd.blockID).onSeal cmd =
        ⟨some cmd.pendingUpload, (s.slot cmd.blockID).confirmed⟩ := by
      cases hp : s.idx.pendingUploads cmd.blockID with
      | none => simp [Slot.onSeal, Shard.slot, hp]
      | some p => simp [Slot.onSeal, Shard.slot, hp, hgen p hp]
    rw [hnew]
    obtain rfl := Index.putPendingUpload_ok hput
    exact Shard.slot_update_pending rfl rfl

theorem Shard.slot_closeIfOpen (s : Shard) (b : UInt64) : (s.closeIfOpen b).slot = s.slot :=
  Shard.slot_of_idx (s.closeIfOpen_idx b)

theorem Shard.confirmRecord_slot (s : Shard) (c : ConfirmUpload) :
    (∀ u, s.idx.confirmRecord c = .ok u → (s.slot c.blockID).Accepts c ∧
        (s.slot c.blockID).onConfirm c = ⟨none, some u⟩) ∧
      (s.idx.confirmRecord c = .error .generationMismatch →
        (s.slot c.blockID).onConfirm c = s.slot c.blockID) ∧
      (s.idx.confirmRecord c = .error .unsafeCatalog →
        (s.slot c.blockID).onConfirm c = ⟨none, (s.slot c.blockID).confirmed⟩) := by
  unfold Index.confirmRecord Index.getPendingUpload Index.getConfirmedUpload
  by_cases hb : c.blockID = 0
  · simp [hb]
  simp only [if_neg hb, Slot.onConfirm, Slot.Accepts, Shard.slot]
  cases s.idx.pendingUploads c.blockID with
  | none =>
    cases s.idx.confirmedUploads c.blockID with
    | none => simp
    | some q => ?_
    by_cases hgen : q.uploadGeneration = c.uploadGeneration
    · rcases c.record_cases q.sealedSizeBytes with ⟨hr, hn, -⟩ | ⟨hr, hn⟩ | ⟨field, hr⟩ <;>
        simp_all
    · simp [hgen]
  | some p =>
    by_cases hgen : p.uploadGeneration = c.uploadGeneration
    · rcases c.record_cases p.sealedSizeBytes with ⟨hr, hn, -⟩ | ⟨hr, hn⟩ | ⟨field, hr⟩ <;>
        simp_all
    · simp [hgen]

theorem Shard.slot_putConfirmed (s : Shard) (u : ConfirmedUpload) :
    (s.putConfirmed u).slot = update s.slot u.blockID ⟨(s.slot u.blockID).pending, some u⟩ := by
  funext b
  by_cases hb : b = u.blockID <;> simp [Shard.slot, Shard.putConfirmed, hb]

theorem Shard.slot_withoutPending (s : Shard) (b : UInt64) :
    (s.withoutPending b).slot = update s.slot b ⟨none, (s.slot b).confirmed⟩ :=
  Shard.slot_update_pending rfl rfl

theorem applyConfirmUpload_slot {c : ConfirmUpload} (h : (applyConfirmUpload c).run s = .ok () s') :
    s'.slot = update s.slot c.blockID ((s.slot c.blockID).onConfirm c) := by
  obtain ⟨hput, hstale, hunsafe⟩ := s.confirmRecord_slot c
  rcases applyConfirmUpload_cases h with ⟨u, hu, rfl⟩ | ⟨hr, rfl⟩ | ⟨hr, rfl⟩
  · rw [Shard.slot_closeIfOpen, Shard.slot_withoutPending, Shard.slot_putConfirmed, (hput u hu).2]
    obtain ⟨⟨n, rfl⟩, -⟩ := Index.confirmRecord_ok hu
    simp [confirmedUploadFromCommand]
  · rw [hstale hr, update_eq_self]
  · rw [Shard.slot_withoutPending, Shard.slot_closeIfOpen, hunsafe hr]

end Uploads

/-! ## The requeue -/

section Requeue

variable {s s' : Shard}

theorem Shard.Mends.requeueSlot (h : s.Mends s') (b : UInt64) (gen : Int) :
    s'.requeueSlot b gen = s.requeueSlot b gen := by
  unfold Shard.requeueSlot Shard.sealedSizeForUploadRequeue Shard.slot
  rw [h.idx_eq, h.sameRest.uploadEnabled, h.sameRest.shardID, h.sameRest.blk b]

theorem Shard.requeueSlot_setIdx (s : Shard) (b c : UInt64) (f : IdxFile) (gen : Int) :
    (s.setIdx c f).requeueSlot b gen = s.requeueSlot b gen := by
  have hblk : ((s.setIdx c f).blocks b).blk = (s.blocks b).blk := by
    by_cases hb : b = c
    · subst hb
      simp
    · rw [s.setIdx_blocks_of_ne c f hb]
  unfold Shard.requeueSlot Shard.sealedSizeForUploadRequeue
  rw [hblk]
  rfl

theorem requeue_slot (h : (requeueBlockUploadAfterIndexAppend b gen).run s = .ok () s') :
    s'.slot = update s.slot b (s.requeueSlot b gen) := by
  rw [requeueBlockUploadAfterIndexAppend, get_bind] at h
  unfold Shard.requeueSlot
  by_cases hu : s.uploadEnabled = true
  · rw [if_pos hu] at h ⊢
    cases hsize : s.sealedSizeForUploadRequeue b with
    | error err => simp [hsize] at h
    | ok size => ?_
    simp only [hsize] at h ⊢
    cases hput : s.idx.putPendingUpload ⟨b, s.shardID, size, gen, gen⟩ with
    | error err => simp [hput] at h
    | ok idx => ?_
    obtain rfl : { s with idx := idx } = s' := by simpa [hput] using h
    obtain rfl := Index.putPendingUpload_ok hput
    exact Shard.slot_update_pending rfl rfl
  · rw [if_neg hu] at h ⊢
    obtain rfl : s = s' := by simpa using h
    rw [update_eq_self]

theorem containsDocument_mends {name : String} {r : Bool}
    (h : (blockIndexContainsDocumentRepairingTail b t name).run s = .ok r s') : s.Mends s' := by
  rw [blockIndexContainsDocumentRepairingTail, get_bind] at h
  cases hf : (s.blocks b).idx with
  | none => simp [hf, openIndexReader] at h
  | some f => ?_
  cases htorn : f.torn with
  | false =>
    obtain ⟨-, rfl⟩ : _ ∧ s = s' := by simpa [hf, openIndexReader, htorn] using h
    exact .refl s
  | true =>
    simp only [hf, openIndexReader, htorn] at h
    obtain ⟨u, t', hset, hpure⟩ := bind_ok.mp h
    obtain rfl : s.setIdx b { f with torn := false } = t' := by simpa using hset
    obtain rfl : s.setIdx b { f with torn := false } = s' := (EStateM.Result.ok.inj hpure).2
    exact .setIdx hf

theorem appendDocumentIndexEntry_slot {entry : IndexEntry} {a : Bool}
    (h : (appendDocumentIndexEntry doc entry i a).run s = .ok () s') :
    s'.slot = if s.isOpen doc.blockID then s.slot
      else update s.slot doc.blockID (s.requeueSlot doc.blockID
        (uploadGenerationFromApplyIndex i doc.createdAtUs)) := by
  rw [appendDocumentIndexEntry, get_bind] at h
  cases hopen : s.isOpen doc.blockID with
  | true =>
    rw [if_pos hopen] at h
    have hframe : s.idx = s'.idx := by
      cases a with
      | true => obtain rfl : s = s' := by simpa using h
                rfl
      | false => ?_
      cases hf : (s.blocks doc.blockID).idx with
      | none =>
        obtain rfl : s = s' := by simpa [hf] using h
        rfl
      | some f =>
        cases happ : f.append entry with
        | error err => simp [hf, happ] at h
        | ok f' =>
          obtain rfl : s.setIdx doc.blockID f' = s' := by simpa [hf, happ] using h
          rfl
    exact Shard.slot_of_idx hframe.symm
  | false =>
    rw [if_neg (by simp [hopen])] at h
    rw [if_neg (by simp)]
    obtain ⟨contains, t, hcontains, h⟩ := bind_ok.mp h
    have hm := containsDocument_mends hcontains
    cases contains with
    | true => rw [requeue_slot h, Shard.slot_of_idx hm.idx_eq, hm.requeueSlot]
    | false => ?_
    rw [if_neg (by simp), get_bind] at h
    cases hf : (t.blocks doc.blockID).idx with
    | none => simp [hf] at h
    | some f => ?_
    cases happ : f.append entry with
    | error err => simp [hf, happ] at h
    | ok f' => ?_
    simp only [hf, happ] at h
    have hslot : (t.setIdx doc.blockID f').slot = s.slot :=
      Shard.slot_of_idx ((t.setIdx_idx _ _).trans hm.idx_eq)
    rw [requeue_slot h, Shard.requeueSlot_setIdx, hm.requeueSlot, hslot]

theorem Index.addProjectionDocument_uploads (idx : Index) (t : String) (b : UInt64) :
    (idx.addProjectionDocument t b).2.pendingUploads = idx.pendingUploads ∧
      (idx.addProjectionDocument t b).2.confirmedUploads = idx.confirmedUploads := by
  have hincr : ∀ idx' : Index, ∀ idx'', idx'.incrementDocCount t = .ok idx'' →
      idx''.pendingUploads = idx'.pendingUploads ∧
        idx''.confirmedUploads = idx'.confirmedUploads := by
    intro idx' idx'' h
    unfold Index.incrementDocCount at h
    split at h
    · cases h
    rename_i e hget
    split_ifs at h
    obtain rfl := (Except.ok.inj h).symm
    exact ⟨rfl, rfl⟩
  unfold Index.addProjectionDocument
  cases hget : idx.get t with
  | error err => cases err <;> exact ⟨rfl, rfl⟩
  | ok e => ?_
  simp only
  split_ifs with hlast
  · rw [Index.addBlockID_of_get hget]
    simp only
    split
    · exact ⟨rfl, rfl⟩
    · rename_i idx' hok
      have htables := hincr _ idx' hok
      exact htables
  · split
    · exact ⟨rfl, rfl⟩
    · rename_i idx' hok
      exact hincr _ idx' hok

theorem addProjectionDocument_slot (h : (addProjectionDocument t b).run s = .ok () s') :
    s'.slot = s.slot := by
  rw [addProjectionDocument] at h
  obtain ⟨hp, hc⟩ := s.idx.addProjectionDocument_uploads t b
  rcases hadd : s.idx.addProjectionDocument t b with ⟨r, idx⟩
  rw [hadd] at hp hc
  cases r with
  | error err => simp [hadd] at h
  | ok u =>
    obtain rfl : { s with idx := idx } = s' := by simpa [hadd] using h
    exact Shard.slot_congr hp hc

theorem preflight_state (h : (preflightProjectionDocCount t).run s = .ok () s') : s = s' := by
  rw [preflightProjectionDocCount] at h
  cases hpre : s.idx.preflightProjectionDocCount t with
  | error err => simp [hpre] at h
  | ok u => simpa [hpre] using h

theorem commitNewDocument_slot {a counted : Bool}
    (h : (commitNewDocument doc i a counted).run s = .ok () s') :
    s'.slot = if s.isOpen doc.blockID then s.slot
      else update s.slot doc.blockID (s.requeueSlot doc.blockID
        (uploadGenerationFromApplyIndex i doc.createdAtUs)) := by
  unfold commitNewDocument at h
  split at h
  · cases h
  cases counted with
  | true =>
    obtain ⟨u, t, happ, hclean⟩ := bind_ok.mp h
    obtain rfl : t.cleanupCommittedOpenlogPreps doc = s' := (EStateM.Result.ok.inj hclean).2
    have hslot : (t.cleanupCommittedOpenlogPreps doc).slot = t.slot := rfl
    rw [hslot]
    exact appendDocumentIndexEntry_slot happ
  | false =>
    obtain ⟨u, s₁, hpre, h⟩ := bind_ok.mp h
    obtain ⟨u, t, happ, h⟩ := bind_ok.mp h
    obtain ⟨u, t', hadd, hclean⟩ := bind_ok.mp h
    obtain rfl : t'.cleanupCommittedOpenlogPreps doc = s' := (EStateM.Result.ok.inj hclean).2
    obtain rfl := preflight_state hpre
    have hslot : (t'.cleanupCommittedOpenlogPreps doc).slot = t'.slot := rfl
    rw [hslot, addProjectionDocument_slot hadd]
    exact appendDocumentIndexEntry_slot happ

theorem Shard.slot_wake (s : Shard) (key : String) (r : Option ShardErr) :
    (s.wake key r).slot = s.slot := by
  unfold Shard.wake
  split
  · rfl
  · rfl

theorem applyCommitDocument_slot (hg : s.Good) (h : (applyCommitDocument doc i).run s = .ok () s') :
    s'.slot = if !s.isOpen doc.blockID && (s.view.action doc).isWrite then
        update s.slot doc.blockID (s.requeueSlot doc.blockID
          (uploadGenerationFromApplyIndex i doc.createdAtUs))
      else s.slot := by
  obtain ⟨t, hm, heq⟩ := applyCommitDocument_eq hg doc i
  cases hact : s.view.action doc with
  | done =>
    simp only [hact] at heq
    obtain rfl : t.cleanupCommittedOpenlogPreps doc = s' :=
      (EStateM.Result.ok.inj (heq.symm.trans h)).2
    rw [if_neg (by simp [CommitAction.isWrite])]
    exact Shard.slot_of_idx hm.idx_eq
  | write a counted =>
    simp only [hact] at heq
    rw [commitNewDocument_slot (heq.symm.trans h), hm.isOpen, hm.requeueSlot,
      Shard.slot_of_idx hm.idx_eq]
    cases s.isOpen doc.blockID <;> simp [CommitAction.isWrite]
  | reject err =>
    simp only [hact] at heq
    obtain ⟨u, hu, -⟩ := heq
    exact absurd (hu.symm.trans h) (by simp)

theorem IdxFile.append_torn {f f' : IdxFile} {e : IndexEntry} (h : f.append e = .ok f') :
    f'.torn = f.torn := by
  unfold IdxFile.append at h
  split at h
  · cases h
  simp only [Except.ok.injEq] at h
  subst h
  split
  · rfl
  · rfl

theorem rewriteIndexEntries_torn {es : List IndexEntry} {f : IdxFile}
    (h : rewriteIndexEntries es = .ok f) : f.torn = false := by
  have hfold : ∀ (es : List IndexEntry) (g f : IdxFile), es.foldlM IdxFile.append g = .ok f →
      f.torn = g.torn := by
    intro es
    induction es with
    | nil =>
      intro g f hg
      rw [← Except.ok.inj hg]
    | cons e es ih =>
      intro g f hg
      rw [List.foldlM_cons] at hg
      obtain ⟨g', happ, hg⟩ := except_bind_ok.mp hg
      rw [ih g' f hg, IdxFile.append_torn happ]
  exact hfold es newIndexFile f h

theorem replaceRewrapEnvelope_torn {c : Crypto} {idx idx' : Option IdxFile} {changed : Bool}
    (h : replaceRewrapEnvelope c idx cmd = .ok (idx', changed)) :
    ∃ f, idx' = some f ∧ f.torn = false := by
  obtain ⟨f, e, current, hr⟩ := replaceRewrapEnvelope_reads (.inr ⟨_, h⟩)
  rw [replaceRewrapEnvelope_eq hr] at h
  split_ifs at h with hold hsame hnew
  · obtain ⟨rfl, -⟩ := Prod.mk.inj (Except.ok.inj h)
    exact ⟨f, rfl, hr.intact⟩
  · split at h
    · cases h
    rename_i f' hrw
    simp only [Except.ok.injEq, Prod.mk.injEq] at h
    exact ⟨f', h.1.symm, rewriteIndexEntries_torn hrw⟩
  · obtain ⟨rfl, -⟩ := Prod.mk.inj (Except.ok.inj h)
    exact ⟨f, rfl, hr.intact⟩

theorem applyRewrapDocumentEnvelope_ok {c : Crypto}
    (h : (applyRewrapDocumentEnvelope c cmd gen).run s = .ok () s') :
    ∃ f changed, replaceRewrapEnvelope c (s.blocks cmd.blockID).idx cmd = .ok (some f, changed) ∧
      f.torn = false ∧ if s.requeues c (.rewrapDoc cmd) then
        (requeueBlockUploadAfterIndexAppend cmd.blockID gen).run (s.setIdx cmd.blockID f) = .ok () s'
      else s' = s.setIdx cmd.blockID f := by
  rw [applyRewrapDocumentEnvelope_run] at h
  cases hvalid : validateRewrapCommand c cmd with
  | error err => simp [hvalid] at h
  | ok u => ?_
  cases hrep : replaceRewrapEnvelope c (s.blocks cmd.blockID).idx cmd with
  | error err => simp [hvalid, hrep] at h
  | ok p => ?_
  obtain ⟨idx, changed⟩ := p
  obtain ⟨f, rfl, hf⟩ := replaceRewrapEnvelope_torn hrep
  refine ⟨f, changed, rfl, hf, ?_⟩
  simp only [hvalid, hrep, finishRewrapApply] at h
  by_cases hq : changed = true ∧ (!s.isOpen cmd.blockID) = true
  · rw [if_pos hq] at h
    rw [if_pos (by simp [Shard.requeues, hrep, hq.1, hq.2])]
    exact h
  · rw [if_neg hq] at h
    rw [if_neg (by simpa [Shard.requeues, hrep, and_comm] using hq)]
    exact (EStateM.Result.ok.inj h).2.symm

theorem applyRewrapDocumentEnvelope_slot {c : Crypto}
    (h : (applyRewrapDocumentEnvelope c cmd gen).run s = .ok () s') :
    s'.slot = if s.requeues c (.rewrapDoc cmd) then
        update s.slot cmd.blockID (s.requeueSlot cmd.blockID gen)
      else s.slot := by
  obtain ⟨f, changed, -, -, hend⟩ := applyRewrapDocumentEnvelope_ok h
  split_ifs at hend ⊢
  · rw [requeue_slot hend, Shard.requeueSlot_setIdx]
    rfl
  · rw [hend]
    rfl

/-- A stale rewrap is found stale before anything is written. -/
theorem applyRewrapDocumentEnvelope_stale {c : Crypto}
    (h : (applyRewrapDocumentEnvelope c cmd gen).run s = .error .staleEnvelope s') :
    s' = s ∧ s.requeues c (.rewrapDoc cmd) = false := by
  rw [applyRewrapDocumentEnvelope_run] at h
  cases hvalid : validateRewrapCommand c cmd with
  | error err =>
    obtain ⟨rfl, -⟩ : err = .staleEnvelope ∧ s = s' := by simpa [hvalid] using h
    exact absurd hvalid validateRewrapCommand_not_stale
  | ok u =>
    cases hrep : replaceRewrapEnvelope c (s.blocks cmd.blockID).idx cmd with
    | error err =>
      obtain ⟨-, rfl⟩ : err = .staleEnvelope ∧ s = s' := by simpa [hvalid, hrep] using h
      exact ⟨rfl, by simp [Shard.requeues, hrep]⟩
    | ok p =>
      simp only [hvalid, hrep] at h
      exact absurd h (finishRewrap_not_stale _ _ _ _ _ _)

end Requeue

/-! ## Every entry -/

theorem update_of_requeues {f : UInt64 → Slot} {x : Slot} (q : Bool) :
    (if q then update f b x else f) = update f b (if q then x else f b) := by
  cases q <;> simp

section Commands

variable {c : Crypto} {s s' : Shard} {i : UInt64}

theorem applyCommitDocumentCommand_ok (h : (applyCommitDocumentCommand doc i).run s = .ok () s') :
    ∃ t, (applyCommitDocument doc i).run s = .ok () t ∧
      s' = t.wake (commitProposalWaiterKey doc) none := by
  rw [applyCommitDocumentCommand_run] at h
  cases hrun : (applyCommitDocument doc i).run s with
  | error err t => simp [hrun] at h
  | ok u t => exact ⟨t, rfl, by simpa [hrun] using h.symm⟩

theorem applyRewrapDocumentEnvelopeCommand_ok
    (h : (applyRewrapDocumentEnvelopeCommand c cmd i).run s = .ok () s') :
    ∃ t key r, s' = t.wake key r ∧ ((t = s ∧ s.requeues c (.rewrapDoc cmd) = false) ∨
      (applyRewrapDocumentEnvelope c cmd (rewrapUploadGeneration cmd i)).run s = .ok () t) := by
  rw [applyRewrapDocumentEnvelopeCommand_run] at h
  cases hrun : (applyRewrapDocumentEnvelope c cmd (rewrapUploadGeneration cmd i)).run s with
  | ok u t =>
    simp only [hrun] at h
    exact ⟨t, _, _, (EStateM.Result.ok.inj h).2.symm, .inr rfl⟩
  | error err t =>
    by_cases hstale : err = .staleEnvelope
    · subst hstale
      simp only [hrun] at h
      obtain ⟨rfl, hno⟩ := applyRewrapDocumentEnvelope_stale hrun
      exact ⟨_, _, _, (EStateM.Result.ok.inj h).2.symm, .inl ⟨rfl, hno⟩⟩
    · rw [hrun] at h
      cases err <;> simp at h hstale

theorem apply_slot (hg : s.Good) {cmd : RaftCommand}
    (h : (applyEntryCommand c cmd i).run s = .ok () s') :
    s'.slot = update s.slot cmd.blockID (s.nextSlot c i cmd) := by
  cases cmd with
  | commitDoc doc =>
    obtain ⟨t, hrun, rfl⟩ := applyCommitDocumentCommand_ok h
    rw [Shard.slot_wake, applyCommitDocument_slot hg hrun]
    exact update_of_requeues (s.requeues c (.commitDoc doc))
  | rewrapDoc cmd =>
    obtain ⟨t, key, r, rfl, ⟨rfl, hno⟩ | hrun⟩ := applyRewrapDocumentEnvelopeCommand_ok h
    · have hnext : t.nextSlot c i (.rewrapDoc cmd) = t.slot cmd.blockID := if_neg (by simp [hno])
      rw [Shard.slot_wake, hnext]
      exact (update_eq_self _ _).symm
    · rw [Shard.slot_wake, applyRewrapDocumentEnvelope_slot hrun]
      exact update_of_requeues (s.requeues c (.rewrapDoc cmd))
  | sealBlock cmd => exact applySealBlock_slot h
  | confirmUpload cmd => exact applyConfirmUpload_slot h

end Commands

end Scrap
