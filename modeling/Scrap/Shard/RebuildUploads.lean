/-
# What a rebuild makes of the upload tables

The applies keep a confirmed upload in the catalog of the Projection and in the authority file of
the Block (`Shard.Filed`); the pending record is in the Projection alone. A rebuild takes the
pending record from the live Projection and the confirmed one from the file, and keeps ONE of them
for each closed Block (`Slot.rebuilt`):

    only one record          that one
    both                     the pending record if its generation is greater, else the confirmed
    none                     a new pending record from the size and the time of the `.blk`

So a Block that waits for its second upload loses its confirmed record.
-/
import Scrap.Shard.Obligations
import Scrap.Shard.Rebuild

namespace Scrap

open Block Fallible Function

/-! ## What the applies keep -/

/-- Every upload record passed its checks and is stored under its own Block. -/
structure Index.Checked (idx : Index) : Prop where
  pending : ∀ b p, idx.pendingUploads b = some p → p.blockID = b ∧ validatePendingUpload p = .ok ()
  confirmed : ∀ b q, idx.confirmedUploads b = some q →
    q.blockID = b ∧ validateConfirmedUploadAuthorityRecord q = .ok ()

/-- The confirmed uploads of the catalog are those of the authority files. -/
structure Shard.Filed (s : Shard) : Prop where
  checked : s.idx.Checked
  authority : ∀ b, (s.blocks b).confirmedUploadAuthority = s.idx.confirmedUploads b

variable {info : FileInfo} {dir : List UInt64} {u : PendingUpload} {fs : RebuildBlockFS} {s : Shard}
  {b : UInt64}

namespace Index.Checked

variable {idx idx' : Index}

theorem of_pending (h : idx.Checked) (hc : idx'.confirmedUploads = idx.confirmedUploads)
    (hp : ∀ b p, idx'.pendingUploads b = some p →
      idx.pendingUploads b = some p ∨ (p.blockID = b ∧ validatePendingUpload p = .ok ())) :
    idx'.Checked := by
  refine ⟨fun b p hbp => ?_, fun b q hq => h.confirmed b q (hc ▸ hq)⟩
  rcases hp b p hbp with hold | hnew
  · exact h.pending b p hold
  · exact hnew

theorem putPendingUpload (h : idx.Checked) (hput : idx.putPendingUpload u = .ok idx') :
    idx'.Checked := by
  have hvalid : validatePendingUpload u = .ok () := by
    unfold Index.putPendingUpload at hput
    cases hv : validatePendingUpload u with
    | error err => simp [hv] at hput
    | ok v => rfl
  obtain rfl := Index.putPendingUpload_ok hput
  refine h.of_pending rfl fun b p hp => ?_
  by_cases hb : b = u.blockID
  · subst hb
    obtain rfl : u = p := by simpa using hp
    exact .inr ⟨rfl, hvalid⟩
  · exact .inl (by simpa [hb] using hp)

end Index.Checked

namespace Shard.Filed

variable {s t : Shard}

theorem of_same (h : s.Filed) (hchecked : t.idx.Checked)
    (hconfirmed : t.idx.confirmedUploads = s.idx.confirmedUploads)
    (hfiles : ∀ b, (t.blocks b).confirmedUploadAuthority = (s.blocks b).confirmedUploadAuthority) :
    t.Filed :=
  ⟨hchecked, fun b => by rw [hfiles, h.authority, hconfirmed]⟩

theorem wake (h : s.Filed) (key : String) (r : Option ShardErr) : (s.wake key r).Filed := by
  unfold Shard.wake
  split
  · exact h
  · exact h.of_same h.checked rfl fun _ => rfl

theorem closeIfOpen (h : s.Filed) (b : UInt64) : (s.closeIfOpen b).Filed := by
  refine h.of_same (s.closeIfOpen_idx b ▸ h.checked) (by rw [s.closeIfOpen_idx]) fun b' => ?_
  unfold Shard.closeIfOpen Shard.openNewBlock
  split
  · by_cases hb : b' = s.nextBlockID <;> simp [hb]
  · rfl

theorem setIdx (h : s.Filed) (b : UInt64) (f : IdxFile) : (s.setIdx b f).Filed := by
  refine h.of_same h.checked rfl fun b' => ?_
  by_cases hb : b' = b
  · subst hb
    simp
  · rw [s.setIdx_blocks_of_ne b f hb]

/-- The authority file and the catalog are written together. -/
theorem putConfirmed (h : s.Filed) {u : ConfirmedUpload}
    (hv : validateConfirmedUploadAuthorityRecord u = .ok ()) : (s.putConfirmed u).Filed := by
  refine ⟨⟨h.checked.pending, fun b q hq => ?_⟩, fun b => ?_⟩
  · by_cases hb : b = u.blockID
    · subst hb
      obtain rfl : u = q := by simpa [Shard.putConfirmed] using hq
      exact ⟨rfl, hv⟩
    · exact h.checked.confirmed b q (by simpa [Shard.putConfirmed, hb] using hq)
  · by_cases hb : b = u.blockID
    · subst hb
      simp [Shard.putConfirmed, Shard.setBlock]
    · simpa [Shard.putConfirmed, Shard.setBlock, hb] using h.authority b

theorem withoutPending (h : s.Filed) (b : UInt64) : (s.withoutPending b).Filed := by
  refine h.of_same (h.checked.of_pending rfl fun b' p hp => .inl ?_) rfl fun _ => rfl
  by_cases hb : b' = b
  · simp [Shard.withoutPending, Shard.withPending, hb] at hp
  · simpa [Shard.withoutPending, Shard.withPending, hb] using hp

end Shard.Filed

section Applies

variable {c : Crypto} {s s' : Shard}

theorem apply_pending (hg : s.Good) {cmd : RaftCommand} {i : UInt64}
    (h : (applyEntryCommand c cmd i).run s = .ok () s') (hw : cmd.writesIdx = true)
    {p : PendingUpload} (hp : s'.idx.pendingUploads b = some p) :
    s.idx.pendingUploads b = some p ∨ (p.blockID = b ∧ validatePendingUpload p = .ok ()) := by
  have hslot := congrFun (apply_slot hg h) b
  by_cases hb : b = cmd.blockID
  · subst hb
    cases hreq : s.requeues c cmd with
    | true =>
      by_cases hup : s.uploadEnabled = true
      · obtain ⟨p', hp', hid, -, hvalid⟩ := apply_requeued hg h hup hreq
        obtain rfl : p' = p := Option.some.inj ((congrArg Slot.pending hp').symm.trans hp)
        exact .inr ⟨hid, hvalid⟩
      · have hsame : s.nextSlot c i cmd = s.slot cmd.blockID := by
          cases cmd with
          | sealBlock cmd => cases hw
          | confirmUpload cmd => cases hw
          | commitDoc doc => simp [Shard.nextSlot, Shard.requeueSlot, hup]
          | rewrapDoc cmd => simp [Shard.nextSlot, Shard.requeueSlot, hup]
        rw [update_self, hsame] at hslot
        exact .inl ((congrArg Slot.pending hslot).symm.trans hp)
    | false =>
      have hsame : s.nextSlot c i cmd = s.slot cmd.blockID := by
        cases cmd with
        | sealBlock cmd => cases hw
        | confirmUpload cmd => cases hw
        | commitDoc doc => simp [Shard.nextSlot, hreq]
        | rewrapDoc cmd => simp [Shard.nextSlot, hreq]
      rw [update_self, hsame] at hslot
      exact .inl ((congrArg Slot.pending hslot).symm.trans hp)
  · rw [update_of_ne hb] at hslot
    exact .inl ((congrArg Slot.pending hslot).symm.trans hp)

theorem apply_filed (hg : s.Good) (hf : s.Filed) {cmd : RaftCommand} {i : UInt64}
    (h : (applyEntryCommand c cmd i).run s = .ok () s') : s'.Filed := by
  cases cmd with
  | commitDoc doc =>
    have hpending := fun b p => apply_pending hg h rfl (b := b) (p := p)
    obtain ⟨t, hrun, rfl⟩ := applyCommitDocumentCommand_ok h
    obtain ⟨-, -, hrest⟩ := applyCommitDocument_ok hg hrun
    have hslot : (t.wake (commitProposalWaiterKey doc) none).idx = t.idx := by
      unfold Shard.wake
      split <;> rfl
    rw [hslot] at hpending
    refine (hf.of_same (hf.checked.of_pending hrest.confirmed hpending) hrest.confirmed
      fun b => ?_).wake _ _
    have hfiles := congrArg BlockFiles.confirmedUploadAuthority (hrest.files b)
    exact hfiles
  | rewrapDoc cmd =>
    have hpending := fun b p => apply_pending hg h rfl (b := b) (p := p)
    obtain ⟨t, key, r, rfl, ⟨rfl, -⟩ | hrun⟩ := applyRewrapDocumentEnvelopeCommand_ok h
    · exact hf.wake _ _
    have hslot : (t.wake key r).idx = t.idx := by
      unfold Shard.wake
      split <;> rfl
    rw [hslot] at hpending
    obtain ⟨f, changed, -, -, hs'⟩ := applyRewrapDocumentEnvelope_ok hrun
    have hset := hf.setIdx cmd.blockID f
    split at hs'
    · obtain ⟨-, p, rfl⟩ := requeue_ready hs'
      have ht : Shard.Filed ((s.setIdx cmd.blockID f).withPending p) :=
        hset.of_same (hf.checked.of_pending rfl hpending) rfl fun _ => rfl
      exact ht.wake _ _
    · subst hs'
      exact hset.wake _ _
  | sealBlock cmd =>
    obtain ⟨idx, hseal, rfl⟩ := applySealBlock_ok h
    refine Shard.Filed.closeIfOpen ?_ _
    rcases Index.applyCommittedSeal_ok hseal with ⟨-, rfl⟩ | ⟨-, hput⟩
    · exact hf
    · have hchecked := hf.checked.putPendingUpload hput
      obtain rfl := Index.putPendingUpload_ok hput
      exact hf.of_same hchecked rfl fun _ => rfl
  | confirmUpload cmd =>
    rcases applyConfirmUpload_cases h with ⟨u, hu, rfl⟩ | ⟨-, rfl⟩ | ⟨-, rfl⟩
    · exact ((hf.putConfirmed (Index.confirmRecord_ok hu).2).withoutPending _).closeIfOpen _
    · exact hf
    · exact (hf.closeIfOpen _).withoutPending _

theorem EntryStep.filed_after {st : EntryStep} (hg : (st.env s).Good) (hf : (st.env s).Filed)
    (h : outcome (st.run c) s = .ok ()) : (after (st.run c) s).Filed :=
  apply_filed hg hf (outcome_ok_iff.mp h)

end Applies

/-! ## What a rebuild does -/

def Index.slot (idx : Index) (b : UInt64) : Slot := ⟨idx.pendingUploads b, idx.confirmedUploads b⟩

/-- The one record that a rebuild keeps; `fresh` is the one it makes from the `.blk`. -/
def Slot.rebuilt (x : Slot) (fresh : PendingUpload) : Slot :=
  match x.pending, x.confirmed with
  | none, none => ⟨some fresh, none⟩
  | none, some q => ⟨none, some q⟩
  | some p, none => ⟨some p, none⟩
  | some p, some q => if q.uploadGeneration < p.uploadGeneration then ⟨some p, none⟩
      else ⟨none, some q⟩

theorem Slot.rebuilt_eq_self_iff (x : Slot) (fresh : PendingUpload) :
    x.rebuilt fresh = x ↔ (x.pending.isSome ↔ x.confirmed.isNone) := by
  obtain ⟨pending, confirmed⟩ := x
  cases pending with
  | none =>
    cases confirmed with
    | none => simp [Slot.rebuilt]
    | some q => simp [Slot.rebuilt]
  | some p =>
    cases confirmed with
    | none => simp [Slot.rebuilt]
    | some q => by_cases h : q.uploadGeneration < p.uploadGeneration <;> simp [Slot.rebuilt, h]

/-- What the bulk phase can have: each Block was read at some state of the Shard. -/
inductive Bulk.Reached : Bulk → Prop where
  | start : Reached .start
  | read {bulk bulk' : Bulk} {s : Shard} {b : UInt64} :
      Reached bulk → bulk.readBlock s b = .ok bulk' → Reached bulk'

section Rebuild

variable {s : Shard} {projection projection' : Index} {b : UInt64}

theorem Index.addProjectionDocuments_slot : ∀ {entries : List IndexEntry} {projection : Index},
    projection.addProjectionDocuments b entries = .ok projection' →
      projection'.slot = projection.slot
  | [], projection, h => by
    cases h
    rfl
  | e :: entries, projection, h => by
    rw [Index.addProjectionDocuments] at h
    obtain ⟨hpending, hconfirmed⟩ := projection.addProjectionDocument_uploads e.transactionID b
    rcases hadd : projection.addProjectionDocument e.transactionID b with ⟨r, idx⟩
    rw [hadd] at h hpending hconfirmed
    cases r with
    | error err => simp at h
    | ok u => ?_
    rw [Index.addProjectionDocuments_slot h]
    funext b'
    rw [Index.slot, Index.slot, ← hpending, ← hconfirmed]

theorem Bulk.Reached.slot {bulk : Bulk} (h : bulk.Reached) (b : UInt64) :
    bulk.projection.slot b = ⟨none, none⟩ := by
  induction h with
  | start => rfl
  | @read bulk bulk' s b' _ hread ih =>
    unfold Bulk.readBlock at hread
    split at hread
    · cases hread
    split at hread
    · cases hread
    split at hread
    · cases hread
    · rename_i hadd
      cases hread
      rw [← ih, Index.addProjectionDocuments_slot hadd]

theorem Shard.applyBlockIndexDelta_slot {seen : UInt64 → Option Nat} :
    ∀ {ids : List UInt64} {projection : Index},
      s.applyBlockIndexDelta seen projection ids = .ok projection' →
        projection'.slot = projection.slot
  | [], projection, h => by
    cases h
    rfl
  | b :: ids, projection, h => by
    rw [Shard.applyBlockIndexDelta] at h
    split at h
    · cases h
    split at h
    · cases h
    split at h
    · cases h
    · rename_i hadd
      rw [Shard.applyBlockIndexDelta_slot h, Index.addProjectionDocuments_slot hadd]

theorem Index.slot_putPending (h : projection.putPendingUpload u = .ok projection') :
    projection'.slot = update projection.slot u.blockID
      ⟨some u, (projection.slot u.blockID).confirmed⟩ := by
  obtain rfl := Index.putPendingUpload_ok h
  funext b
  by_cases hb : b = u.blockID <;> simp [Index.slot, hb]

theorem Index.slot_putConfirmed {u : ConfirmedUpload}
    (h : projection.putConfirmedUpload u = .ok projection') :
    projection'.slot = update projection.slot u.blockID
      ⟨(projection.slot u.blockID).pending, some u⟩ := by
  unfold Index.putConfirmedUpload at h
  split at h
  · cases h
  cases h
  funext b
  by_cases hb : b = u.blockID <;> simp [Index.slot, hb]

theorem Shard.pendingUploadForRebuild_ok {p : Option PendingUpload}
    (h : s.pendingUploadForRebuild b = .ok p) : p = s.idx.pendingUploads b := by
  unfold Shard.pendingUploadForRebuild Index.getPendingUpload at h
  by_cases hb : b = 0
  · simp [hb] at h
  rw [if_neg hb] at h
  cases hp : s.idx.pendingUploads b with
  | none => simpa [hp] using h.symm
  | some u => simpa [hp] using h.symm

theorem Shard.Filed.committedUpload (hf : s.Filed) (b : UInt64) :
    s.committedUploadAuthorityForRebuild b = .ok (s.idx.confirmedUploads b) := by
  unfold Shard.committedUploadAuthorityForRebuild
  rw [hf.authority b]
  cases hq : s.idx.confirmedUploads b with
  | none => rfl
  | some q =>
    obtain ⟨hid, hvalid⟩ := hf.checked.confirmed b q hq
    simp [hid, hvalid]

theorem putPendingUploadForRebuild_slot
    (h : putPendingUploadForRebuild projection u = .ok projection') (hb : u.blockID = b) :
    projection'.slot = update projection.slot b ⟨some u, (projection.slot b).confirmed⟩ := by
  unfold putPendingUploadForRebuild at h
  split at h
  · cases h
  · rename_i hput
    cases h
    rw [Index.slot_putPending hput, hb]

theorem putConfirmedUploadForRebuild_slot {u : ConfirmedUpload}
    (h : putConfirmedUploadForRebuild projection b u = .ok projection') (hb : u.blockID = b) :
    projection'.slot = update projection.slot b ⟨(projection.slot b).pending, some u⟩ := by
  unfold putConfirmedUploadForRebuild at h
  split at h
  · cases h
  · rename_i hput
    cases h
    rw [Index.slot_putConfirmed hput, hb]

namespace Shard

theorem rebuildPendingUpload_stat (hf : s.Filed) (hstat : fs.statInfo = some info)
    (h : s.rebuildPendingUpload projection b fs = .ok projection') :
    (∃ p, p.blockID = b ∧ putPendingUploadForRebuild projection p = .ok projection' ∧
        (s.slot b).rebuilt ⟨b, s.shardID, info.size, info.modTimeUs, 0⟩ = ⟨some p, none⟩) ∨
      ∃ q, q.blockID = b ∧ putConfirmedUploadForRebuild projection b q = .ok projection' ∧
        (s.slot b).rebuilt ⟨b, s.shardID, info.size, info.modTimeUs, 0⟩ = ⟨none, some q⟩ := by
  unfold rebuildPendingUpload at h
  simp only [hstat, hf.committedUpload b] at h
  split at h
  · cases h
  rename_i hpending
  obtain rfl := pendingUploadForRebuild_ok hpending
  cases hp : s.idx.pendingUploads b with
  | none =>
    cases hq : s.idx.confirmedUploads b with
    | none =>
      simp only [hp, hq] at h
      exact .inl ⟨_, rfl, h, by simp [Slot.rebuilt, slot, hp, hq]⟩
    | some q =>
      simp only [hp, hq] at h
      exact .inr ⟨q, (hf.checked.confirmed b q hq).1, h, by simp [Slot.rebuilt, slot, hp, hq]⟩
  | some p =>
    have hid := (hf.checked.pending b p hp).1
    cases hq : s.idx.confirmedUploads b with
    | none =>
      simp only [hp, hq] at h
      exact .inl ⟨p, hid, h, by simp [Slot.rebuilt, slot, hp, hq]⟩
    | some q =>
      by_cases hlt : q.uploadGeneration < p.uploadGeneration
      · simp only [hp, hq, shouldPreservePendingUploadForRebuild, hlt] at h
        exact .inl ⟨p, hid, h, by simp [Slot.rebuilt, slot, hp, hq, hlt]⟩
      · simp only [hp, hq, shouldPreservePendingUploadForRebuild, hlt] at h
        exact .inr ⟨q, (hf.checked.confirmed b q hq).1, h,
          by simp [Slot.rebuilt, slot, hp, hq, hlt]⟩

theorem rebuildPendingUpload_slot (hf : s.Filed) (hstat : fs.statInfo = some info)
    (hempty : projection.slot b = ⟨none, none⟩)
    (h : s.rebuildPendingUpload projection b fs = .ok projection') :
    projection'.slot b = (s.slot b).rebuilt ⟨b, s.shardID, info.size, info.modTimeUs, 0⟩ := by
  rcases rebuildPendingUpload_stat hf hstat h with ⟨p, hid, hput, heq⟩ | ⟨q, hid, hput, heq⟩
  · rw [putPendingUploadForRebuild_slot hput hid, update_self, hempty, heq]
  · rw [putConfirmedUploadForRebuild_slot hput hid, update_self, hempty, heq]

theorem rebuildLocalConfirmed_ok {r : Option Index}
    (h : s.rebuildLocalConfirmedUploadAuthority projection b fs = .ok r) :
    r = none ∨ ∃ q, s.committedUploadAuthorityForRebuild b = .ok (some q) ∧ ∃ idx,
      putConfirmedUploadForRebuild projection b q = .ok idx ∧ r = some idx := by
  unfold rebuildLocalConfirmedUploadAuthority at h
  split at h
  · cases h
  split at h
  · cases h
  rename_i hcommitted
  split at h
  · cases h
  · split at h
    · cases h
    · rename_i hput
      exact .inr ⟨_, hcommitted, _, hput, (Except.ok.inj h).symm⟩
  · exact .inl (Except.ok.inj h).symm

theorem rebuildPendingUpload_frame (hf : s.Filed) {b' : UInt64} (hb : b' ≠ b)
    (h : s.rebuildPendingUpload projection b fs = .ok projection') :
    projection'.slot b' = projection.slot b' := by
  cases hstat : fs.statInfo with
  | some info =>
    rcases rebuildPendingUpload_stat hf hstat h with ⟨p, hid, hput, -⟩ | ⟨q, hid, hput, -⟩
    · rw [putPendingUploadForRebuild_slot hput hid, update_of_ne hb]
    · rw [putConfirmedUploadForRebuild_slot hput hid, update_of_ne hb]
  | none =>
    simp only [rebuildPendingUpload, hstat] at h
    cases hlocal : s.rebuildLocalConfirmedUploadAuthority projection b fs with
    | error err => simp [hlocal] at h
    | ok r => ?_
    rcases rebuildLocalConfirmed_ok hlocal with rfl | ⟨q, hq, idx, hput, rfl⟩
    · simp [hlocal] at h
    obtain rfl : idx = projection' := by simpa [hlocal] using h
    rw [hf.committedUpload b] at hq
    rw [putConfirmedUploadForRebuild_slot hput
      (hf.checked.confirmed b q (Except.ok.inj hq)).1, update_of_ne hb]

/-- With uploads enabled, every Block of the loop with its `.blk` keeps one record. -/
theorem rebuildUploadOutbox_slot (hf : s.Filed) (hup : s.uploadEnabled = true)
    {fsState : UInt64 → RebuildBlockFS} :
    ∀ {ids : List UInt64} {projection : Index}, ids.Nodup →
      (∀ b ∈ ids, projection.slot b = ⟨none, none⟩) →
      s.rebuildUploadOutbox fsState projection ids = .ok projection' →
      (∀ b, b ∉ ids → projection'.slot b = projection.slot b) ∧
      ∀ b ∈ ids, b ≠ s.currentOpenBlockID → ∀ info, (fsState b).statInfo = some info →
        projection'.slot b = (s.slot b).rebuilt ⟨b, s.shardID, info.size, info.modTimeUs, 0⟩
  | [], projection, _, _, h => by
    cases h
    exact ⟨fun _ _ => rfl, fun b hb => absurd hb (by simp)⟩
  | b :: ids, projection, hnodup, hempty, h => by
    obtain ⟨hnot, hnodup⟩ := List.nodup_cons.mp hnodup
    rw [rebuildUploadOutbox] at h
    by_cases hopen : b = s.currentOpenBlockID
    · rw [if_pos hopen] at h
      obtain ⟨hframe, hslot⟩ := rebuildUploadOutbox_slot hf hup hnodup
        (fun b' hb' => hempty b' (List.mem_cons_of_mem b hb')) h
      refine ⟨fun b' hb' => hframe b' fun hmem => hb' (List.mem_cons_of_mem b hmem), ?_⟩
      intro b' hb' hne info hinfo
      rcases List.mem_cons.mp hb' with rfl | hb'
      · exact absurd hopen hne
      · exact hslot b' hb' hne info hinfo
    · rw [if_neg hopen, rebuildUploadsOf, if_pos hup] at h
      split at h
      · cases h
      rename_i idx hround
      have hother : ∀ b' ≠ b, idx.slot b' = projection.slot b' := fun b' hb' =>
        rebuildPendingUpload_frame hf hb' hround
      obtain ⟨hframe, hslot⟩ := rebuildUploadOutbox_slot hf hup hnodup
        (fun b' hb' => (hother b' fun heq => hnot (heq ▸ hb')).trans
          (hempty b' (List.mem_cons_of_mem b hb'))) h
      constructor
      · intro b' hb'
        rw [hframe b' fun hmem => hb' (List.mem_cons_of_mem b hmem)]
        exact hother b' fun heq => hb' (heq ▸ List.mem_cons_self)
      · intro b' hb' hne info hinfo
        rcases List.mem_cons.mp hb' with rfl | hb'
        · rw [hframe b' hnot]
          exact rebuildPendingUpload_slot hf hinfo (hempty b' List.mem_cons_self) hround
        · exact hslot b' hb' hne info hinfo

end Shard

theorem mem_listBlockIndexIDs : b ∈ listBlockIndexIDs dir ↔ b ∈ dir :=
  (List.perm_insertionSort _ dir).mem_iff

theorem nodup_listBlockIndexIDs :
    (listBlockIndexIDs dir).Nodup ↔ dir.Nodup :=
  (List.perm_insertionSort _ dir).nodup_iff

theorem Shard.finalizeRebuild_slot (hf : s.Filed) (hup : s.uploadEnabled = true)
    {fsState : UInt64 → RebuildBlockFS} {bulk : Bulk} (hbulk : bulk.Reached) (hdir : dir.Nodup)
    (h : s.finalizeRebuild fsState bulk dir = .ok projection') (hb : b ∈ dir)
    (hopen : b ≠ s.currentOpenBlockID) (hinfo : (fsState b).statInfo = some info) :
    projection'.slot b = (s.slot b).rebuilt ⟨b, s.shardID, info.size, info.modTimeUs, 0⟩ := by
  unfold Shard.finalizeRebuild at h
  split at h
  · cases h
  rename_i projection hdelta
  have hempty : ∀ b, projection.slot b = ⟨none, none⟩ := fun b => by
    rw [Shard.applyBlockIndexDelta_slot hdelta, hbulk.slot]
  exact (Shard.rebuildUploadOutbox_slot hf hup (nodup_listBlockIndexIDs.mpr hdir)
    (fun b _ => hempty b) h).2 b (mem_listBlockIndexIDs.mpr hb) hopen info hinfo

end Rebuild

/-! ## After any log -/

/-- What happens before the apply leaves the upload records alone, in the Projection and in the
files. -/
def EntryStep.KeepsUploads (s : Shard) (st : EntryStep) : Prop :=
  st.Quiet s ∧ ∀ b, ((st.env s).blocks b).confirmedUploadAuthority =
    (s.blocks b).confirmedUploadAuthority

theorem Shard.Filed.env (hf : s.Filed) {st : EntryStep} (h : st.KeepsUploads s) :
    (st.env s).Filed := by
  obtain ⟨⟨-, hslot⟩, hfiles⟩ := h
  have hpending : (st.env s).idx.pendingUploads = s.idx.pendingUploads :=
    funext fun b => congrArg Slot.pending (congrFun hslot b)
  have hconfirmed : (st.env s).idx.confirmedUploads = s.idx.confirmedUploads :=
    funext fun b => congrArg Slot.confirmed (congrFun hslot b)
  refine hf.of_same (hf.checked.of_pending hconfirmed fun b p hp => .inl ?_) hconfirmed hfiles
  rw [← hpending]
  exact hp

theorem Shard.Filed.of_empty
    (h : ∀ b, s.slot b = ⟨none, none⟩ ∧ (s.blocks b).confirmedUploadAuthority = none) :
    s.Filed := by
  refine ⟨⟨fun b p hp => ?_, fun b q hq => ?_⟩, fun b => ?_⟩
  · exact absurd ((congrArg Slot.pending (h b).1).symm.trans hp) (by simp)
  · exact absurd ((congrArg Slot.confirmed (h b).1).symm.trans hq) (by simp)
  · rw [(h b).2]
    exact (congrArg Slot.confirmed (h b).1).symm

theorem rebuild_keeps_one_record (c : Crypto) {s t : Shard} {steps : List EntryStep}
    (hempty : ∀ b, s.slot b = ⟨none, none⟩ ∧ (s.blocks b).confirmedUploadAuthority = none)
    (hquiet : Meets (EntryStep.run c) EntryStep.KeepsUploads s steps)
    (hrun : (runAll (EntryStep.run c) steps).run s = .ok () t) (hup : t.uploadEnabled = true)
    {fsState : UInt64 → RebuildBlockFS} {bulk : Bulk} {dir : List UInt64} {rebuilt : Index}
    (hbulk : bulk.Reached) (hdir : t.IndexDir dir)
    (hrebuild : t.finalizeRebuild fsState bulk dir = .ok rebuilt) (b : UInt64)
    (hclosed : b ≠ t.currentOpenBlockID) (hidx : (t.blocks b).idx.isSome) (info : FileInfo)
    (hblk : (fsState b).statInfo = some info) :
    rebuilt.slot b = (t.slot b).rebuilt ⟨b, t.shardID, info.size, info.modTimeUs, 0⟩ ∧
      (rebuilt.slot b = t.slot b ↔ ((t.slot b).pending.isSome ↔ (t.slot b).confirmed.isNone)) := by
  have hfiled : t.Filed := by
    refine Meets.invariant ?_ (.of_empty hempty) hquiet hrun
    exact fun st u u' hu hst hstep => apply_filed hst.1.1 (hu.env hst) hstep
  have hslot := Shard.finalizeRebuild_slot hfiled hup hbulk hdir.1 hrebuild
    ((hdir.2 b).mpr hidx) hclosed hblk
  exact ⟨hslot, by rw [hslot]; exact Slot.rebuilt_eq_self_iff _ _⟩

/-! ## A Block that waits for its second upload -/

theorem Shard.rebuildProjectionInto_reached :
    ∀ {ids : List UInt64} {bulk bulk' : Bulk}, bulk.Reached →
      s.rebuildProjectionInto bulk ids = .ok bulk' → bulk'.Reached
  | [], bulk, bulk', hbulk, h => by
    cases h
    exact hbulk
  | b :: ids, bulk, bulk', hbulk, h => by
    rw [Shard.rebuildProjectionInto] at h
    split at h
    · cases h
    rename_i hread
    exact Shard.rebuildProjectionInto_reached (.read hbulk hread) h

theorem Shard.rebuildProjection_ok {modTimeUs : UInt64 → Int} {rebuilt : Index}
    (h : s.rebuildProjection modTimeUs dir = .ok rebuilt) :
    ∃ bulk, bulk.Reached ∧ s.finalizeRebuild (s.snapshotBlockFS modTimeUs) bulk dir = .ok rebuilt := by
  unfold Shard.rebuildProjection at h
  split at h
  · cases h
  rename_i bulk hbulk
  exact ⟨bulk, Shard.rebuildProjectionInto_reached .start hbulk, h⟩

def requeuedY : Shard :=
  after ((LogEntry.step ⟨4, .commitDoc (docOfT "y" 1 80)⟩).run keylessCrypto) uploadedX

theorem EntryStep.idx_after {c : Crypto} (st : EntryStep) (hg : (st.env s).Good)
    (h : outcome (st.run c) s = .ok ()) (hb : b ≠ st.entry.cmd.blockID)
    (hnext : (st.env s).isOpen st.entry.cmd.blockID = true → b ≠ (st.env s).nextBlockID) :
    (after (st.run c) s).view.idx b = (st.env s).view.idx b := by
  rcases apply_idx hg (outcome_ok_iff.mp h) b with hsame | ⟨-, hown, -⟩ | ⟨-, hopen, hnew⟩
  · exact hsame
  · exact absurd hown hb
  · exact absurd hnew (hnext hopen)

theorem receiveTwo_idx (hb : b ≠ 1) :
    (receiveTwo (Shard.fresh 1 true)).view.idx b = none := by
  have hfresh : (Shard.fresh 1 true).blocks b = .absent := update_of_ne hb _ _
  simp [Shard.view, receiveTwo, hb, hfresh, BlockFiles.absent]

theorem sealedX_idx (h1 : b ≠ 1) (h2 : b ≠ 2) : sealedX.view.idx b = none := by
  have hcommit : committedX.view.idx b = (receiveTwo (Shard.fresh 1 true)).view.idx b :=
    EntryStep.idx_after (LogEntry.step ⟨1, .commitDoc docX⟩) receiveTwo_good
      (by decide +kernel) h1 fun _ => h2
  have hnext : committedX.nextBlockID = 2 := by decide +kernel
  have hseal : sealedX.view.idx b = committedX.view.idx b :=
    EntryStep.idx_after (LogEntry.step ⟨2, .sealBlock ⟨1, 1, 120, 1⟩⟩) committedX_good
      (by decide +kernel) h1 fun _ heq => h2 (heq.trans hnext)
  rw [hseal, hcommit, receiveTwo_idx h1]

theorem uploadedX_idx (h1 : b ≠ 1) (h2 : b ≠ 2) : uploadedX.view.idx b = none := by
  have hclosed : sealedX.isOpen 1 = false := by decide +kernel
  have hconfirm : uploadedX.view.idx b = sealedX.view.idx b :=
    EntryStep.idx_after (LogEntry.step ⟨3, confirmOne 0⟩) sealedX_good (by decide +kernel) h1
      fun hopen => absurd (hclosed.symm.trans hopen) (by simp)
  rw [hconfirm, sealedX_idx h1 h2]

theorem requeuedY_idx (h1 : b ≠ 1) (h2 : b ≠ 2) : requeuedY.view.idx b = none := by
  have hclosed : uploadedX.isOpen 1 = false := by decide +kernel
  have hcommit : requeuedY.view.idx b = uploadedX.view.idx b :=
    EntryStep.idx_after (LogEntry.step ⟨4, .commitDoc (docOfT "y" 1 80)⟩) uploadedX_good (by decide +kernel) h1
      fun hopen => absurd (hclosed.symm.trans hopen) (by simp)
  rw [hcommit, uploadedX_idx h1 h2]

theorem receiveTwo_uploads (b : UInt64) :
    (receiveTwo (Shard.fresh 1 true)).slot b = ⟨none, none⟩ ∧
      ((receiveTwo (Shard.fresh 1 true)).blocks b).confirmedUploadAuthority = none := by
  refine ⟨rfl, ?_⟩
  by_cases hb : b = 1
  · subst hb
    rfl
  · have hfresh : (Shard.fresh 1 true).blocks b = .absent := update_of_ne hb _ _
    simp [receiveTwo, hb, hfresh, BlockFiles.absent]

theorem Shard.indexDir_of_view (hnodup : dir.Nodup) (hin : ∀ b ∈ dir, (s.blocks b).idx.isSome)
    (hout : ∀ b, b ∉ dir → s.view.idx b = none) :
    s.IndexDir dir := by
  refine ⟨hnodup, fun b => ⟨hin b, fun hb => ?_⟩⟩
  by_contra hnot
  have hidx := hout b hnot
  simp only [Shard.view, Option.map_eq_none_iff] at hidx
  simp [hidx] at hb

theorem Shard.indexDir_two (h : (s.blocks 1).idx.isSome ∧ (s.blocks 2).idx.isSome)
    (hnone : ∀ b, b ≠ 1 → b ≠ 2 → s.view.idx b = none) : s.IndexDir [2, 1] := by
  refine Shard.indexDir_of_view (by decide) (fun b hb => ?_) fun b hb => ?_
  · simp only [List.mem_cons, List.not_mem_nil, or_false] at hb
    rcases hb with rfl | rfl
    · exact h.2
    · exact h.1
  · simp only [List.mem_cons, List.not_mem_nil, or_false, not_or] at hb
    exact hnone b hb.2 hb.1

theorem rebuild_drops_confirmed : ∃ rebuilt,
    (runAll (EntryStep.run keylessCrypto) [LogEntry.step ⟨1, .commitDoc docX⟩,
      LogEntry.step ⟨2, .sealBlock ⟨1, 1, 120, 1⟩⟩, LogEntry.step ⟨3, confirmOne 0⟩,
      LogEntry.step ⟨4, .commitDoc (docOfT "y" 1 80)⟩]).run (receiveTwo (Shard.fresh 1 true)) =
        .ok () requeuedY ∧
    requeuedY.IndexDir [2, 1] ∧ 1 ≠ requeuedY.currentOpenBlockID ∧
    (requeuedY.blocks 1).blk.isSome ∧
    requeuedY.rebuildProjection (fun _ => 1) [2, 1] = .ok rebuilt ∧
    (requeuedY.idx.confirmedUploads 1).map (·.uploadGeneration) = some 0 ∧
    rebuilt.confirmedUploads 1 = none := by
  have hrebuild : ((requeuedY.rebuildProjection (fun _ => 1) [2, 1]).toOption.map
      (·.confirmedUploads 1)) = some none := by decide +kernel
  obtain ⟨rebuilt, hsome, hnone⟩ := Option.map_eq_some_iff.mp hrebuild
  refine ⟨rebuilt, ?_, Shard.indexDir_two ⟨by decide +kernel, by decide +kernel⟩
    fun b h1 h2 => requeuedY_idx h1 h2, by decide +kernel, by decide +kernel, ?_,
    by decide +kernel, hnone⟩
  · exact runAll_cons_ok.mpr ⟨committedX, outcome_ok_iff.mp (by decide +kernel),
      runAll_cons_ok.mpr ⟨sealedX, outcome_ok_iff.mp (by decide +kernel),
      runAll_cons_ok.mpr ⟨uploadedX, outcome_ok_iff.mp (by decide +kernel),
      runAll_cons_ok.mpr ⟨requeuedY, outcome_ok_iff.mp (by decide +kernel), rfl⟩⟩⟩⟩
  · exact toOption_eq_some.mp hsome

/-- A Block that waits for its first upload keeps its records. -/
theorem rebuild_keeps_one_record_sealed : ∃ rebuilt,
    sealedX.rebuildProjection (fun _ => 1) [2, 1] = .ok rebuilt ∧
    (sealedX.idx.pendingUploads 1).map (·.uploadGeneration) = some 0 ∧
    rebuilt.slot 1 = sealedX.slot 1 := by
  have hok : (sealedX.rebuildProjection (fun _ => 1) [2, 1]).toOption.isSome = true := by
    decide +kernel
  obtain ⟨rebuilt, hsome⟩ := Option.isSome_iff_exists.mp hok
  have hrebuild := toOption_eq_some.mp hsome
  obtain ⟨bulk, hbulk, hfinalize⟩ := Shard.rebuildProjection_ok hrebuild
  have hquiet : Meets (EntryStep.run keylessCrypto) EntryStep.KeepsUploads
      (receiveTwo (Shard.fresh 1 true)) [LogEntry.step ⟨1, .commitDoc docX⟩,
        LogEntry.step ⟨2, .sealBlock ⟨1, 1, 120, 1⟩⟩] :=
    ⟨⟨⟨receiveTwo_good, rfl⟩, fun _ => rfl⟩, ⟨⟨committedX_good, rfl⟩, fun _ => rfl⟩, trivial⟩
  have hrun : (runAll (EntryStep.run keylessCrypto) [LogEntry.step ⟨1, .commitDoc docX⟩,
      LogEntry.step ⟨2, .sealBlock ⟨1, 1, 120, 1⟩⟩]).run (receiveTwo (Shard.fresh 1 true)) =
        .ok () sealedX :=
    runAll_cons_ok.mpr ⟨committedX, outcome_ok_iff.mp (by decide +kernel),
      runAll_cons_ok.mpr ⟨sealedX, outcome_ok_iff.mp (by decide +kernel), rfl⟩⟩
  have hkept := rebuild_keeps_one_record keylessCrypto receiveTwo_uploads hquiet hrun (by decide +kernel) hbulk
    (Shard.indexDir_two ⟨by decide +kernel, by decide +kernel⟩ fun b h1 h2 => sealedX_idx h1 h2)
    hfinalize 1 (by decide +kernel) (by decide +kernel) ⟨120, 1⟩ (by decide +kernel)
  exact ⟨rebuilt, hrebuild, by decide +kernel, hkept.2.mpr (by decide +kernel)⟩

end Scrap
