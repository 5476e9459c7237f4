/-
# Uploads owed for changed Blocks

The Backend keeps the `.idx` object of a confirmed upload as it was uploaded; `backend` gives its
records. A Block whose `.idx` is another by now must have a pending record of a later generation,
or the change is lost with the Block (`Shard.Obligated`).

An apply writes the `.idx` first and the pending record after it, and a crash may fall in between.
A run is a list of applies and of crashes inside an apply. Beside the Shard it carries the entries
that a crash left with their `.idx` written and that the replay has not reached yet; the Blocks of
the others must be `Obligated` in every state.

`LogEntry.Safe` excludes the four ways to a lost change: a confirm whose object is not the local
`.idx`, a confirm that drops the pending record because of its size, a write to an open Block that
is confirmed already, and a replayed rewrap that keeps the key version and does not requeue
(`replayed_rewrap_not_requeued`).
-/
import Scrap.Shard.ReplayUploads

namespace Scrap

open Block Fallible

/-! ## What an entry does to the `.idx` files -/

def RaftCommand.writesIdx : RaftCommand → Bool
  | .commitDoc _ => true
  | .rewrapDoc _ => true
  | .sealBlock _ => false
  | .confirmUpload _ => false

variable {cmd : RewrapDocumentEnvelope}

section Files

variable {c : Crypto} {s s' : Shard} {i : UInt64}

theorem replaceRewrapEnvelope_unchanged {idx idx' : Option IdxFile}
    (h : replaceRewrapEnvelope c idx cmd = .ok (idx', false)) : idx' = idx := by
  obtain ⟨f, e, current, hr⟩ := replaceRewrapEnvelope_reads (.inr ⟨_, h⟩)
  rw [replaceRewrapEnvelope_eq hr] at h
  split_ifs at h with hold hsame hnew
  · rw [← (Prod.mk.inj (Except.ok.inj h)).1, hr.file]
  · cases hrw : rewriteIndexEntries (setEnvelope cmd.transactionID cmd.documentName
        cmd.encryptionEnvelope f.entries) with
    | error err => simp [hrw] at h
    | ok f' => simp [hrw] at h
  · simp at h

theorem applyRewrapDocumentEnvelope_idx {gen : Int}
    (h : (applyRewrapDocumentEnvelope c cmd gen).run s = .ok () s') (b : UInt64) :
    s'.view.idx b = s.view.idx b ∨ b = cmd.blockID ∧
      (s.isOpen b = true ∨ s.requeues c (.rewrapDoc cmd) = true) := by
  obtain ⟨f, changed, hrep, -, hs'⟩ := applyRewrapDocumentEnvelope_ok h
  have hview : s'.view = (s.setIdx cmd.blockID f).view := by
    split at hs'
    · obtain ⟨-, p, rfl⟩ := requeue_ready hs'
      rfl
    · rw [hs']
  rw [hview]
  by_cases hb : b = cmd.blockID
  · subst hb
    cases hopen : s.isOpen cmd.blockID with
    | true => exact .inr ⟨rfl, .inl rfl⟩
    | false => ?_
    cases changed with
    | true => exact .inr ⟨rfl, .inr (by simp [Shard.requeues, hopen, hrep])⟩
    | false => ?_
    left
    have hsame := replaceRewrapEnvelope_unchanged hrep
    simp [Shard.view, hsame]
  · left
    simp [Shard.view, s.setIdx_blocks_of_ne _ f hb]

theorem Shard.view_idx_closeIfOpen (s : Shard) (b b' : UInt64) :
    (s.closeIfOpen b).view.idx b' = s.view.idx b' ∨ s.isOpen b = true ∧ b' = s.nextBlockID := by
  unfold Shard.closeIfOpen
  by_cases hopen : s.isOpen b = true
  · rw [if_pos hopen]
    by_cases hb : b' = s.nextBlockID
    · exact .inr ⟨hopen, hb⟩
    · left
      simp [Shard.view, Shard.openNewBlock, hb]
  · rw [if_neg hopen]
    exact .inl rfl

/-- What an entry does to the `.idx` of a Block. A seal or confirm of the open Block creates the
next one's files. -/
theorem apply_idx (hg : s.Good) {cmd : RaftCommand}
    (h : (applyEntryCommand c cmd i).run s = .ok () s') (b : UInt64) :
    s'.view.idx b = s.view.idx b ∨
      (cmd.writesIdx = true ∧ b = cmd.blockID ∧ (s.isOpen b = true ∨ s.requeues c cmd = true)) ∨
      (cmd.writesIdx = false ∧ s.isOpen cmd.blockID = true ∧ b = s.nextBlockID) := by
  cases cmd with
  | commitDoc doc =>
    obtain ⟨t, hrun, rfl⟩ := applyCommitDocumentCommand_ok h
    rw [Shard.view_wake]
    obtain ⟨hview, -, -⟩ := applyCommitDocument_ok hg hrun
    obtain hsame | ⟨hwrite, es, e, -, hidx⟩ := View.commit_idx hview
    · exact .inl (congrFun hsame b)
    by_cases hb : b = doc.blockID
    · subst hb
      refine .inr (.inl ⟨rfl, rfl, ?_⟩)
      cases hopen : s.isOpen doc.blockID with
      | true => exact .inl rfl
      | false => exact .inr (by simp [Shard.requeues, hopen, hwrite])
    · left
      rw [hidx, Function.update_of_ne hb]
  | rewrapDoc cmd =>
    obtain ⟨t, key, r, rfl, ⟨rfl, -⟩ | hrun⟩ := applyRewrapDocumentEnvelopeCommand_ok h
    · exact .inl (by rw [Shard.view_wake])
    · rw [Shard.view_wake]
      exact (applyRewrapDocumentEnvelope_idx hrun b).imp id fun hb => .inl ⟨rfl, hb⟩
  | sealBlock cmd =>
    obtain ⟨idx, -, rfl⟩ := applySealBlock_ok h
    exact (Shard.view_idx_closeIfOpen { s with idx := idx } cmd.blockID b).imp id
      fun hb => .inr ⟨rfl, hb⟩
  | confirmUpload cmd =>
    obtain ⟨t, hframe, hs'⟩ := applyConfirmUpload_ok h
    have ht : t.view.idx b = s.view.idx b := by simp only [Shard.view, hframe.idx b]
    have hclose := t.view_idx_closeIfOpen cmd.blockID b
    rw [hframe.isOpen, hframe.nextBlockID, ht] at hclose
    rcases hs' with rfl | rfl | ⟨p, rfl⟩
    · exact .inl ht
    · exact hclose.imp id fun hb => .inr ⟨rfl, hb⟩
    · exact hclose.imp id fun hb => .inr ⟨rfl, hb⟩

theorem apply_requeueReady (hg : s.Good) {cmd : RaftCommand}
    (h : (applyEntryCommand c cmd i).run s = .ok () s') (hreq : s.requeues c cmd = true) :
    s.RequeueReady cmd.blockID (cmd.generation i) := by
  cases cmd with
  | sealBlock cmd => cases hreq
  | confirmUpload cmd => cases hreq
  | commitDoc doc =>
    obtain ⟨t, hrun, -⟩ := applyCommitDocumentCommand_ok h
    simp only [Shard.requeues, Bool.and_eq_true, Bool.not_eq_true'] at hreq
    have hwrites : s.view.Writes doc := by
      unfold View.Writes
      cases hact : s.view.action doc with
      | write a c => exact ⟨a, c, rfl⟩
      | done => simp [hact, CommitAction.isWrite] at hreq
      | reject err => simp [hact, CommitAction.isWrite] at hreq
    exact ((applyCommitDocument_ok_iff hg doc i).mp ⟨t, hrun⟩).2 hwrites hreq.1
  | rewrapDoc cmd =>
    obtain ⟨t, key, r, -, ⟨-, hno⟩ | hrun⟩ := applyRewrapDocumentEnvelopeCommand_ok h
    · exact absurd (hno.symm.trans hreq) (by simp)
    · obtain ⟨f, changed, -, -, hs'⟩ := applyRewrapDocumentEnvelope_ok hrun
      rw [if_pos hreq] at hs'
      exact Shard.requeueReady_setIdx.mp (requeue_ready hs').1

theorem apply_requeued (hg : s.Good) {cmd : RaftCommand}
    (h : (applyEntryCommand c cmd i).run s = .ok () s') (hup : s.uploadEnabled = true)
    (hreq : s.requeues c cmd = true) :
    ∃ p, s'.slot cmd.blockID = ⟨some p, (s.slot cmd.blockID).confirmed⟩ ∧
      p.blockID = cmd.blockID ∧ p.uploadGeneration = cmd.generation i ∧
      validatePendingUpload p = .ok () := by
  obtain ⟨size, hsize, hb, hnonneg, hgen⟩ := apply_requeueReady hg h hreq hup
  refine ⟨⟨cmd.blockID, s.shardID, size, cmd.generation i, cmd.generation i⟩, ?_, rfl, rfl,
    validatePendingUpload_ok.mpr ⟨hb, hnonneg, hgen, hgen⟩⟩
  have hslot := congrFun (apply_slot hg h) cmd.blockID
  rw [hslot]
  cases cmd with
  | sealBlock cmd => cases hreq
  | confirmUpload cmd => cases hreq
  | commitDoc doc => simp [Shard.nextSlot, hreq, Shard.requeueSlot, hup, hsize]
  | rewrapDoc cmd => simp [Shard.nextSlot, hreq, Shard.requeueSlot, hup, hsize]

end Files

/-! ## Confirms -/

namespace Slot

/-- The confirm drops the pending record because of its size. -/
def Refuses (x : Slot) (c : ConfirmUpload) : Prop :=
  ∃ p, x.pending = some p ∧ p.uploadGeneration = c.uploadGeneration ∧
    c.blockObject.sizeBytes ≠ p.sealedSizeBytes

theorem onConfirm_result (x : Slot) (c : ConfirmUpload) :
    x.onConfirm c = x ∨ (x.Refuses c ∧ x.onConfirm c = ⟨none, x.confirmed⟩) ∨
      (x.Accepts c ∧ ∃ n, x.onConfirm c = ⟨none, some (confirmedUploadFromCommand c n)⟩) := by
  unfold onConfirm Accepts Refuses
  cases hp : x.pending with
  | some p =>
    simp only
    split_ifs with hgen hsize
    · exact .inl rfl
    · exact .inr (.inl ⟨⟨p, rfl, not_not.mp hgen, hsize⟩, rfl⟩)
    · exact .inr (.inr ⟨⟨not_not.mp hgen, not_not.mp hsize⟩, _, rfl⟩)
  | none =>
    cases hq : x.confirmed with
    | none => exact .inl rfl
    | some q => ?_
    simp only
    split_ifs with hgen hsize
    · exact .inl rfl
    · exact .inl rfl
    · exact .inr (.inr ⟨⟨q, rfl, not_not.mp hgen, not_not.mp hsize⟩, _, rfl⟩)

end Slot

/-! ## The obligation -/

section Obligation

-- the records of an `.idx` object of the Backend
variable (backend : BackendObjectMetadata → List IndexEntry)

def Shard.Changed (s : Shard) (b : UInt64) (q : ConfirmedUpload) : Prop :=
  ∃ es, s.view.idx b = some es ∧ es ≠ backend q.indexObject

/-- If the Block has changed after its confirmed upload, a later one is pending. -/
def Shard.Obligated (s : Shard) (b : UInt64) : Prop :=
  ∀ q, (s.slot b).confirmed = some q → s.Changed backend b q →
    ∃ p, (s.slot b).pending = some p ∧ 0 < p.uploadGeneration ∧
      q.uploadGeneration < p.uploadGeneration

/-- What an entry must find. `owed` are those that a crash left with their `.idx` written. -/
def LogEntry.Safe (c : Crypto) (owed : List LogEntry) (s : Shard) (e : LogEntry) : Prop :=
  match e.cmd with
  | .sealBlock cmd => s.isOpen cmd.blockID = true →
      s.nextBlockID ≠ cmd.blockID ∧ (s.slot s.nextBlockID).confirmed = none
  | .confirmUpload cmd =>
    (s.isOpen cmd.blockID = true →
      s.nextBlockID ≠ cmd.blockID ∧ (s.slot s.nextBlockID).confirmed = none) ∧
    ((s.slot cmd.blockID).Accepts cmd →
      ∀ es, s.view.idx cmd.blockID = some es → es = backend cmd.indexObject) ∧
    ((s.slot cmd.blockID).Refuses cmd →
      ∀ q, (s.slot cmd.blockID).confirmed = some q → ¬ s.Changed backend cmd.blockID q)
  | cmd =>
    (s.requeues c cmd = true → 0 < e.generation ∧
      ∀ q, (s.slot cmd.blockID).confirmed = some q → q.uploadGeneration < e.generation) ∧
    (s.requeues c cmd = false → e ∉ owed) ∧
    (s.isOpen cmd.blockID = true → (s.slot cmd.blockID).confirmed = none)

variable {backend} {c : Crypto} {s s' t : Shard} {e : LogEntry} {owed : List LogEntry} {b : UInt64}

/-- The obligation depends on the slot and, if there is a confirmed record, on the `.idx`. -/
theorem Shard.Obligated.congr (h : s.Obligated backend b) (hslot : t.slot b = s.slot b)
    (hidx : (s.slot b).confirmed ≠ none → t.view.idx b = s.view.idx b) :
    t.Obligated backend b := by
  rintro q hq ⟨es, hes, hne⟩
  rw [hslot] at hq ⊢
  rw [hidx (by simp [hq])] at hes
  exact h q hq ⟨es, hes, hne⟩

theorem LogEntry.Safe.writes (h : e.Safe backend c owed s) (hw : e.cmd.writesIdx = true) :
    (s.requeues c e.cmd = true → 0 < e.generation ∧
      ∀ q, (s.slot e.cmd.blockID).confirmed = some q → q.uploadGeneration < e.generation) ∧
    (s.requeues c e.cmd = false → e ∉ owed) ∧
    (s.isOpen e.cmd.blockID = true → (s.slot e.cmd.blockID).confirmed = none) := by
  obtain ⟨i, cmd⟩ := e
  cases cmd with
  | commitDoc doc => exact h
  | rewrapDoc cmd => exact h
  | sealBlock cmd => cases hw
  | confirmUpload cmd => cases hw

theorem LogEntry.Safe.closes (h : e.Safe backend c owed s) (hw : e.cmd.writesIdx = false)
    (hopen : s.isOpen e.cmd.blockID = true) :
    s.nextBlockID ≠ e.cmd.blockID ∧ (s.slot s.nextBlockID).confirmed = none := by
  obtain ⟨i, cmd⟩ := e
  cases cmd with
  | commitDoc doc => cases hw
  | rewrapDoc cmd => cases hw
  | sealBlock cmd => exact h hopen
  | confirmUpload cmd => exact h.1 hopen

theorem LogEntry.Safe.accepts (h : e.Safe backend c owed s) {cmd : ConfirmUpload}
    (hcmd : e.cmd = .confirmUpload cmd) (ha : (s.slot cmd.blockID).Accepts cmd)
    (es : List IndexEntry) (hes : s.view.idx e.cmd.blockID = some es) :
    es = backend cmd.indexObject := by
  obtain ⟨i, cmd'⟩ := e
  obtain rfl : cmd' = .confirmUpload cmd := hcmd
  exact h.2.1 ha es hes

theorem LogEntry.apply_idx_of_ne (hg : s.Good) (hsafe : e.Safe backend c owed s)
    (h : (e.apply c).run s = .ok () s') (hb : b ≠ e.cmd.blockID)
    (hconfirmed : (s.slot b).confirmed ≠ none) : s'.view.idx b = s.view.idx b := by
  rcases apply_idx hg h b with hsame | ⟨-, hown, -⟩ | ⟨hw, hopen, rfl⟩
  · exact hsame
  · exact absurd hown hb
  · exact absurd (hsafe.closes hw hopen).2 hconfirmed

theorem LogEntry.apply_idx_own (hg : s.Good) (hsafe : e.Safe backend c owed s)
    (h : (e.apply c).run s = .ok () s') (hw : e.cmd.writesIdx = false) :
    s'.view.idx e.cmd.blockID = s.view.idx e.cmd.blockID := by
  rcases apply_idx hg h e.cmd.blockID with hsame | ⟨hw', -, -⟩ | ⟨-, hopen, hnext⟩
  · exact hsame
  · exact absurd (hw.symm.trans hw') (by simp)
  · exact absurd hnext.symm (hsafe.closes hw hopen).1

theorem Shard.Obligated.seal {cmd : SealBlock} (h : s.Obligated backend cmd.blockID)
    (hslot : t.slot cmd.blockID = (s.slot cmd.blockID).onSeal cmd)
    (hidx : t.view.idx cmd.blockID = s.view.idx cmd.blockID) : t.Obligated backend cmd.blockID := by
  rintro q hq ⟨es, hes, hne⟩
  rw [hslot, Slot.onSeal_confirmed] at hq
  obtain ⟨p, hp, hpos, hlt⟩ := h q hq ⟨es, hidx ▸ hes, hne⟩
  rcases (s.slot cmd.blockID).onSeal_pending cmd with ⟨-, hsame⟩ | ⟨hnot, -⟩
  · exact ⟨p, by rw [hslot, hsame]; exact hp, hpos, hlt⟩
  · exact absurd ⟨p, hp, hpos⟩ hnot

/-- A confirm whose object is the local `.idx`, or that finds the Block unchanged. -/
theorem Shard.Obligated.confirm {cmd : ConfirmUpload} (h : s.Obligated backend cmd.blockID)
    (hslot : t.slot cmd.blockID = (s.slot cmd.blockID).onConfirm cmd)
    (hidx : t.view.idx cmd.blockID = s.view.idx cmd.blockID)
    (haccept : (s.slot cmd.blockID).Accepts cmd →
      ∀ es, s.view.idx cmd.blockID = some es → es = backend cmd.indexObject)
    (hrefuse : (s.slot cmd.blockID).Refuses cmd →
      ∀ q, (s.slot cmd.blockID).confirmed = some q → ¬ s.Changed backend cmd.blockID q) :
    t.Obligated backend cmd.blockID := by
  rcases (s.slot cmd.blockID).onConfirm_result cmd with hsame | ⟨hr, hres⟩ | ⟨ha, n, hres⟩
  · exact h.congr (hslot.trans hsame) fun _ => hidx
  · rintro q hq ⟨es, hes, hne⟩
    rw [hslot, hres] at hq
    exact absurd ⟨es, hidx ▸ hes, hne⟩ (hrefuse hr q hq)
  · rintro q hq ⟨es, hes, hne⟩
    rw [hslot, hres] at hq
    cases hq
    exact absurd (haccept ha es (hidx ▸ hes)) hne

namespace LogEntry

theorem apply_obligated_own (hg : s.Good) (hup : s.uploadEnabled = true)
    (hsafe : e.Safe backend c owed s) (h : (e.apply c).run s = .ok () s')
    (hob : e ∉ owed → s.Obligated backend e.cmd.blockID)
    (howed : ∀ e' ∈ owed, e'.cmd.writesIdx = true) : s'.Obligated backend e.cmd.blockID := by
  have hslot : s'.slot e.cmd.blockID = s.nextSlot c e.index e.cmd := by
    rw [apply_slot hg h, if_pos rfl]
  cases hw : e.cmd.writesIdx with
  | true =>
    obtain ⟨hgen, hredo, hopen⟩ := hsafe.writes hw
    cases hreq : s.requeues c e.cmd with
    | true =>
      obtain ⟨p, hpend, -, hgen', -⟩ := apply_requeued hg h hup hreq
      obtain ⟨hpos, hlt⟩ := hgen hreq
      intro q hq _
      rw [hpend] at hq
      exact ⟨p, by rw [hpend], hgen' ▸ hpos, hgen' ▸ hlt q hq⟩
    | false =>
      have hsame : s'.slot e.cmd.blockID = s.slot e.cmd.blockID := by
        rw [hslot]
        rcases s.nextSlot_cases c e.index e.cmd with
          ⟨cmd, hcmd, -⟩ | ⟨cmd, hcmd, -⟩ | hsame | ⟨-, hreq', -⟩
        · simp [hcmd, RaftCommand.writesIdx] at hw
        · simp [hcmd, RaftCommand.writesIdx] at hw
        · exact hsame
        · exact absurd (hreq.symm.trans hreq') (by simp)
      refine (hob (hredo hreq)).congr hsame fun hconfirmed => ?_
      rcases apply_idx hg h e.cmd.blockID with hidx | ⟨-, -, hor⟩ | ⟨hw', -, -⟩
      · exact hidx
      · rcases hor with ho | hr
        · exact absurd (hopen ho) hconfirmed
        · exact absurd (hreq.symm.trans hr) (by simp)
      · exact absurd (hw.symm.trans hw') (by simp)
  | false =>
    have hidx := apply_idx_own hg hsafe h hw
    have hob' := hob fun hmem => absurd (hw.symm.trans (howed e hmem)) (by simp)
    obtain ⟨i, cmd⟩ := e
    cases cmd with
    | commitDoc doc => cases hw
    | rewrapDoc cmd => cases hw
    | sealBlock cmd => exact hob'.seal hslot hidx
    | confirmUpload cmd =>
      obtain ⟨-, haccept, hrefuse⟩ := hsafe
      exact hob'.confirm hslot hidx haccept hrefuse

theorem apply_obligated (hg : s.Good) (hup : s.uploadEnabled = true)
    (hsafe : e.Safe backend c owed s) (h : (e.apply c).run s = .ok () s')
    (hob : ∀ b, (∀ e' ∈ owed, e'.cmd.blockID ≠ b) → s.Obligated backend b)
    (howed : ∀ e' ∈ owed, e'.cmd.writesIdx = true)
    (hb : ∀ e' ∈ owed, e' ≠ e → e'.cmd.blockID ≠ b) : s'.Obligated backend b := by
  by_cases hown : b = e.cmd.blockID
  · subst hown
    refine apply_obligated_own hg hup hsafe h (fun hnot => hob _ fun e' he' => ?_) howed
    exact hb e' he' fun heq => hnot (heq ▸ he')
  · refine (hob b fun e' he' heq => ?_).congr ?_ fun hconfirmed =>
      apply_idx_of_ne hg hsafe h hown hconfirmed
    · by_cases hee : e' = e
      · exact hown (by rw [← hee, heq])
      · exact hb e' he' hee heq
    · rw [apply_slot hg h, if_neg hown]

/-! ## Crashes -/

/-- A crash in the apply of `e` to `s` leaves `t`: a prefix of its durable writes, the `.idx` and
the confirmed record before the pending one. -/
structure CrashState (c : Crypto) (e : LogEntry) (s t : Shard) : Prop where
  config : t.config = s.config
  writes : ∃ s', (e.apply c).run s = .ok () s' ∧ ∀ b,
    (t.view.idx b = s.view.idx b ∨ t.view.idx b = s'.view.idx b) ∧
    ((t.slot b).confirmed = (s.slot b).confirmed ∨ (t.slot b).confirmed = (s'.slot b).confirmed) ∧
    ((t.slot b).pending = (s.slot b).pending ∨
      (t.slot b = s'.slot b ∧ t.view.idx b = s'.view.idx b))

theorem apply_confirmed (hg : s.Good) (h : (e.apply c).run s = .ok () s') :
    (s'.slot e.cmd.blockID).confirmed = (s.slot e.cmd.blockID).confirmed ∨
      ∃ cmd n, e.cmd = .confirmUpload cmd ∧ (s.slot cmd.blockID).Accepts cmd ∧
        (s'.slot e.cmd.blockID).confirmed = some (confirmedUploadFromCommand cmd n) := by
  rw [apply_slot hg h, if_pos rfl]
  rcases s.nextSlot_cases c e.index e.cmd with
    ⟨cmd, -, hnext⟩ | ⟨cmd, hcmd, hnext⟩ | hnext | ⟨size, -, hnext⟩
  · exact .inl (by rw [hnext, Slot.onSeal_confirmed])
  · rw [hnext]
    rcases (s.slot e.cmd.blockID).onConfirm_result cmd with hsame | ⟨-, hres⟩ | ⟨ha, n, hres⟩
    · exact .inl (by rw [hsame])
    · exact .inl (by rw [hres])
    · have hblock : e.cmd.blockID = cmd.blockID := by rw [hcmd]; rfl
      exact .inr ⟨cmd, n, hcmd, hblock ▸ ha, by rw [hres]⟩
  · exact .inl (by rw [hnext])
  · exact .inl (by rw [hnext])

theorem CrashState.obligated (hcrash : e.CrashState c s t) (hg : s.Good)
    (hup : s.uploadEnabled = true) (hsafe : e.Safe backend c owed s)
    (hob : ∀ b, (∀ e' ∈ owed, e'.cmd.blockID ≠ b) → s.Obligated backend b)
    (howed : ∀ e' ∈ owed, e'.cmd.writesIdx = true)
    (hb : ∀ e' ∈ owed, e'.cmd.blockID ≠ b)
    (hwritten : e.cmd.writesIdx = true → b = e.cmd.blockID → t.view.idx b = s.view.idx b) :
    t.Obligated backend b := by
  obtain ⟨s', hrun, hwrites⟩ := hcrash.writes
  obtain ⟨hidx, hconfirmed, hpending⟩ := hwrites b
  have hs := hob b hb
  have hs' : s'.Obligated backend b :=
    apply_obligated hg hup hsafe hrun hob howed fun e' he' _ => hb e' he'
  rcases hpending with hpending | ⟨hslot, hidx'⟩
  · by_cases hown : b = e.cmd.blockID
    · subst hown
      have hsame : t.view.idx e.cmd.blockID = s.view.idx e.cmd.blockID := by
        cases hw : e.cmd.writesIdx with
        | true => exact hwritten hw rfl
        | false => exact hidx.elim id fun h => h.trans (apply_idx_own hg hsafe hrun hw)
      have hcases : (t.slot e.cmd.blockID).confirmed = (s.slot e.cmd.blockID).confirmed ∨
          ∃ cmd n, e.cmd = .confirmUpload cmd ∧ (s.slot cmd.blockID).Accepts cmd ∧
            (t.slot e.cmd.blockID).confirmed = some (confirmedUploadFromCommand cmd n) := by
        rcases hconfirmed with h | h
        · exact .inl h
        · rw [h]
          exact apply_confirmed hg hrun
      rcases hcases with h | ⟨cmd, n, hcmd, ha, h⟩
      · exact hs.congr (Slot.ext hpending h) fun _ => hsame
      -- the record of the confirm is there, and its object is the local `.idx`
      rintro q hq ⟨es, hes, hne⟩
      cases h.symm.trans hq
      exact absurd (hsafe.accepts hcmd ha es (hsame ▸ hes)) hne
    · have hslot' : s'.slot b = s.slot b := by rw [apply_slot hg hrun, if_neg hown]
      rw [hslot', or_self] at hconfirmed
      refine hs.congr (Slot.ext hpending hconfirmed) fun hsome => ?_
      exact hidx.elim id fun h => h.trans (apply_idx_of_ne hg hsafe hrun hown hsome)
  · exact hs'.congr hslot fun _ => hidx'

end LogEntry

/-! ## Whole runs -/

/-- An apply, or a crash inside one and the state it leaves. -/
inductive UploadStep where
  | apply (st : EntryStep)
  | crash (st : EntryStep) (left : Shard)

/-- The Shard, and the entries that a crash left with their `.idx` written and that were not applied
again. -/
abbrev UploadRun := Shard × List LogEntry

def UploadStep.run (c : Crypto) : UploadStep → EStateM ShardErr UploadRun Unit
  | .apply st => fun x =>
    match (st.run c).run x.1 with
    | .error err s => .error err (s, x.2)
    | .ok () s => .ok () (s, x.2.filter (· ≠ st.entry))
  | .crash st left => fun x =>
    let b := st.entry.cmd.blockID
    if st.entry.cmd.writesIdx ∧ left.view.idx b ≠ (st.env x.1).view.idx b then
      .ok () (left, st.entry :: x.2)
    else .ok () (left, x.2)

def UploadStep.entryStep : UploadStep → EntryStep
  | .apply st => st
  | .crash st _ => st

/-- What happens before the entry leaves the upload tables and the `.idx` files of confirmed Blocks
alone, the entry is safe, and a crash leaves a prefix of its writes. -/
structure UploadStep.Safe (backend : BackendObjectMetadata → List IndexEntry) (c : Crypto)
    (x : UploadRun) (step : UploadStep) : Prop where
  quiet : step.entryStep.Quiet x.1
  config : (step.entryStep.env x.1).config = x.1.config
  idx : ∀ b, (x.1.slot b).confirmed ≠ none → (step.entryStep.env x.1).view.idx b = x.1.view.idx b
  entry : step.entryStep.entry.Safe backend c x.2 (step.entryStep.env x.1)
  crash : ∀ st left, step = .crash st left → st.entry.CrashState c (st.env x.1) left

/-- Every Block is obligated, but for those of the entries that are owed. -/
structure UploadRun.Inv (backend : BackendObjectMetadata → List IndexEntry) (x : UploadRun) :
    Prop where
  enabled : x.1.uploadEnabled = true
  writes : ∀ e ∈ x.2, e.cmd.writesIdx = true
  obligated : ∀ b, (∀ e ∈ x.2, e.cmd.blockID ≠ b) → x.1.Obligated backend b

theorem UploadRun.Inv.env {x : UploadRun} {step : UploadStep} (h : x.Inv backend)
    (hsafe : step.Safe backend c x) :
    (step.entryStep.env x.1).uploadEnabled = true ∧ ∀ b, (∀ e ∈ x.2, e.cmd.blockID ≠ b) →
        (step.entryStep.env x.1).Obligated backend b := by
  refine ⟨?_, fun b hb => ?_⟩
  · have hconfig := congrArg Prod.snd hsafe.config
    exact hconfig.trans h.enabled
  · exact (h.obligated b hb).congr (congrFun hsafe.quiet.2 b) (hsafe.idx b)

theorem UploadRun.Inv.step {x y : UploadRun} {step : UploadStep} (h : x.Inv backend)
    (hsafe : step.Safe backend c x) (hrun : (step.run c).run x = .ok () y) : y.Inv backend := by
  obtain ⟨hup, hob⟩ := h.env hsafe
  have hg := hsafe.quiet.1
  cases step with
  | apply st =>
    change UploadStep.run c (.apply st) x = .ok () y at hrun
    simp only [UploadStep.run] at hrun
    cases hst : (st.run c).run x.1 with
    | error err s => simp [hst] at hrun
    | ok u s => ?_
    obtain rfl : (s, x.2.filter (· ≠ st.entry)) = y := by simpa [hst] using hrun
    have hconfig := congrArg Prod.snd (LogEntry.apply_config hg hst)
    refine ⟨hconfig.trans hup, fun e he => h.writes e (List.mem_filter.mp he).1, fun b hb => ?_⟩
    refine LogEntry.apply_obligated hg hup hsafe.entry hst hob h.writes fun e' he' hne => ?_
    exact hb e' (List.mem_filter.mpr ⟨he', decide_eq_true hne⟩)
  | crash st left =>
    have hcrash := hsafe.crash st left rfl
    have hup' : left.uploadEnabled = true := (congrArg Prod.snd hcrash.config).trans hup
    change UploadStep.run c (.crash st left) x = .ok () y at hrun
    simp only [UploadStep.run] at hrun
    by_cases hw : st.entry.cmd.writesIdx = true ∧
        left.view.idx st.entry.cmd.blockID ≠ (st.env x.1).view.idx st.entry.cmd.blockID
    · rw [if_pos hw] at hrun
      cases hrun
      refine ⟨hup', by simpa using ⟨hw.1, h.writes⟩, fun b hb => ?_⟩
      refine hcrash.obligated hg hup hsafe.entry hob h.writes
        (fun e' he' => hb e' (List.mem_cons_of_mem _ he')) fun _ hown => ?_
      exact absurd hown.symm (hb st.entry List.mem_cons_self)
    · rw [if_neg hw] at hrun
      cases hrun
      refine ⟨hup', h.writes, fun b hb => ?_⟩
      refine hcrash.obligated hg hup hsafe.entry hob h.writes hb fun hwrites hown => ?_
      subst hown
      exact not_not.mp fun hne => hw ⟨hwrites, hne⟩

end Obligation

/-- In every run of safe steps, from a Shard with uploads enabled and no upload records: a Block
whose `.idx` is not its confirmed upload's has a pending record of a later generation, unless an
entry that a crash interrupted is still to be replayed. -/
theorem changed_block_pending (backend : BackendObjectMetadata → List IndexEntry) (c : Crypto)
    {s t : Shard} {steps : List UploadStep} {owed : List LogEntry}
    (hup : s.uploadEnabled = true) (hempty : ∀ b, s.slot b = ⟨none, none⟩)
    (hsafe : Meets (UploadStep.run c) (UploadStep.Safe backend c) (s, []) steps)
    (hrun : (runAll (UploadStep.run c) steps).run (s, []) = .ok () (t, owed))
    (b : UInt64) (hdone : ∀ e ∈ owed, e.cmd.blockID ≠ b)
    (q : ConfirmedUpload) (hq : t.idx.confirmedUploads b = some q) (es : List IndexEntry)
    (hes : t.view.idx b = some es) (hne : es ≠ backend q.indexObject) :
    ∃ p, t.idx.pendingUploads b = some p ∧ q.uploadGeneration < p.uploadGeneration := by
  have hstart : UploadRun.Inv backend (s, []) := by
    refine ⟨hup, by simp, fun b _ q hq => ?_⟩
    rw [hempty b] at hq
    cases hq
  have hend : UploadRun.Inv backend (t, owed) := by
    refine Meets.invariant ?_ hstart hsafe hrun
    exact fun step x y h hcond hstep => h.step hcond hstep
  obtain ⟨p, hp, -, hlt⟩ := hend.obligated b hdone q hq ⟨es, hes, hne⟩
  exact ⟨p, hp, hlt⟩

/-! ## A rewrap that keeps the key version -/

theorem RewrapDocumentEnvelope.crashState {c : Crypto} {i : UInt64} {s s' : Shard} {f : IdxFile}
    {changed : Bool}
    (hrep : replaceRewrapEnvelope c (s.blocks cmd.blockID).idx cmd = .ok (some f, changed))
    (hrun : (applyRewrapDocumentEnvelope c cmd (rewrapUploadGeneration cmd i)).run s = .ok () s') :
    LogEntry.CrashState c ⟨i, .rewrapDoc cmd⟩ s (s.setIdx cmd.blockID f) := by
  obtain ⟨f', changed', hrep', -, hs'⟩ := applyRewrapDocumentEnvelope_ok hrun
  obtain ⟨rfl, -⟩ : f = f' ∧ changed = changed' := by
    simpa using Except.ok.inj (hrep.symm.trans hrep')
  have hview : s'.view = (s.setIdx cmd.blockID f).view := by
    split at hs'
    · obtain ⟨-, p, rfl⟩ := requeue_ready hs'
      rfl
    · rw [hs']
  refine ⟨rfl, s'.wake (rewrapProposalKey cmd.proposalID cmd.transactionID cmd.documentName) none,
    ?_, fun b => ⟨.inr ?_, .inl rfl, .inl rfl⟩⟩
  · show (applyRewrapDocumentEnvelopeCommand c cmd i).run s = _
    rw [applyRewrapDocumentEnvelopeCommand_run, hrun]
  · rw [Shard.view_wake, hview]

/-- `x` of Block `1`, encrypted under key version `1`. -/
def docX : CommitDocument := { docOfT "x" 1 40 with encryptionEnvelope := [1, 0] }

def committedX : Shard :=
  after ((LogEntry.step ⟨1, .commitDoc docX⟩).run keylessCrypto) (receiveTwo (Shard.fresh 1 true))

def sealedX : Shard :=
  after ((LogEntry.step ⟨2, .sealBlock ⟨1, 1, 120, 1⟩⟩).run keylessCrypto) committedX

def uploadedX : Shard := after ((LogEntry.step ⟨3, confirmOne 0⟩).run keylessCrypto) sealedX

theorem committedX_good : committedX.Good :=
  EntryStep.good_after receiveTwo_good (by decide +kernel)

theorem sealedX_good : sealedX.Good := EntryStep.good_after committedX_good (by decide +kernel)

theorem uploadedX_good : uploadedX.Good := EntryStep.good_after sealedX_good (by decide +kernel)

/-- The Backend has the `.idx` of that time. -/
def backendX : BackendObjectMetadata → List IndexEntry := fun _ => (uploadedX.view.idx 1).getD []

/-- The envelope of `x` is replaced by one under `version`. -/
def rewrapX (version : UInt8) : RewrapDocumentEnvelope :=
  ⟨"t", "x", 1, [version, 1], 1, version.toNat, 5, "r"⟩

/-- The crash behind the rewrite of the `.idx`. -/
def rewrittenX (version : UInt8) : Shard :=
  match replaceRewrapEnvelope keylessCrypto (uploadedX.blocks 1).idx (rewrapX version) with
  | .ok (some f, _) => uploadedX.setIdx 1 f
  | _ => uploadedX

theorem rewrittenX_eq (version : UInt8)
    (hrun : outcome (applyRewrapDocumentEnvelope keylessCrypto (rewrapX version) 4) uploadedX =
      .ok ()) :
    ∃ f, f.torn = false ∧ rewrittenX version = uploadedX.setIdx 1 f ∧
      LogEntry.CrashState keylessCrypto ⟨4, .rewrapDoc (rewrapX version)⟩ uploadedX
        (rewrittenX version) := by
  have hok := outcome_ok_iff.mp hrun
  obtain ⟨f, changed, hrep, hf, -⟩ := applyRewrapDocumentEnvelope_ok hok
  have heq : rewrittenX version = uploadedX.setIdx 1 f := by
    unfold rewrittenX
    rw [show (uploadedX.blocks 1).idx = (uploadedX.blocks (rewrapX version).blockID).idx from rfl,
      hrep]
  exact ⟨f, hf, heq, heq ▸ RewrapDocumentEnvelope.crashState hrep hok⟩

/-- The log up to the rewrap, the crash, the restart, and the replay of the rewrap. -/
def rewrapRun (version : UInt8) : List UploadStep :=
  [.apply (LogEntry.step ⟨1, .commitDoc docX⟩),
    .apply (LogEntry.step ⟨2, .sealBlock ⟨1, 1, 120, 1⟩⟩),
    .apply (LogEntry.step ⟨3, confirmOne 0⟩),
    .crash (LogEntry.step ⟨4, .rewrapDoc (rewrapX version)⟩) (rewrittenX version),
    .apply ⟨restartTwo, ⟨4, .rewrapDoc (rewrapX version)⟩⟩]

/-- A new envelope under the same key version: the replay finds it in place, takes it as no change
and does not requeue. The Backend keeps the old one. -/
theorem replayed_rewrap_not_requeued :
    LogEntry.CrashState keylessCrypto ⟨4, .rewrapDoc (rewrapX 1)⟩ uploadedX (rewrittenX 1) ∧
    ∃ t, (runAll (UploadStep.run keylessCrypto) (rewrapRun 1)).run
        (receiveTwo (Shard.fresh 1 true), []) = .ok () (t, []) ∧
      t.isOpen 1 = false ∧ (t.idx.confirmedUploads 1).map (·.uploadGeneration) = some 0 ∧
      (t.view.idx 1).map (·.map (·.encryptionEnvelope)) = some [[1, 1]] ∧
      (backendX ⟨"idx", 200, "v"⟩).map (·.encryptionEnvelope) = [[1, 0]] ∧
      t.idx.pendingUploads 1 = none := by
  have hrun := outcome_ok_iff.mp (show outcome (runAll (UploadStep.run keylessCrypto) (rewrapRun 1))
    (receiveTwo (Shard.fresh 1 true), []) = .ok () by decide +kernel)
  obtain ⟨f, -, -, hcrash⟩ := rewrittenX_eq 1 (by decide +kernel)
  refine ⟨hcrash, _, hrun.trans (congrArg _ (Prod.ext rfl ?_)),
    by decide +kernel⟩
  decide +kernel

/-! Under a new key version the replayed command requeues. -/

section Witness

variable {backend : BackendObjectMetadata → List IndexEntry} {c : Crypto} {s : Shard}
  {owed : List LogEntry} {steps : List UploadStep}

namespace UploadStep

theorem meets_apply {st : EntryStep} (hok : outcome (st.run c) s = .ok ())
    (hsafe : (apply st).Safe backend c (s, owed))
    (hrest : Meets (run c) (Safe backend c)
      (after (st.run c) s, owed.filter (· ≠ st.entry)) steps) :
    Meets (run c) (Safe backend c) (s, owed) (.apply st :: steps) := by
  have hrun : ((apply st).run c).run (s, owed) =
      .ok () (after (st.run c) s, owed.filter (· ≠ st.entry)) := by
    show run c (.apply st) (s, owed) = _
    simp only [run, outcome_ok_iff.mp hok]
  exact ⟨hsafe, after_of_ok hrun ▸ hrest⟩

theorem meets_crash {st : EntryStep} {left : Shard}
    (hwritten : st.entry.cmd.writesIdx = true ∧
      left.view.idx st.entry.cmd.blockID ≠ (st.env s).view.idx st.entry.cmd.blockID)
    (hsafe : (crash st left).Safe backend c (s, owed))
    (hrest : Meets (run c) (Safe backend c) (left, st.entry :: owed) steps) :
    Meets (run c) (Safe backend c) (s, owed) (.crash st left :: steps) := by
  have hrun : ((crash st left).run c).run (s, owed) = .ok () (left, st.entry :: owed) :=
    if_pos hwritten
  exact ⟨hsafe, after_of_ok hrun ▸ hrest⟩

theorem safe_step {e : LogEntry} (hg : s.Good) (hsafe : e.Safe backend c owed s) :
    (apply (LogEntry.step e)).Safe backend c (s, owed) :=
  ⟨⟨hg, rfl⟩, rfl, fun _ _ => rfl, hsafe, fun st left h => by cases h⟩

end UploadStep

end Witness

theorem restartTwo_idx {s : Shard} (hpreps : s.openlog = []) {b : UInt64} (hb : b ≠ 3) :
    (restartTwo s).view.idx b = s.view.idx b := by
  rw [restartTwo, after_openShard hpreps]
  have hne : b ≠ scanMaxBlockID [1, 2] := hb
  simp [Shard.view, Shard.openNewBlock, Shard.reloaded, hne]

theorem uploadedX_generation {q : ConfirmedUpload} (hq : (uploadedX.slot 1).confirmed = some q) :
    q.uploadGeneration = 0 := by
  have hgen : ((uploadedX.slot 1).confirmed).map (·.uploadGeneration) = some 0 := by decide +kernel
  simpa [hq] using hgen

theorem rewrapRun_safe :
    Meets (UploadStep.run keylessCrypto) (UploadStep.Safe backendX keylessCrypto)
      (receiveTwo (Shard.fresh 1 true), []) (rewrapRun 2) := by
  obtain ⟨f, hf, heq, hcrash⟩ := rewrittenX_eq 2 (by decide +kernel)
  have hg₄ : (rewrittenX 2).Good := heq ▸ uploadedX_good.setIdxFile 1 hf
  have hslot : (rewrittenX 2).slot = uploadedX.slot := by rw [heq]; rfl
  have hpreps : (rewrittenX 2).openlog = [] := by decide +kernel
  obtain ⟨hrestart, hslot', hconfig⟩ := restartTwo_quiet hg₄ hpreps
  refine UploadStep.meets_apply (by decide +kernel) (UploadStep.safe_step receiveTwo_good ?_) <|
    UploadStep.meets_apply (by decide +kernel) (UploadStep.safe_step committedX_good ?_) <|
    UploadStep.meets_apply (by decide +kernel) (UploadStep.safe_step sealedX_good ?_) <|
    UploadStep.meets_crash (by decide +kernel)
      ⟨⟨uploadedX_good, rfl⟩, rfl, fun _ _ => rfl, ?_, fun st left h => ?_⟩ <|
    UploadStep.meets_apply (by decide +kernel)
      ⟨⟨hrestart, hslot'⟩, hconfig, fun b hb => ?_, ?_, fun st left h => by cases h⟩ trivial
  · exact ⟨fun h => absurd h (by decide +kernel), fun _ => by simp, fun _ => rfl⟩
  · exact fun _ => ⟨by decide +kernel, by decide +kernel⟩
  · -- the Backend has what is in the `.idx`
    refine ⟨fun h => absurd h (by decide +kernel), fun _ es hes => ?_, fun _ q hq => ?_⟩
    · have hidx : sealedX.view.idx 1 = some (backendX ⟨"idx", 200, "v"⟩) := by decide +kernel
      exact Option.some.inj (hes.symm.trans hidx)
    · have hnone : (sealedX.slot 1).confirmed = none := by decide +kernel
      exact absurd (hnone.symm.trans hq) (by simp)
  · refine ⟨fun _ => ⟨by decide +kernel, fun q hq => ?_⟩, fun h => absurd h (by decide +kernel),
      fun h => absurd h (by decide +kernel)⟩
    rw [uploadedX_generation hq]
    decide +kernel
  · cases h
    exact hcrash
  · refine restartTwo_idx hpreps fun h => hb ?_
    subst h
    decide +kernel
  · refine ⟨fun _ => ⟨by decide +kernel, fun q hq => ?_⟩, fun h => absurd h (by decide +kernel),
      fun h => absurd h (by decide +kernel)⟩
    have hq' : ((restartTwo (rewrittenX 2)).slot 1).confirmed = some q := hq
    rw [hslot'] at hq'
    rw [uploadedX_generation hq']
    decide +kernel

def requeuedX : UploadRun :=
  after (runAll (UploadStep.run keylessCrypto) (rewrapRun 2)) (receiveTwo (Shard.fresh 1 true), [])

theorem changed_block_pending_rewrapped : ∃ p,
    Meets (UploadStep.run keylessCrypto) (UploadStep.Safe backendX keylessCrypto)
      (receiveTwo (Shard.fresh 1 true), []) (rewrapRun 2) ∧
    (runAll (UploadStep.run keylessCrypto) (rewrapRun 2)).run
      (receiveTwo (Shard.fresh 1 true), []) = .ok () requeuedX ∧ requeuedX.2 = [] ∧
    requeuedX.1.idx.pendingUploads 1 = some p ∧ 0 < p.uploadGeneration := by
  have hrun : (runAll (UploadStep.run keylessCrypto) (rewrapRun 2)).run
      (receiveTwo (Shard.fresh 1 true), []) = .ok () requeuedX :=
    outcome_ok_iff.mp (by decide +kernel)
  have howed : requeuedX.2 = [] := by decide +kernel
  have hgen : (requeuedX.1.idx.confirmedUploads 1).map (·.uploadGeneration) = some 0 := by
    decide +kernel
  obtain ⟨q, hq, hzero⟩ := Option.map_eq_some_iff.mp hgen
  obtain ⟨es, hes⟩ : ∃ es, requeuedX.1.view.idx 1 = some es :=
    Option.isSome_iff_exists.mp (by decide +kernel)
  have hne : requeuedX.1.view.idx 1 ≠ some (backendX q.indexObject) := by
    show requeuedX.1.view.idx 1 ≠ some ((uploadedX.view.idx 1).getD [])
    decide +kernel
  have hnot : ∀ e ∈ requeuedX.2, e.cmd.blockID ≠ 1 := by
    rw [howed]
    simp
  obtain ⟨p, hp, hlt⟩ := changed_block_pending backendX keylessCrypto
    rfl (fun _ => rfl) rewrapRun_safe hrun 1 hnot q hq es hes
    fun h => hne (h ▸ hes)
  exact ⟨p, rewrapRun_safe, hrun, howed, hp, hzero ▸ hlt⟩

end Scrap
