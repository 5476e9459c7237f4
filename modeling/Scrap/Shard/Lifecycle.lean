/-
# Applies on Members whose Blocks are evicted or in quarantine

A closed Block is Hot, evicted or in quarantine on a Member, and the Members of a Cell differ in
that. `Shard.Sibling h m` says that `m` is the Member `h` except for the local state of its closed
Blocks. A committed command that applies on `h` should apply on `m`, since an apply that fails stops
the Member.

It does for SealBlock and ConfirmUpload, which read no Block file. For the other two
`sibling_apply_iff` says exactly when: the `.idx` of the command's Block must be there, and with
uploads enabled the size of a closed Block must be known without its `.blk`.
-/
import Scrap.Shard.Apply
import Scrap.Shard.Decision
import Scrap.Shard.Quarantine

namespace Scrap

open Block Fallible

/-! ## Siblings -/

/-- The files of a Hot Block on a Member that has it Hot, evicted or in quarantine. -/
inductive BlockFiles.LocalState (hot : BlockFiles) : BlockFiles → Prop where
  | hot : LocalState hot hot
  | evicted (marker : EvictionMarker) : hot.idx.isSome →
      LocalState hot { hot with blk := none, evictionMarker := some marker }
  | quarantined {files : BlockFiles} : hot.quarantine = .ok files → LocalState hot files

/-- `m` is `h` but for the local state of the closed Blocks. -/
structure Shard.Sibling (h m : Shard) : Prop where
  rest : m = { h with blocks := m.blocks }
  openBlock : ∀ b, h.isOpen b = true → m.blocks b = h.blocks b
  closedBlock : ∀ b, (h.blocks b).LocalState (m.blocks b)

theorem BlockFiles.LocalState.idx {hot files : BlockFiles} (h : hot.LocalState files) :
    files.idx = hot.idx ∨ files.idx = none := by
  cases h with
  | hot => exact .inl rfl
  | evicted => exact .inl rfl
  | quarantined hq => ?_
  obtain ⟨blk, idx, blkQ, idxQ, marker, upload⟩ := hot
  cases blk with
  | none => cases hq
  | some blk => ?_
  cases idx with
  | none =>
    cases hq
    exact .inr rfl
  | some idx =>
    cases hq
    exact .inr rfl

namespace Shard.Sibling

variable {h m : Shard}

theorem idx_eq (hs : h.Sibling m) : m.idx = h.idx := by rw [hs.rest]

theorem isOpen (hs : h.Sibling m) (b : UInt64) : m.isOpen b = h.isOpen b := by
  rw [hs.rest]
  rfl

theorem good (hs : h.Sibling m) (hg : h.Good) : m.Good := by
  refine ⟨hs.idx_eq ▸ hg.wf, fun b hb => ?_⟩
  rw [hs.isOpen] at hb
  rw [hs.openBlock b hb]
  exact hg.openIdx b hb

theorem hides (hs : h.Sibling m) : m.view.Hides (fun b => (m.blocks b).idx.isNone) h.view := by
  refine ⟨by simp [Shard.view, hs.idx_eq], fun b => ?_⟩
  rcases (hs.closedBlock b).idx with hidx | hidx
  · cases hf : (h.blocks b).idx with
    | none => simp [Shard.view, hidx]
    | some f => simp [Shard.view, hidx]
  · simp [Shard.view, hidx]

end Shard.Sibling

/-! ## CommitDocument on the two views -/

/-- A Document out of sight can be written a second time: its record fits, or is found in the closed
Block, and the Transaction takes it. -/
def View.Repeats (v : View) (o : Bool) (doc : CommitDocument) : Prop :=
  ∃ entry es, doc.indexEntry? = some entry ∧ v.idx doc.blockID = some es ∧
    (FieldsFit entry ∨ (o = false ∧ View.hasRecord es doc = true)) ∧
    ((∃ r, v.tx doc.transactionID = some r ∧ v.CountAhead doc r) ∨
      (v.hasRoom doc.transactionID ∧ v.listFits doc.transactionID doc.blockID))

variable {o : Bool} {r : Entry} {current : Envelope} {f : IdxFile} {e : IndexEntry}
  {d : ResolvedDocument} {s : Shard}

section Views

variable {hidden : UInt64 → Bool} {v w : View} {doc : CommitDocument}

theorem View.Hides.visible_sublist (h : v.Hides hidden w) (t : String) (ids : List UInt64) :
    (v.visible t ids).Sublist (w.visible t ids) := by
  induction ids with
  | nil => exact List.Sublist.slnil
  | cons b ids ih =>
    simp only [View.visible, List.flatMap_cons] at ih ⊢
    refine List.Sublist.append ?_ ih
    unfold View.entriesOf
    rw [h.idx b]
    cases hidden b with
    | true => simp [findByTransaction]
    | false => exact List.Sublist.refl _

theorem View.Hides.hidden_of_notMem (h : v.Hides hidden w) {t : String} {ids : List UInt64}
    (hd : d ∈ w.visible t ids) (hnot : d ∉ v.visible t ids) :
    hidden d.1 = true := by
  obtain ⟨b, hb, hmem⟩ := List.mem_flatMap.mp hd
  obtain ⟨e, he, rfl⟩ := List.mem_map.mp hmem
  by_contra hsight
  refine hnot (List.mem_flatMap.mpr ⟨b, hb, List.mem_map.mpr ⟨e, ?_, rfl⟩⟩)
  unfold View.entriesOf at he ⊢
  rw [h.idx b, if_neg hsight]
  exact he

/-- What can be written to the view with all files can be written to the other exactly when the file
is there. -/
theorem View.Hides.commitWrite_iff (h : v.Hides hidden w) {a c c' : Bool}
    (hc : c = true → c' = true) (hw : ∃ w', w.commitWrite o doc a c = some w') :
    (∃ v', v.commitWrite o doc a c' = some v') ↔ (v.idx doc.blockID).isSome := by
  obtain ⟨entry, es, hentry, hes, hfit, hroom⟩ := View.commitWrite_iff.mp hw
  rw [View.commitWrite_iff]
  constructor
  · rintro ⟨-, es', -, hes', -⟩
    simp [hes']
  intro hsome
  have hes' : v.idx doc.blockID = some es := by
    have hsight := h.idx doc.blockID
    cases hhid : hidden doc.blockID with
    | true => simp [hsight, hhid] at hsome
    | false => rw [hsight, hhid, ← hes]; rfl
  refine ⟨entry, es, hentry, hes', hfit, ?_⟩
  rcases hroom with hct | hroom
  · exact .inl (hc hct)
  refine .inr ?_
  unfold View.hasRoom View.listFits at hroom ⊢
  rw [h.tx]
  exact hroom

theorem View.Hides.commit_iff_unnamed (h : v.Hides hidden w) (hw : ∃ w', w.commit o doc = some w')
    (hr : w.tx doc.transactionID = some r)
    (hno : ∀ d ∈ w.visible doc.transactionID r.blockIDs, d.2.docName ≠ doc.documentName) :
    (∃ v', v.commit o doc = some v') ↔
      v.Sees doc ∨ ((v.idx doc.blockID).isSome ∧ (w.Sees doc → v.Repeats o doc)) := by
  have hr' : v.tx doc.transactionID = some r := by rw [h.tx]; exact hr
  have hsub := h.visible_sublist doc.transactionID r.blockIDs
  have hno' : ∀ d ∈ v.visible doc.transactionID r.blockIDs, d.2.docName ≠ doc.documentName :=
    fun d hd => hno d (hsub.subset hd)
  have hahead : decide (w.CountAhead doc r) = true → decide (v.CountAhead doc r) = true := by
    simp only [decide_eq_true_eq]
    exact fun hc => ⟨hc.1, lt_of_le_of_lt hsub.length_le hc.2⟩
  simp only [View.commit, View.action_unnamed hr' hno', View.action_unnamed hr hno] at hw ⊢
  rw [h.commitWrite_iff hahead hw]
  simp [View.not_sees hr' hno', View.not_sees hr hno]

theorem View.Hides.commit_iff_hidden (h : v.Hides hidden w) (hw : ∃ w', w.commit o doc = some w')
    (hr : w.tx doc.transactionID = some r) {l₁ l₂ : List ResolvedDocument}
    (hvis : w.visible doc.transactionID r.blockIDs = l₁ ++ d :: l₂)
    (hd : d.2.docName = doc.documentName) (hother : ∀ x ∈ l₁ ++ l₂, x.2.docName ≠ doc.documentName)
    (hno : ∀ x ∈ v.visible doc.transactionID r.blockIDs, x.2.docName ≠ doc.documentName) :
    (∃ v', v.commit o doc = some v') ↔
      v.Sees doc ∨ ((v.idx doc.blockID).isSome ∧ (w.Sees doc → v.Repeats o doc)) := by
  have hr' : v.tx doc.transactionID = some r := by rw [h.tx]; exact hr
  have hreject := View.commit_not_reject hw
  rw [View.action_of_match hr hvis hd hother] at hreject
  obtain ⟨-, hown⟩ := commitAction_found hreject
  have hmem : d ∈ w.visible doc.transactionID r.blockIDs := by rw [hvis]; simp
  have hhid := h.hidden_of_notMem hmem fun hmem' => hno d hmem' hd
  simp only [View.commit, View.action_unnamed hr' hno]
  rw [View.commitWrite_iff, or_iff_right (View.not_sees hr' hno), View.sees_iff hr hvis hd hother]
  by_cases hcounted : l₁.length + 1 ≤ r.docCount.toNat
  · simp only [hcounted, true_imp_iff, decide_eq_true_eq]
    have hif : ∀ es, ((if o = true then false else View.hasRecord es doc) = true ↔
        o = false ∧ View.hasRecord es doc = true) := by
      intro es
      cases o <;> simp
    constructor
    · rintro ⟨entry, es, hentry, hes, hfit, hroom⟩
      refine ⟨by simp [hes], entry, es, hentry, hes, by rwa [← hif], ?_⟩
      exact hroom.imp_left fun hc => ⟨r, hr', hc⟩
    · rintro ⟨-, entry, es, hentry, hes, hfit, hroom⟩
      refine ⟨entry, es, hentry, hes, by rwa [hif], hroom.imp_left ?_⟩
      rintro ⟨r', hr'', hc⟩
      obtain rfl : r = r' := by simpa using hr'.symm.trans hr''
      exact hc
  · -- not yet counted: the hidden Block is the command's own
    have hnone : v.idx doc.blockID = none := by
      rw [h.idx, ← hown (by simpa using hcounted), if_pos hhid]
    simp [hnone]

theorem View.Hides.commit_iff_visible (h : v.Hides hidden w) (hw : ∃ w', w.commit o doc = some w')
    (hr : w.tx doc.transactionID = some r) {l₁ l₂ k₁ k₂ : List ResolvedDocument}
    (hvis : w.visible doc.transactionID r.blockIDs = l₁ ++ d :: l₂)
    (hvis' : v.visible doc.transactionID r.blockIDs = k₁ ++ d :: k₂)
    (hd : d.2.docName = doc.documentName) (hk₁ : k₁.Sublist l₁) (hk₂ : k₂.Sublist l₂)
    (hother : ∀ x ∈ l₁ ++ l₂, x.2.docName ≠ doc.documentName) :
    (∃ v', v.commit o doc = some v') ↔
      v.Sees doc ∨ ((v.idx doc.blockID).isSome ∧ (w.Sees doc → v.Repeats o doc)) := by
  have hr' : v.tx doc.transactionID = some r := by rw [h.tx]; exact hr
  have hother' : ∀ x ∈ k₁ ++ k₂, x.2.docName ≠ doc.documentName :=
    fun x hx => hother x ((hk₁.append hk₂).subset hx)
  have hactw := View.action_of_match hr hvis hd hother
  have hactv := View.action_of_match hr' hvis' hd hother'
  have hreject := View.commit_not_reject hw
  rw [hactw] at hreject
  obtain ⟨hmatch, hown⟩ := commitAction_found hreject
  rw [View.sees_iff hr hvis hd hother, View.sees_iff hr' hvis' hd hother']
  have hle := hk₁.length_le
  by_cases hcounted : k₁.length + 1 ≤ r.docCount.toNat
  · have hdone : v.action doc = .done := by
      rw [hactv]
      simp [commitAction, hcounted, hmatch]
    exact iff_of_true ⟨v, by simp [View.commit, hdone]⟩ (.inl hcounted)
  · have hcounted' : ¬ l₁.length + 1 ≤ r.docCount.toNat := by omega
    have hb : d.1 = doc.blockID := hown (by simpa using hcounted')
    have hwrite : ∀ n, ¬ n + 1 ≤ r.docCount.toNat →
        commitAction doc ⟨some (d.1, d.2), decide (n + 1 ≤ r.docCount.toNat)⟩ =
          .write true false := by
      intro n hn
      simp [commitAction, hn, hb, hmatch]
    rw [hwrite _ hcounted'] at hactw
    rw [hwrite _ hcounted] at hactv
    simp only [View.commit, hactv, hactw] at hw ⊢
    rw [h.commitWrite_iff id hw]
    simp [hcounted, hcounted']

/-- The record is in sight on the other view too, or can be written there, if need be a second
time. -/
theorem View.Hides.commit_iff (h : v.Hides hidden w) (hw : ∃ w', w.commit o doc = some w') :
    (∃ v', v.commit o doc = some v') ↔
      v.Sees doc ∨ ((v.idx doc.blockID).isSome ∧ (w.Sees doc → v.Repeats o doc)) := by
  cases hr : w.tx doc.transactionID with
  | none =>
    have hns : ∀ x : View, x.tx doc.transactionID = none →
        ¬ x.Sees doc ∧ x.action doc = .write false false := by
      refine fun x hx => ⟨?_, ?_⟩
      · rintro ⟨r, hxr, -⟩
        exact absurd (hx.symm.trans hxr) (by simp)
      · simp [View.action, View.commitState, hx, commitAction, CommitProjectionState.zero]
    obtain ⟨hv, hactv⟩ := hns v (by rw [h.tx]; exact hr)
    obtain ⟨hw', hactw⟩ := hns w hr
    simp only [View.commit, hactv, hactw] at hw ⊢
    rw [h.commitWrite_iff id hw]
    simp [hv, hw']
  | some r =>
    obtain ⟨err, herr⟩ | hno | ⟨l₁, d, l₂, hvis, hd, hother⟩ := View.action_cases hr
    · exact absurd herr (View.commit_not_reject hw err)
    · exact h.commit_iff_unnamed hw hr hno
    have hsub := h.visible_sublist doc.transactionID r.blockIDs
    rw [hvis] at hsub
    obtain ⟨k₁, k', hsplit, hk₁, hk'⟩ := List.sublist_append_iff.mp hsub
    rcases List.sublist_cons_iff.mp hk' with hk₂ | ⟨k₂, rfl, hk₂⟩
    · refine h.commit_iff_hidden hw hr hvis hd hother fun x hx => ?_
      rw [hsplit] at hx
      exact hother x ((hk₁.append hk₂).subset hx)
    · exact h.commit_iff_visible hw hr hvis hsplit hd hk₁ hk₂ hother

end Views

theorem Shard.Sibling.commit_iff {h m : Shard} (hs : h.Sibling m) (hg : h.Good)
    (doc : CommitDocument) (i : UInt64)
    (hnil : ∃ h', (applyCommitDocument doc i).run h = .ok () h') :
    (∃ m', (applyCommitDocument doc i).run m = .ok () m') ↔
      m.view.Sees doc ∨ ((m.blocks doc.blockID).idx.isSome ∧ m.CanRequeue doc i ∧
        (h.view.Sees doc → m.view.Repeats (m.isOpen doc.blockID) doc)) := by
  have hw := ((applyCommitDocument_ok_iff hg doc i).mp hnil).1
  rw [← hs.isOpen] at hw
  have hiff := hs.hides.commit_iff hw
  have hidx : (m.view.idx doc.blockID).isSome = (m.blocks doc.blockID).idx.isSome := by
    simp [Shard.view]
  rw [hidx] at hiff
  rw [applyCommitDocument_ok_iff (hs.good hg) doc i]
  constructor
  · rintro ⟨hv, hrequeue⟩
    rw [View.writes_iff hv] at hrequeue
    by_cases hsees : m.view.Sees doc
    · exact .inl hsees
    · obtain ⟨hsome, hrep⟩ := (hiff.mp hv).resolve_left hsees
      exact .inr ⟨hsome, hrequeue hsees, hrep⟩
  · intro hcase
    have hv := hiff.mpr (hcase.imp_right fun hcan => ⟨hcan.1, hcan.2.2⟩)
    refine ⟨hv, ?_⟩
    rw [View.writes_iff hv]
    exact fun hsees => (hcase.resolve_left hsees).2.1

/-! ## RewrapDocumentEnvelope -/

/-- The command replaces the record's envelope, or the record has the new key version. -/
def RewrapDocumentEnvelope.Changes (cmd : RewrapDocumentEnvelope) (c : Crypto) (e : IndexEntry) :
    Prop :=
  ∃ current, c.parseEnvelope e.encryptionEnvelope = some current ∧
    ((current.keyVersion = cmd.oldKeyVersion ∧ e.encryptionEnvelope ≠ cmd.encryptionEnvelope) ∨
      (current.keyVersion ≠ cmd.oldKeyVersion ∧ current.keyVersion = cmd.newKeyVersion))

/-- The Block has its `.idx`, and if it is closed and its record changes, it can be requeued. -/
def Shard.CanRewrap (m : Shard) (c : Crypto) (cmd : RewrapDocumentEnvelope) (i : UInt64) : Prop :=
  ∃ f, (m.blocks cmd.blockID).idx = some f ∧ (m.isOpen cmd.blockID = false → ∀ e,
      find f.entries cmd.transactionID cmd.documentName = .ok e → cmd.Changes c e →
        m.RequeueReady cmd.blockID (rewrapUploadGeneration cmd i))

section Rewrap

variable {c : Crypto} {cmd : RewrapDocumentEnvelope}

/-- The file can be read and has the Document's record, with an envelope that parses. -/
structure RewrapDocumentEnvelope.Reads (cmd : RewrapDocumentEnvelope) (c : Crypto)
    (idx : Option IdxFile) (f : IdxFile) (e : IndexEntry) (current : Envelope) : Prop where
  file : idx = some f
  intact : f.torn = false
  found : find f.entries cmd.transactionID cmd.documentName = .ok e
  parsed : c.parseEnvelope e.encryptionEnvelope = some current

theorem replaceRewrapEnvelope_eq {idx : Option IdxFile} (h : cmd.Reads c idx f e current) :
    replaceRewrapEnvelope c idx cmd = if current.keyVersion = cmd.oldKeyVersion then
        if e.encryptionEnvelope = cmd.encryptionEnvelope then .ok (some f, false)
        else
          match rewriteIndexEntries (setEnvelope cmd.transactionID cmd.documentName
              cmd.encryptionEnvelope f.entries) with
          | .error err => .error (.rewrapIndex err)
          | .ok f' => .ok (some f', true)
      else if current.keyVersion = cmd.newKeyVersion then .ok (some f, true)
      else .error .staleEnvelope := by
  obtain ⟨rfl, htorn, hfind, hparse⟩ := h
  simp only [replaceRewrapEnvelope, validateRewrapCurrentEnvelope, openIndexReader, htorn,
    Bool.false_eq_true, if_false, hfind, hparse]
  by_cases hold : current.keyVersion = cmd.oldKeyVersion
  · simp only [if_pos hold, replaceDocumentEnvelope, openIndexReader, htorn, Bool.false_eq_true,
      if_false, hfind]
    by_cases hsame : e.encryptionEnvelope = cmd.encryptionEnvelope
    · simp only [if_pos hsame]
    simp only [if_neg hsame]
    cases rewriteIndexEntries (setEnvelope cmd.transactionID cmd.documentName
        cmd.encryptionEnvelope f.entries) with
    | error err => rfl
    | ok f' => rfl
  · by_cases hnew : current.keyVersion = cmd.newKeyVersion
    · simp only [if_neg hold, if_pos hnew]
    · simp only [if_neg hold, if_neg hnew]

theorem replaceRewrapEnvelope_reads {idx : Option IdxFile}
    (h : replaceRewrapEnvelope c idx cmd = .error .staleEnvelope ∨
      ∃ p, replaceRewrapEnvelope c idx cmd = .ok p) :
    ∃ f e current, cmd.Reads c idx f e current := by
  unfold replaceRewrapEnvelope validateRewrapCurrentEnvelope at h
  cases idx with
  | none => simp [openIndexReader] at h
  | some f => ?_
  cases htorn : f.torn with
  | true => simp [openIndexReader, htorn] at h
  | false => ?_
  simp only [openIndexReader, htorn] at h
  cases hfind : find f.entries cmd.transactionID cmd.documentName with
  | error err => simp [hfind] at h
  | ok e => ?_
  cases hparse : c.parseEnvelope e.encryptionEnvelope with
  | none => simp [hfind, hparse] at h
  | some current => exact ⟨f, e, current, rfl, htorn, hfind, hparse⟩

theorem replaceRewrapEnvelope_ok {idx idx' : Option IdxFile} {changed : Bool}
    (hr : cmd.Reads c idx f e current) (h : replaceRewrapEnvelope c idx cmd = .ok (idx', changed)) :
    (∃ f', idx' = some f') ∧ (changed = true ↔ cmd.Changes c e) := by
  have hiff : cmd.Changes c e ↔
      (current.keyVersion = cmd.oldKeyVersion ∧ e.encryptionEnvelope ≠ cmd.encryptionEnvelope) ∨
        (current.keyVersion ≠ cmd.oldKeyVersion ∧ current.keyVersion = cmd.newKeyVersion) := by
    simp [RewrapDocumentEnvelope.Changes, hr.parsed]
  rw [hiff]
  rw [replaceRewrapEnvelope_eq hr] at h
  by_cases hold : current.keyVersion = cmd.oldKeyVersion
  · rw [if_pos hold] at h
    by_cases hsame : e.encryptionEnvelope = cmd.encryptionEnvelope
    · rw [if_pos hsame] at h
      cases h
      exact ⟨⟨f, rfl⟩, by simp [hold, hsame]⟩
    · rw [if_neg hsame] at h
      split at h
      · cases h
      rename_i f' hrw
      cases h
      exact ⟨⟨f', rfl⟩, by simp [hold, hsame]⟩
  · rw [if_neg hold] at h
    by_cases hnew : current.keyVersion = cmd.newKeyVersion
    · rw [if_pos hnew] at h
      cases h
      exact ⟨⟨f, rfl⟩, iff_of_true rfl (.inr ⟨hold, hnew⟩)⟩
    · rw [if_neg hnew] at h
      cases h

theorem replaceRewrapEnvelope_stale {idx : Option IdxFile} (hr : cmd.Reads c idx f e current)
    (h : replaceRewrapEnvelope c idx cmd = .error .staleEnvelope) : ¬ cmd.Changes c e := by
  rw [replaceRewrapEnvelope_eq hr] at h
  rintro ⟨current', hparse, hcase⟩
  cases hr.parsed.symm.trans hparse
  rcases hcase with ⟨hold, hne⟩ | ⟨hold, hnew⟩
  · rw [if_pos hold, if_neg hne] at h
    cases hrw : rewriteIndexEntries (setEnvelope cmd.transactionID cmd.documentName
        cmd.encryptionEnvelope f.entries) with
    | error err => simp [hrw] at h
    | ok f' => simp [hrw] at h
  · rw [if_neg hold, if_pos hnew] at h
    cases h

theorem applyRewrap_iff (gen : Int) (hvalid : validateRewrapCommand c cmd = .ok ())
    (hr : cmd.Reads c (s.blocks cmd.blockID).idx f e current) {p : Option IdxFile × Bool}
    (h : replaceRewrapEnvelope c (s.blocks cmd.blockID).idx cmd = .ok p) :
    (∃ s', (applyRewrapDocumentEnvelope c cmd gen).run s = .ok () s') ↔
      (s.isOpen cmd.blockID = false → cmd.Changes c e → s.RequeueReady cmd.blockID gen) := by
  obtain ⟨idx', changed⟩ := p
  obtain ⟨⟨f', rfl⟩, hchanged⟩ := replaceRewrapEnvelope_ok hr h
  have hrun : (applyRewrapDocumentEnvelope c cmd gen).run s =
      (finishRewrapApply cmd.blockID (s.isOpen cmd.blockID) changed gen).run
        (s.setIdx cmd.blockID f') := by
    unfold applyRewrapDocumentEnvelope
    simp only [hvalid, get_bind, h]
    rfl
  rw [hrun, finishRewrapApply]
  by_cases hcase : changed = true ∧ (!s.isOpen cmd.blockID) = true
  · rw [if_pos hcase]
    obtain ⟨hch, hopen⟩ := hcase
    have hclosed : s.isOpen cmd.blockID = false := by simpa using hopen
    constructor
    · intro hok _ _
      by_contra hq
      obtain ⟨err, herr⟩ := requeue_error
        (mt Shard.requeueReady_setIdx.mp hq)
      obtain ⟨s', hs'⟩ := hok
      exact absurd (herr.symm.trans hs') (by simp)
    · intro hq
      obtain ⟨q, hq'⟩ := requeue_ok
        (Shard.requeueReady_setIdx.mpr (hq hclosed (hchanged.mp hch)))
      exact ⟨_, hq'⟩
  · rw [if_neg hcase]
    refine iff_of_true ⟨_, rfl⟩ fun hclosed hch => ?_
    exact absurd ⟨hchanged.mpr hch, by simp [hclosed]⟩ hcase

theorem sealedSize_not_stale (s : Shard) (b : UInt64) :
    s.sealedSizeForUploadRequeue b ≠ .error .staleEnvelope := by
  unfold Shard.sealedSizeForUploadRequeue
  split
  · simp
  split
  · simp
  · split <;> simp
  · simp

theorem finishRewrap_not_stale (s s' : Shard) (b : UInt64) (current changed : Bool) (gen : Int) :
    (finishRewrapApply b current changed gen).run s ≠ .error .staleEnvelope s' := by
  unfold finishRewrapApply
  split
  · rw [requeueBlockUploadAfterIndexAppend, get_bind]
    have hsize := sealedSize_not_stale s b
    split
    · cases hs : s.sealedSizeForUploadRequeue b with
      | error err =>
        rintro ⟨⟩
        exact hsize hs
      | ok size =>
        simp only
        split
        · rintro ⟨⟩
        · rintro ⟨⟩
    · rintro ⟨⟩
  · rintro ⟨⟩

theorem validateRewrapCommand_not_stale : validateRewrapCommand c cmd ≠ .error .staleEnvelope := by
  unfold validateRewrapCommand
  split
  · simp
  · split <;> simp

/-- When the apply of the command succeeds: it is valid, and stale or replaced and requeued. -/
theorem applyRewrapCommand_iff {i : UInt64} :
    (∃ s', (applyRewrapDocumentEnvelopeCommand c cmd i).run s = .ok () s') ↔
      validateRewrapCommand c cmd = .ok () ∧
        (replaceRewrapEnvelope c (s.blocks cmd.blockID).idx cmd = .error .staleEnvelope ∨
          ((∃ p, replaceRewrapEnvelope c (s.blocks cmd.blockID).idx cmd = .ok p) ∧
            ∃ s', (applyRewrapDocumentEnvelope c cmd (rewrapUploadGeneration cmd i)).run s =
              .ok () s')) := by
  have hcmd : (∃ s', (applyRewrapDocumentEnvelopeCommand c cmd i).run s = .ok () s') ↔
      (∃ s', (applyRewrapDocumentEnvelope c cmd (rewrapUploadGeneration cmd i)).run s =
        .error .staleEnvelope s') ∨
      ∃ s', (applyRewrapDocumentEnvelope c cmd (rewrapUploadGeneration cmd i)).run s = .ok () s' := by
    show (∃ s', applyRewrapDocumentEnvelopeCommand c cmd i s = .ok () s') ↔ _
    unfold applyRewrapDocumentEnvelopeCommand
    cases (applyRewrapDocumentEnvelope c cmd (rewrapUploadGeneration cmd i)).run s with
    | ok u s' => simp
    | error err s' => cases err <;> simp
  rw [hcmd]
  rw [applyRewrapDocumentEnvelope_run]
  cases hvalid : validateRewrapCommand c cmd with
  | error err =>
    have hne : err ≠ .staleEnvelope := fun heq =>
      validateRewrapCommand_not_stale (hvalid.trans (by rw [heq]))
    simp [hne]
  | ok u =>
    cases hrep : replaceRewrapEnvelope c (s.blocks cmd.blockID).idx cmd with
    | error err => simp
    | ok p => ?_
    have hno := finishRewrap_not_stale
      (s.setBlock cmd.blockID { s.blocks cmd.blockID with idx := p.1 })
    simp [hno]

end Rewrap

theorem Shard.Sibling.rewrap_iff {h m : Shard} (hs : h.Sibling m) (c : Crypto)
    (cmd : RewrapDocumentEnvelope) (i : UInt64)
    (hnil : ∃ h', (applyRewrapDocumentEnvelopeCommand c cmd i).run h = .ok () h') :
    (∃ m', (applyRewrapDocumentEnvelopeCommand c cmd i).run m = .ok () m') ↔
      m.CanRewrap c cmd i := by
  obtain ⟨hvalid, hcase⟩ := applyRewrapCommand_iff.mp hnil
  obtain ⟨f, e, current, hreads⟩ := replaceRewrapEnvelope_reads (hcase.imp_right And.left)
  rw [applyRewrapCommand_iff]
  rcases (hs.closedBlock cmd.blockID).idx with hidx | hidx
  · have hreads' : cmd.Reads c (m.blocks cmd.blockID).idx f e current := hidx ▸ hreads
    have hcan : m.CanRewrap c cmd i ↔ (m.isOpen cmd.blockID = false → cmd.Changes c e →
        m.RequeueReady cmd.blockID (rewrapUploadGeneration cmd i)) := by
      unfold Shard.CanRewrap
      rw [hreads'.file]
      simp [hreads'.found]
    rw [hidx, hcan]
    rcases hcase with hstale | ⟨⟨p, hp⟩, -⟩
    · refine iff_of_true ⟨hvalid, .inl hstale⟩ fun _ hch => ?_
      exact absurd hch (replaceRewrapEnvelope_stale hreads hstale)
    · rw [← applyRewrap_iff (rewrapUploadGeneration cmd i) hvalid hreads' (hidx ▸ hp)]
      simp [hvalid, hp]
  · refine iff_of_false ?_ ?_
    · rintro ⟨-, hcase'⟩
      obtain ⟨f', e', current', hreads'⟩ := replaceRewrapEnvelope_reads (hcase'.imp_right And.left)
      exact absurd (hidx.symm.trans hreads'.file) (by simp)
    · rintro ⟨f', hf', -⟩
      exact absurd (hidx.symm.trans hf') (by simp)

/-! ## SealBlock and ConfirmUpload read no Block file -/

section Confirm

variable {h m : Shard} (cmd : ConfirmUpload)

theorem applyConfirmUpload_iff (hidx : m.idx = h.idx) :
    (∃ m', (applyConfirmUpload cmd).run m = .ok () m') ↔
      ∃ h', (applyConfirmUpload cmd).run h = .ok () h' := by
  rw [applyConfirmUpload_run, applyConfirmUpload_run, hidx]
  cases h.idx.confirmRecord cmd with
  | ok u => simp
  | error err => cases err <;> simp

end Confirm

/-! ## All commands -/

/-- What the state of `m` must be for a command that applies on its sibling `h`. -/
def Shard.Applies (h m : Shard) (c : Crypto) (i : UInt64) : RaftCommand → Prop
  | .commitDoc doc =>
    m.view.Sees doc ∨ ((m.blocks doc.blockID).idx.isSome ∧ m.CanRequeue doc i ∧
      (h.view.Sees doc → m.view.Repeats (m.isOpen doc.blockID) doc))
  | .rewrapDoc cmd => m.CanRewrap c cmd i
  | .sealBlock _ => True
  | .confirmUpload _ => True

/-- A command that applies on a Member applies on a sibling exactly when the local state of its
Blocks allows it. -/
theorem sibling_apply_iff {h m : Shard} (hs : h.Sibling m) (hg : h.Good) (c : Crypto)
    (cmd : RaftCommand) (i : UInt64)
    (hnil : ∃ h', (applyEntryCommand c cmd i).run h = .ok () h') :
    (∃ m', (applyEntryCommand c cmd i).run m = .ok () m') ↔ h.Applies m c i cmd := by
  cases cmd with
  | commitDoc doc =>
    exact applyCommitDocumentCommand_iff.trans
      (hs.commit_iff hg doc i (applyCommitDocumentCommand_iff.mp hnil))
  | rewrapDoc cmd => exact hs.rewrap_iff c cmd i hnil
  | sealBlock cmd =>
    refine iff_of_true ((applySealBlock_iff m cmd).mpr ?_) trivial
    rw [hs.idx_eq]
    exact (applySealBlock_iff h cmd).mp hnil
  | confirmUpload cmd => exact iff_of_true ((applyConfirmUpload_iff cmd hs.idx_eq).mpr hnil) trivial

theorem Shard.sibling_quarantine {s' : Shard} {b : UInt64} (hclosed : s.isOpen b = false)
    (hq : (quarantine b).run s = .ok () s') : s.Sibling s' := by
  obtain ⟨files, hfiles, rfl⟩ := quarantine_ok.mp hq
  refine ⟨rfl, fun b' hopen => ?_, fun b' => ?_⟩
  · exact Function.update_of_ne (by rintro rfl; simp [hclosed] at hopen) _ _
  by_cases hb : b' = b
  · subst hb
    simpa [Shard.setBlock] using .quarantined hfiles
  · simpa [Shard.setBlock, hb] using .hot

/-! ## A replayed command and a Block in quarantine -/

theorem afterY_sibling : afterY.Sibling (after (quarantine 1) afterY) :=
  Shard.sibling_quarantine (b := 1) rfl rfl

theorem afterY_good : afterY.Good := by
  have hx : afterX.Good := (applyCommitDocument_ok (Shard.fresh_fresh 1 false).1
    (show (applyCommitDocument (docOfT "x" 1 40) 1).run _ = .ok () afterX from rfl)).2.1
  exact (applyCommitDocument_ok (hx.openNewBlock_env rfl).1
    (show (applyCommitDocument (docOfT "y" 2 40) 2).run _ = .ok () afterY from rfl)).2.1

/-- The entry of `x` comes again after a restart. With Block `1` in quarantine its record is not
seen, the Document is taken as counted, and its `.idx` is looked for. -/
theorem replayed_commit_fails_in_quarantine :
    afterY.Sibling (after (quarantine 1) afterY) ∧
      (∀ c : Crypto, ∃ h', (applyEntryCommand c (.commitDoc (docOfT "x" 1 40)) 1).run afterY =
        .ok () h') ∧
      ∀ c : Crypto, ∃ m', (applyEntryCommand c (.commitDoc (docOfT "x" 1 40)) 1).run
        (after (quarantine 1) afterY) = .error (.openHistoricalReadIdx .notExist) m' :=
  ⟨afterY_sibling, fun _ => ⟨_, rfl⟩, fun _ => ⟨_, rfl⟩⟩

theorem sibling_apply_open_block :
    (∀ c : Crypto, ∃ m', (applyEntryCommand c (.commitDoc (docOfT "z" 2 80)) 3).run
        (after (quarantine 1) afterY) = .ok () m') ∧
      ∀ c : Crypto,
        afterY.Applies (after (quarantine 1) afterY) c 3 (.commitDoc (docOfT "z" 2 80)) :=
  ⟨fun _ => ⟨_, rfl⟩, fun c =>
    (sibling_apply_iff afterY_sibling afterY_good c _ 3 ⟨_, rfl⟩).mp ⟨_, rfl⟩⟩

end Scrap
