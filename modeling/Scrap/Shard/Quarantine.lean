/-
# Commits on a Member with quarantined Blocks

Quarantine renames the files of a damaged Block, so an apply no longer sees its `.idx` records,
while the Transaction records keep listing the Block and counting its Documents. What the apply
infers from these counts goes wrong: a new Document of a listed Block is taken as counted, and a
Document whose record is hidden is taken as new.

`Shard.putBack` is the Member with every quarantined file put back. Quarantine and unquarantine do
not change it; an apply changes it as it changes a Member without quarantined Blocks, provided that
the decision is the same with and without the hidden records. `Shard.Tells` is a condition under
which it is (`View.action_hides`).
-/
import Scrap.Shard.LogRun

namespace Scrap

open Block Fallible Function Scrap.Group

/-! ## Quarantine -/

/-- The `.blk` is renamed, then the `.idx` if there is one. -/
def BlockFiles.quarantine (f : BlockFiles) : Except ShardErr BlockFiles :=
  match f.blk with
  | none => .error .quarantineBlk
  | some blk =>
    let f := { f with blk := none, blkQuarantine := some blk }
    match f.idx with
    | none => .ok f
    | some idx => .ok { f with idx := none, idxQuarantine := some idx }

/-- The files are renamed back, unless a file is there already. -/
def BlockFiles.unquarantine (f : BlockFiles) : Except ShardErr BlockFiles :=
  match f.blkQuarantine with
  | none => .error .notQuarantined
  | some blk =>
    if f.blk.isSome then .error (.unquarantineExists ".blk")
    else if f.idx.isSome then .error (.unquarantineExists ".idx")
    else
      let f := { f with blk := some blk, blkQuarantine := none }
      match f.idxQuarantine with
      | none => .ok f
      | some idx => .ok { f with idx := some idx, idxQuarantine := none }

def quarantine (blockID : UInt64) : ShardM Unit := do
  let s ← get
  match (s.blocks blockID).quarantine with
  | .error err => throw err
  | .ok files => set (s.setBlock blockID files)

def unquarantine (blockID : UInt64) : ShardM Unit := do
  let s ← get
  match (s.blocks blockID).unquarantine with
  | .error err => throw err
  | .ok files => set (s.setBlock blockID files)

variable {d : ResolvedDocument} {s s' : Shard} {b : UInt64} {v' : View}

theorem quarantine_ok :
    (quarantine b).run s = .ok () s' ↔
      ∃ files, (s.blocks b).quarantine = .ok files ∧ s.setBlock b files = s' := by
  rw [quarantine, get_bind]
  cases (s.blocks b).quarantine with
  | error err => simp
  | ok files => simp

theorem unquarantine_ok :
    (unquarantine b).run s = .ok () s' ↔
      ∃ files, (s.blocks b).unquarantine = .ok files ∧ s.setBlock b files = s' := by
  rw [unquarantine, get_bind]
  cases (s.blocks b).unquarantine with
  | error err => simp
  | ok files => simp

theorem BlockFiles.quarantine_idx {f f' : BlockFiles} (h : f.quarantine = .ok f') :
    f'.idx = none := by
  unfold BlockFiles.quarantine at h
  cases hblk : f.blk with
  | none => simp [hblk] at h
  | some blk => ?_
  cases hidx : f.idx with
  | none =>
    simp only [hblk, hidx, Except.ok.injEq] at h
    subst h
    rfl
  | some idx =>
    simp only [hblk, hidx, Except.ok.injEq] at h
    subst h
    rfl

/-- The files with those in quarantine put back. -/
def BlockFiles.putBack (f : BlockFiles) : BlockFiles :=
  match f.unquarantine with
  | .error _ => f
  | .ok f' => f'

def Shard.putBack (s : Shard) : Shard := { s with blocks := fun b => (s.blocks b).putBack }

/-- Either no file is in quarantine, or the `.blk` is and nothing stands in its place. -/
def BlockFiles.Apart (f : BlockFiles) : Prop :=
  (f.blkQuarantine = none ∧ f.idxQuarantine = none) ∨
    (f.blkQuarantine.isSome ∧ f.blk = none ∧ f.idx = none)

namespace BlockFiles

variable {f g : BlockFiles}

theorem putBack_of_none (h : f.blkQuarantine = none) : f.putBack = f := by
  simp [putBack, unquarantine, h]

theorem Apart.putBack_idx (h : f.Apart) :
    f.putBack.idx = if f.blkQuarantine.isSome then f.idxQuarantine else f.idx := by
  rcases h with ⟨hq, -⟩ | ⟨hq, hblk, hidx⟩
  · simp [putBack_of_none hq, hq]
  obtain ⟨blk, hblkq⟩ := Option.isSome_iff_exists.mp hq
  cases hiq : f.idxQuarantine with
  | none => simp [putBack, unquarantine, hblkq, hblk, hidx, hiq]
  | some idx => simp [putBack, unquarantine, hblkq, hblk, hidx, hiq]

theorem Apart.quarantine (h : f.Apart) (hg : f.quarantine = .ok g) :
    g.Apart ∧ g.putBack = f.putBack := by
  obtain ⟨blk, idx, blkQ, idxQ, marker, upload⟩ := f
  cases blk with
  | none => simp [BlockFiles.quarantine] at hg
  | some blk => ?_
  obtain ⟨rfl, rfl⟩ : blkQ = none ∧ idxQ = none := by simpa [Apart] using h
  cases idx with
  | none =>
    cases hg
    exact ⟨.inr ⟨rfl, rfl, rfl⟩, rfl⟩
  | some idx =>
    cases hg
    exact ⟨.inr ⟨rfl, rfl, rfl⟩, rfl⟩

theorem Apart.unquarantine (h : f.Apart) (hg : f.unquarantine = .ok g) :
    g.Apart ∧ g.putBack = f.putBack ∧ f.idx = none := by
  obtain ⟨blk, idx, blkQ, idxQ, marker, upload⟩ := f
  cases blkQ with
  | none => simp [BlockFiles.unquarantine] at hg
  | some blkQ => ?_
  obtain ⟨rfl, rfl⟩ : blk = none ∧ idx = none := by simpa [Apart] using h
  cases idxQ with
  | none =>
    cases hg
    exact ⟨.inl ⟨rfl, rfl⟩, rfl, rfl⟩
  | some idxQ =>
    cases hg
    exact ⟨.inl ⟨rfl, rfl⟩, rfl, rfl⟩

end BlockFiles

/-! ## A view with hidden Blocks -/

/-- `v` is `w` without the `.idx` files of the hidden Blocks. -/
structure View.Hides (hidden : UInt64 → Bool) (v w : View) : Prop where
  tx : v.tx = w.tx
  idx : ∀ b, v.idx b = if hidden b then none else w.idx b

def Ledger.outside (L : Ledger) (hidden : UInt64 → Bool) : Ledger :=
  L.filter (fun d => !hidden d.1)

theorem Ledger.mem_outside {L : Ledger} {hidden : UInt64 → Bool} :
    d ∈ L.outside hidden ↔ d ∈ L ∧ hidden d.1 = false := by
  simp [Ledger.outside]

theorem Ledger.inBlock_outside (L : Ledger) (hidden : UInt64 → Bool) (b : UInt64) :
    (L.outside hidden).inBlock b = if hidden b then [] else L.inBlock b := by
  unfold Ledger.inBlock Ledger.outside
  rw [List.filter_filter]
  cases hb : hidden b with
  | true =>
    have hnil : L.filter (fun d => decide (d.1 = b) && !hidden d.1) = [] := by
      refine List.filter_eq_nil_iff.mpr fun d _ hd => ?_
      obtain ⟨rfl, hsight⟩ : d.1 = b ∧ hidden d.1 = false := by simpa using hd
      exact absurd (hb.symm.trans hsight) (by simp)
    rw [hnil]
    rfl
  | false =>
    congr 1
    refine List.filter_congr fun d _ => ?_
    by_cases hd : d.1 = b <;> simp [hd, hb]

theorem View.action_congr {v w : View} {doc : CommitDocument}
    (htx : v.tx doc.transactionID = w.tx doc.transactionID)
    (hvis : ∀ r, v.tx doc.transactionID = some r →
      v.visible doc.transactionID r.blockIDs = w.visible doc.transactionID r.blockIDs) :
    v.action doc = w.action doc := by
  unfold View.action View.commitState
  rw [← htx]
  cases hr : v.tx doc.transactionID with
  | none => rfl
  | some r => simp only [hvis r hr]

/-- The apply decides as if it saw the hidden records: the Transaction has none, or the Document's
record is in sight, or it is in no hidden Block and the Document's Block is new to the Transaction,
or its last one while none of its Blocks is hidden. -/
def View.Tells (v : View) (hidden : UInt64 → Bool) (hiddenDoc : ResolvedDocument → Prop)
    (doc : CommitDocument) : Prop :=
  ∀ r, v.tx doc.transactionID = some r →
    (∃ d ∈ v.visible doc.transactionID r.blockIDs, d.2.docName = doc.documentName) ∨
      ((∀ d, hiddenDoc d → Ledger.identity d ≠ doc.identity) ∧ (doc.blockID ∉ r.blockIDs ∨
          r.blockIDs.getLast? = some doc.blockID ∧ ∀ b ∈ r.blockIDs, hidden b = false))

section Hides

variable {hidden : UInt64 → Bool} {v w : View} {L : Ledger} {doc : CommitDocument}

theorem View.Hides.idx_outside (h : v.Hides hidden w) (hrep : w.Rep L) (b : UInt64) :
    (v.idx b).getD [] = (L.outside hidden).inBlock b := by
  rw [h.idx, Ledger.inBlock_outside]
  cases hidden b with
  | true => rfl
  | false => exact hrep.idx b

theorem View.Hides.action_new (h : v.Hides hidden w) (hrep : w.Rep L) {r : Entry}
    (hr : v.tx doc.transactionID = some r)
    (hnew : ¬ L.Has doc.transactionID doc.documentName)
    (hblock : doc.blockID ∉ r.blockIDs) : v.action doc = .write false false := by
  have hno : ∀ d ∈ v.visible doc.transactionID r.blockIDs, d.2.docName ≠ doc.documentName := by
    intro d hd hname
    rw [View.visible_eq_gather (h.idx_outside hrep)] at hd
    obtain ⟨hmem, ht⟩ := mem_gather_fst hd
    exact hnew ⟨d, (Ledger.mem_outside.mp hmem).1, ht, hname⟩
  simp only [View.action, View.commitState, hr, scanVisible_none _ _ _ hno, finishInspection,
    CommitProjectionState.zero, commitAction]
  simp [hblock]

theorem View.Hides.visible_eq (h : v.Hides hidden w) {ids : List UInt64}
    (hids : ∀ b ∈ ids, hidden b = false) (t : String) : v.visible t ids = w.visible t ids := by
  refine List.flatMap_congr fun b hb => ?_
  simp [View.entriesOf, h.idx, hids b hb]

theorem View.Hides.action_seen (h : v.Hides hidden w) (hrep : w.Rep L) (hdist : L.Distinct)
    (hnr : L.NeverReturns doc.transactionID) (hd : d ∈ L) (hid : Ledger.identity d = doc.identity)
    (hsight : hidden d.1 = false) :
    v.action doc = if commitDocumentMatchesExisting doc d.2 then .done
      else .reject .duplicateDocumentConflict := by
  have hsub : (L.outside hidden).Sublist L := List.filter_sublist
  have hmem : d ∈ L.ofTx doc.transactionID := Ledger.mem_ofTx.mpr ⟨hd, (Prod.mk.inj hid).1⟩
  obtain ⟨r, hr⟩ := Option.ne_none_iff_exists'.mp
    (mt hrep.tx_eq_none.mp (List.ne_nil_of_mem hmem))
  obtain ⟨-, hids, hcount, -⟩ := hrep.tx_eq_some hr
  have hvis : v.visible doc.transactionID r.blockIDs =
      gather Prod.fst ((L.outside hidden).ofTx doc.transactionID)
        (runs (L.blocks doc.transactionID)) ++ [] := by
    rw [View.visible_eq_gather (h.idx_outside hrep), hids, List.append_nil]
  have hcover : ∀ x ∈ (L.outside hidden).ofTx doc.transactionID,
      x.1 ∈ runs (L.blocks doc.transactionID) :=
    fun x hx => Ledger.covered _ x ((hsub.filter _).subset hx)
  refine View.action_seen (hdist.sublist (hsub.map _)) (Ledger.mem_outside.mpr ⟨hd, hsight⟩) hid
    (h.tx ▸ hr) hvis (gather_perm hcover hnr) ?_ (by simp)
  rw [hcount]
  exact (hsub.filter _).length_le

theorem View.Hides.action_eq (h : v.Hides hidden w) (hrep : w.Rep L) (hdist : L.Distinct)
    (hnr : L.NeverReturns doc.transactionID) {hiddenDoc : ResolvedDocument → Prop}
    (hhidden : ∀ d ∈ L, hidden d.1 = true → hiddenDoc d) (htells : v.Tells hidden hiddenDoc doc) :
    v.action doc = w.action doc := by
  cases hr : v.tx doc.transactionID with
  | none => exact View.action_congr (by rw [h.tx]) (by simp [hr])
  | some r => ?_
  have hvis := View.visible_eq_gather (h.idx_outside hrep) doc.transactionID r.blockIDs
  by_cases hhas : L.Has doc.transactionID doc.documentName
  · obtain ⟨d, hd, hid⟩ := Ledger.has_iff.mp hhas
    have hsight : hidden d.1 = false := by
      rcases htells r hr with ⟨x, hx, hname⟩ | ⟨hno, -⟩
      · rw [hvis] at hx
        obtain ⟨hmem, ht⟩ := mem_gather_fst hx
        obtain ⟨hxL, hxs⟩ := Ledger.mem_outside.mp hmem
        have hidx : Ledger.identity x = Ledger.identity d :=
          (Prod.ext ht hname : Ledger.identity x = doc.identity).trans hid.symm
        rw [← hdist.eq_of_identity hxL hd hidx]
        exact hxs
      · by_contra hhid
        exact hno d (hhidden d hd (by simpa using hhid)) hid
    rw [h.action_seen hrep hdist hnr hd hid hsight, hrep.action_settled hdist hnr hd hid]
  · rcases htells r hr with ⟨x, hx, hname⟩ | ⟨-, hblock | ⟨-, hids⟩⟩
    · rw [hvis] at hx
      obtain ⟨hmem, ht⟩ := mem_gather_fst hx
      exact absurd ⟨x, (Ledger.mem_outside.mp hmem).1, ht, hname⟩ hhas
    · rw [h.action_new hrep hr hhas hblock, hrep.action_new hhas]
    · refine View.action_congr (by rw [h.tx]) fun r' hr' => ?_
      obtain rfl : r = r' := by simpa [hr] using hr'
      exact h.visible_eq hids _

theorem View.Hides.writeIdx (h : v.Hides hidden w) {o a : Bool} {entry : IndexEntry}
    (hw : v.writeIdx o doc entry a = some v') :
    ∃ w', w.writeIdx o doc entry a = some w' ∧ v'.Hides hidden w' ∧
      ∀ b, hidden b = true → w'.idx b = w.idx b := by
  obtain ⟨es, hes, hv'⟩ := View.writeIdx_some.mp hw
  have hsight : hidden doc.blockID = false := by
    by_contra hhid
    rw [h.idx, if_pos (by simpa using hhid)] at hes
    cases hes
  have hes' : w.idx doc.blockID = some es := by
    rw [h.idx, hsight] at hes
    exact hes
  obtain ⟨hrec, rfl⟩ | ⟨hrec, hfit, rfl⟩ := hv'
  · exact ⟨w, View.writeIdx_some.mpr ⟨es, hes', .inl ⟨hrec, rfl⟩⟩, h, fun _ _ => rfl⟩
  refine ⟨_, View.writeIdx_some.mpr ⟨es, hes', .inr ⟨hrec, hfit, rfl⟩⟩,
    ⟨h.tx, fun b => ?_⟩, fun b hb => ?_⟩
  · by_cases hb : b = doc.blockID
    · subst hb
      simp [hsight]
    · simp only [update_of_ne hb]
      exact h.idx b
  · have hne : b ≠ doc.blockID := fun heq => by simp [heq, hsight] at hb
    simp [hne]

theorem View.Hides.count (h : v.Hides hidden w) {t : String} (hc : v.count t b = some v') :
    ∃ w', w.count t b = some w' ∧ v'.Hides hidden w' ∧ w'.idx = w.idx := by
  obtain ⟨hroom, rfl⟩ := View.count_some.mp hc
  unfold View.hasRoom View.listFits at hroom
  rw [h.tx] at hroom
  refine ⟨_, View.count_some.mpr ⟨hroom, rfl⟩, ⟨?_, h.idx⟩, rfl⟩
  simp only [View.nextEntry, h.tx]

theorem View.Hides.commit (h : v.Hides hidden w) (hact : v.action doc = w.action doc) {o : Bool}
    (hc : v.commit o doc = some v') :
    ∃ w', w.commit o doc = some w' ∧ v'.Hides hidden w' ∧
      ∀ b, hidden b = true → w'.idx b = w.idx b := by
  obtain ⟨hdone, rfl⟩ | ⟨a, c, hv, hwrite⟩ := View.commit_some.mp hc
  · exact ⟨w, View.commit_some.mpr (.inl ⟨hact ▸ hdone, rfl⟩), h, fun _ _ => rfl⟩
  obtain ⟨entry, v₁, hentry, hw, hcount⟩ := View.commitWrite_some.mp hwrite
  obtain ⟨w₁, hw₁, h₁, hkeep⟩ := h.writeIdx hw
  have hboth : ∀ {w'}, (c = true ∧ w' = w₁ ∨
      c = false ∧ w₁.count doc.transactionID doc.blockID = some w') → w.commit o doc = some w' :=
    fun hc' => View.commit_some.mpr (.inr ⟨a, c, hact ▸ hv,
      View.commitWrite_some.mpr ⟨entry, w₁, hentry, hw₁, hc'⟩⟩)
  obtain ⟨hc, rfl⟩ | ⟨hc, hcount⟩ := hcount
  · exact ⟨w₁, hboth (.inl ⟨hc, rfl⟩), h₁, hkeep⟩
  · obtain ⟨w', hw', h', hidx⟩ := h₁.count hcount
    exact ⟨w', hboth (.inr ⟨hc, hw'⟩), h', fun b hb => by rw [hidx]; exact hkeep b hb⟩

end Hides

/-! ## A Member with quarantined Blocks -/

section Member

variable {s s' : Shard} {docs : List CommitDocument} {doc : CommitDocument}

def Shard.quarantined (s : Shard) (b : UInt64) : Bool := (s.blocks b).blkQuarantine.isSome

theorem Shard.putBack_view_idx (h : ∀ b, (s.blocks b).Apart) (b : UInt64) :
    s.putBack.view.idx b =
      if s.quarantined b then (s.blocks b).idxQuarantine.map (·.entries) else s.view.idx b := by
  simp only [Shard.view, Shard.putBack, (h b).putBack_idx]
  exact apply_ite (Option.map IdxFile.entries) _ _ _

theorem Shard.hides_putBack (h : ∀ b, (s.blocks b).Apart) :
    s.view.Hides s.quarantined s.putBack.view := by
  refine ⟨rfl, fun b => ?_⟩
  rw [Shard.putBack_view_idx h]
  rcases h b with ⟨hq, -⟩ | ⟨hq, -, hidx⟩
  · simp [Shard.quarantined, hq]
  · simp [Shard.quarantined, Shard.view, hq, hidx]

/-- The Member has applied the log, some Blocks in quarantine: with the files put back it would
represent the log's ledger. -/
structure Shard.TracksApart (docs : List CommitDocument) (s : Shard) : Prop where
  good : s.Good
  apart : ∀ b, (s.blocks b).Apart
  rep : s.putBack.view.Rep (Ledger.ofDocs docs)
  distinct : (Ledger.ofDocs docs).Distinct
  never : NeverReturnsLog docs

theorem Shard.TracksApart.good_putBack (h : s.TracksApart docs) : s.putBack.Good := by
  refine ⟨h.good.wf, fun b hopen => ?_⟩
  obtain ⟨f, hf, htorn⟩ := h.good.openIdx b hopen
  refine ⟨f, ?_, htorn⟩
  simp only [Shard.putBack, (h.apart b).putBack_idx]
  rcases h.apart b with ⟨hq, -⟩ | ⟨-, -, hnone⟩
  · simpa [hq] using hf
  · simp [hnone] at hf

/-- Anything that leaves the records alone, in quarantine or not. -/
def Shard.EnvApart (s s' : Shard) : Prop :=
  s.Env s' ∧ ∀ b, (s'.blocks b).Apart ∧ (s'.blocks b).blkQuarantine = (s.blocks b).blkQuarantine ∧
    (s'.blocks b).idxQuarantine = (s.blocks b).idxQuarantine

theorem Shard.TracksApart.env (h : s.TracksApart docs) (henv : s.EnvApart s') :
    s'.TracksApart docs := by
  obtain ⟨⟨hg, htx, hidx⟩, hq⟩ := henv
  refine ⟨hg, fun b => (hq b).1, ⟨⟨?_, h.rep.small⟩, ?_⟩, h.distinct, h.never⟩
  · intro t
    exact (congrFun htx t).trans (h.rep.tx t)
  intro b
  obtain ⟨-, hbq, hiq⟩ := hq b
  have hsame : s'.quarantined b = s.quarantined b := by
    rw [Shard.quarantined, Shard.quarantined, hbq]
  rw [← h.rep.idx b, Shard.putBack_view_idx h.apart, Shard.putBack_view_idx fun c => (hq c).1,
    hsame, hiq]
  cases s.quarantined b with
  | true => rfl
  | false => exact hidx b

theorem Shard.TracksApart.envApart_refl (h : s.TracksApart docs) : s.EnvApart s :=
  ⟨h.good.env_refl, fun b => ⟨h.apart b, rfl, rfl⟩⟩

theorem Shard.putBack_setBlock {files : BlockFiles} (hback : files.putBack = (s.blocks b).putBack) :
    (s.setBlock b files).putBack = s.putBack := by
  have hblocks : (fun c => ((s.setBlock b files).blocks c).putBack) =
      fun c => (s.blocks c).putBack := by
    funext c
    by_cases hc : c = b <;> simp [Shard.setBlock, hc, hback]
  show { s with blocks := fun c => ((s.setBlock b files).blocks c).putBack } = s.putBack
  rw [hblocks]
  rfl

theorem Shard.TracksApart.setBlock (h : s.TracksApart docs) {files : BlockFiles}
    (hapart : files.Apart) (hback : files.putBack = (s.blocks b).putBack)
    (hopen : s.isOpen b = false) : (s.setBlock b files).TracksApart docs := by
  have hsame := Shard.putBack_setBlock hback
  refine ⟨h.good.setBlock fun h => by simp [hopen] at h, fun c => ?_, hsame ▸ h.rep, h.distinct,
    h.never⟩
  by_cases hc : c = b
  · subst hc
    simpa [Shard.setBlock] using hapart
  · simpa [Shard.setBlock, hc] using h.apart c

theorem Shard.TracksApart.quarantine (h : s.TracksApart docs) (hclosed : s.isOpen b = false)
    (hrun : (quarantine b).run s = .ok () s') :
    s'.TracksApart docs := by
  obtain ⟨files, hq, rfl⟩ := quarantine_ok.mp hrun
  obtain ⟨hapart, hback⟩ := (h.apart b).quarantine hq
  exact h.setBlock hapart hback hclosed

theorem Shard.TracksApart.unquarantine (h : s.TracksApart docs)
    (hrun : (unquarantine b).run s = .ok () s') : s'.TracksApart docs := by
  obtain ⟨files, hq, rfl⟩ := unquarantine_ok.mp hrun
  obtain ⟨hapart, hback, hnone⟩ := (h.apart b).unquarantine hq
  have hclosed : s.isOpen b = false := by
    by_contra hopen
    obtain ⟨f, hf, -⟩ := h.good.openIdx b (by simpa using hopen)
    simp [hnone] at hf
  exact h.setBlock hapart hback hclosed

def Shard.InQuarantine (s : Shard) (d : ResolvedDocument) : Prop :=
  ∃ f, (s.blocks d.1).idxQuarantine = some f ∧ d.2 ∈ f.entries

def Shard.Tells (s : Shard) (doc : CommitDocument) : Prop :=
  s.view.Tells s.quarantined s.InQuarantine doc

theorem Shard.TracksApart.inQuarantine (h : s.TracksApart docs) (hd : d ∈ Ledger.ofDocs docs)
    (hq : s.quarantined d.1 = true) : s.InQuarantine d := by
  have hmem : d.2 ∈ (Ledger.ofDocs docs).inBlock d.1 := Ledger.mem_inBlock.mpr hd
  rw [← h.rep.idx, Shard.putBack_view_idx h.apart, if_pos hq] at hmem
  cases hf : (s.blocks d.1).idxQuarantine with
  | none => simp [hf] at hmem
  | some f => exact ⟨f, hf, by simpa [hf] using hmem⟩

theorem Shard.TracksApart.mem_of_inQuarantine (h : s.TracksApart docs) (hd : s.InQuarantine d) :
    d ∈ Ledger.ofDocs docs := by
  obtain ⟨f, hf, hmem⟩ := hd
  have hq : s.quarantined d.1 = true := by
    rcases h.apart d.1 with ⟨-, hnone⟩ | ⟨hq, -⟩
    · simp [hnone] at hf
    · exact hq
  refine Ledger.mem_inBlock.mp ?_
  rw [← h.rep.idx, Shard.putBack_view_idx h.apart, if_pos hq, hf]
  exact hmem

theorem Shard.TracksApart.tells_new (h : s.TracksApart docs)
    (hnew : ¬ (Ledger.ofDocs docs).Has doc.transactionID doc.documentName)
    (hblock : ∀ r, s.view.tx doc.transactionID = some r → doc.blockID ∉ r.blockIDs) :
    s.Tells doc :=
  fun r hr => .inr ⟨fun d hd hid => hnew (Ledger.has_iff.mpr ⟨d, h.mem_of_inQuarantine hd, hid⟩),
    .inl (hblock r hr)⟩

theorem Ledger.NeverReturns.concat {L : Ledger} (h : ∀ t, L.NeverReturns t) {e : IndexEntry}
    (hb : b ∉ runs (L.blocks e.transactionID) ∨
      (runs (L.blocks e.transactionID)).getLast? = some b) (t : String) :
    Ledger.NeverReturns (L ++ [(b, e)]) t := by
  unfold Ledger.NeverReturns
  by_cases ht : e.transactionID = t
  · subst ht
    have hblocks : Ledger.blocks (L ++ [(b, e)]) e.transactionID =
        L.blocks e.transactionID ++ [b] := by
      simp [Ledger.blocks, Ledger.ofTx_concat_self]
    rw [hblocks, runs_concat]
    split
    · exact h _
    rename_i hlast
    have hnew := hb.resolve_right hlast
    refine List.nodup_append.mpr ⟨h _, by simp, ?_⟩
    rintro x hx y hy rfl
    obtain rfl : x = b := by simpa using hy
    exact hnew hx
  · have hblocks : Ledger.blocks (L ++ [(b, e)]) t = L.blocks t := by
      simp only [Ledger.blocks, Ledger.ofTx_concat_of_ne L b ht]
    rw [hblocks]
    exact h t

namespace Shard

theorem TracksApart.never_concat (h : s.TracksApart docs) (htells : s.Tells doc) :
    NeverReturnsLog (docs ++ [doc]) := by
  intro t
  rw [Ledger.ofDocs_concat, Ledger.commit]
  split
  · exact h.never t
  rename_i hnew
  cases hentry : doc.indexEntry? with
  | none => simpa [CommitDocument.resolved?, hentry] using h.never t
  | some e => ?_
  obtain ⟨htx, hn⟩ := CommitDocument.indexEntry?_some hentry
  have hres : doc.resolved?.toList = [(doc.blockID, e)] := by
    simp [CommitDocument.resolved?, hentry]
  rw [hres]
  refine Ledger.NeverReturns.concat h.never ?_ t
  rw [htx]
  cases hr : s.view.tx doc.transactionID with
  | none =>
    have hnil := h.rep.tx_eq_none.mp hr
    exact .inl (by simp [Ledger.blocks, hnil])
  | some r =>
    obtain ⟨-, hids, -, -⟩ := h.rep.tx_eq_some hr
    rcases htells r hr with ⟨x, hx, hname⟩ | ⟨-, hblock | ⟨hlast, -⟩⟩
    · rw [View.visible_eq_gather ((hides_putBack h.apart).idx_outside h.rep)] at hx
      obtain ⟨hmem, ht⟩ := mem_gather_fst hx
      exact absurd ⟨x, (Ledger.mem_outside.mp hmem).1, ht, hname⟩ hnew
    · exact .inl (hids ▸ hblock)
    · exact .inr (hids ▸ hlast)

theorem TracksApart.apply (h : s.TracksApart docs) {i : UInt64} (htells : s.Tells doc)
    (hrun : (applyCommitDocument doc i).run s = .ok () s') : s'.TracksApart (docs ++ [doc]) := by
  obtain ⟨hcommit, hg, hrest⟩ := applyCommitDocument_ok h.good hrun
  have hhides := hides_putBack h.apart
  have hnr := h.never doc.transactionID
  have hact := hhides.action_eq h.rep h.distinct hnr (fun d => h.inQuarantine) htells
  obtain ⟨w, hw, hhides', hkeep⟩ := hhides.commit hact hcommit
  obtain ⟨hrep, hdist, -⟩ := h.rep.commit h.distinct hnr hw
  have hsame : s'.quarantined = s.quarantined := funext fun b => by
    rw [quarantined, quarantined, hrest.blkQuarantine]
  have hapart : ∀ b, (s'.blocks b).Apart := by
    intro b
    rcases h.apart b with ⟨hbq, hiq⟩ | ⟨hbq, hblk, -⟩
    · exact .inl ⟨(hrest.blkQuarantine b).trans hbq, (hrest.idxQuarantine b).trans hiq⟩
    refine .inr ⟨by rw [hrest.blkQuarantine]; exact hbq, (hrest.blk b).trans hblk, ?_⟩
    have hnone : s'.view.idx b = none := by
      rw [hhides'.idx b]
      exact if_pos hbq
    simpa [view] using hnone
  -- what the apply leaves behind, with the files put back
  have hidx : s'.putBack.view.idx = w.idx := by
    funext b
    rw [putBack_view_idx hapart, hsame]
    cases hq : s.quarantined b with
    | true =>
      rw [hkeep b hq, putBack_view_idx h.apart, hq, hrest.idxQuarantine]
      rfl
    | false =>
      have hsight := hhides'.idx b
      rw [hq] at hsight
      exact hsight
  have hback : s'.putBack.view = w := by
    calc s'.putBack.view = ⟨s'.putBack.view.idx, s'.view.tx⟩ := rfl
      _ = w := by rw [hidx, hhides'.tx]
  refine ⟨hg, hapart, ?_, ?_, h.never_concat htells⟩
  · rw [hback, Ledger.ofDocs_concat]
    exact hrep
  · rw [Ledger.ofDocs_concat]
    exact hdist

/-! ### Torn tails -/

theorem putBack_intact (h : ∀ b, (s.blocks b).Apart) :
    s.putBack.Intact ↔ s.Intact ∧ ∀ b f, (s.blocks b).idxQuarantine = some f → f.torn = false := by
  have hidx : ∀ b, (s.putBack.blocks b).idx =
      if s.quarantined b then (s.blocks b).idxQuarantine else (s.blocks b).idx :=
    fun b => (h b).putBack_idx
  constructor
  · refine fun hi => ⟨fun b f hf => hi b f ?_, fun b f hf => hi b f ?_⟩
    · rw [hidx]
      rcases h b with ⟨hq, -⟩ | ⟨-, -, hnone⟩
      · simpa [quarantined, hq] using hf
      · simp [hnone] at hf
    · rw [hidx]
      rcases h b with ⟨-, hnone⟩ | ⟨hq, -⟩
      · simp [hnone] at hf
      · simpa [quarantined, hq] using hf
  · rintro ⟨hi, hq⟩ b f hf
    rw [hidx] at hf
    cases hb : s.quarantined b with
    | true => exact hq b f (by simpa [hb] using hf)
    | false => exact hi b f (by simpa [hb] using hf)

theorem TracksApart.apply_intact (h : s.TracksApart docs) {i : UInt64} (htells : s.Tells doc)
    (hrun : (applyCommitDocument doc i).run s = .ok () s') (hi : s.putBack.Intact) :
    s'.putBack.Intact := by
  obtain ⟨-, -, hrest⟩ := applyCommitDocument_ok h.good hrun
  obtain ⟨hs, hq⟩ := (putBack_intact h.apart).mp hi
  refine (putBack_intact (h.apply htells hrun).apart).mpr ⟨hrest.intact hs, fun b f hf => ?_⟩
  exact hq b f (hrest.idxQuarantine b ▸ hf)

theorem TracksApart.quarantine_intact (h : s.TracksApart docs)
    (hrun : (Scrap.quarantine b).run s = .ok () s') (hi : s.putBack.Intact) :
    s'.putBack.Intact := by
  obtain ⟨files, hq, rfl⟩ := quarantine_ok.mp hrun
  rw [putBack_setBlock ((h.apart b).quarantine hq).2]
  exact hi

theorem TracksApart.lists (h : s.TracksApart docs) (hi : s.putBack.Intact) (t : String) :
    ∃ l, s.putBack.projectionResolver.listDocuments t = .ok l ∧
      l.Perm ((Ledger.ofDocs docs).ofTx t) := by
  rcases s.putBack.listDocuments_rep h.good_putBack hi h.rep t with ⟨-, hl⟩ | ⟨hret, -⟩
  · exact hl
  · exact absurd (h.never t) hret

end Shard

end Member

/-! ## Runs -/

inductive MemberEvent where
  | entry (st : LogStep)
  | quarantine (blockID : UInt64)
  | unquarantine (blockID : UInt64)

def MemberEvent.run : MemberEvent → ShardM Unit
  | .entry st => st.run
  | .quarantine b => Scrap.quarantine b
  | .unquarantine b => Scrap.unquarantine b

def MemberEvent.doc? : MemberEvent → Option CommitDocument
  | .entry st => some st.doc
  | .quarantine _ => none
  | .unquarantine _ => none

/-- Only closed Blocks are quarantined, and each command is one the apply can tell. -/
def MemberEvent.Allowed (s : Shard) : MemberEvent → Prop
  | .entry st => s.EnvApart (st.env s) ∧ (st.env s).Tells st.doc
  | .quarantine b => s.isOpen b = false
  | .unquarantine _ => True

theorem Shard.TracksApart.event {docs : List CommitDocument} (h : s.TracksApart docs)
    (ev : MemberEvent) (hev : ev.Allowed s) (hrun : ev.run.run s = .ok () s') :
    s'.TracksApart (docs ++ ev.doc?.toList) := by
  cases ev with
  | entry st => exact (h.env hev.1).apply hev.2 hrun
  | quarantine b => simpa [MemberEvent.doc?] using h.quarantine hev hrun
  | unquarantine b => simpa [MemberEvent.doc?] using h.unquarantine hrun

theorem Shard.TracksApart.run : ∀ (events : List MemberEvent) {docs : List CommitDocument}
    {s s' : Shard}, s.TracksApart docs → Meets MemberEvent.run MemberEvent.Allowed s events →
      (runAll MemberEvent.run events).run s = .ok () s' →
      s'.TracksApart (docs ++ events.filterMap MemberEvent.doc?)
  | [], docs, s, s', h, _, hrun => by
    cases hrun
    simpa using h
  | ev :: events, docs, s, s', h, hmeets, hrun => by
    obtain ⟨t, hstep, hrest⟩ := runAll_cons_ok.mp hrun
    obtain ⟨hev, hmeets⟩ := hmeets
    rw [after_of_ok hstep] at hmeets
    have hdocs : docs ++ (ev :: events).filterMap MemberEvent.doc? =
        docs ++ ev.doc?.toList ++ events.filterMap MemberEvent.doc? := by
      cases hdoc : ev.doc? <;> simp [hdoc]
    rw [hdocs]
    exact Shard.TracksApart.run events (h.event ev hev hstep) hmeets hrest

theorem Shard.Fresh.tracksApart {u : Shard} (hu : u.Fresh)
    (hwhole : ∀ b, (u.blocks b).blkQuarantine = none ∧ (u.blocks b).idxQuarantine = none) :
    u.TracksApart [] := by
  have hback : u.putBack = u := by
    have hblocks : (fun b => (u.blocks b).putBack) = u.blocks :=
      funext fun b => BlockFiles.putBack_of_none (hwhole b).1
    rw [Shard.putBack, hblocks]
  refine ⟨hu.1, fun b => .inl (hwhole b), ?_, List.nodup_nil, ?_⟩
  · rw [hback]
    exact hu.2
  · intro t
    exact List.nodup_nil

/-- Two Members apply the same log, the second with any closed Blocks in quarantine at any time. If
it can tell each command, the Transaction records are the same, and with the files put back each
committed Document is listed exactly once. -/
theorem quarantined_member_agrees {s s' u u' : Shard} {steps : List LogStep}
    {events : List MemberEvent} (hs : s.Fresh) (hu : u.Fresh)
    (hwhole : ∀ b, (u.blocks b).blkQuarantine = none ∧ (u.blocks b).idxQuarantine = none)
    (hlog : events.filterMap MemberEvent.doc? = steps.map (·.doc))
    (hquiet : Meets LogStep.run LogStep.Quiet s steps)
    (hrun : (runAll LogStep.run steps).run s = .ok () s')
    (hallowed : Meets MemberEvent.run MemberEvent.Allowed u events)
    (hrun' : (runAll MemberEvent.run events).run u = .ok () u') (hintact : u'.putBack.Intact) :
    u'.view.tx = s'.view.tx ∧ ∀ t, ∃ l, u'.putBack.projectionResolver.listDocuments t = .ok l ∧
        l.Perm ((Ledger.ofDocs (steps.map (·.doc))).ofTx t) := by
  have hend := (hu.tracksApart hwhole).run events hallowed hrun'
  rw [hlog] at hend
  have htracks := hs.tracks.run steps (by simpa using hend.never) hquiet hrun
  refine ⟨?_, hend.lists hintact⟩
  funext t
  exact (hend.rep.tx t).trans (htracks.rep.tx t).symm

theorem Shard.Good.openNewBlock_envApart (hg : s.Good) (hapart : ∀ b, (s.blocks b).Apart)
    (hnew : s.blocks s.nextBlockID = .absent) :
    s.EnvApart s.openNewBlock := by
  refine ⟨hg.openNewBlock_env (by rw [hnew]; rfl), fun b => ?_⟩
  by_cases hb : b = s.nextBlockID
  · subst hb
    simp [Shard.openNewBlock, hnew, BlockFiles.Apart, BlockFiles.absent]
  · simpa [Shard.openNewBlock, hb] using hapart b

theorem Shard.EnvApart.openNewBlock_intact (h : s.EnvApart s.openNewBlock)
    (hapart : ∀ b, (s.blocks b).Apart) (hi : s.putBack.Intact) : s.openNewBlock.putBack.Intact := by
  obtain ⟨hs, hq⟩ := (Shard.putBack_intact hapart).mp hi
  exact (Shard.putBack_intact fun b => (h.2 b).1).mpr
    ⟨hs.openNewBlock, fun b f hf => hq b f ((h.2 b).2.2 ▸ hf)⟩

/-! ## A quarantined Block makes a Document uncounted -/

/-- Commit `x` to Block `1` and `y` to Block `2`, which is opened for it. -/
def twoBlocks : List LogStep :=
  [⟨id, docOfT "x" 1 40, 1⟩, ⟨Shard.openNewBlock, docOfT "y" 2 40, 2⟩]

/-- With Block `1` in quarantine, the second Document of Block `2` is taken as counted before: one
record is visible, two are counted and Block `2` is listed. -/
theorem quarantined_member_undercounts :
    ∃ s' u',
      (runAll LogStep.run (twoBlocks ++ [⟨id, docOfT "z" 2 80, 3⟩])).run (Shard.fresh 1 false) =
        .ok () s' ∧
      (runAll MemberEvent.run (twoBlocks.map .entry ++
        [.quarantine 1, .entry ⟨id, docOfT "z" 2 80, 3⟩])).run (Shard.fresh 1 false) = .ok () u' ∧
      s'.view.tx "t" = some ⟨[1, 2], 3, false⟩ ∧ u'.view.tx "t" = some ⟨[1, 2], 2, false⟩ ∧
      u'.putBack.projectionResolver.listDocuments "t" = .error (.docCountMismatch "t" 2 3) :=
  ⟨_, _, rfl, rfl, by decide +kernel⟩

def thirdBlock : LogStep := ⟨Shard.openNewBlock, docOfT "z" 3 40, 3⟩

theorem fresh_whole (b : UInt64) : ((Shard.fresh 1 false).blocks b).blkQuarantine = none ∧
    ((Shard.fresh 1 false).blocks b).idxQuarantine = none := by
  by_cases hb : b = 1
  · subst hb
    exact ⟨rfl, rfl⟩
  · have hne : (Shard.fresh 1 false).blocks b = .absent := update_of_ne hb _ _
    rw [hne]
    exact ⟨rfl, rfl⟩

def afterX : Shard := after (LogStep.run ⟨id, docOfT "x" 1 40, 1⟩) (Shard.fresh 1 false)

def afterY : Shard := after (LogStep.run ⟨Shard.openNewBlock, docOfT "y" 2 40, 2⟩) afterX

theorem fresh_tracksApart : (Shard.fresh 1 false).TracksApart [] :=
  (Shard.fresh_fresh 1 false).tracksApart fresh_whole

theorem fresh_allowed : MemberEvent.Allowed (Shard.fresh 1 false)
    (.entry ⟨id, docOfT "x" 1 40, 1⟩) :=
  ⟨fresh_tracksApart.envApart_refl, fresh_tracksApart.tells_new (by decide) fun r hr => by cases hr⟩

theorem afterX_tracks : Shard.TracksApart [docOfT "x" 1 40] afterX :=
  fresh_tracksApart.event _ fresh_allowed rfl

theorem afterX_allowed : MemberEvent.Allowed afterX
    (.entry ⟨Shard.openNewBlock, docOfT "y" 2 40, 2⟩) := by
  have henv := afterX_tracks.good.openNewBlock_envApart afterX_tracks.apart rfl
  exact ⟨henv, (afterX_tracks.env henv).tells_new (by decide) fun r hr => by cases hr; decide⟩

theorem afterY_tracks : Shard.TracksApart [docOfT "x" 1 40, docOfT "y" 2 40] afterY :=
  afterX_tracks.event _ afterX_allowed rfl

theorem quarantined_member_agrees_new_block :
    ∃ s' u' : Shard, u'.quarantined 1 = true ∧ s'.view.tx "t" = some ⟨[1, 2, 3], 3, false⟩ ∧
      u'.view.tx = s'.view.tx ∧
      ∀ t, ∃ l, u'.putBack.projectionResolver.listDocuments t = .ok l ∧
        l.Perm ((Ledger.ofDocs ((twoBlocks ++ [thirdBlock]).map (·.doc))).ofTx t) := by
  have hfresh := Shard.fresh_fresh 1 false
  have h₃ : Shard.TracksApart [docOfT "x" 1 40, docOfT "y" 2 40] (after (quarantine 1) afterY) :=
    afterY_tracks.event (.quarantine 1) rfl rfl
  have e₃ := h₃.good.openNewBlock_envApart h₃.apart rfl
  have a₃ : MemberEvent.Allowed (after (quarantine 1) afterY) (.entry thirdBlock) :=
    ⟨e₃, (h₃.env e₃).tells_new (by decide) fun r hr => by cases hr; decide⟩
  -- no tail is torn
  have i₀ : (Shard.fresh 1 false).putBack.Intact :=
    (Shard.putBack_intact fresh_tracksApart.apart).mpr ⟨Shard.fresh_intact 1 false, fun b f hf => by
      rw [(fresh_whole b).2] at hf
      cases hf⟩
  have i₁ : afterX.putBack.Intact := fresh_tracksApart.apply_intact fresh_allowed.2 (i := 1) rfl i₀
  have i₂ : afterY.putBack.Intact :=
    (afterX_tracks.env afterX_allowed.1).apply_intact afterX_allowed.2 (i := 2) rfl
      (afterX_allowed.1.openNewBlock_intact afterX_tracks.apart i₁)
  have i₃ : (after (quarantine 1) afterY).putBack.Intact :=
    afterY_tracks.quarantine_intact (b := 1) rfl i₂
  have i₄ : (after thirdBlock.run (after (quarantine 1) afterY)).putBack.Intact :=
    (h₃.env e₃).apply_intact a₃.2 (i := 3) rfl (e₃.openNewBlock_intact h₃.apart i₃)
  -- until the quarantine the two Members are in the same states
  have hquiet : Meets LogStep.run LogStep.Quiet (Shard.fresh 1 false) (twoBlocks ++ [thirdBlock]) :=
    ⟨hfresh.1.env_refl, afterX_allowed.1.1, afterY_tracks.good.openNewBlock_env rfl, trivial⟩
  have hallowed : Meets MemberEvent.run MemberEvent.Allowed (Shard.fresh 1 false)
      (twoBlocks.map .entry ++ [.quarantine 1, .entry thirdBlock]) := 
    ⟨fresh_allowed, afterX_allowed, rfl, a₃, trivial⟩
  have hrun : (runAll LogStep.run (twoBlocks ++ [thirdBlock])).run (Shard.fresh 1 false) =
      .ok () _ := outcome_ok_iff.mp (by decide +kernel)
  have r₁ : (LogStep.run ⟨id, docOfT "x" 1 40, 1⟩).run (Shard.fresh 1 false) = .ok () afterX :=
    outcome_ok_iff.mp (by decide +kernel)
  have r₂ : (LogStep.run ⟨Shard.openNewBlock, docOfT "y" 2 40, 2⟩).run afterX = .ok () afterY :=
    outcome_ok_iff.mp (by decide +kernel)
  have r₃ : (quarantine 1).run afterY = .ok () (after (quarantine 1) afterY) :=
    outcome_ok_iff.mp (by decide +kernel)
  have r₄ : thirdBlock.run.run (after (quarantine 1) afterY) = .ok () _ :=
    outcome_ok_iff.mp (by decide +kernel)
  have hrun' : (runAll MemberEvent.run (twoBlocks.map .entry ++
      [.quarantine 1, .entry thirdBlock])).run (Shard.fresh 1 false) = .ok () _ :=
    runAll_cons_ok.mpr ⟨_, r₁, runAll_cons_ok.mpr ⟨_, r₂, runAll_cons_ok.mpr ⟨_, r₃,
      runAll_cons_ok.mpr ⟨_, r₄, rfl⟩⟩⟩⟩
  exact ⟨_, _, by decide +kernel, by decide +kernel,
    quarantined_member_agrees hfresh hfresh fresh_whole rfl hquiet hrun hallowed hrun' i₄⟩

end Scrap
