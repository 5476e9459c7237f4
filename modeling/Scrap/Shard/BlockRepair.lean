/-
# Repair of a quarantined Block from a peer

The scrub replaces a Block in quarantine by a peer's files: `transferBlock` streams them as they
are, the copy is verified in itself, and if it is sound it takes the Block's place. How many
Documents it should have is not asked, and a peer that has applied less of the log, or more, has a
sound copy too.

The main result compares the Member with the one it would be with an undamaged Block
(`repairFromPeer_serves_iff`): the Documents that its Projection records for the Block are served
again exactly if the peer's `.idx` has as many records of their Transactions as there should be.
-/
import Mathlib.Algebra.Order.BigOperators.Group.List
import Mathlib.Algebra.Order.Group.Nat
import Scrap.Block.Reader
import Scrap.Shard.Rebuild
import Scrap.Shard.Generations

namespace Scrap

open Block Fallible Function

/-! ## Transfer -/

inductive TransferErr where
  /-- `block_quarantined: block %d is quarantined` -/
  | quarantined
  /-- `block_unexpected_loss: block %d eviction marker invalid: %v` -/
  | markerInvalid (field : String)
  /-- `block_evicted: block %d locally evicted at %d` -/
  | evicted (evictedAtUs : Int)
  /-- `block_metadata_loss: block %d evicted but index missing` -/
  | evictedIndexMissing
  /-- `block_unexpected_loss: block %d data missing` -/
  | dataMissing
  /-- `block %d not found` -/
  | notFound
  /-- `block_metadata_loss: index for block %d missing` -/
  | indexMissing
deriving DecidableEq

def BlockFiles.hasQuarantine (files : BlockFiles) : Bool :=
  files.blkQuarantine.isSome || files.idxQuarantine.isSome

def BlockFiles.readTransferEvictionMarker (files : BlockFiles) (blockID : UInt64) :
    Except String (Option EvictionMarker) :=
  match files.evictionMarker with
  | none => .ok none
  | some marker =>
    match validateEvictionMarker marker blockID with
    | .error field => .error field
    | .ok () => .ok (some marker)

def BlockFiles.transferBlockStatError (files : BlockFiles) (blockID : UInt64) : TransferErr :=
  if files.hasQuarantine then .quarantined
  else
    match files.readTransferEvictionMarker blockID, files.idx.isSome with
    | .error field, _ => .markerInvalid field
    | .ok (some marker), true => .evicted marker.evictedAtUs
    | .ok (some _), false => .evictedIndexMissing
    | .ok none, true => .dataMissing
    | .ok none, false => .notFound

def BlockFiles.transferIndexStatError (files : BlockFiles) (blockID : UInt64) : TransferErr :=
  if files.hasQuarantine then .quarantined
  else
    match files.readTransferEvictionMarker blockID with
    | .error field => .markerInvalid field
    | .ok (some _) => .evictedIndexMissing
    | .ok none => .indexMissing

/-- A file that changes its size fails the transfer, so the two files are of one moment. -/
def BlockFiles.transferBlock (files : BlockFiles) (blockID : UInt64) :
    Except TransferErr StagedBlock :=
  match files.blk, files.idx with
  | none, _ => .error (files.transferBlockStatError blockID)
  | some _, none => .error (files.transferIndexStatError blockID)
  | some blk, some idx => .ok ⟨blk, idx⟩

/-! ## Repair -/

inductive RepairErr where
  /-- `fetch replacement: %w` -/
  | fetch (err : TransferErr)
  /-- `verify replacement: %w` -/
  | verify (err : VerifyErr)
  /-- `verify replacement: %d corrupt frames` -/
  | corruptFrames (n : Nat)
deriving DecidableEq

/-- The header of a `.blk` is intact. -/
def verifyStagedReplacement (c : Crypto) (staged : StagedBlock) : Except RepairErr Unit :=
  match verifyBlock c (some staged.blk) (some staged.idx) with
  | .error err => .error (.verify err)
  | .ok result =>
    if 0 < result.corruptFrames.length then .error (.corruptFrames result.corruptFrames.length)
    else .ok ()

/-- `promoteRepairStaging` and `removeQuarantineFiles` -/
def BlockFiles.promoteRepairStaging (files : BlockFiles) (staged : StagedBlock) : BlockFiles :=
  { files with
    blk := some staged.blk
    idx := some staged.idx
    blkQuarantine := none
    idxQuarantine := none }

def repairFromPeer (c : Crypto) (blockID : UInt64) (peer : Shard) : EStateM RepairErr Shard Unit :=
  do
    match (peer.blocks blockID).transferBlock blockID with
    | .error err => throw (.fetch err)
    | .ok staged =>
      match verifyStagedReplacement c staged with
      | .error err => throw err
      | .ok () =>
        modify fun s => s.setBlock blockID ((s.blocks blockID).promoteRepairStaging staged)

theorem repairFromPeer_ok {c : Crypto} {s s' peer : Shard} {b : UInt64}
    (h : (repairFromPeer c b peer).run s = .ok () s') :
    ∃ staged : StagedBlock, (peer.blocks b).blk = some staged.blk ∧
      (peer.blocks b).idx = some staged.idx ∧ staged.idx.torn = false ∧
      s' = s.setBlock b ((s.blocks b).promoteRepairStaging staged) := by
  unfold repairFromPeer BlockFiles.transferBlock at h
  cases hblk : (peer.blocks b).blk with
  | none => simp [hblk] at h
  | some blk => ?_
  cases hidx : (peer.blocks b).idx with
  | none => simp [hblk, hidx] at h
  | some idx => ?_
  simp only [hblk, hidx] at h
  cases htorn : idx.torn with
  | true => simp [verifyStagedReplacement, verifyBlock, openIndexReader, htorn] at h
  | false => ?_
  split at h
  · cases h
  cases h
  exact ⟨⟨blk, idx⟩, rfl, rfl, htorn, rfl⟩

/-! ## Serving a Document -/

inductive DocumentErr where
  | resolve (err : ResolveErr)
  | read (err : ReadErr)
deriving DecidableEq

/-- `readDocumentFromProjection`, the Block being local and its content readable. -/
def Shard.readDocument (c : Crypto) (s : Shard) (txID docName : String) :
    Except DocumentErr (List UInt8) :=
  match s.projectionResolver.resolveDocument txID docName with
  | .error err => .error (.resolve err)
  | .ok (blockID, e) =>
    match readDocumentBytes c (s.blocks blockID).blk e with
    | .error err => .error (.read err)
    | .ok bytes => .ok bytes

/-- The record without its envelope, which a rewrap replaces. -/
def Block.IndexEntry.plain (e : IndexEntry) : IndexEntry := { e with encryptionEnvelope := [] }

/-- The listing of its Transaction has the record, in that Block. -/
def Shard.Lists (s : Shard) (b : UInt64) (e : IndexEntry) : Prop :=
  ∃ docs, s.projectionResolver.listDocuments e.transactionID = .ok docs ∧ (b, e) ∈ docs

/-- The Document is listed, up to its envelope, and can be read. -/
def Shard.Serves (c : Crypto) (s : Shard) (b : UInt64) (e : IndexEntry) : Prop :=
  (∃ e', s.Lists b e' ∧ e'.plain = e.plain) ∧
    ∃ bytes, s.readDocument c e.transactionID e.docName = .ok bytes

def Shard.NamesApart (s : Shard) : Prop :=
  ∀ t docs, s.projectionResolver.listDocuments t = .ok docs → (docs.map (·.2.docName)).Nodup

/-- The peer's `.idx` has as many records of the Transaction as the Member `w`, the Document's among
them, and its `.blk` has the Document. -/
def Shard.HasCopy (c : Crypto) (w peer : Shard) (b : UInt64) (e : IndexEntry) : Prop :=
  (peer.view.entriesOf e.transactionID b).length = (w.view.entriesOf e.transactionID b).length ∧
    ∃ e' ∈ peer.view.entriesOf e.transactionID b, e'.plain = e.plain ∧
      ∃ bytes, readDocumentBytes c (peer.blocks b).blk e' = .ok bytes

/-- The two Members differ in the files of one Block only. -/
structure Shard.AgreeOff (b : UInt64) (w s : Shard) : Prop where
  idx : s.idx = w.idx
  blocks : ∀ c, c ≠ b → s.blocks c = w.blocks c

section Listing

theorem Block.IndexEntry.plain_docName (e : IndexEntry) : e.plain.docName = e.docName := rfl

theorem View.length_visible (v : View) (t : String) (ids : List UInt64) :
    (v.visible t ids).length = (ids.map fun c => (v.entriesOf t c).length).sum := by
  simp [View.visible]

theorem find?_of_nodup {d : ResolvedDocument} :
    ∀ {docs : List ResolvedDocument}, (docs.map (·.2.docName)).Nodup → d ∈ docs →
      docs.find? (fun x => x.2.docName = d.2.docName) = some d
  | [], _, h => by simp at h
  | x :: docs, hnodup, hmem => by
    rw [List.map_cons, List.nodup_cons] at hnodup
    rcases List.mem_cons.mp hmem with rfl | hmem
    · simp
    have hne : x.2.docName ≠ d.2.docName := by
      intro heq
      exact hnodup.1 (heq ▸ List.mem_map_of_mem hmem)
    rw [List.find?_cons_of_neg (by simpa using hne)]
    exact find?_of_nodup hnodup.2 hmem

variable {c : Crypto} {w s : Shard} {b : UInt64} {t : String} {docs : List ResolvedDocument}
  {e : IndexEntry}

theorem Shard.lists_of_mem (hg : s.Good) (hi : s.Intact)
    (hlist : s.projectionResolver.listDocuments t = .ok docs) (hmem : (b, e) ∈ docs) :
    s.Lists b e ∧ e.transactionID = t := by
  rcases (Shard.listDocuments_ok_iff hg hi).mp hlist with ⟨-, rfl⟩ | ⟨r, -, -, rfl, -⟩
  · simp at hmem
  · have ht := (View.mem_entriesOf (View.mem_visible.mp hmem).2).2
    exact ⟨⟨_, ht.symm ▸ hlist, hmem⟩, ht⟩

theorem Shard.AgreeOff.entriesOf (h : w.AgreeOff b s) {d : UInt64} (hd : d ≠ b) :
    s.view.entriesOf t d = w.view.entriesOf t d := by
  simp only [View.entriesOf, Shard.view, h.blocks d hd]

theorem Shard.AgreeOff.tx (h : w.AgreeOff b s) : s.view.tx t = w.view.tx t := by
  simp only [Shard.view, h.idx]

theorem Shard.AgreeOff.length_visible_iff (h : w.AgreeOff b s) {ids : List UInt64}
    (hb : b ∈ ids) :
    (s.view.visible t ids).length = (w.view.visible t ids).length ↔
      (s.view.entriesOf t b).length = (w.view.entriesOf t b).length := by
  rw [View.length_visible, View.length_visible]
  constructor
  · intro hsum
    by_contra hne
    rcases Nat.lt_or_gt_of_ne hne with hlt | hlt
    · refine absurd hsum (Nat.ne_of_lt (List.sum_lt_sum _ _ (fun d _ => ?_) ⟨b, hb, hlt⟩))
      by_cases hd : d = b
      · exact hd ▸ hlt.le
      · rw [h.entriesOf hd]
    · refine absurd hsum.symm (Nat.ne_of_lt (List.sum_lt_sum _ _ (fun d _ => ?_) ⟨b, hb, hlt⟩))
      by_cases hd : d = b
      · exact hd ▸ hlt.le
      · rw [h.entriesOf hd]
  · intro heq
    congr 1
    refine List.map_congr_left fun d _ => ?_
    by_cases hd : d = b
    · exact hd ▸ heq
    · rw [h.entriesOf hd]

/-- With another `.idx` in one of its Blocks, a Transaction is listed exactly if that has as many of
its records. -/
theorem Shard.AgreeOff.listDocuments_iff (h : w.AgreeOff b s) (hs : s.Good) (hsi : s.Intact)
    {r : Entry} (htx : w.view.tx t = some r) (hb : b ∈ r.blockIDs)
    (hne : ∀ d ∈ r.blockIDs, w.view.entriesOf t d ≠ [])
    (hlen : (w.view.visible t r.blockIDs).length = r.docCount.toNat) :
    s.projectionResolver.listDocuments t = .ok docs ↔
      (s.view.entriesOf t b).length = (w.view.entriesOf t b).length ∧
        s.view.visible t r.blockIDs = docs := by
  rw [Shard.listDocuments_ok_iff hs hsi, h.tx, htx, ← h.length_visible_iff hb, hlen]
  constructor
  · rintro (⟨hnone, -⟩ | ⟨r', hr', -, rfl, hlen'⟩)
    · cases hnone
    · cases hr'
      exact ⟨hlen', rfl⟩
  · rintro ⟨hlen', rfl⟩
    refine .inr ⟨r, rfl, fun d hd => ?_, rfl, hlen'⟩
    by_cases hdb : d = b
    · subst hdb
      have heq := (h.length_visible_iff hb).mp (hlen'.trans hlen.symm)
      exact List.ne_nil_of_length_pos (heq ▸ List.length_pos_of_ne_nil (hne d hd))
    · rw [h.entriesOf hdb]
      exact hne d hd

/-- Records of distinct names that all have a counterpart in a list of the same length are that
list, up to order and envelopes. -/
theorem perm_of_plain {es fs : List IndexEntry} (hnames : (es.map (·.docName)).Nodup)
    (hlen : fs.length = es.length) (hall : ∀ e ∈ es, ∃ f ∈ fs, f.plain = e.plain) :
    (fs.map IndexEntry.plain).Perm (es.map IndexEntry.plain) := by
  have hnodup : (es.map IndexEntry.plain).Nodup := by
    refine List.Nodup.of_map IndexEntry.docName ?_
    simpa [Function.comp_def, IndexEntry.plain] using hnames
  have hsub : es.map IndexEntry.plain ⊆ fs.map IndexEntry.plain := by
    intro x hx
    obtain ⟨e, he, rfl⟩ := List.mem_map.mp hx
    obtain ⟨f, hf, heq⟩ := hall e he
    exact heq ▸ List.mem_map_of_mem hf
  exact ((hnodup.subperm hsub).perm_of_length_le (by simp [hlen])).symm

/-- If the Block has a counterpart of each record and no others, the names of the new listing are
distinct too. -/
theorem Shard.AgreeOff.nodup_names (h : w.AgreeOff b s) {ids : List UInt64} (hb : b ∈ ids)
    (hnames : ((w.view.visible t ids).map (·.2.docName)).Nodup)
    (hlen : (s.view.entriesOf t b).length = (w.view.entriesOf t b).length)
    (hall : ∀ e ∈ w.view.entriesOf t b, ∃ e' ∈ s.view.entriesOf t b, e'.plain = e.plain) :
    ((s.view.visible t ids).map (·.2.docName)).Nodup := by
  have hmap : ∀ v : View, (v.visible t ids).map (·.2.docName) =
      ids.flatMap fun d => (v.entriesOf t d).map (·.docName) := by
    intro v
    simp only [View.visible, List.map_flatMap, List.map_map, Function.comp_def]
  rw [hmap] at hnames ⊢
  have hhere := ((List.nodup_flatMap.mp hnames).1 b hb)
  refine (List.Perm.flatMap_left ids fun d _ => ?_).nodup_iff.mpr hnames
  by_cases hd : d = b
  · subst hd
    simpa [Function.comp_def, IndexEntry.plain] using
      (perm_of_plain hhere hlen hall).map IndexEntry.docName
  · rw [h.entriesOf hd]

theorem Shard.readDocument_ok_iff {t : String} {docs : List ResolvedDocument} {e : IndexEntry}
    (hlist : s.projectionResolver.listDocuments t = .ok docs)
    (hnames : (docs.map (·.2.docName)).Nodup) (hmem : (b, e) ∈ docs) {bytes : List UInt8} :
    s.readDocument c t e.docName = .ok bytes ↔
      readDocumentBytes c (s.blocks b).blk e = .ok bytes := by
  have hfind := find?_of_nodup hnames hmem
  unfold Shard.readDocument Resolver.resolveDocument
  simp only [hlist, hfind]
  cases readDocumentBytes c (s.blocks b).blk e with
  | error err => simp
  | ok bytes' => simp

/-- One Transaction is served again exactly if the Block has a copy of each of its Documents
there, and no other record of it. -/
theorem Shard.AgreeOff.serves_iff (h : w.AgreeOff b s) (hw : w.Good) (hwi : w.Intact)
    (hs : s.Good) (hsi : s.Intact) (hnames : (docs.map (·.2.docName)).Nodup)
    (hlist : w.projectionResolver.listDocuments t = .ok docs) (hmem : (b, e) ∈ docs) :
    (∀ f, (b, f) ∈ docs → s.Serves c b f) ↔
      (s.view.entriesOf t b).length = (w.view.entriesOf t b).length ∧
        ∀ f, (b, f) ∈ docs → ∃ f' ∈ s.view.entriesOf t b, f'.plain = f.plain ∧
          ∃ bytes, readDocumentBytes c (s.blocks b).blk f' = .ok bytes := by
  rcases (Shard.listDocuments_ok_iff hw hwi).mp hlist with ⟨-, rfl⟩ | ⟨r, htx, hne, rfl, hlen⟩
  · simp at hmem
  have hb := (View.mem_visible.mp hmem).1
  have hlist' : ∀ docs', s.projectionResolver.listDocuments t = .ok docs' ↔
      (s.view.entriesOf t b).length = (w.view.entriesOf t b).length ∧
        s.view.visible t r.blockIDs = docs' :=
    fun _ => h.listDocuments_iff hs hsi htx hb hne hlen
  have htxID : ∀ f, (b, f) ∈ w.view.visible t r.blockIDs → f.transactionID = t :=
    fun f hf => (Shard.lists_of_mem hw hwi hlist hf).2
  constructor
  · intro hserves
    have hcopy : ∀ f, (b, f) ∈ w.view.visible t r.blockIDs →
        (s.view.entriesOf t b).length = (w.view.entriesOf t b).length ∧
          ∃ f' ∈ s.view.entriesOf t b, f'.plain = f.plain := by
      intro f hf
      obtain ⟨⟨f', ⟨docs', hdocs', hf'⟩, hplain⟩, -⟩ := hserves f hf
      have ht : f'.transactionID = t :=
        (congrArg IndexEntry.transactionID hplain).trans (htxID f hf)
      rw [ht] at hdocs'
      obtain ⟨heq, rfl⟩ := (hlist' docs').mp hdocs'
      exact ⟨heq, f', (View.mem_visible.mp hf').2, hplain⟩
    have heq := (hcopy e hmem).1
    have hnodup := h.nodup_names hb hnames heq fun f hf =>
      (hcopy f (View.mem_visible.mpr ⟨hb, hf⟩)).2
    refine ⟨heq, fun f hf => ?_⟩
    obtain ⟨f', hf', hplain⟩ := (hcopy f hf).2
    obtain ⟨-, bytes, hread⟩ := hserves f hf
    rw [htxID f hf, ← IndexEntry.plain_docName f, ← hplain] at hread
    exact ⟨f', hf', hplain, bytes, (Shard.readDocument_ok_iff ((hlist' _).mpr ⟨heq, rfl⟩) hnodup
      (View.mem_visible.mpr ⟨hb, hf'⟩)).mp hread⟩
  · rintro ⟨heq, hall⟩ f hf
    have hnodup := h.nodup_names hb hnames heq fun g hg => by
      obtain ⟨g', hg', hplain, -⟩ := hall g (View.mem_visible.mpr ⟨hb, hg⟩)
      exact ⟨g', hg', hplain⟩
    have hok := (hlist' _).mpr ⟨heq, rfl⟩
    obtain ⟨f', hf', hplain, bytes, hread⟩ := hall f hf
    have hmem' := View.mem_visible.mpr ⟨hb, hf'⟩
    refine ⟨⟨f', (Shard.lists_of_mem hs hsi hok hmem').1, hplain⟩, bytes, ?_⟩
    rw [htxID f hf, ← IndexEntry.plain_docName f, ← hplain]
    exact (Shard.readDocument_ok_iff hok hnodup hmem').mpr hread

end Listing

/-! ## The repaired Member -/

section Repaired

variable {c : Crypto} {w s s' peer : Shard} {b : UInt64}

theorem Shard.AgreeOff.repaired (h : w.AgreeOff b s) (hs : s.Good) (hwi : w.Intact)
    (hq : (s.blocks b).idx = none) (hrun : (repairFromPeer c b peer).run s = .ok () s') :
    w.AgreeOff b s' ∧ s'.Good ∧ s'.Intact ∧ (∀ t, s'.view.entriesOf t b = peer.view.entriesOf t b) ∧
      (s'.blocks b).blk = (peer.blocks b).blk := by
  obtain ⟨staged, hblk, hidx, htorn, rfl⟩ := repairFromPeer_ok hrun
  have hblocks : w.AgreeOff b (s.setBlock b ((s.blocks b).promoteRepairStaging staged)) := by
    refine ⟨h.idx, fun d hd => ?_⟩
    simpa [Shard.setBlock, hd] using h.blocks d hd
  have hhere : (s.setBlock b ((s.blocks b).promoteRepairStaging staged)).blocks b =
      (s.blocks b).promoteRepairStaging staged := by simp [Shard.setBlock]
  have hsi : s.Intact := by
    intro d f hf
    by_cases hd : d = b
    · subst hd
      simp [hq] at hf
    · exact hwi d f (h.blocks d hd ▸ hf)
  refine ⟨hblocks, hs.setBlock fun _ => ⟨staged.idx, rfl, htorn⟩, hsi.setBlock fun f hf => ?_,
    fun t => ?_, ?_⟩
  · cases hf
    exact htorn
  · simp only [View.entriesOf, Shard.view, hhere, hidx]
    rfl
  · rw [hhere, hblk]
    rfl

/-- The Documents of a quarantined Block are served again after a repair exactly if the peer has a
copy of each, and no other records of their Transactions. -/
theorem repairFromPeer_serves_iff (hw : w.Good) (hwi : w.Intact) (hnames : w.NamesApart)
    (hs : s.Good) (hq : (s.blocks b).idx = none) (hoff : w.AgreeOff b s)
    (hrun : (repairFromPeer c b peer).run s = .ok () s') :
    (∀ e, w.Lists b e → s'.Serves c b e) ↔ ∀ e, w.Lists b e → w.HasCopy c peer b e := by
  obtain ⟨hoff', hs', hsi', hentries, hblk⟩ := hoff.repaired hs hwi hq hrun
  constructor
  · rintro hserves e ⟨docs, hlist, hmem⟩
    have hcopy := (hoff'.serves_iff hw hwi hs' hsi' (hnames _ _ hlist) hlist hmem).mp
      fun f hf => hserves f (Shard.lists_of_mem hw hwi hlist hf).1
    rw [hentries, hblk] at hcopy
    exact ⟨hcopy.1, hcopy.2 e hmem⟩
  · rintro hcopy e ⟨docs, hlist, hmem⟩
    refine (hoff'.serves_iff hw hwi hs' hsi' (hnames _ _ hlist) hlist hmem).mpr ?_ e hmem
    rw [hentries, hblk]
    refine ⟨(hcopy e ⟨docs, hlist, hmem⟩).1, fun f hf => ?_⟩
    obtain ⟨hlists, ht⟩ := Shard.lists_of_mem hw hwi hlist hf
    exact ht ▸ (hcopy f hlists).2

end Repaired

/-! ## A peer that lags in apply -/

theorem Shard.Tracks.namesApart {docs : List CommitDocument} {s : Shard} (h : s.Tracks docs)
    (hi : s.Intact) : s.NamesApart := by
  intro t l hlist
  rcases Shard.listDocuments_rep h.good hi h.rep t with ⟨-, l', hlist', hperm⟩ | ⟨-, err, herr⟩
  · cases hlist.symm.trans hlist'
    refine (hperm.map _).nodup_iff.mpr ?_
    have hids : (((Ledger.ofDocs docs).ofTx t).map Ledger.identity).Nodup :=
      h.distinct.sublist (List.filter_sublist.map Ledger.identity)
    refine List.Nodup.of_map (Prod.mk t) ?_
    rw [List.map_map]
    refine (List.map_congr_left fun d hd => ?_) ▸ hids
    exact Prod.ext (Ledger.mem_ofTx.mp hd).2 rfl
  · simp [hlist] at herr

/-- Block `1` is open with the Frames of `x` and `y`, of which `x` is applied. -/
def heldX : Shard := after (applyCommitDocument (docOfT "x" 1 40) 1) (receiveTwo (Shard.fresh 1 true))

def heldXY : Shard := after (applyCommitDocument (docOfT "y" 1 80) 2) heldX

def closedXY : Shard := heldXY.openNewBlock

def damagedXY : Shard := after (quarantine 1) closedXY

/-- The repair from a peer that has yet to apply `y` succeeds; neither Document can be read any
more. -/
theorem lagging_peer_shortens_block :
    outcome (repairFromPeer keylessCrypto 1 heldX) damagedXY = .ok () ∧
      (closedXY.projectionResolver.listDocuments "t").toOption.map (·.map (·.2.docName)) =
        some ["x", "y"] ∧
      (∀ name ∈ ["x", "y"], (closedXY.readDocument keylessCrypto "t" name).isOk = true ∧
        (after (repairFromPeer keylessCrypto 1 heldX) damagedXY).readDocument keylessCrypto "t" name =
          .error (.resolve (.docCountMismatch "t" 2 1))) ∧
      (after (repairFromPeer keylessCrypto 1 heldX) damagedXY).projectionResolver.listDocuments
        "t" = .error (.docCountMismatch "t" 2 1) := by
  decide +kernel

theorem receiveTwo_env : (Shard.fresh 1 true).Env (receiveTwo (Shard.fresh 1 true)) := by
  refine ⟨receiveTwo_good, rfl, fun b => ?_⟩
  by_cases hb : b = 1
  · subst hb
    rfl
  · simp [Shard.view, receiveTwo, hb]

theorem receiveTwo_intact : (receiveTwo (Shard.fresh 1 true)).Intact := by
  intro b f hf
  refine Shard.fresh_intact 1 true b f ?_
  by_cases hb : b = 1
  · subst hb
    exact hf
  · simpa [receiveTwo, hb] using hf

theorem heldX_tracks : heldX.Tracks [docOfT "x" 1 40] ∧ heldX.Intact := by
  have hrun : (applyCommitDocument (docOfT "x" 1 40) 1).run (receiveTwo (Shard.fresh 1 true)) =
      .ok () heldX := outcome_ok_iff.mp (by decide +kernel)
  exact ⟨((Shard.fresh_fresh 1 true).tracks.env receiveTwo_env).apply (by decide) hrun,
    (applyCommitDocument_intact receiveTwo_good receiveTwo_intact hrun).2⟩

theorem heldXY_tracks : heldXY.Tracks [docOfT "x" 1 40, docOfT "y" 1 80] ∧ heldXY.Intact := by
  have hrun : (applyCommitDocument (docOfT "y" 1 80) 2).run heldX = .ok () heldXY :=
    outcome_ok_iff.mp (by decide +kernel)
  exact ⟨heldX_tracks.1.apply (by decide) hrun,
    (applyCommitDocument_intact heldX_tracks.1.good heldX_tracks.2 hrun).2⟩

/-- The same Block of a peer that has applied both, although it still has it open, serves. -/
theorem repairFromPeer_serves_caught_up :
    outcome (repairFromPeer keylessCrypto 1 heldXY) damagedXY = .ok () ∧ ((∀ e, closedXY.Lists 1 e →
          (after (repairFromPeer keylessCrypto 1 heldXY) damagedXY).Serves keylessCrypto 1 e) ↔
        ∀ e, closedXY.Lists 1 e → closedXY.HasCopy keylessCrypto heldXY 1 e) := by
  have hok : outcome (repairFromPeer keylessCrypto 1 heldXY) damagedXY = .ok () := by decide +kernel
  have htracks : closedXY.Tracks _ :=
    heldXY_tracks.1.env (heldXY_tracks.1.good.openNewBlock_env (by decide +kernel))
  have hintact : closedXY.Intact := heldXY_tracks.2.openNewBlock
  have hgood : damagedXY.Good := by
    exact htracks.good.setBlock fun hopen => absurd hopen (by decide +kernel)
  have hoff : closedXY.AgreeOff 1 damagedXY := ⟨rfl, fun d hd => update_of_ne hd _ _⟩
  exact ⟨hok, repairFromPeer_serves_iff htracks.good hintact (htracks.namesApart hintact) hgood
    (by decide +kernel) hoff (outcome_ok_iff.mp hok)⟩

end Scrap
