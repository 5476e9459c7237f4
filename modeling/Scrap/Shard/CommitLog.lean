/-
# Logs of new Documents

A run of CommitDocument applies with anything in between that leaves the `.idx` records and the
Transaction records alone. When the Documents of the log have pairwise distinct identities, every
state of the run represents the ledger of the log (`CommitRun.rep`).

What a reader gets out of it is decided by the order of the Block IDs. The record of a Transaction
drops a Block only when it repeats the LAST one, and `listDocuments` visits every listed Block, so a
Transaction that comes back to a Block has that Block's Documents resolved twice and its listing
fails: `listDocuments_iff_neverReturns`.
-/
import Scrap.Shard.Ledger

namespace Scrap

open Block Scrap.Group Fallible

/-- Anything that leaves the records alone; an empty `.idx` may appear or go. -/
def Shard.Env (s s' : Shard) : Prop :=
  s'.Good ∧ s'.view.tx = s.view.tx ∧ ∀ b, (s'.view.idx b).getD [] = (s.view.idx b).getD []

theorem Shard.Good.env_refl {s : Shard} (hg : s.Good) : s.Env s := ⟨hg, rfl, fun _ => rfl⟩

/-- From `s`, the commands are applied in order, every apply returns nil, and `s'` is
reached. -/
inductive CommitRun (s : Shard) : List CommitDocument → Shard → Prop where
  | start : CommitRun s [] s
  | env {docs t u} : CommitRun s docs t → t.Env u → CommitRun s docs u
  | apply {docs t u} (doc : CommitDocument) (i : UInt64) : CommitRun s docs t →
      (applyCommitDocument doc i).run t = .ok () u → CommitRun s (docs ++ [doc]) u

def Shard.Fresh (s : Shard) : Prop := s.Good ∧ s.view.Rep []

def Ledger.ofLog (docs : List CommitDocument) : Ledger := docs.filterMap (·.resolved?)

theorem View.Rep.env {s s' : Shard} {L : Ledger} (h : s.view.Rep L) (henv : s.Env s') :
    s'.view.Rep L := by
  obtain ⟨-, htx, hidx⟩ := henv
  exact ⟨⟨fun t => by rw [htx]; exact h.tx t, h.small⟩, fun b => (hidx b).trans (h.idx b)⟩

theorem Ledger.has_ofLog {docs : List CommitDocument} {t name : String}
    (h : (Ledger.ofLog docs).Has t name) : (t, name) ∈ docs.map CommitDocument.identity := by
  obtain ⟨d, hd, rfl, rfl⟩ := h
  obtain ⟨doc, hdoc, hres⟩ := List.mem_filterMap.mp hd
  obtain ⟨entry, hentry, rfl⟩ := Option.map_eq_some_iff.mp hres
  obtain ⟨ht, hn⟩ := CommitDocument.indexEntry?_some hentry
  exact List.mem_map.mpr ⟨doc, hdoc, by simp [CommitDocument.identity, ht, hn]⟩

theorem CommitRun.rep {s s' : Shard} {docs : List CommitDocument} (hrun : CommitRun s docs s')
    (hfresh : s.Fresh) (hdistinct : (docs.map CommitDocument.identity).Nodup) :
    s'.Good ∧ s'.view.Rep (Ledger.ofLog docs) := by
  induction hrun with
  | start => exact hfresh
  | env hrun henv ih =>
    obtain ⟨-, hrep⟩ := ih hdistinct
    exact ⟨henv.1, hrep.env henv⟩
  | @apply docs t u doc i hrun happly ih =>
    rw [List.map_append, List.nodup_append] at hdistinct
    obtain ⟨hnd, -, hdisj⟩ := hdistinct
    obtain ⟨hg, hrep⟩ := ih hnd
    obtain ⟨hcommit, hg', -⟩ := applyCommitDocument_ok hg happly
    -- the identity is not among the earlier ones, so the Document is new
    have hnew : ¬ (Ledger.ofLog docs).Has doc.transactionID doc.documentName := by
      intro hhas
      exact hdisj _ (Ledger.has_ofLog hhas) doc.identity (by simp) rfl
    rcases hrep.commit_new (t.isOpen doc.blockID) hnew with
      ⟨entry, hentry, -, -, -, v', hv', hrep', -⟩ | ⟨hnone, -⟩
    · obtain rfl : v' = u.view := by simpa using hv'.symm.trans hcommit
      refine ⟨hg', ?_⟩
      have hlog : Ledger.ofLog (docs ++ [doc]) = Ledger.ofLog docs ++ [(doc.blockID, entry)] := by
        simp [Ledger.ofLog, CommitDocument.resolved?, hentry]
      rw [hlog]
      exact hrep'
    · exact absurd (hnone.symm.trans hcommit) (by simp)

/-- `listDocuments` returns each committed Document of the Transaction once, with its Block. -/
def Shard.ListsCommitted (s : Shard) (docs : List CommitDocument) (t : String) : Prop :=
  ∃ l, s.projectionResolver.listDocuments t = .ok l ∧ l.Perm ((Ledger.ofLog docs).ofTx t)

/-- After a log of new Documents every Transaction lists its Documents once if and only if none came
back to a Block it had left. -/
theorem listDocuments_iff_neverReturns {s s' : Shard} {docs : List CommitDocument}
    (hrun : CommitRun s docs s') (hfresh : s.Fresh) (hintact : s'.Intact)
    (hdistinct : (docs.map CommitDocument.identity).Nodup) :
    (∀ t, s'.ListsCommitted docs t) ↔ ∀ t, (Ledger.ofLog docs).NeverReturns t := by
  obtain ⟨hg, hrep⟩ := hrun.rep hfresh hdistinct
  refine forall_congr' fun t => ?_
  rcases s'.listDocuments_rep hg hintact hrep t with ⟨hnr, l, hl, hperm⟩ | ⟨hnr, err, herr⟩
  · exact iff_of_true ⟨l, hl, hperm⟩ hnr
  · refine iff_of_false ?_ hnr
    rintro ⟨l, hl, -⟩
    exact absurd (herr.symm.trans hl) (by simp)


/-! ## A Transaction that comes back to a Block -/

theorem Shard.Good.openNewBlock_env {s : Shard} (hg : s.Good)
    (hnew : (s.blocks s.nextBlockID).idx = none) : s.Env s.openNewBlock := by
  refine ⟨⟨hg.wf, ?_⟩, rfl, ?_⟩
  · intro b hopen
    obtain rfl : s.nextBlockID = b := by
      simpa [Shard.openNewBlock, Shard.isOpen, newWriter] using hopen
    exact ⟨newIndexFile, by simp [Shard.openNewBlock], rfl⟩
  · intro b
    by_cases hb : b = s.nextBlockID <;>
      simp [Shard.view, Shard.openNewBlock, hb, hnew, newIndexFile]

theorem Shard.fresh_fresh (shardID : UInt64) (uploadEnabled : Bool) :
    (Shard.fresh shardID uploadEnabled).Fresh := by
  have hgood : (Shard.emptyDir shardID uploadEnabled).Good :=
    ⟨Index.wf_empty, by simp [Shard.emptyDir, Shard.isOpen]⟩
  have henv := hgood.openNewBlock_env rfl
  refine ⟨henv.1, View.Rep.env ⟨⟨?_, ?_⟩, ?_⟩ henv⟩
  · intro t
    rfl
  · intro t
    simp [Ledger.ofTx]
  · intro b
    rfl

theorem Shard.Intact.openNewBlock {s : Shard} (hi : s.Intact) : s.openNewBlock.Intact := by
  intro b f hf
  by_cases hb : b = s.nextBlockID
  · subst hb
    obtain rfl : newIndexFile = f := by simpa [Shard.openNewBlock] using hf
    rfl
  · exact hi b f (by simpa [Shard.openNewBlock, hb] using hf)

theorem Shard.fresh_intact (shardID : UInt64) (uploadEnabled : Bool) :
    (Shard.fresh shardID uploadEnabled).Intact :=
  Shard.Intact.openNewBlock fun _ _ hf => by cases hf

/-- A one-Frame Document of Transaction `t`. -/
def docOfT (name : String) (blockID firstFrameOff : UInt64) : CommitDocument where
  transactionID := "t"
  documentName := name
  contentType := "text/plain"
  blockID := blockID
  firstFrameOff := firstFrameOff
  frameCount := 1
  totalBytes := 8
  sha256 := List.replicate 32 7
  createdAtUs := 1
  encryptionEnvelope := []
  proposalID := name

/-- Three Documents in Blocks `1`, `2` and `1`: five records are resolved for a count of three. -/
theorem listDocuments_fails_on_return :
    ∃ s', CommitRun (Shard.fresh 1 false)
        [docOfT "a" 1 40, docOfT "b" 2 40, docOfT "c" 1 80] s' ∧
      s'.projectionResolver.listDocuments "t" = .error (.docCountMismatch "t" 3 5) := by
  have h₁ := CommitRun.apply (docOfT "a" 1 40) 1 (.start (s := Shard.fresh 1 false)) rfl
  have hg₁ := (h₁.rep (Shard.fresh_fresh 1 false) (by decide)).1
  have h₂ := h₁.env (hg₁.openNewBlock_env rfl)
  have h₃ := CommitRun.apply (docOfT "b" 2 40) 2 h₂ rfl
  have h₄ := CommitRun.apply (docOfT "c" 1 80) 3 h₃ rfl
  exact ⟨_, h₄, by decide +kernel⟩

/-- A log that stays in one Block meets the hypotheses and lists its Documents. -/
theorem listDocuments_iff_neverReturns_one_block :
    ∃ s', CommitRun (Shard.fresh 1 false) [docOfT "a" 1 40, docOfT "b" 1 80] s' ∧
      ((∀ t, s'.ListsCommitted [docOfT "a" 1 40, docOfT "b" 1 80] t) ↔
        ∀ t, (Ledger.ofLog [docOfT "a" 1 40, docOfT "b" 1 80]).NeverReturns t) := by
  have h₁ := CommitRun.apply (docOfT "a" 1 40) 1 (.start (s := Shard.fresh 1 false)) rfl
  have h₂ := CommitRun.apply (docOfT "b" 1 80) 2 h₁ rfl
  have k₁ := applyCommitDocument_intact (Shard.fresh_fresh 1 false).1 (Shard.fresh_intact 1 false)
    (show (applyCommitDocument (docOfT "a" 1 40) 1).run _ = .ok () _ from rfl)
  have k₂ := applyCommitDocument_intact k₁.1 k₁.2
    (show (applyCommitDocument (docOfT "b" 1 80) 2).run _ = .ok () _ from rfl)
  exact ⟨_, h₂, listDocuments_iff_neverReturns h₂ (Shard.fresh_fresh 1 false) k₂.2 (by decide)⟩

end Scrap
