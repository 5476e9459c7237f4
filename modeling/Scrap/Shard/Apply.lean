/-
# Applying a committed entry

`applyEntryCommand` hands a committed command to its apply function and wakes the proposal that
waits for it. An error that it returns is fatal: the Raft Ready loop panics on it. Only a stale
rewrap and a confirm that was overtaken are swallowed.

The content-quarantine commands and the consistency check are left out: they touch neither `.idx`
files nor Transaction records.
-/
import Scrap.Shard.Projection
import Scrap.Shard.Rewrap

namespace Scrap

open Block Fallible

inductive RaftCommand where
  | commitDoc (doc : CommitDocument)
  | rewrapDoc (cmd : RewrapDocumentEnvelope)
  | sealBlock (cmd : SealBlock)
  | confirmUpload (cmd : ConfirmUpload)
deriving DecidableEq

/-! ## Waiters -/

/-- Send a result to the proposal that waits under a key, if one does. -/
def Shard.wake (s : Shard) (key : String) (result : Option ShardErr) : Shard :=
  match s.proposals key with
  | none => s
  | some ch =>
    { s with
      proposals := Function.update s.proposals key none
      channels := Function.update s.channels ch (some result) }

/-- The key of a proposal; an entry without a proposal ID falls back to the identity. -/
def commitProposalWaiterKey (doc : CommitDocument) : String :=
  if doc.proposalID ≠ "" then "commit-proposal\x00" ++ doc.proposalID
  else doc.transactionID ++ "\x00" ++ doc.documentName

def rewrapProposalKey (proposalID txID docName : String) : String :=
  if proposalID ≠ "" then "rewrap-proposal\x00" ++ proposalID
  else "rewrap\x00" ++ txID ++ "\x00" ++ docName

/-! ## The commands -/

def applyCommitDocumentCommand (doc : CommitDocument) (entryIndex : UInt64) : ShardM Unit :=
  fun s =>
    match (applyCommitDocument doc entryIndex).run s with
    | .ok () s' => .ok () (s'.wake (commitProposalWaiterKey doc) none)
    | .error err s' => .error err (s'.wake (commitProposalWaiterKey doc) (some err))

def applyRewrapDocumentEnvelopeCommand (c : Crypto) (cmd : RewrapDocumentEnvelope)
    (entryIndex : UInt64) : ShardM Unit :=
  fun s =>
    let key := rewrapProposalKey cmd.proposalID cmd.transactionID cmd.documentName
    match (applyRewrapDocumentEnvelope c cmd (rewrapUploadGeneration cmd entryIndex)).run s with
    | .ok () s' => .ok () (s'.wake key none)
    | .error .staleEnvelope s' => .ok () (s'.wake key (some .staleEnvelope))
    | .error err s' => .error err (s'.wake key (some err))

def applyEntryCommand (c : Crypto) (cmd : RaftCommand) (entryIndex : UInt64) : ShardM Unit :=
  match cmd with
  | .commitDoc doc => applyCommitDocumentCommand doc entryIndex
  | .rewrapDoc cmd => applyRewrapDocumentEnvelopeCommand c cmd entryIndex
  | .sealBlock cmd => applySealBlock cmd
  | .confirmUpload cmd => applyConfirmUpload cmd

/-- What a waiter is sent: nothing for nil. -/
def reported : Except ShardErr Unit → Option ShardErr
  | .ok () => none
  | .error err => some err

section Command

variable (s : Shard) (doc : CommitDocument) (i : UInt64)

theorem applyCommitDocumentCommand_run :
    (applyCommitDocumentCommand doc i).run s = match (applyCommitDocument doc i).run s with
      | .ok () t => .ok () (t.wake (commitProposalWaiterKey doc) none)
      | .error err t => .error err (t.wake (commitProposalWaiterKey doc) (some err)) := rfl

theorem applyCommitDocumentCommand_outcome :
    outcome (applyCommitDocumentCommand doc i) s = outcome (applyCommitDocument doc i) s := by
  unfold outcome
  rw [applyCommitDocumentCommand_run]
  cases (applyCommitDocument doc i).run s <;> rfl

theorem applyCommitDocumentCommand_after :
    after (applyCommitDocumentCommand doc i) s =
      (after (applyCommitDocument doc i) s).wake (commitProposalWaiterKey doc)
        (reported (outcome (applyCommitDocument doc i) s)) := by
  unfold outcome after
  rw [applyCommitDocumentCommand_run]
  cases (applyCommitDocument doc i).run s <;> rfl

theorem applyRewrapDocumentEnvelopeCommand_run (c : Crypto) (cmd : RewrapDocumentEnvelope) :
    (applyRewrapDocumentEnvelopeCommand c cmd i).run s =
      match (applyRewrapDocumentEnvelope c cmd (rewrapUploadGeneration cmd i)).run s with
      | .ok () t => .ok () (t.wake (rewrapProposalKey cmd.proposalID cmd.transactionID
          cmd.documentName) none)
      | .error .staleEnvelope t => .ok () (t.wake (rewrapProposalKey cmd.proposalID
          cmd.transactionID cmd.documentName) (some .staleEnvelope))
      | .error err t => .error err (t.wake (rewrapProposalKey cmd.proposalID cmd.transactionID
          cmd.documentName) (some err)) := rfl

end Command

/-! ## When they succeed -/

theorem applyCommitDocumentCommand_iff {s : Shard} {doc : CommitDocument} {i : UInt64} :
    (∃ s', (applyCommitDocumentCommand doc i).run s = .ok () s') ↔
      ∃ s', (applyCommitDocument doc i).run s = .ok () s' := by
  show (∃ s', applyCommitDocumentCommand doc i s = .ok () s') ↔ _
  unfold applyCommitDocumentCommand
  cases (applyCommitDocument doc i).run s with
  | ok u s' => simp
  | error err s' => simp

theorem applySealBlock_iff (s : Shard) (cmd : SealBlock) :
    (∃ s', (applySealBlock cmd).run s = .ok () s') ↔ ∃ idx, s.idx.applyCommittedSeal cmd = .ok idx := by
  rw [applySealBlock, get_bind]
  cases s.idx.applyCommittedSeal cmd with
  | error err => simp
  | ok idx => simp

end Scrap
