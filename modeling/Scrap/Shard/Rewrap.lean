/-
# Rewrapping a Document's envelope

A RewrapDocumentEnvelope command replaces the encryption envelope in the Document's `.idx` record
when the record still has the old key version. A record that has the new one already counts as
changed, so that a replay requeues the upload again; any other version makes the command stale,
which its apply does not report as an error.
-/
import Scrap.Shard.Upload

namespace Scrap

open Block

structure RewrapDocumentEnvelope where
  transactionID : String
  documentName : String
  blockID : UInt64
  encryptionEnvelope : List UInt8
  oldKeyVersion : Int
  newKeyVersion : Int
  rewrappedAtUs : Int
  proposalID : String
deriving DecidableEq

/-! ## The `.idx` file -/

/-- A new file that replaces the old one when it is complete. -/
def rewriteIndexEntries (entries : List IndexEntry) : Except IdxErr IdxFile :=
  entries.foldlM IdxFile.append newIndexFile

/-- The records with the envelope of the Document's first record replaced. -/
def setEnvelope (txID docName : String) (envelope : List UInt8) :
    List IndexEntry → List IndexEntry
  | [] => []
  | e :: entries =>
    if e.transactionID = txID ∧ e.docName = docName then
      { e with encryptionEnvelope := envelope } :: entries
    else e :: setEnvelope txID docName envelope entries

/-- The file it leaves, and whether it changed. -/
def replaceDocumentEnvelope (f : IdxFile) (txID docName : String) (envelope : List UInt8) :
    Except IdxErr (IdxFile × Bool) :=
  match openIndexReader (some f) with
  | .error err => .error err
  | .ok entries =>
    match find entries txID docName with
    | .error err => .error err
    | .ok e =>
      if e.encryptionEnvelope = envelope then .ok (f, false)
      else
        match rewriteIndexEntries (setEnvelope txID docName envelope entries) with
        | .error err => .error err
        | .ok f' => .ok (f', true)

/-! ## The apply -/

/-- The command's own envelope parses, and it names a Block and a Document. -/
def validateRewrapCommand (c : Crypto) (cmd : RewrapDocumentEnvelope) : Except ShardErr Unit :=
  if cmd.blockID = 0 ∨ cmd.transactionID = "" ∨ cmd.documentName = "" ∨
      cmd.encryptionEnvelope = [] then .error .rewrapCommand
  else
    match c.parseEnvelope cmd.encryptionEnvelope with
    | none => .error .rewrapEnvelope
    | some _ => .ok ()

/-- Whether the record has the new key version already. -/
def validateRewrapCurrentEnvelope (c : Crypto) (idx : Option IdxFile)
    (cmd : RewrapDocumentEnvelope) : Except ShardErr Bool :=
  match openIndexReader idx with
  | .error err => .error (.rewrapIndex err)
  | .ok entries =>
    match find entries cmd.transactionID cmd.documentName with
    | .error err => .error (.rewrapIndex err)
    | .ok e =>
      match c.parseEnvelope e.encryptionEnvelope with
      | none => .error .rewrapEnvelope
      | some current =>
        if current.keyVersion = cmd.oldKeyVersion then .ok false
        else if current.keyVersion = cmd.newKeyVersion then .ok true
        else .error .staleEnvelope

/-- `replaceRewrapEnvelopeLocked`: the `.idx` it leaves, and whether it counts as changed. -/
def replaceRewrapEnvelope (c : Crypto) (idx : Option IdxFile) (cmd : RewrapDocumentEnvelope) :
    Except ShardErr (Option IdxFile × Bool) :=
  match validateRewrapCurrentEnvelope c idx cmd with
  | .error err => .error err
  | .ok true => .ok (idx, true)
  | .ok false =>
    match idx with
    | none => .error (.rewrapIndex .notExist)
    | some f =>
      match replaceDocumentEnvelope f cmd.transactionID cmd.documentName
          cmd.encryptionEnvelope with
      | .error err => .error (.rewrapIndex err)
      | .ok (f', changed) => .ok (some f', changed)

def finishRewrapApply (blockID : UInt64) (current changed : Bool) (uploadGeneration : Int) :
    ShardM Unit :=
  if changed ∧ !current then requeueBlockUploadAfterIndexAppend blockID uploadGeneration
  else pure ()

def applyRewrapDocumentEnvelope (c : Crypto) (cmd : RewrapDocumentEnvelope)
    (uploadGeneration : Int) : ShardM Unit := do
  match validateRewrapCommand c cmd with
  | .error err => throw err
  | .ok () =>
    let s ← get
    let current := s.isOpen cmd.blockID
    match replaceRewrapEnvelope c (s.blocks cmd.blockID).idx cmd with
    | .error err => throw err
    | .ok (idx, changed) =>
      set (s.setBlock cmd.blockID { s.blocks cmd.blockID with idx := idx })
      finishRewrapApply cmd.blockID current changed uploadGeneration

theorem applyRewrapDocumentEnvelope_run (c : Crypto) (cmd : RewrapDocumentEnvelope) (gen : Int)
    (s : Shard) :
    (applyRewrapDocumentEnvelope c cmd gen).run s = match validateRewrapCommand c cmd with
      | .error err => .error err s
      | .ok () =>
        match replaceRewrapEnvelope c (s.blocks cmd.blockID).idx cmd with
        | .error err => .error err s
        | .ok (idx, changed) =>
          (finishRewrapApply cmd.blockID (s.isOpen cmd.blockID) changed gen).run
            (s.setBlock cmd.blockID { s.blocks cmd.blockID with idx := idx }) := by
  unfold applyRewrapDocumentEnvelope
  cases validateRewrapCommand c cmd with
  | error err => rfl
  | ok u => ?_
  simp only [Fallible.get_bind]
  cases replaceRewrapEnvelope c (s.blocks cmd.blockID).idx cmd with
  | error err => rfl
  | ok p => rfl

def rewrapUploadGeneration (cmd : RewrapDocumentEnvelope) (entryIndex : UInt64) : Int :=
  uploadGenerationFromApplyIndex entryIndex cmd.rewrappedAtUs

end Scrap
