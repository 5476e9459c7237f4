/-
# Verifying a Block against its index

`verifyBlock` reads every Frame and compares each Document with the `.idx` entry at the position of
its `doc_seq`. Nothing else ties a Document to its entry: a Document in the `.blk` without an entry
shifts every later one.

The header and the CRCs are intact in every `BlkFile`, so only the checks of a Document against its
entry and the tail of the file remain.
-/
import Scrap.Block.Docs

namespace Scrap.Block

/-- What an envelope's JSON says about the plaintext digest. -/
inductive EnvelopeDigest where
  | notJSON
  | invalid
  | digest (d : Digest)

structure Envelope where
  keyVersion : Int
  ciphertextLength : Int

/-- SHA-256, the JSON of an encryption envelope, and the decryption of a Document. -/
structure Crypto where
  sha256 : List UInt8 → Digest
  /-- `none`: not JSON, absent or negative -/
  envelopeCiphertextLength : List UInt8 → Option Int
  envelopePlaintextSHA256 : List UInt8 → EnvelopeDigest
  /-- the Member has key material -/
  enabled : Bool
  /-- `ParseEnvelope`; `none` when it is invalid -/
  parseEnvelope : List UInt8 → Option Envelope
  /-- the Frames authenticate under the identity, envelope, digest and size -/
  verifies : String → String → List UInt8 → Digest → Int → List (List UInt8) → Bool

inductive CorruptionType where
  | header
  | frameCRC
  | docSHA256
  | docCiphertextLength
  | missing
deriving DecidableEq

structure CorruptFrame where
  offset : Nat
  type : CorruptionType
deriving DecidableEq

structure VerifyState where
  offset : Nat
  /-- the payload bytes of each Document that is not complete -/
  docBySeq : UInt32 → List UInt8
  framesByDocSeq : UInt32 → UInt32
  completedDocSeq : UInt32 → Bool
  corruptFrames : List CorruptFrame
  framesVerified : Nat

def VerifyState.start : VerifyState :=
  ⟨headerSize, fun _ => [], fun _ => 0, fun _ => false, [], 0⟩

def isZeroSHA256 (d : Digest) : Bool := d.val = List.replicate 32 0

def checkDocSHA (c : Crypto) (payload : List UInt8) (expected : Digest) : List CorruptionType :=
  if isZeroSHA256 expected ∨ c.sha256 payload ≠ expected then [.docSHA256] else []

def checkEncryptedDocPayloadLength (c : Crypto) (payload envelope : List UInt8) :
    List CorruptionType :=
  match c.envelopeCiphertextLength envelope with
  | none => [.docCiphertextLength]
  | some n => if (payload.length : Int) ≠ n then [.docCiphertextLength] else []

def checkEncryptedDocSHAMetadata (c : Crypto) (e : IndexEntry) : List CorruptionType :=
  match c.envelopePlaintextSHA256 e.encryptionEnvelope with
  | .invalid => [.docSHA256]
  | .notJSON => []
  | .digest d => if isZeroSHA256 e.sha256 ∨ e.sha256 ≠ d then [.docSHA256] else []

def checkDocEntry (c : Crypto) (payload : List UInt8) (e : IndexEntry) : List CorruptionType :=
  if e.encryptionEnvelope ≠ [] then
    checkEncryptedDocPayloadLength c payload e.encryptionEnvelope ++
      checkEncryptedDocSHAMetadata c e
  else checkDocSHA c payload e.sha256

/-- The entry is the one at the position of `docSeq`, if there is one. -/
def checkDocIntegrity (c : Crypto) (entries : List IndexEntry) (payload : List UInt8)
    (docSeq : UInt32) : List CorruptionType :=
  match entries[docSeq.toNat]? with
  | none => []
  | some e => checkDocEntry c payload e

/-- One turn of the loop of `verifyFrames`. -/
def verifyFrame (c : Crypto) (entries : List IndexEntry) (st : VerifyState) (f : Frame) :
    VerifyState :=
  let payload := st.docBySeq f.docSeq ++ f.payload
  let last := isLastFrame f.flags
  { offset := st.offset + f.size
    docBySeq := Function.update st.docBySeq f.docSeq (if last then [] else payload)
    framesByDocSeq := Function.update st.framesByDocSeq f.docSeq (st.framesByDocSeq f.docSeq + 1)
    completedDocSeq :=
      if last then Function.update st.completedDocSeq f.docSeq true else st.completedDocSeq
    corruptFrames := st.corruptFrames ++ if last then
        (checkDocIntegrity c entries payload f.docSeq).map (CorruptFrame.mk st.offset)
      else []
    framesVerified := st.framesVerified + 1 }

def VerifyState.missing (st : VerifyState) (seq : Nat) (e : IndexEntry) : Bool :=
  e.frameCount = 0 ∨ st.framesByDocSeq (UInt32.ofNat seq) < e.frameCount ∨
    !st.completedDocSeq (UInt32.ofNat seq)

def recordMissingIndexedFrames (st : VerifyState) : Nat → List IndexEntry → List CorruptFrame
  | _, [] => []
  | seq, e :: entries =>
    (if st.missing seq e then [⟨st.offset, .missing⟩] else []) ++
      recordMissingIndexedFrames st (seq + 1) entries

structure VerifyResult where
  corruptFrames : List CorruptFrame
  framesVerified : Nat
deriving DecidableEq

/-- An incomplete header reads as the end of the file, an incomplete payload as corrupt. -/
def verifyFrames (c : Crypto) (f : BlkFile) (entries : List IndexEntry) : VerifyResult :=
  let st := f.frames.foldl (verifyFrame c entries) .start
  if f.torn < frameHeaderSize then
    ⟨st.corruptFrames ++ recordMissingIndexedFrames st 0 entries, st.framesVerified⟩
  else ⟨st.corruptFrames ++ [⟨st.offset, .frameCRC⟩], st.framesVerified⟩

inductive VerifyErr where
  /-- `verify load idx` -/
  | loadIdx (err : IdxErr)
  /-- `verify open` -/
  | openBlk
deriving DecidableEq

def verifyBlock (c : Crypto) (blk : Option BlkFile) (idx : Option IdxFile) :
    Except VerifyErr VerifyResult :=
  match openIndexReader idx with
  | .error err => .error (.loadIdx err)
  | .ok entries =>
    match blk with
    | none => .error .openBlk
    | some f => .ok (verifyFrames c f entries)

end Scrap.Block
