/-
# Encrypted Documents

A Document is sealed Frame by Frame with a data key of its own. The plaintext of a Frame has
`plainFrameSize` bytes, the last one fewer, and AES-GCM adds a tag of 16, so that every ciphertext
Frame but the last fills a Frame of the Block. The envelope keeps what a reader needs: the wrapped
key, the nonce prefix, and the digest and the lengths of the Document.

AES-GCM, SHA-256, Transit and `encoding/json` are parameters (`Suite`), and what is assumed of them
is `Suite.Lawful`: the AEAD opens what it sealed, and JSON reads back what it wrote.
-/
import Mathlib.Data.List.DropRight
import Scrap.Block.Idx
import Scrap.Lib.Bytes
import Scrap.Lib.Stream
import Scrap.Lib.Text

namespace Scrap.Encryption

open Block Buffered Bytes Text

def defaultCiphertextFramePayload : Nat := 64 * 1024
def noncePrefixSize : Nat := 8
def aesGCMTagSize : Nat := 16
def aes256KeySize : Nat := 32

def plainFrameSize : Nat := defaultCiphertextFramePayload - aesGCMTagSize

/-- The largest ciphertext of a Document of at most `plaintextMax` bytes. -/
def maxCiphertextSize (plaintextMax : Nat) : Nat :=
  plaintextMax + (plaintextMax + plainFrameSize - 1) / plainFrameSize * aesGCMTagSize

structure DocumentIdentity where
  transactionID : String
  documentName : String
deriving DecidableEq

structure Envelope where
  version : Int
  transitMount : String
  transitKey : String
  keyVersion : Int
  wrappedDataKey : String
  payloadAlgorithm : String
  noncePrefix : List UInt8
  plaintextSHA256 : List UInt8
  plaintextLength : Int
  ciphertextLength : Int
deriving DecidableEq

/-- What the package takes from others. -/
structure Suite where
  sha256 : List UInt8 → Digest
  /-- `Seal`: key, nonce, plaintext, associated data -/
  sealPayload : List UInt8 → List UInt8 → List UInt8 → List UInt8 → List UInt8
  /-- `Open`: key, nonce, ciphertext, associated data -/
  openPayload : List UInt8 → List UInt8 → List UInt8 → List UInt8 → Option (List UInt8)
  /-- `UnwrapDataKey`: wrapped key, context, mount, key name -/
  unwrapDataKey : String → List UInt8 → String → String → Option (List UInt8)
  marshal : Envelope → List UInt8
  unmarshal : List UInt8 → Option Envelope

structure Suite.ReadsEnvelopes (S : Suite) : Prop where
  unmarshal_marshal : ∀ e, S.unmarshal (S.marshal e) = some e
  marshal_ne_nil : ∀ e, S.marshal e ≠ []

structure Suite.Lawful (S : Suite) : Prop extends S.ReadsEnvelopes where
  open_seal : ∀ key nonce plaintext aad, key.length = aes256KeySize →
    S.openPayload key nonce (S.sealPayload key nonce plaintext aad) aad = some plaintext
  length_seal : ∀ key nonce plaintext aad, key.length = aes256KeySize →
    (S.sealPayload key nonce plaintext aad).length = plaintext.length + aesGCMTagSize

variable {sha : Digest} {size : Int} {fs : List (List UInt8)} {frame : List UInt8}
  {r : Reader UInt8} {S : Suite}

/-! ## Nonces and associated data -/

/-- `binary.BigEndian.PutUint32` -/
def beUint32 (v : UInt32) : List UInt8 := (leBytes 4 v.toNat).reverse

def appendLen (dst value : List UInt8) : List UInt8 :=
  dst ++ beUint32 (UInt32.ofNat value.length) ++ value

def appendIdentity (domain : String) (identity : DocumentIdentity) (frameSeq : UInt32) :
    List UInt8 :=
  appendLen (appendLen (appendLen [] (utf8 domain)) (utf8 identity.transactionID))
    (utf8 identity.documentName) ++ beUint32 frameSeq

def documentKeyContext (identity : DocumentIdentity) : List UInt8 :=
  appendIdentity "scrap:v1:document-key" identity 0

def frameAAD (identity : DocumentIdentity) (frameSeq : UInt32) : List UInt8 :=
  appendIdentity "scrap:v1:document-frame" identity frameSeq

/-- A nonce has eight bytes of the prefix and four of the Frame's number. -/
def frameNonce (noncePrefix : List UInt8) (frameSeq : UInt32) : List UInt8 :=
  noncePrefix.take noncePrefixSize ++
    List.replicate (noncePrefixSize - noncePrefix.length) 0 ++ beUint32 frameSeq

/-! ## The envelope -/

/-- `strings.TrimFunc` -/
def trimBy (p : Char → Bool) (s : String) : String :=
  String.ofList ((s.toList.dropWhile p).rdropWhile p)

def isSpace (c : Char) : Bool :=
  let n := c.toNat
  (0x09 ≤ n && n ≤ 0x0d) || n = 0x20 || n = 0x85 || n = 0xa0 || n = 0x1680 ||
    (0x2000 ≤ n && n ≤ 0x200a) || n = 0x2028 || n = 0x2029 || n = 0x202f || n = 0x205f ||
    n = 0x3000

/-- The cutset of a Transit path. -/
def isPathSpace (c : Char) : Bool :=
  c = '/' || c = ' ' || c = '\t' || c = '\r' || c = '\n'

def defaultTransitMountPath : String := "transit"

def defaultTransitKeyName : String := "scrap-documents"

def normalizeTransitPath (value fallback : String) : String :=
  let trimmed := trimBy isPathSpace value
  if trimmed = "" then fallback else trimmed

def normalizeEnvelope (e : Envelope) : Envelope :=
  { e with
    transitMount := trimBy isPathSpace e.transitMount
    transitKey := trimBy isPathSpace e.transitKey
    payloadAlgorithm := trimBy isSpace e.payloadAlgorithm }

def envelopeVersion : Int := 1

def payloadAlgorithmAES256GCM : String := "AES-256-GCM"

inductive EnvelopeErr where
  /-- `missing envelope` -/
  | missing
  /-- `decode: %w` -/
  | decode
  /-- `unsupported version %d` -/
  | version (v : Int)
  /-- `transit mount is required` -/
  | transitMount
  /-- `transit key is required` -/
  | transitKey
  /-- `key version is required` -/
  | keyVersion
  /-- `wrapped data key is required` -/
  | wrappedDataKey
  /-- `unsupported payload algorithm %q` -/
  | payloadAlgorithm (s : String)
  /-- `nonce prefix length %d` -/
  | noncePrefix (n : Nat)
  /-- `plaintext SHA-256 length %d` -/
  | plaintextSHA256 (n : Nat)
  /-- `negative plaintext length` -/
  | plaintextLength
  /-- `negative ciphertext length` -/
  | ciphertextLength
deriving DecidableEq

def validateEnvelopeHeader (e : Envelope) : Except EnvelopeErr Unit :=
  if e.version ≠ envelopeVersion then .error (.version e.version)
  else if e.transitMount = "" then .error .transitMount
  else if e.transitKey = "" then .error .transitKey
  else if e.keyVersion ≤ 0 then .error .keyVersion
  else if trimBy isSpace e.wrappedDataKey = "" then .error .wrappedDataKey
  else if e.payloadAlgorithm ≠ payloadAlgorithmAES256GCM then
    .error (.payloadAlgorithm e.payloadAlgorithm)
  else .ok ()

def validateEnvelopePayload (e : Envelope) : Except EnvelopeErr Unit :=
  if e.noncePrefix.length ≠ noncePrefixSize then .error (.noncePrefix e.noncePrefix.length)
  else if e.plaintextSHA256.length ≠ 32 then .error (.plaintextSHA256 e.plaintextSHA256.length)
  else if e.plaintextLength < 0 then .error .plaintextLength
  else if e.ciphertextLength < 0 then .error .ciphertextLength
  else .ok ()

def validateEnvelope (e : Envelope) : Except EnvelopeErr Unit :=
  match validateEnvelopeHeader e with
  | .error err => .error err
  | .ok () => validateEnvelopePayload e

def marshalEnvelope (S : Suite) (e : Envelope) : Except EnvelopeErr (List UInt8) :=
  match validateEnvelope (normalizeEnvelope e) with
  | .error err => .error err
  | .ok () => .ok (S.marshal (normalizeEnvelope e))

def parseEnvelope (S : Suite) (data : List UInt8) : Except EnvelopeErr Envelope :=
  if data = [] then .error .missing
  else
    match S.unmarshal data with
    | none => .error .decode
    | some e =>
      match validateEnvelope (normalizeEnvelope e) with
      | .error err => .error err
      | .ok () => .ok (normalizeEnvelope e)

/-! ## The encryptor -/

structure DataKey where
  plaintext : List UInt8
  wrappedKey : String
  version : Int
deriving DecidableEq

/-- What an encryptor is made with; mount and key name are the configured ones. -/
structure EncryptorConfig where
  key : DataKey
  identity : DocumentIdentity
  noncePrefix : List UInt8
  transitMount : String
  transitKey : String
deriving DecidableEq

/-- `normalizeDocumentConfig` -/
def EncryptorConfig.mount (cfg : EncryptorConfig) : String :=
  normalizeTransitPath cfg.transitMount defaultTransitMountPath

def EncryptorConfig.keyName (cfg : EncryptorConfig) : String :=
  normalizeTransitPath cfg.transitKey defaultTransitKeyName

inductive EncryptErr where
  | eof
  /-- `encryption read document: %w` -/
  | readDocument
deriving DecidableEq

/-- What changes while an encryptor runs; `hashed` is what the hasher was given. -/
structure DocumentEncryptor where
  body : Reader UInt8
  cur : List UInt8
  curErr : Option Ending
  primed : Bool
  done : Bool
  err : Option EncryptErr
  frameSeq : UInt32
  hashed : List UInt8
  plaintextSize : Nat
  ciphertextSize : Nat
deriving DecidableEq

/-- `NewDocumentEncryptor` with the data key of Transit; the AEAD takes no key of another size. -/
def newDocumentEncryptor (cfg : EncryptorConfig) (body : Reader UInt8) :
    Option DocumentEncryptor :=
  if cfg.key.plaintext.length ≠ aes256KeySize then none
  else some ⟨body, [], none, false, false, none, 0, [], 0, 0⟩

def DocumentEncryptor.prime (e : DocumentEncryptor) : DocumentEncryptor :=
  if e.primed then e
  else
    let (cur, curErr, body) := e.body.readFull plainFrameSize
    { e with cur := cur, curErr := curErr, body := body, primed := true }

/-- The next buffer, unless the body ended in the current one. -/
def DocumentEncryptor.readAhead (e : DocumentEncryptor) :
    Except EncryptErr (List UInt8 × Option Ending × Reader UInt8) :=
  if e.curErr.any (·.isEOF) then .ok ([], e.curErr, e.body)
  else
    let next := e.body.readFull plainFrameSize
    if next.2.1.any (!·.isEOF) then .error .readDocument else .ok next

def sealFrame (S : Suite) (cfg : EncryptorConfig) (frameSeq : UInt32) (plaintext : List UInt8) :
    List UInt8 :=
  S.sealPayload cfg.key.plaintext (frameNonce cfg.noncePrefix frameSeq) plaintext
    (frameAAD cfg.identity frameSeq)

/-- The state behind a Frame, with the buffer that was read ahead. -/
def DocumentEncryptor.sealed (e : DocumentEncryptor) (frame : List UInt8)
    (next : List UInt8 × Option Ending × Reader UInt8) : DocumentEncryptor where
  body := next.2.2
  cur := next.1
  curErr := next.2.1
  primed := e.primed
  done := next.1.isEmpty
  err := e.err
  frameSeq := e.frameSeq + 1
  hashed := e.hashed ++ e.cur
  plaintextSize := e.plaintextSize + e.cur.length
  ciphertextSize := e.ciphertextSize + frame.length

/-- The Frame and whether it is the last. -/
def DocumentEncryptor.nextFrame (S : Suite) (cfg : EncryptorConfig) (e : DocumentEncryptor) :
    Except EncryptErr (List UInt8 × Bool) × DocumentEncryptor :=
  match e.err with
  | some err => (.error err, e)
  | none =>
    if e.done then (.error .eof, { e with err := some .eof })
    else
      let e := e.prime
      if e.curErr.any (!·.isEOF) then
        (.error .readDocument, { e with err := some .readDocument })
      else if e.cur = [] then (.error .eof, { e with done := true, err := some .eof })
      else
        match e.readAhead with
        | .error err => (.error err, { e with err := some err })
        | .ok next =>
          let frame := sealFrame S cfg e.frameSeq e.cur
          (.ok (frame, next.1.isEmpty), e.sealed frame next)

def DocumentEncryptor.ahead (e : DocumentEncryptor) : Nat :=
  (if e.primed then e.cur.length else 0) + e.body.bytes.length

def DocumentEncryptor.envelope (S : Suite) (cfg : EncryptorConfig) (e : DocumentEncryptor) :
    Envelope where
  version := envelopeVersion
  transitMount := cfg.mount
  transitKey := cfg.keyName
  keyVersion := cfg.key.version
  wrappedDataKey := cfg.key.wrappedKey
  payloadAlgorithm := payloadAlgorithmAES256GCM
  noncePrefix := cfg.noncePrefix
  plaintextSHA256 := (S.sha256 e.hashed).val
  plaintextLength := e.plaintextSize
  ciphertextLength := e.ciphertextSize

/-- The envelope, once the last Frame was made. -/
def DocumentEncryptor.finalize (S : Suite) (cfg : EncryptorConfig) (e : DocumentEncryptor) :
    Option (Digest × Int × List UInt8) :=
  if !e.done then none
  else
    match marshalEnvelope S (e.envelope S cfg) with
    | .error _ => none
    | .ok envelope => some (S.sha256 e.hashed, e.plaintextSize, envelope)

/-! ## The decryptor -/

inductive IntegrityErr where
  /-- `plaintext length metadata mismatch` -/
  | plaintextLengthMetadata
  /-- `plaintext SHA-256 metadata mismatch` -/
  | plaintextSHA256Metadata
  /-- `ciphertext frame %d too short` -/
  | frameTooShort (seq : UInt32)
  /-- `ciphertext length mismatch` -/
  | ciphertextLength
  /-- `decrypt frame %d` -/
  | decryptFrame (seq : UInt32)
  /-- `plaintext length mismatch` -/
  | plaintextLength
  /-- `plaintext SHA-256 mismatch` -/
  | plaintextSHA256
deriving DecidableEq

inductive DecryptErr where
  | envelope (err : EnvelopeErr)
  | integrity (err : IntegrityErr)
  /-- the key is not to be had -/
  | unwrap
  /-- `data key length %d` -/
  | dataKeyLength (n : Nat)
deriving DecidableEq

structure DocumentDecryptor where
  key : List UInt8
  identity : DocumentIdentity
  envelope : Envelope
  expectedSHA : Digest
deriving DecidableEq

def newDocumentDecryptor (S : Suite) (identity : DocumentIdentity) (envelopeBytes : List UInt8)
    (expectedSHA : Digest) (expectedSize : Int) : Except DecryptErr DocumentDecryptor :=
  match parseEnvelope S envelopeBytes with
  | .error err => .error (.envelope err)
  | .ok envelope =>
    if expectedSize ≠ envelope.plaintextLength then
      .error (.integrity .plaintextLengthMetadata)
    else if expectedSHA.val ≠ envelope.plaintextSHA256 then
      .error (.integrity .plaintextSHA256Metadata)
    else
      match S.unwrapDataKey envelope.wrappedDataKey (documentKeyContext identity)
        envelope.transitMount envelope.transitKey with
      | none => .error .unwrap
      | some key =>
        if key.length ≠ aes256KeySize then .error (.dataKeyLength key.length)
        else .ok ⟨key, identity, envelope, expectedSHA⟩

def DocumentDecryptor.finish (S : Suite) (d : DocumentDecryptor) (plaintext : List UInt8)
    (ciphertextSize : Nat) : Except IntegrityErr (List UInt8) :=
  if (ciphertextSize : Int) ≠ d.envelope.ciphertextLength then .error .ciphertextLength
  else if (plaintext.length : Int) ≠ d.envelope.plaintextLength then .error .plaintextLength
  else if S.sha256 plaintext ≠ d.expectedSHA then .error .plaintextSHA256
  else .ok plaintext

/-- The reads of a decrypting reader to the end of its Frames: the plaintext, or the error that ends
it. `plaintext` and `ciphertextSize` came before. -/
def DocumentDecryptor.read (S : Suite) (d : DocumentDecryptor) :
    UInt32 → List UInt8 → Nat → List (List UInt8) → Except IntegrityErr (List UInt8)
  | _, plaintext, ciphertextSize, [] => d.finish S plaintext ciphertextSize
  | frameSeq, plaintext, ciphertextSize, frame :: frames =>
    if frame.length < aesGCMTagSize then .error (.frameTooShort frameSeq)
    else if d.envelope.ciphertextLength < ((ciphertextSize + frame.length : Nat) : Int) then
      .error .ciphertextLength
    else
      match S.openPayload d.key (frameNonce d.envelope.noncePrefix frameSeq) frame
        (frameAAD d.identity frameSeq) with
      | none => .error (.decryptFrame frameSeq)
      | some opened =>
        d.read S (frameSeq + 1) (plaintext ++ opened) (ciphertextSize + frame.length) frames

def DocumentDecryptor.verify (S : Suite) (d : DocumentDecryptor) (frames : List (List UInt8)) :
    Except IntegrityErr Unit :=
  (d.read S 0 [] 0 frames).map fun _ => ()

/-! ## The envelope is read back as it was written -/

theorem dropWhile_of_initial {α : Type} {p : α → Bool} {l m : List α} (hm : m <+: l)
    (hl : l.dropWhile p = l) : m.dropWhile p = m := by
  cases m with
  | nil => rfl
  | cons a m => ?_
  obtain ⟨t, rfl⟩ := hm
  rw [List.dropWhile_eq_self_iff] at hl
  exact List.dropWhile_eq_self_iff.mpr fun _ => hl (by simp)

theorem trimBy_trimBy (p : Char → Bool) (s : String) : trimBy p (trimBy p s) = trimBy p s := by
  have hinit := List.rdropWhile_prefix p (s.toList.dropWhile p)
  simp only [trimBy, String.toList_ofList]
  rw [dropWhile_of_initial hinit (List.dropWhile_idempotent p s.toList), List.rdropWhile_idempotent]

theorem trimBy_normalizeTransitPath (value : String) {fallback : String}
    (h : trimBy isPathSpace fallback = fallback) :
    trimBy isPathSpace (normalizeTransitPath value fallback) =
      normalizeTransitPath value fallback := by
  simp only [normalizeTransitPath]
  split_ifs
  · exact h
  · exact trimBy_trimBy _ _

@[simp] theorem normalizeEnvelope_normalizeEnvelope (e : Envelope) :
    normalizeEnvelope (normalizeEnvelope e) = normalizeEnvelope e := by
  simp only [normalizeEnvelope, trimBy_trimBy]

variable {S : Suite} (hS : S.Lawful)

theorem parseEnvelope_marshalEnvelope (hjson : S.ReadsEnvelopes) {e : Envelope}
    {data : List UInt8} (h : marshalEnvelope S e = .ok data) :
    data ≠ [] ∧ parseEnvelope S data = .ok (normalizeEnvelope e) := by
  simp only [marshalEnvelope] at h
  split at h
  · exact absurd h (by simp)
  rename_i hvalid
  have hdata := Except.ok.inj h
  rw [← hdata]
  refine ⟨hjson.marshal_ne_nil _, ?_⟩
  rw [parseEnvelope, if_neg (hjson.marshal_ne_nil _), hjson.unmarshal_marshal]
  simp only [normalizeEnvelope_normalizeEnvelope, hvalid]

/-! ## What the encryptor makes -/

theorem plainFrameSize_pos : 0 < plainFrameSize := by decide

@[simp] theorem DocumentEncryptor.prime_primed (e : DocumentEncryptor) : e.prime.primed = true := by
  unfold DocumentEncryptor.prime
  split_ifs with h
  · exact h
  · rfl

theorem DocumentEncryptor.ahead_prime (e : DocumentEncryptor) : e.prime.ahead = e.ahead := by
  unfold DocumentEncryptor.prime
  split_ifs with h
  · rfl
  · simp only [DocumentEncryptor.ahead, h, readFull_bytes, readFull_rest, List.length_take,
      List.length_drop, if_true, Bool.false_eq_true, if_false]
    omega

variable {e e' : DocumentEncryptor} {cfg : EncryptorConfig}

theorem DocumentEncryptor.nextFrame_ok {last : Bool}
    (h : e.nextFrame S cfg = (.ok (frame, last), e')) :
    e.prime.cur ≠ [] ∧ ∃ next, e.prime.readAhead = .ok next ∧
      frame = sealFrame S cfg e.prime.frameSeq e.prime.cur ∧ last = next.1.isEmpty ∧
      e' = e.prime.sealed frame next := by
  unfold DocumentEncryptor.nextFrame at h
  cases herr : e.err with
  | some err => simp [herr] at h
  | none => ?_
  simp only [herr] at h
  split_ifs at h with hdone hfail hcur
  · simp at h
  · simp at h
  · simp at h
  cases hnext : e.prime.readAhead with
  | error err => simp [hnext] at h
  | ok next =>
    simp only [hnext, Prod.mk.injEq, Except.ok.injEq] at h
    obtain ⟨⟨hframe, hlast⟩, he⟩ := h
    exact ⟨hcur, next, rfl, hframe.symm, hlast.symm, by rw [← hframe, he]⟩

theorem DocumentEncryptor.readAhead_le {next : List UInt8 × Option Ending × Reader UInt8}
    (h : e.readAhead = .ok next) :
    next.1.length + next.2.2.bytes.length = e.body.bytes.length := by
  simp only [DocumentEncryptor.readAhead] at h
  split_ifs at h with heof hfail
  · rw [← Except.ok.inj h]
    exact Nat.zero_add _
  · rw [← Except.ok.inj h, readFull_bytes, readFull_rest, List.length_take, List.length_drop]
    omega

theorem DocumentEncryptor.ahead_lt {last : Bool} (h : e.nextFrame S cfg = (.ok (frame, last), e')) :
    e'.ahead < e.ahead := by
  obtain ⟨hcur, next, hnext, -, -, rfl⟩ := nextFrame_ok h
  have hpos := List.length_pos_of_ne_nil hcur
  have hle := readAhead_le hnext
  rw [← e.ahead_prime]
  simp only [DocumentEncryptor.ahead, DocumentEncryptor.sealed, prime_primed, if_true]
  omega

/-- The loop of `AppendDocumentFrameSource` over an encryptor: the Frames up to the last or an
error. -/
def DocumentEncryptor.frames (S : Suite) (cfg : EncryptorConfig) (e : DocumentEncryptor) :
    List (List UInt8) × Option EncryptErr × DocumentEncryptor :=
  match _h : e.nextFrame S cfg with
  | (.error err, e') => ([], some err, e')
  | (.ok (frame, true), e') => ([frame], none, e')
  | (.ok (frame, false), e') =>
    let (fs, err, e'') := DocumentEncryptor.frames S cfg e'
    (frame :: fs, err, e'')
termination_by e.ahead
decreasing_by exact ahead_lt _h

/-- The Frames of the plaintext pieces, numbered from `frameSeq`. -/
def sealFrames (S : Suite) (cfg : EncryptorConfig) :
    UInt32 → List (List UInt8) → List (List UInt8)
  | _, [] => []
  | frameSeq, p :: ps => sealFrame S cfg frameSeq p :: sealFrames S cfg (frameSeq + 1) ps

theorem length_sealFrames (S : Suite) (cfg : EncryptorConfig) :
    ∀ (ps : List (List UInt8)) (frameSeq : UInt32),
      (sealFrames S cfg frameSeq ps).length = ps.length
  | [], _ => rfl
  | p :: ps, frameSeq => by
    rw [sealFrames, List.length_cons, length_sealFrames S cfg ps, List.length_cons]

section Run

variable (S) (cfg : EncryptorConfig) {e : DocumentEncryptor} {r : Reader UInt8}

namespace DocumentEncryptor

@[simp] theorem prime_err : e.prime.err = e.err := by
  unfold prime
  split_ifs <;> rfl

@[simp] theorem prime_frameSeq : e.prime.frameSeq = e.frameSeq := by
  unfold prime
  split_ifs <;> rfl

@[simp] theorem prime_hashed : e.prime.hashed = e.hashed := by
  unfold prime
  split_ifs <;> rfl

@[simp] theorem prime_plaintextSize :
    e.prime.plaintextSize = e.plaintextSize := by
  unfold prime
  split_ifs <;> rfl

@[simp] theorem prime_ciphertextSize :
    e.prime.ciphertextSize = e.ciphertextSize := by
  unfold prime
  split_ifs <;> rfl

/-- The encryptor stands at the start of `r`. -/
structure At (e : DocumentEncryptor) (r : Reader UInt8) : Prop where
  err : e.err = none
  done : e.done = false
  cur : e.prime.cur = (r.readFull plainFrameSize).1
  curErr : e.prime.curErr = (r.readFull plainFrameSize).2.1
  body : e.prime.body = (r.readFull plainFrameSize).2.2

end DocumentEncryptor

/-- What is left behind the next buffer. -/
abbrev rest (r : Reader UInt8) : Reader UInt8 := (r.readFull plainFrameSize).2.2

theorem DocumentEncryptor.At.sealed (h : e.At r) (frame : List UInt8)
    (hne : (rest r).bytes ≠ []) :
    (e.prime.sealed frame ((rest r).readFull plainFrameSize)).At (rest r) := by
  have hlast : ((rest r).readFull plainFrameSize).1.isEmpty = false := by
    rw [readFull_bytes, List.isEmpty_eq_false_iff, ne_eq, List.take_eq_nil_iff]
    exact not_or.mpr ⟨plainFrameSize_pos.ne', hne⟩
  have hprime : (e.prime.sealed frame ((rest r).readFull plainFrameSize)).prime =
      e.prime.sealed frame ((rest r).readFull plainFrameSize) := by
    rw [DocumentEncryptor.prime, if_pos (by simp [DocumentEncryptor.sealed])]
  exact ⟨by simp [DocumentEncryptor.sealed, h.err], hlast, by rw [hprime]; rfl,
    by rw [hprime]; rfl, by rw [hprime]; rfl⟩

theorem DocumentEncryptor.At.nextFrame_full (h : e.At r)
    (hfull : plainFrameSize ≤ r.bytes.length) :
    e.nextFrame S cfg = if ((rest r).readFull plainFrameSize).2.1.any (!·.isEOF) then
        (.error .readDocument, { e.prime with err := some .readDocument })
      else
        (.ok (sealFrame S cfg e.frameSeq (r.bytes.take plainFrameSize), (rest r).bytes.isEmpty),
          e.prime.sealed (sealFrame S cfg e.frameSeq (r.bytes.take plainFrameSize))
            ((rest r).readFull plainFrameSize)) := by
  have hpos := plainFrameSize_pos
  have hcur : e.prime.cur = r.bytes.take plainFrameSize := by rw [h.cur, readFull_bytes]
  have hne : ¬ r.bytes.take plainFrameSize = [] := by
    intro hnil
    have hlen := congrArg List.length hnil
    rw [List.length_take, List.length_nil] at hlen
    omega
  have hlast : (((rest r).bytes).take plainFrameSize).isEmpty = (rest r).bytes.isEmpty := by
    rw [Bool.eq_iff_iff, List.isEmpty_iff, List.isEmpty_iff, List.take_eq_nil_iff]
    exact or_iff_right (by omega)
  simp only [DocumentEncryptor.nextFrame, h.err, h.done, h.curErr,
    readFull_full r plainFrameSize hfull, hcur, DocumentEncryptor.readAhead, h.body,
    Option.any_none, Bool.false_eq_true, if_false, prime_frameSeq]
  split_ifs with hfail
  · rfl
  · show (Except.ok (_, ((rest r).readFull plainFrameSize).1.isEmpty), _) = _
    rw [readFull_bytes, hlast]

theorem DocumentEncryptor.At.nextFrame_short (h : e.At r)
    (hshort : r.bytes.length < plainFrameSize) (hne : r.bytes ≠ []) :
    ∃ next : List UInt8 × Option Ending × Reader UInt8, next.1 = [] ∧ e.nextFrame S cfg =
        if r.ending.isEOF then
          (.ok (sealFrame S cfg e.frameSeq r.bytes, true),
            e.prime.sealed (sealFrame S cfg e.frameSeq r.bytes) next)
        else (.error .readDocument, { e.prime with err := some .readDocument }) := by
  obtain ⟨x, hx, heof⟩ := readFull_short r plainFrameSize hshort
  have hcur : e.prime.cur = r.bytes := by
    rw [h.cur, readFull_bytes, List.take_of_length_le (by omega)]
  refine ⟨([], some x, rest r), rfl, ?_⟩
  simp only [DocumentEncryptor.nextFrame, h.err, h.done, h.curErr, hx, hcur, hne,
    DocumentEncryptor.readAhead, h.body, Option.any_some, heof]
  cases hend : r.ending.isEOF <;> simp

theorem DocumentEncryptor.At.nextFrame_empty (h : e.At r) (hbs : r.bytes = []) :
    e.nextFrame S cfg =
      if r.ending.isEOF then (.error .eof, { e.prime with done := true, err := some .eof })
      else (.error .readDocument, { e.prime with err := some .readDocument }) := by
  obtain ⟨x, hx, heof⟩ := readFull_short r plainFrameSize (by rw [hbs]; decide)
  have hcur : e.prime.cur = [] := by rw [h.cur, readFull_bytes, hbs, List.take_nil]
  simp only [DocumentEncryptor.nextFrame, h.err, h.done, h.curErr, hx, hcur, Option.any_some, heof]
  cases hend : r.ending.isEOF <;> simp

/-! A run of the encryptor over a body that ends: its Frames are those of the pieces, and it has
hashed and counted all of it. -/

theorem frames_of_last (h : e.nextFrame S cfg = (.ok (frame, true), e')) :
    e.frames S cfg = ([frame], none, e') := by
  rw [DocumentEncryptor.frames]
  split
  · rename_i heq
    rw [h] at heq
    simp at heq
  · rename_i heq
    rw [h] at heq
    simp only [Prod.mk.injEq, Except.ok.injEq, and_true] at heq
    rw [heq.1, heq.2]
  · rename_i heq
    rw [h] at heq
    simp at heq

theorem frames_of_more (h : e.nextFrame S cfg = (.ok (frame, false), e')) :
    e.frames S cfg =
      (frame :: (e'.frames S cfg).1, (e'.frames S cfg).2.1, (e'.frames S cfg).2.2) := by
  rw [DocumentEncryptor.frames]
  split
  · rename_i heq
    rw [h] at heq
    simp at heq
  · rename_i heq
    rw [h] at heq
    simp at heq
  · rename_i heq
    rw [h] at heq
    simp only [Prod.mk.injEq, Except.ok.injEq, and_true] at heq
    rw [heq.1, heq.2]

theorem frames_of_error {err : EncryptErr} (h : e.nextFrame S cfg = (.error err, e')) :
    e.frames S cfg = ([], some err, e') := by
  rw [DocumentEncryptor.frames]
  split
  · rename_i heq
    rw [h] at heq
    simp only [Prod.mk.injEq, Except.error.injEq] at heq
    rw [heq.1, heq.2]
  · rename_i heq
    rw [h] at heq
    simp at heq
  · rename_i heq
    rw [h] at heq
    simp at heq

/-- From `e` to `e'` the bytes `bs` were sealed into `fs`. -/
structure DocumentEncryptor.Sealed (e e' : DocumentEncryptor) (bs : List UInt8)
    (fs : List (List UInt8)) : Prop where
  hashed : e'.hashed = e.hashed ++ bs
  plaintextSize : e'.plaintextSize = e.plaintextSize + bs.length
  ciphertextSize : e'.ciphertextSize = e.ciphertextSize + fs.flatten.length

theorem DocumentEncryptor.Sealed.trans {e₁ e₂ e₃ : DocumentEncryptor} {bs cs : List UInt8}
    {gs : List (List UInt8)} (h : e₁.Sealed e₂ bs fs) (h' : e₂.Sealed e₃ cs gs) :
    e₁.Sealed e₃ (bs ++ cs) (fs ++ gs) where
  hashed := by rw [h'.hashed, h.hashed, List.append_assoc]
  plaintextSize := by rw [h'.plaintextSize, h.plaintextSize, List.length_append, Nat.add_assoc]
  ciphertextSize := by
    rw [h'.ciphertextSize, h.ciphertextSize, List.flatten_append, List.length_append, Nat.add_assoc]

theorem DocumentEncryptor.sealed_sealed (frame : List UInt8)
    (next : List UInt8 × Option Ending × Reader UInt8) :
    e.Sealed (e.prime.sealed frame next) e.prime.cur [frame] := by
  refine ⟨?_, ?_, ?_⟩ <;> simp [DocumentEncryptor.sealed]

theorem DocumentEncryptor.At.nextFrame_eof (h : e.At r) (heof : r.ending.isEOF = true)
    (hne : r.bytes ≠ []) :
    ∃ e', e.nextFrame S cfg = (.ok (sealFrame S cfg e.frameSeq (r.bytes.take plainFrameSize),
          (rest r).bytes.isEmpty), e') ∧
      e.Sealed e' (r.bytes.take plainFrameSize)
        [sealFrame S cfg e.frameSeq (r.bytes.take plainFrameSize)] ∧
      e'.done = (rest r).bytes.isEmpty ∧ e'.frameSeq = e.frameSeq + 1 ∧
      ((rest r).bytes ≠ [] → e'.At (rest r)) := by
  have hrest : (rest r).bytes = r.bytes.drop plainFrameSize := readFull_rest r _
  have hcur : e.prime.cur = r.bytes.take plainFrameSize := by rw [h.cur, readFull_bytes]
  by_cases hshort : r.bytes.length < plainFrameSize
  · obtain ⟨next, hnil, hnext⟩ := h.nextFrame_short S cfg hshort hne
    have hlast : (rest r).bytes = [] := by rw [hrest, List.drop_of_length_le (by omega)]
    rw [if_pos heof] at hnext
    rw [List.take_of_length_le (by omega), hlast]
    have hsealed := sealed_sealed (e := e) (sealFrame S cfg e.frameSeq r.bytes) next
    rw [hcur, List.take_of_length_le (by omega)] at hsealed
    refine ⟨_, hnext, hsealed, ?_, ?_, fun hrne => absurd rfl hrne⟩
    · simp [DocumentEncryptor.sealed, hnil]
    · simp [DocumentEncryptor.sealed]
  · have hok : ((rest r).readFull plainFrameSize).2.1.any (!·.isEOF) = false := by
      by_cases hfull : plainFrameSize ≤ (rest r).bytes.length
      · rw [readFull_full _ _ hfull]
        rfl
      · obtain ⟨x, hx, hxeof⟩ := readFull_short (rest r) plainFrameSize (by omega)
        rw [hx, Option.any_some, hxeof, readFull_ending, heof]
        rfl
    have hnext := h.nextFrame_full S cfg (by omega)
    rw [hok] at hnext
    have hsealed := sealed_sealed (e := e)
      (sealFrame S cfg e.frameSeq (r.bytes.take plainFrameSize))
      ((rest r).readFull plainFrameSize)
    rw [hcur] at hsealed
    refine ⟨_, hnext, hsealed, ?_, ?_, fun hrne => h.sealed _ hrne⟩
    · have hpos := plainFrameSize_pos
      simp only [DocumentEncryptor.sealed, readFull_bytes]
      rw [Bool.eq_iff_iff, List.isEmpty_iff, List.isEmpty_iff, List.take_eq_nil_iff]
      exact or_iff_right (by omega)
    · simp [DocumentEncryptor.sealed]

theorem DocumentEncryptor.At.frames_eq : ∀ (bs : List UInt8) {e : DocumentEncryptor}
    {r : Reader UInt8}, r.bytes = bs → e.At r → r.ending.isEOF = true → bs ≠ [] →
    ∃ e', e.frames S cfg =
        (sealFrames S cfg e.frameSeq (pieces plainFrameSize bs), none, e') ∧ e'.done = true ∧
      e.Sealed e' bs (sealFrames S cfg e.frameSeq (pieces plainFrameSize bs)) := by
  intro bs
  induction bs using pieces_induction plainFrameSize_pos with
  | nil => intro e r _ _ _ hne; exact absurd rfl hne
  | cons bs hbs ih =>
    rintro e r rfl h heof -
    obtain ⟨e₁, hnext, hsealed, hdone, hseq, hat⟩ := h.nextFrame_eof S cfg heof hbs
    have hrest : (rest r).bytes = r.bytes.drop plainFrameSize := readFull_rest r _
    rw [pieces_of_pos plainFrameSize_pos hbs, ← hrest]
    by_cases hlast : (rest r).bytes = []
    · rw [hlast] at hnext hdone
      rw [frames_of_last S cfg hnext, hlast, pieces_nil]
      refine ⟨e₁, rfl, hdone, ?_⟩
      rwa [List.take_of_length_le (List.drop_eq_nil_iff.mp (hrest ▸ hlast))] at hsealed ⊢
    · rw [show (rest r).bytes.isEmpty = false by simpa using hlast] at hnext
      obtain ⟨e', hframes, hdone', hsealed'⟩ := ih hrest (hat hlast)
        (by rw [readFull_ending, heof]) (hrest ▸ hlast)
      rw [hseq, ← hrest] at hframes hsealed'
      rw [frames_of_more S cfg hnext, hframes]
      refine ⟨e', rfl, hdone', ?_⟩
      have htrans := hsealed.trans hsealed'
      rwa [hrest, List.take_append_drop, ← hrest] at htrans

theorem DocumentEncryptor.At.frames_failed : ∀ (bs : List UInt8) {e : DocumentEncryptor}
    {r : Reader UInt8}, r.bytes = bs → e.At r → r.ending.isEOF = false →
    (e.frames S cfg).2.1 = some .readDocument := by
  intro bs
  induction bs using pieces_induction plainFrameSize_pos with
  | nil =>
    intro e r hbs h heof
    have hnext := h.nextFrame_empty S cfg hbs
    rw [heof] at hnext
    rw [frames_of_error S cfg hnext]
  | cons bs hbs ih =>
    rintro e r rfl h heof
    by_cases hshort : r.bytes.length < plainFrameSize
    · obtain ⟨next, -, hnext⟩ := h.nextFrame_short S cfg hshort hbs
      rw [heof] at hnext
      rw [frames_of_error S cfg hnext]
    · have hnext := h.nextFrame_full S cfg (by omega)
      by_cases hfail : ((rest r).readFull plainFrameSize).2.1.any (!·.isEOF) = true
      · rw [if_pos hfail] at hnext
        rw [frames_of_error S cfg hnext]
      have hlast : (rest r).bytes ≠ [] := by
        intro hnil
        obtain ⟨x, hx, hxeof⟩ := readFull_short (rest r) plainFrameSize
          (by rw [hnil]; decide)
        rw [hx, Option.any_some, hxeof, readFull_ending, heof] at hfail
        exact hfail rfl
      rw [if_neg hfail, show (rest r).bytes.isEmpty = false by simpa using hlast] at hnext
      rw [frames_of_more S cfg hnext]
      exact ih (readFull_rest r _) (h.sealed _ hlast) (by rw [readFull_ending, heof])

/-- So a run that did not end with the body's error had a body that ended. -/
theorem DocumentEncryptor.At.ending_isEOF (h : e.At r)
    (hread : (e.frames S cfg).2.1 ≠ some .readDocument) : r.ending.isEOF = true := by
  by_contra hfail
  exact hread (h.frames_failed S cfg _ rfl (by simpa using hfail))

theorem DocumentEncryptor.At.frames_empty (h : e.At r) (heof : r.ending.isEOF = true)
    (hbs : r.bytes = []) : ∃ e', e.frames S cfg = ([], some .eof, e') := by
  have hempty := h.nextFrame_empty S cfg hbs
  rw [if_pos heof] at hempty
  exact ⟨_, frames_of_error S cfg hempty⟩

end Run

/-! ## The decryptor opens what the encryptor sealed -/

section Decrypt

variable {cfg : EncryptorConfig} (hkey : cfg.key.plaintext.length = aes256KeySize)

include hS hkey

theorem length_sealFrame (frameSeq : UInt32) (p : List UInt8) :
    (sealFrame S cfg frameSeq p).length = p.length + aesGCMTagSize :=
  hS.length_seal _ _ _ _ hkey

theorem DocumentDecryptor.read_sealFrames {d : DocumentDecryptor}
    (hdkey : d.key = cfg.key.plaintext) (hid : d.identity = cfg.identity)
    (hnonce : d.envelope.noncePrefix = cfg.noncePrefix) :
    ∀ (ps : List (List UInt8)) (frameSeq : UInt32) (plaintext : List UInt8) (size : Nat),
      ((size + (sealFrames S cfg frameSeq ps).flatten.length : Nat) : Int) ≤
        d.envelope.ciphertextLength →
      d.read S frameSeq plaintext size (sealFrames S cfg frameSeq ps) =
        d.finish S (plaintext ++ ps.flatten)
          (size + (sealFrames S cfg frameSeq ps).flatten.length)
  | [], frameSeq, plaintext, size, _ => by simp [sealFrames, DocumentDecryptor.read]
  | p :: ps, frameSeq, plaintext, size, hsize => by
    have hlen := length_sealFrame hS hkey frameSeq p
    simp only [sealFrames, List.flatten_cons, List.length_append] at hsize ⊢
    have hopen : S.openPayload d.key (frameNonce d.envelope.noncePrefix frameSeq)
        (sealFrame S cfg frameSeq p) (frameAAD d.identity frameSeq) = some p := by
      rw [hdkey, hid, hnonce]
      exact hS.open_seal _ _ _ _ hkey
    rw [DocumentDecryptor.read, if_neg (by omega), if_neg (by omega), hopen]
    simp only
    rw [DocumentDecryptor.read_sealFrames hdkey hid hnonce ps (frameSeq + 1)
      (plaintext ++ p) (size + (sealFrame S cfg frameSeq p).length) (by omega),
      List.append_assoc, Nat.add_assoc]

end Decrypt

theorem normalizeEnvelope_envelope (S : Suite) (cfg : EncryptorConfig) (e : DocumentEncryptor) :
    normalizeEnvelope (e.envelope S cfg) = e.envelope S cfg := by
  have hfallback : trimBy isPathSpace defaultTransitMountPath = defaultTransitMountPath ∧
      trimBy isPathSpace defaultTransitKeyName = defaultTransitKeyName := by decide
  have hmount := trimBy_normalizeTransitPath cfg.transitMount hfallback.1
  have hname := trimBy_normalizeTransitPath cfg.transitKey hfallback.2
  have halg : trimBy isSpace payloadAlgorithmAES256GCM = payloadAlgorithmAES256GCM := by decide
  simp only [normalizeEnvelope, DocumentEncryptor.envelope, EncryptorConfig.mount,
    EncryptorConfig.keyName, hmount, hname, halg]

theorem DocumentEncryptor.finalize_ok {envelope : List UInt8}
    (h : e.finalize S cfg = some (sha, size, envelope)) :
    marshalEnvelope S (e.envelope S cfg) = .ok envelope ∧ sha = S.sha256 e.hashed ∧
      size = e.plaintextSize := by
  simp only [DocumentEncryptor.finalize] at h
  split_ifs at h
  split at h
  · exact absurd h (by simp)
  rename_i henv
  simp only [Option.some.injEq, Prod.mk.injEq] at h
  obtain ⟨hsha, hsize, rfl⟩ := h
  exact ⟨henv, hsha.symm, hsize.symm⟩

theorem normalizeTransitPath_ne_empty (value : String) {fallback : String} (h : fallback ≠ "") :
    normalizeTransitPath value fallback ≠ "" := by
  simp only [normalizeTransitPath]
  split_ifs with htrimmed
  · exact h
  · exact htrimmed

/-- An encryptor has its envelope behind the last Frame, if Transit gave a key with a version and a
wrapped form and the nonce prefix has its size. -/
theorem DocumentEncryptor.finalize_of_done (hdone : e.done = true) (hversion : 0 < cfg.key.version)
    (hwrapped : trimBy isSpace cfg.key.wrappedKey ≠ "")
    (hnonce : cfg.noncePrefix.length = noncePrefixSize) :
    e.finalize S cfg =
      some (S.sha256 e.hashed, (e.plaintextSize : Int), S.marshal (e.envelope S cfg)) := by
  have hmount : cfg.mount ≠ "" := normalizeTransitPath_ne_empty _ (by decide)
  have hname : cfg.keyName ≠ "" := normalizeTransitPath_ne_empty _ (by decide)
  have hvalid : validateEnvelope (e.envelope S cfg) = .ok () := by
    have hheader : validateEnvelopeHeader (e.envelope S cfg) = .ok () := by
      simp [validateEnvelopeHeader, DocumentEncryptor.envelope, hmount, hname, hwrapped,
        Int.not_le.mpr hversion]
    have hsize8 : (e.envelope S cfg).noncePrefix.length = noncePrefixSize := hnonce
    have hsha : (e.envelope S cfg).plaintextSHA256.length = 32 := (S.sha256 e.hashed).2
    have hplain : ¬ (e.envelope S cfg).plaintextLength < 0 :=
      Int.not_lt.mpr (Int.natCast_nonneg e.plaintextSize)
    have hcipher : ¬ (e.envelope S cfg).ciphertextLength < 0 :=
      Int.not_lt.mpr (Int.natCast_nonneg e.ciphertextSize)
    rw [validateEnvelope, hheader]
    simp only [validateEnvelopePayload]
    rw [if_neg (not_not.mpr hsize8), if_neg (not_not.mpr hsha), if_neg hplain, if_neg hcipher]
  rw [DocumentEncryptor.finalize, marshalEnvelope, normalizeEnvelope_envelope, hvalid]
  simp [hdone]

theorem newDocumentEncryptor_at (h : newDocumentEncryptor cfg r = some e) :
    cfg.key.plaintext.length = aes256KeySize ∧ e.At r ∧ e.frameSeq = 0 ∧ e.hashed = [] ∧
      e.plaintextSize = 0 ∧ e.ciphertextSize = 0 := by
  simp only [newDocumentEncryptor] at h
  split_ifs at h with hkey
  rw [← Option.some.inj h]
  exact ⟨not_not.mp hkey, ⟨rfl, rfl, rfl, rfl, rfl⟩, rfl, rfl, rfl, rfl⟩

theorem frames_err_eq_none {err : Option EncryptErr} (hnew : newDocumentEncryptor cfg r = some e)
    (hrun : e.frames S cfg = (fs, err, e')) (hread : err ≠ some .readDocument) (hne : fs ≠ []) :
    err = none := by
  have hat := (newDocumentEncryptor_at hnew).2.1
  have heof := hat.ending_isEOF S cfg (by rwa [hrun])
  have hbs : r.bytes ≠ [] := by
    intro hbs
    obtain ⟨e₁, hempty⟩ := hat.frames_empty S cfg heof hbs
    exact hne (congrArg Prod.fst (hrun.symm.trans hempty))
  obtain ⟨e₁, hframes, -⟩ := hat.frames_eq S cfg _ rfl heof hbs
  rw [hrun] at hframes
  exact congrArg (·.2.1) hframes

theorem encrypted_frames (hnew : newDocumentEncryptor cfg r = some e)
    (hrun : e.frames S cfg = (fs, none, e')) :
    r.bytes ≠ [] ∧ r.ending.isEOF = true ∧
      fs = sealFrames S cfg 0 (pieces plainFrameSize r.bytes) ∧ e'.hashed = r.bytes ∧
      e'.plaintextSize = r.bytes.length ∧ e'.ciphertextSize = fs.flatten.length := by
  obtain ⟨-, hat, hseq, hhashed, hplain, hcipher⟩ := newDocumentEncryptor_at hnew
  have heof := hat.ending_isEOF S cfg (by simp [hrun])
  have hne : r.bytes ≠ [] := by
    intro hbs
    obtain ⟨e₁, hempty⟩ := hat.frames_empty S cfg heof hbs
    rw [hrun] at hempty
    exact absurd hempty (by simp)
  obtain ⟨e₁, hframes, -, hsealed⟩ := hat.frames_eq S cfg _ rfl heof hne
  rw [hrun] at hframes
  obtain ⟨rfl, rfl⟩ := hframes
  rw [hseq] at hsealed ⊢
  refine ⟨hne, heof, rfl, ?_, ?_, ?_⟩
  · rw [hsealed.hashed, hhashed, List.nil_append]
  · rw [hsealed.plaintextSize, hplain, Nat.zero_add]
  · rw [hsealed.ciphertextSize, hcipher, Nat.zero_add]

theorem newDocumentDecryptor_finalized (hjson : S.ReadsEnvelopes) {envelope : List UInt8}
    (hkey : cfg.key.plaintext.length = aes256KeySize)
    (hfinal : e.finalize S cfg = some (sha, size, envelope))
    (hunwrap : S.unwrapDataKey cfg.key.wrappedKey (documentKeyContext cfg.identity) cfg.mount
      cfg.keyName = some cfg.key.plaintext) :
    envelope ≠ [] ∧ parseEnvelope S envelope = .ok (e.envelope S cfg) ∧
      newDocumentDecryptor S cfg.identity envelope sha size =
        .ok ⟨cfg.key.plaintext, cfg.identity, e.envelope S cfg, sha⟩ := by
  obtain ⟨hmarshal, hsha, hsize⟩ := DocumentEncryptor.finalize_ok hfinal
  obtain ⟨hne, hparse⟩ := parseEnvelope_marshalEnvelope hjson hmarshal
  rw [normalizeEnvelope_envelope] at hparse
  refine ⟨hne, hparse, ?_⟩
  rw [newDocumentDecryptor, hparse]
  simp [DocumentEncryptor.envelope, hsha, hsize, hunwrap, hkey]

include hS in
theorem read_encrypted (hnew : newDocumentEncryptor cfg r = some e)
    (hrun : e.frames S cfg = (fs, none, e')) :
    DocumentDecryptor.read S
        ⟨cfg.key.plaintext, cfg.identity, e'.envelope S cfg, S.sha256 e'.hashed⟩ 0 [] 0 fs =
      .ok r.bytes := by
  have hkey := (newDocumentEncryptor_at hnew).1
  obtain ⟨-, -, hfs, hhashed, hplain, hcipher⟩ := encrypted_frames hnew hrun
  have hread := DocumentDecryptor.read_sealFrames hS hkey
    (d := ⟨cfg.key.plaintext, cfg.identity, e'.envelope S cfg, S.sha256 e'.hashed⟩) rfl rfl rfl
    (pieces plainFrameSize r.bytes) 0 [] 0
    (by rw [Nat.zero_add, ← hfs, ← hcipher]; exact Int.le_refl _)
  rw [← hfs, flatten_pieces plainFrameSize_pos, List.nil_append] at hread
  rw [hread, DocumentDecryptor.finish, if_neg (by simp [DocumentEncryptor.envelope, hcipher]),
    if_neg (by simp [DocumentEncryptor.envelope, hplain]),
    if_neg (by simp [hhashed])]

include hS in
theorem verify_encrypted {envelope : List UInt8} (hnew : newDocumentEncryptor cfg r = some e)
    (hrun : e.frames S cfg = (fs, none, e'))
    (hfinal : e'.finalize S cfg = some (sha, size, envelope))
    (hunwrap : S.unwrapDataKey cfg.key.wrappedKey (documentKeyContext cfg.identity) cfg.mount
      cfg.keyName = some cfg.key.plaintext) :
    envelope ≠ [] ∧ parseEnvelope S envelope = .ok (e'.envelope S cfg) ∧
      ∃ d, newDocumentDecryptor S cfg.identity envelope sha size = .ok d ∧
        d.verify S fs = .ok () := by
  have hkey := (newDocumentEncryptor_at hnew).1
  obtain ⟨hne, hparse, hdec⟩ := newDocumentDecryptor_finalized hS.toReadsEnvelopes hkey hfinal hunwrap
  refine ⟨hne, hparse, _, hdec, ?_⟩
  obtain ⟨-, rfl, -⟩ := DocumentEncryptor.finalize_ok hfinal
  rw [DocumentDecryptor.verify, read_encrypted hS hnew hrun]
  rfl

end Scrap.Encryption
