/-
# The Block index file (`.idx`)

A Block's `.idx` is an append-only list of `IndexEntry` records, one for each committed Document.
Every record carries its own length and CRC, so without a disk fault the only damage a crash leaves
is an incomplete LAST record. An `IdxFile` is the list of whole records and the flag of a torn
tail, one that `repairIndexTail` can cut off and that `openIndexReader` refuses; the bytes, and the
cuts that cannot be repaired, are in `IdxTail`.
-/
import Mathlib.Data.List.Basic

namespace Scrap.Block

/-- A SHA-256 digest, the source's `[32]byte`. -/
abbrev Digest := {l : List UInt8 // l.length = 32}

/-- One record of an `.idx` file. `createdAtUs` is in microseconds, as in the file. -/
structure IndexEntry where
  transactionID : String
  docName : String
  contentType : String
  createdAtUs : Int
  firstFrameOff : Nat
  frameCount : UInt32
  totalBytes : Int
  sha256 : Digest
  encryptionEnvelope : List UInt8
deriving DecidableEq

inductive IdxErr where
  /-- the file does not exist (`os.ErrNotExist`) -/
  | notExist
  /-- `ErrIdxCorrupt`: an incomplete last record -/
  | corruptTail
  /-- `ErrDocNotFound` -/
  | docNotFound
  /-- `block: index entry %s length %d exceeds %d` -/
  | fieldLength (field : String) (n : Nat)
deriving DecidableEq

structure IdxFile where
  entries : List IndexEntry
  torn : Bool
deriving DecidableEq

/-- `NewIndexWriter`: a fresh file with a header and no record. -/
def newIndexFile : IdxFile := ⟨[], false⟩

/-- Every record of the file, or the reason it cannot be read. -/
def openIndexReader : Option IdxFile → Except IdxErr (List IndexEntry)
  | none => .error .notExist
  | some f => if f.torn then .error .corruptTail else .ok f.entries

/-- Truncate the file behind its last whole record. -/
def repairIndexTail : Option IdxFile → Except IdxErr IdxFile
  | none => .error .notExist
  | some f => .ok { f with torn := false }

/-- The first record of the Document. -/
def find (entries : List IndexEntry) (txID docName : String) : Except IdxErr IndexEntry :=
  match entries.find? (fun e => e.transactionID = txID ∧ e.docName = docName) with
  | some e => .ok e
  | none => .error .docNotFound

/-- The Transaction's records in file order. -/
def findByTransaction (entries : List IndexEntry) (txID : String) : List IndexEntry :=
  entries.filter (fun e => e.transactionID = txID)

def maxUint16 : Nat := 65535

/-- The four fields behind a `uint16` length prefix, in the order they are checked. -/
def lenPrefixedFields (e : IndexEntry) : List (String × Nat) :=
  [("transaction_id", e.transactionID.utf8ByteSize), ("document_name", e.docName.utf8ByteSize),
   ("content_type", e.contentType.utf8ByteSize),
   ("encryption_envelope", e.encryptionEnvelope.length)]

/-- The first field that would wrap its prefix. -/
def validateEntryFieldLens (e : IndexEntry) : Except IdxErr Unit :=
  match (lenPrefixedFields e).find? (fun field => maxUint16 < field.2) with
  | some (field, n) => .error (.fieldLength field n)
  | none => .ok ()

/-- Behind a torn tail the record is out of reach: the torn record's length prefix runs into it. -/
def IdxFile.append (f : IdxFile) (e : IndexEntry) : Except IdxErr IdxFile :=
  match validateEntryFieldLens e with
  | .error err => .error err
  | .ok () => .ok (if f.torn then f else { f with entries := f.entries ++ [e] })

/-! ## What the readers return -/

theorem openIndexReader_ok {idx : Option IdxFile} {entries : List IndexEntry} :
    openIndexReader idx = .ok entries ↔
      ∃ f, idx = some f ∧ f.torn = false ∧ f.entries = entries := by
  cases idx with
  | none => simp [openIndexReader]
  | some f => cases h : f.torn <;> simp [openIndexReader, h]

theorem openIndexReader_corruptTail {idx : Option IdxFile} :
    openIndexReader idx = .error .corruptTail ↔ ∃ f, idx = some f ∧ f.torn = true := by
  cases idx with
  | none => simp [openIndexReader]
  | some f => cases h : f.torn <;> simp [openIndexReader]

def FieldsFit (e : IndexEntry) : Prop :=
  ∀ field ∈ lenPrefixedFields e, field.2 ≤ maxUint16

instance (e : IndexEntry) : Decidable (FieldsFit e) :=
  inferInstanceAs (Decidable (∀ field ∈ lenPrefixedFields e, field.2 ≤ maxUint16))

theorem validateEntryFieldLens_ok {e : IndexEntry} :
    validateEntryFieldLens e = .ok () ↔ FieldsFit e := by
  unfold validateEntryFieldLens FieldsFit
  cases h : (lenPrefixedFields e).find? (fun field => maxUint16 < field.2) with
  | none =>
    have hno := List.find?_eq_none.mp h
    simpa using hno
  | some field =>
    have hbig : maxUint16 < field.2 := by simpa using List.find?_some h
    have hmem := List.mem_of_find?_eq_some h
    refine iff_of_false (by simp) ?_
    intro hfit
    exact absurd (hfit field hmem) (by omega)

theorem IdxFile.append_of_fit {e : IndexEntry} {f : IdxFile} (h : FieldsFit e)
    (hf : f.torn = false) : f.append e = .ok { f with entries := f.entries ++ [e] } := by
  rw [IdxFile.append, validateEntryFieldLens_ok.mpr h, hf]
  rfl

theorem IdxFile.append_of_not_fit {e : IndexEntry} (f : IdxFile) (h : ¬ FieldsFit e) :
    ∃ err, f.append e = .error err := by
  unfold IdxFile.append
  cases hv : validateEntryFieldLens e with
  | ok u => exact absurd (validateEntryFieldLens_ok.mp hv) h
  | error err => exact ⟨err, rfl⟩

theorem find_ok_iff {es : List IndexEntry} {txID docName : String} :
    (∃ e, find es txID docName = .ok e) ↔
      ∃ e ∈ es, e.transactionID = txID ∧ e.docName = docName := by
  unfold find
  cases h : es.find? (fun e => e.transactionID = txID ∧ e.docName = docName) with
  | none =>
    have hno := List.find?_eq_none.mp h
    refine iff_of_false (by simp) ?_
    rintro ⟨e, he, hid⟩
    exact hno e he (by simpa using hid)
  | some e =>
    have hid : e.transactionID = txID ∧ e.docName = docName := by simpa using List.find?_some h
    exact iff_of_true ⟨e, rfl⟩ ⟨e, List.mem_of_find?_eq_some h, hid⟩

end Scrap.Block
