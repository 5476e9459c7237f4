/-
# The content-quarantine records of the Projection

A Document that a scanner flagged has one record in Pebble,

    key    'q' 0x01 transaction_id 0x00 document_name
    value  version(1) block_id(8) detected_at_us(8) scan_type(1) reason(1) confirmed_at_us(8)

where version 1 has no `confirmed_at_us`. A record is active while `confirmed_at_us` is zero.
`putContentQuarantine` writes over whatever the key held, `confirmContentQuarantine` leaves a
confirmed record alone, `releaseContentQuarantine` deletes.

Identifiers are checked for length and control characters before they become a key, so two Documents
never share one (`contentQuarantineKey_inj`).
-/
import Mathlib.Algebra.Ring.Int.Defs
import Scrap.Lib.Bytes
import Scrap.Lib.Text

namespace Scrap

open Bytes Text

/-! ## Text fields -/

inductive TextErr where
  /-- `%s is required` -/
  | required (name : String)
  /-- `%s exceeds %d bytes` -/
  | exceeds (name : String) (maxBytes : Nat)
  /-- `%s contains control character` -/
  | control (name : String)
deriving DecidableEq

structure TextField where
  name : String
  value : String
  maxBytes : Nat
  required : Bool

def validateTextField (f : TextField) : Except TextErr Unit :=
  if f.required ∧ f.value = "" then .error (.required f.name)
  else if f.maxBytes < f.value.utf8ByteSize then .error (.exceeds f.name f.maxBytes)
  else if f.value.toList.any isControl then .error (.control f.name)
  else .ok ()

def maxTransactionIDBytes : Nat := 256
def maxDocumentNameBytes : Nat := 512
def maxTenantIDBytes : Nat := 256

def validateDocumentIdentity (txID docName tenantID : String) : Except TextErr Unit :=
  match validateTextField ⟨"transaction_id", txID, maxTransactionIDBytes, true⟩ with
  | .error err => .error err
  | .ok () =>
    match validateTextField ⟨"document_name", docName, maxDocumentNameBytes, true⟩ with
    | .error err => .error err
    | .ok () => validateTextField ⟨"tenant_id", tenantID, maxTenantIDBytes, false⟩

def TextField.Valid (f : TextField) : Prop :=
  (f.required → f.value ≠ "") ∧ f.value.utf8ByteSize ≤ f.maxBytes ∧ Plain f.value

theorem validateTextField_ok_iff {f : TextField} :
    validateTextField f = .ok () ↔ f.Valid := by
  have hany : f.value.toList.any isControl = false ↔ Plain f.value := by simp [Plain]
  unfold validateTextField TextField.Valid
  by_cases h1 : f.required = true ∧ f.value = ""
  · simp [h1]
  rw [if_neg h1]
  by_cases h2 : f.maxBytes < f.value.utf8ByteSize
  · rw [if_pos h2]
    exact iff_of_false (by simp) fun hvalid => absurd hvalid.2.1 (Nat.not_le.mpr h2)
  rw [if_neg h2, ← hany]
  have hreq : f.required = true → f.value ≠ "" := fun hr he => h1 ⟨hr, he⟩
  cases f.value.toList.any isControl
  · simpa [Nat.le_of_not_lt h2] using hreq
  · simp

/-! ## Records -/

structure ContentQuarantine where
  transactionID : String
  documentName : String
  blockID : UInt64
  detectedAtUs : Int
  confirmedAtUs : Int
  scanType : UInt8
  reason : UInt8
deriving DecidableEq

inductive ContentQuarantineErr where
  /-- `ErrContentQuarantineNotFound` -/
  | notFound
  | text (err : TextErr)
  /-- `detected_at_us is required` -/
  | detectedAtRequired
  /-- `detected_at_us exceeds json time range` -/
  | detectedAtRange
  /-- `confirmed_at_us must be non-negative` -/
  | confirmedAtNegative
  /-- `confirmed_at_us exceeds json time range` -/
  | confirmedAtRange
  /-- `confirmed_at_us is required` -/
  | confirmedAtRequired
  /-- `scan_type is required` -/
  | scanTypeRequired
  /-- `reason is required` -/
  | reasonRequired
  /-- `value length %d` -/
  | valueLength (n : Nat)
  /-- `value version %d` -/
  | valueVersion (v : UInt8)
  /-- `%s overflows int64` -/
  | overflows (field : String)
deriving DecidableEq

def contentQuarantinePrefix : List UInt8 := [0x71, 0x01]
def contentQuarantineValueVersionV1 : UInt8 := 0x01
def contentQuarantineValueVersion : UInt8 := 0x02
def contentQuarantineValueLenV1 : Nat := 19
def contentQuarantineValueLen : Nat := 27

/-- The last microsecond of the year 9999. -/
def maxContentQuarantineUnixMicro : Int := 253402300799999999

def contentQuarantineScanTypeInitial : UInt8 := 1
def contentQuarantineScanTypeRescan : UInt8 := 2
def contentQuarantineReasonScannerDetection : UInt8 := 1

def contentQuarantineTextMaxBytes (name : String) : Nat :=
  if name = "transaction_id" then maxTransactionIDBytes
  else if name = "document_name" then maxDocumentNameBytes
  else 0

def validateContentQuarantineText (name value : String) : Except TextErr Unit :=
  validateTextField ⟨name, value, contentQuarantineTextMaxBytes name, true⟩

def validateContentQuarantineIdentity (txID docName : String) : Except ContentQuarantineErr Unit :=
  match validateContentQuarantineText "transaction_id" txID with
  | .error err => .error (.text err)
  | .ok () =>
    match validateContentQuarantineText "document_name" docName with
    | .error err => .error (.text err)
    | .ok () => .ok ()

def validateContentQuarantine (q : ContentQuarantine) : Except ContentQuarantineErr Unit :=
  match validateContentQuarantineIdentity q.transactionID q.documentName with
  | .error err => .error err
  | .ok () =>
    if q.detectedAtUs ≤ 0 then .error .detectedAtRequired
    else if maxContentQuarantineUnixMicro < q.detectedAtUs then .error .detectedAtRange
    else if q.confirmedAtUs < 0 then .error .confirmedAtNegative
    else if maxContentQuarantineUnixMicro < q.confirmedAtUs then .error .confirmedAtRange
    else if ¬ (q.scanType = contentQuarantineScanTypeInitial ∨
        q.scanType = contentQuarantineScanTypeRescan) then .error .scanTypeRequired
    else if q.reason ≠ contentQuarantineReasonScannerDetection then .error .reasonRequired
    else .ok ()

def contentQuarantineKeyBytes (txID docName : String) : List UInt8 :=
  contentQuarantinePrefix ++ utf8 txID ++ 0 :: utf8 docName

def contentQuarantineKey (txID docName : String) : Except ContentQuarantineErr (List UInt8) :=
  match validateContentQuarantineIdentity txID docName with
  | .error err => .error err
  | .ok () => .ok (contentQuarantineKeyBytes txID docName)

/-- `putNonNegativeInt64` -/
def putInt64 (v : Int) : List UInt8 := leBytes 8 (v % 2 ^ 64).toNat

def encodeContentQuarantine (q : ContentQuarantine) : List UInt8 :=
  contentQuarantineValueVersion :: leBytes 8 q.blockID.toNat ++ putInt64 q.detectedAtUs ++
    [q.scanType, q.reason] ++ putInt64 q.confirmedAtUs

def contentQuarantineValueVersionForDecode (val : List UInt8) :
    Except ContentQuarantineErr UInt8 :=
  match val with
  | [] => .error (.valueLength 0)
  | version :: _ =>
    if version = contentQuarantineValueVersionV1 then
      if val.length ≠ contentQuarantineValueLenV1 then .error (.valueLength val.length)
      else .ok version
    else if version = contentQuarantineValueVersion then
      if val.length ≠ contentQuarantineValueLen then .error (.valueLength val.length)
      else .ok version
    else .error (.valueVersion version)

def readContentQuarantineInt64 (buf : List UInt8) (field : String) :
    Except ContentQuarantineErr Int :=
  if 2 ^ 63 - 1 < leNat buf then .error (.overflows field) else .ok (leNat buf)

/-- `confirmed_at_us` of a value; a version 1 value has none. -/
def readConfirmedAtUs (version : UInt8) (val : List UInt8) : Except ContentQuarantineErr Int :=
  if version = contentQuarantineValueVersion then
    readContentQuarantineInt64 ((val.drop 19).take 8) "confirmed_at_us"
  else .ok 0

/-- `decodeContentQuarantine`, of the value under the key of a Document. -/
def decodeContentQuarantine (txID docName : String) (val : List UInt8) :
    Except ContentQuarantineErr ContentQuarantine :=
  match contentQuarantineValueVersionForDecode val with
  | .error err => .error err
  | .ok version =>
    match readContentQuarantineInt64 ((val.drop 9).take 8) "detected_at_us" with
    | .error err => .error err
    | .ok detectedAtUs =>
      match readConfirmedAtUs version val with
      | .error err => .error err
      | .ok confirmedAtUs =>
        let q : ContentQuarantine :=
          { transactionID := txID
            documentName := docName
            blockID := UInt64.ofNat (leNat ((val.drop 1).take 8))
            detectedAtUs := detectedAtUs
            confirmedAtUs := confirmedAtUs
            scanType := (val.drop 17).headD 0
            reason := (val.drop 18).headD 0 }
        match validateContentQuarantine q with
        | .error err => .error err
        | .ok () => .ok q

/-! ## The store -/

/-- The part of Pebble that holds these records. -/
abbrev QuarantineStore := List UInt8 → Option (List UInt8)

namespace QuarantineStore

variable (db : QuarantineStore)

def putContentQuarantine (q : ContentQuarantine) : Except ContentQuarantineErr QuarantineStore :=
  match contentQuarantineKey q.transactionID q.documentName with
  | .error err => .error err
  | .ok key =>
    match validateContentQuarantine q with
    | .error err => .error err
    | .ok () => .ok (Function.update db key (some (encodeContentQuarantine q)))

def getContentQuarantine (txID docName : String) :
    Except ContentQuarantineErr ContentQuarantine :=
  match contentQuarantineKey txID docName with
  | .error err => .error err
  | .ok key =>
    match db key with
    | none => .error .notFound
    | some val => decodeContentQuarantine txID docName val

/-- A missing record and a confirmed one are left as they are. -/
def confirmContentQuarantine (txID docName : String) (confirmedAtUs : Int) :
    Except ContentQuarantineErr QuarantineStore :=
  if confirmedAtUs ≤ 0 then .error .confirmedAtRequired
  else
    match getContentQuarantine db txID docName with
    | .error .notFound => .ok db
    | .error err => .error err
    | .ok q =>
      if 0 < q.confirmedAtUs then .ok db
      else putContentQuarantine db { q with confirmedAtUs := confirmedAtUs }

def releaseContentQuarantine (txID docName : String) :
    Except ContentQuarantineErr QuarantineStore :=
  match contentQuarantineKey txID docName with
  | .error err => .error err
  | .ok key =>
    match getContentQuarantine db txID docName with
    | .error .notFound => .ok db
    | .error err => .error err
    | .ok _ => .ok (Function.update db key none)

end QuarantineStore

/-! ## Identifiers and keys -/

/-- An identity that both the API and the Projection accept. -/
def ValidIdentity (txID docName : String) : Prop :=
  TextField.Valid ⟨"transaction_id", txID, maxTransactionIDBytes, true⟩ ∧
    TextField.Valid ⟨"document_name", docName, maxDocumentNameBytes, true⟩

variable {q : ContentQuarantine} {txID docName : String}

theorem validateDocumentIdentity_ok_iff :
    validateDocumentIdentity txID docName "" = .ok () ↔ ValidIdentity txID docName := by
  have htenant : validateTextField ⟨"tenant_id", "", maxTenantIDBytes, false⟩ = .ok () := by decide
  unfold validateDocumentIdentity ValidIdentity
  rw [← validateTextField_ok_iff, ← validateTextField_ok_iff]
  cases h1 : validateTextField ⟨"transaction_id", txID, maxTransactionIDBytes, true⟩ with
  | error err => simp
  | ok u => ?_
  cases h2 : validateTextField ⟨"document_name", docName, maxDocumentNameBytes, true⟩ with
  | error err => simp
  | ok u => simp [htenant]

theorem validateContentQuarantineIdentity_ok_iff :
    validateContentQuarantineIdentity txID docName = .ok () ↔ ValidIdentity txID docName := by
  have htx : validateContentQuarantineText "transaction_id" txID =
      validateTextField ⟨"transaction_id", txID, maxTransactionIDBytes, true⟩ := rfl
  have hdoc : validateContentQuarantineText "document_name" docName =
      validateTextField ⟨"document_name", docName, maxDocumentNameBytes, true⟩ := rfl
  unfold validateContentQuarantineIdentity ValidIdentity
  rw [← validateTextField_ok_iff, ← validateTextField_ok_iff, htx, hdoc]
  cases h1 : validateTextField ⟨"transaction_id", txID, maxTransactionIDBytes, true⟩ with
  | error err => simp
  | ok u => ?_
  cases h2 : validateTextField ⟨"document_name", docName, maxDocumentNameBytes, true⟩ with
  | error err => simp
  | ok u => simp

theorem contentQuarantineKey_of_valid (h : ValidIdentity txID docName) :
    contentQuarantineKey txID docName = .ok (contentQuarantineKeyBytes txID docName) := by
  simp [contentQuarantineKey, validateContentQuarantineIdentity_ok_iff.mpr h]

theorem contentQuarantineKey_ok_iff {key : List UInt8} :
    contentQuarantineKey txID docName = .ok key ↔
      ValidIdentity txID docName ∧ key = contentQuarantineKeyBytes txID docName := by
  constructor
  · intro h
    unfold contentQuarantineKey at h
    split at h
    · cases h
    rename_i hid
    exact ⟨validateContentQuarantineIdentity_ok_iff.mp hid, (Except.ok.inj h).symm⟩
  · rintro ⟨hv, rfl⟩
    exact contentQuarantineKey_of_valid hv

theorem contentQuarantineKeyBytes_inj {txID' docName' : String} (ht : Plain txID)
    (ht' : Plain txID')
    (h : contentQuarantineKeyBytes txID docName = contentQuarantineKeyBytes txID' docName') :
    txID = txID' ∧ docName = docName' := by
  unfold contentQuarantineKeyBytes at h
  rw [List.append_assoc] at h
  obtain ⟨htx, hrest⟩ := eq_of_terminated ht ht' (by decide) (by decide)
    (List.append_cancel_left h)
  exact ⟨htx, utf8_injective (List.cons.inj hrest).2⟩

theorem decodeContentQuarantine_identity {val : List UInt8}
    (h : decodeContentQuarantine txID docName val = .ok q) :
    q.transactionID = txID ∧ q.documentName = docName := by
  unfold decodeContentQuarantine at h
  cases hver : contentQuarantineValueVersionForDecode val with
  | error err => simp [hver] at h
  | ok version => ?_
  cases hdet : readContentQuarantineInt64 ((val.drop 9).take 8) "detected_at_us" with
  | error err => simp [hver, hdet] at h
  | ok detectedAtUs => ?_
  cases hconf : readConfirmedAtUs version val with
  | error err => simp [hver, hdet, hconf] at h
  | ok confirmedAtUs => ?_
  simp only [hver, hdet, hconf] at h
  split at h
  · simp at h
  · rw [← Except.ok.inj h]
    exact ⟨rfl, rfl⟩

/-! ## The round trip -/

structure ContentQuarantine.Valid (q : ContentQuarantine) : Prop where
  identity : ValidIdentity q.transactionID q.documentName
  detected : 0 < q.detectedAtUs ∧ q.detectedAtUs ≤ maxContentQuarantineUnixMicro
  confirmed : 0 ≤ q.confirmedAtUs ∧ q.confirmedAtUs ≤ maxContentQuarantineUnixMicro
  scanType : q.scanType = contentQuarantineScanTypeInitial ∨
    q.scanType = contentQuarantineScanTypeRescan
  reason : q.reason = contentQuarantineReasonScannerDetection

theorem validateContentQuarantine_ok_iff :
    validateContentQuarantine q = .ok () ↔ q.Valid := by
  constructor
  · intro h
    unfold validateContentQuarantine at h
    split at h
    · cases h
    rename_i hid
    split_ifs at h with h1 h2 h3 h4 h5 h6
    exact ⟨validateContentQuarantineIdentity_ok_iff.mp hid, ⟨by omega, by omega⟩,
      ⟨by omega, by omega⟩, h5, not_not.mp h6⟩
  · intro h
    have hd := h.detected
    have hc := h.confirmed
    simp only [validateContentQuarantine, validateContentQuarantineIdentity_ok_iff.mpr h.identity]
    rw [if_neg (by omega), if_neg (by omega), if_neg (by omega), if_neg (by omega),
      if_neg (not_not.mpr h.scanType), if_neg (not_not.mpr h.reason)]

theorem leNat_putInt64 {v : Int} (h0 : 0 ≤ v) (hv : v ≤ maxContentQuarantineUnixMicro) :
    (leNat (putInt64 v) : Int) = v := by
  have hmax : v < 2 ^ 63 := Int.lt_of_le_of_lt hv (by decide)
  rw [putInt64, leNat_leBytes]
  omega

theorem readContentQuarantineInt64_putInt64 {v : Int} (h0 : 0 ≤ v)
    (hv : v ≤ maxContentQuarantineUnixMicro) (field : String) :
    readContentQuarantineInt64 (putInt64 v) field = .ok v := by
  have hmax : maxContentQuarantineUnixMicro < 2 ^ 63 - 1 := by decide
  have hle := leNat_putInt64 h0 hv
  unfold readContentQuarantineInt64
  rw [if_neg (by omega), hle]

@[simp] theorem length_putInt64 (v : Int) : (putInt64 v).length = 8 := length_leBytes _ _

theorem decodeContentQuarantine_encode (h : q.Valid) :
    decodeContentQuarantine q.transactionID q.documentName (encodeContentQuarantine q) = .ok q := by
  have hver : contentQuarantineValueVersionForDecode (encodeContentQuarantine q) =
      .ok contentQuarantineValueVersion := by
    simp [contentQuarantineValueVersionForDecode, encodeContentQuarantine,
      contentQuarantineValueVersion, contentQuarantineValueVersionV1, contentQuarantineValueLen]
  have hblock : ((encodeContentQuarantine q).drop 1).take 8 = leBytes 8 q.blockID.toNat := by
    simp [encodeContentQuarantine]
  have hdet : ((encodeContentQuarantine q).drop 9).take 8 = putInt64 q.detectedAtUs := by
    simp [encodeContentQuarantine]
  have hconf : ((encodeContentQuarantine q).drop 19).take 8 = putInt64 q.confirmedAtUs := by
    simp [encodeContentQuarantine, List.drop_append, List.drop_eq_nil_of_le, List.take_of_length_le]
  have hscan : ((encodeContentQuarantine q).drop 17).headD 0 = q.scanType := by
    simp [encodeContentQuarantine]
  have hreason : ((encodeContentQuarantine q).drop 18).headD 0 = q.reason := by
    simp [encodeContentQuarantine]
  have hread : readConfirmedAtUs contentQuarantineValueVersion (encodeContentQuarantine q) =
      .ok q.confirmedAtUs := by
    rw [readConfirmedAtUs, if_pos rfl]
    exact readContentQuarantineInt64_putInt64 h.confirmed.1 h.confirmed.2 _
  have hblockID : UInt64.ofNat (leNat (leBytes 8 q.blockID.toNat)) = q.blockID := by simp
  simp only [decodeContentQuarantine, hver, hdet, hread, hblock, hscan, hreason, hblockID,
    readContentQuarantineInt64_putInt64 (Int.le_of_lt h.detected.1) h.detected.2,
    validateContentQuarantine_ok_iff.mpr h]

theorem putContentQuarantine_of_valid (db : QuarantineStore) (h : q.Valid) :
    db.putContentQuarantine q =
      .ok (Function.update db (contentQuarantineKeyBytes q.transactionID q.documentName)
        (some (encodeContentQuarantine q))) := by
  simp [QuarantineStore.putContentQuarantine, contentQuarantineKey_of_valid h.identity,
    validateContentQuarantine_ok_iff.mpr h]

theorem putContentQuarantine_ok {db db' : QuarantineStore}
    (h : db.putContentQuarantine q = .ok db') : q.Valid := by
  unfold QuarantineStore.putContentQuarantine at h
  cases hkey : contentQuarantineKey q.transactionID q.documentName with
  | error err => simp [hkey] at h
  | ok key => ?_
  cases hval : validateContentQuarantine q with
  | error err => simp [hkey, hval] at h
  | ok u => exact validateContentQuarantine_ok_iff.mp hval

end Scrap
