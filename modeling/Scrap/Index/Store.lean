/-
# The Projection store

`Index` is the Pebble database behind the Projection: the encoded Transaction
records, the pending uploads and the confirmed uploads. Reads decode what was
written; every write of a Transaction record goes through `putEntry`.
-/
import Scrap.Index.Entry

namespace Scrap

structure PendingUpload where
  blockID : UInt64
  shardID : UInt64
  sealedSizeBytes : Int
  sealedAtUs : Int
  uploadGeneration : Int
deriving DecidableEq

structure BackendObjectMetadata where
  key : String
  sizeBytes : Int
  validationToken : String
deriving DecidableEq

structure ConfirmedUpload where
  blockID : UInt64
  shardID : UInt64
  confirmedAtUs : Int
  sealedSizeBytes : Int
  uploadGeneration : Int
  blockObject : BackendObjectMetadata
  indexObject : BackendObjectMetadata
deriving DecidableEq

/-- The store: Transaction records as bytes, the two upload tables by Block ID. -/
structure Index where
  txs : String → Option (List UInt8)
  pendingUploads : UInt64 → Option PendingUpload
  confirmedUploads : UInt64 → Option ConfirmedUpload

def Index.empty : Index := ⟨fun _ => none, fun _ => none, fun _ => none⟩

/-! ## Transaction records -/

def Index.get (idx : Index) (txID : String) : Except IndexErr Entry :=
  match idx.txs txID with
  | none => .error .notFound
  | some val => decodeEntry val

def Index.putEntry (idx : Index) (txID : String) (e : Entry) : Index :=
  { idx with txs := Function.update idx.txs txID (some (encodeEntry e)) }

def Index.put (idx : Index) (txID : String) (blockID : UInt64) (docCount : UInt16)
    (completed : Bool) : Index :=
  idx.putEntry txID ⟨[blockID], docCount, completed⟩

def Index.addBlockID (idx : Index) (txID : String) (blockID : UInt64) :
    Except IndexErr Index :=
  match idx.get txID with
  | .error err => .error err
  | .ok e => .ok (idx.putEntry txID { e with blockIDs := e.blockIDs ++ [blockID] })

def Index.incrementDocCount (idx : Index) (txID : String) : Except IndexErr Index :=
  match idx.get txID with
  | .error err => .error err
  | .ok e =>
    if e.docCount = maxDocCount then .error .docCountAtMaximum
    else .ok (idx.putEntry txID { e with docCount := e.docCount + 1 })

/-! ## Upload tables -/

inductive UploadErr where
  /-- `block_id is required` -/
  | blockIDRequired
  /-- a negative field -/
  | negative (field : String) (v : Int)
  /-- `ErrPendingUploadNotFound` -/
  | pendingNotFound
  /-- `ErrConfirmedUploadNotFound` -/
  | confirmedNotFound
  /-- `confirmed upload %s object key is required` -/
  | objectKeyRequired (kind : String)
  /-- `confirmed upload %s object size is negative: %d` -/
  | objectSizeNegative (kind : String) (v : Int)
  /-- `confirmed upload %s object validation token is required` -/
  | validationTokenRequired (kind : String)
deriving DecidableEq

def validatePendingUpload (u : PendingUpload) : Except UploadErr Unit :=
  if u.blockID = 0 then .error .blockIDRequired
  else if u.sealedSizeBytes < 0 then .error (.negative "sealed size" u.sealedSizeBytes)
  else if u.sealedAtUs < 0 then .error (.negative "sealed_at_us" u.sealedAtUs)
  else if u.uploadGeneration < 0 then .error (.negative "generation" u.uploadGeneration)
  else .ok ()

def Index.putPendingUpload (idx : Index) (u : PendingUpload) : Except UploadErr Index :=
  match validatePendingUpload u with
  | .error err => .error err
  | .ok () =>
    .ok { idx with pendingUploads := Function.update idx.pendingUploads u.blockID (some u) }

def Index.getPendingUpload (idx : Index) (blockID : UInt64) : Except UploadErr PendingUpload :=
  if blockID = 0 then .error .blockIDRequired
  else
    match idx.pendingUploads blockID with
    | none => .error .pendingNotFound
    | some u => .ok u

def Index.deletePendingUpload (idx : Index) (blockID : UInt64) : Except UploadErr Index :=
  if blockID = 0 then .error .blockIDRequired
  else .ok { idx with pendingUploads := Function.update idx.pendingUploads blockID none }

def validateBackendObjectMetadata (kind : String) (m : BackendObjectMetadata) :
    Except UploadErr Unit :=
  if m.key = "" then .error (.objectKeyRequired kind)
  else if m.sizeBytes < 0 then .error (.objectSizeNegative kind m.sizeBytes)
  else if m.validationToken = "" then .error (.validationTokenRequired kind)
  else .ok ()

def validateConfirmedUpload (u : ConfirmedUpload) : Except UploadErr Unit :=
  if u.blockID = 0 then .error .blockIDRequired
  else if u.confirmedAtUs < 0 then .error (.negative "confirmed_at_us" u.confirmedAtUs)
  else if u.sealedSizeBytes < 0 then .error (.negative "sealed size" u.sealedSizeBytes)
  else if u.uploadGeneration < 0 then .error (.negative "generation" u.uploadGeneration)
  else
    match validateBackendObjectMetadata "block" u.blockObject with
    | .error err => .error err
    | .ok () => validateBackendObjectMetadata "index" u.indexObject

def Index.putConfirmedUpload (idx : Index) (u : ConfirmedUpload) : Except UploadErr Index :=
  match validateConfirmedUpload u with
  | .error err => .error err
  | .ok () =>
    .ok { idx with confirmedUploads := Function.update idx.confirmedUploads u.blockID (some u) }

def Index.getConfirmedUpload (idx : Index) (blockID : UInt64) :
    Except UploadErr ConfirmedUpload :=
  if blockID = 0 then .error .blockIDRequired
  else
    match idx.confirmedUploads blockID with
    | none => .error .confirmedNotFound
    | some u => .ok u

/-! ## What a read sees after a write -/

variable {e : Entry} {idx : Index} {txID : String}

theorem Index.get_putEntry_self (idx : Index) (txID : String) (h : e.blockIDs.length < 65536) :
    (idx.putEntry txID e).get txID = .ok e := by
  simp [Index.get, Index.putEntry, decodeEntry_encodeEntry h]

theorem Index.get_putEntry_of_ne (idx : Index) {tx : String} (e : Entry) (h : tx ≠ txID) :
    (idx.putEntry txID e).get tx = idx.get tx := by
  simp [Index.get, Index.putEntry, h]

theorem Index.addBlockID_of_get (h : idx.get txID = .ok e) (blockID : UInt64) :
    idx.addBlockID txID blockID =
      .ok (idx.putEntry txID { e with blockIDs := e.blockIDs ++ [blockID] }) := by
  simp [Index.addBlockID, h]

theorem Index.incrementDocCount_of_get (h : idx.get txID = .ok e)
    (hroom : e.docCount ≠ maxDocCount) :
    idx.incrementDocCount txID = .ok (idx.putEntry txID { e with docCount := e.docCount + 1 }) := by
  simp [Index.incrementDocCount, h, hroom]

@[simp] theorem Index.putEntry_putEntry (idx : Index) (txID : String) (e e' : Entry) :
    (idx.putEntry txID e).putEntry txID e' = idx.putEntry txID e' := by
  simp [Index.putEntry]

theorem toNat_succ_docCount {c : UInt16} (h : c ≠ maxDocCount) :
    (c + 1).toNat = c.toNat + 1 := by
  have hlt := c.toNat_lt
  have hne : c.toNat ≠ 65535 := fun hc => h (UInt16.toNat_inj.mp (by rw [hc]; rfl))
  simp
  omega

/-- Every stored record decodes, lists a Block and has a Block count that fits. -/
def Index.WF (idx : Index) : Prop :=
  ∀ txID val, idx.txs txID = some val →
    ∃ e, decodeEntry val = .ok e ∧ e.blockIDs ≠ [] ∧ e.blockIDs.length < 65536

theorem Index.wf_empty : Index.WF Index.empty := by
  intro txID val h
  exact absurd h (by simp [Index.empty])

theorem Index.WF.get_eq (h : idx.WF) (txID : String) :
    idx.get txID = .error .notFound ∨
      ∃ e, idx.get txID = .ok e ∧ e.blockIDs ≠ [] ∧ e.blockIDs.length < 65536 := by
  unfold Index.get
  cases hv : idx.txs txID with
  | none => exact .inl rfl
  | some val =>
    obtain ⟨e, hd, hne, hlt⟩ := h txID val hv
    exact .inr ⟨e, hd, hne, hlt⟩

theorem Index.WF.get_congr {idx' : Index} (h : idx.WF) (h' : idx'.WF)
    (heq : (idx.get txID).toOption = (idx'.get txID).toOption) : idx.get txID = idx'.get txID := by
  rcases h.get_eq txID with hget | ⟨e, hget, -⟩
  · rcases h'.get_eq txID with hget' | ⟨e', hget', -⟩
    · rw [hget, hget']
    · simp [hget, hget', Except.toOption] at heq
  · rcases h'.get_eq txID with hget' | ⟨e', hget', -⟩
    · simp [hget, hget', Except.toOption] at heq
    · have he : e = e' := by simpa [hget, hget', Except.toOption] using heq
      rw [hget, hget', he]

theorem Index.WF.putEntry (h : idx.WF) (txID : String) (hne : e.blockIDs ≠ [])
    (hlt : e.blockIDs.length < 65536) :
    (idx.putEntry txID e).WF := by
  intro tx val hv
  by_cases htx : tx = txID
  · subst htx
    have hval : encodeEntry e = val := by simpa [Index.putEntry] using hv
    exact ⟨e, by rw [← hval]; exact decodeEntry_encodeEntry hlt, hne, hlt⟩
  · refine h tx val ?_
    simpa [Index.putEntry, htx] using hv

end Scrap
