/-
# The upload outbox on the apply path

A closed Block whose `.idx` changes must be uploaded again, so the apply of a command that touches
one writes a pending-upload record (`requeueBlockUploadAfterIndexAppend`). `applySealBlock` and
`applyConfirmUpload` are the two commands of the outbox itself; either closes the Block it names
when that Block is still open here.

The in-memory obligation list, the pressure gauge and the notifications are left out: no apply reads
them.
-/
import Scrap.Shard.State

namespace Scrap

open Block Fallible

structure SealBlock where
  blockID : UInt64
  shardID : UInt64
  sealedSizeBytes : Int
  sealedAtUs : Int
deriving DecidableEq

structure ConfirmUpload where
  blockID : UInt64
  shardID : UInt64
  confirmedAtUs : Int
  blockObject : BackendObjectMetadata
  indexObject : BackendObjectMetadata
  uploadGeneration : Int
deriving DecidableEq

/-- The Raft index of the entry, or `fallback` when it is no positive `int64`. -/
def uploadGenerationFromApplyIndex (entryIndex : UInt64) (fallback : Int) : Int :=
  if 0 < entryIndex.toNat ∧ entryIndex.toNat ≤ maxInt64 then entryIndex.toNat else fallback

/-! ## Requeue of a closed Block -/

/-- The size to upload: of the `.blk` file, or what the pending or confirmed record remembers. -/
def Shard.sealedSizeForUploadRequeue (s : Shard) (blockID : UInt64) : Except ShardErr Int :=
  match (s.blocks blockID).blk with
  | some f => .ok f.size
  | none =>
    match s.idx.getPendingUpload blockID with
    | .ok pending => .ok pending.sealedSizeBytes
    | .error .pendingNotFound =>
      match s.idx.getConfirmedUpload blockID with
      | .ok confirmed => .ok confirmed.sealedSizeBytes
      | .error .confirmedNotFound => .error .statHistoricalBlock
      | .error err => .error (.confirmedUploadSize err)
    | .error err => .error (.pendingUploadSize err)

def requeueBlockUploadAfterIndexAppend (blockID : UInt64) (uploadGeneration : Int) :
    ShardM Unit := do
  let s ← get
  if s.uploadEnabled then
    match s.sealedSizeForUploadRequeue blockID with
    | .error err => throw err
    | .ok sealedSize =>
      match s.idx.putPendingUpload
          ⟨blockID, s.shardID, sealedSize, uploadGeneration, uploadGeneration⟩ with
      | .error err => throw (.requeueBlockUpload err)
      | .ok idx => set { s with idx := idx }

/-! ## SealBlock -/

/-- A pending record that already has a generation is kept. -/
def Index.applyCommittedSeal (idx : Index) (sealCmd : SealBlock) : Except ShardErr Index :=
  let put : Except ShardErr Index :=
    match idx.putPendingUpload
        ⟨sealCmd.blockID, sealCmd.shardID, sealCmd.sealedSizeBytes, sealCmd.sealedAtUs, 0⟩ with
    | .error err => .error (.upload err)
    | .ok idx' => .ok idx'
  match idx.getPendingUpload sealCmd.blockID with
  | .ok pending => if 0 < pending.uploadGeneration then .ok idx else put
  | .error .pendingNotFound => put
  | .error err => .error (.upload err)

/-- Close the Block if it is the open one and open the next. -/
def Shard.closeIfOpen (s : Shard) (blockID : UInt64) : Shard :=
  if s.isOpen blockID then s.openNewBlock else s

def applySealBlock (sealCmd : SealBlock) : ShardM Unit := do
  let s ← get
  match s.idx.applyCommittedSeal sealCmd with
  | .error err => throw err
  | .ok idx => set (Shard.closeIfOpen { s with idx := idx } sealCmd.blockID)

/-! ## ConfirmUpload -/

/-- How `applyCommittedConfirm` can fail, as the caller tells the cases apart. -/
inductive ConfirmErr where
  /-- `errConfirmUploadGenerationMismatch` -/
  | generationMismatch
  /-- `ErrPendingUploadNotFound` or `errConfirmUploadSealedMetadataMismatch` -/
  | unsafeCatalog
  /-- the authority record does not pass its own checks -/
  | authorityInvalid (field : String)
  | upload (err : UploadErr)
deriving DecidableEq

def confirmedUploadFromCommand (c : ConfirmUpload) (sealedSize : Int) : ConfirmedUpload :=
  ⟨c.blockID, c.shardID, c.confirmedAtUs, sealedSize, c.uploadGeneration, c.blockObject,
    c.indexObject⟩

def validateConfirmedUploadAuthorityObject (kind : String) (m : BackendObjectMetadata) :
    Except ConfirmErr Unit :=
  if m.key = "" then .error (.authorityInvalid (kind ++ " object key"))
  else if m.sizeBytes < 0 then .error (.authorityInvalid (kind ++ " object size_bytes"))
  else if m.validationToken = "" then
    .error (.authorityInvalid (kind ++ " object validation_token"))
  else .ok ()

/-- The marker header matches by construction, but a marker needs a nonzero Block ID. -/
def validateConfirmedUploadAuthorityRecord (u : ConfirmedUpload) : Except ConfirmErr Unit :=
  if u.blockID = 0 then .error (.authorityInvalid "block_id")
  else if u.confirmedAtUs < 0 then .error (.authorityInvalid "confirmed_at_us")
  else if u.sealedSizeBytes < 0 then .error (.authorityInvalid "sealed_size_bytes")
  else if u.uploadGeneration < 0 then .error (.authorityInvalid "upload_generation")
  else
    match validateConfirmedUploadAuthorityObject "block" u.blockObject with
    | .error err => .error err
    | .ok () => validateConfirmedUploadAuthorityObject "index" u.indexObject

/-- The authority file first, then the catalog. -/
def Shard.putConfirmedUploadFromCommand (s : Shard) (c : ConfirmUpload) (sealedSize : Int) :
    Except ConfirmErr Unit × Shard :=
  let u := confirmedUploadFromCommand c sealedSize
  if u.blockObject.sizeBytes ≠ u.sealedSizeBytes then (.error .unsafeCatalog, s)
  else
    match validateConfirmedUploadAuthorityRecord u with
    | .error err => (.error err, s)
    | .ok () =>
      let s' := s.setBlock c.blockID
        { s.blocks c.blockID with confirmedUploadAuthority := some u }
      match s'.idx.putConfirmedUpload u with
      | .error err => (.error (.upload err), s')
      | .ok idx => (.ok (), { s' with idx := idx })

def Shard.applyConfirmWithoutPending (s : Shard) (c : ConfirmUpload) :
    Except ConfirmErr Unit × Shard :=
  match s.idx.getConfirmedUpload c.blockID with
  | .error .confirmedNotFound => (.error .unsafeCatalog, s)
  | .error err => (.error (.upload err), s)
  | .ok existing =>
    if existing.uploadGeneration ≠ c.uploadGeneration then (.error .generationMismatch, s)
    else s.putConfirmedUploadFromCommand c existing.sealedSizeBytes

def Shard.applyCommittedConfirm (s : Shard) (c : ConfirmUpload) :
    Except ConfirmErr Unit × Shard :=
  match s.idx.getPendingUpload c.blockID with
  | .error .pendingNotFound => s.applyConfirmWithoutPending c
  | .error err => (.error (.upload err), s)
  | .ok pending =>
    if pending.uploadGeneration ≠ c.uploadGeneration then (.error .generationMismatch, s)
    else
      match s.putConfirmedUploadFromCommand c pending.sealedSizeBytes with
      | (.error err, s') => (.error err, s')
      | (.ok (), s') =>
        match s'.idx.deletePendingUpload c.blockID with
        | .error err => (.error (.upload err), s')
        | .ok idx => (.ok (), { s' with idx := idx })

/-- A stale generation is skipped; a catalog that cannot be trusted closes the Block, clears the
pending record and is skipped too. -/
def applyConfirmUpload (c : ConfirmUpload) : ShardM Unit := do
  let s ← get
  match s.applyCommittedConfirm c with
  | (.ok (), s') => set (s'.closeIfOpen c.blockID)
  | (.error .generationMismatch, s') => set s'
  | (.error .unsafeCatalog, s') =>
    let s'' := s'.closeIfOpen c.blockID
    match s''.idx.deletePendingUpload c.blockID with
    | .error err => do
        set s''
        throw (.upload err)
    | .ok idx => set { s'' with idx := idx }
  | (.error (.authorityInvalid field), s') => do
      set s'
      throw (.confirmAuthority field)
  | (.error (.upload err), s') => do
      set s'
      throw (.upload err)

/-! ## What a confirm does -/

/-- The two validations agree, so a confirm that wrote the authority file also gets into the
catalog. -/
theorem validateConfirmedUpload_of_authority {u : ConfirmedUpload}
    (h : validateConfirmedUploadAuthorityRecord u = .ok ()) : validateConfirmedUpload u = .ok () := by
  have hobj : ∀ kind m, validateConfirmedUploadAuthorityObject kind m = .ok () →
      validateBackendObjectMetadata kind m = .ok () := by
    intro kind m hm
    unfold validateConfirmedUploadAuthorityObject at hm
    unfold validateBackendObjectMetadata
    split_ifs at hm ⊢
    rfl
  unfold validateConfirmedUploadAuthorityRecord at h
  unfold validateConfirmedUpload
  split_ifs at h ⊢
  split at h
  · cases h
  rename_i hblk
  simp only [hobj _ _ hblk]
  exact hobj _ _ h

theorem validateConfirmedUploadAuthorityRecord_error {u : ConfirmedUpload} {err : ConfirmErr}
    (h : validateConfirmedUploadAuthorityRecord u = .error err) :
    ∃ field, err = .authorityInvalid field := by
  have hobj : ∀ kind m e, validateConfirmedUploadAuthorityObject kind m = .error e →
      ∃ field, e = .authorityInvalid field := by
    intro kind m e hm
    unfold validateConfirmedUploadAuthorityObject at hm
    split_ifs at hm
    all_goals exact ⟨_, (Except.error.inj hm).symm⟩
  unfold validateConfirmedUploadAuthorityRecord at h
  split_ifs at h
  case neg =>
      cases hblk : validateConfirmedUploadAuthorityObject "block" u.blockObject with
      | error e =>
        simp only [hblk, Except.error.injEq] at h
        exact h ▸ hobj _ _ _ hblk
      | ok v =>
        simp only [hblk] at h
        exact hobj _ _ _ h
  all_goals exact ⟨_, (Except.error.inj h).symm⟩

/-- The record that a confirm puts for a Block of this size. -/
def ConfirmUpload.record (c : ConfirmUpload) (sealedSize : Int) :
    Except ConfirmErr ConfirmedUpload :=
  let u := confirmedUploadFromCommand c sealedSize
  if u.blockObject.sizeBytes ≠ u.sealedSizeBytes then .error .unsafeCatalog
  else (validateConfirmedUploadAuthorityRecord u).map fun _ => u

def Index.confirmRecord (idx : Index) (c : ConfirmUpload) : Except ConfirmErr ConfirmedUpload :=
  match idx.getPendingUpload c.blockID with
  | .error .pendingNotFound =>
    match idx.getConfirmedUpload c.blockID with
    | .error .confirmedNotFound => .error .unsafeCatalog
    | .error err => .error (.upload err)
    | .ok existing =>
      if existing.uploadGeneration ≠ c.uploadGeneration then .error .generationMismatch
      else c.record existing.sealedSizeBytes
  | .error err => .error (.upload err)
  | .ok pending =>
    if pending.uploadGeneration ≠ c.uploadGeneration then .error .generationMismatch
    else c.record pending.sealedSizeBytes

def Shard.withPending (s : Shard) (p : UInt64 → Option PendingUpload) : Shard :=
  { s with idx := { s.idx with pendingUploads := p } }

def Shard.putConfirmed (s : Shard) (u : ConfirmedUpload) : Shard :=
  { s.setBlock u.blockID { s.blocks u.blockID with confirmedUploadAuthority := some u } with
    idx := { s.idx with
      confirmedUploads := Function.update s.idx.confirmedUploads u.blockID (some u) } }

def Shard.withoutPending (s : Shard) (b : UInt64) : Shard :=
  s.withPending (Function.update s.idx.pendingUploads b none)

section Confirm

variable (s : Shard) (c : ConfirmUpload)

theorem Shard.putConfirmedUploadFromCommand_eq (n : Int) :
    s.putConfirmedUploadFromCommand c n = match c.record n with
      | .error err => (.error err, s)
      | .ok u => (.ok (), s.putConfirmed u) := by
  unfold Shard.putConfirmedUploadFromCommand ConfirmUpload.record
  simp only
  split
  · rfl
  cases hv : validateConfirmedUploadAuthorityRecord (confirmedUploadFromCommand c n) with
  | error err => rfl
  | ok v =>
    simp only [Index.putConfirmedUpload, validateConfirmedUpload_of_authority hv, Except.map]
    rfl

theorem ConfirmUpload.record_cases (n : Int) :
    (c.record n = .ok (confirmedUploadFromCommand c n) ∧ c.blockObject.sizeBytes = n ∧
        validateConfirmedUploadAuthorityRecord (confirmedUploadFromCommand c n) = .ok ()) ∨
      (c.record n = .error .unsafeCatalog ∧ c.blockObject.sizeBytes ≠ n) ∨
      ∃ field, c.record n = .error (.authorityInvalid field) := by
  simp only [ConfirmUpload.record]
  split
  · next hsize => exact .inr (.inl ⟨rfl, hsize⟩)
  next hsize =>
    cases hv : validateConfirmedUploadAuthorityRecord (confirmedUploadFromCommand c n) with
    | error err =>
      obtain ⟨field, rfl⟩ := validateConfirmedUploadAuthorityRecord_error hv
      exact .inr (.inr ⟨field, rfl⟩)
    | ok v => exact .inl ⟨rfl, not_not.mp hsize, rfl⟩

theorem Index.confirmRecord_ok {idx : Index} {c : ConfirmUpload} {u : ConfirmedUpload}
    (h : idx.confirmRecord c = .ok u) :
    (∃ n, u = confirmedUploadFromCommand c n) ∧
      validateConfirmedUploadAuthorityRecord u = .ok () := by
  have hrec : ∀ {n}, c.record n = .ok u → (∃ n, u = confirmedUploadFromCommand c n) ∧
      validateConfirmedUploadAuthorityRecord u = .ok () := by
    intro n hn
    rcases c.record_cases n with ⟨hr, -, hv⟩ | ⟨hr, -⟩ | ⟨field, hr⟩
    · cases hr.symm.trans hn
      exact ⟨⟨n, rfl⟩, hv⟩
    · cases hr.symm.trans hn
    · cases hr.symm.trans hn
  unfold Index.confirmRecord at h
  split at h
  · split at h
    · cases h
    · cases h
    · split at h
      · cases h
      · exact hrec h
  · cases h
  · split at h
    · cases h
    · exact hrec h

theorem Shard.applyCommittedConfirm_eq :
    s.applyCommittedConfirm c = match s.idx.confirmRecord c with
      | .error err => (.error err, s)
      | .ok u => (.ok (), (s.putConfirmed u).withoutPending c.blockID) := by
  unfold Shard.applyCommittedConfirm Shard.applyConfirmWithoutPending Index.confirmRecord
    Index.getPendingUpload Index.getConfirmedUpload
  by_cases hb : c.blockID = 0
  · simp [hb]
  simp only [if_neg hb]
  cases hp : s.idx.pendingUploads c.blockID with
  | none =>
    have hsame : ∀ u, (s.putConfirmed u).withoutPending c.blockID = s.putConfirmed u := by
      intro u
      simp [Shard.withoutPending, Shard.withPending, Shard.putConfirmed, Function.update_eq_self_iff, hp]
    cases s.idx.confirmedUploads c.blockID with
    | none => rfl
    | some q =>
      simp only [s.putConfirmedUploadFromCommand_eq c, hsame]
      split <;> rfl
  | some p =>
    simp only [s.putConfirmedUploadFromCommand_eq c]
    split
    · rfl
    · cases c.record p.sealedSizeBytes with
      | error err => rfl
      | ok u => simp [Index.deletePendingUpload, hb, Shard.withoutPending, Shard.withPending]

theorem applyConfirmUpload_run :
    (applyConfirmUpload c).run s = match s.idx.confirmRecord c with
      | .ok u => .ok () (((s.putConfirmed u).withoutPending c.blockID).closeIfOpen c.blockID)
      | .error .generationMismatch => .ok () s
      | .error .unsafeCatalog => .ok () ((s.closeIfOpen c.blockID).withoutPending c.blockID)
      | .error (.authorityInvalid field) => .error (.confirmAuthority field) s
      | .error (.upload err) => .error (.upload err) s := by
  rw [applyConfirmUpload, get_bind, s.applyCommittedConfirm_eq c]
  by_cases hb : c.blockID = 0
  · have hzero : s.idx.confirmRecord c = .error (.upload .blockIDRequired) := by
      simp [Index.confirmRecord, Index.getPendingUpload, hb]
    rw [hzero]
    rfl
  cases s.idx.confirmRecord c with
  | ok u => rfl
  | error err => ?_
  cases err with
  | unsafeCatalog => simp [Index.deletePendingUpload, hb]; rfl
  | _ => rfl

theorem applyConfirmUpload_cases {s s' : Shard} {c : ConfirmUpload}
    (h : (applyConfirmUpload c).run s = .ok () s') :
    (∃ u, s.idx.confirmRecord c = .ok u ∧
        s' = ((s.putConfirmed u).withoutPending c.blockID).closeIfOpen c.blockID) ∨
      (s.idx.confirmRecord c = .error .generationMismatch ∧ s' = s) ∨
      (s.idx.confirmRecord c = .error .unsafeCatalog ∧
        s' = (s.closeIfOpen c.blockID).withoutPending c.blockID) := by
  rw [applyConfirmUpload_run] at h
  cases hr : s.idx.confirmRecord c with
  | ok u => exact .inl ⟨u, rfl, by simpa [hr] using h.symm⟩
  | error err => ?_
  cases err with
  | generationMismatch => exact .inr (.inl ⟨rfl, by simpa [hr] using h.symm⟩)
  | unsafeCatalog => exact .inr (.inr ⟨rfl, by simpa [hr] using h.symm⟩)
  | _ => simp [hr] at h

theorem Shard.closeIfOpen_idx (s : Shard) (b : UInt64) : (s.closeIfOpen b).idx = s.idx := by
  unfold Shard.closeIfOpen
  split
  · rfl
  · rfl

end Confirm

end Scrap
