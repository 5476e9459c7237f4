/-
# The bytes that the Projection hash covers

`StreamingHash` writes every key and its value into SHA-256, in key order and with nothing in
between, except for the scanner watermark and the durable applied index. What remains are four
kinds of records,

    0x00 "confirmed-upload" 0x00 block_id(8)   JSON object
    0x00 "tx" 0x00 transaction_id              0x01 ..., the count says how long
    0x00 "upload" 0x00 block_id(8)             0x02 and 32 bytes
    'q' 0x01 transaction_id 0x00 document_name 0x01 and 18 bytes, or 0x02 and 26

and no length is written for an identifier. The stream can still be cut in one way only: the second
byte tells the kind, a value says where it ends, and an identifier without control characters ends
at the version byte behind it (`record_unique`).

Pending uploads are held in version 2 only: a value of version 1 (25 bytes), which
`decodePendingUpload` still reads, is not among the databases here.
-/
import Scrap.Index.ContentQuarantine
import Scrap.Index.Store
import Scrap.Lib.Json

namespace Scrap

open Bytes Text Json

/-! ## Keys and values -/

/-- `binary.BigEndian.PutUint64` -/
def beBytes (v : UInt64) : List UInt8 := (leBytes 8 v.toNat).reverse

/-- `\x00tx\x00` -/
def txKeyPrefix : List UInt8 := [0x00, 0x74, 0x78, 0x00]

/-- `\x00upload\x00` -/
def pendingUploadPrefix : List UInt8 := [0x00, 0x75, 0x70, 0x6c, 0x6f, 0x61, 0x64, 0x00]

/-- `\x00confirmed-upload\x00` -/
def confirmedUploadPrefix : List UInt8 :=
  [0x00, 0x63, 0x6f, 0x6e, 0x66, 0x69, 0x72, 0x6d, 0x65, 0x64, 0x2d, 0x75, 0x70, 0x6c, 0x6f,
    0x61, 0x64, 0x00]

/-- `\x00scanner-watermark\x00` -/
def scannerWatermarkPrefix : List UInt8 :=
  [0x00, 0x73, 0x63, 0x61, 0x6e, 0x6e, 0x65, 0x72, 0x2d, 0x77, 0x61, 0x74, 0x65, 0x72, 0x6d,
    0x61, 0x72, 0x6b, 0x00]

/-- `\x00applied-index\x00` -/
def appliedIndexKey : List UInt8 :=
  [0x00, 0x61, 0x70, 0x70, 0x6c, 0x69, 0x65, 0x64, 0x2d, 0x69, 0x6e, 0x64, 0x65, 0x78, 0x00]

def txKey (txID : String) : List UInt8 := txKeyPrefix ++ utf8 txID

def pendingUploadKey (blockID : UInt64) : List UInt8 := pendingUploadPrefix ++ beBytes blockID

def confirmedUploadKey (blockID : UInt64) : List UInt8 :=
  confirmedUploadPrefix ++ beBytes blockID

def pendingUploadValueVersion : UInt8 := 0x02

def encodePendingUpload (u : PendingUpload) : List UInt8 :=
  pendingUploadValueVersion :: leBytes 8 u.shardID.toNat ++ putInt64 u.sealedSizeBytes ++
    putInt64 u.sealedAtUs ++ putInt64 u.uploadGeneration

def confirmedUploadValueVersion : Int := 1

def backendObjectMembers (m : BackendObjectMetadata) : List (String × List UInt8) :=
  [("key", jsonString m.key), ("size_bytes", jsonInt m.sizeBytes),
    ("validation_token", jsonString m.validationToken)]

def encodeBackendObjectMetadata (m : BackendObjectMetadata) : List UInt8 :=
  jsonObject (backendObjectMembers m)

def confirmedUploadMembers (u : ConfirmedUpload) : List (String × List UInt8) :=
  [("version", jsonInt confirmedUploadValueVersion),
    ("block_id", jsonInt u.blockID.toNat), ("shard_id", jsonInt u.shardID.toNat),
    ("confirmed_at_us", jsonInt u.confirmedAtUs),
    ("sealed_size_bytes", jsonInt u.sealedSizeBytes),
    ("upload_generation", jsonInt u.uploadGeneration),
    ("block_object", encodeBackendObjectMetadata u.blockObject),
    ("index_object", encodeBackendObjectMetadata u.indexObject)]

def encodeConfirmedUpload (u : ConfirmedUpload) : List UInt8 :=
  jsonObject (confirmedUploadMembers u)

/-! ## The database and the walk over it -/

/-- The Projection's database: its records, and the two entries that the hash leaves out. -/
structure ProjectionDb where
  idx : Index
  contentQuarantines : QuarantineStore
  /-- the entries under `scannerWatermarkPrefix`, by the rest of the key -/
  scannerWatermarks : List UInt8 → Option (List UInt8)
  appliedIndex : Option (List UInt8)

abbrev DbEntry := List UInt8 × List UInt8

inductive Record
  | tx (txID : String) (val : List UInt8)
  | pendingUpload (blockID : UInt64) (u : PendingUpload)
  | confirmedUpload (blockID : UInt64) (u : ConfirmedUpload)
  | contentQuarantine (key val : List UInt8)

def Record.entry : Record → DbEntry
  | .tx txID val => (txKey txID, val)
  | .pendingUpload blockID u => (pendingUploadKey blockID, encodePendingUpload u)
  | .confirmedUpload blockID u => (confirmedUploadKey blockID, encodeConfirmedUpload u)
  | .contentQuarantine key val => (key, val)

def ProjectionDb.Holds (p : ProjectionDb) : Record → Prop
  | .tx txID val => p.idx.txs txID = some val
  | .pendingUpload blockID u => p.idx.pendingUploads blockID = some u
  | .confirmedUpload blockID u => p.idx.confirmedUploads blockID = some u
  | .contentQuarantine key val => p.contentQuarantines key = some val

inductive ProjectionDb.Entry (p : ProjectionDb) : DbEntry → Prop
  | record (r : Record) : p.Holds r → p.Entry r.entry
  | scannerWatermark (rest val : List UInt8) :
      p.scannerWatermarks rest = some val → p.Entry (scannerWatermarkPrefix ++ rest, val)
  | appliedIndex (val : List UInt8) :
      p.appliedIndex = some val → p.Entry (appliedIndexKey, val)

/-- A walk of Pebble's iterator: every entry once, in the order of the keys. -/
structure ProjectionDb.Walk (p : ProjectionDb) (walk : List DbEntry) : Prop where
  mem_iff : ∀ e, e ∈ walk ↔ p.Entry e
  ascending : walk.Pairwise (fun a b => a.1 < b.1)

def skipped (e : DbEntry) : Bool :=
  scannerWatermarkPrefix.isPrefixOf e.1 || e.1 = appliedIndexKey

/-- What `StreamingHash` writes into SHA-256. -/
def hashedStream (walk : List DbEntry) : List UInt8 :=
  (walk.filter (fun e => !skipped e)).flatMap (fun e => e.1 ++ e.2)

/-! ## Well-formed Projections -/

def FitsInt64 (v : Int) : Prop := -2 ^ 63 ≤ v ∧ v < 2 ^ 63

instance (v : Int) : Decidable (FitsInt64 v) := inferInstanceAs (Decidable (_ ∧ _))

def PendingUpload.Fits (u : PendingUpload) : Prop :=
  FitsInt64 u.sealedSizeBytes ∧ FitsInt64 u.sealedAtUs ∧ FitsInt64 u.uploadGeneration

/-- Transaction and content-quarantine values decode, an upload stands under its own Block ID with
fields that fit, and the identifiers have no control characters. -/
def Record.Valid : Record → Prop
  | .tx txID val => Plain txID ∧ ∃ e, decodeEntry val = .ok e
  | .pendingUpload blockID u => u.blockID = blockID ∧ u.Fits
  | .confirmedUpload blockID u => u.blockID = blockID
  | .contentQuarantine key val =>
    ∃ txID docName q, key = contentQuarantineKeyBytes txID docName ∧ Plain txID ∧
      Plain docName ∧ decodeContentQuarantine txID docName val = .ok q

def ProjectionDb.WellFormed (p : ProjectionDb) : Prop := ∀ r, p.Holds r → r.Valid

/-! ## Cutting the stream, one kind of record at a time -/

@[simp] theorem length_beBytes (v : UInt64) : (beBytes v).length = 8 := by simp [beBytes]

theorem beBytes_injective : Function.Injective beBytes := by
  intro v w h
  have hle : leBytes 8 v.toNat = leBytes 8 w.toNat := List.reverse_inj.mp h
  have hnat := congrArg leNat hle
  rw [leNat_uint64, leNat_uint64] at hnat
  exact UInt64.toNat_inj.mp hnat

variable {q : ContentQuarantine} {walk : List DbEntry} {r s v w val : List UInt8}

theorem length_of_decodeEntry {e : Entry} (h : decodeEntry val = .ok e) :
    val.head? = some valueVersion ∧
      val.length = headerLen + sizeBlockID * leNat ((val.drop 1).take 2) + trailerLen := by
  simp only [decodeEntry] at h
  split_ifs at h with h1 h2 h3
  refine ⟨?_, not_not.mp h3⟩
  cases val with
  | nil => exact absurd (by decide) h1
  | cons b val => exact congrArg some (not_not.mp h2)

theorem txValue_unique {e e' : Entry} (hv : decodeEntry v = .ok e) (hw : decodeEntry w = .ok e')
    (h : v ++ r = w ++ s) : v = w ∧ r = s := by
  obtain ⟨-, hlv⟩ := length_of_decodeEntry hv
  obtain ⟨-, hlw⟩ := length_of_decodeEntry hw
  have hhead : ∀ x : List UInt8, ∀ q, 3 ≤ x.length →
      ((x ++ q).drop 1).take 2 = (x.drop 1).take 2 := by
    intro x q hx
    rw [List.drop_append_of_le_length (by omega), List.take_append_of_le_length (by simp; omega)]
  have hcount : leNat ((v.drop 1).take 2) = leNat ((w.drop 1).take 2) := by
    rw [← hhead v r (by simp only [headerLen] at hlv; omega),
      ← hhead w s (by simp only [headerLen] at hlw; omega), h]
  exact List.append_inj h (by rw [hlv, hlw, hcount])

theorem cons_of_decodeEntry {e : Entry} (h : decodeEntry val = .ok e) :
    ∃ rest, val = valueVersion :: rest := by
  obtain ⟨hhead, -⟩ := length_of_decodeEntry h
  cases val with
  | nil => simp at hhead
  | cons b rest => exact ⟨rest, by rw [Option.some.inj hhead]⟩

theorem tx_unique {txID txID' : String} {e e' : Entry} (ht : Plain txID) (ht' : Plain txID')
    (hv : decodeEntry v = .ok e) (hw : decodeEntry w = .ok e')
    (h : txKey txID ++ v ++ r = txKey txID' ++ w ++ s) : txID = txID' ∧ v = w ∧ r = s := by
  obtain ⟨v', hv'⟩ := cons_of_decodeEntry hv
  obtain ⟨w', hw'⟩ := cons_of_decodeEntry hw
  simp only [txKey, List.append_assoc] at h
  have h' := List.append_cancel_left h
  rw [hv', hw', List.cons_append, List.cons_append] at h'
  obtain ⟨htx, hrest⟩ := eq_of_terminated ht ht' (by decide) (by decide) h'
  rw [← List.cons_append, ← List.cons_append, ← hv', ← hw'] at hrest
  exact ⟨htx, txValue_unique hv hw hrest⟩

@[simp] theorem length_encodePendingUpload (u : PendingUpload) :
    (encodePendingUpload u).length = 33 := by simp [encodePendingUpload]

theorem putInt64_inj {v w : Int} (hv : FitsInt64 v) (hw : FitsInt64 w)
    (h : putInt64 v = putInt64 w) : v = w := by
  have hnat := congrArg leNat h
  simp only [putInt64] at hnat
  rw [leNat_leBytes_of_lt (by omega), leNat_leBytes_of_lt (by omega)] at hnat
  obtain ⟨hv1, hv2⟩ := hv
  obtain ⟨hw1, hw2⟩ := hw
  omega

theorem encodePendingUpload_inj {u u' : PendingUpload} (hu : u.Fits) (hu' : u'.Fits)
    (hid : u.blockID = u'.blockID) (h : encodePendingUpload u = encodePendingUpload u') :
    u = u' := by
  simp only [encodePendingUpload, List.cons_append, List.append_assoc, List.cons.injEq,
    true_and] at h
  obtain ⟨hshard, h1⟩ := List.append_inj h (by simp)
  obtain ⟨hsize, h2⟩ := List.append_inj h1 (by simp)
  obtain ⟨hat, hgen⟩ := List.append_inj h2 (by simp)
  have hshard' := congrArg leNat hshard
  rw [leNat_uint64, leNat_uint64] at hshard'
  cases u
  cases u'
  simp only [PendingUpload.mk.injEq]
  exact ⟨hid, UInt64.toNat_inj.mp hshard', putInt64_inj hu.1 hu'.1 hsize,
    putInt64_inj hu.2.1 hu'.2.1 hat, putInt64_inj hu.2.2 hu'.2.2 hgen⟩

theorem pendingUpload_unique {b b' : UInt64} {u u' : PendingUpload} (hu : u.blockID = b ∧ u.Fits)
    (hu' : u'.blockID = b' ∧ u'.Fits)
    (h : pendingUploadKey b ++ encodePendingUpload u ++ r =
      pendingUploadKey b' ++ encodePendingUpload u' ++ s) : b = b' ∧ u = u' ∧ r = s := by
  simp only [pendingUploadKey, List.append_assoc] at h
  obtain ⟨hb, h1⟩ := List.append_inj (List.append_cancel_left h) (by simp)
  obtain ⟨henc, hr⟩ := List.append_inj h1 (by simp)
  have hid : u.blockID = u'.blockID := by rw [hu.1, hu'.1, beBytes_injective hb]
  exact ⟨beBytes_injective hb, encodePendingUpload_inj hu.2 hu'.2 hid henc, hr⟩

theorem backendObjectMembers_json (m : BackendObjectMetadata) :
    ∀ x ∈ backendObjectMembers m, JsonValue x.2 := by
  simp only [backendObjectMembers, List.forall_mem_cons, List.not_mem_nil, false_implies,
    implies_true, and_true]
  exact ⟨.string _, .int _, .string _⟩

theorem encodeBackendObjectMetadata_injective :
    Function.Injective encodeBackendObjectMetadata := by
  intro m m' h
  have hstream : jsonObject (backendObjectMembers m) ++ [] =
      jsonObject (backendObjectMembers m') ++ [] := congrArg (· ++ []) h
  have hms := (jsonObject_unique (backendObjectMembers_json m) (backendObjectMembers_json m')
    hstream).1
  simp only [backendObjectMembers, List.cons.injEq, Prod.mk.injEq, true_and, and_true] at hms
  obtain ⟨hkey, hsize, htoken⟩ := hms
  have hstr : ∀ s t : String, jsonString s = jsonString t → s = t :=
    fun s t hst => (jsonString_inj (congrArg (· ++ []) hst)).1
  cases m
  cases m'
  simp only [BackendObjectMetadata.mk.injEq]
  exact ⟨hstr _ _ hkey, jsonInt_injective hsize, hstr _ _ htoken⟩

theorem confirmedUploadMembers_json (u : ConfirmedUpload) :
    ∀ x ∈ confirmedUploadMembers u, JsonValue x.2 := by
  simp only [confirmedUploadMembers, List.forall_mem_cons, List.not_mem_nil, false_implies,
    implies_true, and_true]
  exact ⟨.int _, .int _, .int _, .int _, .int _, .int _, .object _ (backendObjectMembers_json _),
    .object _ (backendObjectMembers_json _)⟩

theorem confirmedUploadMembers_injective : Function.Injective confirmedUploadMembers := by
  intro u u' h
  simp only [confirmedUploadMembers, List.cons.injEq, Prod.mk.injEq, true_and, and_true] at h
  obtain ⟨hblock, hshard, hat, hsize, hgen, hbo, hio⟩ := h
  have hnat : ∀ m n : UInt64, jsonInt m.toNat = jsonInt n.toNat → m = n :=
    fun m n hmn => UInt64.toNat_inj.mp (Int.ofNat.inj (jsonInt_injective hmn))
  cases u
  cases u'
  simp only [ConfirmedUpload.mk.injEq]
  exact ⟨hnat _ _ hblock, hnat _ _ hshard, jsonInt_injective hat, jsonInt_injective hsize,
    jsonInt_injective hgen, encodeBackendObjectMetadata_injective hbo,
    encodeBackendObjectMetadata_injective hio⟩

theorem confirmedUpload_unique {b b' : UInt64} {u u' : ConfirmedUpload}
    (h : confirmedUploadKey b ++ encodeConfirmedUpload u ++ r =
      confirmedUploadKey b' ++ encodeConfirmedUpload u' ++ s) : b = b' ∧ u = u' ∧ r = s := by
  simp only [confirmedUploadKey, List.append_assoc] at h
  obtain ⟨hb, h'⟩ := List.append_inj (List.append_cancel_left h) (by simp)
  obtain ⟨hu, hr⟩ := jsonObject_unique (confirmedUploadMembers_json u)
    (confirmedUploadMembers_json u') h'
  exact ⟨beBytes_injective hb, confirmedUploadMembers_injective hu, hr⟩

theorem version_of_decodeContentQuarantine {txID docName : String}
    (h : decodeContentQuarantine txID docName val = .ok q) :
    ∃ version rest, val = version :: rest ∧
      (version = contentQuarantineValueVersionV1 ∧ val.length = contentQuarantineValueLenV1 ∨
        version = contentQuarantineValueVersion ∧ val.length = contentQuarantineValueLen) := by
  have hver : ∃ version, contentQuarantineValueVersionForDecode val = .ok version := by
    cases hv : contentQuarantineValueVersionForDecode val with
    | error err => simp [decodeContentQuarantine, hv] at h
    | ok version => exact ⟨version, rfl⟩
  obtain ⟨version, hver⟩ := hver
  cases val with
  | nil => simp [contentQuarantineValueVersionForDecode] at hver
  | cons b rest => ?_
  refine ⟨b, rest, rfl, ?_⟩
  simp only [contentQuarantineValueVersionForDecode] at hver
  split_ifs at hver with h1 h2 h3 h4
  · exact .inl ⟨h1, not_not.mp h2⟩
  · exact .inr ⟨h3, not_not.mp h4⟩

theorem quarantineValue_unique {t d t' d' : String} {q' : ContentQuarantine}
    (hv : decodeContentQuarantine t d v = .ok q) (hw : decodeContentQuarantine t' d' w = .ok q')
    (h : v ++ r = w ++ s) : v = w ∧ r = s := by
  obtain ⟨b, v', rfl, hlv⟩ := version_of_decodeContentQuarantine hv
  obtain ⟨b', w', rfl, hlw⟩ := version_of_decodeContentQuarantine hw
  have hbb : b = b' := (List.cons.inj h).1
  refine List.append_inj h ?_
  rcases hlv with ⟨rfl, hlv⟩ | ⟨rfl, hlv⟩
  · rcases hlw with ⟨-, hlw⟩ | ⟨rfl, -⟩
    · rw [hlv, hlw]
    · exact absurd hbb (by decide)
  · rcases hlw with ⟨rfl, -⟩ | ⟨-, hlw⟩
    · exact absurd hbb (by decide)
    · rw [hlv, hlw]

theorem contentQuarantine_unique {t d t' d' : String} {q' : ContentQuarantine} (ht : Plain t)
    (hd : Plain d) (ht' : Plain t') (hd' : Plain d') (hv : decodeContentQuarantine t d v = .ok q)
    (hw : decodeContentQuarantine t' d' w = .ok q')
    (h : contentQuarantineKeyBytes t d ++ v ++ r = contentQuarantineKeyBytes t' d' ++ w ++ s) :
    t = t' ∧ d = d' ∧ v = w ∧ r = s := by
  simp only [contentQuarantineKeyBytes, List.append_assoc] at h
  obtain ⟨htt, hrest⟩ := eq_of_terminated ht ht' (by decide) (by decide)
    (List.append_cancel_left h)
  have hrest' := (List.cons.inj hrest).2
  -- the document name ends at the version byte
  obtain ⟨b, v', hvb, hlv⟩ := version_of_decodeContentQuarantine hv
  obtain ⟨b', w', hwb, hlw⟩ := version_of_decodeContentQuarantine hw
  have hlow : ∀ {c : UInt8} {n : Nat}, (c = contentQuarantineValueVersionV1 ∧
      n = contentQuarantineValueLenV1 ∨ c = contentQuarantineValueVersion ∧
      n = contentQuarantineValueLen) → c.toNat < 0x20 := by
    rintro c n (⟨rfl, -⟩ | ⟨rfl, -⟩) <;> decide
  rw [hvb, hwb, List.cons_append, List.cons_append] at hrest'
  obtain ⟨hdd, hvals⟩ := eq_of_terminated hd hd' (hlow hlv) (hlow hlw) hrest'
  rw [← List.cons_append, ← List.cons_append, ← hvb, ← hwb] at hvals
  exact ⟨htt, hdd, quarantineValue_unique hv hw hvals⟩

/-! ## Cutting the stream -/

/-- The first two bytes of an entry tell its kind. -/
def kind (e : DbEntry) : List UInt8 := e.1.take 2

theorem kind_eq {e e' : DbEntry} (he : 2 ≤ e.1.length) (he' : 2 ≤ e'.1.length)
    (h : e.1 ++ e.2 ++ r = e'.1 ++ e'.2 ++ s) : kind e = kind e' := by
  have htake := congrArg (List.take 2) h
  rwa [List.append_assoc, List.append_assoc, List.take_append_of_le_length he,
    List.take_append_of_le_length he'] at htake

@[simp] theorem kind_tx (txID : String) (val : List UInt8) :
    kind (Record.tx txID val).entry = [0x00, 0x74] := rfl

@[simp] theorem kind_pendingUpload (blockID : UInt64) (u : PendingUpload) :
    kind (Record.pendingUpload blockID u).entry = [0x00, 0x75] := rfl

@[simp] theorem kind_confirmedUpload (blockID : UInt64) (u : ConfirmedUpload) :
    kind (Record.confirmedUpload blockID u).entry = [0x00, 0x63] := rfl

theorem kind_contentQuarantine {key : List UInt8} (h : (Record.contentQuarantine key val).Valid) :
    kind (Record.contentQuarantine key val).entry = [0x71, 0x01] := by
  obtain ⟨txID, docName, q, rfl, -⟩ := h
  rfl

theorem Record.Valid.two_le {r : Record} (h : r.Valid) : 2 ≤ r.entry.1.length := by
  cases r with
  | tx txID val => simp [Record.entry, txKey, txKeyPrefix]
  | pendingUpload b u => simp [Record.entry, pendingUploadKey]
  | confirmedUpload b u => simp [Record.entry, confirmedUploadKey]
  | contentQuarantine key val =>
    obtain ⟨txID, docName, q, rfl, -⟩ := h
    simp [Record.entry, contentQuarantineKeyBytes, contentQuarantinePrefix]

/-- Whatever follows two records in a stream, they cannot be mistaken for each other. -/
theorem record_unique {x y : Record} (hx : x.Valid) (hy : y.Valid)
    (h : x.entry.1 ++ x.entry.2 ++ r = y.entry.1 ++ y.entry.2 ++ s) : x = y ∧ r = s := by
  have hkind := kind_eq hx.two_le hy.two_le h
  cases x with
  | tx t v =>
    cases y with
    | tx t' w =>
      obtain ⟨ht, en, hv⟩ := hx
      obtain ⟨ht', en', hw⟩ := hy
      obtain ⟨rfl, rfl, hr⟩ := tx_unique ht ht' hv hw h
      exact ⟨rfl, hr⟩
    | pendingUpload b u => exact absurd hkind (by simp)
    | confirmedUpload b u => exact absurd hkind (by simp)
    | contentQuarantine k w => exact absurd hkind (by simp [kind_contentQuarantine hy])
  | pendingUpload b u =>
    cases y with
    | tx t w => exact absurd hkind (by simp)
    | pendingUpload b' u' =>
      obtain ⟨rfl, rfl, hr⟩ := pendingUpload_unique hx hy h
      exact ⟨rfl, hr⟩
    | confirmedUpload b' u' => exact absurd hkind (by simp)
    | contentQuarantine k w => exact absurd hkind (by simp [kind_contentQuarantine hy])
  | confirmedUpload b u =>
    cases y with
    | tx t w => exact absurd hkind (by simp)
    | pendingUpload b' u' => exact absurd hkind (by simp)
    | confirmedUpload b' u' =>
      obtain ⟨rfl, rfl, hr⟩ := confirmedUpload_unique h
      exact ⟨rfl, hr⟩
    | contentQuarantine k w => exact absurd hkind (by simp [kind_contentQuarantine hy])
  | contentQuarantine k v =>
    have hk := kind_contentQuarantine hx
    cases y with
    | tx t w => exact absurd hkind (by simp [hk])
    | pendingUpload b u => exact absurd hkind (by simp [hk])
    | confirmedUpload b u => exact absurd hkind (by simp [hk])
    | contentQuarantine k' w => ?_
    obtain ⟨t, d, q, rfl, ht, hd, hv⟩ := hx
    obtain ⟨t', d', q', rfl, ht', hd', hw⟩ := hy
    obtain ⟨rfl, rfl, rfl, hr⟩ := contentQuarantine_unique ht hd ht' hd' hv hw h
    exact ⟨rfl, hr⟩

theorem Record.Valid.entry_inj {x y : Record} (hx : x.Valid) (hy : y.Valid)
    (h : x.entry = y.entry) : x = y := by
  refine (record_unique hx hy (r := []) (s := []) ?_).1
  rw [h]

def IsRecord (e : DbEntry) : Prop := ∃ r : Record, r.Valid ∧ r.entry = e

theorem records_unique : ∀ {es es' : List DbEntry}, (∀ e ∈ es, IsRecord e) →
    (∀ e ∈ es', IsRecord e) →
    es.flatMap (fun e => e.1 ++ e.2) = es'.flatMap (fun e => e.1 ++ e.2) → es = es'
  | [], [], _, _, _ => rfl
  | [], _ :: es', _, he', h => by
    obtain ⟨⟨y, hy, rfl⟩, -⟩ := List.forall_mem_cons.mp he'
    have hnil := congrArg List.length h
    rw [List.flatMap_cons, List.length_append, List.length_append, List.flatMap_nil,
      List.length_nil] at hnil
    have htwo := hy.two_le
    omega
  | _ :: es, [], he, _, h => by
    obtain ⟨⟨x, hx, rfl⟩, -⟩ := List.forall_mem_cons.mp he
    have hnil := congrArg List.length h
    rw [List.flatMap_cons, List.length_append, List.length_append, List.flatMap_nil,
      List.length_nil] at hnil
    have htwo := hx.two_le
    omega
  | _ :: es, _ :: es', he, he', h => by
    obtain ⟨⟨x, hx, rfl⟩, hes⟩ := List.forall_mem_cons.mp he
    obtain ⟨⟨y, hy, rfl⟩, hes'⟩ := List.forall_mem_cons.mp he'
    rw [List.flatMap_cons, List.flatMap_cons] at h
    obtain ⟨rfl, hrest⟩ := record_unique hx hy h
    rw [records_unique hes hes' hrest]

/-! ## From the stream back to the records -/

section Records

variable {p p' : ProjectionDb}

theorem Record.Valid.not_skipped {r : Record} (h : r.Valid) : skipped r.entry = false := by
  cases r with
  | tx txID val =>
    simp [Record.entry, skipped, txKey, txKeyPrefix, scannerWatermarkPrefix, appliedIndexKey,
      List.isPrefixOf]
  | pendingUpload b u =>
    simp [Record.entry, skipped, pendingUploadKey, pendingUploadPrefix,
      scannerWatermarkPrefix, appliedIndexKey, List.isPrefixOf]
  | confirmedUpload b u =>
    simp [Record.entry, skipped, confirmedUploadKey, confirmedUploadPrefix,
      scannerWatermarkPrefix, appliedIndexKey, List.isPrefixOf]
  | contentQuarantine key val =>
    obtain ⟨txID, docName, q, rfl, -⟩ := h
    simp [Record.entry, skipped, contentQuarantineKeyBytes, contentQuarantinePrefix,
      scannerWatermarkPrefix, appliedIndexKey, List.isPrefixOf]

theorem skipped_scannerWatermark (rest val : List UInt8) :
    skipped (scannerWatermarkPrefix ++ rest, val) = true := by
  have hpre : scannerWatermarkPrefix.isPrefixOf (scannerWatermarkPrefix ++ rest) = true := by simp
  simp [skipped]

theorem ProjectionDb.Walk.mem_hashed_iff (hw : p.Walk walk) (hp : p.WellFormed) (e : DbEntry) :
    e ∈ walk.filter (fun e => !skipped e) ↔ ∃ r, p.Holds r ∧ r.entry = e := by
  rw [List.mem_filter, hw.mem_iff]
  constructor
  · rintro ⟨he, hs⟩
    cases he with
    | record r hr => exact ⟨r, hr, rfl⟩
    | scannerWatermark rest val h => simp [skipped_scannerWatermark] at hs
    | appliedIndex val h => simp [skipped] at hs
  · rintro ⟨r, hr, rfl⟩
    exact ⟨.record r hr, by simp [(hp r hr).not_skipped]⟩

theorem ProjectionDb.Walk.hashed_isRecord (hw : p.Walk walk) (hp : p.WellFormed) :
    ∀ e ∈ walk.filter (fun e => !skipped e), IsRecord e := by
  intro e he
  obtain ⟨r, hr, rfl⟩ := (hw.mem_hashed_iff hp e).mp he
  exact ⟨r, hp r hr, rfl⟩

theorem holds_of_streams_eq {walk' : List DbEntry} (hw : p.Walk walk) (hw' : p'.Walk walk')
    (hp : p.WellFormed) (hp' : p'.WellFormed) (h : hashedStream walk = hashedStream walk')
    {r : Record} (hr : p.Holds r) :
    p'.Holds r := by
  have hlists := records_unique (hw.hashed_isRecord hp) (hw'.hashed_isRecord hp') h
  have hmem := (hw.mem_hashed_iff hp r.entry).mpr ⟨r, hr, rfl⟩
  rw [hlists] at hmem
  obtain ⟨r', hr', hentry⟩ := (hw'.mem_hashed_iff hp' r.entry).mp hmem
  rwa [← (hp' r' hr').entry_inj (hp r hr) hentry]

theorem eq_of_some_iff {α β : Type} {f g : α → Option β}
    (h : ∀ a b, f a = some b ↔ g a = some b) : f = g := by
  funext a
  exact Option.ext (h a)

/-- Two Projections without control characters in their identifiers that feed SHA-256 the same bytes
have the same records. -/
theorem equal_streams_equal_records {walk walk' : List DbEntry} (hp : p.WellFormed)
    (hp' : p'.WellFormed) (hw : p.Walk walk) (hw' : p'.Walk walk')
    (h : hashedStream walk = hashedStream walk') :
    p.idx.txs = p'.idx.txs ∧ p.contentQuarantines = p'.contentQuarantines ∧
      p.idx.pendingUploads = p'.idx.pendingUploads ∧
      p.idx.confirmedUploads = p'.idx.confirmedUploads := by
  have hholds : ∀ r, p.Holds r ↔ p'.Holds r := fun r =>
    ⟨holds_of_streams_eq hw hw' hp hp' h, holds_of_streams_eq hw' hw hp' hp h.symm⟩
  exact ⟨eq_of_some_iff fun t v => hholds (.tx t v),
    eq_of_some_iff fun k v => hholds (.contentQuarantine k v),
    eq_of_some_iff fun b u => hholds (.pendingUpload b u),
    eq_of_some_iff fun b u => hholds (.confirmedUpload b u)⟩

end Records

def markedDb (mark : List UInt8) : ProjectionDb where
  idx := { Index.empty with
    txs := fun t => if t = "invoice" then some (encodeEntry ⟨[1], 1, true⟩) else none }
  contentQuarantines := fun _ => none
  scannerWatermarks := fun rest => if rest = [] then some mark else none
  appliedIndex := none

def markedWalk (mark : List UInt8) : List DbEntry :=
  [(scannerWatermarkPrefix, mark), (txKey "invoice", encodeEntry ⟨[1], 1, true⟩)]

theorem markedDb_holds {mark : List UInt8} {r : Record} (h : (markedDb mark).Holds r) :
    r = .tx "invoice" (encodeEntry ⟨[1], 1, true⟩) := by
  cases r with
  | tx txID val =>
    simp only [ProjectionDb.Holds, markedDb] at h
    split_ifs at h with htx
    rw [htx, Option.some.inj h]
  | pendingUpload b u => simp [ProjectionDb.Holds, markedDb, Index.empty] at h
  | confirmedUpload b u => simp [ProjectionDb.Holds, markedDb, Index.empty] at h
  | contentQuarantine key val => simp [ProjectionDb.Holds, markedDb] at h

theorem markedDb_wellFormed (mark : List UInt8) : (markedDb mark).WellFormed := by
  intro r hr
  rw [markedDb_holds hr]
  exact ⟨by decide, _, decodeEntry_encodeEntry (by decide)⟩

theorem markedDb_walk (mark : List UInt8) : (markedDb mark).Walk (markedWalk mark) where
  mem_iff e := by
    simp only [markedWalk, List.mem_cons, List.not_mem_nil, or_false]
    constructor
    · rintro (rfl | rfl)
      · exact .scannerWatermark [] mark rfl
      · exact .record (.tx "invoice" _) (by simp [ProjectionDb.Holds, markedDb])
    · rintro (⟨r, hr⟩ | ⟨rest, val, h⟩ | ⟨val, h⟩)
      · rw [markedDb_holds hr]
        exact .inr rfl
      · simp only [markedDb] at h
        split_ifs at h with hrest
        rw [hrest, Option.some.inj h]
        exact .inl rfl
      · simp [markedDb] at h
  ascending := by
    simp only [markedWalk, List.pairwise_cons]
    decide

theorem equal_streams_equal_records_marked :
    (markedDb [1]).idx.txs = (markedDb [2]).idx.txs ∧
      (markedDb [1]).contentQuarantines = (markedDb [2]).contentQuarantines ∧
      (markedDb [1]).idx.pendingUploads = (markedDb [2]).idx.pendingUploads ∧
      (markedDb [1]).idx.confirmedUploads = (markedDb [2]).idx.confirmedUploads :=
  equal_streams_equal_records (markedDb_wellFormed [1]) (markedDb_wellFormed [2])
    (markedDb_walk [1]) (markedDb_walk [2]) (by decide +kernel)

end Scrap
