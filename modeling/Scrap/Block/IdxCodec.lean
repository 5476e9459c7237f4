/-
# The `.idx` file as bytes

A header of 12 bytes and then one record for each entry:

    entry_len (4)    payload    entry_crc32c (4)

`Append` refuses an entry only if one of its four variable fields does not fit its `uint16` length.
The reader limits the payload as a whole (`idxMaxEntryLen`), and an entry with several long fields
passes the one check and not the other.

A crash leaves a part of the last record. `RepairIndexTail` cuts off what `readNextEntry` reports
as `io.ErrUnexpectedEOF`; right behind the length or the payload the error is `io.EOF`, which it
hands on.
-/
import Scrap.Block.Idx
import Scrap.Lib.Bytes
import Scrap.Lib.Fallible
import Scrap.Lib.Records
import Scrap.Lib.Stream

namespace Scrap.Block.Disk

open Bytes Buffered Records Fallible

def idxMagic : List UInt8 := [0x53, 0x49, 0x44, 0x58]
def idxVersion : Nat := 1
def idxHeaderLen : Nat := 12
def idxEntryVersion : UInt8 := 0x01
def idxEntryVersionV2 : UInt8 := 0x02
def idxMinEntryLen : Nat := 2
def idxLenPrefixSize : Nat := 2
def idxFixedFieldSize : Nat := 60
def idxMaxEntryLen : Nat := 1 <<< 17
def paddingByte : UInt8 := 0x00

/-- An entry as the file has it: strings are bytes, numbers have the source's widths. -/
structure Record where
  transactionID : List UInt8
  docName : List UInt8
  contentType : List UInt8
  createdAtUs : Int64
  firstFrameOff : Int64
  frameCount : UInt32
  totalBytes : Int64
  sha256 : Digest
  encryptionEnvelope : List UInt8
deriving DecidableEq

/-! ## Encoding -/

def Record.lenPrefixedFields (r : Record) : List (String × Nat) :=
  [("transaction_id", r.transactionID.length), ("document_name", r.docName.length),
   ("content_type", r.contentType.length),
   ("encryption_envelope", r.encryptionEnvelope.length)]

def Record.validateEntryFieldLens (r : Record) : Except IdxErr Unit :=
  match r.lenPrefixedFields.find? (fun field => maxUint16 < field.2) with
  | some (field, n) => .error (.fieldLength field n)
  | none => .ok ()

/-- The length is cut to a `uint16`. -/
def appendLenPrefixed (data : List UInt8) : List UInt8 :=
  leBytes idxLenPrefixSize data.length ++ data

/-- The array `fixed` of `encodeIndexEntry`. -/
def Record.fixed (r : Record) : List UInt8 :=
  leBytes 8 r.createdAtUs.toUInt64.toNat ++ leBytes 8 r.firstFrameOff.toUInt64.toNat ++
    leBytes 4 r.frameCount.toNat ++ leBytes 8 r.totalBytes.toUInt64.toNat ++ r.sha256.val

def Record.version (r : Record) : UInt8 :=
  if 0 < r.encryptionEnvelope.length then idxEntryVersionV2 else idxEntryVersion

def encodeIndexEntry (r : Record) : List UInt8 :=
  [r.version, paddingByte] ++ appendLenPrefixed r.transactionID ++ appendLenPrefixed r.docName ++
    appendLenPrefixed r.contentType ++ r.fixed ++
    if r.version = idxEntryVersionV2 then appendLenPrefixed r.encryptionEnvelope else []

/-! ## Decoding -/

inductive DecodeErr where
  /-- `entry too short` -/
  | tooShort
  /-- `unknown entry version: %d` -/
  | unknownVersion (version : UInt8)
  /-- `missing length prefix` -/
  | missingLength
  /-- `truncated string: need %d, have %d` -/
  | truncatedString (need left : Nat)
  /-- `entry fixed fields truncated` -/
  | fixedTruncated
  /-- `entry has %d trailing bytes` -/
  | trailingBytes (n : Nat)
deriving DecidableEq

/-- The string and the data behind it. -/
def readLenPrefixed (data : List UInt8) : Except DecodeErr (List UInt8 × List UInt8) :=
  if data.length < idxLenPrefixSize then .error .missingLength
  else
    let n := leNat (slice data 0 idxLenPrefixSize)
    if data.length < idxLenPrefixSize + n then
      .error (.truncatedString n (data.length - idxLenPrefixSize))
    else
      .ok (slice data idxLenPrefixSize (idxLenPrefixSize + n), data.drop (idxLenPrefixSize + n))

def decodeIndexEntryVersion (data : List UInt8) : Except DecodeErr UInt8 :=
  if data.length < idxMinEntryLen then .error .tooShort
  else if data.getD 0 0 ≠ idxEntryVersion ∧ data.getD 0 0 ≠ idxEntryVersionV2 then
    .error (.unknownVersion (data.getD 0 0))
  else .ok (data.getD 0 0)

def decodeIndexEntryStrings (data : List UInt8) :
    Except DecodeErr (List UInt8 × List UInt8 × List UInt8 × List UInt8) := do
  let (txID, data) ← readLenPrefixed data
  let (docName, data) ← readLenPrefixed data
  let (contentType, data) ← readLenPrefixed data
  .ok (txID, docName, contentType, data)

theorem length_shaField {data : List UInt8} (h : ¬ data.length < idxFixedFieldSize) :
    (slice data 28 60).length = 32 := by
  rw [slice, List.length_take, List.length_drop]
  unfold idxFixedFieldSize at h
  omega

def decodeIndexEntryFixed (data : List UInt8) :
    Except DecodeErr (Int64 × Int64 × UInt32 × Int64 × Digest × List UInt8) :=
  if h : data.length < idxFixedFieldSize then .error .fixedTruncated
  else
    .ok ((UInt64.ofNat (leNat (slice data 0 8))).toInt64, (UInt64.ofNat (leNat (slice data 8 16))).toInt64,
      UInt32.ofNat (leNat (slice data 16 20)), (UInt64.ofNat (leNat (slice data 20 28))).toInt64,
      ⟨slice data 28 60, length_shaField h⟩,
      data.drop idxFixedFieldSize)

def decodeIndexEntryEnvelope (version : UInt8) (data : List UInt8) :
    Except DecodeErr (List UInt8 × List UInt8) :=
  if version ≠ idxEntryVersionV2 then .ok ([], data) else readLenPrefixed data

def decodeIndexEntry (data : List UInt8) : Except DecodeErr Record := do
  let version ← decodeIndexEntryVersion data
  let (txID, docName, contentType, data) ← decodeIndexEntryStrings (data.drop idxMinEntryLen)
  let (createdAtUs, firstFrameOff, frameCount, totalBytes, sha, data) ← decodeIndexEntryFixed data
  let (envelope, data) ← decodeIndexEntryEnvelope version data
  if data.length ≠ 0 then .error (.trailingBytes data.length)
  else .ok ⟨txID, docName, contentType, createdAtUs, firstFrameOff, frameCount, totalBytes, sha, envelope⟩

/-! ## The file -/

/-- `ErrIdxCorrupt`, by what is wrapped beside it. -/
inductive EntryErr where
  /-- `read entry len: %w` -/
  | readLen (e : Ending)
  /-- `read entry payload: %w` -/
  | readPayload (e : Ending)
  /-- `read entry CRC: %w` -/
  | readCRC (e : Ending)
  /-- `entry len %d exceeds max %d` -/
  | oversized (payloadLen : Nat)
  /-- `entry CRC mismatch` -/
  | crcMismatch
  /-- `decode entry: %w` -/
  | decode (err : DecodeErr)
deriving DecidableEq

/-- `errors.Is(readErr, io.ErrUnexpectedEOF)` -/
def EntryErr.isTorn : EntryErr → Bool
  | .readLen e => e = .unexpectedEOF
  | .readPayload e => e = .unexpectedEOF
  | .readCRC e => e = .unexpectedEOF
  | .oversized _ => false
  | .crcMismatch => false
  | .decode _ => false

/-- `classifyOversizedEntryLen`, with what is left of the file behind the length. -/
def classifyOversizedEntryLen (payloadLen : Nat) (rest : List UInt8) : EntryErr :=
  if rest.length < payloadLen + 4 then .readPayload .unexpectedEOF else .oversized payloadLen

inductive IdxFileErr where
  /-- `read header: %w` -/
  | readHeader (e : Ending)
  /-- `invalid magic: %q` -/
  | magic
  /-- `header CRC mismatch` -/
  | headerCRC
  | entry (err : EntryErr)
deriving DecidableEq

variable {bs rest : List UInt8} {r : Record}

section File

variable (crc32c : List UInt8 → UInt32)

/-- The error is `none` at the end of the file. -/
def readNextEntry (bs : List UInt8) : Except (Option EntryErr) (Record × List UInt8) :=
  match takeFull 4 bs with
  | .error e => if e = .eof then .error none else .error (some (.readLen e))
  | .ok (lenBuf, rest) =>
    if idxMaxEntryLen < leNat lenBuf then
      .error (some (classifyOversizedEntryLen (leNat lenBuf) rest))
    else
      match takeFull (leNat lenBuf) rest with
      | .error e => .error (some (.readPayload e))
      | .ok (payload, rest) =>
        match takeFull 4 rest with
        | .error e => .error (some (.readCRC e))
        | .ok (crcBuf, rest) =>
          if (crc32c payload).toNat ≠ leNat crcBuf then .error (some .crcMismatch)
          else
            match decodeIndexEntry payload with
            | .error err => .error (some (.decode err))
            | .ok entry => .ok (entry, rest)

/-- The file behind its header. -/
def validateIndexHeader (bs : List UInt8) : Except IdxFileErr (List UInt8) :=
  match takeFull idxHeaderLen bs with
  | .error e => .error (.readHeader e)
  | .ok (hdr, rest) =>
    if slice hdr 0 4 ≠ idxMagic then .error .magic
    else if (crc32c (slice hdr 0 8)).toNat ≠ leNat (slice hdr 8 12) then .error .headerCRC
    else .ok rest

theorem readNextEntry_taken (h : readNextEntry crc32c bs = .ok (r, rest)) :
    ∃ lenBuf payload crcBuf, bs = lenBuf ++ (payload ++ (crcBuf ++ rest)) ∧ lenBuf.length = 4 ∧
      payload.length ≤ idxMaxEntryLen ∧ decodeIndexEntry payload = .ok r := by
  simp only [readNextEntry] at h
  cases hlen : takeFull 4 bs with
  | error e =>
    simp only [hlen] at h
    split_ifs at h
  | ok x =>
    obtain ⟨lenBuf, rest₁⟩ := x
    simp only [hlen] at h
    split_ifs at h with hmax
    cases hpay : takeFull (leNat lenBuf) rest₁ with
    | error e => simp [hpay] at h
    | ok y => ?_
    obtain ⟨payload, rest₂⟩ := y
    simp only [hpay] at h
    cases hcrc : takeFull 4 rest₂ with
    | error e => simp [hcrc] at h
    | ok z => ?_
    obtain ⟨crcBuf, rest₃⟩ := z
    simp only [hcrc] at h
    split_ifs at h
    split at h
    · cases h
    rename_i hdec
    cases Except.ok.inj h
    obtain ⟨rfl, hbuf⟩ := takeFull_ok.mp hlen
    obtain ⟨rfl, hpaylen⟩ := takeFull_ok.mp hpay
    obtain ⟨rfl, -⟩ := takeFull_ok.mp hcrc
    exact ⟨lenBuf, payload, crcBuf, rfl, hbuf, by omega, hdec⟩

theorem readNextEntry_consumes (h : readNextEntry crc32c bs = .ok (r, rest)) :
    rest.length < bs.length := by
  obtain ⟨lenBuf, payload, crcBuf, rfl, hlen, -, -⟩ := readNextEntry_taken crc32c h
  simp only [List.length_append]
  omega

def entryReader : RecordReader UInt8 Record (Option EntryErr) :=
  ⟨readNextEntry crc32c, readNextEntry_consumes crc32c⟩

@[simp] theorem entryReader_next : (entryReader crc32c).next = readNextEntry crc32c := rfl

/-- Every entry of the file, or the error of the one that cannot be read. -/
def openIndexReader (bs : List UInt8) : Except IdxFileErr (List Record) :=
  match validateIndexHeader crc32c bs with
  | .error err => .error err
  | .ok rest =>
    match ((entryReader crc32c).walk rest).stop with
    | none => .ok ((entryReader crc32c).walk rest).records
    | some err => .error (.entry err)

def repairIndexTail (bs : List UInt8) : Except IdxFileErr (List UInt8) :=
  match validateIndexHeader crc32c bs with
  | .error err => .error err
  | .ok rest =>
    match ((entryReader crc32c).walk rest).stop with
    | none => .ok bs
    | some err =>
      if err.isTorn then .ok (bs.take (bs.length - ((entryReader crc32c).walk rest).left.length))
      else .error (.entry err)

def idxHead : List UInt8 := idxMagic ++ leBytes 2 idxVersion ++ leBytes 2 idxHeaderLen

/-- `NewIndexWriter` -/
def newIndexBytes : List UInt8 := idxHead ++ leBytes 4 (crc32c idxHead).toNat

def encodeRecord (r : Record) : List UInt8 :=
  leBytes 4 (encodeIndexEntry r).length ++ encodeIndexEntry r ++
    leBytes 4 (crc32c (encodeIndexEntry r)).toNat

/-- `IndexWriter.Append` -/
def appendEntry (bs : List UInt8) (r : Record) : Except IdxErr (List UInt8) :=
  match r.validateEntryFieldLens with
  | .error err => .error err
  | .ok () => .ok (bs ++ encodeRecord crc32c r)

/-- Several calls of `Append`; the first error ends them. -/
def appendEntries (bs : List UInt8) : List Record → Except IdxErr (List UInt8)
  | [] => .ok bs
  | r :: rs =>
    match appendEntry crc32c bs r with
    | .error err => .error err
    | .ok bs' => appendEntries bs' rs

end File

/-! ## Decoding what was encoded -/

def Record.FieldsFit (r : Record) : Prop := ∀ field ∈ r.lenPrefixedFields, field.2 ≤ maxUint16

instance (r : Record) : Decidable r.FieldsFit :=
  inferInstanceAs (Decidable (∀ field ∈ r.lenPrefixedFields, field.2 ≤ maxUint16))

def Record.Readable (r : Record) : Prop := (encodeIndexEntry r).length ≤ idxMaxEntryLen

instance (r : Record) : Decidable r.Readable :=
  inferInstanceAs (Decidable ((encodeIndexEntry r).length ≤ idxMaxEntryLen))

theorem Record.validateEntryFieldLens_ok :
    r.validateEntryFieldLens = .ok () ↔ r.FieldsFit := by
  unfold Record.validateEntryFieldLens Record.FieldsFit
  cases h : r.lenPrefixedFields.find? (fun field => maxUint16 < field.2) with
  | none =>
    have hno := List.find?_eq_none.mp h
    simpa using hno
  | some field =>
    have hbig : maxUint16 < field.2 := by simpa using List.find?_some h
    refine iff_of_false (by simp) fun hfit => ?_
    exact absurd (hfit field (List.mem_of_find?_eq_some h)) (by omega)

theorem Record.fieldsFit_iff : r.FieldsFit ↔
    r.transactionID.length ≤ maxUint16 ∧ r.docName.length ≤ maxUint16 ∧
      r.contentType.length ≤ maxUint16 ∧ r.encryptionEnvelope.length ≤ maxUint16 := by
  simp [Record.FieldsFit, Record.lenPrefixedFields]

@[simp] theorem length_appendLenPrefixed (data : List UInt8) :
    (appendLenPrefixed data).length = 2 + data.length := by
  simp [appendLenPrefixed, idxLenPrefixSize]

@[simp] theorem Record.length_fixed (r : Record) : r.fixed.length = idxFixedFieldSize := by
  simp [Record.fixed, r.sha256.2, idxFixedFieldSize]

theorem Record.version_eq (r : Record) :
    r.version = idxEntryVersionV2 ↔ r.encryptionEnvelope ≠ [] := by
  rw [← List.length_pos_iff, Record.version]
  split_ifs with h
  · exact iff_of_true rfl h
  · exact iff_of_false (by decide) h

theorem length_encodeIndexEntry (r : Record) :
    (encodeIndexEntry r).length = 68 + r.transactionID.length + r.docName.length +
      r.contentType.length +
        if r.encryptionEnvelope = [] then 0 else 2 + r.encryptionEnvelope.length := by
  by_cases h : r.encryptionEnvelope = []
  · simp [encodeIndexEntry, Record.version_eq, h, idxFixedFieldSize]
    omega
  · simp [encodeIndexEntry, Record.version_eq, h, idxFixedFieldSize]
    omega

section Decode

variable {s data rest : List UInt8}

theorem readLenPrefixed_append (hs : s.length ≤ maxUint16) (rest : List UInt8) :
    readLenPrefixed (appendLenPrefixed s ++ rest) = .ok (s, rest) := by
  have hlen : slice (appendLenPrefixed s ++ rest) 0 idxLenPrefixSize = leBytes 2 s.length := rfl
  have hn : leNat (leBytes 2 s.length) = s.length :=
    leNat_leBytes_of_lt (Nat.lt_of_le_of_lt hs (by decide))
  have hdrop : (appendLenPrefixed s ++ rest).drop 2 = s ++ rest := rfl
  have hsize : (appendLenPrefixed s ++ rest).length = idxLenPrefixSize + s.length + rest.length := by
    rw [List.length_append, length_appendLenPrefixed, idxLenPrefixSize]
  unfold readLenPrefixed
  rw [hlen, hn, if_neg (by omega)]
  rw [if_neg (by omega)]
  simp only [slice, idxLenPrefixSize, Nat.add_sub_cancel_left, ← List.drop_drop, hdrop,
    List.take_left, List.drop_left]

theorem readLenPrefixed_ok (h : readLenPrefixed data = .ok (s, rest)) :
    s.length ≤ maxUint16 ∧ data.length = 2 + s.length + rest.length := by
  unfold readLenPrefixed idxLenPrefixSize at h
  simp only at h
  split_ifs at h with hshort htrunc
  cases Except.ok.inj h
  have hn : leNat (slice data 0 2) ≤ maxUint16 := by
    have hlen : (slice data 0 2).length ≤ 2 := by
      rw [slice, List.length_take]
      exact Nat.min_le_left _ _
    have hlt := leNat_lt (slice data 0 2)
    have hpow := Nat.pow_le_pow_right (n := 256) (by decide) hlen
    unfold maxUint16
    omega
  simp only [slice, List.length_take, List.length_drop] at hn ⊢
  omega

theorem decodeIndexEntryFixed_append (r : Record) (rest : List UInt8) :
    decodeIndexEntryFixed (r.fixed ++ rest) =
      .ok (r.createdAtUs, r.firstFrameOff, r.frameCount, r.totalBytes, r.sha256, rest) := by
  have hcreated : slice (r.fixed ++ rest) 0 8 = leBytes 8 r.createdAtUs.toUInt64.toNat := rfl
  have hoff : slice (r.fixed ++ rest) 8 16 = leBytes 8 r.firstFrameOff.toUInt64.toNat := rfl
  have hcount : slice (r.fixed ++ rest) 16 20 = leBytes 4 r.frameCount.toNat := rfl
  have htotal : slice (r.fixed ++ rest) 20 28 = leBytes 8 r.totalBytes.toUInt64.toNat := rfl
  have hsha : slice (r.fixed ++ rest) 28 60 = r.sha256.val := by
    have hdrop : (r.fixed ++ rest).drop 28 = r.sha256.val ++ rest := rfl
    rw [slice, hdrop, List.take_left' r.sha256.2]
  have hdrop : (r.fixed ++ rest).drop idxFixedFieldSize = rest := List.drop_left' r.length_fixed
  unfold decodeIndexEntryFixed
  simp only [hcreated, hoff, hcount, htotal, hsha]
  simp

end Decode

theorem decodeIndexEntry_encodeIndexEntry (h : r.FieldsFit) :
    decodeIndexEntry (encodeIndexEntry r) = .ok r := by
  obtain ⟨htx, hdoc, hct, henv⟩ := Record.fieldsFit_iff.mp h
  have hversion : decodeIndexEntryVersion (encodeIndexEntry r) = .ok r.version := by
    have hget : (encodeIndexEntry r).getD 0 0 = r.version := rfl
    have hlen := length_encodeIndexEntry r
    rw [decodeIndexEntryVersion, hget, if_neg (by unfold idxMinEntryLen; omega), if_neg]
    unfold Record.version
    split_ifs <;> simp
  have hdrop : (encodeIndexEntry r).drop idxMinEntryLen =
      appendLenPrefixed r.transactionID ++ (appendLenPrefixed r.docName ++
        (appendLenPrefixed r.contentType ++ (r.fixed ++
          if r.version = idxEntryVersionV2 then appendLenPrefixed r.encryptionEnvelope else []))) := by
    simp [encodeIndexEntry, idxMinEntryLen]
  have henvelope : decodeIndexEntryEnvelope r.version
      (if r.version = idxEntryVersionV2 then appendLenPrefixed r.encryptionEnvelope else []) =
        .ok (r.encryptionEnvelope, []) := by
    unfold decodeIndexEntryEnvelope
    by_cases hne : r.version = idxEntryVersionV2
    · have hread := readLenPrefixed_append henv []
      rw [List.append_nil] at hread
      rw [if_neg (by simpa using hne), if_pos hne, hread]
    · have hnil : r.encryptionEnvelope = [] := Decidable.not_not.mp (mt r.version_eq.mpr hne)
      rw [if_pos hne, if_neg hne, hnil]
  simp only [decodeIndexEntry, hversion, hdrop, decodeIndexEntryStrings, readLenPrefixed_append htx,
    readLenPrefixed_append hdoc, readLenPrefixed_append hct, decodeIndexEntryFixed_append, henvelope,
    bind, Except.bind]
  simp

/-- An entry that was decoded fits its prefixes, and encoding it again takes no more bytes. -/
theorem decodeIndexEntry_ok {data : List UInt8} (h : decodeIndexEntry data = .ok r) :
    r.FieldsFit ∧ (encodeIndexEntry r).length ≤ data.length := by
  obtain ⟨version, hversion, hrest⟩ := except_bind_ok.mp h
  obtain ⟨⟨txID, docName, contentType, data₁⟩, hstrings, hrest₁⟩ := except_bind_ok.mp hrest
  obtain ⟨⟨createdAtUs, firstFrameOff, frameCount, totalBytes, sha, data₂⟩, hfixed, hrest₂⟩ :=
    except_bind_ok.mp hrest₁
  obtain ⟨⟨envelope, data₃⟩, henvelope, hlast⟩ := except_bind_ok.mp hrest₂
  have hshort : ¬ data.length < idxMinEntryLen := by
    unfold decodeIndexEntryVersion at hversion
    split_ifs at hversion
    assumption
  obtain ⟨⟨txID', rest⟩, htx, hnames⟩ := except_bind_ok.mp hstrings
  obtain ⟨⟨docName', rest'⟩, hdoc, hname⟩ := except_bind_ok.mp hnames
  obtain ⟨⟨contentType', rest''⟩, hct, hall⟩ := except_bind_ok.mp hname
  simp only [Except.ok.injEq, Prod.mk.injEq] at hall
  obtain ⟨rfl, rfl, rfl, rfl⟩ := hall
  obtain ⟨hfittx, hlentx⟩ := readLenPrefixed_ok htx
  obtain ⟨hfitdoc, hlendoc⟩ := readLenPrefixed_ok hdoc
  obtain ⟨hfitct, hlenct⟩ := readLenPrefixed_ok hct
  have hlenfixed : rest''.length = 60 + data₂.length := by
    unfold decodeIndexEntryFixed idxFixedFieldSize at hfixed
    split_ifs at hfixed with hlong
    simp only [Except.ok.injEq, Prod.mk.injEq] at hfixed
    rw [← hfixed.2.2.2.2.2, List.length_drop]
    omega
  have henv : envelope.length ≤ maxUint16 ∧
      (if envelope = [] then 0 else 2 + envelope.length) + data₃.length ≤ data₂.length := by
    unfold decodeIndexEntryEnvelope at henvelope
    split_ifs at henvelope
    · simp only [Except.ok.injEq] at henvelope
      obtain ⟨rfl, rfl⟩ := henvelope
      simp
    · obtain ⟨hfit, hlen⟩ := readLenPrefixed_ok henvelope
      refine ⟨hfit, ?_⟩
      split_ifs <;> omega
  simp only at hlast
  split_ifs at hlast
  cases hlast
  refine ⟨Record.fieldsFit_iff.mpr ⟨hfittx, hfitdoc, hfitct, henv.1⟩, ?_⟩
  rw [length_encodeIndexEntry]
  rw [List.length_drop] at hlentx
  unfold idxMinEntryLen at hlentx hshort
  have henvlen := henv.2
  simp only at henvlen ⊢
  omega

/-! ## Reading one record -/

section ReadNext

variable (crc32c : List UInt8 → UInt32) {r : Record}

theorem length_encodeRecord (r : Record) :
    (encodeRecord crc32c r).length = 4 + (encodeIndexEntry r).length + 4 := by
  simp only [encodeRecord, List.length_append, length_leBytes]

theorem leNat_entryLen (h : r.FieldsFit) :
    leNat (leBytes 4 (encodeIndexEntry r).length) = (encodeIndexEntry r).length := by
  refine leNat_leBytes_of_lt ?_
  obtain ⟨htx, hdoc, hct, henv⟩ := Record.fieldsFit_iff.mp h
  have hlen := length_encodeIndexEntry r
  unfold maxUint16 at htx hdoc hct henv
  split_ifs at hlen <;> omega

theorem readNextEntry_ok (h : readNextEntry crc32c bs = .ok (r, rest)) :
    r.FieldsFit ∧ r.Readable := by
  obtain ⟨lenBuf, payload, crcBuf, -, -, hmax, hdec⟩ := readNextEntry_taken crc32c h
  obtain ⟨hfit, hle⟩ := decodeIndexEntry_ok hdec
  exact ⟨hfit, Nat.le_trans hle hmax⟩

theorem readNextEntry_nil : readNextEntry crc32c [] = .error none := by rfl

variable (h : r.FieldsFit)

include h

theorem readNextEntry_encodeRecord (hread : r.Readable) (rest : List UInt8) :
    readNextEntry crc32c (encodeRecord crc32c r ++ rest) = .ok (r, rest) := by
  have hlimit : ¬ idxMaxEntryLen < (encodeIndexEntry r).length := Nat.not_lt.mpr hread
  rw [encodeRecord, List.append_assoc, List.append_assoc, readNextEntry,
    takeFull_append (length_leBytes 4 _)]
  simp only [leNat_entryLen h]
  rw [if_neg hlimit, takeFull_append rfl]
  simp only
  rw [takeFull_append (length_leBytes 4 _)]
  simp [decodeIndexEntry_encodeIndexEntry h]

theorem readNextEntry_oversized (hover : ¬ r.Readable) (rest : List UInt8) :
    readNextEntry crc32c (encodeRecord crc32c r ++ rest) =
      .error (some (.oversized (encodeIndexEntry r).length)) := by
  rw [encodeRecord, List.append_assoc, List.append_assoc, readNextEntry,
    takeFull_append (length_leBytes 4 _)]
  simp only [leNat_entryLen h]
  rw [if_pos (Nat.not_le.mp hover), classifyOversizedEntryLen, if_neg]
  simp only [List.length_append, length_leBytes]
  omega

/-- The error where only the first `k` bytes of a record are there. -/
def cutErr (r : Record) (k : Nat) : Option EntryErr :=
  if k = 0 then none
  else if k < 4 then some (.readLen .unexpectedEOF)
  else if ¬ r.Readable then some (.readPayload .unexpectedEOF)
  else if k = 4 then some (.readPayload .eof)
  else if k < 4 + (encodeIndexEntry r).length then some (.readPayload .unexpectedEOF)
  else if k = 4 + (encodeIndexEntry r).length then some (.readCRC .eof)
  else some (.readCRC .unexpectedEOF)

theorem readNextEntry_cut {k : Nat} (hk : k < (encodeRecord crc32c r).length) :
    readNextEntry crc32c ((encodeRecord crc32c r).take k) = .error (cutErr r k) := by
  rw [length_encodeRecord] at hk
  have hlen4 := length_leBytes 4 (encodeIndexEntry r).length
  have hpos : 0 < (encodeIndexEntry r).length := by
    rw [length_encodeIndexEntry]
    omega
  -- the cut goes through the length, the payload or the checksum
  have htake : (encodeRecord crc32c r).take k =
      (leBytes 4 (encodeIndexEntry r).length).take k ++ ((encodeIndexEntry r).take (k - 4) ++
        (leBytes 4 (crc32c (encodeIndexEntry r)).toNat).take (k - 4 - (encodeIndexEntry r).length)) := by
    rw [encodeRecord, List.append_assoc, List.take_append, List.take_append, hlen4]
  rw [htake]
  by_cases hzero : k = 0
  · simp [hzero, cutErr, readNextEntry_nil]
  by_cases hfour : k < 4
  · have hne : (leBytes 4 (encodeIndexEntry r).length).take k ≠ [] := by
      rw [ne_eq, List.take_eq_nil_iff, ← List.length_eq_zero_iff]
      omega
    rw [Nat.sub_eq_zero_of_le (Nat.le_of_lt hfour), Nat.zero_sub, List.take_zero, List.take_zero,
      List.append_nil, List.append_nil, readNextEntry,
      takeFull_short hne (by rw [List.length_take]; omega)]
    simp [cutErr, hzero, hfour]
  rw [List.take_of_length_le (by omega), readNextEntry, takeFull_append hlen4]
  simp only [leNat_entryLen h]
  by_cases hread : r.Readable
  · have hlimit : ¬ idxMaxEntryLen < (encodeIndexEntry r).length := Nat.not_lt.mpr hread
    rw [if_neg hlimit]
    by_cases hpay : k < 4 + (encodeIndexEntry r).length
    · rw [Nat.sub_eq_zero_of_le (show k - 4 ≤ (encodeIndexEntry r).length by omega), List.take_zero,
        List.append_nil]
      by_cases hbare : k = 4
      · rw [hbare, List.take_zero, takeFull_nil hpos]
        simp [cutErr, hread]
      have hne : (encodeIndexEntry r).take (k - 4) ≠ [] := by
        rw [ne_eq, List.take_eq_nil_iff, ← List.length_eq_zero_iff]
        omega
      rw [takeFull_short hne (by rw [List.length_take]; omega)]
      simp [cutErr, hzero, hfour, hbare, hpay]
    · rw [List.take_of_length_le (by omega), takeFull_append rfl]
      simp only
      have hbare : ¬ k = 4 := by omega
      by_cases hcrc : k = 4 + (encodeIndexEntry r).length
      · rw [show k - 4 - (encodeIndexEntry r).length = 0 by omega, List.take_zero,
          takeFull_nil (by decide)]
        simp [cutErr, hzero, hfour, hread, hbare, ← hcrc]
      · have hne : (leBytes 4 (crc32c (encodeIndexEntry r)).toNat).take
            (k - 4 - (encodeIndexEntry r).length) ≠ [] := by
          rw [ne_eq, List.take_eq_nil_iff, ← List.length_eq_zero_iff, length_leBytes]
          omega
        rw [takeFull_short hne (by rw [List.length_take]; omega)]
        simp [cutErr, hzero, hfour, hread, hbare, hpay, hcrc]
  · rw [if_pos (Nat.not_le.mp hread), classifyOversizedEntryLen, if_pos]
    · simp [cutErr, hzero, hfour, hread]
    · simp only [List.length_append, List.length_take]
      omega

end ReadNext

end Scrap.Block.Disk
