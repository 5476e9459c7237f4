/-
# What a reader makes of an `.idx` file

A file that `Append` wrote is a header and the records of its entries (`encodeRecords`). Both
`OpenIndexReader` and `RepairIndexTail` walk over the records up to the end of the file or the first
record that cannot be read. So the entries come back if each is of readable length
(`index_reads_back`), and a part of a last record is cut off, unless the cut is one of the two that
`readNextEntry` reports as `io.EOF` (`torn_tail_repaired`).

`Stores` ties the file to the `IdxFile` of the model, also over runs (`IdxRun`).
-/
import Scrap.Block.IdxCodec
import Scrap.Lib.Text

namespace Scrap.Block.Disk

open Bytes Buffered Records

def encodeRecords (crc32c : List UInt8 → UInt32) (rs : List Record) : List UInt8 :=
  rs.flatMap (encodeRecord crc32c)

/-- Twelve bytes that pass `validateIndexHeader`. -/
structure ValidHeader (crc32c : List UInt8 → UInt32) (hdr : List UInt8) : Prop where
  length : hdr.length = idxHeaderLen
  magic : slice hdr 0 4 = idxMagic
  crc : (crc32c (slice hdr 0 8)).toNat = leNat (slice hdr 8 12)

section Walk

variable (crc32c : List UInt8 → UInt32) {hdr : List UInt8} {rs : List Record}

theorem validHeader_newIndexBytes : ValidHeader crc32c (newIndexBytes crc32c) where
  length := rfl
  magic := rfl
  crc := by
    have hhead : slice (newIndexBytes crc32c) 0 8 = idxHead := rfl
    have hcrc : slice (newIndexBytes crc32c) 8 12 = leBytes 4 (crc32c idxHead).toNat := rfl
    rw [hhead, hcrc, leNat_uint32]

variable {crc32c}

theorem ValidHeader.validateIndexHeader (h : ValidHeader crc32c hdr) (rest : List UInt8) :
    validateIndexHeader crc32c (hdr ++ rest) = .ok rest := by
  rw [Disk.validateIndexHeader, takeFull_append h.length]
  simp [h.magic, h.crc]

variable (crc32c)

theorem walk_encodeRecords (hfit : ∀ r ∈ rs, r.FieldsFit) (hread : ∀ r ∈ rs, r.Readable)
    (tail : List UInt8) :
    (entryReader crc32c).walk (encodeRecords crc32c rs ++ tail) =
      { (entryReader crc32c).walk tail with
        records := rs ++ ((entryReader crc32c).walk tail).records } := by
  have hnext : ∀ r ∈ rs, ∀ rest, (entryReader crc32c).next (encodeRecord crc32c r ++ rest) =
      .ok (r, rest) := by
    intro r hr rest
    rw [entryReader_next, readNextEntry_encodeRecord crc32c (hfit r hr) (hread r hr)]
  rw [encodeRecords, (entryReader crc32c).walk_encode tail hnext]

theorem walk_oversized (tail : List UInt8) : ∀ {rs : List Record}, (∀ r ∈ rs, r.FieldsFit) →
    ¬ (∀ r ∈ rs, r.Readable) →
    ∃ n, ((entryReader crc32c).walk (encodeRecords crc32c rs ++ tail)).stop = some (.oversized n)
  | [], _, hover => absurd (fun r hr => absurd hr List.not_mem_nil) hover
  | r :: rs, hfit, hover => by
    have hcons : encodeRecords crc32c (r :: rs) ++ tail =
        encodeRecord crc32c r ++ (encodeRecords crc32c rs ++ tail) := by
      rw [encodeRecords, List.flatMap_cons, List.append_assoc]
      rfl
    have hr := hfit r List.mem_cons_self
    rw [hcons]
    by_cases hread : r.Readable
    · have hnext : (entryReader crc32c).next
          (encodeRecord crc32c r ++ (encodeRecords crc32c rs ++ tail)) =
            .ok (r, encodeRecords crc32c rs ++ tail) := by
        rw [entryReader_next, readNextEntry_encodeRecord crc32c hr hread]
      rw [(entryReader crc32c).walk_of_ok hnext]
      exact walk_oversized tail (fun r hr => hfit r (List.mem_cons_of_mem _ hr))
        fun hrest => hover (List.forall_mem_cons.mpr ⟨hread, hrest⟩)
    · have hnext : (entryReader crc32c).next
          (encodeRecord crc32c r ++ (encodeRecords crc32c rs ++ tail)) =
            .error (some (.oversized (encodeIndexEntry r).length)) := by
        rw [entryReader_next, readNextEntry_oversized crc32c hr hread]
      rw [(entryReader crc32c).walk_of_error hnext]
      exact ⟨_, rfl⟩

theorem walk_end : (entryReader crc32c).walk [] = ⟨[], none, []⟩ :=
  (entryReader crc32c).walk_of_error (readNextEntry_nil crc32c)

end Walk

/-! ## Reading a file -/

section Read

variable {crc32c : List UInt8 → UInt32} {hdr : List UInt8} {rs : List Record}

theorem openIndexReader_oversized (hhdr : ValidHeader crc32c hdr) (hfit : ∀ r ∈ rs, r.FieldsFit)
    (hover : ¬ ∀ r ∈ rs, r.Readable) (xs : List Record) :
    openIndexReader crc32c (hdr ++ encodeRecords crc32c rs) ≠ .ok xs := by
  intro h
  obtain ⟨n, hstop⟩ := walk_oversized crc32c [] hfit hover
  rw [List.append_nil] at hstop
  rw [openIndexReader, hhdr.validateIndexHeader] at h
  simp [hstop] at h

theorem openIndexReader_encodeRecords (hhdr : ValidHeader crc32c hdr) (hfit : ∀ r ∈ rs, r.FieldsFit) :
    openIndexReader crc32c (hdr ++ encodeRecords crc32c rs) = .ok rs ↔ ∀ r ∈ rs, r.Readable := by
  constructor
  · intro h
    by_contra hover
    exact openIndexReader_oversized hhdr hfit hover rs h
  · intro hread
    have hwalk := walk_encodeRecords crc32c hfit hread []
    rw [List.append_nil, walk_end] at hwalk
    rw [openIndexReader, hhdr.validateIndexHeader]
    simp [hwalk]

theorem openIndexReader_records {bs : List UInt8} (h : openIndexReader crc32c bs = .ok rs) :
    ∀ r ∈ rs, r.FieldsFit ∧ r.Readable := by
  unfold openIndexReader at h
  split at h
  · cases h
  rename_i rest hhdr
  cases hstop : ((entryReader crc32c).walk rest).stop with
  | some err => simp [hstop] at h
  | none => ?_
  simp only [hstop, Except.ok.injEq] at h
  rw [← h]
  exact (entryReader crc32c).forall_walk (readNextEntry_ok crc32c) rest

theorem appendEntries_ok {bs' : List UInt8} : ∀ {rs : List Record} {bs : List UInt8},
    appendEntries crc32c bs rs = .ok bs' ↔
      (∀ r ∈ rs, r.FieldsFit) ∧ bs' = bs ++ encodeRecords crc32c rs
  | [], bs => by simp [appendEntries, encodeRecords, eq_comm]
  | r :: rs, bs => by
    rw [appendEntries, appendEntry]
    cases hv : r.validateEntryFieldLens with
    | error err =>
      have hno : ¬ r.FieldsFit := fun hfit => by
        rw [Record.validateEntryFieldLens_ok.mpr hfit] at hv
        cases hv
      refine iff_of_false (by simp) fun hall => hno (hall.1 r List.mem_cons_self)
    | ok u =>
      have hfit := Record.validateEntryFieldLens_ok.mp hv
      simp only
      rw [appendEntries_ok, List.forall_mem_cons, encodeRecords, encodeRecords,
        List.flatMap_cons, List.append_assoc]
      exact ⟨fun h => ⟨⟨hfit, h.1⟩, h.2⟩, fun h => ⟨h.1.2, h.2⟩⟩

end Read

/-- Entries that `Append` accepted, in a new file, are read back exactly when each is at most
`idxMaxEntryLen` bytes long. -/
theorem index_reads_back (crc32c : List UInt8 → UInt32) (rs : List Record) (bs : List UInt8)
    (h : appendEntries crc32c (newIndexBytes crc32c) rs = .ok bs) :
    openIndexReader crc32c bs = .ok rs ↔
      ∀ r ∈ rs, (encodeIndexEntry r).length ≤ idxMaxEntryLen := by
  obtain ⟨hfit, rfl⟩ := appendEntries_ok.mp h
  exact openIndexReader_encodeRecords (validHeader_newIndexBytes crc32c) hfit

/-- A record with fields of one repeated byte. -/
def wideRecord (tx doc envelope : Nat) : Record :=
  ⟨List.replicate tx 0x74, List.replicate doc 0x64, [], 0, 40, 1, 1, ⟨List.replicate 32 1, rfl⟩,
    List.replicate envelope 0x7b⟩

theorem wideRecord_fieldsFit {tx doc envelope : Nat} (htx : tx ≤ maxUint16) (hdoc : doc ≤ maxUint16)
    (henv : envelope ≤ maxUint16) : (wideRecord tx doc envelope).FieldsFit := by
  refine Record.fieldsFit_iff.mpr ⟨?_, ?_, Nat.zero_le _, ?_⟩ <;> simpa [wideRecord]

theorem length_wideRecord (tx doc envelope : Nat) :
    (encodeIndexEntry (wideRecord tx doc envelope)).length =
      68 + tx + doc + if envelope = 0 then 0 else 2 + envelope := by
  simp [length_encodeIndexEntry, wideRecord]

theorem index_reads_back_short :
    ∃ bs, appendEntries castagnoli (newIndexBytes castagnoli) [wideRecord 1 2 0, wideRecord 1 3 4] =
        .ok bs ∧
      openIndexReader castagnoli bs = .ok [wideRecord 1 2 0, wideRecord 1 3 4] := by
  have hfit : ∀ r ∈ [wideRecord 1 2 0, wideRecord 1 3 4], r.FieldsFit := by decide
  have happ : appendEntries castagnoli (newIndexBytes castagnoli) [wideRecord 1 2 0, wideRecord 1 3 4] =
      .ok (newIndexBytes castagnoli ++ encodeRecords castagnoli [wideRecord 1 2 0, wideRecord 1 3 4]) :=
    appendEntries_ok.mpr ⟨hfit, rfl⟩
  exact ⟨_, happ, (index_reads_back castagnoli _ _ happ).mpr (by decide)⟩

/-- An entry whose Transaction ID and name have 65535 bytes each is written and cannot be read. -/
theorem long_entry_unreadable :
    ∃ bs, appendEntries castagnoli (newIndexBytes castagnoli) [wideRecord 65535 65535 0] = .ok bs ∧
      openIndexReader castagnoli bs ≠ .ok [wideRecord 65535 65535 0] := by
  have hfit : ∀ r ∈ [wideRecord 65535 65535 0], r.FieldsFit := by
    intro r hr
    rw [List.mem_singleton.mp hr]
    exact wideRecord_fieldsFit (by decide) (by decide) (by decide)
  refine ⟨_, appendEntries_ok.mpr ⟨hfit, rfl⟩, fun hopen => ?_⟩
  have hread := (openIndexReader_encodeRecords (validHeader_newIndexBytes castagnoli) hfit).mp hopen
  have hlen := hread _ List.mem_cons_self
  rw [Record.Readable, length_wideRecord] at hlen
  exact absurd hlen (by decide)

/-! ## Repairing a torn tail -/

/-- The cuts that `readNextEntry` reports as `io.EOF`: right behind the length and right behind the
payload. A record too long to be read has none. -/
def StuckCut (r : Record) (k : Nat) : Prop :=
  r.Readable ∧ (k = 4 ∨ k = 4 + (encodeIndexEntry r).length)

theorem cutErr_torn {r : Record} {k : Nat} {err : EntryErr} (h : cutErr r k = some err) :
    err.isTorn = true ↔ ¬ StuckCut r k := by
  unfold cutErr at h
  split_ifs at h with hzero hlen hread hbare hpay hcrc <;> cases h
  · exact iff_of_true rfl (by rintro ⟨-, hk | hk⟩ <;> omega)
  · exact iff_of_false (by decide) (not_not.mpr ⟨hread, .inl hbare⟩)
  · exact iff_of_true rfl (by rintro ⟨-, hk | hk⟩ <;> omega)
  · exact iff_of_false (by decide) (not_not.mpr ⟨hread, .inr hcrc⟩)
  · exact iff_of_true rfl (by rintro ⟨-, hk | hk⟩ <;> omega)
  · exact iff_of_true rfl fun hstuck => hread hstuck.1

section Repair

variable {crc32c : List UInt8 → UInt32} {hdr : List UInt8} {rs : List Record} {r : Record} {k : Nat}

theorem walk_cut_record (hfit : ∀ r ∈ rs, r.FieldsFit) (hread : ∀ r ∈ rs, r.Readable)
    (hr : r.FieldsFit) (hk : k < (encodeRecord crc32c r).length) :
    (entryReader crc32c).walk (encodeRecords crc32c rs ++ (encodeRecord crc32c r).take k) =
      ⟨rs, cutErr r k, (encodeRecord crc32c r).take k⟩ := by
  have hnext : (entryReader crc32c).next ((encodeRecord crc32c r).take k) = .error (cutErr r k) := by
    rw [entryReader_next, readNextEntry_cut crc32c hr hk]
  rw [walk_encodeRecords crc32c hfit hread, (entryReader crc32c).walk_of_error hnext, List.append_nil]

theorem repairIndexTail_cut (hhdr : ValidHeader crc32c hdr) (hfit : ∀ r ∈ rs, r.FieldsFit)
    (hread : ∀ r ∈ rs, r.Readable) (hr : r.FieldsFit) (hk : k < (encodeRecord crc32c r).length) :
    repairIndexTail crc32c (hdr ++ encodeRecords crc32c rs ++ (encodeRecord crc32c r).take k) =
        .ok (hdr ++ encodeRecords crc32c rs) ↔ ¬ StuckCut r k := by
  have hwalk := walk_cut_record hfit hread hr hk
  rw [List.append_assoc, repairIndexTail, hhdr.validateIndexHeader]
  simp only [hwalk]
  cases herr : cutErr r k with
  | none =>
    have hzero : k = 0 := by
      unfold cutErr at herr
      split_ifs at herr
      assumption
    subst hzero
    exact iff_of_true (by simp) (by rintro ⟨-, hk | hk⟩ <;> omega)
  | some err =>
    have htorn := cutErr_torn herr
    have hkeep : (hdr ++ (encodeRecords crc32c rs ++ (encodeRecord crc32c r).take k)).take
        ((hdr ++ (encodeRecords crc32c rs ++ (encodeRecord crc32c r).take k)).length -
          ((encodeRecord crc32c r).take k).length) = hdr ++ encodeRecords crc32c rs := by
      rw [← List.append_assoc, List.length_append, Nat.add_sub_cancel, List.take_left]
    rw [← htorn]
    cases herr' : err.isTorn with
    | true => simp only [hkeep, herr', if_true]
    | false => simp [herr']

end Repair

/-- A part of a last record is cut off and the entries before it are read back, exactly when these
are of readable length and the cut is not reported as `io.EOF`. -/
theorem torn_tail_repaired (crc32c : List UInt8 → UInt32) (hdr : List UInt8)
    (hhdr : ValidHeader crc32c hdr) (rs : List Record) (hfit : ∀ r ∈ rs, r.FieldsFit) (r : Record)
    (hr : r.FieldsFit) (k : Nat) (hk : k < (encodeRecord crc32c r).length) :
    (repairIndexTail crc32c (hdr ++ encodeRecords crc32c rs ++ (encodeRecord crc32c r).take k) =
        .ok (hdr ++ encodeRecords crc32c rs) ∧
      openIndexReader crc32c (hdr ++ encodeRecords crc32c rs) = .ok rs) ↔
      (∀ r ∈ rs, r.Readable) ∧ ¬ StuckCut r k := by
  rw [openIndexReader_encodeRecords hhdr hfit]
  constructor
  · rintro ⟨hrepair, hread⟩
    exact ⟨hread, (repairIndexTail_cut hhdr hfit hread hr hk).mp hrepair⟩
  · rintro ⟨hread, hcut⟩
    exact ⟨(repairIndexTail_cut hhdr hfit hread hr hk).mpr hcut, hread⟩

/-- One whole record and ten bytes of another. -/
theorem torn_tail_repaired_payload :
    repairIndexTail castagnoli (newIndexBytes castagnoli ++
        encodeRecords castagnoli [wideRecord 1 2 0] ++
          (encodeRecord castagnoli (wideRecord 1 3 0)).take 10) =
        .ok (newIndexBytes castagnoli ++ encodeRecords castagnoli [wideRecord 1 2 0]) ∧
      openIndexReader castagnoli (newIndexBytes castagnoli ++
        encodeRecords castagnoli [wideRecord 1 2 0]) = .ok [wideRecord 1 2 0] := by
  have hcut : ¬ StuckCut (wideRecord 1 3 0) 10 := by
    rintro ⟨-, h | h⟩
    · exact absurd h (by decide)
    · exact absurd h (by decide)
  exact (torn_tail_repaired castagnoli _ (validHeader_newIndexBytes castagnoli) [wideRecord 1 2 0]
    (by decide) (wideRecord 1 3 0) (by decide) 10 (by rw [length_encodeRecord]; decide)).mpr
      ⟨by decide, hcut⟩

/-- Of the only record no more than its length was written: the file cannot be repaired. -/
theorem bare_length_not_repaired :
    ¬ (repairIndexTail castagnoli (newIndexBytes castagnoli ++ encodeRecords castagnoli [] ++
          (encodeRecord castagnoli (wideRecord 1 3 0)).take 4) =
        .ok (newIndexBytes castagnoli ++ encodeRecords castagnoli []) ∧
      openIndexReader castagnoli (newIndexBytes castagnoli ++ encodeRecords castagnoli []) =
        .ok []) := by
  intro h
  have hcut := (repairIndexTail_cut (validHeader_newIndexBytes castagnoli) (by simp) (by simp)
    (by decide) (by rw [length_encodeRecord]; decide)).mp h.1
  exact hcut ⟨by decide, .inl rfl⟩

/-! ## The files of the model -/

def storedEntry (e : IndexEntry) : Record :=
  ⟨Text.utf8 e.transactionID, Text.utf8 e.docName, Text.utf8 e.contentType, Int64.ofInt e.createdAtUs,
    Int64.ofNat e.firstFrameOff, e.frameCount, Int64.ofInt e.totalBytes, e.sha256,
    e.encryptionEnvelope⟩

theorem length_utf8 (s : String) : (Text.utf8 s).length = s.utf8ByteSize := by
  have hbytes := congrArg ByteArray.size (Text.toByteArray_utf8 s)
  rwa [List.size_toByteArray] at hbytes

theorem storedEntry_fieldsFit {e : IndexEntry} : (storedEntry e).FieldsFit ↔ FieldsFit e := by
  have hfields : (storedEntry e).lenPrefixedFields = lenPrefixedFields e := by
    simp only [Record.lenPrefixedFields, lenPrefixedFields, storedEntry, length_utf8]
  rw [Record.FieldsFit, hfields, FieldsFit]

/-- The bytes that an `IdxFile` stands for: a header, the records of its entries, and if its tail is
torn a part of one more that the repair can tell. -/
structure Stores (crc32c : List UInt8 → UInt32) (f : IdxFile) (bs : List UInt8) : Prop where
  fit : ∀ r ∈ f.entries.map storedEntry, r.FieldsFit
  read : ∀ r ∈ f.entries.map storedEntry, r.Readable
  bytes : ∃ hdr r k, ValidHeader crc32c hdr ∧ r.FieldsFit ∧ k < (encodeRecord crc32c r).length ∧
    (if f.torn then k ≠ 0 ∧ ¬ StuckCut r k else k = 0) ∧
    bs = hdr ++ encodeRecords crc32c (f.entries.map storedEntry) ++ (encodeRecord crc32c r).take k

/-- The same calls on an `IdxFile` and on the bytes: appends of entries of readable length, crashes in
an append at a cut that can be told, and repairs. -/
inductive IdxRun (crc32c : List UInt8 → UInt32) : IdxFile → List UInt8 → Prop
  | new : IdxRun crc32c newIndexFile (newIndexBytes crc32c)
  | append {f bs} (e : IndexEntry) : IdxRun crc32c f bs → f.torn = false →
      (storedEntry e).Readable → IdxRun crc32c ((f.append e).toOption.getD f)
        ((appendEntry crc32c bs (storedEntry e)).toOption.getD bs)
  | crash {f bs} (e : IndexEntry) (k : Nat) : IdxRun crc32c f bs → f.torn = false → FieldsFit e →
      k < (encodeRecord crc32c (storedEntry e)).length → ¬ StuckCut (storedEntry e) k →
      IdxRun crc32c { f with torn := k ≠ 0 } (bs ++ (encodeRecord crc32c (storedEntry e)).take k)
  | repair {f bs} : IdxRun crc32c f bs →
      IdxRun crc32c ((Block.repairIndexTail (some f)).toOption.getD f)
        ((repairIndexTail crc32c bs).toOption.getD bs)

section Refines

variable {crc32c : List UInt8 → UInt32} {f : IdxFile} {bs : List UInt8}

theorem stores_whole {hdr : List UInt8} {es : List IndexEntry} (hhdr : ValidHeader crc32c hdr)
    (hfit : ∀ r ∈ es.map storedEntry, r.FieldsFit) (hread : ∀ r ∈ es.map storedEntry, r.Readable) :
    Stores crc32c ⟨es, false⟩ (hdr ++ encodeRecords crc32c (es.map storedEntry)) := by
  refine ⟨hfit, hread, hdr, wideRecord 0 0 0, 0, hhdr, by decide, ?_, rfl, by simp⟩
  rw [length_encodeRecord]
  omega

theorem Stores.openIndexReader (h : Stores crc32c f bs) :
    (∀ es, Block.openIndexReader (some f) = .ok es →
      Disk.openIndexReader crc32c bs = .ok (es.map storedEntry)) ∧
    (∀ e, Block.openIndexReader (some f) = .error e →
      ∃ err, err.isTorn = true ∧ Disk.openIndexReader crc32c bs = .error (.entry err)) := by
  obtain ⟨hdr, r, k, hhdr, hr, hk, htail, rfl⟩ := h.bytes
  have hwalk := walk_cut_record h.fit h.read hr hk
  cases htorn : f.torn with
  | false =>
    rw [htorn] at htail
    obtain rfl : k = 0 := by simpa using htail
    have hopen := (openIndexReader_encodeRecords hhdr h.fit).mpr h.read
    simpa [Block.openIndexReader, htorn] using hopen
  | true =>
    rw [htorn] at htail
    obtain ⟨hzero, hstuck⟩ : k ≠ 0 ∧ ¬ StuckCut r k := by simpa using htail
    cases herr : cutErr r k with
    | none =>
      unfold cutErr at herr
      split_ifs at herr
      contradiction
    | some err =>
      refine ⟨by simp [Block.openIndexReader, htorn], fun _ _ => ⟨err, (cutErr_torn herr).mpr hstuck, ?_⟩⟩
      rw [List.append_assoc, Disk.openIndexReader, hhdr.validateIndexHeader]
      simp only [hwalk, herr]

theorem Stores.repairIndexTail (h : Stores crc32c f bs) :
    ∃ f' bs', Block.repairIndexTail (some f) = .ok f' ∧
      Disk.repairIndexTail crc32c bs = .ok bs' ∧ Stores crc32c f' bs' := by
  obtain ⟨hdr, r, k, hhdr, hr, hk, htail, rfl⟩ := h.bytes
  have hcut : ¬ StuckCut r k := by
    split_ifs at htail with htorn
    · exact htail.2
    · rintro ⟨-, hk | hk⟩ <;> omega
  exact ⟨_, _, rfl, (repairIndexTail_cut hhdr h.fit h.read hr hk).mpr hcut,
    stores_whole hhdr h.fit h.read⟩

/-- `Append` to a file without a tail adds the entry in both, if it is of readable length. -/
theorem Stores.append (h : Stores crc32c f bs) (htorn : f.torn = false) {e : IndexEntry}
    (hread : (storedEntry e).Readable) :
    (∀ f', f.append e = .ok f' →
      ∃ bs', appendEntry crc32c bs (storedEntry e) = .ok bs' ∧ Stores crc32c f' bs') ∧
    (∀ err, f.append e = .error err →
      ∃ err', appendEntry crc32c bs (storedEntry e) = .error err') := by
  obtain ⟨hdr, r, k, hhdr, -, -, htail, rfl⟩ := h.bytes
  rw [htorn] at htail
  obtain rfl : k = 0 := by simpa using htail
  by_cases hfit : FieldsFit e
  · have hrec := storedEntry_fieldsFit.mpr hfit
    rw [IdxFile.append_of_fit hfit htorn]
    simp only [appendEntry, Record.validateEntryFieldLens_ok.mpr hrec, htorn]
    refine ⟨fun f' hf' => ⟨_, rfl, ?_⟩, by simp⟩
    rw [← Except.ok.inj hf']
    have hbytes : hdr ++ encodeRecords crc32c (f.entries.map storedEntry) ++
        (encodeRecord crc32c r).take 0 ++ encodeRecord crc32c (storedEntry e) =
          hdr ++ encodeRecords crc32c ((f.entries ++ [e]).map storedEntry) := by
      simp [encodeRecords]
    rw [hbytes]
    refine stores_whole hhdr ?_ ?_ <;> rw [List.map_append, List.forall_mem_append]
    · exact ⟨h.fit, List.forall_mem_singleton.mpr hrec⟩
    · exact ⟨h.read, List.forall_mem_singleton.mpr hread⟩
  · obtain ⟨err, herr⟩ := IdxFile.append_of_not_fit f hfit
    rw [herr]
    simp only [appendEntry]
    cases hv : (storedEntry e).validateEntryFieldLens with
    | error err' => exact ⟨by simp, fun _ _ => ⟨err', rfl⟩⟩
    | ok u => exact absurd (storedEntry_fieldsFit.mp (Record.validateEntryFieldLens_ok.mp hv)) hfit

theorem IdxRun.stores (h : IdxRun crc32c f bs) : Stores crc32c f bs := by
  induction h with
  | new =>
    have hnew : Stores crc32c ⟨[], false⟩ _ :=
      stores_whole (validHeader_newIndexBytes crc32c) (by simp) (by simp)
    simpa [encodeRecords, newIndexFile] using hnew
  | @append f bs e _ htorn hread ih =>
    obtain ⟨hok, herr⟩ := ih.append htorn hread
    cases happ : f.append e with
    | ok f' =>
      obtain ⟨bs', hbs', hstores⟩ := hok f' happ
      rwa [hbs']
    | error err =>
      obtain ⟨err', herr'⟩ := herr err happ
      rwa [herr']
  | @crash f bs e k _ htorn hfit hk hcut ih =>
    obtain ⟨hdr, r, n, hhdr, -, -, htail, rfl⟩ := ih.bytes
    obtain rfl : n = 0 := by simpa [htorn] using htail
    refine ⟨ih.fit, ih.read, hdr, storedEntry e, k, hhdr, storedEntry_fieldsFit.mpr hfit, hk, ?_,
      by simp⟩
    by_cases hzero : k = 0
    · simp [hzero]
    · simp [hzero, hcut]
  | @repair f bs _ ih =>
    obtain ⟨f', bs', hf', hbs', hstores⟩ := ih.repairIndexTail
    rwa [hf', hbs']

/-- On every run the bytes are read as the `IdxFile`, an error of the tail included, and after a
repair as its entries. -/
theorem idx_file_refined (hrun : IdxRun crc32c f bs) :
    (f.torn = false → openIndexReader crc32c bs = .ok (f.entries.map storedEntry)) ∧
      (f.torn = true → ∃ err, err.isTorn = true ∧ openIndexReader crc32c bs = .error (.entry err)) ∧
      ∃ bs', repairIndexTail crc32c bs = .ok bs' ∧
        openIndexReader crc32c bs' = .ok (f.entries.map storedEntry) := by
  have h := hrun.stores
  obtain ⟨f', bs', hf', hbs', hstores⟩ := h.repairIndexTail
  cases hf'
  refine ⟨fun htorn => ?_, fun htorn => ?_, bs', hbs', ?_⟩
  · exact h.openIndexReader.1 _ (by simp [Block.openIndexReader, htorn])
  · exact h.openIndexReader.2 .corruptTail (by simp [Block.openIndexReader, htorn])
  · exact hstores.openIndexReader.1 _ (by simp [Block.openIndexReader])

end Refines

/-- A whole record, and a crash ten bytes into the next one. -/
theorem idx_file_refined_crash : ∃ e bs bs', IdxRun castagnoli ⟨[e], true⟩ bs ∧
    repairIndexTail castagnoli bs = .ok bs' ∧
    openIndexReader castagnoli bs' = .ok [storedEntry e] := by
  let e : IndexEntry := ⟨"t", "x", "", 0, 40, 1, 8, ⟨List.replicate 32 0, rfl⟩, []⟩
  have hlen : (encodeIndexEntry (storedEntry e)).length = 70 := by decide +kernel
  have hread : (storedEntry e).Readable := by rw [Record.Readable, hlen]; decide
  have hrun : IdxRun castagnoli ⟨[e], true⟩ _ := .crash e 10 (.append e .new rfl hread) rfl
    (by decide +kernel) (by rw [length_encodeRecord, hlen]; decide)
    fun h => by rw [StuckCut, hlen] at h; omega
  obtain ⟨-, -, bs', hrepair, hread'⟩ := idx_file_refined hrun
  exact ⟨e, _, bs', hrun, hrepair, hread'⟩

end Scrap.Block.Disk
