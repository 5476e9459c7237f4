/-
# The overhang of a replica

A replica that has appended a Document which the leader aborted is ahead of the leader. Before
the next stream `ensureReplicaAppendOffsetLocked` cuts the overhang, unless the `.idx` knows a
Document there or the offset lies inside one (`overhang_rollback`).
-/
import Scrap.Block.CutFile
import Scrap.Shard.Generations

namespace Scrap

open Block Fallible

/-- A replica's open Block between two streams: whole Documents, the writer behind them, and a
readable index. A Document has at most as many Frames as a `frame_seq` can number. -/
structure Shard.OpenReplica (s : Shard) (b : UInt64) (docs : List Payloads)
    (entries : List IndexEntry) : Prop where
  writer : s.blockWriter = some (writerAt b docs)
  blk : (s.blocks b).blk = some (blkOf docs)
  idx : openIndexReader (s.blocks b).idx = .ok entries
  numbered : ∀ d ∈ docs, d.val.length ≤ 2 ^ 32

/-- The Member whose open Block ends behind `kept`, without the Block's preps from there on. -/
def Shard.rolledBack (s : Shard) (b : UInt64) (kept : List Payloads) : Shard :=
  { s.setBlk b (some (blkOf kept)) with
    blockWriter := some (writerAt b kept)
    openlog := s.openlog.filter fun p => ¬ (p.blockID = b ∧ endOf kept ≤ p.startOffset.toNat) }

def Cuttable (docs : List Payloads) (entries : List IndexEntry) (want : Nat)
    (kept : List Payloads) : Prop :=
  (∀ e ∈ entries, e.firstFrameOff < want) ∧ kept <+: docs ∧ want = endOf kept

section Rollback

variable {s : Shard} {b : UInt64} {docs : List Payloads} {entries : List IndexEntry}
  (h : s.OpenReplica b docs entries) {want : Nat} (hover : want < endOf docs)

include h

theorem Shard.OpenReplica.indexed : s.blockIndexHasEntryAtOrPast b want =
    .ok (entries.any fun e => want ≤ e.firstFrameOff) := by
  rw [Shard.blockIndexHasEntryAtOrPast, h.idx]

include hover

/-- The scan finds the boundaries: behind each there is a Document of the overhang. -/
theorem Shard.OpenReplica.starts :
    startsDocumentAt headerSize want (blkOf docs).frames = true ↔
      ∃ kept, kept <+: docs ∧ want = endOf kept := by
  rw [startsDocumentAt_iff]
  constructor
  · rintro ⟨fs, g, gs, hframes, hwant, hg⟩
    obtain ⟨k, d, j, p, hd, hp, -, hseq, rfl⟩ := Disk.exists_place hframes
    obtain ⟨hj, -⟩ := List.getElem?_eq_some_iff.mp hp
    have hlen := h.numbered d (List.mem_of_getElem? hd)
    -- a Frame numbered zero is the first of its Document
    obtain rfl : j = 0 := by
      rw [hseq, ← UInt32.toNat_inj, UInt32.toNat_ofNat', UInt32.toNat_zero] at hg
      omega
    refine ⟨docs.take k, List.take_prefix k docs, ?_⟩
    simp [endOf, docsSize, ← hwant]
  · rintro ⟨kept, ⟨rest, rfl⟩, rfl⟩
    cases rest with
    | nil => simp at hover
    | cons d rest => ?_
    obtain ⟨p, ps, hps⟩ := List.exists_cons_of_ne_nil d.2
    have hd : (kept ++ d :: rest)[kept.length]? = some d := by simp
    have hp : d.val[0]? = some p := by simp [hps]
    obtain ⟨g, gs, hframes, -, hg⟩ := Disk.encodeDocs_frame hd hp
    rw [List.take_left, List.take_zero, List.append_nil] at hframes
    exact ⟨_, g, gs, hframes, rfl, hg⟩

theorem rollbackReplicaOverhang_refused (hno : ∀ kept, ¬ Cuttable docs entries want kept) :
    ∃ err, (rollbackReplicaOverhang b want (writerAt b docs)).run s = .error err s := by
  rw [rollbackReplicaOverhang, get_bind, h.indexed]
  cases hany : entries.any fun e => want ≤ e.firstFrameOff with
  | true => exact ⟨_, rfl⟩
  | false => ?_
  have hstart : startsDocumentAt headerSize want (blkOf docs).frames = false := by
    refine Bool.eq_false_iff.mpr fun hstart => ?_
    obtain ⟨kept, hkept, hwant⟩ := (h.starts hover).mp hstart
    exact hno kept ⟨fun e he => by simpa using List.any_eq_false.mp hany e he, hkept, hwant⟩
  simp only [h.blk, hstart]
  exact ⟨_, rfl⟩

theorem rollbackReplicaOverhang_cut (hint : want ≤ maxInt64) {kept : List Payloads}
    (hcut : Cuttable docs entries want kept) :
    (rollbackReplicaOverhang b want (writerAt b docs)).run s = .ok () (s.rolledBack b kept) := by
  obtain ⟨hidx, hkept, hwant⟩ := hcut
  have hany : (entries.any fun e => want ≤ e.firstFrameOff) = false :=
    List.any_eq_false.mpr fun e he => by simpa using hidx e he
  have hstart := (h.starts hover).mpr ⟨kept, hkept, hwant⟩
  obtain ⟨rest, rfl⟩ := hkept
  have htruncate : (writerAt b (kept ++ rest)).truncate (blkOf (kept ++ rest)) want =
      (.ok (), writerAt b kept, blkOf kept) := by
    rw [hwant, blkOf, encodeDocs_append]
    exact Writer.truncate_boundary (endOf_le_append kept rest)
  rw [rollbackReplicaOverhang, get_bind, h.indexed, hany]
  simp only [h.blk, hstart, htruncate]
  -- an offset beyond the int64 range is saturated, and lies behind `want` either way
  have hpreps : ∀ p : OpenlogEntry, safeUint64ToInt64 p.startOffset < want ↔
      p.startOffset.toNat < endOf kept := by
    intro p
    unfold safeUint64ToInt64
    split <;> omega
  simp [Shard.rolledBack, Shard.removeOverhangPreps, hpreps, imp_iff_not_or, Shard.setBlk,
    Shard.setBlock]

end Rollback

/-- A replica ahead of the leader is rolled back exactly to the boundaries behind its indexed
Documents; a refused roll-back changes nothing. -/
theorem overhang_rollback (c : Crypto) (now : Int) (peers : List (Option StagedBlock)) {s : Shard}
    {b : UInt64} {docs : List Payloads} {entries : List IndexEntry}
    (h : s.OpenReplica b docs entries) {want : Nat} (hint : want ≤ maxInt64)
    (hover : want < endOf docs) :
    ((∃ s', (ensureReplicaAppendOffset c b want now peers (writerAt b docs)).run s = .ok () s') ↔
      (∀ e ∈ entries, e.firstFrameOff < want) ∧ ∃ kept, kept <+: docs ∧ want = endOf kept) ∧
    (∀ s', (ensureReplicaAppendOffset c b want now peers (writerAt b docs)).run s = .ok () s' →
      ∃ kept, kept <+: docs ∧ want = endOf kept ∧ s' = s.rolledBack b kept) ∧
    ∀ err s', (ensureReplicaAppendOffset c b want now peers (writerAt b docs)).run s =
      .error err s' → s' = s := by
  have hahead : ¬ (writerAt b docs).offset < want := Nat.not_lt.mpr (Nat.le_of_lt hover)
  by_cases hcut : ∃ kept, Cuttable docs entries want kept
  · obtain ⟨kept, hcut⟩ := hcut
    have hrun : (ensureReplicaAppendOffset c b want now peers (writerAt b docs)).run s =
        .ok () (s.rolledBack b kept) := by
      rw [ensureReplicaAppendOffset, if_neg hahead, trimReplicaOverhang]
      simp only [get_bind, h.writer, if_pos (show want < (writerAt b docs).offset from hover),
        bind_of_ok (rollbackReplicaOverhang_cut h hover hint hcut)]
      simp [Shard.rolledBack, writerAt, hcut.2.2]
    rw [hrun]
    refine ⟨⟨fun _ => ⟨hcut.1, kept, hcut.2⟩, fun _ => ⟨_, rfl⟩⟩, fun s' hs' => ?_,
      fun _ _ herr => by cases herr⟩
    cases hs'
    exact ⟨kept, hcut.2.1, hcut.2.2, rfl⟩
  · obtain ⟨err, hrefused⟩ :=
      rollbackReplicaOverhang_refused h hover fun kept hkept => hcut ⟨kept, hkept⟩
    have hrun : (ensureReplicaAppendOffset c b want now peers (writerAt b docs)).run s =
        .error err s := by
      rw [ensureReplicaAppendOffset, if_neg hahead, trimReplicaOverhang]
      simp only [get_bind, h.writer, if_pos (show want < (writerAt b docs).offset from hover),
        bind_of_error hrefused]
    rw [hrun]
    refine ⟨⟨fun hok => ?_, fun hcan => ?_⟩, (fun _ hok => by cases hok), fun _ s' herr => ?_⟩
    · obtain ⟨_, hok⟩ := hok
      cases hok
    · obtain ⟨hidx, kept, hkept⟩ := hcan
      exact absurd ⟨kept, hidx, hkept⟩ hcut
    · exact (EStateM.Result.error.inj herr).2.symm

/-- The leader has aborted the second of two Documents that this replica holds. -/
def abortedY : Shard :=
  { receiveTwo (Shard.fresh 1 true) with
    openlog := [⟨"a", "t", "x", 1, 40, "text/plain"⟩, ⟨"b", "t", "y", 1, 80, "text/plain"⟩] }

theorem overhang_rollback_aborted : abortedY.OpenReplica 1 [eightBytes, eightBytes] [] ∧
    ∃ s', (ensureReplicaAppendOffset keylessCrypto 1 80 0 []
      (writerAt 1 [eightBytes, eightBytes])).run abortedY = .ok () s' ∧
      s'.openlog.map (·.writeID) = ["a"] := by
  have hopen : abortedY.OpenReplica 1 [eightBytes, eightBytes] [] :=
    ⟨rfl, rfl, rfl, by simp [eightBytes]⟩
  obtain ⟨hok, hcut, -⟩ :=
    overhang_rollback keylessCrypto 0 [] hopen (show 80 ≤ maxInt64 by decide) (by decide)
  obtain ⟨s', hs'⟩ := hok.mpr ⟨by simp, [eightBytes], ⟨[eightBytes], rfl⟩, by decide⟩
  obtain ⟨kept, -, hwant, rfl⟩ := hcut s' hs'
  refine ⟨hopen, _, hs', ?_⟩
  simp [Shard.rolledBack, ← hwant, abortedY]

end Scrap
