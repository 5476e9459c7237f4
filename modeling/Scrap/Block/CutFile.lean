/-
# A `.blk` file that a crash has cut

A crash leaves the first `n` bytes of a Block. The scan of `OpenWriter` takes an end of the file
for a normal one if `ReadFrame` reports `io.EOF`: between two Frames, as it should, and also right
behind a Frame header. Behind whole Documents a bare header therefore goes unnoticed, and the file
is 32 bytes longer than the writer's offset.

The scan knows an incomplete Document by its `frame_seq`, a `uint32`, so a Document of more than
`2 ^ 32` Frames has places of its own where it passes for complete.
-/
import Scrap.Block.DiskWriter

namespace Scrap.Block.Disk

open Bytes

def frameOffset (ds : List Payloads) (k : Nat) (d : Payloads) (j : Nat) : Nat :=
  endOf (ds.take k) + framesSize ((docFrames (UInt32.ofNat k) 0 d.val).take j)

/-- The cut is not right behind the header of a Document's first Frame, nor inside a Document whose
Frames before it have brought `frame_seq` back to zero. -/
def CutClear (ds : List Payloads) (n : Nat) : Prop :=
  ∀ (k : Nat) (d : Payloads) (j : Nat) (p : List UInt8), ds[k]? = some d → d.val[j]? = some p →
    UInt32.ofNat j = 0 →
    (p ≠ [] → n ≠ frameOffset ds k d j + frameHeaderSize) ∧ (j ≠ 0 → n ≠ frameOffset ds k d j)

/-! ## Places in a file -/

section Places

variable {ds : List Payloads} {k j : Nat} {d : Payloads} {p : List UInt8}

theorem docFrames_eq_take_cons (seq : UInt32) : ∀ {ps : List (List UInt8)} {j : Nat}
    {p : List UInt8} (fseq : UInt32), ps[j]? = some p →
    ∃ g after, docFrames seq fseq ps = (docFrames seq fseq ps).take j ++ g :: after ∧
      g.payload = p ∧ g.frameSeq = fseq + UInt32.ofNat j
  | [], _, _, _, h => by simp at h
  | q :: ps, 0, p, fseq, h => by
    rw [docFrames_cons]
    exact ⟨_, _, rfl, by simpa using h, by simp⟩
  | q :: ps, j + 1, p, fseq, h => by
    obtain ⟨g, after, heq, hg, hseq⟩ :=
      docFrames_eq_take_cons seq (fseq + 1) (by simpa using h)
    refine ⟨g, after, ?_, hg, ?_⟩
    · rw [docFrames_cons, List.take_succ_cons, List.cons_append, ← heq]
    · rw [hseq, UInt32.ofNat_add]
      ac_rfl

theorem encodeDocs_at (hd : ds[k]? = some d) :
    ∃ after, encodeDocs 0 ds =
      encodeDocs 0 (ds.take k) ++ (docFrames (UInt32.ofNat k) 0 d.val ++ after) := by
  obtain ⟨hk, rfl⟩ := List.getElem?_eq_some_iff.mp hd
  have hsplit : ds = ds.take k ++ ds[k] :: ds.drop (k + 1) := by
    rw [List.getElem_cons_drop, List.take_append_drop]
  refine ⟨encodeDocs (UInt32.ofNat k + 1) (ds.drop (k + 1)), ?_⟩
  have hlen : (ds.take k).length = k := List.length_take_of_le (Nat.le_of_lt hk)
  conv_lhs => rw [hsplit, encodeDocs_append, hlen, UInt32.zero_add, encodeDocs]

theorem encodeDocs_frame (hd : ds[k]? = some d) (hp : d.val[j]? = some p) :
    ∃ g after, encodeDocs 0 ds =
        encodeDocs 0 (ds.take k) ++ (docFrames (UInt32.ofNat k) 0 d.val).take j ++ g :: after ∧
      g.size = frameHeaderSize + p.length ∧ g.frameSeq = UInt32.ofNat j := by
  obtain ⟨rest, hdocs⟩ := encodeDocs_at hd
  obtain ⟨g, after, hframes, rfl, hseq⟩ := docFrames_eq_take_cons (UInt32.ofNat k) 0 hp
  refine ⟨g, after ++ rest, ?_, rfl, by simpa using hseq⟩
  rw [hdocs]
  conv_lhs => rw [hframes]
  simp only [List.append_assoc, List.cons_append]

theorem exists_place : ∀ {ds : List Payloads} {seq : UInt32} {before after : List Frame} {g : Frame},
    encodeDocs seq ds = before ++ g :: after →
    ∃ k d j p, ds[k]? = some d ∧ d.val[j]? = some p ∧ g.size = frameHeaderSize + p.length ∧
      g.frameSeq = UInt32.ofNat j ∧
      before = encodeDocs seq (ds.take k) ++ (docFrames (seq + UInt32.ofNat k) 0 d.val).take j := by
  intro ds
  induction ds with
  | nil =>
    intro seq before after g h
    simp [encodeDocs] at h
  | cons d ds ih =>
    intro seq before after g h
    have hzero : seq + UInt32.ofNat 0 = seq := by simp
    rcases List.append_eq_append_iff.mp h with ⟨mid, hbefore, hrest⟩ | ⟨mid, hdoc, hrest⟩
    · -- the Frame is behind the first Document
      obtain ⟨k, d', j, p, hd, hp, hg, hseq, rfl⟩ := ih hrest
      refine ⟨k + 1, d', j, p, by simpa using hd, hp, hg, hseq, ?_⟩
      rw [hbefore, List.take_succ_cons, encodeDocs, UInt32.ofNat_add]
      ac_rfl
    · cases mid with
      | nil =>
        -- the first Document ends where the Frame starts
        rw [List.append_nil] at hdoc
        have hstart : encodeDocs (seq + 1) ds = [] ++ g :: after := by simpa using hrest.symm
        obtain ⟨k, d', j, p, hd, hp, hg, hseq, hnil⟩ := ih hstart
        refine ⟨k + 1, d', j, p, by simpa using hd, hp, hg, hseq, ?_⟩
        have hcut : encodeDocs (seq + 1) (ds.take k) ++
            (docFrames (seq + UInt32.ofNat (k + 1)) 0 d'.val).take j = [] := by
          rw [hnil, UInt32.ofNat_add]
          ac_rfl
        rw [List.take_succ_cons, encodeDocs, List.append_assoc, hcut, List.append_nil, hdoc]
      | cons g' mid =>
        obtain ⟨rfl, -⟩ := List.cons.inj hrest
        have hlen : before.length < d.val.length := by
          rw [← length_docFrames seq 0, hdoc, List.length_append, List.length_cons]
          omega
        have hp := List.getElem?_eq_getElem hlen
        obtain ⟨g', after', hsplit, hpay, hseq⟩ := docFrames_eq_take_cons seq 0 hp
        conv_lhs at hsplit => rw [hdoc]
        rw [hdoc, List.take_left] at hsplit
        obtain ⟨rfl, -⟩ := List.cons.inj (List.append_cancel_left hsplit)
        refine ⟨0, d, before.length, _, rfl, hp, by rw [Frame.size, hpay], by simpa using hseq, ?_⟩
        rw [hzero, hdoc, List.take_left]
        rfl

theorem frameOffset_bounds (hd : ds[k]? = some d) (hp : d.val[j]? = some p) :
    (j ≠ 0 → endOf (ds.take k) < frameOffset ds k d j) ∧
      frameOffset ds k d j + (frameHeaderSize + p.length) ≤ endOf (ds.take (k + 1)) := by
  obtain ⟨g, after, hframes, rfl, -⟩ := docFrames_eq_take_cons (UInt32.ofNat k) 0 hp
  have hend : endOf (ds.take (k + 1)) =
      endOf (ds.take k) + framesSize (docFrames (UInt32.ofNat k) 0 d.val) := by
    rw [List.take_add_one, hd, Option.toList_some, endOf_append, docsSize, encodeDocs, encodeDocs,
      List.append_nil, framesSize_docFrames, framesSize_docFrames]
  refine ⟨fun hj => ?_, ?_⟩
  · obtain ⟨q, qs, hqs⟩ := List.exists_cons_of_ne_nil d.2
    obtain ⟨i, rfl⟩ := Nat.exists_eq_succ_of_ne_zero hj
    have hpos := (⟨frameFlags 0 (qs.isEmpty), UInt32.ofNat k, 0, q⟩ : Frame).size_pos
    rw [frameOffset, hqs, docFrames_cons, List.take_succ_cons, framesSize_cons]
    omega
  · have hsize := congrArg framesSize hframes
    rw [framesSize_append, framesSize_cons] at hsize
    rw [frameOffset, hend, hsize, Frame.size]
    omega

theorem endOf_take_le (ds : List Payloads) {i k : Nat} (h : i ≤ k) :
    endOf (ds.take i) ≤ endOf (ds.take k) := by
  have hle := endOf_le_append ((ds.take k).take i) ((ds.take k).drop i)
  rwa [List.take_append_drop, List.take_take, Nat.min_eq_left h] at hle

theorem exists_cut_place {n : Nat} (hhead : headerSize ≤ n) (hend : n ≤ endOf ds) :
    n = endOf ds ∨ ∃ k d j p t, ds[k]? = some d ∧ d.val[j]? = some p ∧
      t < frameHeaderSize + p.length ∧ n = frameOffset ds k d j + t := by
  rcases exists_frame_at (encodeDocs 0 ds) (n - headerSize)
    (by rw [endOf, docsSize] at hend; omega) with hall | ⟨before, g, after, t, hsplit, ht, hn⟩
  · exact .inl (by rw [endOf, docsSize]; omega)
  obtain ⟨k, d, j, p, hd, hp, hg, -, rfl⟩ := exists_place hsplit
  refine .inr ⟨k, d, j, p, t, hd, hp, by omega, ?_⟩
  rw [UInt32.zero_add, framesSize_append] at hn
  rw [frameOffset, endOf, docsSize]
  omega

end Places

/-! ## Opening it -/

/-- The scan of a Document that is not finished: only its Frame count tells. -/
theorem scanFrames_unfinished (seq count : UInt32) : ∀ (ps : List (List UInt8)) (j offset : Nat)
    (fseq : UInt32), j < ps.length →
    scanFrames 0 offset seq fseq count ((docFrames seq fseq ps).take j) =
      if fseq + UInt32.ofNat j = 0 then
        .ok (offset + framesSize ((docFrames seq fseq ps).take j), seq, count)
      else .error .incompleteDocument
  | p :: ps, 0, offset, fseq, _ => by by_cases hseq : fseq = 0 <;> simp [scanFrames, tailIsEOF]
  | p :: ps, j + 1, offset, fseq, hj => by
    have hj' : j < ps.length := by simpa using hj
    have hmore : ps.isEmpty = false := by
      cases ps with
      | nil => simp at hj'
      | cons q qs => rfl
    have hnext : fseq + 1 + UInt32.ofNat j = fseq + UInt32.ofNat (j + 1) := by
      rw [UInt32.ofNat_add]
      ac_rfl
    have hlast : isLastFrame (frameFlags fseq false) = false := by
      by_cases hseq : fseq = 0 <;> simp [hseq, frameFlags] <;> decide
    rw [docFrames_cons, List.take_succ_cons, framesSize_cons, hmore]
    simp only [scanFrames, validateWriterScanFrame, hlast]
    rw [← hnext, ← Nat.add_assoc, ← scanFrames_unfinished seq count ps j _ (fseq + 1) hj']
    simp

section Open

variable (crc32c : List UInt8 → UInt32) (shardID blockID createdAtUs : UInt64)
variable {ds : List Payloads} (hfit : DocsFit ds)
include hfit

/-- A cut `t` bytes into a Frame: the file opens if the end passes for one between two Frames and
the Document for complete. -/
theorem openWriter_cut_frame {k j t : Nat} {d : Payloads} {p : List UInt8} {w : Writer}
    (hd : ds[k]? = some d) (hp : d.val[j]? = some p) (ht : t < frameHeaderSize + p.length) :
    openWriter crc32c ((blkBytes crc32c shardID blockID createdAtUs ds).take (frameOffset ds k d j + t))
        shardID blockID = .ok w ↔
      (tailIsEOF t = true ∧ UInt32.ofNat j = 0) ∧
        w = ⟨blockID, frameOffset ds k d j, UInt32.ofNat k, UInt32.ofNat k⟩ := by
  obtain ⟨g, after, hsplit, hg, -⟩ := encodeDocs_frame hd hp
  generalize hbefore : encodeDocs 0 (ds.take k) ++
    (docFrames (UInt32.ofNat k) 0 d.val).take j = before at hsplit
  have hsize : frameOffset ds k d j = headerSize + framesSize before := by
    rw [← hbefore, frameOffset, endOf, docsSize, framesSize_append, Nat.add_assoc]
  have htake : (blkBytes crc32c shardID blockID createdAtUs ds).take (frameOffset ds k d j + t) =
      encodeHeader crc32c shardID blockID createdAtUs ++
        (encodeFrames crc32c (encodeDocs 0 ds)).take (framesSize before + t) := by
    rw [blkBytes, hsize, Nat.add_assoc, ← length_encodeHeader crc32c shardID blockID createdAtUs,
      List.take_length_add_append]
  have hle : framesSize before + t ≤ framesSize (encodeDocs 0 ds) := by
    rw [hsplit, framesSize_append, framesSize_cons]
    omega
  have hk : k < ds.length := (List.getElem?_eq_some_iff.mp hd).1
  have hj : j < d.val.length := (List.getElem?_eq_some_iff.mp hp).1
  have hlen : (ds.take k).length = k := List.length_take_of_le (Nat.le_of_lt hk)
  have hscan : scanFrames 0 headerSize 0 0 0 before =
      if UInt32.ofNat j = 0 then .ok (frameOffset ds k d j, UInt32.ofNat k, UInt32.ofNat k)
      else .error .incompleteDocument := by
    rw [← hbefore, scanFrames_encodeDocs, hlen, UInt32.zero_add,
      scanFrames_unfinished (UInt32.ofNat k) (UInt32.ofNat k) d.val j _ 0 hj, UInt32.zero_add]
    rfl
  rw [htake, openWriter_cut crc32c shardID blockID createdAtUs (hfit.encodeDocs 0) hle, hsplit,
    cutFrames_inside g after (by omega) before, openWriter_torn, openWriter_ok, hscan, and_assoc]
  refine and_congr_right fun _ => ?_
  obtain ⟨blockID', offset, docSeq, docCount⟩ := w
  by_cases hzero : UInt32.ofNat j = 0
  · simp only [hzero, if_true, Except.ok.injEq, Prod.mk.injEq, Writer.mk.injEq, true_and]
    exact ⟨fun h => ⟨h.1, h.2.1.symm, h.2.2.1.symm, h.2.2.2.symm⟩,
      fun h => ⟨h.1, h.2.1.symm, h.2.2.1.symm, h.2.2.2.symm⟩⟩
  · simp [hzero]

end Open

/-- A cut file is refused, or opened at its end and that of a Document: exactly when the scan does
not take the cut for a normal end. -/
theorem cut_file_opens (crc32c : List UInt8 → UInt32) (shardID blockID createdAtUs : UInt64)
    (ds : List Payloads) (hfit : DocsFit ds) (n : Nat) (hhead : headerSize ≤ n) (hend : n ≤ endOf ds) :
    ((∃ err, openWriter crc32c ((blkBytes crc32c shardID blockID createdAtUs ds).take n)
        shardID blockID = .error err) ∨
      ∃ w, openWriter crc32c ((blkBytes crc32c shardID blockID createdAtUs ds).take n)
          shardID blockID = .ok w ∧
        w.offset = ((blkBytes crc32c shardID blockID createdAtUs ds).take n).length ∧
        ∃ k, w.offset = endOf (ds.take k)) ↔
      CutClear ds n := by
  have hlen : ((blkBytes crc32c shardID blockID createdAtUs ds).take n).length = n := by
    rw [List.length_take_of_le]
    rwa [length_blkBytes]
  rw [hlen]
  constructor
  · rintro hopen k d j p hd hp hzero
    -- at each of these places the scan ends as it does between two Documents
    have hopens : ∀ t, tailIsEOF t = true → t < frameHeaderSize + p.length →
        n = frameOffset ds k d j + t → t = 0 ∧ ∃ i, frameOffset ds k d j = endOf (ds.take i) := by
      rintro t heof ht rfl
      have hok := (openWriter_cut_frame crc32c shardID blockID createdAtUs hfit hd hp ht).mpr
        ⟨⟨heof, hzero⟩, rfl⟩
      rw [hok] at hopen
      rcases hopen with ⟨err, herr⟩ | ⟨w, hw, hoff, i, hi⟩
      · simp at herr
      · rw [← Except.ok.inj hw] at hoff hi
        exact ⟨by simpa using hoff, i, hi⟩
    refine ⟨fun hne hn => ?_, fun hj hn => ?_⟩
    · have hlong := List.length_pos_iff.mpr hne
      exact absurd (hopens frameHeaderSize rfl (by omega) hn).1 (by decide)
    obtain ⟨-, i, hi⟩ := hopens 0 rfl (by unfold frameHeaderSize; omega) hn
    obtain ⟨hafter, hbefore⟩ := frameOffset_bounds hd hp
    rcases Nat.lt_or_ge k i with hik | hik
    · have := endOf_take_le ds (Nat.succ_le_of_lt hik)
      simp only [Nat.succ_eq_add_one, frameHeaderSize] at this hbefore
      omega
    · have := endOf_take_le ds hik
      omega
  · intro hclear
    rcases exists_cut_place hhead hend with rfl | ⟨k, d, j, p, t, hd, hp, ht, rfl⟩
    · right
      rw [← length_blkBytes crc32c shardID blockID createdAtUs ds, List.take_length]
      exact ⟨_, openWriter_blkBytes crc32c shardID blockID createdAtUs hfit,
        (length_blkBytes crc32c shardID blockID createdAtUs ds).symm, ds.length,
        by rw [List.take_length]; rfl⟩
    · cases hres : openWriter crc32c ((blkBytes crc32c shardID blockID createdAtUs ds).take
          (frameOffset ds k d j + t)) shardID blockID with
      | error err => exact .inl ⟨err, rfl⟩
      | ok w =>
        obtain ⟨⟨heof, hzero⟩, rfl⟩ :=
          (openWriter_cut_frame crc32c shardID blockID createdAtUs hfit hd hp ht).mp hres
        obtain ⟨hbare, hinside⟩ := hclear k d j p hd hp hzero
        have ht0 : t = 0 := by
          rcases (by simpa [tailIsEOF] using heof : t = 0 ∨ t = frameHeaderSize) with h0 | rfl
          · exact h0
          · refine absurd rfl (hbare fun hnil => ?_)
            simp [hnil] at ht
        subst ht0
        have hj : j = 0 := Decidable.by_contra fun hj => hinside hj rfl
        subst hj
        exact .inr ⟨_, rfl, rfl, k, by simp [frameOffset]⟩

def oneFrameDoc : Payloads := ⟨[[1]], by simp⟩

theorem docsFit_oneFrameDoc : DocsFit [oneFrameDoc] := by
  intro d hd p hp
  rw [List.mem_singleton.mp hd] at hp
  rw [List.mem_singleton.mp hp]
  decide

/-- The file of this Document, cut inside its Frame header, is refused. -/
theorem cut_file_opens_inside_header :
    (∃ err, openWriter castagnoli ((blkBytes castagnoli 2 1 0 [oneFrameDoc]).take 60) 2 1 =
        .error err) ∨
      ∃ w, openWriter castagnoli ((blkBytes castagnoli 2 1 0 [oneFrameDoc]).take 60) 2 1 = .ok w ∧
        w.offset = ((blkBytes castagnoli 2 1 0 [oneFrameDoc]).take 60).length ∧
        ∃ k, w.offset = endOf ([oneFrameDoc].take k) := by
  refine (cut_file_opens castagnoli 2 1 0 [oneFrameDoc] docsFit_oneFrameDoc 60 (by decide)
    (by decide)).mpr ?_
  intro k d j p hd hp hzero
  obtain ⟨hk, rfl⟩ := List.getElem?_eq_some_iff.mp hd
  obtain rfl : k = 0 := by simpa using hk
  obtain ⟨hj, rfl⟩ := List.getElem?_eq_some_iff.mp hp
  obtain rfl : j = 0 := by simpa [oneFrameDoc] using hj
  have hplace : 60 ≠ frameOffset [oneFrameDoc] 0 oneFrameDoc 0 + frameHeaderSize := by decide
  exact ⟨fun _ => hplace, fun h => absurd rfl h⟩

/-- Cut right behind the Frame header, 72 bytes in, it opens as an empty Block, 32 bytes before the
end. -/
theorem cut_behind_header_opens :
    ¬ ((∃ err, openWriter castagnoli ((blkBytes castagnoli 2 1 0 [oneFrameDoc]).take 72) 2 1 =
        .error err) ∨
      ∃ w, openWriter castagnoli ((blkBytes castagnoli 2 1 0 [oneFrameDoc]).take 72) 2 1 = .ok w ∧
        w.offset = ((blkBytes castagnoli 2 1 0 [oneFrameDoc]).take 72).length ∧
        ∃ k, w.offset = endOf ([oneFrameDoc].take k)) := by
  have hopen : openWriter castagnoli ((blkBytes castagnoli 2 1 0 [oneFrameDoc]).take 72) 2 1 =
      .ok ⟨1, 40, 0, 0⟩ :=
    (openWriter_cut_frame castagnoli 2 1 0 docsFit_oneFrameDoc (k := 0) (j := 0) (t := 32) rfl rfl
      (by decide)).mpr ⟨⟨rfl, rfl⟩, rfl⟩
  have hlen : ((blkBytes castagnoli 2 1 0 [oneFrameDoc]).take 72).length = 72 :=
    List.length_take_of_le (by rw [length_blkBytes]; decide)
  rw [hopen]
  rintro (⟨err, herr⟩ | ⟨w, hw, hoff, -⟩)
  · simp at herr
  · rw [← Except.ok.inj hw] at hoff
    exact absurd hoff (by decide)

end Scrap.Block.Disk
