/-
# A Block that is whole verifies

`verifyBlock` holds the Frames with `doc_seq` `i` against `.idx` record `i`; a read goes by the
offset in the record. The two agree when record `i` names exactly the Frames with `doc_seq` `i`
(`BlkFile.Numbers`), and then a Block whose committed Documents are all there has no corrupt Frame
(`verifyFrames_clean`), whatever else it holds.
-/
import Mathlib.Data.List.Induction
import Scrap.Block.Reader

namespace Scrap.Block

open Function

def BlkFile.framesOf (f : BlkFile) (e : IndexEntry) : List Frame :=
  (framesAt e.firstFrameOff headerSize f.frames).take e.frameCount.toNat

/-- The Document of the record is in the file: whole, at its offset, and with its digest. -/
def BlkFile.HasDoc (c : Crypto) (f : BlkFile) (e : IndexEntry) : Prop :=
  ∃ (seq : UInt32) (d : Payloads), f.framesOf e = docFrames seq 0 d.val ∧
    d.val.length = e.frameCount.toNat ∧ checkDocEntry c d.val.flatten e = []

/-- Record `i` names the Frames with `doc_seq` `i`. -/
def BlkFile.Numbers (f : BlkFile) (entries : List IndexEntry) : Prop :=
  ∀ i e, entries[i]? = some e →
    f.frames.filter (fun fr => fr.docSeq = UInt32.ofNat i) = f.framesOf e

instance (f : BlkFile) (entries : List IndexEntry) : Decidable (f.Numbers entries) :=
  @decidable_of_iff _ (∀ p ∈ entries.zipIdx,
      f.frames.filter (fun fr => fr.docSeq = UInt32.ofNat p.2) = f.framesOf p.1)
    ⟨fun h i e he => h (e, i) (List.mem_zipIdx_iff_getElem?.mpr he),
      fun h p hp => h p.2 p.1 (List.mem_zipIdx_iff_getElem?.mp hp)⟩
    (List.decidableBAll _ _)

/-! ## The Frames of one Document -/

theorem docFrames_docSeq {seq : UInt32} : ∀ {fseq : UInt32} {ps : List (List UInt8)} {fr : Frame},
    fr ∈ docFrames seq fseq ps → fr.docSeq = seq
  | _, [], _, h => nomatch h
  | _, p :: ps, fr, h => by
    rw [docFrames_cons] at h
    rcases List.mem_cons.mp h with rfl | h
    · rfl
    · exact docFrames_docSeq h

theorem isLastFrame_iff_of_docFrames {seq : UInt32} : ∀ {fseq : UInt32} {ps : List (List UInt8)}
    {pre post : List Frame} {fr : Frame}, docFrames seq fseq ps = pre ++ fr :: post →
      (isLastFrame fr.flags = true ↔ post = [])
  | _, [], pre, post, fr, h => by simp [docFrames] at h
  | fseq, p :: ps, pre, post, fr, h => by
    rw [docFrames_cons] at h
    cases pre with
    | nil =>
      obtain ⟨rfl, hpost⟩ := List.cons.inj h
      rw [isLastFrame_frameFlags, ← hpost, docFrames_eq_nil, List.isEmpty_iff]
    | cons g pre => exact isLastFrame_iff_of_docFrames (List.cons.inj h).2

/-! ## The loop -/

section Loop

variable (c : Crypto) (entries : List IndexEntry) (k : UInt32)

theorem foldl_offset (fs : List Frame) (st : VerifyState) :
    (fs.foldl (verifyFrame c entries) st).offset = st.offset + framesSize fs := by
  induction fs generalizing st with
  | nil => simp
  | cons f fs ih =>
    rw [List.foldl_cons, ih, framesSize_cons]
    simp only [verifyFrame]
    omega

theorem foldl_framesByDocSeq (fs : List Frame) (st : VerifyState) :
    (fs.foldl (verifyFrame c entries) st).framesByDocSeq k =
      st.framesByDocSeq k + UInt32.ofNat (fs.filter (fun fr => fr.docSeq = k)).length := by
  induction fs generalizing st with
  | nil => simp
  | cons f fs ih =>
    rw [List.foldl_cons, ih]
    by_cases hk : f.docSeq = k
    · subst hk
      simp only [verifyFrame, update_self, List.filter_cons, decide_true, if_true,
        List.length_cons, UInt32.ofNat_add, UInt32.ofNat_one]
      ac_rfl
    · simp [verifyFrame, (Ne.symm hk), hk]

theorem foldl_completedDocSeq (fs : List Frame) (st : VerifyState) :
    (fs.foldl (verifyFrame c entries) st).completedDocSeq k = (st.completedDocSeq k ||
        (fs.filter (fun fr => fr.docSeq = k)).any (fun fr => isLastFrame fr.flags)) := by
  induction fs generalizing st with
  | nil => simp
  | cons f fs ih =>
    rw [List.foldl_cons, ih]
    by_cases hk : f.docSeq = k
    · subst hk
      cases hlast : isLastFrame f.flags <;> simp [verifyFrame, hlast]
    · cases hlast : isLastFrame f.flags <;>
        simp [verifyFrame, hlast, hk, (Ne.symm hk)]

theorem foldl_docBySeq (fs : List Frame) (st : VerifyState)
    (h : ∀ fr ∈ fs.filter (fun fr => fr.docSeq = k), isLastFrame fr.flags = false) :
    (fs.foldl (verifyFrame c entries) st).docBySeq k =
      st.docBySeq k ++ ((fs.filter (fun fr => fr.docSeq = k)).map Frame.payload).flatten := by
  induction fs generalizing st with
  | nil => simp
  | cons f fs ih =>
    by_cases hk : f.docSeq = k
    · subst hk
      have hlast := h f (by simp)
      rw [List.foldl_cons, ih _ fun fr hfr => h fr (by simpa using .inr (by simpa using hfr))]
      simp [verifyFrame, hlast]
    · rw [List.foldl_cons, ih _ fun fr hfr => h fr (by simpa [hk] using hfr)]
      simp [verifyFrame, (Ne.symm hk), hk]

theorem foldl_corruptFrames (fs : List Frame)
    (h : ∀ pre fr post, fs = pre ++ fr :: post → isLastFrame fr.flags = true →
      checkDocIntegrity c entries
        ((pre.foldl (verifyFrame c entries) .start).docBySeq fr.docSeq ++ fr.payload)
        fr.docSeq = []) :
    (fs.foldl (verifyFrame c entries) .start).corruptFrames = [] := by
  induction fs using List.reverseRecOn with
  | nil => rfl
  | append_singleton fs f ih =>
    rw [List.foldl_append, List.foldl_cons]
    have hfs := ih fun pre fr post heq => h pre fr (post ++ [f]) (by simp [heq])
    simp only [verifyFrame, hfs]
    split
    · rename_i hlast
      rw [h fs f [] rfl hlast]
      rfl
    · rfl

end Loop

/-! ## A whole Block -/

section Whole

variable {c : Crypto} {entries : List IndexEntry} {f : BlkFile} {e : IndexEntry} {i : Nat}

theorem BlkFile.Numbers.hasDoc (hn : f.Numbers entries) (he : entries[i]? = some e)
    (hd : f.HasDoc c e) :
    ∃ d : Payloads, f.frames.filter (fun fr => fr.docSeq = UInt32.ofNat i) =
        docFrames (UInt32.ofNat i) 0 d.val ∧
      d.val.length = e.frameCount.toNat ∧ checkDocEntry c d.val.flatten e = [] := by
  obtain ⟨seq, d, hframes, hlen, hcheck⟩ := hd
  have hfilter := (hn i e he).trans hframes
  obtain ⟨fr, rest, hfr⟩ := List.exists_cons_of_ne_nil (docFrames_ne_nil seq 0 d.2)
  have hmem : fr ∈ docFrames seq 0 d.val := hfr ▸ List.mem_cons_self
  obtain rfl : UInt32.ofNat i = seq := by
    rw [← docFrames_docSeq hmem]
    rw [← hfilter] at hmem
    exact (of_decide_eq_true (List.mem_filter.mp hmem).2).symm
  exact ⟨d, hfilter, hlen, hcheck⟩

theorem checkDocIntegrity_of_hasDoc (hn : f.Numbers entries)
    (hd : ∀ e ∈ entries, f.HasDoc c e) {pre post : List Frame} {fr : Frame}
    (hsplit : f.frames = pre ++ fr :: post) (hlast : isLastFrame fr.flags = true) :
    checkDocIntegrity c entries
      ((pre.foldl (verifyFrame c entries) .start).docBySeq fr.docSeq ++ fr.payload)
      fr.docSeq = [] := by
  unfold checkDocIntegrity
  cases he : entries[fr.docSeq.toNat]? with
  | none => rfl
  | some e => ?_
  obtain ⟨d, hfilter, -, hcheck⟩ := hn.hasDoc he (hd e (List.mem_of_getElem? he))
  rw [UInt32.ofNat_toNat, hsplit, List.filter_append, List.filter_cons, if_pos (by simp)]
    at hfilter
  -- the Frame is the last one of its Document
  have hpost := (isLastFrame_iff_of_docFrames hfilter.symm).mp hlast
  rw [hpost] at hfilter
  have hmore : ∀ fr' ∈ pre.filter (fun fr' => fr'.docSeq = fr.docSeq),
      isLastFrame fr'.flags = false := by
    intro fr' hfr'
    obtain ⟨as, bs, habs⟩ := List.append_of_mem hfr'
    rw [habs, List.append_assoc] at hfilter
    have hiff := isLastFrame_iff_of_docFrames hfilter.symm
    simpa using hiff
  have hpayload := congrArg (List.map Frame.payload) hfilter
  rw [payloads_docFrames] at hpayload
  have hstart : VerifyState.start.docBySeq fr.docSeq = [] := rfl
  rw [foldl_docBySeq c entries fr.docSeq pre .start hmore, hstart]
  rw [← hpayload] at hcheck
  simpa using hcheck

theorem missing_of_hasDoc (hn : f.Numbers entries) (he : entries[i]? = some e)
    (hd : f.HasDoc c e) :
    (f.frames.foldl (verifyFrame c entries) .start).missing i e = false := by
  obtain ⟨d, hfilter, hlen, -⟩ := hn.hasDoc he hd
  have hframes := foldl_framesByDocSeq c entries (UInt32.ofNat i) f.frames .start
  have hdone := foldl_completedDocSeq c entries (UInt32.ofNat i) f.frames .start
  have hcount : UInt32.ofNat d.val.length = e.frameCount := by rw [hlen, UInt32.ofNat_toNat]
  have hzero : e.frameCount ≠ 0 := by
    intro h0
    rw [h0] at hlen
    exact d.2 (List.length_eq_zero_iff.mp hlen)
  have hany : (docFrames (UInt32.ofNat i) 0 d.val).any (fun fr => isLastFrame fr.flags) = true := by
    obtain ⟨init, fr, hinit⟩ :=
      (List.eq_nil_or_concat _).resolve_left (docFrames_ne_nil (UInt32.ofNat i) 0 d.2)
    rw [hinit]
    rw [List.concat_eq_append] at hinit
    simp [(isLastFrame_iff_of_docFrames hinit).mpr rfl]
  rw [hfilter, length_docFrames, hcount] at hframes
  rw [hfilter, hany] at hdone
  have hstart : VerifyState.start.framesByDocSeq (UInt32.ofNat i) = 0 := rfl
  rw [hstart] at hframes
  simp [VerifyState.missing, hframes, hdone, hzero]

theorem recordMissingIndexedFrames_eq_nil {st : VerifyState} : ∀ {es : List IndexEntry} {n : Nat},
    (∀ j e, es[j]? = some e → st.missing (n + j) e = false) →
      recordMissingIndexedFrames st n es = []
  | [], _, _ => rfl
  | e :: es, n, h => by
    have hhead := h 0 e rfl
    have htail : recordMissingIndexedFrames st (n + 1) es = [] := by
      refine recordMissingIndexedFrames_eq_nil fun j e' he' => ?_
      have hnext := h (j + 1) e' (by simpa using he')
      rwa [Nat.add_assoc, Nat.add_comm 1 j]
    rw [Nat.add_zero] at hhead
    simp [recordMissingIndexedFrames, hhead, htail]

theorem verifyFrames_clean (hn : f.Numbers entries) (hd : ∀ e ∈ entries, f.HasDoc c e)
    (ht : f.torn < frameHeaderSize) : (verifyFrames c f entries).corruptFrames = [] := by
  have hloop := foldl_corruptFrames c entries f.frames
    fun pre fr post => checkDocIntegrity_of_hasDoc hn hd
  have hmissing : recordMissingIndexedFrames
      (f.frames.foldl (verifyFrame c entries) .start) 0 entries = [] := by
    refine recordMissingIndexedFrames_eq_nil fun j e he => ?_
    rw [Nat.zero_add]
    exact missing_of_hasDoc hn he (hd e (List.mem_of_getElem? he))
  simp [verifyFrames, ht, hloop, hmissing]

end Whole

end Scrap.Block
