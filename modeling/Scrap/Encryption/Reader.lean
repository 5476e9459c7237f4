/-
# The decrypting reader

`DocumentDecryptor.Reader` hands out plaintext while it opens Frames:

    Read      serves from the buffer; an empty buffer is first filled by `advance`
    advance   the next Frame, authenticated, hashed and counted, or the end
    finish    lengths and digest, before io.EOF is reported

The source is a list of Frames and the error behind them. Any error that wraps `io.EOF` counts as
the end of the Frames, so what a run may report rests on the checks and not on the source.

In every run what was delivered and what waits in the buffer is what was hashed (`reads_delivered`),
and behind `io.EOF` the checks of `finish` passed (`keeps_finished`). Over Frames in memory a run
computes `DocumentDecryptor.read` piece by piece (`reads_refines`); Frames that anyone could have
changed are opened only in their places, if the AEAD cannot be forged (`keeps_inPlace`).
-/
import Scrap.Encryption.Document

namespace Scrap.Encryption

open Buffered Bytes Text

/-- What a `FrameSource` yields; `ending` is `none` for an error that is or wraps `io.EOF`. -/
structure FrameSource (ε : Type) where
  frames : List (List UInt8)
  ending : Option ε

def newSliceFrameSource (ε : Type) (frames : List (List UInt8)) : FrameSource ε := ⟨frames, none⟩

inductive ReadEnd (ε : Type) where
  | eof
  /-- `ErrIntegrity` -/
  | integrity (err : IntegrityErr)
  | source (err : ε)

/-- `hashed` is what the hasher was given, `plaintextSize` its length. -/
structure DocumentDecryptReader (ε : Type) where
  source : FrameSource ε
  hashed : List UInt8
  buf : List UInt8
  frameSeq : UInt32
  ciphertextSize : Nat
  err : Option (ReadEnd ε)

variable {body : List UInt8} {n : Nat}

namespace DocumentDecryptReader

variable {ε : Type} (S : Suite) (d : DocumentDecryptor)

def new (source : FrameSource ε) : DocumentDecryptReader ε := ⟨source, [], [], 0, 0, none⟩

def openFrame (r : DocumentDecryptReader ε) (frame : List UInt8) :
    Except IntegrityErr (DocumentDecryptReader ε) :=
  if frame.length < aesGCMTagSize then .error (.frameTooShort r.frameSeq)
  else if d.envelope.ciphertextLength < ((r.ciphertextSize + frame.length : Nat) : Int) then
    .error .ciphertextLength
  else
    match S.openPayload d.key (frameNonce d.envelope.noncePrefix r.frameSeq) frame
      (frameAAD d.identity r.frameSeq) with
    | none => .error (.decryptFrame r.frameSeq)
    | some opened =>
      .ok { r with
        ciphertextSize := r.ciphertextSize + frame.length
        hashed := r.hashed ++ opened
        frameSeq := r.frameSeq + 1
        buf := opened }

def finish (r : DocumentDecryptReader ε) : ReadEnd ε :=
  match d.finish S r.hashed r.ciphertextSize with
  | .error err => .integrity err
  | .ok _ => .eof

def advance (r : DocumentDecryptReader ε) : DocumentDecryptReader ε :=
  match r.source.frames with
  | [] =>
    match r.source.ending with
    | none => { r with err := some (r.finish S d) }
    | some err => { r with err := some (.source err) }
  | frame :: frames =>
    let r := { r with source := { r.source with frames := frames } }
    match r.openFrame S d frame with
    | .error err => { r with err := some (.integrity err) }
    | .ok r => r

/-- The rounds that may be left. -/
def pending (r : DocumentDecryptReader ε) : Nat :=
  r.source.frames.length + if r.err.isNone then 1 else 0

variable {S d} {r r' : DocumentDecryptReader ε}

theorem openFrame_ok {frame : List UInt8} (h : r.openFrame S d frame = .ok r') :
    ∃ opened, S.openPayload d.key (frameNonce d.envelope.noncePrefix r.frameSeq) frame
        (frameAAD d.identity r.frameSeq) = some opened ∧
      r' = { r with
        ciphertextSize := r.ciphertextSize + frame.length
        hashed := r.hashed ++ opened
        frameSeq := r.frameSeq + 1
        buf := opened } := by
  unfold openFrame at h
  split_ifs at h
  cases hopen : S.openPayload d.key (frameNonce d.envelope.noncePrefix r.frameSeq) frame
      (frameAAD d.identity r.frameSeq) with
  | none => simp [hopen] at h
  | some opened =>
    simp only [hopen, Except.ok.injEq] at h
    exact ⟨opened, rfl, h.symm⟩

theorem advance_cases (r : DocumentDecryptReader ε) :
    (∃ frame frames opened, r.source.frames = frame :: frames ∧
        S.openPayload d.key (frameNonce d.envelope.noncePrefix r.frameSeq) frame
          (frameAAD d.identity r.frameSeq) = some opened ∧
        advance S d r = { r with
          source := { r.source with frames := frames }
          ciphertextSize := r.ciphertextSize + frame.length
          hashed := r.hashed ++ opened
          frameSeq := r.frameSeq + 1
          buf := opened }) ∨
      ∃ frames err, frames <:+ r.source.frames ∧ (err = .eof → r.finish S d = .eof) ∧
        advance S d r =
          { r with source := { r.source with frames := frames }, err := some err } := by
  obtain ⟨⟨frames, ending⟩, hashed, buf, frameSeq, size, err⟩ := r
  cases frames with
  | nil =>
    cases ending with
    | none => exact .inr ⟨[], _, List.suffix_refl _, id, rfl⟩
    | some err => exact .inr ⟨[], .source err, List.suffix_refl _, by simp, rfl⟩
  | cons frame frames =>
    simp only [advance]
    cases hopen : openFrame S d ⟨⟨frames, ending⟩, hashed, buf, frameSeq, size, err⟩ frame with
    | error err => exact .inr ⟨frames, .integrity err, List.suffix_cons _ _, by simp, rfl⟩
    | ok r' =>
      obtain ⟨opened, hopened, rfl⟩ := openFrame_ok hopen
      exact .inl ⟨frame, frames, opened, rfl, hopened, rfl⟩

theorem pending_advance (h : r.err = none) : (advance S d r).pending < r.pending := by
  rcases advance_cases r with
    ⟨frame, frames, opened, hframes, -, heq⟩ | ⟨frames, err, hsuffix, -, heq⟩
  · rw [heq]
    simp [pending, hframes]
  have hle := hsuffix.length_le
  rw [heq]
  simp only [pending, h, Option.isNone_some, Option.isNone_none, Bool.false_eq_true, if_false,
    if_true]
  omega

variable (S d)

/-- The loop in `Read`, up to plaintext or an error. -/
def fill (r : DocumentDecryptReader ε) : DocumentDecryptReader ε :=
  if _h : r.err.isNone ∧ r.buf = [] then fill (advance S d r) else r
termination_by r.pending
decreasing_by exact pending_advance (Option.isNone_iff_eq_none.mp _h.1)

/-- `Read` with a buffer of `n` bytes: what it is given, and its error. -/
def read (r : DocumentDecryptReader ε) (n : Nat) :
    (List UInt8 × Option (ReadEnd ε)) × DocumentDecryptReader ε :=
  let r := fill S d r
  match r.err with
  | some err => (([], some err), r)
  | none => ((r.buf.take n, none), { r with buf := r.buf.drop n })

/-- A run of reads: all they delivered, and the reader behind them, with the error of the last. -/
def reads (r : DocumentDecryptReader ε) : List Nat → List UInt8 × DocumentDecryptReader ε
  | [] => ([], r)
  | n :: ns =>
    let (out, r) := read S d r n
    let (outs, r) := reads r ns
    (out.1 ++ outs, r)

/-! ## What holds along every run -/

/-- A property of readers that a round of the loop keeps, and serving from the buffer. -/
structure Keeps (P : DocumentDecryptReader ε → Prop) : Prop where
  advance : ∀ r, r.err = none → r.buf = [] → P r → P (advance S d r)
  serve : ∀ r n, r.err = none → P r → P { r with buf := r.buf.drop n }

variable {S d}

variable {P : DocumentDecryptReader ε → Prop}

theorem Keeps.fill (hP : Keeps S d P) (h : P r) :
    P (fill S d r) := by
  induction r using fill.induct S d with
  | case1 r hempty ih =>
    rw [DocumentDecryptReader.fill, dif_pos hempty]
    exact ih (hP.advance r (Option.isNone_iff_eq_none.mp hempty.1) hempty.2 h)
  | case2 r hstop =>
    rw [DocumentDecryptReader.fill, dif_neg hstop]
    exact h

theorem read_of_err {err : ReadEnd ε} (h : (fill S d r).err = some err) :
    read S d r n = (([], some err), fill S d r) := by
  simp only [read, h]

theorem read_of_none (h : (fill S d r).err = none) :
    read S d r n = (((fill S d r).buf.take n, none),
      { fill S d r with buf := (fill S d r).buf.drop n }) := by
  simp only [read, h]

theorem Keeps.read (hP : Keeps S d P) (h : P r) (n : Nat) :
    P (read S d r n).2 := by
  cases herr : (DocumentDecryptReader.fill S d r).err with
  | some err =>
    rw [read_of_err herr]
    exact hP.fill h
  | none =>
    rw [read_of_none herr]
    exact hP.serve _ n herr (hP.fill h)

theorem Keeps.reads (hP : Keeps S d P) :
    ∀ (ns : List Nat) {r : DocumentDecryptReader ε}, P r → P (reads S d r ns).2
  | [], _, h => h
  | n :: ns, _, h => hP.reads ns (hP.read h n)

/-- What was hashed since the start is delivered or waits in the buffer. -/
def Delivers (r : DocumentDecryptReader ε) (out : List UInt8) (r' : DocumentDecryptReader ε) :
    Prop :=
  ∃ opened, r'.hashed = r.hashed ++ opened ∧ out ++ r'.buf = r.buf ++ opened

theorem delivers_fill (r : DocumentDecryptReader ε) : Delivers r [] (fill S d r) := by
  induction r using fill.induct S d with
  | case1 r hempty ih =>
    rw [fill, dif_pos hempty]
    obtain ⟨opened, hhashed, hbuf⟩ := ih
    rcases advance_cases r with
      ⟨frame, frames, first, -, -, heq⟩ | ⟨frames, err, -, -, heq⟩
    · rw [heq] at hhashed hbuf ⊢
      exact ⟨first ++ opened, by rw [hhashed, List.append_assoc], by rw [hbuf, hempty.2]; rfl⟩
    · rw [heq] at hhashed hbuf ⊢
      exact ⟨opened, hhashed, hbuf⟩
  | case2 r hstop =>
    rw [fill, dif_neg hstop]
    exact ⟨[], (List.append_nil _).symm, (List.append_nil _).symm⟩

theorem delivers_read (r : DocumentDecryptReader ε) (n : Nat) :
    Delivers r (read S d r n).1.1 (read S d r n).2 := by
  obtain ⟨opened, hhashed, hbuf⟩ := delivers_fill r
  cases herr : (fill S d r).err with
  | some err =>
    rw [read_of_err herr]
    exact ⟨opened, hhashed, hbuf⟩
  | none =>
    rw [read_of_none herr]
    exact ⟨opened, hhashed, by rw [List.take_append_drop]; exact hbuf⟩

theorem delivers_reads : ∀ (ns : List Nat) (r : DocumentDecryptReader ε),
    Delivers r (reads S d r ns).1 (reads S d r ns).2
  | [], _ => ⟨[], (List.append_nil _).symm, (List.append_nil _).symm⟩
  | n :: ns, r => by
    obtain ⟨opened, hhashed, hbuf⟩ := delivers_read r n
    obtain ⟨opened', hhashed', hbuf'⟩ := delivers_reads ns (read S d r n).2
    refine ⟨opened ++ opened', ?_, ?_⟩
    · show (reads S d (read S d r n).2 ns).2.hashed = _
      rw [hhashed', hhashed, List.append_assoc]
    · show (read S d r n).1.1 ++ (reads S d (read S d r n).2 ns).1 ++
          (reads S d (read S d r n).2 ns).2.buf = _
      rw [List.append_assoc, hbuf', ← List.append_assoc, hbuf, List.append_assoc]

theorem reads_delivered (source : FrameSource ε) (ns : List Nat) :
    (reads S d (new source) ns).1 ++ (reads S d (new source) ns).2.buf =
      (reads S d (new source) ns).2.hashed := by
  obtain ⟨opened, hhashed, hbuf⟩ := delivers_reads ns (new source)
  rw [hbuf, hhashed]
  rfl

variable (S d) in
/-- At `io.EOF` nothing is left in the buffer and the checks have passed. -/
def Finished (r : DocumentDecryptReader ε) : Prop :=
  r.err = some .eof → r.buf = [] ∧ d.finish S r.hashed r.ciphertextSize = .ok r.hashed

theorem finish_eq_ok {plaintext : List UInt8} {size : Nat} :
    d.finish S plaintext size = .ok body ↔ (size : Int) = d.envelope.ciphertextLength ∧
        (plaintext.length : Int) = d.envelope.plaintextLength ∧
        S.sha256 plaintext = d.expectedSHA ∧ plaintext = body := by
  unfold DocumentDecryptor.finish
  split_ifs with hcipher hplain hsha
  · simp [hcipher]
  · simp [hplain]
  · simp [hsha]
  · simp [not_not.mp hcipher, not_not.mp hplain, not_not.mp hsha]

theorem finish_eq_eof : r.finish S d = .eof ↔ d.finish S r.hashed r.ciphertextSize = .ok r.hashed := by
  unfold finish
  cases hfinish : d.finish S r.hashed r.ciphertextSize with
  | error err => simp
  | ok body =>
    obtain ⟨-, -, -, rfl⟩ := finish_eq_ok.mp hfinish
    simp

theorem keeps_finished : Keeps (ε := ε) S d (Finished S d) where
  advance r hnone hempty _ := by
    rcases advance_cases r with
      ⟨frame, frames, opened, -, -, heq⟩ | ⟨frames, err, -, hfinish, heq⟩
    · intro heof
      rw [heq] at heof
      simp [hnone] at heof
    · intro heof
      rw [heq] at heof ⊢
      exact ⟨hempty, finish_eq_eof.mp (hfinish (Option.some.inj heof))⟩
  serve r n hnone _ := by
    intro heof
    simp [hnone] at heof

theorem keeps_err (err : ReadEnd ε) : Keeps (ε := ε) S d (·.err = some err) where
  advance r hnone _ h := absurd (hnone.symm.trans h) (by simp)
  serve _ _ _ h := h

theorem fill_buf_ne_nil (r : DocumentDecryptReader ε) (h : (fill S d r).err = none) :
    (fill S d r).buf ≠ [] := by
  induction r using fill.induct S d with
  | case1 r hempty ih =>
    rw [fill, dif_pos hempty] at h ⊢
    exact ih h
  | case2 r hstop =>
    rw [fill, dif_neg hstop] at h ⊢
    intro hnil
    exact hstop ⟨by rw [h]; rfl, hnil⟩

theorem read_length_pos (hn : 0 < n) (h : (read S d r n).2.err = none) :
    0 < (read S d r n).1.1.length := by
  cases herr : (fill S d r).err with
  | some err =>
    rw [read_of_err herr] at h
    exact absurd (herr.symm.trans h) (by simp)
  | none =>
    have hpos := List.length_pos_of_ne_nil (fill_buf_ne_nil r herr)
    rw [read_of_none herr, List.length_take]
    omega

theorem read_err_of_reads {ns : List Nat} (h : (reads S d r (n :: ns)).2.err = none) :
    (read S d r n).2.err = none := by
  cases herr : (read S d r n).2.err with
  | none => rfl
  | some err => exact absurd (((keeps_err err).reads ns herr).symm.trans h) (by simp)

/-- While a run has no error, it has delivered a byte for every buffer with room. -/
theorem countP_le_delivered : ∀ (ns : List Nat) (r : DocumentDecryptReader ε),
    (reads S d r ns).2.err = none → ns.countP (0 < ·) ≤ (reads S d r ns).1.length
  | [], _, _ => Nat.zero_le _
  | n :: ns, r, h => by
    have ih := countP_le_delivered ns (read S d r n).2 h
    have hpos : 0 < n → 0 < (read S d r n).1.1.length := fun hn =>
      read_length_pos hn (read_err_of_reads h)
    show _ ≤ ((read S d r n).1.1 ++ (reads S d (read S d r n).2 ns).1).length
    rw [List.countP_cons, List.length_append]
    by_cases hn : 0 < n
    · have hlen := hpos hn
      rw [if_pos (by simpa using hn)]
      omega
    · rw [if_neg (by simpa using hn)]
      omega

/-! ## Frames in memory -/

theorem read_initial : ∀ {frames : List (List UInt8)} {frameSeq : UInt32}
    {plaintext body : List UInt8} {size : Nat},
    d.read S frameSeq plaintext size frames = .ok body → plaintext <+: body
  | [], _, _, _, _, h => by
    obtain ⟨-, -, -, rfl⟩ := finish_eq_ok.mp h
    exact List.prefix_refl _
  | frame :: frames, frameSeq, plaintext, body, size, h => by
    rw [DocumentDecryptor.read] at h
    split_ifs at h
    split at h
    · cases h
    exact (List.prefix_append _ _).trans (read_initial h)

theorem read_cons (r : DocumentDecryptReader ε) (frame : List UInt8) (frames : List (List UInt8)) :
    d.read S r.frameSeq r.hashed r.ciphertextSize (frame :: frames) =
      r.openFrame S d frame >>= fun r' =>
        d.read S r'.frameSeq r'.hashed r'.ciphertextSize frames := by
  rw [DocumentDecryptor.read, openFrame]
  split_ifs
  · rfl
  · rfl
  · cases S.openPayload d.key (frameNonce d.envelope.noncePrefix r.frameSeq) frame
      (frameAAD d.identity r.frameSeq) <;> rfl

variable (S d) in
/-- The reader is on its way to `result`, or has come to it. -/
structure LeadsTo (result : Except IntegrityErr (List UInt8)) (r : DocumentDecryptReader ε) :
    Prop where
  ending : r.source.ending = none
  ahead : r.err = none → d.read S r.frameSeq r.hashed r.ciphertextSize r.source.frames = result
  eof : r.err = some .eof → result = .ok r.hashed
  integrity : ∀ err, r.err = some (.integrity err) → result = .error err
  source : ∀ err, r.err ≠ some (.source err)

theorem leadsTo_new (frames : List (List UInt8)) :
    LeadsTo S d (d.read S 0 [] 0 frames) (new (newSliceFrameSource ε frames)) :=
  ⟨rfl, fun _ => rfl, by simp [new], by simp [new], by simp [new]⟩

theorem keeps_leadsTo (result : Except IntegrityErr (List UInt8)) :
    Keeps (ε := ε) S d (LeadsTo S d result) where
  advance r hnone _ h := by
    have hahead := h.ahead hnone
    obtain ⟨⟨frames, ending⟩, hashed, buf, frameSeq, size, err⟩ := r
    obtain rfl : ending = none := h.ending
    cases frames with
    | nil =>
      simp only [DocumentDecryptor.read] at hahead
      simp only [advance, finish, hahead]
      cases result with
      | error err => exact ⟨rfl, by simp, by simp, by simp, by simp⟩
      | ok body =>
        obtain ⟨-, -, -, rfl⟩ := finish_eq_ok.mp hahead
        exact ⟨rfl, by simp, by simp, by simp, by simp⟩
    | cons frame frames =>
      have hcons := read_cons (S := S) (d := d) ⟨⟨frames, none⟩, hashed, buf, frameSeq, size, err⟩
        frame frames
      simp only [advance]
      cases hopen : openFrame S d ⟨⟨frames, none⟩, hashed, buf, frameSeq, size, err⟩ frame with
      | error err =>
        rw [hopen] at hcons
        have hresult : result = .error err := hahead.symm.trans hcons
        exact ⟨rfl, by simp, by simp, by simp [hresult], by simp⟩
      | ok r' =>
        rw [hopen] at hcons
        obtain ⟨opened, -, rfl⟩ := openFrame_ok hopen
        obtain rfl : err = none := hnone
        exact ⟨rfl, fun _ => hcons.symm.trans hahead, by simp, by simp, by simp⟩
  serve r n _ h := ⟨h.ending, h.ahead, h.eof, h.integrity, h.source⟩

theorem LeadsTo.err_of_ok (h : LeadsTo S d (.ok body) r) :
    r.err = none ∨ r.err = some .eof := by
  cases herr : r.err with
  | none => exact .inl rfl
  | some err => ?_
  cases err with
  | eof => exact .inr rfl
  | integrity err => exact absurd (h.integrity err herr) (by simp)
  | source err => exact absurd herr (h.source err)

theorem LeadsTo.initial (h : LeadsTo S d (.ok body) r) :
    r.hashed <+: body := by
  rcases h.err_of_ok with hnone | heof
  · exact read_initial (h.ahead hnone)
  · exact Except.ok.inj (h.eof heof) ▸ List.prefix_refl _

/-- A run over Frames in memory gives what the whole read gives: a part of it before its end, all of
it with `io.EOF`, and an integrity error where that has one, once more buffers had room than the
plaintext has bytes. -/
theorem reads_refines (ε : Type) (frames : List (List UInt8)) (ns : List Nat) :
    ((reads S d (new (newSliceFrameSource ε frames)) ns).2.err = some .eof →
        d.read S 0 [] 0 frames = .ok (reads S d (new (newSliceFrameSource ε frames)) ns).1) ∧
      (∀ err, (reads S d (new (newSliceFrameSource ε frames)) ns).2.err = some (.integrity err) →
        d.read S 0 [] 0 frames = .error err) ∧
      (∀ err, (reads S d (new (newSliceFrameSource ε frames)) ns).2.err ≠ some (.source err)) ∧
      ∀ body, d.read S 0 [] 0 frames = .ok body →
        (reads S d (new (newSliceFrameSource ε frames)) ns).1 <+: body ∧
        (body.length < ns.countP (0 < ·) →
          (reads S d (new (newSliceFrameSource ε frames)) ns).2.err = some .eof) := by
  have hleads := (keeps_leadsTo _).reads ns (leadsTo_new (S := S) (d := d) (ε := ε) frames)
  have hdelivered := reads_delivered (S := S) (d := d) (newSliceFrameSource ε frames) ns
  have hcount := countP_le_delivered (S := S) (d := d) ns (new (newSliceFrameSource ε frames))
  have hfinished : Finished S d (reads S d (new (newSliceFrameSource ε frames)) ns).2 :=
    keeps_finished.reads ns (by simp [Finished, new])
  generalize reads S d (new (newSliceFrameSource ε frames)) ns = run at *
  obtain ⟨out, r⟩ := run
  refine ⟨?_, hleads.integrity, hleads.source, ?_⟩
  · intro heof
    rw [hleads.eof heof, ← hdelivered, (hfinished heof).1, List.append_nil]
  intro body hbody
  rw [hbody] at hleads
  have hinitial : out <+: body := List.IsPrefix.trans ⟨r.buf, hdelivered⟩ hleads.initial
  refine ⟨hinitial, fun hlt => hleads.err_of_ok.resolve_left fun hnone => ?_⟩
  have hle := Nat.le_trans (hcount hnone) hinitial.length_le
  omega

/-! ## Frames from anywhere -/

variable {cfg : EncryptorConfig} {ps : List (List UInt8)}

/-- The AEAD opens nothing under the Document's key but the Frames sealed with it, one for each of
`ps`. -/
def Unforgeable (S : Suite) (cfg : EncryptorConfig) (ps : List (List UInt8)) : Prop :=
  ∀ nonce ciphertext aad p, S.openPayload cfg.key.plaintext nonce ciphertext aad = some p →
    ∃ i, ps[i]? = some p ∧ nonce = frameNonce cfg.noncePrefix (UInt32.ofNat i) ∧
      aad = frameAAD cfg.identity (UInt32.ofNat i) ∧
      ciphertext = sealFrame S cfg (UInt32.ofNat i) p

theorem beUint32_injective : Function.Injective beUint32 := by
  intro v w h
  have hle := congrArg leNat (List.reverse_injective h)
  rw [leNat_uint32, leNat_uint32] at hle
  exact UInt32.toNat_inj.mp hle

theorem frameNonce_injective (noncePrefix : List UInt8) :
    Function.Injective (frameNonce noncePrefix) := by
  intro v w h
  exact beUint32_injective (List.append_cancel_left h)

variable (ps) in
/-- The reader has opened the first pieces, each in its place. -/
def InPlace (r : DocumentDecryptReader ε) : Prop :=
  ∃ i, r.frameSeq = UInt32.ofNat i ∧ r.hashed = (ps.take i).flatten ∧
    i + r.source.frames.length < UInt32.size

theorem InPlace.initial (h : InPlace ps r) : r.hashed <+: ps.flatten := by
  obtain ⟨i, -, hhashed, -⟩ := h
  refine ⟨(ps.drop i).flatten, ?_⟩
  rw [hhashed, ← List.flatten_append, List.take_append_drop]

theorem keeps_inPlace (hforge : Unforgeable S cfg ps) (hps : ps.length ≤ UInt32.size)
    (hkey : d.key = cfg.key.plaintext) (hnonce : d.envelope.noncePrefix = cfg.noncePrefix) :
    Keeps (ε := ε) S d (InPlace ps) where
  advance r _ _ h := by
    obtain ⟨i, hseq, hhashed, hlt⟩ := h
    rcases advance_cases r with
      ⟨frame, frames, opened, hframes, hopen, heq⟩ | ⟨frames, err, hsuffix, -, heq⟩
    · rw [hkey, hnonce] at hopen
      obtain ⟨j, hj, hsame, -⟩ := hforge _ _ _ _ hopen
      -- the nonce holds the number of the Frame, and no two pieces share one
      have hnum : UInt32.ofNat i = UInt32.ofNat j := hseq ▸ frameNonce_injective _ hsame
      have hjlt := (List.getElem?_eq_some_iff.mp hj).1
      rw [hframes, List.length_cons] at hlt
      have hij := congrArg UInt32.toNat hnum
      rw [UInt32.toNat_ofNat_of_lt' (by omega), UInt32.toNat_ofNat_of_lt' (by omega)] at hij
      subst hij
      rw [heq]
      refine ⟨i + 1, ?_, ?_, by show i + 1 + frames.length < _; omega⟩
      · show r.frameSeq + 1 = _
        rw [hseq, UInt32.ofNat_add]
        rfl
      · show r.hashed ++ opened = _
        rw [hhashed, List.take_add_one, hj]
        simp
    · have hle := hsuffix.length_le
      rw [heq]
      exact ⟨i, hseq, hhashed, by show i + frames.length < _; omega⟩
  serve _ _ _ h := h

/-- Whatever Frames a source hands out, a run delivers the Document's plaintext from its start, and
reports `io.EOF` only behind all of it. -/
theorem reads_authentic (hforge : Unforgeable S cfg ps) (hps : ps.length ≤ UInt32.size)
    (hkey : d.key = cfg.key.plaintext) (hnonce : d.envelope.noncePrefix = cfg.noncePrefix)
    (hlength : d.envelope.plaintextLength = ps.flatten.length) {source : FrameSource ε}
    (hsource : source.frames.length < UInt32.size) (ns : List Nat) :
    (reads S d (new source) ns).1 <+: ps.flatten ∧ ((reads S d (new source) ns).2.err = some .eof →
        (reads S d (new source) ns).1 = ps.flatten) := by
  have hplace : InPlace ps (reads S d (new source) ns).2 :=
    (keeps_inPlace hforge hps hkey hnonce).reads ns ⟨0, rfl, rfl, by simpa [new] using hsource⟩
  have hdelivered := reads_delivered (S := S) (d := d) source ns
  have hfinished : Finished S d (reads S d (new source) ns).2 :=
    keeps_finished.reads ns (by simp [Finished, new])
  refine ⟨List.IsPrefix.trans ⟨_, hdelivered⟩ hplace.initial, fun heof => ?_⟩
  obtain ⟨hbuf, hfinish⟩ := hfinished heof
  obtain ⟨-, hsize, -⟩ := finish_eq_ok.mp hfinish
  rw [hbuf, List.append_nil] at hdelivered
  rw [hlength] at hsize
  rw [hdelivered]
  exact hplace.initial.eq_of_length (by exact_mod_cast hsize)

end DocumentDecryptReader

/-! ## Associated data and nonces -/

section Apart

variable {a b r s : List UInt8}

theorem appendLen_inj (ha : a.length < UInt32.size) (hb : b.length < UInt32.size)
    (h : appendLen [] a ++ r = appendLen [] b ++ s) : a = b ∧ r = s := by
  simp only [appendLen, List.nil_append, List.append_assoc] at h
  obtain ⟨hlen, hrest⟩ := List.append_inj h (by simp [beUint32])
  have hnum := congrArg UInt32.toNat (DocumentDecryptReader.beUint32_injective hlen)
  rw [UInt32.toNat_ofNat_of_lt' ha, UInt32.toNat_ofNat_of_lt' hb] at hnum
  exact List.append_inj hrest hnum

def DocumentIdentity.Fits (identity : DocumentIdentity) : Prop :=
  (utf8 identity.transactionID).length < UInt32.size ∧
    (utf8 identity.documentName).length < UInt32.size

theorem appendIdentity_eq (domain : String) (identity : DocumentIdentity) (frameSeq : UInt32) :
    appendIdentity domain identity frameSeq = appendLen [] (utf8 domain) ++
      (appendLen [] (utf8 identity.transactionID) ++
        (appendLen [] (utf8 identity.documentName) ++ beUint32 frameSeq)) := by
  simp [appendIdentity, appendLen]

/-- The associated data says which Document and Frame it is for, and is no key context; the Frame
numbers make the nonces of a Document differ. -/
theorem frames_authenticated_apart {p q : DocumentIdentity} (hp : p.Fits) (hq : q.Fits)
    (i j : UInt32) :
    (frameAAD p i = frameAAD q j →
      p.transactionID = q.transactionID ∧ p.documentName = q.documentName ∧ i = j) ∧
    frameAAD p i ≠ documentKeyContext q ∧
    ∀ noncePrefix, i ≠ j → frameNonce noncePrefix i ≠ frameNonce noncePrefix j := by
  refine ⟨fun h => ?_, fun h => ?_, fun noncePrefix hne h => ?_⟩
  · rw [frameAAD, frameAAD, appendIdentity_eq, appendIdentity_eq] at h
    obtain ⟨htx, hrest⟩ := appendLen_inj hp.1 hq.1 (List.append_cancel_left h)
    obtain ⟨hdoc, hseq⟩ := appendLen_inj hp.2 hq.2 hrest
    exact ⟨utf8_injective htx, utf8_injective hdoc, DocumentDecryptReader.beUint32_injective hseq⟩
  · -- the domains differ
    rw [frameAAD] at h
    have hdomain := (appendLen_inj (by decide +kernel) (by decide +kernel) h).1
    exact absurd hdomain (by decide +kernel)
  · exact hne (DocumentDecryptReader.frameNonce_injective noncePrefix h)

/-- Two identities whose fields, one behind the other, are the same text. -/
theorem frames_authenticated_apart_shifted :
    frameAAD ⟨"ab", "c"⟩ 0 ≠ frameAAD ⟨"a", "bc"⟩ 0 ∧
      frameAAD ⟨"ab", "c"⟩ 0 ≠ documentKeyContext ⟨"a", "bc"⟩ := by
  have hfits : DocumentIdentity.Fits ⟨"ab", "c"⟩ ∧ DocumentIdentity.Fits ⟨"a", "bc"⟩ := by
    unfold DocumentIdentity.Fits
    decide +kernel
  have h := frames_authenticated_apart hfits.1 hfits.2 0 0
  exact ⟨fun heq => absurd (h.1 heq).1 (by decide), h.2.1⟩

end Apart

end Scrap.Encryption
