/-
# The deep scrub, while the Member goes on

A run of the deep scrub takes the ID of the open Block, lists the directory, and verifies the listed
Blocks: the header, the `.idx`, then the `.blk` Frame by Frame. Only the first step takes the Shard
lock. The Member's calls run in between, and a read may fall into the middle of one:

    append to a `.blk`   the Frame header is written before the payload
    append to an `.idx`  the length, the record and its CRC are three writes

Both read as damage. That a listed Block is closed is looked at only once, so a Block that a stream
opens again is quarantined under its writer (`scrub_quarantines_open_block`).

`scrub_quarantines_damaged_only` is about every run in which the Block at work is not opened, its
records are in the order of its Documents, and the second reading of an `.idx` does not fall into an
append to it.

Left out: the pauses of the run, its metrics, and the repair of quarantined Blocks before and after
it.
-/
import Scrap.Block.Integrity
import Scrap.Shard.ClosedBlock
import Scrap.Shard.Generations
import Scrap.Shard.Rebuild

namespace Scrap

open Block Fallible

/-! ## The run -/

/-- The outcome of `readFrameRaw`. -/
inductive FrameRead where
  | frame (f : Frame)
  | eof
  /-- a bad CRC, or a payload that ends early -/
  | corrupt

/-- `readFrameRaw` at an offset: without a whole Frame header it is the end of the file. -/
def Block.BlkFile.readFrameAt (f : BlkFile) (offset : Nat) : FrameRead :=
  match framesAt offset headerSize f.frames with
  | fr :: _ => .frame fr
  | [] => if f.size < offset + frameHeaderSize then .eof else .corrupt

inductive DeepStage where
  /-- no run is on -/
  | waiting
  /-- `ListSealedBlocks` has the ID of the open Block -/
  | listing (openBlockID : UInt64)
  /-- `scrubBlocks`, with the Blocks to go -/
  | blocks (todo : List UInt64)
  /-- `verifyOneBlock`, the second time if `again` -/
  | header (b : UInt64) (again : Bool) (todo : List UInt64)
  | index (b : UInt64) (again : Bool) (todo : List UInt64)
  | opening (b : UInt64) (entries : List IndexEntry) (todo : List UInt64)
  | frames (b : UInt64) (entries : List IndexEntry) (st : VerifyState) (todo : List UInt64)
  /-- `quarantineBlock` is next -/
  | condemned (b : UInt64) (todo : List UInt64)

/-- A Block that was quarantined: whether it was open, and its files. -/
structure QuarantinedBlock where
  blockID : UInt64
  wasOpen : Bool
  files : BlockFiles

structure DeepScrub where
  shard : Shard
  /-- `.deep-scrub-checkpoint` -/
  checkpoint : Option UInt64
  stage : DeepStage
  quarantined : List QuarantinedBlock

def DeepScrub.start (s : Shard) (checkpoint : Option UInt64) : DeepScrub :=
  ⟨s, checkpoint, .waiting, []⟩

/-- `ListSealedBlocks`, with the Block IDs `ids` in the directory: Blocks with a `.blk` or an
eviction marker. -/
def Shard.listSealedBlocks (s : Shard) (ids : List UInt64) (openBlockID : UInt64) : List UInt64 :=
  (ids.filter fun b => ((s.blocks b).blk.isSome ∨ (s.blocks b).evictionMarker.isSome) ∧
    b ≠ openBlockID).insertionSort (· ≤ ·)

def filterFromCheckpoint (checkpoint : Option UInt64) (blocks : List UInt64) : List UInt64 :=
  match checkpoint with
  | none => blocks
  | some last => if last = 0 then blocks else blocks.dropWhile (fun b => b ≤ last)

namespace DeepScrub

def finished (x : DeepScrub) (b : UInt64) (todo : List UInt64) : DeepScrub :=
  { x with checkpoint := some b, stage := .blocks todo }

/-- The run ends with an error; the checkpoint stays. -/
def aborted (x : DeepScrub) : DeepScrub := { x with stage := .waiting }

/-- The next reading of the run, of the files that `disk` has. -/
def read (c : Crypto) (ids : List UInt64) (disk : Shard) (x : DeepScrub) : DeepScrub :=
  match x.stage with
  | .waiting => { x with stage := .listing disk.currentOpenBlockID }
  | .listing openBlockID =>
    { x with stage :=
      .blocks (filterFromCheckpoint x.checkpoint (disk.listSealedBlocks ids openBlockID)) }
  | .blocks [] => { x with checkpoint := none, stage := .waiting }
  | .blocks (b :: todo) =>
    -- skipBlockByLifecycle
    match (disk.blocks b).classify b with
    | .error _ => x.aborted
    | .ok lifecycle =>
      match lifecycle.state with
      | .hot | .hotCleanupNeeded => { x with stage := .header b false todo }
      | .evicted | .metadataLoss | .unexpectedLoss => x.finished b todo
  | .header b again todo =>
    if (disk.blocks b).blk.isSome then { x with stage := .index b again todo }
    else { x with stage := .condemned b todo }
  | .index b again todo =>
    match openIndexReader (disk.blocks b).idx with
    | .ok entries => { x with stage := .opening b entries todo }
    | .error .corruptTail =>
      { x with stage := if again then .condemned b todo else .header b true todo }
    | .error _ => x.aborted
  | .opening b entries todo =>
    if (disk.blocks b).blk.isSome then { x with stage := .frames b entries .start todo }
    else x.aborted
  | .frames b entries st todo =>
    match ((disk.blocks b).blk.getD newBlkFile).readFrameAt st.offset with
    | .frame f => { x with stage := .frames b entries (verifyFrame c entries st f) todo }
    | .corrupt => { x with stage := .condemned b todo }
    | .eof =>
      if st.corruptFrames ++ recordMissingIndexedFrames st 0 entries = [] then
        x.finished b todo
      else { x with stage := .condemned b todo }
  | .condemned _ _ => x

/-- The files go by the name they have now. -/
def quarantineBlock (x : DeepScrub) (b : UInt64) (todo : List UInt64) : DeepScrub :=
  match (x.shard.blocks b).quarantine with
  | .error _ => x.aborted
  | .ok files =>
    { shard := x.shard.setBlock b files
      checkpoint := some b
      stage := .blocks todo
      quarantined := x.quarantined ++ [⟨b, x.shard.isOpen b, x.shard.blocks b⟩] }

end DeepScrub

/-! ## The run between the Member's calls -/

def Shard.withBytes (s : Shard) (bytes : BlkFile) : Shard :=
  match s.blockWriter with
  | none => s
  | some w => s.setBlk w.blockID (some bytes)

/-- What the directory shows during a step: `bytes` is in the open Block so far, and the `.idx` that
a commit appends to ends inside of a record. -/
def Shard.midway (c : Crypto) (s : Shard) (bytes : BlkFile) : MemberStep → Shard
  | .call member =>
    if (MemberStep.call member).restarts then s else (after (member.run c) s).withBytes bytes
  | .commit doc _ =>
    match (s.blocks doc.blockID).idx with
    | none => s
    | some f => s.setIdx doc.blockID { f with torn := true }
  | .sealBlock _ _ => s

inductive DeepEvent where
  | member (step : MemberStep)
  /-- the next action of the scrub; the directory has the Block IDs `ids` -/
  | scrub (ids : List UInt64)
  /-- the next reading of the scrub, while `step` is in progress -/
  | scrubDuring (step : MemberStep) (bytes : BlkFile) (ids : List UInt64)

def DeepEvent.run (c : Crypto) : DeepEvent → EStateM ShardErr DeepScrub Unit
  | .member step => fun x =>
    match (step.run c).run x.shard with
    | .error err s => .error err { x with shard := s }
    | .ok () s => .ok () { x with shard := s, stage := if step.restarts then .waiting else x.stage }
  | .scrub ids => modify fun x =>
    match x.stage with
    | .condemned b todo => x.quarantineBlock b todo
    | _ => x.read c ids x.shard
  | .scrubDuring step bytes ids => modify fun x =>
    match x.stage with
    -- the ID of the open Block is read under the lock
    | .waiting => x
    | _ => x.read c ids (x.shard.midway c bytes step)

/-! ## The condition -/

def DeepStage.block? : DeepStage → Option UInt64
  | .header b _ _ => some b
  | .index b _ _ => some b
  | .opening b _ _ => some b
  | .frames b _ _ _ => some b
  | .condemned b _ => some b
  | _ => none

/-- Record `i` of the Block names its Document `i`, and the `.blk` ends with a Frame. -/
def BlockFiles.InOrder (files : BlockFiles) : Prop :=
  ∀ f g, files.blk = some f → files.idx = some g → f.Numbers g.entries ∧ f.torn < frameHeaderSize

/-- A Block is taken up closed, and its records are in order when they are read. -/
def DeepStage.Ready (s : Shard) : DeepStage → Prop
  | .blocks (b :: _) => s.isOpen b = false
  | .index b _ _ => (s.blocks b).InOrder
  | _ => True

instance (files : BlockFiles) : Decidable files.InOrder :=
  match hf : files.blk, hg : files.idx with
  | none, _ => isTrue fun f g hf' => by simp [hf] at hf'
  | some _, none => isTrue fun f g _ hg' => by simp [hg] at hg'
  | some f, some g =>
    decidable_of_iff (f.Numbers g.entries ∧ f.torn < frameHeaderSize) (by simp [BlockFiles.InOrder, hf, hg])

instance (s : Shard) : (stage : DeepStage) → Decidable (stage.Ready s)
  | .blocks (b :: _) => inferInstanceAs (Decidable (s.isOpen b = false))
  | .index b _ _ => inferInstanceAs (Decidable (s.blocks b).InOrder)
  | .waiting | .listing _ | .blocks [] | .header _ _ _ | .opening _ _ _ | .frames _ _ _ _
  | .condemned _ _ => inferInstanceAs (Decidable True)

/-- The step appends to the `.idx` of the Block. -/
def MemberStep.indexes (b : UInt64) : MemberStep → Prop
  | .commit doc _ => doc.blockID = b
  | _ => False

def DeepEvent.Undisturbed (x : DeepScrub) : DeepEvent → Prop
  | .member step => ∀ b, x.stage.block? = some b → step.restarts = true ∨ step.Spares x.shard b
  | .scrub _ => x.stage.Ready x.shard
  | .scrubDuring step _ _ => x.stage.Ready x.shard ∧
      ∀ b, x.stage.block? = some b → step.Spares x.shard b ∧
        ∀ todo, x.stage = .index b true todo → ¬ step.indexes b

/-- The committed Documents of a Block and their records are all there. -/
def BlockFiles.Intact (c : Crypto) (files : BlockFiles) : Prop :=
  ∃ f g, files.blk = some f ∧ files.idx = some g ∧ g.torn = false ∧ ∀ e ∈ g.entries, f.HasDoc c e

/-! ## What holds at each stage -/

section Holds

variable (c : Crypto)

/-- The records that were read are still there, in order. -/
def Shard.Loaded (s : Shard) (b : UInt64) (entries : List IndexEntry) : Prop :=
  (∃ es, s.view.idx b = some es ∧ entries <+: es) ∧
    ∀ f, (s.blocks b).blk = some f → f.Numbers entries ∧ f.torn < frameHeaderSize

/-- The Frames of the Block up to where the verification stands. -/
def Shard.Verified (s : Shard) (b : UInt64) (entries : List IndexEntry) (st : VerifyState) : Prop :=
  ∃ f done rest, (s.blocks b).blk = some f ∧ f.frames = done ++ rest ∧
    st = done.foldl (verifyFrame c entries) .start

def DeepStage.Holds (s : Shard) : DeepStage → Prop
  | .header b _ _ => s.isOpen b = false
  | .index b _ _ => s.isOpen b = false
  | .opening b entries _ => s.isOpen b = false ∧ s.Loaded b entries
  | .frames b entries st _ => s.isOpen b = false ∧ s.Loaded b entries ∧ s.Verified c b entries st
  | .condemned b _ => s.isOpen b = false ∧ ¬ (s.blocks b).Intact c
  | _ => True

structure DeepScrub.Holds (x : DeepScrub) : Prop where
  sound : x.shard.Sound
  stage : x.stage.Holds c x.shard
  past : ∀ q ∈ x.quarantined, q.wasOpen = false ∧ ¬ q.files.Intact c

end Holds

section Kept

variable {c : Crypto} {s t : Shard} {b : UInt64}

theorem Shard.Kept.loaded (h : s.Kept b t) {entries : List IndexEntry} (hl : s.Loaded b entries) :
    t.Loaded b entries := by
  obtain ⟨⟨es, hes, hpre⟩, hblk⟩ := hl
  refine ⟨?_, fun f hf => hblk f (h.blk ▸ hf)⟩
  have hrec := h.records
  rw [hes] at hrec
  cases ht : t.view.idx b with
  | none =>
    rw [ht] at hrec
    cases hrec
  | some es' =>
    rw [ht] at hrec
    cases hrec with
    | some hgrow => exact ⟨es', rfl, hpre.trans hgrow⟩

theorem Shard.Kept.intact (h : s.Kept b t) (hs : s.Sound) (ht : (t.blocks b).Intact c) :
    (s.blocks b).Intact c := by
  obtain ⟨f, g, hf, hg, -, hdocs⟩ := ht
  have hview : t.view.idx b = some g.entries := by simp [Shard.view, hg]
  have hrec := h.records
  rw [hview] at hrec
  cases hes : s.view.idx b with
  | none =>
    rw [hes] at hrec
    cases hrec
  | some es =>
    rw [hes] at hrec
    cases hrec with
    | some hgrow =>
      obtain ⟨g₀, hg₀, rfl⟩ : ∃ g₀, (s.blocks b).idx = some g₀ ∧ g₀.entries = es := by
        simpa [Shard.view] using hes
      exact ⟨f, g₀, h.blk ▸ hf, hg₀, hs.intact b g₀ hg₀, fun e he => hdocs e (hgrow.subset he)⟩

theorem Shard.Kept.stage (h : s.Kept b t) (hs : s.Sound) {stage : DeepStage}
    (hb : stage.block? = some b) (hstage : stage.Holds c s) : stage.Holds c t := by
  cases stage with
  | waiting => cases hb
  | listing openBlockID => cases hb
  | blocks todo => cases hb
  | header b' again todo =>
    cases hb
    exact h.closed
  | index b' again todo =>
    cases hb
    exact h.closed
  | opening b' entries todo =>
    cases hb
    exact ⟨h.closed, h.loaded hstage.2⟩
  | frames b' entries st todo =>
    cases hb
    obtain ⟨-, hl, f, done, rest, hf, hframes⟩ := hstage
    exact ⟨h.closed, h.loaded hl, f, done, rest, h.blk.trans hf, hframes⟩
  | condemned b' todo =>
    cases hb
    exact ⟨h.closed, fun hi => hstage.2 (h.intact hs hi)⟩

end Kept

variable {f : BlkFile} {s : Shard} {b : UInt64}

theorem DeepStage.holds_of_block?_none {c : Crypto} {t : Shard} {stage : DeepStage}
    (hb : stage.block? = none) (h : stage.Holds c s) : stage.Holds c t := by
  cases stage with
  | waiting => trivial
  | listing openBlockID => trivial
  | blocks todo => trivial
  | _ => cases hb

theorem DeepStage.Holds.closed {c : Crypto} {stage : DeepStage} (h : stage.Holds c s)
    (hb : stage.block? = some b) : s.isOpen b = false := by
  cases stage with
  | waiting => cases hb
  | listing openBlockID => cases hb
  | blocks todo => cases hb
  | header b' again todo =>
    cases hb
    exact h
  | index b' again todo =>
    cases hb
    exact h
  | opening b' entries todo =>
    cases hb
    exact h.1
  | frames b' entries st todo =>
    cases hb
    exact h.1
  | condemned b' todo =>
    cases hb
    exact h.1

/-! ## Reading -/

section Reading

variable {c : Crypto} {x : DeepScrub} {disk : Shard}

/-- The directory shows the Block as it is, or its `.idx` under an append. -/
def Shard.Shows (s disk : Shard) (b : UInt64) : Prop :=
  (disk.blocks b).blk = (s.blocks b).blk ∧
    ((disk.blocks b).idx = (s.blocks b).idx ∨ ∃ f, (disk.blocks b).idx = some f ∧ f.torn = true)

theorem DeepScrub.Holds.withStage (h : x.Holds c) {stage : DeepStage}
    (hstage : stage.Holds c x.shard) : DeepScrub.Holds c { x with stage := stage } :=
  ⟨h.sound, hstage, h.past⟩

theorem DeepScrub.Holds.finished (h : x.Holds c) (b : UInt64) (todo : List UInt64) :
    (x.finished b todo).Holds c :=
  ⟨h.sound, trivial, h.past⟩

theorem DeepScrub.Holds.aborted (h : x.Holds c) : x.aborted.Holds c := ⟨h.sound, trivial, h.past⟩

theorem Block.BlkFile.readFrameAt_frame {done rest : List Frame} {fr : Frame}
    (hf : f.frames = done ++ fr :: rest) :
    f.readFrameAt (headerSize + framesSize done) = .frame fr := by
  rw [BlkFile.readFrameAt, hf, framesAt_append]

theorem Block.BlkFile.readFrameAt_end (ht : f.torn < frameHeaderSize) :
    f.readFrameAt (headerSize + framesSize f.frames) = .eof := by
  have hend := framesAt_append headerSize f.frames []
  rw [List.append_nil] at hend
  rw [BlkFile.readFrameAt, hend]
  exact if_pos (by rw [BlkFile.size]; omega)

theorem Shard.Loaded.clean {entries : List IndexEntry} (h : s.Loaded b entries)
    (hf : (s.blocks b).blk = some f) (hi : (s.blocks b).Intact c) :
    (f.frames.foldl (verifyFrame c entries) .start).corruptFrames ++
      recordMissingIndexedFrames (f.frames.foldl (verifyFrame c entries) .start) 0 entries = [] := by
  obtain ⟨⟨es, hes, hpre⟩, hblk⟩ := h
  obtain ⟨hn, ht⟩ := hblk f hf
  obtain ⟨f', g, hf', hg, -, hdocs⟩ := hi
  obtain rfl : f = f' := Option.some.inj (hf.symm.trans hf')
  obtain rfl : g.entries = es := by simpa [Shard.view, hg] using hes
  have hclean := verifyFrames_clean hn (fun e he => hdocs e (hpre.subset he)) ht
  rwa [verifyFrames, if_pos ht] at hclean

theorem DeepScrub.read_holds (ids : List UInt64) (h : x.Holds c) (hready : x.stage.Ready x.shard)
    (hshow : ∀ b, x.stage.block? = some b → x.shard.Shows disk b)
    (hagain : ∀ b todo, x.stage = .index b true todo →
      (disk.blocks b).idx = (x.shard.blocks b).idx) :
    (x.read c ids disk).Holds c := by
  have hstage := h.stage
  unfold DeepScrub.read
  generalize x.stage = stage at hready hshow hagain hstage ⊢
  cases stage with
  | waiting => exact h.withStage trivial
  | listing openBlockID => exact h.withStage trivial
  | blocks todo =>
    cases todo with
    | nil => exact ⟨h.sound, trivial, h.past⟩
    | cons b todo => ?_
    simp only
    cases (disk.blocks b).classify b with
    | error field => exact h.aborted
    | ok lifecycle => ?_
    simp only
    cases lifecycle.state with
    | hot => exact h.withStage hready
    | hotCleanupNeeded => exact h.withStage hready
    | _ => exact h.finished b todo
  | header b again todo =>
    obtain ⟨hblk, -⟩ := hshow b rfl
    simp only
    split
    · exact h.withStage hstage
    rename_i hnone
    refine h.withStage ⟨hstage, ?_⟩
    rintro ⟨f, g, hf, -⟩
    exact hnone (by simp [hblk, hf])
  | index b again todo =>
    obtain ⟨-, hidx⟩ := hshow b rfl
    simp only
    cases hread : openIndexReader (disk.blocks b).idx with
    | ok entries =>
      obtain ⟨f, hf, htorn, rfl⟩ := openIndexReader_ok.mp hread
      have hsame : (x.shard.blocks b).idx = some f := by
        rcases hidx with hidx | ⟨f', hf', htorn'⟩
        · exact hidx.symm.trans hf
        · rw [Option.some.inj (hf.symm.trans hf'), htorn'] at htorn
          cases htorn
      refine h.withStage ⟨hstage, ⟨f.entries, ?_, List.prefix_rfl⟩, fun g hg => hready g f hg hsame⟩
      simp [Shard.view, hsame]
    | error err =>
      cases err with
      | corruptTail =>
        cases again with
        | false => exact h.withStage hstage
        | true => ?_
        -- between two calls no `.idx` ends in a part of a record
        obtain ⟨f, hf, htorn⟩ := openIndexReader_corruptTail.mp hread
        rw [h.sound.intact b f ((hagain b todo rfl).symm.trans hf)] at htorn
        cases htorn
      | _ => exact h.aborted
  | opening b entries todo =>
    obtain ⟨hblk, -⟩ := hshow b rfl
    obtain ⟨hclosed, hloaded⟩ := hstage
    simp only
    split
    · rename_i hsome
      obtain ⟨f, hf⟩ := Option.isSome_iff_exists.mp hsome
      exact h.withStage ⟨hclosed, hloaded, f, [], f.frames, hblk ▸ hf, rfl, rfl⟩
    · exact h.aborted
  | frames b entries st todo =>
    obtain ⟨hblk, -⟩ := hshow b rfl
    obtain ⟨hclosed, hloaded, f, done, rest, hf, hframes, rfl⟩ := hstage
    obtain ⟨-, htorn⟩ := hloaded.2 f hf
    have hoffset : (done.foldl (verifyFrame c entries) .start).offset =
        headerSize + framesSize done := foldl_offset c entries done .start
    simp only [hblk, hf, Option.getD_some]
    rw [hoffset]
    cases rest with
    | cons fr rest =>
      rw [BlkFile.readFrameAt_frame hframes]
      refine h.withStage ⟨hclosed, hloaded, f, done ++ [fr], rest, hf, ?_, ?_⟩
      · simp [hframes]
      · simp
    | nil =>
      rw [List.append_nil] at hframes
      subst hframes
      rw [BlkFile.readFrameAt_end htorn]
      simp only
      split
      · exact h.finished b todo
      · rename_i hfound
        exact h.withStage ⟨hclosed, fun hi => hfound (hloaded.clean hf hi)⟩
  | condemned b todo => exact h

end Reading

/-! ## The events -/

section Events

variable {c : Crypto} {x y : DeepScrub}

theorem Shard.Rests.withBytes {files : BlockFiles} (h : s.Rests b files) (bytes : BlkFile) :
    (s.withBytes bytes).Rests b files := by
  unfold Shard.withBytes
  cases hw : s.blockWriter with
  | none => exact h
  | some w => exact h.setBlock (h.writer_ne hw) _

/-- While a step is in progress that does not open the Block, its `.blk` is as before. -/
theorem Shard.midway_shows {step : MemberStep} (bytes : BlkFile) (hclosed : s.isOpen b = false)
    (hspares : step.Spares s b) :
    s.Shows (s.midway c bytes step) b ∧
      (¬ step.indexes b → ((s.midway c bytes step).blocks b).idx = (s.blocks b).idx) := by
  have hsame : ∀ t : Shard, t.blocks b = s.blocks b →
      s.Shows t b ∧ (¬ step.indexes b → (t.blocks b).idx = (s.blocks b).idx) := by
    intro t ht
    rw [Shard.Shows, ht]
    exact ⟨⟨rfl, .inl rfl⟩, fun _ => rfl⟩
  cases step with
  | sealBlock cmd index => exact hsame s rfl
  | commit doc index =>
    simp only [Shard.midway]
    cases hidx : (s.blocks doc.blockID).idx with
    | none => exact hsame s rfl
    | some f => ?_
    by_cases hb : b = doc.blockID
    · subst hb
      have htorn := s.setIdx_blocks_self doc.blockID { f with torn := true }
      exact ⟨⟨by rw [htorn], .inr ⟨_, by rw [htorn], rfl⟩⟩, fun hno => absurd rfl hno⟩
    · exact hsame _ (s.setIdx_blocks_of_ne doc.blockID _ hb)
  | call member =>
    simp only [Shard.midway]
    split
    · exact hsame s rfl
    · rename_i hr
      exact hsame _ ((MemberCall.rests hclosed hspares (by simpa using hr)).withBytes bytes).2

theorem DeepScrub.member_holds (h : x.Holds c) {step : MemberStep}
    (hcond : (DeepEvent.member step).Undisturbed x)
    (hrun : ((DeepEvent.member step).run c).run x = .ok () y) : y.Holds c := by
  have hrun' : DeepEvent.run c (.member step) x = .ok () y := hrun
  unfold DeepEvent.run at hrun'
  cases hstep : (step.run c).run x.shard with
  | error err s => simp [hstep] at hrun'
  | ok u s => ?_
  simp only [hstep, EStateM.Result.ok.injEq, true_and] at hrun'
  subst hrun'
  refine ⟨MemberStep.run_sound h.sound hstep, ?_, h.past⟩
  cases hr : step.restarts with
  | true => trivial
  | false => ?_
  cases hb : x.stage.block? with
  | none => exact DeepStage.holds_of_block?_none hb h.stage
  | some b => ?_
  have hspares := (hcond b hb).resolve_left (by simp [hr])
  exact (MemberStep.run_spares h.sound (h.stage.closed hb) hspares hr hstep).stage
    h.sound hb h.stage

/-- The Block is closed and damaged when its files are renamed. -/
theorem DeepScrub.quarantineBlock_holds (h : x.Holds c) {todo : List UInt64}
    (hstage : x.stage = .condemned b todo) : (x.quarantineBlock b todo).Holds c := by
  have hcond := h.stage
  rw [hstage] at hcond
  obtain ⟨hclosed, hdamaged⟩ := hcond
  unfold DeepScrub.quarantineBlock
  cases hq : (x.shard.blocks b).quarantine with
  | error err => exact h.aborted
  | ok files => ?_
  refine ⟨h.sound.setBlock b files (.inr hclosed) fun f hf => ?_, trivial, fun q hq => ?_⟩
  · exact absurd hf (by simp [BlockFiles.quarantine_idx hq])
  rcases List.mem_append.mp hq with hq | hq
  · exact h.past q hq
  · rw [List.mem_singleton.mp hq]
    exact ⟨hclosed, hdamaged⟩

theorem DeepEvent.run_holds {event : DeepEvent} (h : x.Holds c) (hcond : event.Undisturbed x)
    (hrun : (event.run c).run x = .ok () y) : y.Holds c := by
  cases event with
  | member step => exact DeepScrub.member_holds h hcond hrun
  | scrub ids =>
    have hread : (x.read c ids x.shard).Holds c :=
      x.read_holds ids h hcond (fun b _ => ⟨rfl, .inl rfl⟩) fun b todo _ => rfl
    cases hrun
    beta_reduce
    split
    · rename_i b todo hstage
      exact x.quarantineBlock_holds h hstage
    · exact hread
  | scrubDuring step bytes ids =>
    obtain ⟨hready, hspares⟩ := hcond
    cases hrun
    beta_reduce
    split
    · exact h
    refine x.read_holds ids h hready (fun b hb => ?_) fun b todo hstage => ?_
    · exact (Shard.midway_shows bytes (h.stage.closed hb) (hspares b hb).1).1
    · have hb : x.stage.block? = some b := by rw [hstage]; rfl
      obtain ⟨hs, hindex⟩ := hspares b hb
      exact (Shard.midway_shows bytes (h.stage.closed hb) hs).2 (hindex todo hstage)

end Events

/-- In every run that meets the condition, a Block that was quarantined was closed and damaged. -/
theorem scrub_quarantines_damaged_only (c : Crypto) {s : Shard} {checkpoint : Option UInt64}
    {events : List DeepEvent} {x : DeepScrub} (hs : s.Sound)
    (hrun : (runAll (DeepEvent.run c) events).run (.start s checkpoint) = .ok () x)
    (hcond : Meets (DeepEvent.run c) DeepEvent.Undisturbed (.start s checkpoint) events) :
    ∀ q ∈ x.quarantined, q.wasOpen = false ∧ ¬ q.files.Intact c := by
  have hstart : (DeepScrub.start s checkpoint).Holds c :=
    ⟨hs, trivial, fun q hq => absurd hq List.not_mem_nil⟩
  have hstep : ∀ event y y', DeepScrub.Holds c y → DeepEvent.Undisturbed y event →
      (DeepEvent.run c event).run y = .ok () y' → y'.Holds c :=
    fun _ _ _ h hc hr => DeepEvent.run_holds h hc hr
  exact (Meets.invariant hstep hstart hcond hrun).past

/-! ## A Block that is opened under the scrub -/

def streamToOne (name : String) (startOffset : UInt64) : MemberStep :=
  .call (.stream ⟨1, 1⟩ ⟨"t", name, "text/plain", 1, startOffset, 1, 8, List.replicate 32 7, [], 1, 1⟩
    ⟨List.replicate 8 0, false⟩ name 1 [])

def recordX : IndexEntry :=
  ⟨"t", "x", "text/plain", 1, 40, 1, 8, keylessCrypto.sha256 [], []⟩

/-- `x` is committed to Block `1`, the Member restarts, and the scrub verifies the Block to the end
of `x`. -/
def scrubClosedBlock : List DeepEvent :=
  [.member (streamToOne "x" 40), .member (.commit (docOfT "x" 1 40) 1),
    .member (.call (.restart [1])), .scrub [1, 2], .scrub [1, 2], .scrub [1, 2], .scrub [1, 2],
    .scrub [1, 2], .scrub [1, 2], .scrub [1, 2]]

/-- The stream of `y` opens the Block again; the next reading finds its Frame header without the
payload. -/
def scrubReopenedBlock : List DeepEvent :=
  [.scrubDuring (streamToOne "y" 80) ⟨docFrames 0 0 eightBytes.val, 32⟩ [1, 2],
    .member (streamToOne "y" 80), .scrub [1, 2]]

theorem scrub_quarantines_open_block : ∃ x,
    (runAll (DeepEvent.run keylessCrypto) (scrubClosedBlock ++ scrubReopenedBlock)).run
      (.start (Shard.fresh 1 true) none) = .ok () x ∧
    ∃ q ∈ x.quarantined, q.wasOpen = true ∧ q.files.Intact keylessCrypto := by
  have hfiles : (after (runAll (DeepEvent.run keylessCrypto) (scrubClosedBlock ++ scrubReopenedBlock))
      (.start (Shard.fresh 1 true) none)).quarantined.head?.map
        (fun q => (q.wasOpen, q.files.blk, q.files.idx)) =
      some (true, some (blkOf [eightBytes, eightBytes]), some ⟨[recordX], false⟩) := by
    decide +kernel
  obtain ⟨q, hq, hshows⟩ := Option.map_eq_some_iff.mp hfiles
  obtain ⟨hopen, hblk, hidx⟩ : q.wasOpen = true ∧ q.files.blk = some (blkOf [eightBytes, eightBytes]) ∧
      q.files.idx = some ⟨[recordX], false⟩ := by simpa using hshows
  refine ⟨_, outcome_ok_iff.mp (by decide +kernel), q, List.mem_of_head? hq, hopen, _, _, hblk, hidx,
    rfl, fun e he => ?_⟩
  rw [List.mem_singleton.mp he]
  exact ⟨0, eightBytes, by decide +kernel, rfl, by decide +kernel⟩

/-- `x` is committed to Block `1` without its bytes; the scrub verifies the closed Block. -/
def scrubLostDocument : List DeepEvent :=
  [.member (.commit (docOfT "x" 1 40) 1), .member (.call (.restart [1])), .scrub [1, 2],
    .scrub [1, 2], .scrub [1, 2], .scrub [1, 2], .scrub [1, 2], .scrub [1, 2], .scrub [1, 2],
    .scrub [1, 2]]

theorem scrubLostDocument_undisturbed :
    Meets (DeepEvent.run keylessCrypto) DeepEvent.Undisturbed (.start (Shard.fresh 1 true) none)
      scrubLostDocument := by
  have hready : ∀ {x : DeepScrub}, decide (x.stage.Ready x.shard) = true →
      DeepEvent.Undisturbed x (.scrub [1]) := of_decide_eq_true
  exact ⟨nofun, nofun, hready (by decide +kernel),
    hready (by decide +kernel), hready (by decide +kernel), hready (by decide +kernel),
    hready (by decide +kernel), hready (by decide +kernel), hready (by decide +kernel),
    hready (by decide +kernel), trivial⟩

theorem scrub_quarantines_lost_document : ∃ x,
    (runAll (DeepEvent.run keylessCrypto) scrubLostDocument).run (.start (Shard.fresh 1 true) none) =
      .ok () x ∧
    x.quarantined.map (·.blockID) = [1] ∧
    ∀ q ∈ x.quarantined, q.wasOpen = false ∧ ¬ q.files.Intact keylessCrypto := by
  have hrun := outcome_ok_iff.mp (show outcome (runAll (DeepEvent.run keylessCrypto)
    scrubLostDocument) (.start (Shard.fresh 1 true) none) = .ok () by decide +kernel)
  exact ⟨_, hrun, by decide +kernel, scrub_quarantines_damaged_only keylessCrypto
    (Shard.fresh_sound 1 true) hrun scrubLostDocument_undisturbed⟩

end Scrap
