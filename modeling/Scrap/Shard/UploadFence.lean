/-
# The leadership fence of an upload

`uploadAndConfirm` samples `LeadershipEpoch` before it uploads a Block and again before it proposes
the ConfirmUpload, and gives up when the two samples differ. The epoch is the leader ID that the
Raft loop published last, so it has two weaknesses as a fence: a term lost and a later one won
between the samples do not show (`reelected_leader_confirms`), and it is a cached value, which may
be behind Raft at either sample.

`Leadership` is what Raft knows, `leaderID` what the loop published of it. An attempt goes on by
one call at a time, so that elections may fall between any two, and carries the leaderships that
stood since its first sample. `UploadEvent.Fenced` excludes the two weaknesses
(`fenced_confirm_one_term`).
-/
import Scrap.Shard.Generations
import Scrap.Shard.Rebuild

namespace Scrap

open Block Fallible

/-! ## The objects of an upload -/

inductive UploadObjectKind where
  | block
  | index
deriving DecidableEq

def UploadObjectKind.ext : UploadObjectKind → String
  | .block => "blk"
  | .index => "idx"

inductive UploadLocalAvailability where
  | ready
  | quarantined
  | evicted
  | metadataLoss
  | unexpectedLoss
  | classifyFailed
deriving DecidableEq

def BlockFiles.localUploadAvailability (files : BlockFiles) (blockID : UInt64) :
    UploadLocalAvailability :=
  if files.blkQuarantine.isSome then .quarantined
  else
    match files.classify blockID with
    | .error _ => .classifyFailed
    | .ok lifecycle =>
      match lifecycle.state with
      | .hot => .ready
      | .hotCleanupNeeded => .ready
      | .evicted => .evicted
      | .metadataLoss => .metadataLoss
      | .unexpectedLoss => .unexpectedLoss

/-- The provider-neutral class of a Backend error. -/
inductive BackendClass where
  | throttled
  | transient
  | auth
  | notFound
  | conflict
  | corrupt
  | permanent
deriving DecidableEq

inductive UploadAttemptErr where
  | lostLeadershipBeforeUpload
  | lostLeadershipBeforeConfirm
  | sourceUnavailableBeforeVerify (availability : UploadLocalAvailability)
  | sourceUnavailable (kind : UploadObjectKind) (availability : UploadLocalAvailability)
  | verifyFailed (err : VerifyErr)
  | integrityFailed (blockID : UInt64)
  | openSource (kind : UploadObjectKind)
  | sizeMismatch (kind : UploadObjectKind) (size expected : Int) (blockID : UInt64)
  | backend (cls : BackendClass)
  | verificationMismatch (kind : UploadObjectKind)
  | missingValidationToken (kind : UploadObjectKind)
deriving DecidableEq

/-- `verifyLocalUploadSource`, of the files as they are at the call. -/
def verifyLocalUploadSource (c : Crypto) (files : BlockFiles) (blockID : UInt64) :
    Except UploadAttemptErr Unit :=
  if files.localUploadAvailability blockID ≠ .ready then
    .error (.sourceUnavailableBeforeVerify (files.localUploadAvailability blockID))
  else
    match verifyBlock c files.blk files.idx with
    | .error err => .error (.verifyFailed err)
    | .ok result => if result.corruptFrames ≠ [] then .error (.integrityFailed blockID) else .ok ()

/-- `PutResult` and the part of `ObjectMeta` that is compared with it. -/
structure ObjectStat where
  size : Int
  etag : String
deriving DecidableEq

/-- What the calls of one `uploadObject` return. -/
structure ObjectIO where
  files : BlockFiles
  /-- the size of the file that was opened; `none` when it did not open -/
  openedSize : Option Int
  put : Except BackendClass ObjectStat
  head : Except BackendClass ObjectStat

/-- `expectedSize` is `none` for `uploadSizeUnchecked`. -/
def uploadObject (blockID : UInt64) (keyPrefix : String) (kind : UploadObjectKind)
    (expectedSize : Option Int) (io : ObjectIO) : Except UploadAttemptErr BackendObjectMetadata :=
  if io.files.localUploadAvailability blockID ≠ .ready then
    .error (.sourceUnavailable kind (io.files.localUploadAvailability blockID))
  else
    match io.openedSize with
    | none => .error (.openSource kind)
    | some size =>
      if expectedSize.any (fun expected => size ≠ expected) then
        .error (.sizeMismatch kind size (expectedSize.getD size) blockID)
      else
        match io.put with
        | .error cls => .error (.backend cls)
        | .ok result =>
          match io.head with
          | .error cls => .error (.backend cls)
          | .ok stat =>
            if stat ≠ result then .error (.verificationMismatch kind)
            else if result.etag = "" then .error (.missingValidationToken kind)
            else .ok ⟨keyPrefix ++ "." ++ kind.ext, result.size, result.etag⟩

def hexDigits : Nat → Nat → List Char
  | 0, _ => []
  | k + 1, n => hexDigits k (n / 16) ++ [Nat.digitChar (n % 16)]

/-- `%016x`. -/
def hex16 (n : Nat) : String := String.ofList (hexDigits 16 n)

def backendKeyPrefix (cellID : String) (upload : PendingUpload) : String :=
  let base := cellID ++ "/shards/" ++ hex16 upload.shardID.toNat ++ "/" ++ hex16 upload.blockID.toNat
  if 0 < upload.uploadGeneration then
    base ++ "/generations/" ++ hex16 upload.uploadGeneration.toNat
  else base

/-! ## An attempt among elections -/

/-- The leader a Member knows of, `0` for none, and its term. -/
structure Leadership where
  lead : UInt64
  term : Nat
deriving DecidableEq

/-- The first sample of an attempt. `since` is a ghost: the leaderships from the sample on, the
present one first. -/
structure EpochSample where
  upload : PendingUpload
  epoch : UInt64
  since : List Leadership
deriving DecidableEq

/-- Where `uploadAndConfirm` is: the next call it makes. -/
inductive UploadStage where
  | idle
  /-- `LeadershipEpoch`, after `IsLeader` -/
  | admitted (upload : PendingUpload)
  /-- `verifyLocalUploadSource` -/
  | sampled (a : EpochSample)
  /-- `uploadObject` of the Block -/
  | verified (a : EpochSample)
  /-- `uploadObject` of the `.idx` -/
  | blockPut (a : EpochSample) (blk : BackendObjectMetadata)
  /-- the second `IsLeader` -/
  | bothPut (a : EpochSample) (blk idx : BackendObjectMetadata)
  /-- the second `LeadershipEpoch` -/
  | rechecked (a : EpochSample) (blk idx : BackendObjectMetadata)
deriving DecidableEq

def UploadStage.sample : UploadStage → Option EpochSample
  | .idle => none
  | .admitted _ => none
  | .sampled a => some a
  | .verified a => some a
  | .blockPut a _ => some a
  | .bothPut a _ _ => some a
  | .rechecked a _ _ => some a

def UploadStage.note (l : Leadership) : UploadStage → UploadStage
  | .idle => .idle
  | .admitted upload => .admitted upload
  | .sampled a => .sampled { a with since := l :: a.since }
  | .verified a => .verified { a with since := l :: a.since }
  | .blockPut a blk => .blockPut { a with since := l :: a.since } blk
  | .bothPut a blk idx => .bothPut { a with since := l :: a.since } blk idx
  | .rechecked a blk idx => .rechecked { a with since := l :: a.since } blk idx

/-- A ConfirmUpload with the leaderships from the first sample to the last check. -/
structure FencedProposal where
  command : ConfirmUpload
  since : List Leadership
deriving DecidableEq

structure Uploader where
  id : UInt64
  cellID : String
  raft : Leadership
  /-- the last term this Member led -/
  lastLed : Nat
  /-- `leaderID` of the Raft node -/
  leaderID : UInt64
  stage : UploadStage
  proposed : List FencedProposal
deriving DecidableEq

def Uploader.isLeader (u : Uploader) : Bool := u.leaderID = u.id

/-- The published leader ID. -/
def Uploader.leadershipEpoch (u : Uploader) : UInt64 := u.leaderID

inductive UploadEvent where
  /-- Raft learns of another leader or term -/
  | elect (l : Leadership)
  /-- the Raft loop stores `SoftState.Lead` -/
  | publish
  | start (upload : PendingUpload)
  | readEpoch
  | verify (files : BlockFiles)
  | putBlock (io : ObjectIO)
  | putIndex (io : ObjectIO)
  | recheckLeader
  | recheckEpoch (nowUs : Int)

/-- What Raft allows: terms do not go back, a term has one leader, and none is won twice. -/
def Uploader.CanElect (u : Uploader) (l : Leadership) : Prop :=
  u.raft.term ≤ l.term ∧ (l.term = u.raft.term → u.raft.lead = 0 ∨ l.lead = 0) ∧
    (l.lead = u.id → u.lastLed < l.term)

instance (u : Uploader) (l : Leadership) : Decidable (u.CanElect l) :=
  inferInstanceAs (Decidable (_ ∧ _ ∧ _))

def UploadStage.onOk {α : Type} (next : α → UploadStage) : Except UploadAttemptErr α → UploadStage
  | .error _ => .idle
  | .ok x => next x

/-- The proposal of an attempt that passed its last check. -/
def EpochSample.confirm (a : EpochSample) (blk idx : BackendObjectMetadata) (nowUs : Int) :
    FencedProposal :=
  ⟨⟨a.upload.blockID, a.upload.shardID, nowUs, blk, idx, a.upload.uploadGeneration⟩, a.since⟩

def Uploader.step (c : Crypto) (u : Uploader) : UploadEvent → Uploader
  | .elect l =>
    if u.CanElect l then
      { u with
        raft := l
        lastLed := if l.lead = u.id then l.term else u.lastLed
        stage := u.stage.note l }
    else u
  | .publish => { u with leaderID := u.raft.lead }
  | .start upload =>
    match u.stage with
    | .idle => if u.isLeader then { u with stage := .admitted upload } else u
    | _ => u
  | .readEpoch =>
    match u.stage with
    | .admitted upload => { u with stage := .sampled ⟨upload, u.leadershipEpoch, [u.raft]⟩ }
    | _ => u
  | .verify files =>
    match u.stage with
    | .sampled a =>
      { u with
        stage := .onOk (fun _ => .verified a) (verifyLocalUploadSource c files a.upload.blockID) }
    | _ => u
  | .putBlock io =>
    match u.stage with
    | .verified a =>
      { u with
        stage := .onOk (.blockPut a) (uploadObject a.upload.blockID
          (backendKeyPrefix u.cellID a.upload) .block (some a.upload.sealedSizeBytes) io) }
    | _ => u
  | .putIndex io =>
    match u.stage with
    | .blockPut a blk =>
      { u with
        stage := .onOk (.bothPut a blk) (uploadObject a.upload.blockID
          (backendKeyPrefix u.cellID a.upload) .index none io) }
    | _ => u
  | .recheckLeader =>
    match u.stage with
    | .bothPut a blk idx =>
      { u with stage := if u.isLeader then .rechecked a blk idx else .idle }
    | _ => u
  | .recheckEpoch nowUs =>
    match u.stage with
    | .rechecked a blk idx =>
      if u.leadershipEpoch ≠ a.epoch then { u with stage := .idle }
      else { u with stage := .idle, proposed := a.confirm blk idx nowUs :: u.proposed }
    | _ => u

def UploadEvent.run (c : Crypto) (event : UploadEvent) : EStateM ShardErr Uploader Unit :=
  modify fun u => u.step c event

/-! ## What the fence needs -/

/-- One and the same leadership, by this Member, stood all the time. -/
def LedOneTerm (id : UInt64) (since : List Leadership) : Prop :=
  ∃ term, since ≠ [] ∧ ∀ l ∈ since, l = ⟨id, term⟩

/-- This Member is not elected while an attempt holds a sample, and both samples are taken when the
published leader is the present one. -/
def UploadEvent.Fenced (u : Uploader) : UploadEvent → Prop
  | .elect l => u.stage.sample.isSome = true → l.lead ≠ u.id
  | .readEpoch => u.leaderID = u.raft.lead
  | .recheckEpoch _ => u.leaderID = u.raft.lead
  | _ => True

/-- A sample against the present state: a Member that leads has led since the sample, and one that
is published as leader was so at the sample. -/
structure EpochSample.Held (a : EpochSample) (u : Uploader) : Prop where
  leads : u.raft.lead = u.id → a.since = [u.raft] ∧ a.epoch = u.id
  published : u.leaderID = u.id → a.epoch = u.id

structure Uploader.Sound (u : Uploader) : Prop where
  held : ∀ a, u.stage.sample = some a → a.Held u
  rechecked : ∀ a blk idx, u.stage = .rechecked a blk idx → a.epoch = u.id
  past : ∀ p ∈ u.proposed, LedOneTerm u.id p.since

section Steps

variable {c : Crypto} {u : Uploader}

theorem UploadStage.sample_note (st : UploadStage) (l : Leadership) :
    (st.note l).sample = st.sample.map (fun a => { a with since := l :: a.since }) := by
  cases st <;> rfl

theorem UploadStage.note_eq_rechecked {st : UploadStage} {l : Leadership} {a : EpochSample}
    {blk idx : BackendObjectMetadata} (h : st.note l = .rechecked a blk idx) :
    ∃ b, st = .rechecked b blk idx ∧ a.epoch = b.epoch := by
  cases st with
  | rechecked b blk' idx' =>
    obtain ⟨rfl, rfl, rfl⟩ := UploadStage.rechecked.inj h
    exact ⟨b, rfl, rfl⟩
  | _ => exact UploadStage.noConfusion h

namespace Uploader

theorem Sound.advance (h : u.Sound) {st : UploadStage}
    (hsample : ∀ a, st.sample = some a → u.stage.sample = some a)
    (hstage : ∀ a blk idx, st ≠ .rechecked a blk idx) : Sound { u with stage := st } where
  held a ha := ⟨(h.held a (hsample a ha)).leads, (h.held a (hsample a ha)).published⟩
  rechecked a blk idx heq := absurd heq (hstage a blk idx)
  past := h.past

theorem Sound.onOk (h : u.Sound) {α : Type} {a : EpochSample}
    (ha : u.stage.sample = some a) {next : α → UploadStage} (r : Except UploadAttemptErr α)
    (hnext : ∀ x, (next x).sample = some a ∧ ∀ b blk idx, next x ≠ .rechecked b blk idx) :
    Sound { u with stage := .onOk next r } := by
  cases r with
  | error err => exact h.advance nofun (fun _ _ _ => nofun)
  | ok x => ?_
  apply h.advance
  · intro b hb
    rw [show UploadStage.onOk next (.ok x) = next x from rfl, (hnext x).1] at hb
    rw [ha, hb]
  · exact (hnext x).2

/-- An election of another Member: the sample stays held, since this Member does not lead. -/
theorem Sound.elect (h : u.Sound) {l : Leadership}
    (hl : u.stage.sample.isSome = true → l.lead ≠ u.id) (lastLed : Nat) :
    Sound { u with raft := l, lastLed := lastLed, stage := u.stage.note l } where
  held a ha := by
    rw [UploadStage.sample_note, Option.map_eq_some_iff] at ha
    obtain ⟨b, hb, rfl⟩ := ha
    exact ⟨fun hlead => absurd hlead (hl (by rw [hb]; rfl)), (h.held b hb).published⟩
  rechecked a blk idx heq := by
    obtain ⟨b, hb, hepoch⟩ := UploadStage.note_eq_rechecked heq
    rw [hepoch]
    exact h.rechecked b blk idx hb
  past := h.past

theorem Sound.readEpoch (h : u.Sound) (hcache : u.leaderID = u.raft.lead)
    (upload : PendingUpload) :
    Sound { u with stage := .sampled ⟨upload, u.leadershipEpoch, [u.raft]⟩ } where
  held a ha := by
    cases ha
    exact ⟨fun hlead => ⟨rfl, hcache.trans hlead⟩, fun hpub => hpub⟩
  rechecked _ _ _ heq := UploadStage.noConfusion heq
  past := h.past

theorem Sound.recheckEpoch (h : u.Sound) (hcache : u.leaderID = u.raft.lead)
    {a : EpochSample} {blk idx : BackendObjectMetadata} (hst : u.stage = .rechecked a blk idx)
    (hepoch : u.leadershipEpoch = a.epoch) (nowUs : Int) :
    Sound { u with stage := .idle, proposed := a.confirm blk idx nowUs :: u.proposed } where
  held _ hb := nomatch hb
  rechecked _ _ _ heq := UploadStage.noConfusion heq
  past p hp := by
    rcases List.mem_cons.mp hp with rfl | hp
    · have hpub : u.leaderID = u.id := hepoch.trans (h.rechecked a blk idx hst)
      have hlead : u.raft.lead = u.id := hcache ▸ hpub
      have hsince := ((h.held a (by rw [hst]; rfl)).leads hlead).1
      refine ⟨u.raft.term, ?_, ?_⟩
      · rw [show (a.confirm blk idx nowUs).since = a.since from rfl, hsince]
        exact List.cons_ne_nil _ _
      intro l hl
      rw [show (a.confirm blk idx nowUs).since = a.since from rfl, hsince, List.mem_singleton] at hl
      show l = ⟨u.id, u.raft.term⟩
      rw [hl, ← hlead]
    · exact h.past p hp

theorem step_sound (h : u.Sound) {event : UploadEvent} (hcond : event.Fenced u) :
    (u.step c event).Sound := by
  cases event with
  | elect l =>
    by_cases hcan : u.CanElect l
    · rw [step, if_pos hcan]
      exact h.elect hcond _
    · rw [step, if_neg hcan]
      exact h
  | publish =>
    refine ⟨fun a ha => ?_, h.rechecked, h.past⟩
    exact ⟨(h.held a ha).leads, fun hpub => ((h.held a ha).leads hpub).2⟩
  | start upload =>
    simp only [step]
    split
    · split
      · exact h.advance nofun (fun _ _ _ => nofun)
      · exact h
    · exact h
  | readEpoch =>
    simp only [step]
    split
    · exact h.readEpoch hcond _
    · exact h
  | verify _ | putBlock _ =>
    simp only [step]
    split
    next a hst => exact h.onOk (by rw [hst]; rfl) _ (fun _ => ⟨rfl, fun _ _ _ => nofun⟩)
    next => exact h
  | putIndex io =>
    simp only [step]
    split
    next a blk hst => exact h.onOk (by rw [hst]; rfl) _ (fun _ => ⟨rfl, fun _ _ _ => nofun⟩)
    next => exact h
  | recheckLeader =>
    simp only [step]
    split
    next a blk idx hst =>
      have held := h.held a (by rw [hst]; rfl)
      by_cases hlead : u.isLeader = true
      · rw [if_pos hlead]
        refine ⟨fun b hb => ?_, fun b _ _ heq => ?_, h.past⟩
        · cases hb
          exact ⟨held.leads, held.published⟩
        · obtain ⟨rfl, -, -⟩ := UploadStage.rechecked.inj heq
          exact held.published (of_decide_eq_true hlead)
      · rw [if_neg hlead]
        exact h.advance nofun (fun _ _ _ => nofun)
    next => exact h
  | recheckEpoch nowUs =>
    simp only [step]
    split
    next a blk idx hst =>
      by_cases hepoch : u.leadershipEpoch = a.epoch
      · rw [if_neg (not_not.mpr hepoch)]
        exact h.recheckEpoch hcond hst hepoch nowUs
      · rw [if_pos hepoch]
        exact h.advance nofun (fun _ _ _ => nofun)
    next => exact h

end Uploader

end Steps

def Uploader.fresh (id : UInt64) (cellID : String) : Uploader := ⟨id, cellID, ⟨0, 0⟩, 0, 0, .idle, []⟩

theorem Uploader.fresh_sound (id : UInt64) (cellID : String) : (Uploader.fresh id cellID).Sound :=
  ⟨nofun, (fun _ _ _ heq => UploadStage.noConfusion heq), nofun⟩

/-- In every run in which this Member is not elected during an attempt and the published leader is
the present one at both samples, a ConfirmUpload is proposed only in one leadership that lasted from
the first sample to the last check. -/
theorem fenced_confirm_one_term (c : Crypto) (id : UInt64) (cellID : String)
    {events : List UploadEvent} {u : Uploader}
    (hrun : (runAll (UploadEvent.run c) events).run (Uploader.fresh id cellID) = .ok () u)
    (hcond : Meets (UploadEvent.run c) (fun v event => event.Fenced v) (Uploader.fresh id cellID)
      events) :
    ∀ p ∈ u.proposed, LedOneTerm u.id p.since := by
  have hstep : ∀ event v v', Uploader.Sound v → UploadEvent.Fenced v event →
      (UploadEvent.run c event).run v = .ok () v' → v'.Sound := by
    intro event v v' hv hfenced hstep
    cases hstep
    exact Uploader.step_sound hv hfenced
  exact (Meets.invariant hstep (Uploader.fresh_sound id cellID) hcond hrun).past

/-! ## A term lost and a later one won during an attempt -/

/-- The files of a sealed Block `1` that holds one Document of eight bytes. -/
def sealedFiles : BlockFiles :=
  ⟨some (blkOf [eightBytes]),
    some ⟨[⟨"t", "x", "text/plain", 1, 40, 1, 8, keylessCrypto.sha256 [], []⟩], false⟩,
    none, none, none, none⟩

def objectPut (size : Int) : ObjectIO := ⟨sealedFiles, some size, .ok ⟨size, "e"⟩, .ok ⟨size, "e"⟩⟩

/-- Member `1` leads term `1` and takes its first sample. -/
def uploadSampled : List UploadEvent :=
  [.elect ⟨1, 1⟩, .publish, .start ⟨1, 1, 80, 5, 0⟩, .readEpoch, .verify sealedFiles]

def uploadFinished : List UploadEvent :=
  [.putBlock (objectPut 80), .putIndex (objectPut 100), .recheckLeader, .recheckEpoch 9]

/-- Member `2` leads term `2`, and then Member `1` again, both published as they come. -/
def reelected : List UploadEvent := [.elect ⟨2, 2⟩, .publish, .elect ⟨1, 3⟩, .publish]

theorem reelected_leader_confirms : ∃ u,
    (runAll (UploadEvent.run keylessCrypto) (uploadSampled ++ reelected ++ uploadFinished)).run
      (Uploader.fresh 1 "cell") = .ok () u ∧
    u.proposed.map (·.since) = [[⟨1, 3⟩, ⟨2, 2⟩, ⟨1, 1⟩]] ∧
    ∃ p ∈ u.proposed, ¬ LedOneTerm u.id p.since := by
  have hsince : (after (runAll (UploadEvent.run keylessCrypto)
      (uploadSampled ++ reelected ++ uploadFinished)) (Uploader.fresh 1 "cell")).proposed.map
        (·.since) = [[⟨1, 3⟩, ⟨2, 2⟩, ⟨1, 1⟩]] := by decide +kernel
  obtain ⟨p, hp, hps⟩ := List.mem_map.mp (hsince ▸ List.mem_singleton_self _)
  refine ⟨_, outcome_ok_iff.mp (by decide +kernel), hsince, p, hp, ?_⟩
  rintro ⟨term, -, hall⟩
  have hfirst := hall ⟨1, 1⟩ (by rw [hps]; simp)
  have hlast := hall ⟨1, 3⟩ (by rw [hps]; simp)
  exact absurd (hfirst.trans hlast.symm) (by decide)

theorem fenced_confirm_one_term_kept : ∃ u,
    (runAll (UploadEvent.run keylessCrypto) (uploadSampled ++ uploadFinished)).run
      (Uploader.fresh 1 "cell") = .ok () u ∧
    u.proposed.map (·.command.uploadGeneration) = [0] ∧
    ∀ p ∈ u.proposed, LedOneTerm u.id p.since := by
  have hrun := outcome_ok_iff.mp (show outcome (runAll (UploadEvent.run keylessCrypto)
    (uploadSampled ++ uploadFinished)) (Uploader.fresh 1 "cell") = .ok () by decide +kernel)
  have hcond : Meets (UploadEvent.run keylessCrypto) (fun v event => event.Fenced v)
      (Uploader.fresh 1 "cell") (uploadSampled ++ uploadFinished) :=
    ⟨nofun, trivial, trivial, rfl, trivial, trivial, trivial, trivial, rfl, trivial⟩
  exact ⟨_, hrun, by decide +kernel, fenced_confirm_one_term keylessCrypto 1 "cell" hrun hcond⟩

end Scrap
