/-
# The truncations of a recovery

Phase B decides its candidates one by one, and each decision may cut a Block and remove a prep
before the next is taken. No decision reads a `.blk`, and of the preps a candidate asks only for
its own, so every decision is the one on the files before the run (`Shard.Resolved`), and a Block
ends at the smallest offset that one of them cuts it at, in whatever order they come
(`openlog_truncations`).

The guard asks for `.idx` entries that start at or past the offset: a Document that starts before
the offset and ends behind it is cut (`prep_cuts_indexed_document`).
-/
import Scrap.Block.Reader
import Scrap.Shard.Generations

namespace Scrap

open Block Fallible

/-! ## Cutting twice -/

theorem cutFrames_cutFrames : ∀ (fs : List Frame) {m n : Nat}, n ≤ m →
    cutFrames (cutFrames fs m).1 n = cutFrames fs n
  | [], _, _, _ => rfl
  | f :: fs, m, n, h => by
    rw [cutFrames]
    by_cases hm : f.size ≤ m
    · rw [if_pos hm, cutFrames, cutFrames]
      by_cases hn : f.size ≤ n
      · rw [if_pos hn, if_pos hn, cutFrames_cutFrames fs (Nat.sub_le_sub_right h _)]
      · rw [if_neg hn, if_neg hn]
    · rw [if_neg hm, cutFrames, cutFrames, if_neg (by omega)]

theorem Block.BlkFile.size_truncate (f : BlkFile) (n : Nat) :
    (f.truncate n).size = headerSize + (n - headerSize) := by
  have := cutFrames_size f.frames (n - headerSize)
  simp only [BlkFile.size, BlkFile.truncate]
  omega

theorem truncateFile_truncateFile (f : Option BlkFile) (m n : Nat) :
    truncateFile (truncateFile f m) n = truncateFile f (min m n) := by
  cases f with
  | none => rfl
  | some f => ?_
  simp only [truncateFile, Option.some.injEq]
  by_cases hm : f.size ≤ m
  · rw [if_pos hm]
    by_cases hn : f.size ≤ n
    · rw [if_pos hn, if_pos (by omega)]
    · rw [if_neg hn, if_neg (by omega), Nat.min_eq_right (by omega)]
  · have hsize := f.size_truncate m
    rw [if_neg hm, if_neg (show ¬ f.size ≤ min m n by omega)]
    by_cases hn : (f.truncate m).size ≤ n
    · rw [if_pos hn, Nat.min_eq_left (by omega)]
    rw [if_neg hn]
    simp only [BlkFile.truncate]
    rw [cutFrames_cutFrames f.frames (by omega)]
    rcases Nat.le_total m n with hle | hle
    · rw [show n - headerSize = min m n - headerSize by omega]
    · rw [Nat.min_eq_right hle]

theorem readDocumentFrames_truncateFile {f : BlkFile} {e : IndexEntry}
    {payloads : List (List UInt8)} {n : Nat} (hcount : 0 < e.frameCount.toNat)
    (hread : readDocumentFrames (some f) e = .ok payloads) :
    (∃ f', truncateFile (some f) n = some f' ∧ readDocumentFrames (some f') e = .ok payloads ∧
      f'.docEnd e = f.docEnd e) ↔ f.docEnd e ≤ n := by
  obtain ⟨hstart, hwithin⟩ := docEnd_bounds hcount hread
  simp only [truncateFile]
  split
  next hsize => exact iff_of_true ⟨f, rfl, hread, rfl⟩ (hwithin.trans hsize)
  next hsize =>
    refine ⟨?_, fun hend => ⟨_, rfl, readDocumentFrames_truncate hcount hread hend⟩⟩
    rintro ⟨f', hf', hread', hend⟩
    cases hf'
    have hcut := (docEnd_bounds hcount hread').2
    rw [BlkFile.size_truncate] at hcut
    omega

/-- The file is cut at the least of the offsets, or left alone when there is none. -/
def LeastCut (offsets : Nat → Prop) (f f' : Option BlkFile) : Prop :=
  (∀ n, ¬ offsets n) ∧ f' = f ∨ ∃ n, offsets n ∧ (∀ m, offsets m → n ≤ m) ∧ f' = truncateFile f n

theorem LeastCut.insert {offsets offsets' : Nat → Prop} {f f' : Option BlkFile} {n : Nat}
    (h : LeastCut offsets f f') (hoffsets : ∀ m, offsets' m ↔ offsets m ∨ m = n) :
    LeastCut offsets' f (truncateFile f' n) := by
  right
  obtain ⟨hnone, rfl⟩ | ⟨k, hk, hleast, rfl⟩ := h
  · exact ⟨n, (hoffsets n).mpr (.inr rfl),
      fun m hm => ((hoffsets m).mp hm).elim (absurd · (hnone m)) fun h => Nat.le_of_eq h.symm, rfl⟩
  refine ⟨min k n, ?_, fun m hm => ?_, truncateFile_truncateFile f k n⟩
  · rcases Nat.le_total k n with hle | hle
    · rw [Nat.min_eq_left hle]
      exact (hoffsets k).mpr (.inl hk)
    · rw [Nat.min_eq_right hle]
      exact (hoffsets n).mpr (.inr rfl)
  · rcases (hoffsets m).mp hm with hold | rfl
    · exact Nat.le_trans (Nat.min_le_left k n) (hleast m hold)
    · exact Nat.min_le_right k m

/-! ## The decisions -/

section Decisions

variable {s t u : Shard} {c : TruncationCandidate} {done cands : List TruncationCandidate}

def Shard.hasPrep (s : Shard) (name : String) : Bool := s.openlog.any (·.writeID = name)

/-- The prep is there and its Document not committed, and no `.idx` entry starts at or past it. -/
def Shard.Cuts (s : Shard) (c : TruncationCandidate) : Prop :=
  s.hasPrep c.prepName = true ∧ s.prepIsCommittedInstance c = .ok false ∧
    s.blockIndexHasEntryAtOrPast c.blockID c.startOffset = .ok false

theorem resolveOpenlogTruncation_run (t : Shard) (c : TruncationCandidate) :
    (∃ err, (resolveOpenlogTruncation c).run t = .error err t) ∨
      (¬ t.Cuts c ∧ ((resolveOpenlogTruncation c).run t = .ok () t ∨
        (resolveOpenlogTruncation c).run t = .ok () (t.removePrep c.prepName))) ∨
      (t.Cuts c ∧ (resolveOpenlogTruncation c).run t = .ok () ((t.setBlk c.blockID
          (truncateFile (t.blocks c.blockID).blk c.startOffset)).removePrep c.prepName)) := by
  have hall : t.openlog.all (fun p => p.writeID ≠ c.prepName) = !t.hasPrep c.prepName := by
    simp [Shard.hasPrep, List.not_any_eq_all_not]
  unfold Shard.Cuts resolveOpenlogTruncation
  rw [get_bind, hall]
  cases t.hasPrep c.prepName with
  | false => exact .inr (.inl ⟨by simp, .inl rfl⟩)
  | true => ?_
  cases t.prepIsCommittedInstance c with
  | error err => exact .inl ⟨err, rfl⟩
  | ok committed => ?_
  cases committed with
  | true => exact .inr (.inl ⟨by simp, .inr rfl⟩)
  | false => ?_
  cases t.blockIndexHasEntryAtOrPast c.blockID c.startOffset with
  | error err => exact .inl ⟨err, rfl⟩
  | ok above => ?_
  cases above with
  | true => exact .inr (.inl ⟨by simp, .inl rfl⟩)
  | false => exact .inr (.inr ⟨⟨rfl, rfl, rfl⟩, rfl⟩)

namespace Shard

/-- The files `t` after the decisions on `done`, which all are decisions on `s`. -/
structure Resolved (s : Shard) (done : List TruncationCandidate) (t : Shard) : Prop where
  resolver : t.projectionResolver = s.projectionResolver
  preps : ∀ name, name ∉ done.map (·.prepName) → t.hasPrep name = s.hasPrep name
  blk : ∀ b, LeastCut (fun n => ∃ c ∈ done, c.blockID = b ∧ c.startOffset = n ∧ s.Cuts c)
    (s.blocks b).blk (t.blocks b).blk

theorem Resolved.idx (h : s.Resolved done t) (b : UInt64) :
    (t.blocks b).idx = (s.blocks b).idx :=
  congrFun (congrArg Resolver.blockIndex h.resolver) b

theorem Resolved.cuts_iff (h : s.Resolved done t)
    (hnew : c.prepName ∉ done.map (·.prepName)) : t.Cuts c ↔ s.Cuts c := by
  simp only [Cuts, h.preps _ hnew, prepIsCommittedInstance,
    documentVisibleInProjectionLenient, duplicateDocumentEntry, h.resolver,
    blockIndexHasEntryAtOrPast, h.idx]

theorem hasPrep_removePrep (t : Shard) {name other : String} (h : other ≠ name) :
    (t.removePrep name).hasPrep other = t.hasPrep other := by
  unfold hasPrep removePrep
  rw [Bool.eq_iff_iff]
  simp only [List.any_eq_true, List.mem_filter, decide_eq_true_eq]
  refine exists_congr fun p => ⟨fun hp => ⟨hp.1.1, hp.2⟩, fun hp => ⟨⟨hp.1, ?_⟩, hp.2⟩⟩
  rw [hp.2]
  exact h

theorem projectionResolver_setBlk (t : Shard) (b : UInt64) (f : Option BlkFile) :
    (t.setBlk b f).projectionResolver = t.projectionResolver := by
  unfold projectionResolver
  congr 1
  funext b'
  by_cases hb : b' = b <;> simp [setBlk, setBlock, hb]

theorem Resolved.step (h : s.Resolved done t) (hnew : c.prepName ∉ done.map (·.prepName))
    (hrun : (resolveOpenlogTruncation c).run t = .ok () u) : s.Resolved (done ++ [c]) u := by
  have hother : ∀ name, name ∉ (done ++ [c]).map (·.prepName) →
      (t.removePrep c.prepName).hasPrep name = s.hasPrep name ∧ t.hasPrep name = s.hasPrep name := by
    intro name hname
    simp only [List.map_append, List.mem_append, not_or, List.map_cons, List.map_nil,
      List.mem_singleton] at hname
    exact ⟨(t.hasPrep_removePrep hname.2).trans (h.preps _ hname.1), h.preps _ hname.1⟩
  obtain ⟨err, herr⟩ | ⟨hkeep, hok⟩ | ⟨hcut, hok⟩ := resolveOpenlogTruncation_run t c
  · cases herr.symm.trans hrun
  · rw [h.cuts_iff hnew] at hkeep
    have hblk : ∀ b, LeastCut
        (fun n => ∃ c' ∈ done ++ [c], c'.blockID = b ∧ c'.startOffset = n ∧ s.Cuts c')
        (s.blocks b).blk (t.blocks b).blk := fun b => by
      simpa [or_and_right, exists_or, hkeep] using h.blk b
    rcases hok with hok | hok
    · cases hok.symm.trans hrun
      exact ⟨h.resolver, fun name hname => (hother name hname).2, hblk⟩
    · cases hok.symm.trans hrun
      exact ⟨h.resolver, fun name hname => (hother name hname).1, hblk⟩
  · rw [h.cuts_iff hnew] at hcut
    cases hok.symm.trans hrun
    refine ⟨(t.projectionResolver_setBlk _ _).trans h.resolver,
      fun name hname => (hother name hname).1, fun b => ?_⟩
    show LeastCut _ _ ((t.setBlk c.blockID _).blocks b).blk
    by_cases hb : b = c.blockID
    · subst hb
      simp only [setBlk, setBlock, Function.update_self]
      refine (h.blk c.blockID).insert fun m => ?_
      simp [or_and_right, exists_or, hcut, eq_comm]
    · simp only [setBlk, setBlock, Function.update_of_ne hb]
      simpa [or_and_right, exists_or, Ne.symm hb] using h.blk b

end Shard

/-- Phase B, on any candidates in any order: a Block is cut at the smallest offset whose prep is
unresolved with no entry at or past it, and a Document is read as before exactly if every such
prep lies at or behind its end. -/
theorem openlog_truncations (hnames : (cands.map (·.prepName)).Nodup)
    (hrun : (resolveOpenlogTruncations cands).run s = .ok () u) (b : UInt64) :
    (u.blocks b).idx = (s.blocks b).idx ∧
      LeastCut (fun n => ∃ c ∈ cands, c.blockID = b ∧ c.startOffset = n ∧ s.Cuts c)
        (s.blocks b).blk (u.blocks b).blk ∧
      ∀ f e payloads, (s.blocks b).blk = some f → 0 < e.frameCount.toNat →
        readDocumentFrames (some f) e = .ok payloads →
        ((∃ f', (u.blocks b).blk = some f' ∧ readDocumentFrames (some f') e = .ok payloads ∧
            f'.docEnd e = f.docEnd e) ↔
          ∀ c ∈ cands, c.blockID = b → s.Cuts c → f.docEnd e ≤ c.startOffset) := by
  have h : s.Resolved cands u := by
    refine runAll_invariant (P := fun l t => (l.map (·.prepName)).Nodup → s.Resolved l t)
      (fun _ => ⟨rfl, fun _ _ => rfl, fun b => .inl ⟨by simp, rfl⟩⟩)
      (fun l c t t' ih hstep hnodup => ?_) hrun hnames
    rw [List.map_append, List.nodup_append] at hnodup
    exact (ih hnodup.1).step (fun hmem => hnodup.2.2 _ hmem _ (by simp) rfl) hstep
  refine ⟨h.idx b, h.blk b, fun f e payloads hf hcount hread => ?_⟩
  obtain ⟨hnone, hsame⟩ | ⟨n, ⟨c, hc, hb, rfl, hcuts⟩, hleast, hcut⟩ := h.blk b
  · exact iff_of_true ⟨f, hsame.trans hf, hread, rfl⟩ fun c hc hb hcuts =>
      absurd ⟨c, hc, hb, rfl, hcuts⟩ (hnone c.startOffset)
  rw [hcut, hf, readDocumentFrames_truncateFile hcount hread]
  exact ⟨fun hend c' hc' hb' hcuts' => hend.trans (hleast _ ⟨c', hc', hb', rfl, hcuts'⟩),
    fun hall => hall c hc hb hcuts⟩

end Decisions

def indexedX : IndexEntry := ⟨"t", "x", "text/plain", 1, 40, 1, 8, keylessCrypto.sha256 [], []⟩

def indexedZ : IndexEntry := { indexedX with docName := "z", firstFrameOff := 80 }

/-- A Block of indexed Documents at `40` and `80` and Frames behind them, with a prep inside the
first Document and one behind the second. -/
def prepsLeft : Shard :=
  { Shard.fresh 1 true with
    openlog := [⟨"a", "t", "y", 1, 41, "text/plain"⟩, ⟨"b", "t", "w", 1, 120, "text/plain"⟩]
    blocks := fun _ => { BlockFiles.absent with
      blk := some (blkOf [eightBytes, eightBytes, eightBytes])
      idx := some ⟨[indexedX, indexedZ], false⟩ } }

def prepsLeftCandidates : List TruncationCandidate :=
  [⟨"a", "t", "y", 1, 41⟩, ⟨"b", "t", "w", 1, 120⟩]

/-- The entry at `80` keeps the prep inside the first Document from cutting. -/
theorem openlog_truncations_behind : ∃ u f',
    (resolveOpenlogTruncations prepsLeftCandidates).run prepsLeft = .ok () u ∧
      (u.blocks 1).blk = some f' ∧ f'.size = 120 ∧
      readDocumentFrames (some f') indexedX = .ok [List.replicate 8 0] := by
  obtain ⟨u, hrun⟩ : ∃ u, (resolveOpenlogTruncations prepsLeftCandidates).run prepsLeft = .ok () u :=
    ⟨_, rfl⟩
  obtain ⟨-, -, hread⟩ := openlog_truncations (by decide) hrun 1
  have hall : ∀ c ∈ prepsLeftCandidates, c.blockID = 1 → prepsLeft.Cuts c →
      80 ≤ c.startOffset := by
    intro c hc _ hcuts
    rcases List.mem_pair.mp hc with rfl | rfl
    · cases hcuts.2.2
    · decide
  obtain ⟨f', hf', hread', -⟩ := (hread _ indexedX _ rfl (by decide) rfl).mpr hall
  refine ⟨u, f', hrun, hf', ?_, hread'⟩
  cases hrun
  cases hf'
  rfl

/-- Block `1` ends with the indexed Document at `40`, and a prep is left inside of it. -/
def prepLeft : Shard :=
  { Shard.fresh 1 true with
    openlog := [⟨"a", "t", "y", 1, 41, "text/plain"⟩]
    blocks := fun _ =>
      { BlockFiles.absent with blk := some (blkOf [eightBytes]), idx := some ⟨[indexedX], false⟩ } }

/-- No entry starts at or past the prep. -/
theorem prep_cuts_indexed_document :
    (openIndexReader (prepLeft.blocks 1).idx = .ok [indexedX] ∧
      readDocumentFrames (prepLeft.blocks 1).blk indexedX = .ok [List.replicate 8 0]) ∧
      ∃ u, (resolveOpenlogTruncations [⟨"a", "t", "y", 1, 41⟩]).run prepLeft = .ok () u ∧
        (u.blocks 1).idx = some ⟨[indexedX], false⟩ ∧
        ∀ payloads, readDocumentFrames (u.blocks 1).blk indexedX ≠ .ok payloads :=
  ⟨⟨rfl, rfl⟩, _, rfl, rfl, nofun⟩

end Scrap
