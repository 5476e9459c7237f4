/-
# Replacing an envelope in an `.idx` file

`ReplaceDocumentEnvelope` writes all entries to a temporary file, syncs it, renames it over the
index and syncs the directory. Each system call is a step here, a write one step for each byte.
After a crash a file that was not synced may have any content, and a rename that was not synced may
be undone. The index is safe all the same, since the temporary file is synced before the rename
(`run_rewriteOps`).

What goes wrong is not the order of the steps: a longer envelope may bring an entry over the
reader's limit, and then the new file cannot be read.
-/
import Scrap.Block.IdxTail
import Scrap.Lib.Crash

namespace Scrap.Block.Disk

open Bytes Crash

/-! ## The directory -/

structure Inode where
  bytes : List UInt8
  synced : Bool
deriving DecidableEq

/-- The directory of an index. `prior` are the files it named before renames that are not synced. -/
structure Dir where
  index : Inode
  prior : List Inode
  temp : Option Inode
deriving DecidableEq

/-- A crash may leave this at the index path. -/
def Dir.AfterCrash (d : Dir) (bs : List UInt8) : Prop :=
  ∃ f ∈ d.index :: d.prior, f.synced = true → bs = f.bytes

inductive FileOp where
  /-- `ir.Close` -/
  | closeIndex
  /-- `os.CreateTemp` -/
  | createTemp
  /-- `tmp.Close` -/
  | closeTemp
  /-- `os.Remove` of the placeholder -/
  | removePlaceholder
  /-- `os.OpenFile` of `NewIndexWriter` -/
  | create
  | write (b : UInt8)
  | sync
  /-- `w.f.Close` -/
  | close
  | rename
  /-- `os.Open` of `syncIndexDir` -/
  | openDir
  | syncDir
deriving DecidableEq

def FileOp.apply : FileOp → Dir → Dir
  | .closeIndex, d => d
  | .createTemp, d => { d with temp := some ⟨[], false⟩ }
  | .closeTemp, d => d
  | .removePlaceholder, d => { d with temp := none }
  | .create, d => { d with temp := some ⟨[], false⟩ }
  | .write b, d => { d with temp := d.temp.map fun f => ⟨f.bytes ++ [b], false⟩ }
  | .sync, d => { d with temp := d.temp.map fun f => ⟨f.bytes, true⟩ }
  | .close, d => d
  | .rename, d =>
    match d.temp with
    | none => d
    | some f => ⟨f, d.index :: d.prior, none⟩
  | .openDir, d => d
  | .syncDir, d => { d with prior := [] }

/-! ## The call -/

inductive ReplaceErr where
  | read (err : IdxFileErr)
  /-- `ErrDocNotFound` -/
  | docNotFound
  /-- `block: rewrite index entry: %w` -/
  | entry (err : IdxErr)
  /-- a system call failed -/
  | io (op : FileOp)
deriving DecidableEq

section Call

variable (crc32c : List UInt8 → UInt32)

/-- The calls of `Append`; an entry that is refused ends them. -/
def appendOps : List Record → List FileOp × Option IdxErr
  | [] => ([], none)
  | r :: rs =>
    match r.validateEntryFieldLens with
    | .error err => ([], some err)
    | .ok () => ((encodeRecord crc32c r).map .write ++ .sync :: (appendOps rs).1, (appendOps rs).2)

/-- `rewriteIndexEntries`. If an entry is refused the new file is closed, whatever that gives. -/
def rewriteOps (rs : List Record) : List FileOp × Option IdxErr :=
  ([.createTemp, .closeTemp, .removePlaceholder, .create] ++ (newIndexBytes crc32c).map .write ++
      (appendOps crc32c rs).1 ++
      (if (appendOps crc32c rs).2 = none then [.sync, .close, .rename, .openDir, .syncDir] else []),
    (appendOps crc32c rs).2)

def Record.isDoc (txID docName : List UInt8) (r : Record) : Bool :=
  r.transactionID = txID ∧ r.docName = docName

def withEnvelope (rs : List Record) (target : Nat) (r : Record) (envelope : List UInt8) : List Record :=
  rs.set target { r with encryptionEnvelope := envelope }

/-- `ReplaceDocumentEnvelope` on these bytes: its system calls, and what it returns if none fails.
-/
def replacePlan (bs txID docName envelope : List UInt8) :
    List FileOp × Except ReplaceErr (Record × Bool) :=
  match openIndexReader crc32c bs with
  | .error err => ([], .error (.read err))
  | .ok entries =>
    match entries.findIdx? (Record.isDoc txID docName) with
    | none => ([.closeIndex], .error .docNotFound)
    | some target =>
      match entries[target]? with
      | none => ([.closeIndex], .error .docNotFound)
      | some r =>
        if r.encryptionEnvelope = envelope then ([.closeIndex], .ok (r, false))
        else
          (.closeIndex :: (rewriteOps crc32c (withEnvelope entries target r envelope)).1,
            match (rewriteOps crc32c (withEnvelope entries target r envelope)).2 with
            | some err => .error (.entry err)
            | none => .ok ({ r with encryptionEnvelope := envelope }, true))

def Dir.holding (bs : List UInt8) : Dir := ⟨⟨bs, true⟩, [], none⟩

/-- The directory when `n` of the system calls have been made. -/
def midway (bs txID docName envelope : List UInt8) (n : Nat) : Dir :=
  runSteps FileOp.apply ((replacePlan crc32c bs txID docName envelope).1.take n) (.holding bs)

/-- The call, if the system call at this position fails. The temporary file is removed in the end,
unless its removal failed. -/
def replaceDocumentEnvelope (bs txID docName envelope : List UInt8) (fails : Nat) :
    Except ReplaceErr (Record × Bool) × Dir :=
  let d := midway crc32c bs txID docName envelope fails
  match (replacePlan crc32c bs txID docName envelope).1[fails]? with
  | some op => (.error (.io op), if op = .removePlaceholder then d else { d with temp := none })
  | none => ((replacePlan crc32c bs txID docName envelope).2, { d with temp := none })

end Call

/-! ## What the steps do -/

/-- The steps that leave the index path alone. -/
def Quiet (ops : List FileOp) : Prop := ∀ op ∈ ops, op ≠ .rename ∧ op ≠ .syncDir

theorem FileOp.apply_quiet {op : FileOp} (h : op ≠ .rename ∧ op ≠ .syncDir) (d : Dir) :
    (op.apply d).index = d.index ∧ (op.apply d).prior = d.prior := by
  cases op with
  | rename => exact absurd rfl h.1
  | syncDir => exact absurd rfl h.2
  | _ => exact ⟨rfl, rfl⟩

theorem Quiet.run : ∀ {ops : List FileOp}, Quiet ops → ∀ d : Dir,
    (runSteps FileOp.apply ops d).index = d.index ∧ (runSteps FileOp.apply ops d).prior = d.prior
  | [], _, d => ⟨rfl, rfl⟩
  | op :: ops, h, d => by
    obtain ⟨hop, hops⟩ := List.forall_mem_cons.mp h
    obtain ⟨hindex, hprior⟩ := FileOp.apply_quiet hop d
    obtain ⟨hindex', hprior'⟩ := Quiet.run hops (op.apply d)
    exact ⟨hindex'.trans hindex, hprior'.trans hprior⟩

variable {ops : List FileOp} {c : List UInt8} {fails target : Nat} {r : Record}

theorem Quiet.take (h : Quiet ops) (n : Nat) : Quiet (ops.take n) :=
  fun op hop => h op (List.mem_of_mem_take hop)

theorem Quiet.append {more : List FileOp} (h : Quiet ops) (hmore : Quiet more) :
    Quiet (ops ++ more) :=
  List.forall_mem_append.mpr ⟨h, hmore⟩

theorem quiet_writes (data : List UInt8) : Quiet (data.map .write) := by
  intro op hop
  obtain ⟨b, -, rfl⟩ := List.mem_map.mp hop
  simp

section Steps

variable (crc32c : List UInt8 → UInt32)

theorem quiet_appendOps : ∀ rs : List Record, Quiet (appendOps crc32c rs).1
  | [] => fun op hop => absurd hop List.not_mem_nil
  | r :: rs => by
    rw [appendOps]
    cases r.validateEntryFieldLens with
    | error err => exact fun op hop => absurd hop List.not_mem_nil
    | ok u => exact (quiet_writes _).append (List.forall_mem_cons.mpr ⟨by simp, quiet_appendOps rs⟩)

theorem appendOps_refused : ∀ {rs : List Record},
    (appendOps crc32c rs).2 = none ↔ ∀ r ∈ rs, r.FieldsFit
  | [] => by simp [appendOps]
  | r :: rs => by
    rw [appendOps, List.forall_mem_cons, ← Record.validateEntryFieldLens_ok]
    cases r.validateEntryFieldLens with
    | error err => simp
    | ok u => simpa using appendOps_refused

theorem run_writes : ∀ (data : List UInt8) {d : Dir} {f : Inode}, d.temp = some f →
    ∃ synced, (runSteps FileOp.apply (data.map .write) d).temp = some ⟨f.bytes ++ data, synced⟩
  | [], d, f, h => ⟨f.synced, by simpa using h⟩
  | b :: data, d, f, h => by
    obtain ⟨synced, hrun⟩ := run_writes data (d := (FileOp.write b).apply d)
      (f := ⟨f.bytes ++ [b], false⟩) (by simp [FileOp.apply, h])
    refine ⟨synced, ?_⟩
    rw [List.map_cons, runSteps_cons, hrun, List.append_assoc]
    rfl

theorem run_appendOps : ∀ {rs : List Record} {d : Dir} {f : Inode}, (∀ r ∈ rs, r.FieldsFit) →
    d.temp = some f →
    ∃ synced, (runSteps FileOp.apply (appendOps crc32c rs).1 d).temp =
      some ⟨f.bytes ++ encodeRecords crc32c rs, synced⟩
  | [], d, f, _, h => ⟨f.synced, by simpa [appendOps, encodeRecords] using h⟩
  | r :: rs, d, f, hfit, h => by
    obtain ⟨hr, hrs⟩ := List.forall_mem_cons.mp hfit
    obtain ⟨synced, hwrite⟩ := run_writes (encodeRecord crc32c r) h
    obtain ⟨synced', hrest⟩ := run_appendOps hrs
      (d := FileOp.sync.apply (runSteps FileOp.apply ((encodeRecord crc32c r).map .write) d))
      (f := ⟨f.bytes ++ encodeRecord crc32c r, true⟩) (by simp [FileOp.apply, hwrite])
    refine ⟨synced', ?_⟩
    rw [appendOps, Record.validateEntryFieldLens_ok.mpr hr]
    simp only
    rw [runSteps_append, runSteps_cons, hrest, List.append_assoc]
    rfl

/-- The steps of `rewriteIndexEntries` up to the rename, or to an entry that is refused. -/
def rewriteBody (rs : List Record) : List FileOp :=
  [.createTemp, .closeTemp, .removePlaceholder, .create] ++ (newIndexBytes crc32c).map .write ++
    (appendOps crc32c rs).1

theorem quiet_rewriteBody (rs : List Record) : Quiet (rewriteBody crc32c rs) := by
  refine (Quiet.append ?_ (quiet_writes _)).append (quiet_appendOps crc32c rs)
  simp [Quiet]

theorem run_rewriteBody {rs : List Record} (hfit : ∀ r ∈ rs, r.FieldsFit) (d : Dir) :
    runSteps FileOp.apply (rewriteBody crc32c rs ++ [.sync, .close]) d =
      ⟨d.index, d.prior, some ⟨newIndexBytes crc32c ++ encodeRecords crc32c rs, true⟩⟩ := by
  have hstart : (runSteps FileOp.apply [.createTemp, .closeTemp, .removePlaceholder, .create] d).temp =
      some ⟨[], false⟩ := rfl
  obtain ⟨synced, hheader⟩ := run_writes (newIndexBytes crc32c) hstart
  obtain ⟨synced', hentries⟩ := run_appendOps crc32c hfit hheader
  obtain ⟨hindex, hprior⟩ := (quiet_rewriteBody crc32c rs).run d
  have hbody : runSteps FileOp.apply (rewriteBody crc32c rs) d =
      ⟨d.index, d.prior, some ⟨newIndexBytes crc32c ++ encodeRecords crc32c rs, synced'⟩⟩ := by
    have htemp : (runSteps FileOp.apply (rewriteBody crc32c rs) d).temp =
        some ⟨newIndexBytes crc32c ++ encodeRecords crc32c rs, synced'⟩ := by
      rw [rewriteBody, runSteps_append, runSteps_append, hentries]
      rfl
    rw [← hindex, ← hprior, ← htemp]
  rw [runSteps_append, hbody]
  rfl

end Steps

/-! ## What is at the index path -/

/-- The index path names the old file, and nothing else can come back. -/
def Dir.Old (bs : List UInt8) (d : Dir) : Prop := d.index = ⟨bs, true⟩ ∧ d.prior = []

def Dir.OldOrNew (bs new : List UInt8) (d : Dir) : Prop :=
  d.Old bs ∨ (d.index = ⟨new, true⟩ ∧ ∀ f ∈ d.prior, f = ⟨bs, true⟩)

theorem Dir.Old.afterCrash {bs : List UInt8} {d : Dir} (h : d.Old bs) (hc : d.AfterCrash c) :
    c = bs := by
  obtain ⟨f, hf, hbytes⟩ := hc
  rw [h.1, h.2, List.mem_singleton] at hf
  subst hf
  exact hbytes rfl

theorem Dir.OldOrNew.afterCrash {bs new : List UInt8} {d : Dir} (h : d.OldOrNew bs new)
    (hc : d.AfterCrash c) : c = bs ∨ c = new := by
  rcases h with hold | ⟨hindex, hprior⟩
  · exact .inl (hold.afterCrash hc)
  obtain ⟨f, hf, hbytes⟩ := hc
  rcases List.mem_cons.mp hf with rfl | hf
  · rw [hindex] at hbytes
    exact .inr (hbytes rfl)
  · rw [hprior f hf] at hbytes
    exact .inl (hbytes rfl)

theorem Quiet.old (h : Quiet ops) (bs : List UInt8) :
    (runSteps FileOp.apply ops (.holding bs)).Old bs := by
  obtain ⟨hindex, hprior⟩ := h.run (.holding bs)
  exact ⟨hindex, hprior⟩

section Plan

variable {crc32c : List UInt8 → UInt32} {bs txID docName envelope : List UInt8} {rs : List Record}

/-- The first entry of the Document, and its position. -/
def Target (rs : List Record) (txID docName : List UInt8) (target : Nat) (r : Record) : Prop :=
  rs.findIdx? (Record.isDoc txID docName) = some target ∧ rs[target]? = some r

theorem replacePlan_same (hread : openIndexReader crc32c bs = .ok rs)
    (hsame : ∀ target r, Target rs txID docName target r → r.encryptionEnvelope = envelope) :
    (replacePlan crc32c bs txID docName envelope).1 = [.closeIndex] := by
  simp only [replacePlan, hread]
  cases hfind : rs.findIdx? (Record.isDoc txID docName) with
  | none => rfl
  | some target => ?_
  cases hget : rs[target]? with
  | none => simp [hget]
  | some r => simp [hget, hsame target r ⟨hfind, hget⟩]

theorem replacePlan_rewrite (hread : openIndexReader crc32c bs = .ok rs)
    (htarget : Target rs txID docName target r) (hne : r.encryptionEnvelope ≠ envelope) :
    (replacePlan crc32c bs txID docName envelope).1 =
        .closeIndex :: (rewriteOps crc32c (withEnvelope rs target r envelope)).1 ∧
      ((rewriteOps crc32c (withEnvelope rs target r envelope)).2 = none →
        (replacePlan crc32c bs txID docName envelope).2 =
          .ok ({ r with encryptionEnvelope := envelope }, true)) := by
  simp only [replacePlan, hread, htarget.1, htarget.2, if_neg hne, true_and]
  intro hnone
  simp [hnone]

theorem forall_withEnvelope {P : Record → Prop} (hrs : ∀ r ∈ rs, P r)
    (hr : P { r with encryptionEnvelope := envelope }) :
    ∀ x ∈ withEnvelope rs target r envelope, P x := by
  intro x hx
  rcases List.mem_or_eq_of_mem_set hx with hx | rfl
  · exact hrs x hx
  · exact hr

theorem mem_withEnvelope (htarget : Target rs txID docName target r) :
    { r with encryptionEnvelope := envelope } ∈ withEnvelope rs target r envelope :=
  List.mem_set (List.getElem?_eq_some_iff.mp htarget.2).1 _

def beforeRename (crc32c : List UInt8 → UInt32) (rs : List Record) : List FileOp :=
  .closeIndex :: (rewriteBody crc32c rs ++ [.sync, .close])

theorem quiet_beforeRename (rs : List Record) : Quiet (beforeRename crc32c rs) := by
  refine List.forall_mem_cons.mpr ⟨by simp, (quiet_rewriteBody crc32c rs).append ?_⟩
  simp [Quiet]

theorem rewriteOps_of_fit (hfit : ∀ r ∈ rs, r.FieldsFit) :
    FileOp.closeIndex :: (rewriteOps crc32c rs).1 =
      beforeRename crc32c rs ++ [.rename, .openDir, .syncDir] := by
  simp [rewriteOps, beforeRename, rewriteBody, (appendOps_refused crc32c).mpr hfit]

theorem quiet_rewriteOps (hfit : ¬ ∀ r ∈ rs, r.FieldsFit) :
    Quiet (.closeIndex :: (rewriteOps crc32c rs).1) := by
  have hrefused : (appendOps crc32c rs).2 ≠ none := mt (appendOps_refused crc32c).mp hfit
  have hops : (rewriteOps crc32c rs).1 = rewriteBody crc32c rs := by
    simp [rewriteOps, rewriteBody, hrefused]
  rw [hops]
  exact List.forall_mem_cons.mpr ⟨by simp, quiet_rewriteBody crc32c rs⟩

theorem run_beforeRename (hfit : ∀ r ∈ rs, r.FieldsFit) (bs : List UInt8) :
    runSteps FileOp.apply (beforeRename crc32c rs) (.holding bs) =
      ⟨⟨bs, true⟩, [], some ⟨newIndexBytes crc32c ++ encodeRecords crc32c rs, true⟩⟩ :=
  run_rewriteBody crc32c hfit (.holding bs)

/-- What the index path names behind each step of a call that writes a new file. -/
theorem rewriteOps_oldOrNew (hfit : ∀ r ∈ rs, r.FieldsFit) (bs : List UInt8) :
    Stands FileOp.apply (Dir.OldOrNew bs (newIndexBytes crc32c ++ encodeRecords crc32c rs))
      (.closeIndex :: (rewriteOps crc32c rs).1) (.holding bs) := by
  rw [rewriteOps_of_fit hfit]
  refine stands_append (fun n => .inl (((quiet_beforeRename rs).take n).old bs)) fun hbefore => ?_
  have hnew : ∀ prior : List Inode, (∀ f ∈ prior, f = ⟨bs, true⟩) →
      Dir.OldOrNew bs (newIndexBytes crc32c ++ encodeRecords crc32c rs)
        ⟨⟨newIndexBytes crc32c ++ encodeRecords crc32c rs, true⟩, prior, none⟩ :=
    fun prior hprior => .inr ⟨rfl, hprior⟩
  have hkept : ∀ f ∈ [(⟨bs, true⟩ : Inode)], f = ⟨bs, true⟩ := by simp
  rw [run_beforeRename hfit] at hbefore ⊢
  exact stands_cons.mpr ⟨hbefore, stands_cons.mpr ⟨hnew _ hkept, stands_cons.mpr ⟨hnew _ hkept,
    stands_nil.mpr (hnew [] (by simp))⟩⟩⟩

theorem rewriteOps_done (hfit : ∀ r ∈ rs, r.FieldsFit) (bs : List UInt8) :
    runSteps FileOp.apply (.closeIndex :: (rewriteOps crc32c rs).1) (.holding bs) =
      .holding (newIndexBytes crc32c ++ encodeRecords crc32c rs) := by
  rw [rewriteOps_of_fit hfit, runSteps_append, run_beforeRename hfit]
  rfl

theorem quiet_take_rewriteOps {op : FileOp}
    (hop : (FileOp.closeIndex :: (rewriteOps crc32c rs).1)[fails]? = some op)
    (hopen : op ≠ .openDir) (hsync : op ≠ .syncDir) :
    Quiet ((FileOp.closeIndex :: (rewriteOps crc32c rs).1).take fails) := by
  by_cases hfit : ∀ r ∈ rs, r.FieldsFit
  · rw [rewriteOps_of_fit hfit] at hop ⊢
    by_cases hle : fails ≤ (beforeRename crc32c rs).length
    · rw [List.take_append_of_le_length hle]
      exact (quiet_beforeRename rs).take fails
    rw [List.getElem?_append_right (by omega)] at hop
    obtain ⟨i, hi⟩ := Nat.exists_eq_add_of_lt (Nat.not_le.mp hle)
    rw [hi, show (beforeRename crc32c rs).length + i + 1 - (beforeRename crc32c rs).length = i + 1
      by omega] at hop
    rcases i with _ | _ | i
    · exact absurd (Option.some.inj hop).symm hopen
    · exact absurd (Option.some.inj hop).symm hsync
    · simp at hop
  · exact (quiet_rewriteOps hfit).take fails

end Plan

/-! ## The call as a whole -/

/-- What the call owes an index that can be read. -/
structure ReplacesEnvelope (crc32c : List UInt8 → UInt32) (bs txID docName envelope : List UInt8)
    (rs : List Record) : Prop where
  /-- behind a crash the path has the old file, or the entries with one envelope replaced -/
  crash : ∀ n c, (midway crc32c bs txID docName envelope n).AfterCrash c →
    c = bs ∨ ∃ target r, Target rs txID docName target r ∧
      openIndexReader crc32c c = .ok (withEnvelope rs target r envelope)
  /-- there is no such entry, or it has the envelope already -/
  same : (∀ target r, Target rs txID docName target r → r.encryptionEnvelope = envelope) →
    ∀ fails, (replaceDocumentEnvelope crc32c bs txID docName envelope fails).2.Old bs
  /-- an error before the rename -/
  failed : ∀ fails err, (replaceDocumentEnvelope crc32c bs txID docName envelope fails).1 = .error err →
    err ≠ .io .openDir → err ≠ .io .syncDir →
    (replaceDocumentEnvelope crc32c bs txID docName envelope fails).2.Old bs

/-- The entry of the Document keeps a readable length, or it is not written. -/
def EnvelopeFits (rs : List Record) (txID docName envelope : List UInt8) : Prop :=
  ∀ target r, Target rs txID docName target r →
    r.encryptionEnvelope = envelope ∨ maxUint16 < envelope.length ∨
      Record.Readable { r with encryptionEnvelope := envelope }

section Replace

variable {crc32c : List UInt8 → UInt32} {bs txID docName envelope : List UInt8} {rs : List Record}

theorem replaceDocumentEnvelope_old (h : (midway crc32c bs txID docName envelope fails).Old bs) :
    (replaceDocumentEnvelope crc32c bs txID docName envelope fails).2.Old bs := by
  unfold replaceDocumentEnvelope
  cases (replacePlan crc32c bs txID docName envelope).1[fails]? with
  | none => exact h
  | some op => ?_
  simp only
  split_ifs
  · exact h
  · exact h

theorem replacePlan_cases (rs : List Record) (txID docName envelope : List UInt8) :
    (∀ target r, Target rs txID docName target r → r.encryptionEnvelope = envelope) ∨
      ∃ target r, Target rs txID docName target r ∧ r.encryptionEnvelope ≠ envelope := by
  by_cases h : ∀ target r, Target rs txID docName target r → r.encryptionEnvelope = envelope
  · exact .inl h
  · push Not at h
    exact .inr h

variable (hread : openIndexReader crc32c bs = .ok rs)

include hread

theorem midway_same
    (hsame : ∀ target r, Target rs txID docName target r → r.encryptionEnvelope = envelope) (n : Nat) :
    (midway crc32c bs txID docName envelope n).Old bs := by
  rw [midway, replacePlan_same hread hsame]
  refine Quiet.old (Quiet.take ?_ n) bs
  simp [Quiet]

theorem withEnvelope_fit (htarget : Target rs txID docName target r) :
    (∀ x ∈ withEnvelope rs target r envelope, x.FieldsFit) ↔ envelope.length ≤ maxUint16 := by
  have hmem : r ∈ rs := List.mem_of_getElem? htarget.2
  obtain ⟨htx, hdoc, hct, -⟩ := Record.fieldsFit_iff.mp (openIndexReader_records hread r hmem).1
  constructor
  · intro h
    exact (Record.fieldsFit_iff.mp (h _ (mem_withEnvelope htarget))).2.2.2
  · intro henv
    exact forall_withEnvelope (fun x hx => (openIndexReader_records hread x hx).1)
      (Record.fieldsFit_iff.mpr ⟨htx, hdoc, hct, henv⟩)

theorem midway_failed {err : ReplaceErr}
    (herr : (replaceDocumentEnvelope crc32c bs txID docName envelope fails).1 = .error err)
    (hopen : err ≠ .io .openDir) (hsync : err ≠ .io .syncDir) :
    (midway crc32c bs txID docName envelope fails).Old bs := by
  rcases replacePlan_cases rs txID docName envelope with hsame | ⟨target, r, htarget, hne⟩
  · exact midway_same hread hsame fails
  obtain ⟨hops, hresult⟩ := replacePlan_rewrite hread htarget hne
  unfold replaceDocumentEnvelope at herr
  rw [hops] at herr
  rw [midway, hops]
  cases hop : (FileOp.closeIndex ::
      (rewriteOps crc32c (withEnvelope rs target r envelope)).1)[fails]? with
  | some op =>
    simp only [hop, Except.error.injEq] at herr
    refine (quiet_take_rewriteOps hop ?_ ?_).old bs
    · rintro rfl
      exact hopen herr.symm
    · rintro rfl
      exact hsync herr.symm
  | none =>
    simp only [hop] at herr
    by_cases hfit : ∀ x ∈ withEnvelope rs target r envelope, x.FieldsFit
    · have hok := hresult ((appendOps_refused crc32c).mpr hfit)
      rw [hok] at herr
      cases herr
    · exact ((quiet_rewriteOps hfit).take fails).old bs

theorem midway_crash (hfits : EnvelopeFits rs txID docName envelope) {n : Nat}
    (hc : (midway crc32c bs txID docName envelope n).AfterCrash c) :
    c = bs ∨ ∃ target r, Target rs txID docName target r ∧
      openIndexReader crc32c c = .ok (withEnvelope rs target r envelope) := by
  rcases replacePlan_cases rs txID docName envelope with hsame | ⟨target, r, htarget, hne⟩
  · exact .inl ((midway_same hread hsame n).afterCrash hc)
  rw [midway, (replacePlan_rewrite hread htarget hne).1] at hc
  by_cases hfit : ∀ x ∈ withEnvelope rs target r envelope, x.FieldsFit
  · rcases (rewriteOps_oldOrNew hfit bs n).afterCrash hc with rfl | rfl
    · exact .inl rfl
    refine .inr ⟨target, r, htarget, ?_⟩
    refine (openIndexReader_encodeRecords (validHeader_newIndexBytes crc32c) hfit).mpr ?_
    refine forall_withEnvelope (fun x hx => (openIndexReader_records hread x hx).2) ?_
    rcases hfits target r htarget with heq | hlong | hreadable
    · exact absurd heq hne
    · exact absurd ((withEnvelope_fit hread htarget).mp hfit) (Nat.not_le.mpr hlong)
    · exact hreadable
  · exact .inl ((((quiet_rewriteOps hfit).take n).old bs).afterCrash hc)

/-- Once the call has written an entry that is too long, the index cannot be read. -/
theorem not_replacesEnvelope (htarget : Target rs txID docName target r)
    (hne : r.encryptionEnvelope ≠ envelope) (hlen : envelope.length ≤ maxUint16)
    (hlong : ¬ Record.Readable { r with encryptionEnvelope := envelope }) :
    ¬ ReplacesEnvelope crc32c bs txID docName envelope rs := by
  intro h
  have hfit := (withEnvelope_fit hread htarget).mpr hlen
  have hunread := openIndexReader_oversized (validHeader_newIndexBytes crc32c) hfit
    fun hall => hlong (hall _ (mem_withEnvelope htarget))
  have hdone : (midway crc32c bs txID docName envelope
      (replacePlan crc32c bs txID docName envelope).1.length).AfterCrash
        (newIndexBytes crc32c ++ encodeRecords crc32c (withEnvelope rs target r envelope)) := by
    rw [midway, List.take_length, (replacePlan_rewrite hread htarget hne).1, rewriteOps_done hfit]
    exact ⟨_, List.mem_cons_self, fun _ => rfl⟩
  rcases h.crash _ _ hdone with heq | ⟨target', r', -, hopen⟩
  · rw [← heq] at hread
    exact hunread rs hread
  · exact hunread _ hopen

end Replace

/-- On a readable index the call keeps its promise, exactly when it writes no entry too long for the
reader. -/
theorem replace_envelope_atomic (crc32c : List UInt8 → UInt32) (bs txID docName envelope : List UInt8)
    (rs : List Record) (hread : openIndexReader crc32c bs = .ok rs) :
    ReplacesEnvelope crc32c bs txID docName envelope rs ↔ EnvelopeFits rs txID docName envelope := by
  constructor
  · intro h target r htarget
    by_contra hno
    push Not at hno
    exact not_replacesEnvelope hread htarget hno.1 hno.2.1 hno.2.2 h
  · intro hfits
    refine ⟨fun n c hc => midway_crash hread hfits hc, fun hsame fails => ?_,
      fun fails err herr hopen hsync => ?_⟩
    · exact replaceDocumentEnvelope_old (midway_same hread hsame fails)
    · exact replaceDocumentEnvelope_old (midway_failed hread herr hopen hsync)

theorem target_singleton (r : Record) : Target [r] r.transactionID r.docName 0 r := by
  simp [Target, Record.isDoc]

theorem openIndexReader_wideRecord (tx doc : Nat) (htx : tx ≤ maxUint16) (hdoc : doc ≤ maxUint16)
    (hlen : 68 + tx + doc ≤ idxMaxEntryLen) :
    openIndexReader castagnoli (newIndexBytes castagnoli ++
      encodeRecords castagnoli [wideRecord tx doc 0]) = .ok [wideRecord tx doc 0] := by
  have hfit := wideRecord_fieldsFit htx hdoc (Nat.zero_le _)
  refine (openIndexReader_encodeRecords (validHeader_newIndexBytes castagnoli)
    (List.forall_mem_singleton.mpr hfit)).mpr (List.forall_mem_singleton.mpr ?_)
  rwa [Record.Readable, length_wideRecord]

theorem replace_envelope_atomic_short :
    ReplacesEnvelope castagnoli
      (newIndexBytes castagnoli ++ encodeRecords castagnoli [wideRecord 1 2 0]) [0x74] [0x64, 0x64]
      [0x7b] [wideRecord 1 2 0] := by
  refine (replace_envelope_atomic castagnoli _ _ _ _ _ (openIndexReader_wideRecord 1 2 (by decide)
    (by decide) (by decide))).mpr fun target r htarget => .inr (.inr ?_)
  rw [List.mem_singleton.mp (List.mem_of_getElem? htarget.2)]
  decide

theorem not_replacesEnvelope_wideRecord (tx envelope : Nat) (htx : tx ≤ maxUint16)
    (henv : 0 < envelope) (hlen : envelope ≤ maxUint16) (hlong : idxMaxEntryLen < 71 + tx + envelope) :
    ¬ ReplacesEnvelope castagnoli
      (newIndexBytes castagnoli ++ encodeRecords castagnoli [wideRecord tx 1 0])
      (wideRecord tx 1 0).transactionID (wideRecord tx 1 0).docName (List.replicate envelope 0x7b)
      [wideRecord tx 1 0] := by
  have hshort : 68 + tx + 1 ≤ idxMaxEntryLen := by
    unfold maxUint16 at htx
    simp only [idxMaxEntryLen]
    omega
  refine not_replacesEnvelope (openIndexReader_wideRecord tx 1 htx (by decide) hshort)
    (target_singleton _) ?_ (by simpa using hlen) ?_
  · intro hnil
    have hzero := congrArg List.length hnil
    simp only [wideRecord, List.length_replicate] at hzero
    omega
  · have hrecord : { wideRecord tx 1 0 with encryptionEnvelope := List.replicate envelope 0x7b } =
        wideRecord tx 1 envelope := rfl
    rw [hrecord, Record.Readable, length_wideRecord, if_neg (by omega)]
    omega

/-- A Transaction ID of 65535 bytes and an envelope of the same length. -/
theorem long_envelope_unreadable :
    openIndexReader castagnoli (newIndexBytes castagnoli ++
        encodeRecords castagnoli [wideRecord 65535 1 0]) = .ok [wideRecord 65535 1 0] ∧
      ¬ ReplacesEnvelope castagnoli
        (newIndexBytes castagnoli ++ encodeRecords castagnoli [wideRecord 65535 1 0])
        (wideRecord 65535 1 0).transactionID (wideRecord 65535 1 0).docName
        (List.replicate 65535 0x7b) [wideRecord 65535 1 0] :=
  ⟨openIndexReader_wideRecord 65535 1 (by decide) (by decide) (by decide),
    not_replacesEnvelope_wideRecord 65535 65535 (by decide) (by decide) (by decide) (by decide)⟩

end Scrap.Block.Disk
