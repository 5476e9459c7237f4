/-
# Resolving Documents from the Projection

`listDocuments` visits every Block of a Transaction's record, repeated Blocks as often as
they are listed, collects the Transaction's `.idx` records and accepts the result only if
their number is the stored Document count. Every other lookup goes through it, except the
lenient one of the Openlog recovery.
-/
import Scrap.Index.Store
import Scrap.Block.Idx

namespace Scrap

open Block

abbrev ResolvedDocument := UInt64 × IndexEntry

inductive ResolveErr where
  /-- `ErrNotFound` -/
  | notFound
  /-- `ErrDocumentNotFound: %s/%s` -/
  | documentNotFound (txID docName : String)
  /-- `ErrCorrupt: transaction %s has no block IDs` -/
  | noBlockIDs (txID : String)
  /-- `ErrCorrupt: transaction %s` -/
  | transaction (txID : String) (err : IndexErr)
  /-- `ErrCorrupt: block %d` -/
  | blockIndex (blockID : UInt64) (err : IdxErr)
  /-- `ErrCorrupt: transaction %s missing from block %d index` -/
  | missingFromBlock (txID : String) (blockID : UInt64)
  /-- `ErrCorrupt: transaction %s doc count mismatch: projection=%d resolved=%d` -/
  | docCountMismatch (txID : String) (projection : UInt16) (resolved : Nat)
deriving DecidableEq

/-- The Projection and the `.idx` file of each Block ID. -/
structure Resolver where
  projection : Index
  blockIndex : UInt64 → Option IdxFile

def Resolver.transactionEntry (r : Resolver) (txID : String) : Except ResolveErr Entry :=
  match r.projection.get txID with
  | .ok entry => if entry.blockIDs = [] then .error (.noBlockIDs txID) else .ok entry
  | .error .notFound => .error .notFound
  | .error err => .error (.transaction txID err)

def Resolver.blockEntries (r : Resolver) (txID : String) (blockID : UInt64) :
    Except ResolveErr (List IndexEntry) :=
  match openIndexReader (r.blockIndex blockID) with
  | .error err => .error (.blockIndex blockID err)
  | .ok entries =>
    match findByTransaction entries txID with
    | [] => .error (.missingFromBlock txID blockID)
    | e :: es => .ok (e :: es)

/-- The loop of `listDocuments` over the Blocks left to visit. -/
def Resolver.collect (r : Resolver) (txID : String) :
    List ResolvedDocument → List UInt64 → Except ResolveErr (List ResolvedDocument)
  | docs, [] => .ok docs
  | docs, blockID :: blockIDs =>
    match r.blockEntries txID blockID with
    | .error err => .error err
    | .ok entries => r.collect txID (docs ++ entries.map (Prod.mk blockID)) blockIDs

def Resolver.listDocuments (r : Resolver) (txID : String) :
    Except ResolveErr (List ResolvedDocument) :=
  match r.transactionEntry txID with
  | .error .notFound => .ok []
  | .error err => .error err
  | .ok entry =>
    match r.collect txID [] entry.blockIDs with
    | .error err => .error err
    | .ok docs =>
      if docs.length ≠ entry.docCount.toNat then
        .error (.docCountMismatch txID entry.docCount docs.length)
      else .ok docs

/-- The first Document of that name, once the whole Transaction has resolved. -/
def Resolver.resolveDocument (r : Resolver) (txID docName : String) :
    Except ResolveErr ResolvedDocument :=
  match r.listDocuments txID with
  | .error err => .error err
  | .ok docs =>
    match docs.find? (fun d => d.2.docName = docName) with
    | some d => .ok d
    | none => .error (.documentNotFound txID docName)

/-- A Block whose `.idx` cannot be read does not have it. -/
def Resolver.containsDocumentLenient (r : Resolver) (txID docName : String) :
    Except ResolveErr Bool :=
  match r.transactionEntry txID with
  | .error .notFound => .ok false
  | .error err => .error err
  | .ok entry =>
    .ok (entry.blockIDs.any fun blockID =>
      match openIndexReader (r.blockIndex blockID) with
      | .error _ => false
      | .ok entries => (find entries txID docName).isOk)

end Scrap
