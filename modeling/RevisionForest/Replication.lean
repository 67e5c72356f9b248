import RevisionForest.Store.Batch

/-!
# Replication

A store is copied into another one by grafting: every leaf of every document travels with its whole ancestry and, unless it is a stub, with its body and the bytes of its attachments. The documents are visited in pages of the changes feed of the source, which does not change meanwhile. A network is a number of stores that know nothing of each other except through replication; they share one clock, so that the ids they make up differ.
-/

namespace RevisionForest

/-- What a replication moved. -/
structure Moved where
  documents : Nat := 0
  inserted : Nat := 0
  alreadyPresent : Nat := 0
  deriving DecidableEq

namespace Store

/-- An attachment as it travels. -/
def packAttachment (source : Store) (attachment : Attachment) : Except StoreError NewAttachment := do
  let data ← source.blob attachment.digest
  return ⟨attachment.name, attachment.contentType, attachment.encoding, attachment.length, data⟩

/-- A leaf as it travels. -/
def pack (source : Store) (leaf : Revision) : Except StoreError Graft := do
  let history ← source.revisionHistory leaf.doc leaf.rev
  if leaf.available then
    let attachments ← leaf.attachments.mapM source.packAttachment
    return { doc := leaf.doc, history, deleted := leaf.deleted, body := some leaf.body, attachments }
  else
    return { doc := leaf.doc, history, deleted := leaf.deleted }

/-- All leaves of a document as they travel. -/
def packDocument (source : Store) (doc : String) : Except StoreError (List Graft) := do
  (← source.leaves doc).mapM source.pack

/-- How many documents are visited at once. -/
def pageSize : Nat := 100

/-- Visit at most so many pages of the source from a sequence on. -/
def replicatePages (source : Store) : Nat → Int → Moved → Request Moved
  | 0, _, moved => return moved
  | pages + 1, since, moved => do
    let page ← MonadExcept.ofExcept (source.changes since pageSize)
    if page.results.isEmpty then
      return moved
    let items ← MonadExcept.ofExcept (page.results.mapM fun winner => source.packDocument winner.doc)
    let report ← graftAll items.flatten
    replicatePages source pages page.last
      ⟨moved.documents + page.results.length, moved.inserted + report.inserted.length,
        moved.alreadyPresent + report.alreadyPresent⟩

/-- Copy every leaf of the source. Each page but the last empty one visits a document, so there is one page more than there are documents at most. -/
def replicateFrom (source : Store) : Request Moved :=
  replicatePages source (source.writer.database.tables.documents.length + 1) 0 {}

end Store

/-- Stores that replicate with each other. -/
structure Network (n : Nat) where
  stores : Vector Store n
  /-- How many document ids the stores have made up together. -/
  clock : Nat := 0

namespace Network

def store {n : Nat} (network : Network n) (i : Fin n) : Store :=
  network.stores.get i

/-- Put a request to one of the stores. -/
def onStore {α : Type} {n : Nat} (i : Fin n) (request : Request α) : EStateM StoreError (Network n) α := fun network =>
  let store := network.store i
  match request { store with writer := { store.writer with clock := network.clock } } with
  | .ok value after => .ok value ⟨network.stores.set i after i.isLt, after.writer.clock⟩
  | .error error after => .error error ⟨network.stores.set i after i.isLt, after.writer.clock⟩

/-- Copy one store into another. -/
def replicate {n : Nat} (source target : Fin n) : EStateM StoreError (Network n) Moved := do
  onStore target (Store.replicateFrom ((← get).store source))

/-- All ordered pairs of different stores. -/
def pairs (n : Nat) : List (Fin n × Fin n) :=
  (List.finRange n).flatMap fun source =>
    ((List.finRange n).filter (source ≠ ·)).map fun target => (source, target)

/-- Replicate every ordered pair once. -/
def syncAll {n : Nat} : EStateM StoreError (Network n) Unit :=
  (pairs n).forM fun pair => discard (replicate pair.1 pair.2)

end Network

end RevisionForest
