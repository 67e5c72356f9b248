import RevisionForest.Error

/-!
# Blob stores

Attachment bytes, each under its digest, outside the tables and outside transactions. Writing bytes that are already there changes nothing. A store may have a budget of writes, after which every write fails; known bytes use it up too.
-/

namespace RevisionForest

structure BlobStore where
  blobs : List (Digest × Bytes) := []
  /-- How many more writes succeed, if they are limited. -/
  budget : Option Nat := none
  deriving DecidableEq

namespace BlobStore

def find? (store : BlobStore) (digest : Digest) : Option Bytes :=
  (store.blobs.find? fun blob => blob.1 = digest).map (·.2)

def contains (store : BlobStore) (digest : Digest) : Bool :=
  (store.find? digest).isSome

def size (store : BlobStore) : Nat :=
  store.blobs.length

def isEmpty (store : BlobStore) : Bool :=
  store.blobs.isEmpty

def get (store : BlobStore) (digest : Digest) : Except StorageError Bytes :=
  match store.find? digest with
  | some bytes => .ok bytes
  | none => .error (.notFound (.blob digest))

/-- The blobs with these bytes among them. -/
def insert (store : BlobStore) (digest : Digest) (bytes : Bytes) : BlobStore :=
  if store.contains digest then store else { store with blobs := store.blobs ++ [(digest, bytes)] }

/-- Write bytes; the answer is their digest. -/
def put (bytes : Bytes) : EStateM StorageError BlobStore Digest := do
  let store ← MonadState.get
  let digest := Digest.of bytes
  match store.budget with
  | some 0 => throw (.io .blobWrite)
  | some (left + 1) => set { store.insert digest bytes with budget := some left }
  | none => set (store.insert digest bytes)
  return digest

/-- The blobs without those under a digest, as after the loss of a file. -/
def lose (store : BlobStore) (digest : Digest) : BlobStore :=
  { store with blobs := store.blobs.filter fun blob => blob.1 ≠ digest }

end BlobStore

end RevisionForest
