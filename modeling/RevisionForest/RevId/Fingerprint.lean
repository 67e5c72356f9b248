import RevisionForest.Digest
import RevisionForest.RevId.Basic

/-!
# Fingerprints

The id of a locally made revision is derived from what it says: its parent, whether it is a tombstone, its body and its attachments. Two peers that make the same edit therefore make the same revision. `fingerprintInput` is the byte string that is hashed; lengths stand in front of everything whose end could not be seen otherwise, and the parent's text is closed by a zero byte.
-/

namespace RevisionForest.RevId

/-- A length as eight bytes, the most significant first. -/
def lengthBytes (length : Nat) : Bytes :=
  (List.range 8).map fun i => UInt8.ofNat (length / Nat.pow 256 (7 - i))

/-- How one attachment enters the fingerprint: its name and the digest of its data. -/
def attachmentInput (attachment : String × Digest) : Bytes :=
  let name := Utf8.encode attachment.1
  lengthBytes name.length ++ name ++ attachment.2.bytes

/-- Attachments in order of their names; those of one name keep their order. -/
def sortAttachments (attachments : List (String × Digest)) : List (String × Digest) :=
  attachments.mergeSort fun left right => left.1 ≤ right.1

/-- Everything a revision says, as one byte string. -/
def fingerprintInput (parent : Option RevId) (deleted : Bool) (body : Bytes)
    (attachments : List (String × Digest)) : Bytes :=
  (match parent with
    | some rev => Utf8.encode rev.text
    | none => []) ++
  [0, if deleted then 1 else 0] ++ lengthBytes body.length ++ body ++
  (sortAttachments attachments).flatMap attachmentInput

/-- The first half of a digest, in hexadecimal. -/
def fingerprint (input : Bytes) : String :=
  String.ofList ((Hex.encode (Digest.of input).bytes).take 32)

theorem fingerprint_ne (input : Bytes) : fingerprint input ≠ "" := by
  intro h
  have hlength := congrArg String.length h
  simp only [fingerprint, String.length_ofList, List.length_take, Hex.length_encode,
    (Digest.of input).length_bytes, String.length_empty] at hlength
  omega

/-- The id of a revision made from this parent with this content, one generation after the parent. The parent's generation is below the greatest of 64 bits, since the id after that would not be read again. -/
def derive (parent : Option RevId) (deleted : Bool) (body : Bytes)
    (attachments : List (String × Digest)) : RevId where
  generation := match parent with
    | some rev => rev.generation + 1
    | none => 1
  suffix := fingerprint (fingerprintInput parent deleted body attachments)
  generation_pos := by split <;> omega
  suffix_ne := fingerprint_ne _

end RevisionForest.RevId
