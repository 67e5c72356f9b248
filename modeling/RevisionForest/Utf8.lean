/-!
# Text as bytes

Bodies, attachment data and hash input are lists of bytes; texts enter them as UTF-8. Encoding is injective and decoding undoes it, so a text and its bytes carry the same information.
-/

namespace RevisionForest

abbrev Bytes := List UInt8

namespace Utf8

def encode (text : String) : Bytes :=
  text.toByteArray.data.toList

/-- The text that the bytes spell, or nothing if they are not UTF-8. -/
def decode? (bytes : Bytes) : Option String :=
  String.fromUTF8? ⟨bytes.toArray⟩

theorem encode_inj {left right : String} : encode left = encode right ↔ left = right := by
  refine ⟨fun h => ?_, fun h => by rw [h]⟩
  apply String.toByteArray_inj.mp
  exact ByteArray.ext (Array.ext' h)

theorem decode?_encode (text : String) : decode? (encode text) = some text := by
  have hbytes : (⟨(encode text).toArray⟩ : ByteArray) = text.toByteArray := by
    simp only [encode, Array.toArray_toList]
  rw [decode?, hbytes, String.fromUTF8?]
  simp only [text.isValidUTF8, ↓reduceDIte]
  rfl

/-- ASCII characters are encoded as themselves. -/
theorem encode_ofList {chars : List Char} (h : ∀ c ∈ chars, c.toNat < 128) :
    encode (String.ofList chars) = chars.map fun c => c.toNat.toUInt8 := by
  rw [encode, String.toByteArray_ofList, List.utf8Encode, List.data_toByteArray, List.toList_toArray]
  induction chars with
  | nil => rfl
  | cons c rest ih =>
    have hc : c.val.toNat ≤ 127 := Nat.le_of_lt_succ (h c List.mem_cons_self)
    rw [List.flatMap_cons, ih fun d hd => h d (List.mem_cons_of_mem c hd), String.utf8EncodeChar]
    simp only [hc, ↓reduceIte]
    rfl

end Utf8

end RevisionForest
