import RevisionForest.Proofs.Authorship
import RevisionForest.Proofs.ByteOrder
/-!
# What a fingerprint covers

The bytes that an id is derived from are the text of the parent, a zero byte, and a message that holds the rest: the flag, the body and the attachments. The message can be read back from its front, because lengths stand before everything in it (`Content.message_eq_iff`). The text of the parent has no length before it. It ends at the first zero byte only as long as it holds no zero character itself, and a suffix may hold one: then the parent can run on into what is another content's message (`Content.Overruns`). Apart from this, equal bytes mean equal contents (`Content.input_eq_iff`).
-/

namespace RevisionForest

namespace Utf8

/-- The bytes of a character are never the start of those of another one. -/
theorem char_eq_of_append_eq {c d : Char} {left right : Bytes}
    (h : String.utf8EncodeChar c ++ left = String.utf8EncodeChar d ++ right) : c = d := by
  have hdecode : ∀ (e : Char) (rest : Bytes),
      ByteArray.utf8DecodeChar? (String.utf8EncodeChar e ++ rest).toByteArray 0 = some e := by
    intro e rest
    rw [List.toByteArray_append]
    exact ByteArray.utf8DecodeChar?_utf8EncodeChar_append
  exact Option.some.inj ((hdecode c left).symm.trans (h ▸ hdecode d right))

theorem exists_append_of_encode {start whole : String} {rest : Bytes} (h : encode whole = encode start ++ rest) :
    ∃ tail, whole = start ++ tail ∧ encode tail = rest := by
  obtain ⟨chars, rfl⟩ : ∃ chars, start = String.ofList chars := ⟨start.toList, String.ofList_toList.symm⟩
  obtain ⟨all, rfl⟩ : ∃ all, whole = String.ofList all := ⟨whole.toList, String.ofList_toList.symm⟩
  induction chars generalizing all with
  | nil => exact ⟨String.ofList all, by simp, by simpa [encode] using h⟩
  | cons c chars ih =>
    rw [encode_cons, List.append_assoc] at h
    cases all with
    | nil =>
      have hnil : String.utf8EncodeChar c = [] := (List.append_eq_nil_iff.mp h.symm).1
      have hlength := String.length_utf8EncodeChar c
      rw [hnil] at hlength
      exact absurd c.utf8Size_pos (hlength ▸ lt_irrefl _)
    | cons d all =>
      rw [encode_cons] at h
      obtain rfl := char_eq_of_append_eq h
      obtain ⟨tail, hwhole, htail⟩ := ih all (List.append_cancel_left h)
      refine ⟨tail, String.toList_injective ?_, htail⟩
      simpa using congrArg String.toList hwhole

end Utf8

namespace RevId

/-! ### The parent's text -/

theorem text_append (rev : RevId) (extra : String) :
    ∃ longer : RevId, longer.generation = rev.generation ∧ longer.suffix = rev.suffix ++ extra ∧
      longer.text = rev.text ++ extra := by
  have hne : rev.suffix ++ extra ≠ "" := fun h => rev.suffix_ne (String.append_eq_empty_iff.mp h).1
  refine ⟨⟨rev.generation, rev.suffix ++ extra, rev.generation_pos, hne⟩, rfl, rfl, ?_⟩
  simp only [text, partsText, String.append_assoc]

theorem exists_text_eq_cons (rev : RevId) : ∃ c rest, rev.text.toList = c :: rest ∧ c.isDigit = true := by
  have hne : Nat.toDigits 10 rev.generation ≠ [] := Nat.toDigits_ne_nil
  obtain ⟨c, digits, hdigits⟩ := List.exists_cons_of_ne_nil hne
  refine ⟨c, digits ++ '-' :: rev.suffix.toList, ?_, ?_⟩
  · rw [text_toList, hdigits, List.cons_append]
  · exact isDigit_of_mem_toDigits (hdigits ▸ List.mem_cons_self)

theorem text_ne_empty (rev : RevId) : rev.text ≠ "" := by
  intro h
  obtain ⟨c, rest, htext, -⟩ := rev.exists_text_eq_cons
  simp [h] at htext

/-! ### Lengths and names -/

/-- Lengths are below this bound. -/
def lengthBound : Nat := Nat.pow 2 64

theorem length_lengthBytes (length : Nat) : (lengthBytes length).length = 8 := by
  simp [lengthBytes]

theorem mod_pow_eq_of_digits {left right count : Nat}
    (h : ∀ i < count, left / Nat.pow 256 i % 256 = right / Nat.pow 256 i % 256) :
    left % Nat.pow 256 count = right % Nat.pow 256 count := by
  simp only [Nat.pow_eq] at h ⊢
  induction count with
  | zero => simp [Nat.mod_one]
  | succ count ih =>
    rw [Nat.mod_pow_succ, Nat.mod_pow_succ, ih fun i hi => h i (by omega), h count (by omega)]

theorem lengthBytes_inj {left right : Nat} (hleft : left < lengthBound) (hright : right < lengthBound)
    (h : lengthBytes left = lengthBytes right) : left = right := by
  have hdigits : ∀ i < 8, left / Nat.pow 256 i % 256 = right / Nat.pow 256 i % 256 := by
    intro i hi
    have hbyte := List.map_inj_left.mp h (7 - i) (List.mem_range.mpr (by omega))
    have hback : 7 - (7 - i) = i := by omega
    simpa [hback] using congrArg UInt8.toNat hbyte
  have hmod : left % lengthBound = right % lengthBound := mod_pow_eq_of_digits hdigits
  rwa [Nat.mod_eq_of_lt hleft, Nat.mod_eq_of_lt hright] at hmod

theorem framed_append_inj {left right : Bytes} {rest other : Bytes} (hleft : left.length < lengthBound)
    (hright : right.length < lengthBound)
    (h : lengthBytes left.length ++ left ++ rest = lengthBytes right.length ++ right ++ other) :
    left = right ∧ rest = other := by
  rw [List.append_assoc, List.append_assoc] at h
  obtain ⟨hlength, hrest⟩ := List.append_inj h (by rw [length_lengthBytes, length_lengthBytes])
  exact List.append_inj hrest (lengthBytes_inj hleft hright hlength)

theorem attachmentInput_append_inj {left right : String × Digest} {rest other : Bytes}
    (hleft : (Utf8.encode left.1).length < lengthBound) (hright : (Utf8.encode right.1).length < lengthBound)
    (h : attachmentInput left ++ rest = attachmentInput right ++ other) : left = right ∧ rest = other := by
  obtain ⟨leftName, leftBytes, hleftLength⟩ := left
  obtain ⟨rightName, rightBytes, hrightLength⟩ := right
  simp only [attachmentInput] at h
  rw [List.append_assoc _ leftBytes, List.append_assoc _ rightBytes] at h
  obtain ⟨hname, hdata⟩ := framed_append_inj hleft hright h
  obtain ⟨hdigest, hrest⟩ := List.append_inj hdata (hleftLength.trans hrightLength.symm)
  obtain rfl := Utf8.encode_inj.mp hname
  subst hdigest
  exact ⟨rfl, hrest⟩

theorem attachmentInput_ne_nil (attachment : String × Digest) : attachmentInput attachment ≠ [] := by
  intro h
  have hlength := congrArg List.length h
  simp [attachmentInput, length_lengthBytes] at hlength

theorem flatMap_attachmentInput_inj {left right : List (String × Digest)}
    (hleft : ∀ entry ∈ left, (Utf8.encode entry.1).length < lengthBound)
    (hright : ∀ entry ∈ right, (Utf8.encode entry.1).length < lengthBound)
    (h : left.flatMap attachmentInput = right.flatMap attachmentInput) : left = right := by
  induction left generalizing right with
  | nil =>
    cases right with
    | nil => rfl
    | cons entry right => exact absurd (List.append_eq_nil_iff.mp h.symm).1 (attachmentInput_ne_nil entry)
  | cons first left ih =>
    cases right with
    | nil => exact absurd (List.append_eq_nil_iff.mp h).1 (attachmentInput_ne_nil first)
    | cons second right =>
      rw [List.forall_mem_cons] at hleft hright
      rw [List.flatMap_cons, List.flatMap_cons] at h
      obtain ⟨rfl, hrest⟩ := attachmentInput_append_inj hleft.1 hright.1 h
      rw [ih hleft.2 hright.2 hrest]

/-! ### The order of the attachments -/

theorem sortAttachments_perm (attachments : List (String × Digest)) :
    (sortAttachments attachments).Perm attachments :=
  List.mergeSort_perm attachments _

theorem sortAttachments_eq_iff {left right : List (String × Digest)} (hnames : (left.map (·.1)).Nodup) :
    sortAttachments left = sortAttachments right ↔ left.Perm right := by
  refine ⟨fun h => (sortAttachments_perm left).symm.trans (h ▸ sortAttachments_perm right), fun h => ?_⟩
  exact mergeSort_key_eq_of_perm hnames h

end RevId

namespace Content

/-! ### What is hashed of a content -/

/-- The bytes that the id of a content is derived from. -/
def input (content : Content) : Bytes :=
  RevId.fingerprintInput content.parent content.deleted content.body content.attachments

theorem suffix_rev (content : Content) : content.rev.suffix = RevId.fingerprint content.input := rfl

/-- The parent as it is hashed; that of a root is empty. -/
def parentText (content : Content) : String :=
  match content.parent with
  | some rev => rev.text
  | none => ""

/-- What is hashed behind the zero byte that closes the parent. -/
def message (content : Content) : Bytes :=
  (if content.deleted then 1 else 0) :: (RevId.lengthBytes content.body.length ++ content.body ++
    (RevId.sortAttachments content.attachments).flatMap RevId.attachmentInput)

/-- What a derivation is given: lengths that fit into eight bytes, and attachments of different names. -/
structure Fits (content : Content) : Prop where
  body_lt : content.body.length < RevId.lengthBound
  names_lt : ∀ entry ∈ content.attachments, (Utf8.encode entry.1).length < RevId.lengthBound
  nodup_names : (content.attachments.map (·.1)).Nodup

/-- The parent of a content continues that of another one behind a zero character, with what the other has as the start of its message. -/
def Overruns (content other : Content) : Prop :=
  ∃ long ∈ content.parent, ∃ short ∈ other.parent, ∃ extra,
    long.generation = short.generation ∧ long.suffix = short.suffix ++ "\x00" ++ extra ∧
      other.message = Utf8.encode extra ++ 0 :: content.message

variable {content other : Content}

theorem input_eq (content : Content) : content.input = Utf8.encode content.parentText ++ 0 :: content.message := by
  obtain ⟨parent, deleted, body, attachments⟩ := content
  cases parent with
  | none => simp [input, RevId.fingerprintInput, parentText, message, Utf8.encode]
  | some rev => simp [input, RevId.fingerprintInput, parentText, message]

theorem Fits.message_eq_iff (h : content.Fits) (hother : other.Fits) :
    content.message = other.message ↔
      content.deleted = other.deleted ∧ content.body = other.body ∧ content.attachments.Perm other.attachments := by
  rw [← RevId.sortAttachments_eq_iff h.nodup_names]
  refine ⟨fun hmessage => ?_, fun hparts => ?_⟩
  · obtain ⟨hflag, hrest⟩ := List.cons.inj hmessage
    obtain ⟨hbody, hattachments⟩ := RevId.framed_append_inj h.body_lt hother.body_lt hrest
    refine ⟨?_, hbody, RevId.flatMap_attachmentInput_inj ?_ ?_ hattachments⟩
    · cases hdeleted : content.deleted <;> cases hdead : other.deleted <;> simp_all
    · exact fun entry hentry => h.names_lt entry ((RevId.sortAttachments_perm _).mem_iff.mp hentry)
    · exact fun entry hentry => hother.names_lt entry ((RevId.sortAttachments_perm _).mem_iff.mp hentry)
  · obtain ⟨hdeleted, hbody, hattachments⟩ := hparts
    simp only [message, hdeleted, hbody, hattachments]

theorem parentText_eq_iff : content.parentText = other.parentText ↔ content.parent = other.parent := by
  refine ⟨fun h => ?_, fun h => by simp only [parentText, h]⟩
  simp only [parentText] at h
  cases hparent : content.parent <;> cases hother : other.parent <;> simp only [hparent, hother] at h
  · rfl
  · exact absurd h.symm (RevId.text_ne_empty _)
  · exact absurd h (RevId.text_ne_empty _)
  · rw [RevId.text_injective h]

theorem exists_parents_of_append {extra : String}
    (h : content.parentText = other.parentText ++ "\x00" ++ extra) :
    ∃ long ∈ content.parent, ∃ short ∈ other.parent,
      long.generation = short.generation ∧ long.suffix = short.suffix ++ "\x00" ++ extra := by
  simp only [parentText] at h
  cases hparent : content.parent with
  | none => simp [hparent] at h
  | some long =>
    cases hother : other.parent with
    | none =>
      obtain ⟨c, rest, htext, hdigit⟩ := long.exists_text_eq_cons
      have hzero : c = '\x00' := by
        have hlist := congrArg String.toList h
        simp [hparent, hother, htext] at hlist
        exact hlist.1
      exact absurd (hzero ▸ hdigit) (by decide)
    | some short =>
      obtain ⟨longer, hgeneration, hsuffix, htext⟩ := short.text_append ("\x00" ++ extra)
      have hlonger : long = longer := by
        apply RevId.text_injective
        simpa [hparent, hother, htext, String.append_assoc] using h
      subst hlonger
      exact ⟨long, rfl, short, rfl, hgeneration, hsuffix.trans (String.append_assoc ..).symm⟩

theorem overruns_of_append {rest : Bytes} (htext : Utf8.encode content.parentText = Utf8.encode other.parentText ++ rest)
    (hmessage : 0 :: other.message = rest ++ 0 :: content.message) :
    (content.parent = other.parent ∧ content.message = other.message) ∨ content.Overruns other := by
  cases rest with
  | nil =>
    rw [List.append_nil] at htext
    exact .inl ⟨parentText_eq_iff.mp (Utf8.encode_inj.mp htext), (List.cons.inj hmessage).2.symm⟩
  | cons zero rest =>
    obtain ⟨rfl, hstart⟩ := List.cons.inj hmessage
    have hlonger : Utf8.encode content.parentText = Utf8.encode (other.parentText ++ "\x00") ++ rest := by
      rw [Utf8.encode_append, htext, List.append_assoc]
      rfl
    obtain ⟨extra, hextra, rfl⟩ := Utf8.exists_append_of_encode hlonger
    obtain ⟨long, hlong, short, hshort, hgeneration, hsuffix⟩ := exists_parents_of_append hextra
    exact .inr ⟨long, hlong, short, hshort, extra, hgeneration, hsuffix, hstart⟩

theorem Overruns.input_eq (h : content.Overruns other) : content.input = other.input := by
  obtain ⟨long, hlong, short, hshort, extra, hgeneration, hsuffix, hmessage⟩ := h
  have htext : content.parentText = other.parentText ++ "\x00" ++ extra := by
    rw [Option.mem_def] at hlong hshort
    simp only [parentText, hlong, hshort, RevId.text, RevId.partsText, hgeneration, hsuffix, String.append_assoc]
  rw [Content.input_eq, Content.input_eq, htext, hmessage, Utf8.encode_append, Utf8.encode_append]
  simp only [List.append_assoc]
  rfl

/-- Two contents are hashed from the same bytes if they say the same, or one parent overruns the other; there is no other way. -/
theorem input_eq_iff :
    content.input = other.input ↔
      (content.parent = other.parent ∧ content.message = other.message) ∨ content.Overruns other ∨
        other.Overruns content := by
  refine ⟨fun h => ?_, ?_⟩
  · rw [input_eq, input_eq] at h
    rcases List.append_eq_append_iff.mp h with ⟨rest, htext, hmessage⟩ | ⟨rest, htext, hmessage⟩
    · rcases overruns_of_append htext hmessage with ⟨hparent, hsame⟩ | hover
      · exact .inl ⟨hparent.symm, hsame.symm⟩
      · exact .inr (.inr hover)
    · exact (overruns_of_append htext hmessage).imp_right .inl
  · rintro (⟨hparent, hmessage⟩ | hover | hover)
    · rw [input_eq, input_eq, hmessage, parentText_eq_iff.mpr hparent]
    · exact hover.input_eq
    · exact hover.input_eq.symm

theorem Alike.rev_eq (h : content.Alike other) (hnames : (content.attachments.map (·.1)).Nodup) :
    content.rev = other.rev := by
  have hsorted := (RevId.sortAttachments_eq_iff hnames).mpr h.attachments
  simp only [rev, RevId.derive, RevId.fingerprintInput, h.parent, h.deleted, h.body, hsorted]

theorem Overruns.rev_eq (h : content.Overruns other) : content.rev = other.rev := by
  have hsuffix : content.rev.suffix = other.rev.suffix := by rw [suffix_rev, suffix_rev, h.input_eq]
  obtain ⟨long, hlong, short, hshort, -, hgeneration, -⟩ := h
  simp only [rev, RevId.derive, RevId.mk.injEq]
  exact ⟨by simp only [Option.mem_def.mp hlong, Option.mem_def.mp hshort, hgeneration], hsuffix⟩

theorem Overruns.zero_mem (h : content.Overruns other) : ∃ rev ∈ content.parent, '\x00' ∈ rev.suffix.toList := by
  obtain ⟨long, hlong, short, -, extra, -, hsuffix, -⟩ := h
  refine ⟨long, hlong, ?_⟩
  simp [hsuffix]

/-! ### An overrun

Two updates with the body of an empty object, each with one attachment of the same data. What the first has as the tail of its parent is, in the second, the start of the attachment's name.
-/

/-- A content whose parent overruns that of `overrun`. -/
def overrunning : Content where
  parent := some ⟨1, "a\x00\x00\x00\x00\x00\x00\x00\x00\x00\x02\x7b\x7d\x00\x00\x00\x00\x00\x00\x00\x16x", by decide, by decide⟩
  deleted := false
  body := Body.empty
  attachments := [("y", Digest.of [])]

/-- The content whose message `overrunning` has in its parent. -/
def overrun : Content where
  parent := some ⟨1, "a", by decide, by decide⟩
  deleted := false
  body := Body.empty
  attachments := [("x\x00\x00\x00\x00\x00\x00\x00\x00\x00\x02\x7b\x7d\x00\x00\x00\x00\x00\x00\x00\x01y", Digest.of [])]

theorem overrunning_fits : overrunning.Fits := ⟨by decide, by decide, by decide⟩

theorem overrun_fits : overrun.Fits := ⟨by decide, by decide, by decide⟩

theorem overrunning_overruns : overrunning.Overruns overrun :=
  ⟨_, rfl, _, rfl, "\x00\x00\x00\x00\x00\x00\x00\x00\x02\x7b\x7d\x00\x00\x00\x00\x00\x00\x00\x16x", rfl,
    by decide, by decide +kernel⟩

/-- Contents are hashed from the same bytes exactly if they say the same or one parent overruns the other. -/
theorem Fits.input_eq_iff_alike (h : content.Fits) (hother : other.Fits) :
    (content.input = other.input ↔ content.Alike other ∨ content.Overruns other ∨ other.Overruns content) ∧
      ((∀ rev, rev ∈ content.parent ∨ rev ∈ other.parent → '\x00' ∉ rev.suffix.toList) →
        (content.input = other.input ↔ content.Alike other)) := by
  have hsame : (content.parent = other.parent ∧ content.message = other.message) ↔ content.Alike other := by
    rw [h.message_eq_iff hother, alike_iff]
  have hexact : content.input = other.input ↔
      content.Alike other ∨ content.Overruns other ∨ other.Overruns content := by
    rw [input_eq_iff, hsame]
  refine ⟨hexact, fun hclean => hexact.trans (or_iff_left ?_)⟩
  rintro (hover | hover)
  · obtain ⟨rev, hrev, hzero⟩ := hover.zero_mem
    exact hclean rev (.inl hrev) hzero
  · obtain ⟨rev, hrev, hzero⟩ := hover.zero_mem
    exact hclean rev (.inr hrev) hzero

theorem overrun_input_eq :
    ¬ ∀ content other : Content, content.Fits → other.Fits → content.input = other.input → content.Alike other := by
  intro h
  have halike := h overrunning overrun overrunning_fits overrun_fits overrunning_overruns.input_eq
  exact absurd halike.parent (by decide)

/-- The second update of the example on a parent of another generation. -/
def aside : Content :=
  { overrun with parent := some ⟨2, "a", by decide, by decide⟩ }

theorem input_eq_iff_alike_overrun :
    overrunning.Fits ∧ overrun.Fits ∧ aside.Fits ∧ overrunning.input = overrun.input ∧
      ¬ overrunning.Alike overrun ∧ overrun.input ≠ aside.input := by
  have haside : aside.Fits := ⟨by decide, by decide, by decide⟩
  have hpair := overrunning_fits.input_eq_iff_alike overrun_fits
  have hother := overrun_fits.input_eq_iff_alike haside
  refine ⟨overrunning_fits, overrun_fits, haside, hpair.1.mpr (.inr (.inl overrunning_overruns)), ?_, ?_⟩
  · exact fun halike => absurd halike.parent (by decide)
  · refine fun hinput => absurd ((hother.2 ?_).mp hinput).parent (by decide)
    rintro rev (hrev | hrev)
    · obtain rfl := Option.some.inj hrev
      decide
    · obtain rfl := Option.some.inj hrev
      decide

end Content

end RevisionForest
