import RevisionForest.Proofs.Keeping
import RevisionForest.Proofs.Permanence
import RevisionForest.Proofs.Scions
/-!
# The content of stubs and tombstones

A tombstone that a deletion makes has an empty body, and so has every stub. But a graft can bring a tombstone with a body of its own, or a stub with attachments, and an update that derives the id of a stub describes its attachments to it. So what a stub or a tombstone holds besides its id is accounted for by a mutation that was made (`Tables.Accounted`). Every edit adds rows that are accounted for and leaves the others so, hence all rows are, whatever is asked of a store (`Store.MadeBy.content_accounted`).
-/

namespace RevisionForest

/-- A mutation merges a tombstone of an id with a body. -/
def Mutation.Entombs (mutation : Mutation) (doc text : String) (body : Bytes) : Prop :=
  ∃ item rev, mutation = .graft item ∧ item.doc = doc ∧ item.history.getLast? = some rev ∧ text = rev.text ∧
    item.deleted = true ∧ item.body = some body

/-- A mutation merges a stub of an id with attachments. -/
def Mutation.Decks (mutation : Mutation) (doc text : String) : Prop :=
  ∃ item rev, mutation = .graft item ∧ item.doc = doc ∧ item.history.getLast? = some rev ∧ text = rev.text ∧
    item.deleted = false ∧ item.body = none ∧ item.attachments ≠ []

open Tables

theorem exists_ok_of_any {ε α : Type} {answer : Except ε α} {test : α → Bool} (h : answer.toOption.any test = true) :
    ∃ value, answer = .ok value ∧ test value = true := by
  cases answer with
  | error error => nomatch h
  | ok value => exact ⟨value, rfl, h⟩

theorem Body.empty_valid : Body.validate Body.empty = .ok () := by decide +kernel

theorem Body.validate_ok_iff {body : Bytes} :
    Body.validate body = .ok () ↔ ∃ members, Json.ofBytes? body = some (.object members) := by
  unfold Body.validate
  cases Json.ofBytes? body with
  | none => exact iff_of_false nofun fun ⟨_, h⟩ => nomatch h
  | some value => cases value <;> simp [Json.isObject]

/-- The body of a revision is an object, and empty if the revision is not available. If the revision is a tombstone, the body is empty or a mutation brought it; if it is not available, it has no attachments or a mutation gave it some. -/
structure Revision.Accounted (may : Mutation → Prop) (revision : Revision) : Prop where
  object : ∃ members, Json.ofBytes? revision.body = some (.object members)
  stub : revision.available = false → revision.deleted = false ∧ revision.body = Body.empty
  buried : revision.deleted = true → revision.body = Body.empty ∨
    ∃ mutation, may mutation ∧ mutation.Entombs revision.doc revision.rev.text revision.body
  missing : revision.available = false → revision.attachments = [] ∨ ∃ mutation, may mutation ∧
    (mutation.Decks revision.doc revision.rev.text ∨ mutation.Describes revision.doc revision.rev.text)

namespace Tables

variable {may : Mutation → Prop} {tables before after : Tables} {bone : RevisionRow} {rows : List RevisionRow}
  {attachments : List Attachment} {sequence : Int} {doc : String} {item : Graft}

/-- The same of a row, which names its document by the number. -/
structure Accounted (may : Mutation → Prop) (tables : Tables) (bone : RevisionRow) : Prop where
  valid : Body.validate bone.body = .ok ()
  buried : bone.deleted = true → bone.body = Body.empty ∨ ∃ mutation doc, may mutation ∧
    tables.documentNumber? doc = some bone.document ∧ mutation.Entombs doc bone.revText bone.body
  missing : bone.available = false → tables.described bone.sequence = [] ∨ ∃ mutation doc, may mutation ∧
    tables.documentNumber? doc = some bone.document ∧ (mutation.Decks doc bone.revText ∨ mutation.Describes doc bone.revText)

def AllAccounted (may : Mutation → Prop) (tables : Tables) : Prop :=
  ∀ bone ∈ tables.bones, tables.Accounted may bone

theorem accounted_of_empty (hbody : bone.body = Body.empty) (hnone : tables.described bone.sequence = []) :
    tables.Accounted may bone :=
  ⟨hbody ▸ Body.empty_valid, fun _ => .inl hbody, fun _ => .inl hnone⟩

theorem accounted_of_available (hvalid : Body.validate bone.body = .ok ()) (havailable : bone.available = true)
    (hburied : bone.deleted = true → bone.body = Body.empty) : tables.Accounted may bone where
  valid := hvalid
  buried := fun hdeleted => .inl (hburied hdeleted)
  missing := fun hmissing => nomatch havailable.symm.trans hmissing

theorem Accounted.mono (h : before.Accounted may bone) (hextends : before.Extends after)
    (hdescribed : after.described bone.sequence = before.described bone.sequence ∨ ∃ mutation doc, may mutation ∧
      after.documentNumber? doc = some bone.document ∧ mutation.Describes doc bone.revText) :
    after.Accounted may bone where
  valid := h.valid
  buried := fun hdeleted => (h.buried hdeleted).imp_right fun ⟨mutation, doc, hmay, hnumber, hbrings⟩ =>
    ⟨mutation, doc, hmay, hextends.documentNumber? hnumber, hbrings⟩
  missing := by
    intro hmissing
    rcases hdescribed with hsame | ⟨mutation, doc, hmay, hnumber, hbrings⟩
    · rw [hsame]
      exact (h.missing hmissing).imp_right fun ⟨mutation, doc, hmay, hnumber, hbrings⟩ =>
        ⟨mutation, doc, hmay, hextends.documentNumber? hnumber, hbrings⟩
    · exact .inr ⟨mutation, doc, hmay, hnumber, .inr hbrings⟩

theorem Sown.accounted (h : tables.Sown item bone) (hmay : may (.graft item)) (hcheck : item.check = .ok ())
    (hnumber : tables.documentNumber? item.doc = some bone.document) : tables.Accounted may bone := by
  cases h with
  | above _ _ hstub hattachments => exact accounted_of_empty hstub.body hattachments
  | @tip rev hlast htext hdeleted havailable hbody hattachments =>
    cases hcontent : item.body with
    | none =>
      rw [hcontent, Option.getD_none] at hbody
      rw [hcontent, Option.isSome_none, Bool.false_or] at havailable
      refine ⟨hbody ▸ Body.empty_valid, fun _ => .inl hbody, fun hmissing => ?_⟩
      by_cases hbare : item.attachments = []
      · exact .inl (by rw [hattachments, hbare]; rfl)
      · exact .inr ⟨_, item.doc, hmay, hnumber, .inl ⟨item, rev, rfl, rfl, hlast, htext, havailable ▸ hmissing, hcontent, hbare⟩⟩
    | some body =>
      rw [hcontent, Option.getD_some] at hbody
      rw [hcontent, Option.isSome_some, Bool.true_or] at havailable
      refine ⟨hbody ▸ (Graft.check_ok_iff.mp hcheck).2.2.2.1 body hcontent, fun hburied => ?_,
        fun hmissing => nomatch havailable.symm.trans hmissing⟩
      exact .inr ⟨_, item.doc, hmay, hnumber, item, rev, rfl, rfl, hlast, htext, hdeleted ▸ hburied, hbody ▸ hcontent⟩

theorem AllAccounted.aside (h : before.AllAccounted may) (haside : before.Aside after) : after.AllAccounted may := by
  rw [← haside]
  exact fun bone hbone => (h bone hbone).mono ⟨List.prefix_rfl, List.prefix_rfl⟩ (.inl rfl)

theorem AllAccounted.grow (h : before.AllAccounted may)
    (hgains : before.Gains after rows (attachments.map (attachmentRow sequence))) (hbeyond : before.lastSequence < sequence)
    (hrows : ∀ row ∈ rows, after.Accounted may row) : after.AllAccounted may := by
  intro bone hbone
  rw [hgains.bones] at hbone
  rcases List.mem_append.mp hbone with hold | hnew
  · obtain ⟨row, hrow, rfl⟩ := mem_bones_iff.mp hold
    have hle : row.sequence ≤ before.lastSequence := sequence_le_lastSequence hrow
    refine (h row.bare hold).mono hgains.extends (.inl (hgains.described_of_ne ?_))
    show row.sequence ≠ sequence
    omega
  · exact hrows bone hnew

/-- A derived revision comes with its content, or the row that has its id gets the attachments. -/
theorem AllAccounted.derive {child : NewRevision} {revision : Revision} (h : before.AllAccounted may)
    (shape : before.Shape) (hderives : before.Derives after child attachments revision)
    (havailable : child.available = true) (hvalid : Body.validate child.body = .ok ())
    (hburied : child.deleted = true → child.body = Body.empty) (hnumber : before.documentNumber? doc = some child.document)
    (hdescribes : attachments ≠ [] → ∃ mutation, may mutation ∧ mutation.Describes doc child.rev.text) :
    after.AllAccounted may := by
  cases hderives with
  | grown _ hgains =>
    refine h.grow hgains (Int.lt_add_one_iff.mpr (Int.le_refl _)) fun row hrow => ?_
    rw [List.mem_singleton.mp hrow]
    exact accounted_of_available hvalid havailable hburied
  | stored sequence hfound hgains =>
    intro bone hbone
    rw [hgains.bones, List.append_nil] at hbone
    refine (h bone hbone).mono hgains.extends ?_
    by_cases hplace : bone.sequence = sequence
    · rcases eq_or_ne attachments [] with hnone | hsome
      · refine .inl ?_
        rw [described, hgains.attachments, hnone, List.map_nil, List.append_nil, described]
      · obtain ⟨row, hrow, rfl⟩ := mem_bones_iff.mp hbone
        obtain ⟨found, hmem, hhome, htext, hsequence⟩ := shape.sequenceOf?_eq_some_iff.mp hfound
        obtain rfl := shape.eq_of_sequence hrow hmem (hplace.trans hsequence.symm)
        obtain ⟨mutation, hmay, hbrings⟩ := hdescribes hsome
        refine .inr ⟨mutation, doc, hmay, hgains.extends.documentNumber? (hnumber.trans (congrArg some hhome.symm)), ?_⟩
        show mutation.Describes doc row.revText
        exact htext ▸ hbrings
    · exact .inl (hgains.described_of_ne hplace)

theorem AllAccounted.read {row : RevisionRow} {revision : Revision} (h : tables.AllAccounted may)
    (hcandid : tables.Candid) (healthy : tables.Healthy) (hrow : row ∈ tables.revisions)
    (hnumber : tables.documentNumber? doc = some row.document) (hread : tables.readRevision doc row = .ok revision) :
    revision.Accounted may := by
  have htext : row.revText = revision.rev.text := (healthy.legible.reads_of_readRevision hrow hread).1
  obtain ⟨attachments, rev, hattachments, -, rfl⟩ := readRevision_ok_iff.mp hread
  have hbone := mem_bones_iff.mpr ⟨row, hrow, rfl⟩
  obtain ⟨hvalid, hburied, hmissing⟩ := h row.bare hbone
  refine ⟨Body.validate_ok_iff.mp hvalid, fun hunavailable => ?_, fun hdeleted => ?_, fun hunavailable => ?_⟩
  · obtain ⟨-, hlive, hbody⟩ := hcandid row.bare hbone hunavailable
    exact ⟨hlive, hbody⟩
  · refine (hburied hdeleted).imp_right ?_
    rintro ⟨mutation, other, hmay, hother, hbrings⟩
    exact ⟨mutation, hmay, healthy.shape.doc_eq_of_number hother hnumber ▸ htext ▸ hbrings⟩
  · rcases hmissing hunavailable with hnone | ⟨mutation, other, hmay, hother, hbrings⟩
    · have hlisted : tables.attachmentsFor row.sequence = .ok [] := attachmentsFor_of_described hnone .nil
      exact .inl (Except.ok.inj (hattachments.symm.trans hlisted))
    · exact .inr ⟨mutation, hmay, healthy.shape.doc_eq_of_number hother hnumber ▸ htext ▸ hbrings⟩

end Tables

/-! ### Edits -/

namespace Edit

variable {may : Mutation → Prop} {doc : String} {body : Bytes}

theorem create_accounts (doc : String) (attachments : List NewAttachment) (hbody : Body.validate body = .ok ()) :
    (create doc body attachments).Runs (Holdings.Keeping (AllAccounted may)) := by
  refine ⟨create_grows doc body attachments, fun draft revision draft' h _ healthy hall => ?_⟩
  obtain ⟨-, healthy', hgains⟩ := create_effect healthy h
  have hregistered : (draft.tables.register doc).AllAccounted may := fun bone hbone =>
    (hall bone hbone).mono (Extends.register draft.tables doc) (.inl rfl)
  refine ⟨healthy', hregistered.grow hgains (Int.lt_add_one_iff.mpr (Int.le_refl _)) fun row hrow => ?_⟩
  rw [List.mem_singleton.mp hrow]
  exact accounted_of_available hbody rfl nofun

theorem update_accounts {expected : RevId} {changes : AttachmentChanges} (hmay : may (.update doc expected body changes))
    (hbody : Body.validate body = .ok ()) :
    (update doc expected body changes).Runs (Holdings.Keeping (AllAccounted may)) := by
  refine ⟨update_grows doc expected body changes, fun draft revision draft' h _ healthy hall => ?_⟩
  obtain ⟨number, row, attachments, kept, ⟨hnumber, -, -, -, -, hkept⟩, healthy', -, hderives⟩ := update_effect healthy h
  refine ⟨healthy', AllAccounted.derive hall healthy.shape hderives rfl hbody nofun hnumber fun hsome => ?_⟩
  exact ⟨_, hmay, expected, body, changes, attachments, kept, rfl, hkept, hsome, rfl⟩

theorem bury_accounts (doc : String) (rev : RevId) :
    (bury doc rev).Runs (Holdings.Keeping (AllAccounted may)) := by
  refine ⟨bury_grows doc rev, fun draft revision draft' h _ healthy hall => ?_⟩
  obtain ⟨number, row, ⟨hnumber, -⟩, healthy', -, hderives⟩ := bury_effect healthy h
  exact ⟨healthy', AllAccounted.derive hall healthy.shape hderives rfl Body.empty_valid (fun _ => rfl) hnumber
    fun hsome => absurd rfl hsome⟩

theorem graft_accounts {item : Graft} (hmay : may (.graft item)) (hcheck : item.check = .ok ()) :
    (graft item).Runs (Holdings.Keeping (AllAccounted may)) := by
  refine ⟨graft_grows item, fun draft found draft' h _ healthy hall => ?_⟩
  obtain ⟨healthy', hextends, hrows⟩ := graft_sown healthy hcheck h
  refine ⟨healthy', fun bone hbone => ?_⟩
  rcases hrows bone hbone with ⟨hold, hsame⟩ | ⟨hnumber, hsown⟩
  · exact (hall bone hold).mono hextends (.inl hsame)
  · exact hsown.accounted hmay hcheck hnumber

end Edit

theorem Mutation.runs_accounts {may : Mutation → Prop} (mutation : Mutation) (hmay : may mutation) (holdings : Holdings) :
    mutation.Runs (Holdings.Keeping (AllAccounted may)) holdings := by
  cases mutation with
  | create _ body attachments => exact fun doc _ hbody => Edit.create_accounts doc attachments hbody
  | update doc expected body changes => exact fun hbody _ => (Edit.update_accounts hmay hbody).runsFrom holdings
  | delete doc rev => exact Edit.bury_accounts doc rev
  | deleteAllLeaves doc => exact fun _ _ _ rev _ => Edit.bury_accounts doc rev
  | graft item => exact Edit.graft_accounts hmay

theorem covers_accounted : Covers (Holdings.Keeping (AllAccounted fun _ => True)) where
  toCourse := course_keeping (AllAccounted fun _ => True)
  create := fun doc _ attachments _ hbody => Edit.create_accounts doc attachments hbody
  update := fun _ _ _ _ hbody _ => Edit.update_accounts trivial hbody
  bury := fun doc rev => Edit.bury_accounts doc rev
  graft := fun _ => Edit.graft_accounts trivial

/-! ### Stores -/

namespace Store

variable {may : Mutation → Prop} {store : Store}

theorem graft_answers {item : Graft} {revision : Revision} {after : Store} (healthy : store.writer.database.tables.Healthy)
    (h : graft item store = .ok (some revision) after) :
    revision.deleted = item.deleted ∧ revision.available = (item.body.isSome || item.deleted) ∧
      revision.body = item.body.getD Body.empty ∧
      revision.attachments.Perm (item.attachments.map (·.stored revision.rev.generation)) := by
  obtain ⟨-, writer, hwriter, -, rfl⟩ := execute_ok_iff.mp h
  obtain ⟨hcheck, draft, hwork, -⟩ := Action.graft_ok hwriter
  have hgap := (Graft.check_ok_iff.mp hcheck).2.2.1
  obtain ⟨healthy', ⟨prior, missing, number, above, hscion⟩, -⟩ := Edit.graft_scion healthy hgap hwork
  obtain ⟨hhas, hhome, -⟩ := Edit.graft_has healthy hgap hwork
  obtain ⟨current, attachments, hperm, htip⟩ := hscion.tip_has healthy.shape healthy'
  rw [← hhas.unique htip hhome.symm rfl]
  exact ⟨rfl, rfl, rfl, hperm⟩

/-- What stubs and tombstones hold besides their ids is accounted for by the mutations made. -/
theorem MadeBy.content_accounted {config : Config} {blobs : BlobStore} (h : (openWith config blobs).MadeBy may store)
    (hopen : store.closed = false) :
    (∀ doc rev revision, store.read doc (some rev) = .ok revision → revision.Accounted may) ∧
    (∀ item revision after, graft item store = .ok (some revision) after →
      (revision.deleted = true ∧ revision.body ≠ Body.empty ↔
        item.deleted = true ∧ ∃ body, item.body = some body ∧ body ≠ Body.empty) ∧
      (revision.available = false ∧ revision.attachments ≠ [] ↔
        item.deleted = false ∧ item.body = none ∧ item.attachments ≠ [])) ∧
    ∀ inside, store.writer.Within inside → inside.database.Intact → ∀ row ∈ inside.database.tables.revisions,
      (∃ members, Json.ofBytes? row.body = some (.object members)) ∧ (row.available = false → row.Stub) := by
  obtain ⟨hrest, healthy, -⟩ := h.onward.preserved rfl healthy_empty
  have hcandid := h.onward.candid
  have hall : ∀ may', (∀ mutation, may mutation → may' mutation) → store.writer.database.tables.AllAccounted may' := by
    intro may' himp
    exact (h.keeps (fun mutation hmay => mutation.runs_accounts (himp mutation hmay))
      (fun _ _ haside hall => hall.aside haside) rfl healthy_empty fun _ hbone => absurd hbone List.not_mem_nil).2.2
  refine ⟨fun doc rev revision hread => ?_, fun item revision after hgraft => ?_, fun inside hinside hintact row hrow => ?_⟩
  · rw [read_iff hopen] at hread
    obtain ⟨number, hnumber⟩ := exists_number_of_getRevision hread
    obtain ⟨row, hrow, rfl, -, hrevision⟩ := getRevision_ok_some hnumber hread
    exact (hall may fun _ => id).read hcandid healthy hrow hnumber hrevision
  · obtain ⟨hdeleted, havailable, hbody, hperm⟩ := graft_answers healthy hgraft
    have hnone : revision.attachments = [] ↔ item.attachments = [] := by
      rw [← List.length_eq_zero_iff, hperm.length_eq, List.length_map, List.length_eq_zero_iff]
    have hfull : item.body.getD Body.empty ≠ Body.empty ↔ ∃ body, item.body = some body ∧ body ≠ Body.empty := by
      cases item.body <;> simp
    refine ⟨by rw [hdeleted, hbody, hfull], ?_⟩
    rw [havailable, Bool.or_eq_false_iff, Option.isSome_eq_false_iff, Option.isNone_iff_eq_none, ne_eq, hnone,
      and_comm (b := item.deleted = false), and_assoc]
  · obtain ⟨healthy', hcandid'⟩ := (hinside.follows covers_candid hrest).2 hintact healthy hcandid
    obtain ⟨-, hall'⟩ := (hinside.follows covers_accounted hrest).2 hintact healthy (hall _ fun _ _ => trivial)
    have hbone := mem_bones_iff.mpr ⟨row, hrow, rfl⟩
    refine ⟨Body.validate_ok_iff.mp (hall' row.bare hbone).valid, fun hmissing => ?_⟩
    obtain ⟨-, hlive, hbody⟩ := hcandid' row.bare hbone hmissing
    exact ⟨hmissing, hlive, hbody⟩

/-- A store that has only merged a tombstone without a body has no other tombstones or stubs than empty ones, until it merges one with a body. -/
theorem content_accounted_bare :
    let root : RevId := ⟨1, "a", by decide, by decide⟩
    let bare : Graft := { doc := "d", history := [root, ⟨2, "b", by decide, by decide⟩], deleted := true }
    let full : Graft :=
      { doc := "e", history := [root], deleted := true, body := some (Utf8.encode "\x7b\"x\":1\x7d") }
    let store := stateAfter (graftAll [bare]) (new {})
    (∀ doc rev revision, store.read doc (some rev) = .ok revision →
      (revision.deleted = true → revision.body = Body.empty) ∧
      (revision.available = false → revision.body = Body.empty ∧ revision.attachments = [])) ∧
    ∃ revision after, graft full store = .ok (some revision) after ∧ revision.deleted = true ∧
      revision.body ≠ Body.empty := by
  intro root bare full store
  have hmade : (openWith {} {}).MadeBy (· = .graft bare) store := MadeBy.graftAll (by simp) .start
  obtain ⟨hread, hgrafted, -⟩ := hmade.content_accounted (by decide +kernel)
  refine ⟨fun doc rev revision hfound => ?_, ?_⟩
  · have haccounted := hread doc rev revision hfound
    refine ⟨fun hdeleted => (haccounted.buried hdeleted).resolve_right ?_, fun hunavailable =>
      ⟨(haccounted.stub hunavailable).2, (haccounted.missing hunavailable).resolve_right ?_⟩⟩
    · rintro ⟨_, rfl, item, _, hitem, -, -, -, -, hbody⟩
      obtain rfl := Mutation.graft.inj hitem
      nomatch hbody
    · rintro ⟨_, rfl, ⟨item, _, hitem, -, -, -, hlive, -⟩ | ⟨_, _, _, _, _, hupdate, -⟩⟩
      · obtain rfl := Mutation.graft.inj hitem
        nomatch hlive
      · nomatch hupdate
  · have hnew : ((graft full).run' store).any Option.isSome = true := by decide +kernel
    cases hgraft : graft full store with
    | error error after =>
      rw [run'_of_error hgraft] at hnew
      nomatch hnew
    | ok found after =>
      rw [run'_of_ok hgraft, Option.any_some, Option.isSome_iff_exists] at hnew
      obtain ⟨revision, rfl⟩ := hnew
      exact ⟨revision, after, rfl, (hgrafted full revision after hgraft).1.mpr (by decide +kernel)⟩

/-- A tombstone that is merged with a body keeps it, and a stub its attachment. -/
theorem tombstone_with_content :
    let root : RevId := ⟨1, "a", by decide, by decide⟩
    let full : Graft :=
      { doc := "d", history := [root], deleted := true, body := some (Utf8.encode "\x7b\"x\":1\x7d") }
    let decked : Graft := { doc := "e", history := [root], attachments := [.plain "x" "text/plain" []] }
    let store := stateAfter (graftAll [full, decked]) (new {})
    (∃ revision, store.read "d" (some root) = .ok revision ∧ revision.deleted = true ∧ revision.body ≠ Body.empty) ∧
      ∃ revision, store.read "e" (some root) = .ok revision ∧ revision.available = false ∧ revision.attachments ≠ [] := by
  intro root full decked store
  have hanswers : ((store.read "d" (some root)).toOption.any fun revision =>
        revision.deleted && decide (revision.body ≠ Body.empty)) = true ∧
      ((store.read "e" (some root)).toOption.any fun revision =>
        !revision.available && decide (revision.attachments ≠ [])) = true := by decide +kernel
  obtain ⟨revision, hread, hburied⟩ := exists_ok_of_any hanswers.1
  obtain ⟨stub, hread', hdecked⟩ := exists_ok_of_any hanswers.2
  exact ⟨⟨revision, hread, by simpa using hburied⟩, stub, hread', by simpa using hdecked⟩

end Store

end RevisionForest
