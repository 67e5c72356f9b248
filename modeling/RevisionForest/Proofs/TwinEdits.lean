import RevisionForest.Proofs.Effects
import RevisionForest.Proofs.TwinStatements
/-!
# Edits on twins

An edit of one document, made of two drafts whose tables are twins as to this document, does the same on both: it announces the same event and yields the same revision, up to a renaming that has grown, or fails with the same error. This is shown step by step, in the order of the steps of each edit.
-/

namespace RevisionForest

/-- Drafts whose tables are twins, whose blob stores do not fail, and which have announced the same. -/
structure Draft.Twin (doc : String) (names : Renaming) (draft draft' : Draft) : Prop where
  tables : Tables.Twin doc names draft.tables draft'.tables
  blobs : draft.blobs.budget = none
  blobs' : draft'.blobs.budget = none
  events : List.Forall₂ (ChangeEvent.Renamed doc names) draft.events draft'.events

/-- The drafts are left twins under a wider renaming, and the values are related by it. -/
def Draft.Later {α β : Type} (doc : String) (names : Renaming) (values : Renaming → α → β → Prop) (value : α) (value' : β)
    (draft draft' : Draft) : Prop :=
  ∃ wide, names.Widens wide ∧ values wide value value' ∧ draft.Twin doc wide draft'

namespace Edit

variable {α β γ δ : Type} {doc : String} {names wide : Renaming} {draft draft' : Draft}
  {values : Renaming → α → β → Prop} {values' : Renaming → γ → δ → Prop} {rel : α → β → Prop}
  {post : γ → δ → Draft → Draft → Prop}

/-! ### Steps -/

theorem later_bind {work : Edit α} {work' : Edit β} {next : α → Edit γ} {next' : β → Edit δ}
    (h : Concurs (Draft.Later doc names values) (work draft) (work' draft'))
    (hnext : ∀ wide value value' between between', names.Widens wide → values wide value value' →
      between.Twin doc wide between' →
      Concurs (Draft.Later doc wide values') (next value between) (next' value' between')) :
    Concurs (Draft.Later doc names values') ((work >>= next) draft) ((work' >>= next') draft') := by
  refine h.bind ?_
  rintro value value' between between' ⟨wide, hwidens, hvalues, hbetween⟩
  refine (hnext wide value value' between between' hwidens hvalues hbetween).mono ?_
  rintro last last' after after' ⟨wider, hwidens', hlast, hafter⟩
  exact ⟨wider, hwidens.trans hwidens', hlast, hafter⟩

theorem later_pure {value : α} {value' : β} (hvalues : values names value value') (twin : draft.Twin doc names draft') :
    Concurs (Draft.Later doc names values) ((pure value : Edit α) draft) ((pure value' : Edit β) draft') :=
  .ok ⟨names, .refl names, hvalues, twin⟩

theorem statement_concurs {tablesPost : α → β → Tables → Tables → Prop} {action : Statement α} {action' : Statement β}
    (h : Concurs tablesPost (action draft.tables) (action' draft'.tables)) :
    Concurs (fun value value' after after' => tablesPost value value' after.tables after'.tables ∧
        after = { draft with tables := after.tables } ∧ after' = { draft' with tables := after'.tables })
      (statement action draft) (statement action' draft') := by
  unfold statement
  generalize action draft.tables = result at h
  generalize action' draft'.tables = result' at h
  cases h with
  | ok hpost => exact .ok ⟨hpost, rfl, rfl⟩
  | error error tables tables' => exact .error _ _ _

theorem statement_later (twin : draft.Twin doc names draft') {action : Statement α} {action' : Statement β}
    (h : Concurs (Tables.Twin.Later doc names values) (action draft.tables) (action' draft'.tables)) :
    Concurs (Draft.Later doc names values) (statement action draft) (statement action' draft') := by
  refine (statement_concurs h).mono ?_
  rintro value value' after after' ⟨⟨wide, hwidens, hvalues, htables⟩, hafter, hafter'⟩
  refine ⟨wide, hwidens, hvalues, htables, ?_, ?_, ?_⟩
  · rw [hafter]
    exact twin.blobs
  · rw [hafter']
    exact twin.blobs'
  · rw [hafter, hafter']
    exact twin.events.imp fun _ _ => ChangeEvent.Renamed.mono hwidens

theorem statement_still (twin : draft.Twin doc names draft') {action : Statement α} {action' : Statement β}
    {tablesPost : α → β → Tables → Tables → Prop}
    (h : Concurs tablesPost (action draft.tables) (action' draft'.tables))
    (htwin : ∀ {value value' after after'}, tablesPost value value' after after' → Tables.Twin doc names after after') :
    Concurs (fun value value' after after' => tablesPost value value' after.tables after'.tables ∧
      after.Twin doc names after') (statement action draft) (statement action' draft') := by
  refine (statement_concurs h).mono ?_
  rintro value value' after after' ⟨hpost, hafter, hafter'⟩
  refine ⟨hpost, htwin hpost, ?_, ?_, ?_⟩
  · rw [hafter]
    exact twin.blobs
  · rw [hafter']
    exact twin.blobs'
  · rw [hafter, hafter']
    exact twin.events

theorem query_bind {read : Tables → Tables.Query α} {read' : Tables → Tables.Query β} {next : α → Edit γ}
    {next' : β → Edit δ} (h : Agree rel (read draft.tables) (read' draft'.tables))
    (hnext : ∀ value value', rel value value' → Concurs post (next value draft) (next' value' draft')) :
    Concurs post ((query read >>= next) draft) ((query read' >>= next') draft') := by
  refine (statement_concurs (Statement.query_concurs h)).bind ?_
  rintro value value' after after' ⟨⟨hvalues, htables, htables'⟩, hafter, hafter'⟩
  rw [hafter, hafter', htables, htables']
  exact hnext value value' hvalues

theorem require_bind {found : Option α} {found' : Option β} {error : StoreError} {next : α → Edit γ} {next' : β → Edit δ}
    (h : Option.Rel rel found found')
    (hnext : ∀ value value', rel value value' → Concurs post (next value draft) (next' value' draft')) :
    Concurs post ((require found error >>= next) draft) ((require found' error >>= next') draft') := by
  cases h with
  | some hvalues => exact hnext _ _ hvalues
  | none => exact .error error draft draft'

theorem documentNumber_bind (twin : draft.Twin doc names draft') {next : Int → Edit γ} {next' : Int → Edit δ}
    (hnext : ∀ number number', names.number number number' → Concurs post (next number draft) (next' number' draft')) :
    Concurs post ((documentNumber doc >>= next) draft) ((documentNumber doc >>= next') draft') :=
  require_bind twin.tables.found hnext

theorem sequence_bind (twin : draft.Twin doc names draft') {number number' : Int} (hnumber : names.number number number')
    (rev : RevId) {next : Int → Edit γ} {next' : Int → Edit δ}
    (hnext : ∀ found found', names.sequence found found' → Concurs post (next found draft) (next' found' draft')) :
    Concurs post ((sequence doc number rev >>= next) draft) ((sequence doc number' rev >>= next') draft') :=
  require_bind (twin.tables.sequenceOf?_rel hnumber rev) hnext

theorem ofExcept_bind (found : Except StoreError α) {next : α → Edit γ} {next' : α → Edit δ}
    (hnext : ∀ value, Concurs post (next value draft) (next' value draft')) :
    Concurs post ((MonadExcept.ofExcept found >>= next) draft) ((MonadExcept.ofExcept found >>= next') draft') := by
  cases found with
  | ok value => exact hnext value
  | error error => exact .error error draft draft'

theorem announce_bind (twin : draft.Twin doc names draft') {event event' : ChangeEvent}
    (hevent : event.Renamed doc names event') {next : Unit → Edit γ} {next' : Unit → Edit δ}
    (hnext : ∀ after after', after.Twin doc names after' → Concurs post (next () after) (next' () after')) :
    Concurs post ((announce event >>= next) draft) ((announce event' >>= next') draft') := by
  have hannounced : Draft.Twin doc names { draft with events := draft.events ++ [event] }
      { draft' with events := draft'.events ++ [event'] } :=
    ⟨twin.tables, twin.blobs, twin.blobs', List.rel_append twin.events (.cons hevent .nil)⟩
  exact hnext _ _ hannounced

theorem snapshot_later (twin : draft.Twin doc names draft') {s s' : Int} (hsequence : names.sequence s s') :
    Concurs (Draft.Later doc names Revision.Renamed) (snapshot s draft) (snapshot s' draft') := by
  refine query_bind (twin.tables.getBySequence_agree hsequence) ?_
  rintro _ _ ⟨revision, revision', rfl, rfl, hrevision⟩
  exact later_pure hrevision twin

/-! ### Attachments -/

theorem storeAttachments_unlimited (hblobs : draft.blobs.budget = none) (revpos : Nat) (attachments : List NewAttachment) :
    ∃ blobs, blobs.budget = none ∧
      storeAttachments revpos attachments draft = .ok (attachments.map (·.stored revpos)) { draft with blobs } := by
  obtain ⟨blobs, hput⟩ := BlobStore.putAll_unlimited (attachments.map (·.data)) hblobs
  exact ⟨blobs, (BlobStore.putAll_ok hput).1.unlimited hblobs, storeAttachments_ok_iff.mpr ⟨blobs, hput, rfl, rfl⟩⟩

theorem storeAttachments_bind (twin : draft.Twin doc names draft') (revpos : Nat) (attachments : List NewAttachment)
    {next : List Attachment → Edit γ} {next' : List Attachment → Edit δ}
    (hnext : ∀ after after', after.Twin doc names after' →
      Concurs post (next (attachments.map (·.stored revpos)) after) (next' (attachments.map (·.stored revpos)) after')) :
    Concurs post ((storeAttachments revpos attachments >>= next) draft)
      ((storeAttachments revpos attachments >>= next') draft') := by
  obtain ⟨blobs, hblobs, hstored⟩ := storeAttachments_unlimited twin.blobs revpos attachments
  obtain ⟨blobs', hblobs', hstored'⟩ := storeAttachments_unlimited twin.blobs' revpos attachments
  rw [bind_of_ok hstored, bind_of_ok hstored']
  exact hnext _ _ ⟨twin.tables, hblobs, hblobs', twin.events⟩

theorem storeAttachment_bind (twin : draft.Twin doc names draft') (revpos : Nat) (attachment : NewAttachment)
    {next : Attachment → Edit γ} {next' : Attachment → Edit δ}
    (hnext : ∀ after after', after.Twin doc names after' →
      Concurs post (next (attachment.stored revpos) after) (next' (attachment.stored revpos) after')) :
    Concurs post ((storeAttachment revpos attachment >>= next) draft)
      ((storeAttachment revpos attachment >>= next') draft') := by
  have hput : BlobStore.put attachment.data draft.blobs = _ := BlobStore.put_unlimited twin.blobs
  have hput' : BlobStore.put attachment.data draft'.blobs = _ := BlobStore.put_unlimited twin.blobs'
  rw [bind_of_ok (storeAttachment_ok_iff.mpr ⟨_, _, hput, rfl, rfl⟩),
    bind_of_ok (storeAttachment_ok_iff.mpr ⟨_, _, hput', rfl, rfl⟩)]
  exact hnext _ _ ⟨twin.tables, (BlobStore.put_ok hput).2.1.unlimited twin.blobs,
    (BlobStore.put_ok hput').2.1.unlimited twin.blobs', twin.events⟩

theorem attach_concurs (twin : draft.Twin doc names draft') {s s' : Int} (hsequence : names.sequence s s') (revpos : Nat)
    (attachments : List NewAttachment) :
    Concurs (fun _ _ after after' => after.Twin doc names after') (attach s revpos attachments draft)
      (attach s' revpos attachments draft') := by
  induction attachments generalizing draft draft' with
  | nil => exact .ok twin
  | cons attachment rest ih =>
    refine storeAttachment_bind twin revpos attachment fun between between' hbetween => ?_
    refine (statement_still hbetween (hbetween.tables.insertAttachment_concurs hsequence _) id).bind ?_
    rintro - - after after' ⟨-, hafter⟩
    exact ih hafter

/-! ### Whole edits -/

theorem insertRevision_later (twin : draft.Twin doc names draft') {number number' : Int} {parent parent' : Option Int}
    (hnumber : names.number number number') (hparent : Option.Rel names.sequence parent parent') (rev : RevId)
    (deleted current available : Bool) (body : Bytes) :
    Concurs (Draft.Later doc names fun wide insertion insertion' => wide.sequence insertion.sequence insertion'.sequence)
      (statement (Tables.insertRevision ⟨number, rev, parent, deleted, current, available, body⟩) draft)
      (statement (Tables.insertRevision ⟨number', rev, parent', deleted, current, available, body⟩) draft') :=
  statement_later twin (twin.tables.insertRevision_concurs (.intro hnumber hparent))

theorem create_later (twin : draft.Twin doc names draft') (body : Bytes) (attachments : List NewAttachment) :
    Concurs (Draft.Later doc names Revision.Renamed) (create doc body attachments draft)
      (create doc body attachments draft') := by
  refine .get_bind ?_
  refine .guard (by rw [isSome_eq_of_rel twin.tables.found]) fun _ => ?_
  -- The renaming grows twice, by the number of the document and by the sequence of its root.
  refine later_bind (statement_later twin twin.tables.insertDocument_concurs) ?_
  rintro wide number number' registered registered' - hnumber htwin
  cases Attachment.checkNames [] attachments with
  | error fault => exact .error _ _ _
  | ok =>
    refine storeAttachments_bind htwin 1 attachments fun stored stored' hstored => ?_
    refine later_bind (insertRevision_later hstored hnumber .none _ _ _ _ _) ?_
    rintro wider insertion insertion' inserted inserted' - hsequence hinserted
    refine (statement_still hinserted (hinserted.tables.insertAttachments_concurs hsequence _) id).bind ?_
    rintro - - described described' ⟨-, hdescribed⟩
    exact announce_bind hdescribed (.intro .none (.some (.intro hsequence))) fun _ _ hannounced =>
      snapshot_later hannounced hsequence

theorem update_later (twin : draft.Twin doc names draft') (expected : RevId) (body : Bytes) (changes : AttachmentChanges) :
    Concurs (Draft.Later doc names Revision.Renamed) (update doc expected body changes draft)
      (update doc expected body changes draft') := by
  unfold update
  refine documentNumber_bind twin fun number number' hnumber => ?_
  refine sequence_bind twin hnumber expected fun parent parent' hparent => ?_
  refine query_bind (twin.tables.currentWinner_agree hnumber) fun found found' hfound => ?_
  refine require_bind hfound fun winner winner' hwinner => ?_
  obtain ⟨hplace⟩ := hwinner
  -- Sequences are only compared with each other, which a renaming in order leaves as it is.
  refine .guard (not_congr (twin.tables.names_ordered.eq_iff hplace hparent)) fun _ => ?_
  refine .guard Iff.rfl fun _ => ?_
  have hread : Agree Eq (draft.tables.attachmentsFor parent) (draft'.tables.attachmentsFor parent') := by
    rw [twin.tables.attachmentsFor_eq hparent]
    exact .refl _
  refine query_bind hread ?_
  rintro attachments _ rfl
  refine ofExcept_bind _ fun kept => ?_
  refine storeAttachments_bind twin _ _ fun stored stored' hstored => ?_
  refine (statement_still hstored (hstored.tables.setCurrent_concurs hparent false) id).bind ?_
  rintro - - lowered lowered' ⟨-, hlowered⟩
  refine later_bind (insertRevision_later hlowered hnumber (.some hparent) _ _ _ _ _) ?_
  rintro wide insertion insertion' inserted inserted' hwidens hsequence hinserted
  have hsource := hwidens.sequence _ _ hparent
  refine (statement_still hinserted (hinserted.tables.copyAttachments_concurs hsource hsequence _) And.right).bind ?_
  rintro copied _ described described' ⟨⟨rfl, -⟩, hdescribed⟩
  refine .guard Iff.rfl fun _ => ?_
  refine (statement_still hdescribed (hdescribed.tables.insertAttachments_concurs hsequence _) id).bind ?_
  rintro - - attached attached' ⟨-, hattached⟩
  have hhome := hwidens.number _ _ hnumber
  refine (statement_still hattached (hattached.tables.pickWinner_concurs hhome) And.right).bind ?_
  rintro elected elected' crowned crowned' ⟨⟨helected, -⟩, hcrowned⟩
  exact announce_bind hcrowned (.intro (.some (.intro (hwidens.sequence _ _ hplace))) helected) fun _ _ hannounced =>
    snapshot_later hannounced hsequence

theorem bury_later (twin : draft.Twin doc names draft') (rev : RevId) :
    Concurs (Draft.Later doc names Revision.Renamed) (bury doc rev draft) (bury doc rev draft') := by
  unfold bury
  refine documentNumber_bind twin fun number number' hnumber => ?_
  refine query_bind (twin.tables.getRevision_agree rev) fun found found' hfound => ?_
  refine require_bind hfound fun target target' htarget => ?_
  obtain ⟨-, hplace, -⟩ := htarget
  refine .guard Iff.rfl fun _ => .get_bind ?_
  refine .guard (by rw [twin.tables.isLeaf_eq hplace]) fun _ => ?_
  refine query_bind (twin.tables.currentWinner_agree hnumber) fun prev prev' hprev => ?_
  -- The flags are the same on both sides, so both hold an election or neither does.
  cases hcurrent : target.current with
  | true =>
    simp only [↓reduceIte]
    refine (statement_still twin (twin.tables.setCurrent_concurs hplace false) id).bind ?_
    rintro - - lowered lowered' ⟨-, hlowered⟩
    refine later_bind (insertRevision_later hlowered hnumber (.some hplace) _ _ _ _ _) ?_
    rintro wide insertion insertion' inserted inserted' hwidens hsequence hinserted
    have hhome := hwidens.number _ _ hnumber
    refine (statement_still hinserted (hinserted.tables.pickWinner_concurs hhome) And.right).bind ?_
    rintro elected elected' crowned crowned' ⟨⟨helected, -⟩, hcrowned⟩
    have hbefore := optionRel_mono hprev fun _ _ => Winner.Renamed.mono hwidens
    exact announce_bind hcrowned (.intro hbefore helected) fun _ _ hannounced => snapshot_later hannounced hsequence
  | false =>
    simp only [Bool.false_eq_true, ↓reduceIte]
    refine later_bind (insertRevision_later twin hnumber (.some hplace) _ _ _ _ _) ?_
    rintro wide insertion insertion' inserted inserted' hwidens hsequence hinserted
    have hbefore := optionRel_mono hprev fun _ _ => Winner.Renamed.mono hwidens
    refine .pure_bind (announce_bind hinserted (.intro hbefore hbefore) fun _ _ hannounced => ?_)
    exact snapshot_later hannounced hsequence

theorem liveLeaves_concurs (twin : draft.Twin doc names draft') :
    Concurs (fun revs revs' after after' => revs = revs' ∧ after = draft ∧ after' = draft') (liveLeaves doc draft)
      (liveLeaves doc draft') := by
  refine query_bind twin.tables.leafRevisions_agree fun leaves leaves' hleaves => .ok ⟨?_, rfl, rfl⟩
  have hlive : List.Forall₂ (Revision.Renamed names) (leaves.filter fun leaf => !leaf.deleted)
      (leaves'.filter fun leaf => !leaf.deleted) := by
    refine filter_rel hleaves fun leaf leaf' hleaf => ?_
    obtain ⟨-, -, -⟩ := hleaf
    rfl
  refine map_eq_of_forall₂ hlive fun leaf leaf' hleaf => ?_
  obtain ⟨-, -, -⟩ := hleaf
  rfl

/-! ### Grafts -/

theorem splitKnown_rel {known? known?' : RevId → Option Int} (h : ∀ rev, Option.Rel names.sequence (known? rev) (known?' rev))
    (revs : List RevId) :
    Option.Rel names.sequence (Graft.splitKnown known? revs).1 (Graft.splitKnown known?' revs).1 ∧
      (Graft.splitKnown known? revs).2 = (Graft.splitKnown known?' revs).2 := by
  induction revs with
  | nil => exact ⟨.none, rfl⟩
  | cons rev rest ih =>
    rw [Graft.splitKnown, Graft.splitKnown]
    generalize Graft.splitKnown known? rest = split at ih
    generalize Graft.splitKnown known?' rest = split' at ih
    obtain ⟨last, missing⟩ := split
    obtain ⟨last', missing'⟩ := split'
    obtain ⟨hlast, hmissing⟩ := ih
    obtain rfl : missing = missing' := hmissing
    cases hlast with
    | some hsequence => exact ⟨.some hsequence, rfl⟩
    | none =>
      have hknown := h rev
      generalize known? rev = found at hknown
      generalize known?' rev = found' at hknown
      cases hknown with
      | some hsequence => exact ⟨.some hsequence, rfl⟩
      | none => exact ⟨.none, rfl⟩

theorem openDocument_later (twin : draft.Twin doc names draft') :
    Concurs (Draft.Later doc names fun wide => wide.number) (openDocument doc draft) (openDocument doc draft') := by
  have hfound := twin.tables.found
  have hinsert := statement_later twin twin.tables.insertDocument_concurs
  unfold openDocument
  rw [bind_of_ok get_eq, bind_of_ok get_eq]
  generalize draft.tables.documentNumber? doc = found at hfound
  generalize draft'.tables.documentNumber? doc = found' at hfound
  cases hfound with
  | some hnumber => exact later_pure hnumber twin
  | none => exact hinsert

theorem plantStubs_later (twin : draft.Twin doc names draft') {number number' : Int} {parent parent' : Option Int}
    (hnumber : names.number number number') (hparent : Option.Rel names.sequence parent parent') (missing : List RevId) :
    Concurs (Draft.Later doc names fun wide => Option.Rel wide.sequence) (plantStubs number parent missing draft)
      (plantStubs number' parent' missing draft') := by
  induction missing generalizing names parent parent' draft draft' with
  | nil => exact later_pure hparent twin
  | cons rev rest ih =>
    refine later_bind (insertRevision_later twin hnumber hparent _ _ _ _ _) ?_
    rintro wide insertion insertion' inserted inserted' hwidens hsequence hinserted
    exact ih hinserted (hwidens.number _ _ hnumber) (.some hsequence)

theorem graft_later {item : Graft} (twin : draft.Twin item.doc names draft') :
    Concurs (Draft.Later item.doc names fun wide => Option.Rel (Revision.Renamed wide)) (graft item draft)
      (graft item draft') := by
  unfold graft
  refine require_bind (optionRel_refl item.history.getLast?) ?_
  rintro rev _ rfl
  refine later_bind (openDocument_later twin) ?_
  rintro wide number number' opened opened' - hnumber htwin
  refine .get_bind ?_
  rw [isSome_eq_of_rel (htwin.tables.sequenceOf?_rel hnumber rev)]
  split
  · exact later_pure .none htwin
  refine query_bind (htwin.tables.currentWinner_agree hnumber) fun prev prev' hprev => .get_bind ?_
  obtain ⟨hknown, hmissing⟩ := splitKnown_rel (htwin.tables.sequenceOf?_rel hnumber) item.history.dropLast
  generalize Graft.splitKnown (opened.tables.sequenceOf? number) item.history.dropLast = split at hknown hmissing
  generalize Graft.splitKnown (opened'.tables.sequenceOf? number') item.history.dropLast = split' at hknown hmissing
  obtain ⟨known, missing⟩ := split
  obtain ⟨known', missing'⟩ := split'
  obtain rfl : missing = missing' := hmissing
  refine later_bind (plantStubs_later htwin hnumber hknown missing) ?_
  rintro planted parent parent' stubbed stubbed' hplanted hparent hstubbed
  refine later_bind (insertRevision_later hstubbed (hplanted.number _ _ hnumber) hparent _ _ _ _ _) ?_
  rintro grown insertion insertion' inserted inserted' hgrown hsequence hinserted
  refine (attach_concurs hinserted hsequence rev.generation item.attachments).bind ?_
  rintro - - attached attached' hattached
  have hhome := hgrown.number _ _ (hplanted.number _ _ hnumber)
  refine (statement_still hattached (hattached.tables.pickWinner_concurs hhome) And.right).bind ?_
  rintro elected elected' crowned crowned' ⟨⟨helected, -⟩, hcrowned⟩
  have hbefore := optionRel_mono hprev fun _ _ => Winner.Renamed.mono (hplanted.trans hgrown)
  refine announce_bind hcrowned (.intro hbefore helected) fun announced announced' hannounced => ?_
  refine later_bind (snapshot_later hannounced hsequence) fun last revision revision' after after' _ hrevision hafter => ?_
  exact later_pure (.some hrevision) hafter

end Edit

end RevisionForest
