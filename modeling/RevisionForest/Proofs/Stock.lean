import RevisionForest.Proofs.Merging
import RevisionForest.Proofs.Reachable
/-!
# What is stored can be sent

A revision travels with its body and the bytes of its attachments, and the receiver checks them as it checks those of any graft. All of it passes, since it was checked when it was stored: bodies are valid, attachments have names, and their data is among the blobs (`Holdings.Stocked`). Blobs are only added, and every mutation writes the data of an attachment before its description, so this holds along all mutations (`covers_furnished`).
-/

namespace RevisionForest

/-- A description that can be stored and whose data is there. -/
def Attachment.StockedIn (attachment : Attachment) (blobs : BlobStore) : Prop :=
  attachment.name ≠ "" ∧ (blobs.find? attachment.digest).isSome = true

/-- What the attachment rows describe has a property. -/
def Tables.AllDescribe (property : Attachment → Prop) (tables : Tables) : Prop :=
  ∀ row ∈ tables.attachments, ∃ attachment, row = Tables.attachmentRow row.sequence attachment ∧ property attachment

/-- All bodies are valid, and all attachments are named and have their data. -/
structure Holdings.Stocked (holdings : Holdings) : Prop where
  bodies : ∀ bone ∈ holdings.tables.bones, Body.validate bone.body = .ok ()
  attachments : ∀ row ∈ holdings.tables.attachments, ∃ attachment,
    row = Tables.attachmentRow row.sequence attachment ∧ attachment.StockedIn holdings.blobs

open Tables

variable {before after holdings : Holdings} {blobs blobs' : BlobStore} {attachment : Attachment} {sequence : Int}
  {attachments : List Attachment} {rows : List RevisionRow}

theorem Body.validate_empty : Body.validate Body.empty = .ok () := by
  decide +kernel

theorem Attachment.StockedIn.mono (h : attachment.StockedIn blobs) (hgrown : blobs.Grown blobs') :
    attachment.StockedIn blobs' := by
  obtain ⟨hname, hdata⟩ := h
  obtain ⟨bytes, hfind⟩ := Option.isSome_iff_exists.mp hdata
  refine ⟨hname, ?_⟩
  rw [hgrown.kept _ _ hfind]
  rfl

theorem stocked_of_putAll {new : List NewAttachment} {revpos : Nat}
    (hnames : Attachment.checkNames [] new = .ok ()) (h : BlobStore.putAll (new.map (·.data)) blobs = .ok () blobs') :
    ∀ attachment ∈ new.map (·.stored revpos), attachment.StockedIn blobs' := by
  intro attachment hmem
  obtain ⟨given, hgiven, rfl⟩ := List.mem_map.mp hmem
  obtain ⟨-, hnamed⟩ := Attachment.checkNames_ok_iff.mp hnames
  exact ⟨(hnamed given hgiven).1, (BlobStore.putAll_ok h).2 given.data (List.mem_map_of_mem hgiven)⟩

namespace Tables

variable {tables tables' : Tables} {property property' : Attachment → Prop}

theorem AllDescribe.mono (h : tables.AllDescribe property) (himplies : ∀ attachment, property attachment → property' attachment) :
    tables.AllDescribe property' := by
  intro row hrow
  obtain ⟨attachment, heq, hproperty⟩ := h row hrow
  exact ⟨attachment, heq, himplies attachment hproperty⟩

theorem AllDescribe.grow (h : tables.AllDescribe property)
    (hgains : tables.Gains tables' rows (attachments.map (attachmentRow sequence)))
    (hnew : ∀ attachment ∈ attachments, property attachment) : tables'.AllDescribe property := by
  intro row hrow
  rw [hgains.attachments] at hrow
  rcases List.mem_append.mp hrow with hold | hnewRow
  · exact h row hold
  · obtain ⟨attachment, hmem, rfl⟩ := List.mem_map.mp hnewRow
    exact ⟨attachment, rfl, hnew attachment hmem⟩

theorem AllDescribe.derive {child : NewRevision} {revision : Revision} (h : tables.AllDescribe property)
    (hderives : tables.Derives tables' child attachments revision) (hnew : ∀ attachment ∈ attachments, property attachment) :
    tables'.AllDescribe property := by
  cases hderives with
  | grown _ hgains => exact h.grow hgains hnew
  | stored _ _ hgains => exact h.grow hgains hnew

theorem AllDescribe.attachmentsFor (h : tables.AllDescribe property) (legible : tables.Legible)
    (hread : tables.attachmentsFor sequence = .ok attachments) : ∀ attachment ∈ attachments, property attachment := by
  obtain ⟨found, hfound, hrows⟩ := legible.attachmentsFor_ok sequence
  rw [hread] at hfound
  obtain rfl := Except.ok.inj hfound
  intro attachment hmem
  have hrow := List.mem_of_mem_filter (hrows.subset (List.mem_map_of_mem hmem))
  obtain ⟨stored, heq, hproperty⟩ := h _ hrow
  have hsame := congrArg readAttachment heq
  rw [readAttachment_attachmentRow, readAttachment_attachmentRow] at hsame
  rwa [Except.ok.inj hsame]

theorem Healthy.nodup_names (healthy : tables.Healthy) (hread : tables.attachmentsFor sequence = .ok attachments) :
    (attachments.map (·.name)).Nodup := by
  obtain ⟨found, hfound, hrows⟩ := healthy.legible.attachmentsFor_ok sequence
  rw [hread] at hfound
  obtain rfl := Except.ok.inj hfound
  have hlabels : ((attachments.map (attachmentRow sequence)).map fun row => (row.sequence, row.name)).Nodup :=
    (hrows.map _).nodup_iff.mpr (healthy.shape.labels.sublist (List.filter_sublist.map _))
  rw [List.map_map] at hlabels
  have hpairs : ((attachments.map (·.name)).map fun name => (sequence, name)).Nodup := by
    rw [List.map_map]
    exact hlabels
  exact hpairs.of_map _

end Tables

namespace Holdings

theorem Stocked.described (h : holdings.Stocked) : holdings.tables.AllDescribe (·.StockedIn holdings.blobs) :=
  h.attachments

theorem Stocked.mono (h : before.Stocked) (htables : after.tables = before.tables)
    (hgrown : before.blobs.Grown after.blobs) : after.Stocked where
  bodies := by
    rw [htables]
    exact h.bodies
  attachments := by
    rw [htables]
    exact h.described.mono fun _ hstocked => hstocked.mono hgrown

theorem Stocked.grow (h : before.Stocked)
    (hgains : before.tables.Gains after.tables rows (attachments.map (attachmentRow sequence)))
    (hgrown : before.blobs.Grown after.blobs) (hbodies : ∀ row ∈ rows, Body.validate row.body = .ok ())
    (hstocked : ∀ attachment ∈ attachments, attachment.StockedIn after.blobs) : after.Stocked where
  bodies := by
    intro bone hbone
    rw [hgains.bones] at hbone
    rcases List.mem_append.mp hbone with hold | hnew
    · exact h.bodies bone hold
    · exact hbodies bone hnew
  attachments := (h.described.mono fun _ hdata => hdata.mono hgrown).grow hgains hstocked

theorem Stocked.derive {child : NewRevision} {revision : Revision} (h : before.Stocked)
    (hderives : before.tables.Derives after.tables child attachments revision) (hgrown : before.blobs.Grown after.blobs)
    (hbody : Body.validate child.body = .ok ())
    (hstocked : ∀ attachment ∈ attachments, attachment.StockedIn after.blobs) : after.Stocked := by
  cases hderives with
  | grown _ hgains =>
    refine h.grow hgains hgrown (fun row hrow => ?_) hstocked
    rw [List.mem_singleton.mp hrow]
    exact hbody
  | stored _ _ hgains => exact h.grow hgains hgrown (fun row hrow => absurd hrow List.not_mem_nil) hstocked

theorem Stocked.attachmentsFor (h : holdings.Stocked) (healthy : holdings.tables.Healthy)
    (hread : holdings.tables.attachmentsFor sequence = .ok attachments) :
    (∀ attachment ∈ attachments, attachment.StockedIn holdings.blobs) ∧ (attachments.map (·.name)).Nodup :=
  ⟨h.described.attachmentsFor healthy.legible hread, healthy.nodup_names hread⟩

/-- Blobs are only added, and healthy holdings stay healthy and stocked. -/
def Furnished (before after : Holdings) : Prop :=
  before.blobs.Grown after.blobs ∧ (before.tables.Healthy → before.Stocked → after.tables.Healthy ∧ after.Stocked)

end Holdings

theorem course_furnished : Course Holdings.Furnished where
  refl := fun _ _ _ _ hgrown => ⟨hgrown, fun healthy hstocked => ⟨healthy, hstocked.mono rfl hgrown⟩⟩
  trans := by
    rintro first second third ⟨hgrown, hfirst⟩ ⟨hgrown', hsecond⟩
    refine ⟨hgrown.trans hgrown', fun healthy hstocked => ?_⟩
    obtain ⟨hbetween, hstocked'⟩ := hfirst healthy hstocked
    exact hsecond hbetween hstocked'

theorem furnished_of_stocks {α : Type} {work : Edit α} (hgrows : work.Grows)
    (h : ∀ draft value draft' feed, work draft = .ok value draft' → draft.blobs.Grown draft'.blobs → draft.tables.Healthy →
      (draft.holdings feed).Stocked →
        draft'.tables.Healthy ∧ (draft'.holdings feed).Stocked) :
    work.Runs Holdings.Furnished := by
  refine ⟨hgrows, fun draft value draft' hwork feed => ?_⟩
  have hgrown : draft.blobs.Grown draft'.blobs := hgrows.grown hwork
  exact ⟨hgrown, h draft value draft' feed hwork hgrown⟩

namespace Edit

variable {draft draft' : Draft} {feed : Feed} {doc : String} {body : Bytes} {revision : Revision}

theorem create_stocks {new : List NewAttachment} (hbody : Body.validate body = .ok ())
    (h : create doc body new draft = .ok revision draft') (hgrown : draft.blobs.Grown draft'.blobs)
    (healthy : draft.tables.Healthy) (hstocked : (draft.holdings feed).Stocked) :
    draft'.tables.Healthy ∧ (draft'.holdings feed).Stocked := by
  obtain ⟨⟨-, -, hnames, hblobs, -⟩, hafter, hgains⟩ := create_effect healthy h
  have hregistered : Holdings.Stocked ⟨draft.tables.register doc, draft.blobs, feed⟩ :=
    ⟨hstocked.bodies, hstocked.attachments⟩
  refine ⟨hafter, hregistered.grow hgains hgrown (fun row hrow => ?_) (stocked_of_putAll hnames hblobs)⟩
  rw [List.mem_singleton.mp hrow]
  exact hbody

theorem update_stocks {expected : RevId} {changes : AttachmentChanges} (hbody : Body.validate body = .ok ())
    (hnames : Attachment.checkNames [] changes.put = .ok ())
    (h : update doc expected body changes draft = .ok revision draft') (hgrown : draft.blobs.Grown draft'.blobs)
    (healthy : draft.tables.Healthy) (hstocked : (draft.holdings feed).Stocked) :
    draft'.tables.Healthy ∧ (draft'.holdings feed).Stocked := by
  obtain ⟨number, row, attachments, kept, ⟨-, -, -, -, hattachments, hkept⟩, hafter, hblobs, hderives⟩ :=
    update_effect healthy h
  refine ⟨hafter, hstocked.derive hderives hgrown hbody fun attachment hmem => ?_⟩
  rcases List.mem_append.mp hmem with hold | hnew
  · rw [keptAttachments_ok hkept] at hold
    exact ((hstocked.attachmentsFor healthy hattachments).1 attachment (List.mem_of_mem_filter hold)).mono hgrown
  · exact stocked_of_putAll hnames hblobs attachment hnew

theorem bury_stocks {rev : RevId} (h : bury doc rev draft = .ok revision draft') (hgrown : draft.blobs.Grown draft'.blobs)
    (healthy : draft.tables.Healthy) (hstocked : (draft.holdings feed).Stocked) :
    draft'.tables.Healthy ∧ (draft'.holdings feed).Stocked := by
  obtain ⟨number, row, -, hafter, -, hderives⟩ := bury_effect healthy h
  exact ⟨hafter, hstocked.derive hderives hgrown Body.validate_empty fun attachment hmem =>
    absurd hmem List.not_mem_nil⟩

theorem graft_stocks {item : Graft} {found : Option Revision} (hcheck : item.check = .ok ())
    (h : graft item draft = .ok found draft') (hgrown : draft.blobs.Grown draft'.blobs) (healthy : draft.tables.Healthy)
    (hstocked : (draft.holdings feed).Stocked) :
    draft'.tables.Healthy ∧ (draft'.holdings feed).Stocked := by
  obtain ⟨-, -, hgap, hbody, hnames⟩ := Graft.check_ok_iff.mp hcheck
  obtain ⟨rev, number, opened, ⟨-, hopen, hafter⟩, hcases⟩ := graft_effect healthy hgap h
  obtain ⟨-, -, -, hrevisions, hrows⟩ := openTables_ok healthy hopen
  have hopened : Holdings.Stocked ⟨opened, draft.blobs, feed⟩ := by
    refine ⟨fun bone hbone => hstocked.bodies bone ?_, fun row hrow => hstocked.attachments row ?_⟩
    · rwa [Tables.bones, hrevisions] at hbone
    · rwa [hrows] at hrow
  refine ⟨hafter, ?_⟩
  rcases hcases with ⟨-, -, htables, -⟩ | ⟨⟨-, -, hblobs⟩, -, hgains⟩
  · exact hopened.mono htables hgrown
  · refine hopened.grow hgains hgrown (fun row hrow => ?_) (stocked_of_putAll hnames hblobs)
    rcases List.mem_append.mp hrow with hstub | htip
    · rw [body_of_mem_stubRows hstub]
      exact Body.validate_empty
    · rw [List.mem_singleton.mp htip]
      show Body.validate (item.body.getD Body.empty) = .ok ()
      cases hsupplied : item.body with
      | none => exact Body.validate_empty
      | some body => exact hbody body hsupplied

end Edit

theorem covers_furnished : Covers Holdings.Furnished where
  toCourse := course_furnished
  create := fun doc body new _ hbody =>
    furnished_of_stocks (Edit.create_grows doc body new) fun _ _ _ _ h => Edit.create_stocks hbody h
  update := fun doc expected body changes hbody hnames =>
    furnished_of_stocks (Edit.update_grows doc expected body changes) fun _ _ _ _ h => Edit.update_stocks hbody hnames h
  bury := fun doc rev => furnished_of_stocks (Edit.bury_grows doc rev) fun _ _ _ _ h => Edit.bury_stocks h
  graft := fun item hcheck => furnished_of_stocks (Edit.graft_grows item) fun _ _ _ _ h => Edit.graft_stocks hcheck h

theorem furnished_of_aside {before after : Holdings} (htables : before.tables.Aside after.tables)
    (hblobs : before.blobs.Grown after.blobs) : before.Furnished after := by
  refine ⟨hblobs, fun healthy hstocked => ⟨htables.healthy healthy, ?_⟩⟩
  have hunchanged : Holdings.Stocked ⟨after.tables, before.blobs, before.feed⟩ := by
    rw [← show { before.tables with locals := after.tables.locals } = after.tables from htables]
    exact ⟨hstocked.bodies, hstocked.attachments⟩
  exact hunchanged.mono rfl hblobs

theorem Store.Networked.stocked {store : Store} (h : store.Networked) : store.writer.holdings.Stocked := by
  obtain ⟨config, blobs, hkept⟩ := h.onward
  have hempty : (openWith config blobs).writer.holdings.Stocked :=
    ⟨fun _ hbone => absurd hbone List.not_mem_nil, fun _ hrow => absurd hrow List.not_mem_nil⟩
  have hbesides : ∀ store after : Store, store.Besides False after → store.AtRest →
      after.AtRest ∧ store.writer.holdings.Furnished after.writer.holdings := by
    intro store after hother hbetween
    obtain ⟨hafter, htables, hblobs⟩ := hother.aside hbetween
    exact ⟨hafter, furnished_of_aside htables (hblobs.resolve_left id)⟩
  obtain ⟨-, -, hfurnished⟩ :=
    hkept.follows covers_furnished.toCourse (fun command => command.run_follows covers_furnished) hbesides rfl
  exact (hfurnished healthy_empty hempty).2

end RevisionForest
