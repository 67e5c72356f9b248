import RevisionForest.Proofs.Reachable
import RevisionForest.Proofs.Views
/-!
# Contents make a tree

A store that writes a revision itself derives the id from what the revision says, its parent included. As long as no two contents share an id, all the contents that were ever written form a tree (`Pedigree.ofContents`): the id of each stands below its parent, one generation younger. A mutation that succeeds then leaves the tables showing this tree (`Mutation.runs_displays`). In particular the id that an update or a deletion derives is never there before it, since it would be a child of a leaf.
-/

namespace RevisionForest

/-- What the id of a revision is derived from. -/
structure Content where
  parent : Option RevId
  deleted : Bool
  body : Bytes
  attachments : List (String × Digest)
  deriving DecidableEq

namespace Content

def rev (content : Content) : RevId :=
  RevId.derive content.parent content.deleted content.body content.attachments

/-- Two contents that say the same; the order of the attachments makes no difference. -/
structure Alike (content other : Content) : Prop where
  parent : content.parent = other.parent
  deleted : content.deleted = other.deleted
  body : content.body = other.body
  attachments : content.attachments.Perm other.attachments

theorem alike_iff {content other : Content} : content.Alike other ↔ content.parent = other.parent ∧
    content.deleted = other.deleted ∧ content.body = other.body ∧ content.attachments.Perm other.attachments :=
  ⟨fun h => ⟨h.parent, h.deleted, h.body, h.attachments⟩, fun ⟨hparent, hdeleted, hbody, hattachments⟩ =>
    ⟨hparent, hdeleted, hbody, hattachments⟩⟩

instance (content other : Content) : Decidable (content.Alike other) :=
  decidable_of_iff _ alike_iff.symm

/-- Contents that do not say the same have different ids. -/
def CollisionFree (contents : List Content) : Prop :=
  ∀ content ∈ contents, ∀ other ∈ contents, content.rev = other.rev → content.Alike other

instance (contents : List Content) : Decidable (CollisionFree contents) :=
  inferInstanceAs (Decidable (∀ content ∈ contents, ∀ other ∈ contents, content.rev = other.rev → content.Alike other))

end Content

/-! ### What a mutation writes -/

/-- The attachments of a revision, if it can be read. -/
def Tables.attachmentsOf (tables : Tables) (doc : String) (rev : RevId) : List Attachment :=
  match tables.getRevision doc rev with
  | .ok (some revision) => revision.attachments
  | _ => []

def Tables.liveLeaves (tables : Tables) (doc : String) : List RevId :=
  match tables.leafRevisions doc with
  | .ok leaves => (leaves.filter fun leaf => !leaf.deleted).map (·.rev)
  | .error _ => []

/-- The content of the tombstone below a revision. -/
def Content.tombstone (rev : RevId) : Content :=
  ⟨some rev, true, Body.empty, []⟩

/-- The contents that a mutation derives ids from when it succeeds. -/
def Mutation.contents (tables : Tables) : Mutation → List Content
  | .create _ body attachments => [⟨none, false, body, Attachment.digests (attachments.map (·.stored 1))⟩]
  | .update doc expected body changes =>
    match Edit.keptAttachments (tables.attachmentsOf doc expected) changes with
    | .ok kept =>
      let fresh := changes.put.map (·.stored (expected.generation + 1))
      [⟨some expected, false, body, Attachment.digests (kept ++ fresh)⟩]
    | .error _ => []
  | .delete _ rev => [.tombstone rev]
  | .deleteAllLeaves doc => (tables.liveLeaves doc).map .tombstone
  | .graft _ => []

/-- Mutations that write revisions of their own. -/
def Mutation.Local : Mutation → Prop
  | .graft _ => False
  | _ => True

/-! ### The tree of contents -/

/-- An id is one generation younger than the one above it. -/
def Pedigree.Rising (tree : Pedigree) : Prop :=
  ∀ older newer, tree.parent newer = some older → newer.generation = older.generation + 1

/-- A tree has a content where it says it is. -/
structure Pedigree.Places (tree : Pedigree) (content : Content) : Prop where
  parent : tree.parent content.rev = content.parent
  deleted : tree.deleted content.rev = content.deleted

namespace Pedigree

variable {contents : List Content} {content : Content}

def ofContents (contents : List Content) : Pedigree where
  parent rev := (contents.find? fun content => content.rev = rev).bind (·.parent)
  deleted rev := (contents.find? fun content => content.rev = rev).any (·.deleted)

theorem ofContents_places (hfree : Content.CollisionFree contents) (h : content ∈ contents) :
    (ofContents contents).Places content := by
  obtain ⟨found, hfound⟩ : ∃ found, (contents.find? fun other => other.rev = content.rev) = some found := by
    rw [← Option.isSome_iff_exists, List.find?_isSome]
    exact ⟨content, h, decide_eq_true rfl⟩
  have hrev : found.rev = content.rev := by simpa using List.find?_some hfound
  have halike := hfree found (List.mem_of_find?_eq_some hfound) content h hrev
  refine ⟨?_, ?_⟩
  · simp only [ofContents, hfound, Option.bind_some, halike.parent]
  · simp only [ofContents, hfound, Option.any_some, halike.deleted]

theorem ofContents_rising (contents : List Content) : (ofContents contents).Rising := by
  intro older newer habove
  obtain ⟨content, hfound, hparent⟩ := Option.bind_eq_some_iff.mp habove
  have hrev : content.rev = newer := by simpa using List.find?_some hfound
  rw [← hrev, Content.rev, hparent]
  rfl

end Pedigree

/-! ### Mutations -/

/-- Healthy tables stay healthy and go on to show the tree. -/
def Holdings.Displays (tree : Pedigree) (before after : Holdings) : Prop :=
  before.tables.Healthy → (∀ doc, before.tables.Shows tree doc) →
    after.tables.Healthy ∧ ∀ doc, after.tables.Shows tree doc

theorem course_displays (tree : Pedigree) : Course (Holdings.Displays tree) where
  refl := fun _ _ _ _ _ healthy hshows => ⟨healthy, hshows⟩
  trans := by
    intro first second third hfirst hsecond healthy hshows
    obtain ⟨hbetween, hshows'⟩ := hfirst healthy hshows
    exact hsecond hbetween hshows'

namespace Tables

variable {before after tables : Tables} {tree : Pedigree} {doc : String} {rev expected : RevId} {number : Int}
  {row : RevisionRow} {attachments : List AttachmentRow}

theorem Gains.shows_row (h : before.Gains after [row] attachments) (shape : before.Shape)
    (hnumber : before.documentNumber? doc = some number) (hhome : row.document = number) (htext : row.revText = rev.text)
    (hhangs : before.Hangs tree number row.parent rev) (hflag : row.deleted = tree.deleted rev)
    (hmirrors : before.Mirrors tree number) (hothers : ∀ other, other ≠ doc → before.Shows tree other) (other : String) :
    after.Shows tree other := by
  have hhomes : ∀ added ∈ [row], added.document = number := fun added hadded => List.mem_singleton.mp hadded ▸ hhome
  refine h.shows shape hnumber hhomes (List.cons_ne_nil _ _) (hmirrors.grow h ?_ ?_) (hothers other)
  · intro added hadded _ read hread
    obtain rfl := List.mem_singleton.mp hadded
    obtain rfl := RevId.text_injective (htext.symm.trans hread)
    exact hhangs.mono h.extends
  · intro added hadded _ read hread
    obtain rfl := List.mem_singleton.mp hadded
    obtain rfl := RevId.text_injective (htext.symm.trans hread)
    exact .inl hflag

theorem Derives.shows {child : NewRevision} {described : List Attachment} {revision : Revision}
    (h : before.Derives after child described revision) (healthy : before.Healthy)
    (hshows : ∀ doc, before.Shows tree doc) (hnumber : before.documentNumber? doc = some child.document)
    (hrow : row ∈ before.leafRows child.document) (htext : row.revText = expected.text)
    (hparent : child.parent = some row.sequence) (habove : tree.parent child.rev = some expected)
    (hflag : child.deleted = tree.deleted child.rev) (other : String) : after.Shows tree other := by
  obtain ⟨hmem, hdocument, hleaf⟩ := mem_leafRows_iff.mp hrow
  obtain ⟨hmirrors, -⟩ := hshows doc child.document hnumber
  cases h with
  | grown _ hgains _ _ =>
    have hstored : before.sequenceOf? child.document expected = some row.sequence :=
      healthy.shape.sequenceOf?_eq_some_iff.mpr ⟨row, hmem, hdocument, htext, rfl⟩
    have hhangs : before.Hangs tree child.document child.parent child.rev :=
      .inr ⟨expected, row.sequence, habove, hparent, hstored⟩
    exact hgains.shows_row healthy.shape hnumber rfl rfl hhangs hflag hmirrors (fun other _ => hshows other) other
  | stored sequence hfound _ _ _ =>
    obtain ⟨bone, hbone, hhome, hname⟩ := Stores.of_sequence hfound
    have hbelow := (hmirrors.parent_iff healthy.shape hbone hhome hname hmem hdocument htext).mpr habove
    rw [isLeaf_eq_false_iff.mpr ⟨bone, hbone, hbelow⟩] at hleaf
    nomatch hleaf

theorem attachmentsOf_eq {attachments : List Attachment} (healthy : tables.Healthy)
    (hnumber : tables.documentNumber? doc = some number) (hrow : row ∈ tables.revisions) (hdocument : row.document = number)
    (htext : row.revText = rev.text) (hread : tables.attachmentsFor row.sequence = .ok attachments) :
    tables.attachmentsOf doc rev = attachments := by
  have hsequence : tables.sequenceOf? number rev = some row.sequence :=
    healthy.shape.sequenceOf?_eq_some_iff.mpr ⟨row, hrow, hdocument, htext, rfl⟩
  obtain ⟨revision, hget, hplace⟩ := healthy.getRevision_ok hnumber hsequence
  obtain ⟨found, -, -, -, hrevision⟩ := getRevision_ok_some hnumber hget
  obtain ⟨_, _, hattachments, _, rfl⟩ := readRevision_ok_iff.mp hrevision
  have hsame : found.sequence = row.sequence := hplace
  rw [hsame, hread] at hattachments
  simp only [attachmentsOf, hget]
  exact (Except.ok.inj hattachments).symm

end Tables

namespace Edit

open Tables

variable {tree : Pedigree} {doc : String} {body : Bytes} {rev expected : RevId}

theorem create_displays {attachments : List NewAttachment}
    (hplaces : tree.Places ⟨none, false, body, Attachment.digests (attachments.map (·.stored 1))⟩) :
    (create doc body attachments).Runs (Holdings.Displays tree) := by
  refine ⟨create_grows doc body attachments, fun draft value draft' h _ healthy hshows => ?_⟩
  obtain ⟨⟨hnamed, hfree, -⟩, hafter, hgains⟩ := create_effect healthy h
  have hopen := openTables_of_free hnamed hfree
  obtain ⟨hopened, hnumber, -⟩ := openTables_ok healthy hopen
  obtain ⟨hothers, hmirrors⟩ := openTables_shows tree healthy.shape hopen
  refine ⟨hafter, hgains.shows_row hopened.shape hnumber rfl rfl (.inl ⟨hplaces.parent, rfl⟩) hplaces.deleted.symm
    (hmirrors (hshows doc)) fun other hne => hothers other hne (hshows other)⟩

theorem update_displays {changes : AttachmentChanges} {holdings : Holdings}
    (hplaces : ∀ content ∈ (Mutation.update doc expected body changes).contents holdings.tables, tree.Places content) :
    (update doc expected body changes).RunsFrom (Holdings.Displays tree) holdings := by
  refine ⟨update_grows doc expected body changes, fun value draft h healthy hshows => ?_⟩
  obtain ⟨number, row, attachments, kept, ⟨hnumber, hrow, htext, -, hattachments, hkept⟩, hafter, -, hderives⟩ :=
    update_effect healthy h
  obtain ⟨hmem, hdocument, -⟩ := mem_leafRows_iff.mp hrow
  have hof := attachmentsOf_eq healthy hnumber hmem hdocument htext hattachments
  simp only [Mutation.contents, hof, hkept, List.mem_singleton, forall_eq] at hplaces
  exact ⟨hafter, hderives.shows healthy hshows hnumber hrow htext rfl hplaces.parent hplaces.deleted.symm⟩

theorem bury_displays (hplaces : tree.Places (.tombstone rev)) : (bury doc rev).Runs (Holdings.Displays tree) := by
  refine ⟨bury_grows doc rev, fun draft value draft' h _ healthy hshows => ?_⟩
  obtain ⟨number, row, ⟨hnumber, hrow, htext, -⟩, hafter, -, hderives⟩ := bury_effect healthy h
  exact ⟨hafter, hderives.shows healthy hshows hnumber hrow htext rfl hplaces.parent hplaces.deleted.symm⟩

theorem liveLeaves_ok {draft draft' : Draft} {revs : List RevId} (h : liveLeaves doc draft = .ok revs draft') :
    draft.tables.liveLeaves doc = revs := by
  obtain ⟨leaves, _, hquery, hvalue⟩ := ok_bind_iff.mp h
  obtain ⟨hleaves, rfl⟩ := query_ok_iff.mp hquery
  obtain ⟨rfl, rfl⟩ := ok_pure_iff.mp hvalue
  simp only [Tables.liveLeaves, hleaves]

end Edit

/-- If the tree places what a mutation writes, the mutation leaves the tables showing the tree. -/
theorem Mutation.runs_displays {mutation : Mutation} {tree : Pedigree} {holdings : Holdings} (hlocal : mutation.Local)
    (hplaces : ∀ content ∈ mutation.contents holdings.tables, tree.Places content) :
    mutation.Runs (Holdings.Displays tree) holdings := by
  cases mutation with
  | create doc body attachments =>
    exact fun doc _ _ => Edit.create_displays (hplaces _ (List.mem_singleton.mpr rfl))
  | update doc expected body changes => exact fun _ _ => Edit.update_displays hplaces
  | delete doc rev => exact Edit.bury_displays (hplaces _ (List.mem_singleton.mpr rfl))
  | deleteAllLeaves doc =>
    intro revs draft hrevs rev hrev
    have hleaves : holdings.tables.liveLeaves doc = revs := Edit.liveLeaves_ok hrevs
    exact Edit.bury_displays (hplaces _ (List.mem_map_of_mem (hleaves.symm ▸ hrev)))
  | graft item => exact hlocal.elim

end RevisionForest
