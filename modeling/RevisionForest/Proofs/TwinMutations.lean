import RevisionForest.Proofs.Levels
import RevisionForest.Proofs.TwinEdits
/-!
# Mutations on twins

A mutation is an edit in a level of its own, or several of them in a level around them. What a writer does inside of one level it does to a draft (`Writer.within`), whatever levels are opened and completed in there, and the end of the level commits the draft (`Writer.commit`). So a mutation of one document that is made by two writers between levels, whose tables are twins as to this document, commits twin drafts or fails in both with the same error.
-/

namespace RevisionForest

namespace Writer

/-- The writer with one level open and some draft made in it. -/
def within (start : Writer) (draft : Draft) : Writer :=
  { start with
    database := ⟨draft.tables, some ⟨some start.database.tables, false, [], true, draft.events⟩⟩
    blobs := draft.blobs }

/-- The writer after the commit of a draft. -/
def commit (start : Writer) (draft : Draft) : Writer :=
  { start with database := ⟨draft.tables, none⟩, blobs := draft.blobs, feed := start.feed.publish draft.events }

/-- The draft that a writer begins with. -/
def draft (writer : Writer) : Draft :=
  ⟨writer.database.tables, writer.blobs, []⟩

/-- Both writers are inside of a level, with drafts that are twins under a wider renaming. -/
def LaterWithin {α β : Type} (doc : String) (names : Renaming) (values : Renaming → α → β → Prop) (start start' : Writer)
    (value : α) (value' : β) (inside inside' : Writer) : Prop :=
  ∃ draft draft', Draft.Later doc names values value value' draft draft' ∧ inside = start.within draft ∧
    inside' = start'.within draft'

/-- Both writers have committed drafts that are twins under a wider renaming. -/
def LaterCommitted {α β : Type} (doc : String) (names : Renaming) (values : Renaming → α → β → Prop) (start start' : Writer)
    (value : α) (value' : β) (after after' : Writer) : Prop :=
  ∃ draft draft', Draft.Later doc names values value value' draft draft' ∧ after = start.commit draft ∧
    after' = start'.commit draft'

end Writer

/-- What a mutation made, under other numbers. -/
inductive Outcome.Renamed (names : Renaming) : Outcome → Outcome → Prop
  | revision {revision revision' : Revision} (h : revision.Renamed names revision') :
    Renamed names (.revision revision) (.revision revision')
  | tombstones {revisions revisions' : List Revision} (h : List.Forall₂ (Revision.Renamed names) revisions revisions') :
    Renamed names (.tombstones revisions) (.tombstones revisions')
  | alreadyPresent : Renamed names .alreadyPresent .alreadyPresent

namespace Action

variable {α β γ δ : Type} {doc : String} {names : Renaming} {start start' : Writer} {draft draft' : Draft}
  {values : Renaming → α → β → Prop} {values' : Renaming → γ → δ → Prop}

/-! ### Levels -/

theorem opened_of_rest (hrest : start.database.group = none) : opened start = start.within start.draft := by
  simp only [opened, hrest, Writer.within, Writer.draft]

theorem edit_within (work : Edit α) :
    edit work (start.within draft) = match work ⟨draft.tables, draft.blobs, []⟩ with
      | .ok value made => .ok value (start.within { made with events := draft.events ++ made.events })
      | .error error made =>
        .error (.fault error) (start.within { made with events := draft.events ++ made.events }) := by
  unfold edit
  simp only [Writer.within]
  cases work ⟨draft.tables, draft.blobs, []⟩ <;> rfl

theorem transact_edit_within_of_ok {work : Edit α} {value : α} {inside : Writer}
    (h : edit work (start.within draft) = .ok value inside) :
    transact (edit work) (start.within draft) = .ok value inside := by
  rw [edit_within] at h
  have hopened : edit work (opened (start.within draft)) = match work ⟨draft.tables, draft.blobs, []⟩ with
      | .ok value made => .ok value (install (opened (start.within draft)) made)
      | .error error made => .error (.fault error) (install (opened (start.within draft)) made) := rfl
  cases hwork : work ⟨draft.tables, draft.blobs, []⟩ with
  | error error made =>
    rw [hwork] at h
    nomatch h
  | ok found made =>
    rw [hwork] at h hopened
    obtain ⟨rfl, rfl⟩ := EStateM.Result.ok.inj h
    have hgroup : (install (opened (start.within draft)) made).database.group
        = some ⟨some start.database.tables, false, [false], true, draft.events ++ made.events⟩ := rfl
    rw [transact_eq, hopened]
    simp only [complete_inner hgroup rfl]
    rfl

theorem transact_edit_within_of_error {work : Edit α} {halt : Halt} {inside : Writer}
    (h : edit work (start.within draft) = .error halt inside) :
    ∃ after, transact (edit work) (start.within draft) = .error halt after := by
  rw [edit_within] at h
  cases hwork : work ⟨draft.tables, draft.blobs, []⟩ with
  | ok found made =>
    rw [hwork] at h
    nomatch h
  | error error made =>
    rw [hwork] at h
    obtain ⟨rfl, -⟩ := EStateM.Result.error.inj h
    have hopened : edit work (opened (start.within draft))
        = .error (.fault error) (install (opened (start.within draft)) made) := by
      unfold edit
      rw [show work ⟨(opened (start.within draft)).database.tables, (opened (start.within draft)).blobs, []⟩ = _ from hwork]
    rw [transact_eq, hopened]
    exact ⟨_, rfl⟩

theorem complete_within : complete (start.within draft) = .ok () (start.commit draft) := by
  have hgroup : (start.within draft).database.group
      = some ⟨some start.database.tables, false, [], true, draft.events⟩ := rfl
  rw [complete_unbroken hgroup rfl rfl rfl]
  rfl

/-! ### Two writers -/

theorem within_bind {action : Action α} {action' : Action β} {next : α → Action γ} {next' : β → Action δ}
    {inside inside' : Writer}
    (h : Concurs (Writer.LaterWithin doc names values start start') (action inside) (action' inside'))
    (hnext : ∀ wide value value' draft draft', names.Widens wide → values wide value value' → draft.Twin doc wide draft' →
      Concurs (Writer.LaterWithin doc wide values' start start') (next value (start.within draft))
        (next' value' (start'.within draft'))) :
    Concurs (Writer.LaterWithin doc names values' start start') ((action >>= next) inside) ((action' >>= next') inside') := by
  refine h.bind ?_
  rintro value value' _ _ ⟨draft, draft', ⟨wide, hwidens, hvalues, htwin⟩, rfl, rfl⟩
  refine (hnext wide value value' draft draft' hwidens hvalues htwin).mono ?_
  rintro last last' after after' ⟨made, made', ⟨wider, hwidens', hlast, hmade⟩, hafter, hafter'⟩
  exact ⟨made, made', ⟨wider, hwidens.trans hwidens', hlast, hmade⟩, hafter, hafter'⟩

theorem within_pure {value : α} {value' : β} (hvalues : values names value value') (twin : draft.Twin doc names draft') :
    Concurs (Writer.LaterWithin doc names values start start') ((pure value : Action α) (start.within draft))
      ((pure value' : Action β) (start'.within draft')) :=
  .ok ⟨draft, draft', ⟨names, .refl names, hvalues, twin⟩, rfl, rfl⟩

theorem later_prepend {value : α} {value' : β} {made made' : Draft} (twin : draft.Twin doc names draft')
    (h : Draft.Later doc names values value value' made made') :
    Draft.Later doc names values value value' { made with events := draft.events ++ made.events }
      { made' with events := draft'.events ++ made'.events } := by
  obtain ⟨wide, hwidens, hvalues, hmade⟩ := h
  have hearly := twin.events.imp fun _ _ => ChangeEvent.Renamed.mono hwidens
  exact ⟨wide, hwidens, hvalues, hmade.tables, hmade.blobs, hmade.blobs', List.rel_append hearly hmade.events⟩

theorem edit_concurs {work : Edit α} {work' : Edit β} (twin : draft.Twin doc names draft')
    (h : Concurs (Draft.Later doc names values) (work ⟨draft.tables, draft.blobs, []⟩)
      (work' ⟨draft'.tables, draft'.blobs, []⟩)) :
    Concurs (Writer.LaterWithin doc names values start start') (edit work (start.within draft))
      (edit work' (start'.within draft')) := by
  rw [edit_within, edit_within]
  generalize work ⟨draft.tables, draft.blobs, []⟩ = result at h
  generalize work' ⟨draft'.tables, draft'.blobs, []⟩ = result' at h
  cases h with
  | ok hlater => exact .ok ⟨_, _, later_prepend twin hlater, rfl, rfl⟩
  | error error made made' => exact .error _ _ _

/-- Inside of a level, a level of its own makes no difference to whether two edits do the same. -/
theorem transact_edit_concurs {work : Edit α} {work' : Edit β} (twin : draft.Twin doc names draft')
    (h : Concurs (Draft.Later doc names values) (work ⟨draft.tables, draft.blobs, []⟩)
      (work' ⟨draft'.tables, draft'.blobs, []⟩)) :
    Concurs (Writer.LaterWithin doc names values start start') (transact (edit work) (start.within draft))
      (transact (edit work') (start'.within draft')) := by
  have hedit : Concurs (Writer.LaterWithin doc names values start start') _ _ := edit_concurs twin h
  generalize hresult : edit work (start.within draft) = result at hedit
  generalize hresult' : edit work' (start'.within draft') = result' at hedit
  cases hedit with
  | ok hlater =>
    rw [transact_edit_within_of_ok hresult, transact_edit_within_of_ok hresult']
    exact .ok hlater
  | error halt inside inside' =>
    obtain ⟨after, hafter⟩ := transact_edit_within_of_error hresult
    obtain ⟨after', hafter'⟩ := transact_edit_within_of_error hresult'
    rw [hafter, hafter']
    exact .error _ _ _

theorem transact_concurs {action : Action α} {action' : Action β} (hrest : start.database.group = none)
    (hrest' : start'.database.group = none)
    (h : Concurs (Writer.LaterWithin doc names values start start') (action (start.within start.draft))
      (action' (start'.within start'.draft))) :
    Concurs (Writer.LaterCommitted doc names values start start') (transact action start) (transact action' start') := by
  rw [transact_eq, transact_eq, opened_of_rest hrest, opened_of_rest hrest']
  generalize action (start.within start.draft) = result at h
  generalize action' (start'.within start'.draft) = result' at h
  cases h with
  | ok hlater =>
    obtain ⟨draft, draft', hlater, rfl, rfl⟩ := hlater
    simp only [complete_within]
    exact .ok ⟨draft, draft', hlater, rfl, rfl⟩
  | error halt inside inside' => cases halt <;> exact .error _ _ _

/-! ### Mutations -/

variable {mutation : Mutation} {body : Bytes}

theorem transact_work_concurs {work : Edit α} {work' : Edit β} (hrest : start.database.group = none)
    (hrest' : start'.database.group = none) (twin : start.draft.Twin doc names start'.draft)
    (h : Concurs (Draft.Later doc names values) (work start.draft) (work' start'.draft)) :
    Concurs (Writer.LaterCommitted doc names values start start') (transact (edit work) start)
      (transact (edit work') start') :=
  transact_concurs hrest hrest' (edit_concurs twin h)

theorem check_concurs {post : α → β → Writer → Writer → Prop} {condition : Except StoreError Unit}
    {next : Unit → Action α} {next' : Unit → Action β} (h : Concurs post (next () start) (next' () start')) :
    Concurs post ((check condition >>= next) start) ((check condition >>= next') start') := by
  cases condition with
  | ok => exact h
  | error error => exact .error _ _ _

theorem createAs_concurs (hrest : start.database.group = none) (hrest' : start'.database.group = none)
    (twin : start.draft.Twin doc names start'.draft) (attachments : List NewAttachment) :
    Concurs (Writer.LaterCommitted doc names Revision.Renamed start start') (createAs doc body attachments start)
      (createAs doc body attachments start') := by
  refine check_concurs ?_
  by_cases hdoc : doc = ""
  · rw [if_pos hdoc]
    exact .error _ _ _
  · rw [if_neg hdoc]
    exact transact_work_concurs hrest hrest' twin (Edit.create_later twin body attachments)

theorem deleteEach_concurs (twin : draft.Twin doc names draft') (revs : List RevId) :
    Concurs (Writer.LaterWithin doc names (fun wide => List.Forall₂ (Revision.Renamed wide)) start start')
      (deleteEach doc revs (start.within draft)) (deleteEach doc revs (start'.within draft')) := by
  induction revs generalizing names draft draft' with
  | nil => exact within_pure .nil twin
  | cons rev rest ih =>
    have hbegun : Draft.Twin doc names ⟨draft.tables, draft.blobs, []⟩ ⟨draft'.tables, draft'.blobs, []⟩ :=
      ⟨twin.tables, twin.blobs, twin.blobs', .nil⟩
    refine within_bind (transact_edit_concurs twin (Edit.bury_later hbegun rev)) ?_
    intro wide tombstone tombstone' made made' _ htombstone hmade
    refine within_bind (ih hmade) ?_
    intro wider tombstones tombstones' last last' hwidens htombstones hlast
    exact within_pure (.cons (htombstone.mono hwidens) htombstones) hlast

theorem deleteAllLeaves_concurs (hrest : start.database.group = none) (hrest' : start'.database.group = none)
    (twin : start.draft.Twin doc names start'.draft) :
    Concurs (Writer.LaterCommitted doc names (fun wide => List.Forall₂ (Revision.Renamed wide)) start start')
      (deleteAllLeaves doc start) (deleteAllLeaves doc start') := by
  have hleaves : Concurs (Draft.Later doc names fun _ => Eq) (Edit.liveLeaves doc start.draft)
      (Edit.liveLeaves doc start'.draft) := by
    refine (Edit.liveLeaves_concurs twin).mono ?_
    rintro revs revs' _ _ ⟨hrevs, rfl, rfl⟩
    exact ⟨names, .refl names, hrevs, twin⟩
  refine transact_concurs hrest hrest' (within_bind (edit_concurs twin hleaves) ?_)
  rintro wide revs _ made made' - rfl hmade
  exact deleteEach_concurs hmade revs

theorem update_concurs (hrest : start.database.group = none) (hrest' : start'.database.group = none)
    (twin : start.draft.Twin doc names start'.draft) (expected : RevId) (changes : AttachmentChanges) :
    Concurs (Writer.LaterCommitted doc names Revision.Renamed start start') (update doc expected body changes start)
      (update doc expected body changes start') :=
  check_concurs (check_concurs (transact_work_concurs hrest hrest' twin (Edit.update_later twin expected body changes)))

theorem graft_concurs {item : Graft} (hrest : start.database.group = none) (hrest' : start'.database.group = none)
    (twin : start.draft.Twin item.doc names start'.draft) :
    Concurs (Writer.LaterCommitted item.doc names (fun wide => Option.Rel (Revision.Renamed wide)) start start')
      (graft item start) (graft item start') :=
  check_concurs (transact_work_concurs hrest hrest' twin (Edit.graft_later twin))

theorem answer_concurs {action : Action α} {action' : Action β} {view : α → γ} {view' : β → δ}
    (h : Concurs (Writer.LaterCommitted doc names values start start') (action start) (action' start'))
    (hview : ∀ wide value value', values wide value value' → values' wide (view value) (view' value')) :
    Concurs (Writer.LaterCommitted doc names values' start start') ((action >>= fun value => pure (view value)) start)
      ((action' >>= fun value => pure (view' value)) start') := by
  refine h.bind ?_
  rintro value value' after after' ⟨draft, draft', ⟨wide, hwidens, hvalues, htwin⟩, hafter, hafter'⟩
  exact .ok ⟨draft, draft', ⟨wide, hwidens, hview wide value value' hvalues, htwin⟩, hafter, hafter'⟩

end Action

/-- The document that a mutation changes, if its caller names one. -/
def Mutation.doc? : Mutation → Option String
  | .create doc _ _ => doc
  | .update doc _ _ _ => some doc
  | .delete doc _ => some doc
  | .deleteAllLeaves doc => some doc
  | .graft item => some item.doc

theorem Mutation.run_concurs {mutation : Mutation} {doc : String} {names : Renaming} {start start' : Writer}
    (hdoc : mutation.doc? = some doc) (hrest : start.database.group = none) (hrest' : start'.database.group = none)
    (twin : start.draft.Twin doc names start'.draft) :
    Concurs (Writer.LaterCommitted doc names Outcome.Renamed start start') (mutation.run start) (mutation.run start') := by
  cases mutation with
  | create given body attachments =>
    obtain rfl : given = some doc := hdoc
    exact Action.answer_concurs (Action.createAs_concurs hrest hrest' twin attachments) fun _ _ _ => .revision
  | update given expected body changes =>
    obtain rfl : given = doc := Option.some.inj hdoc
    exact Action.answer_concurs (Action.update_concurs hrest hrest' twin expected changes) fun _ _ _ => .revision
  | delete given rev =>
    obtain rfl : given = doc := Option.some.inj hdoc
    exact Action.answer_concurs (Action.transact_work_concurs hrest hrest' twin (Edit.bury_later twin rev))
      fun _ _ _ => .revision
  | deleteAllLeaves given =>
    obtain rfl : given = doc := Option.some.inj hdoc
    exact Action.answer_concurs (Action.deleteAllLeaves_concurs hrest hrest' twin) fun _ _ _ => .tombstones
  | graft item =>
    obtain rfl : item.doc = doc := Option.some.inj hdoc
    refine (Action.graft_concurs hrest hrest' twin).bind ?_
    rintro found found' after after' ⟨draft, draft', ⟨wide, hwidens, hfound, htwin⟩, hafter, hafter'⟩
    have hlater : ∀ {outcome outcome'}, Outcome.Renamed wide outcome outcome' →
        Writer.LaterCommitted item.doc names Outcome.Renamed start start' outcome outcome' after after' :=
      fun h => ⟨draft, draft', ⟨wide, hwidens, h, htwin⟩, hafter, hafter'⟩
    cases hfound with
    | some hrevision => exact .ok (hlater (.revision hrevision))
    | none => exact .ok (hlater .alreadyPresent)

end RevisionForest
