import RevisionForest.Proofs.OpenLevels
import RevisionForest.Proofs.Statements
/-!
# Integrity

The shape of the tables survives every operation on a database, in every order, whether it succeeds or fails. A statement keeps it even when it stops halfway, since the copying of attachments stops between two insertions and all others are all or nothing; a fault made from outside still obeys the rules of the tables. An operation shows the tables that a statement left, or returns to the tables that its group found; so a property kept by statements is kept by operations as soon as the group carries it too (`Operation.keeps`), and it holds after any past (`Database.after_has`).
-/

namespace RevisionForest

/-- The tables in front have a property, and so do those that the open group returns to. -/
def Database.Has (property : Tables → Prop) (database : Database) : Prop :=
  property database.tables ∧ ∀ group ∈ database.group, ∀ found ∈ group.before, property found

namespace Tables

/-! ### Statements -/

theorem query_keeps {α : Type} {property : Tables → Prop} (read : Tables → Query α) :
    Keeps property (Statement.query read) := by
  intro tables h
  rw [Statement.query, stateAfter_get_bind]
  cases read tables <;> exact h

namespace Shape

variable {tables : Tables}

theorem aside (shape : tables.Shape) (locals : List LocalRow) (barren : List Int) :
    ({ tables with locals, barren } : Tables).Shape :=
  ⟨shape.numbers, shape.ids, shape.named, shape.sequences, shape.homes, shape.parents, shape.distinct, shape.owners,
    shape.labels⟩

theorem insertDocument_keeps (doc : String) : Keeps Shape (insertDocument doc) := by
  intro tables shape
  rw [insertDocument, stateAfter_get_bind, stateAfter_guard]
  split
  · exact shape
  · rename_i hfree
    simp only [Bool.or_eq_true, not_or, Bool.not_eq_true, Option.isSome_eq_false_iff, Option.isNone_iff_eq_none] at hfree
    exact shape.register hfree.1 hfree.2

theorem insertRevision_keeps (new : NewRevision) : Keeps Shape (Tables.insertRevision new) := by
  intro tables shape
  rw [Tables.insertRevision, stateAfter_get_bind]
  cases hknown : tables.sequenceOf? new.document new.rev with
  | some sequence => exact shape
  | none =>
    cases hrefusal : tables.refusal? new with
    | some error => exact shape
    | none => exact shape.push (shape.refusal?_eq_none_iff.mp hrefusal).1 hknown

theorem setCurrent_keeps (sequence : Int) (current : Bool) : Keeps Shape (setCurrent sequence current) := by
  intro tables shape
  rw [setCurrent, stateAfter_get_bind, stateAfter_guard]
  split
  · exact shape
  · rw [flag_eq_reflag]
    exact shape.reflag _

theorem pickWinner_keeps (document : Int) : Keeps Shape (pickWinner document) := by
  refine (query_keeps _).bind fun leaves => ?_
  cases Election.winner? leaves with
  | none => exact .pure _
  | some leaf =>
    refine Keeps.answer (.modify fun tables shape => ?_) _
    rw [crown_eq_reflag]
    exact shape.reflag _

theorem insertAttachment_keeps (sequence : Int) (attachment : Attachment) :
    Keeps Shape (Tables.insertAttachment sequence attachment) := by
  intro tables shape
  by_cases hokay : succeeds (Tables.insertAttachment sequence attachment) tables = true
  · obtain ⟨_, hresult⟩ := exists_ok_of_succeeds hokay
    exact shape.insertAttachment hresult
  · rw [Tables.insertAttachment, stateAfter_get_bind, stateAfter_guard, stateAfter_guard]
    split
    · exact shape
    · split
      · exact shape
      · rename_i htaken hmissing
        refine absurd ?_ hokay
        rw [succeeds, Tables.insertAttachment, bind_of_ok get_eq, if_neg htaken, if_neg hmissing]
        rfl

theorem insertAttachments_keeps (sequence : Int) (attachments : List Attachment) :
    Keeps Shape (Tables.insertAttachments sequence attachments) := by
  induction attachments with
  | nil => exact .pure _
  | cons attachment rest ih => exact (insertAttachment_keeps sequence attachment).bind fun _ => ih

theorem copyAttachments_keeps (source target : Int) (skip : List String) :
    Keeps Shape (copyAttachments source target skip) :=
  (query_keeps _).bind fun _ => (insertAttachments_keeps _ _).answer _

theorem putLocal_keeps (id : String) (body : Bytes) : Keeps Shape (putLocal id body) := by
  refine (query_keeps _).bind fun rev => Keeps.answer (.modify fun tables shape => ?_) _
  rw [tables.writeLocal_eq]
  exact shape.aside _ _

theorem deleteLocal_keeps (id : String) : Keeps Shape (deleteLocal id) :=
  fun _ shape => shape.aside _ _

theorem write_keeps (change : Write) : Keeps Shape change.run := by
  cases change with
  | insertDocument doc => exact (insertDocument_keeps doc).answer _
  | insertRevision new => exact (insertRevision_keeps new).answer _
  | setCurrent sequence current => exact (setCurrent_keeps sequence current).answer _
  | pickWinner document => exact (pickWinner_keeps document).answer _
  | insertAttachment sequence attachment => exact (insertAttachment_keeps sequence attachment).answer _
  | copyAttachments source target skip => exact (copyAttachments_keeps source target skip).answer _
  | putLocal doc body => exact (putLocal_keeps doc body).answer _
  | deleteLocal doc => exact (deleteLocal_keeps doc).answer _

/-! ### Damage -/

theorem mapAttachments (shape : tables.Shape) {change : AttachmentRow → AttachmentRow}
    (hsequence : ∀ row, (change row).sequence = row.sequence) (hname : ∀ row, (change row).name = row.name) :
    (tables.mapAttachments change).Shape where
  numbers := shape.numbers
  ids := shape.ids
  named := shape.named
  sequences := shape.sequences
  homes := shape.homes
  parents := shape.parents
  distinct := shape.distinct
  owners := by
    intro attachment hattachment
    obtain ⟨old, hold, rfl⟩ := List.mem_map.mp hattachment
    rw [hsequence]
    exact shape.owners old hold
  labels := by
    simpa only [Tables.mapAttachments, List.map_map, Function.comp_def, hsequence, hname] using shape.labels

theorem overwriteAttachments_keeps (sequence : Int) {change : AttachmentRow → AttachmentRow}
    (hsequence : ∀ row, (change row).sequence = row.sequence) (hname : ∀ row, (change row).name = row.name) :
    Keeps Shape (overwriteAttachments sequence change) := by
  refine fun tables shape => shape.mapAttachments (fun row => ?_) fun row => ?_
  · split
    · exact hsequence row
    · rfl
  · split
    · exact hname row
    · rfl

theorem overwriteRevId_keeps (sequence : Int) (text : String) : Keeps Shape (overwriteRevId sequence text) := by
  intro tables shape
  rw [overwriteRevId, stateAfter_get_bind]
  cases hrow : tables.rowAt? sequence with
  | none => exact shape
  | some row =>
    obtain ⟨hmem, rfl⟩ := shape.rowAt?_eq_some_iff.mp hrow
    refine (congrArg Shape (stateAfter_guard _)).mpr ?_
    split
    · exact shape
    · rename_i htaken
      have hfree : ∀ other ∈ tables.revisions, other.document = row.document → other.sequence ≠ row.sequence →
          other.revText ≠ text := by simpa using htaken
      refine shape.mapRevisions (fun old => ?_) (fun old => ?_) (fun old => ?_) ?_
      · split <;> rfl
      · split <;> rfl
      · split <;> rfl
      · rw [Tables.mapRevisions, List.map_map]
        refine shape.nodup.map_on fun first hfirst second hsecond hkey => ?_
        obtain ⟨hdocument, htext⟩ := Prod.mk.inj hkey
        beta_reduce at hdocument htext
        by_cases hfirstAt : first.sequence = row.sequence
        · by_cases hsecondAt : second.sequence = row.sequence
          · exact shape.eq_of_sequence hfirst hsecond (hfirstAt.trans hsecondAt.symm)
          · obtain rfl := shape.eq_of_sequence hfirst hmem hfirstAt
            rw [if_pos rfl, if_neg hsecondAt] at hdocument htext
            exact absurd htext.symm (hfree second hsecond hdocument.symm hsecondAt)
        · by_cases hsecondAt : second.sequence = row.sequence
          · obtain rfl := shape.eq_of_sequence hsecond hmem hsecondAt
            rw [if_neg hfirstAt, if_pos rfl] at hdocument htext
            exact absurd htext (hfree first hfirst hdocument hfirstAt)
          · rw [if_neg hfirstAt, if_neg hsecondAt] at hdocument htext
            exact shape.eq_of_revText hfirst hsecond hdocument htext

theorem damage_keeps (fault : Damage) : Keeps Shape fault.run := by
  cases fault with
  | refuseChildren sequence => exact (Keeps.modify fun tables shape => shape.aside _ _).answer _
  | encodings sequence text =>
    refine Keeps.answer (overwriteAttachments_keeps sequence (fun row => ?_) fun row => ?_) _
    · rfl
    · rfl
  | digests sequence text =>
    refine Keeps.answer (fun tables shape => ?_) _
    rw [overwriteDigests, stateAfter_get_bind, stateAfter_guard]
    split
    · exact shape
    · refine overwriteAttachments_keeps sequence (fun row => ?_) (fun row => ?_) shape
      · rfl
      · rfl
  | revId sequence text => exact (overwriteRevId_keeps sequence text).answer _
  | localRevIds text => exact Keeps.answer (fun tables shape => shape.aside _ _) _

end Shape

end Tables

/-! ### Operations -/

section Operations

variable {property : Tables → Prop} {database : Database}

theorem Database.has_none {tables : Tables} (h : property tables) : Database.Has property ⟨tables, none⟩ :=
  ⟨h, by nofun⟩

theorem Database.Has.returned {group : Group} (h : database.Has property) (hgroup : database.group = some group) :
    property (group.before.getD database.tables) := by
  cases hfound : group.before with
  | none => exact h.1
  | some found => exact h.2 group hgroup found hfound

theorem Database.Has.regroup {group group' : Group} (h : database.Has property) (hgroup : database.group = some group)
    (hfound : group'.before = group.before) : Database.Has property ⟨database.tables, some group'⟩ := by
  refine ⟨h.1, fun other hother found hmem => ?_⟩
  obtain rfl := Option.some.inj hother
  exact h.2 group hgroup found (hfound ▸ hmem)

namespace Transaction

theorem statement_keeps {α : Type} {action : Statement α} (h : Keeps property action) :
    Keeps (Database.Has property) (statement action) := by
  intro database hhas
  rw [Database.stateAfter_statement]
  exact ⟨h hhas.1, hhas.2⟩

theorem attempt_keeps {step : Transaction Answer} (h : Keeps (Database.Has property) step) :
    Keeps (Database.Has property) (attempt step) := by
  intro database hhas
  have hafter := h hhas
  unfold stateAfter attempt
  unfold stateAfter at hafter
  cases hrun : step database <;> simpa [hrun] using hafter

theorem stage_keeps (event : ChangeEvent) : Keeps (Database.Has property) (stage event) := by
  intro database h
  refine ⟨h.1, fun group hmem => ?_⟩
  obtain ⟨old, hold, rfl⟩ := Option.map_eq_some_iff.mp hmem
  exact h.2 old hold

theorem vacuum_keeps : Keeps (Database.Has property) vacuum := by
  intro database h
  rw [vacuum, stateAfter_get_bind]
  cases hopen : database.inTransaction <;> exact h

end Transaction

namespace Operation

theorem begin_keeps : Keeps (Database.Has property) begin.run := by
  intro database h
  cases hgroup : database.group with
  | none =>
    rw [Database.after_begin_of_rest hgroup]
    refine ⟨h.1, fun group hmem found hfound => ?_⟩
    obtain rfl := Option.some.inj hmem
    exact Option.some.inj hfound ▸ h.1
  | some group =>
    rw [Database.after_begin hgroup]
    exact h.regroup hgroup rfl

theorem markSuccessful_keeps : Keeps (Database.Has property) markSuccessful.run := by
  intro database h
  cases hgroup : database.group with
  | none => rwa [stateAfter_of_error (Database.mark_of_rest hgroup)]
  | some group =>
    rw [Database.after_mark hgroup]
    exact h.regroup hgroup rfl

theorem finish_keeps : Keeps (Database.Has property) finish.run := by
  intro database h
  cases hgroup : database.group with
  | none => rwa [stateAfter_of_error (Database.finish_of_rest hgroup)]
  | some group =>
    cases houter : group.outer with
    | cons marked outer =>
      rw [stateAfter_of_ok (Database.finish_inner hgroup houter)]
      exact h.regroup hgroup rfl
    | nil =>
      rw [stateAfter, Database.finish_outermost hgroup houter]
      by_cases hbroken : (group.unbroken && group.marked) = false
      · rw [if_pos hbroken]
        exact Database.has_none (h.returned hgroup)
      · rw [if_neg hbroken]
        by_cases hlost : group.before = none
        · rw [if_pos hlost]
          exact Database.has_none h.1
        · rw [if_neg hlost]
          exact Database.has_none h.1

theorem abandon_keeps : Keeps (Database.Has property) abandon.run := by
  intro database h
  cases hgroup : database.group with
  | none => rwa [stateAfter_of_ok (Database.abandon_nothing hgroup)]
  | some group =>
    rw [stateAfter_of_ok (Database.abandon_group hgroup)]
    exact Database.has_none (h.returned hgroup)

theorem loseTransaction_keeps : Keeps (Database.Has property) loseTransaction.run := by
  intro database h
  cases hgroup : database.group with
  | none => rwa [stateAfter_of_error (Database.lose_of_rest hgroup)]
  | some group =>
    rw [Database.after_lose hgroup]
    refine ⟨h.returned hgroup, fun other hmem found hfound => ?_⟩
    obtain rfl := Option.some.inj hmem
    nomatch hfound

end Operation

namespace Transaction

theorem finish_keeps : Keeps (Database.Has property) finish :=
  Operation.finish_keeps.unanswered fun _ _ => rfl

/-- A level keeps what its action and the steps around it keep. -/
theorem nested_keeps {α : Type} {action : Transaction α} (h : Keeps (Database.Has property) action) :
    Keeps (Database.Has property) (nested action) := by
  have hinside : Keeps (Database.Has property) (begin *> action) :=
    (Operation.begin_keeps.unanswered fun _ _ => rfl).bind fun _ => h
  have hclose : Keeps (Database.Has property) (markSuccessful *> finish) :=
    (Operation.markSuccessful_keeps.unanswered fun _ _ => rfl).bind fun _ => finish_keeps
  intro database hhas
  have hbetween := hinside hhas
  unfold stateAfter nested
  cases hrun : (begin *> action) database with
  | ok value inside =>
    rw [stateAfter_of_ok hrun] at hbetween
    have hafter := hclose hbetween
    unfold stateAfter at hafter
    cases hend : (markSuccessful *> finish) inside <;> simpa [hend] using hafter
  | error error inside =>
    rw [stateAfter_of_error hrun] at hbetween
    have hafter := finish_keeps hbetween
    unfold stateAfter at hafter
    cases hend : finish inside <;> simpa [hend] using hafter

end Transaction

mutual

theorem Operation.keeps (hwrite : ∀ change : Write, Keeps property change.run)
    (hdamage : ∀ fault : Damage, Keeps property fault.run) :
    ∀ operation : Operation, Keeps (Database.Has property) operation.run
  | .ask question => Transaction.statement_keeps (Tables.query_keeps question)
  | .write change => Transaction.statement_keeps (hwrite change)
  | .damage fault => Transaction.statement_keeps (hdamage fault)
  | .begin => Operation.begin_keeps
  | .markSuccessful => Operation.markSuccessful_keeps
  | .finish => Operation.finish_keeps
  | .abandon => Operation.abandon_keeps
  | .depth => fun _ h => h
  | .stage event => (Transaction.stage_keeps event).answer _
  | .vacuum => Transaction.vacuum_keeps.answer _
  | .loseTransaction => Operation.loseTransaction_keeps
  | .fail _ => fun _ h => h
  | .attempt operation => Transaction.attempt_keeps (Operation.keeps hwrite hdamage operation)
  | .level operations => (Transaction.nested_keeps (Operation.keeps_all hwrite hdamage operations)).answer _

theorem Operation.keeps_all (hwrite : ∀ change : Write, Keeps property change.run)
    (hdamage : ∀ fault : Damage, Keeps property fault.run) :
    ∀ operations : List Operation, Keeps (Database.Has property) (Operation.runAll operations)
  | [] => .pure _
  | operation :: rest =>
    (Operation.keeps hwrite hdamage operation).bind fun _ => (Operation.keeps_all hwrite hdamage rest).answer _

end

theorem Database.after_has (hwrite : ∀ change : Write, Keeps property change.run)
    (hdamage : ∀ fault : Damage, Keeps property fault.run) (h : database.Has property) (past : List Operation) :
    (database.after past).Has property := by
  induction past with
  | nil => exact h
  | cons operation past ih => exact operation.keeps hwrite hdamage ih

end Operations

/-! ### Revisions after any past -/

theorem Database.after_shape (past : List Operation) : (({} : Database).after past).tables.Shape :=
  (Database.after_has Tables.Shape.write_keeps Tables.Shape.damage_keeps (Database.has_none Tables.shape_empty) past).1

/-- The revisions are numbered from one to the last sequence, each in a stored document and behind its parent, and no two of one document have the same id. -/
structure Tables.Numbered (tables : Tables) : Prop where
  parents : ∀ row ∈ tables.revisions, ∀ parent, row.parent = some parent →
    parent < row.sequence ∧ ∃ older ∈ tables.revisions, older.sequence = parent ∧ older.document = row.document
  ids : ∀ row ∈ tables.revisions, ∀ other ∈ tables.revisions,
    row.document = other.document → row.revText = other.revText → row = other
  homes : ∀ row ∈ tables.revisions, ∃ document ∈ tables.documents, document.number = row.document
  sequences : tables.revisions.map (·.sequence) = (List.range tables.lastSequence.toNat).map fun i : Nat => (i : Int) + 1

theorem Tables.Shape.numbered {tables : Tables} (shape : tables.Shape) : tables.Numbered where
  parents := shape.parents
  ids _ hrow _ hother := shape.eq_of_revText hrow hother
  homes := shape.homes
  sequences := by rw [shape.lastSequence_eq, Int.toNat_natCast, shape.sequences]

theorem Database.insertRevision_ok_iff {database after : Database} {new : NewRevision} {answer : Answer} :
    (Operation.write (.insertRevision new)).run database = .ok answer after ↔
      ∃ insertion tables, Tables.insertRevision new database.tables = .ok insertion tables ∧
        answer = .insertion insertion ∧ after = { database with tables } := by
  simp only [Operation.run, Transaction.statement, Write.run, bind, EStateM.bind]
  cases Tables.insertRevision new database.tables with
  | ok insertion tables =>
    constructor
    · intro h
      obtain ⟨rfl, rfl⟩ := EStateM.Result.ok.inj h
      exact ⟨insertion, tables, rfl, rfl, rfl⟩
    · rintro ⟨_, _, hinsert, rfl, rfl⟩
      obtain ⟨rfl, rfl⟩ := EStateM.Result.ok.inj hinsert
      rfl
  | error error tables => simp

/-- Whatever was done to a new database, its revisions are numbered without a gap, each behind its parent, and no two of a document share an id. -/
theorem Database.revisions_numbered (past : List Operation) :
    (({} : Database).after past).tables.Numbered ∧
      ∀ new : NewRevision,
        (∀ row ∈ (({} : Database).after past).tables.revisions, row.document = new.document → row.revText = new.rev.text →
          (Operation.write (.insertRevision new)).run (({} : Database).after past)
            = .ok (.insertion (.existing row.sequence)) (({} : Database).after past)) ∧
        ((∀ row ∈ (({} : Database).after past).tables.revisions, row.document = new.document → row.revText ≠ new.rev.text) →
          ∀ answer after, (Operation.write (.insertRevision new)).run (({} : Database).after past) = .ok answer after →
            answer = .insertion (.inserted ((({} : Database).after past).tables.lastSequence + 1)) ∧
              after = { ({} : Database).after past with tables := (({} : Database).after past).tables.push new }) := by
  have shape := Database.after_shape past
  generalize ({} : Database).after past = database at shape
  refine ⟨shape.numbered, fun new => ⟨fun row hrow hdocument htext => ?_, fun hfresh answer after hrun => ?_⟩⟩
  · have hknown := shape.sequenceOf?_eq_some_iff.mpr ⟨row, hrow, hdocument, htext, rfl⟩
    have hinsert : Tables.insertRevision new database.tables = .ok (.existing row.sequence) database.tables :=
      Tables.insertRevision_ok_iff.mpr (.inl ⟨_, hknown, rfl, rfl⟩)
    exact Database.insertRevision_ok_iff.mpr ⟨_, _, hinsert, rfl, rfl⟩
  · have hfree := Tables.sequenceOf?_eq_none_iff.mpr hfresh
    obtain ⟨insertion, tables, hinsert, rfl, rfl⟩ := Database.insertRevision_ok_iff.mp hrun
    rcases Tables.insertRevision_ok_iff.mp hinsert with ⟨sequence, hknown, -⟩ | ⟨-, rfl, rfl⟩
    · rw [hfree] at hknown
      nomatch hknown
    · exact ⟨rfl, rfl⟩

end RevisionForest
