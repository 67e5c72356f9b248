import RevisionForest.Proofs.Aborts
import RevisionForest.Proofs.Failures
import RevisionForest.Proofs.Idempotence
/-!
# Internal errors are never met

A mutation that is asked of an open store on its own either fails because something is wrong with its arguments (`Mutation.inspect`), or with an error after which its caller may reasonably read again and retry. The errors for states that correct data and correct code cannot reach, and the one for a group that was rolled back from inside, are never given, whatever was asked of the store before (`Store.Onward.no_internal_error`). A level adds no failure of its own to what is done in it as long as no level inside has failed (`Action.transact_fails`), and all that is left to a mutation are the failures of its edit.
-/

namespace RevisionForest

open Tables

/-! ### Arguments -/

/-- What a mutation finds wrong with its arguments. The names of the attachments of a new document are checked inside its level, when its id has been found free; all else is checked before. -/
def Mutation.inspect : Mutation → Except StoreError Unit
  | .create doc body attachments => do
    Mutation.check (.create doc body attachments)
    (Attachment.checkNames [] attachments).mapError .invalidInput
  | .update doc expected body changes => Mutation.check (.update doc expected body changes)
  | .delete doc rev => Mutation.check (.delete doc rev)
  | .deleteAllLeaves doc => Mutation.check (.deleteAllLeaves doc)
  | .graft item => item.check

/-- The ids among the arguments of a mutation can be stored. -/
def Mutation.InRange : Mutation → Prop
  | .graft item => ∀ rev ∈ item.history, rev.generation < RevId.generationBound
  | .create _ _ _ | .update _ _ _ _ | .delete _ _ | .deleteAllLeaves _ => True

/-- Every stored revision can get a child, for its generation is not the last one. -/
def Tables.Extensible (tables : Tables) : Prop :=
  ∀ row ∈ tables.revisions, ∀ rev ∈ RevId.parse? row.revText, rev.generation + 1 < RevId.generationBound

instance (tables : Tables) : Decidable tables.Extensible :=
  inferInstanceAs (Decidable (∀ _ ∈ _, _))

theorem RevId.parse?_of_parse {text : String} {rev : RevId} (h : RevId.parse text = .ok rev) :
    RevId.parse? text = some rev := by
  cases hfound : RevId.parse? text with
  | some found =>
    simp only [RevId.parse, hfound] at h
    rw [Except.ok.inj h]
  | none =>
    simp only [RevId.parse, hfound] at h
    exact absurd h (by simp)

theorem Tables.Extensible.of_knows {tables : Tables} {doc : String} {rev : RevId} (h : tables.Extensible)
    (legible : tables.Legible) (hknows : tables.Knows doc rev) : rev.generation + 1 < RevId.generationBound := by
  obtain ⟨number, -, bone, hbone, -, htext⟩ := hknows
  obtain ⟨row, hrow, rfl⟩ := mem_bones_iff.mp hbone
  have hreads : row.Reads rev := legible.reads hrow htext
  exact h row hrow rev (by rw [hreads.1, RevId.parse?_text rev hreads.2]; rfl)

theorem Body.validate_error {body : Bytes} {error : StoreError}
    (h : (Body.validate body).mapError StoreError.ofData = .error error) : ∃ fault, error = .invalidInput fault := by
  unfold Body.validate at h
  split at h
  · exact ⟨_, (Except.error.inj h).symm⟩
  · split at h
    · nomatch h
    · exact ⟨_, (Except.error.inj h).symm⟩

theorem Attachment.checkNames_error {attachments : List NewAttachment} {error : StoreError}
    (h : (Attachment.checkNames [] attachments).mapError StoreError.invalidInput = .error error) :
    ∃ fault, error = .invalidInput fault := by
  cases hnames : Attachment.checkNames [] attachments with
  | error fault =>
    rw [hnames] at h
    exact ⟨fault, (Except.error.inj h).symm⟩
  | ok =>
    rw [hnames] at h
    nomatch h

theorem except_bind_error_iff {ε α β : Type} {read : Except ε α} {next : α → Except ε β} {error : ε} :
    (read >>= next) = .error error ↔ read = .error error ∨ ∃ middle, read = .ok middle ∧ next middle = .error error := by
  cases read with
  | ok middle => simp [bind, Except.bind]
  | error found => simp [bind, Except.bind]

theorem Graft.check_error {item : Graft} {error : StoreError} (h : item.check = .error error) :
    ∃ fault, error = .invalidInput fault := by
  unfold Graft.check at h
  by_cases hdoc : item.doc = ""
  · simp only [if_pos hdoc] at h
    exact ⟨_, (Except.error.inj h).symm⟩
  rw [if_neg hdoc] at h
  by_cases hhistory : item.history = []
  · simp only [if_pos hhistory] at h
    exact ⟨_, (Except.error.inj h).symm⟩
  rw [if_neg hhistory] at h
  cases hgap : Graft.gap? item.history with
  | some pair =>
    rw [hgap] at h
    exact ⟨_, (Except.error.inj h).symm⟩
  | none =>
    rw [hgap] at h
    cases hbody : item.body with
    | none =>
      rw [hbody] at h
      exact Attachment.checkNames_error h
    | some body =>
      rw [hbody] at h
      rcases except_bind_error_iff.mp h with hfault | ⟨_, -, hnames⟩
      · exact Body.validate_error hfault
      · exact Attachment.checkNames_error hnames

theorem Mutation.inspect_error {mutation : Mutation} {error : StoreError} (h : mutation.inspect = .error error) :
    ∃ fault, error = .invalidInput fault := by
  cases mutation with
  | create doc body attachments =>
    rcases except_bind_error_iff.mp h with hcheck | ⟨_, -, hnames⟩
    · rcases except_bind_error_iff.mp hcheck with hbody | ⟨_, -, hdoc⟩
      · exact Body.validate_error hbody
      · split at hdoc
        · exact ⟨_, (Except.error.inj hdoc).symm⟩
        · nomatch hdoc
    · exact Attachment.checkNames_error hnames
  | update doc expected body changes =>
    rcases except_bind_error_iff.mp h with hbody | ⟨_, -, hnames⟩
    · exact Body.validate_error hbody
    · exact Attachment.checkNames_error hnames
  | delete doc rev => nomatch h
  | deleteAllLeaves doc => nomatch h
  | graft item => exact Graft.check_error h

/-- A mutation may fail with an error to recover from, or with what is wrong with its arguments. -/
def Mutation.MayFail (mutation : Mutation) (error : StoreError) : Prop :=
  error.Recoverable ∨ mutation.inspect = .error error

/-! ### Levels -/

/-- An action is halted by an error that may be, and not by a panic. -/
def Halt.May (may : StoreError → Prop) : Halt → Prop
  | .fault error => may error
  | .panic => False

namespace Action

variable {α : Type} {may : StoreError → Prop} {action : Action α} {work : Edit α} {writer : Writer} {doc : String}

theorem check_fails {condition : Except StoreError Unit} {next : Unit → Action α}
    (hmay : ∀ error, condition = .error error → may error)
    (hnext : condition = .ok () → FailsWith (Halt.May may) (next ()) writer) :
    FailsWith (Halt.May may) (check condition >>= next) writer := by
  intro halt after hfails
  rcases error_check_iff.mp hfails with ⟨error, hcondition, rfl, -⟩ | ⟨hcondition, hlast⟩
  · exact hmay error hcondition
  · exact hnext hcondition halt after hlast

theorem edit_fails (h : FailsWith may work ⟨writer.database.tables, writer.blobs, []⟩) :
    FailsWith (Halt.May may) (edit work) writer := by
  intro halt after hfails
  unfold edit at hfails
  cases hresult : work ⟨writer.database.tables, writer.blobs, []⟩ with
  | ok value draft =>
    rw [hresult] at hfails
    nomatch hfails
  | error error draft =>
    rw [hresult] at hfails
    obtain ⟨rfl, -⟩ := EStateM.Result.error.inj hfails
    exact h error draft hresult

theorem transact_fails (hends : EndsAt (fun _ _ => True) (fun _ _ => True) action (opened writer))
    (h : FailsWith (Halt.May may) action (opened writer))
    (hintact : ∀ value inside, action (opened writer) = .ok value inside → inside.database.Intact) :
    FailsWith (Halt.May may) (transact action) writer := by
  intro halt after hfails
  unfold EndsAt at hends
  rw [transact_eq] at hfails
  cases hresult : action (opened writer) with
  | error found inside =>
    rw [hresult] at hfails
    cases found with
    | panic => exact (h .panic inside hresult).elim
    | fault error =>
      obtain ⟨rfl, -⟩ := EStateM.Result.error.inj hfails
      exact h (.fault error) inside hresult
  | ok value inside =>
    rw [hresult] at hfails hends
    obtain ⟨group, hgroup, -, hlevels⟩ := group_of_opened hends.levels
    have hunbroken := (Database.intact_iff hgroup).mp (hintact value inside hresult)
    cases hbefore : writer.database.group with
    | none =>
      simp only [hbefore] at hlevels
      simp only [complete_unbroken hgroup hlevels.2 hunbroken (by simp [hlevels.1])] at hfails
      nomatch hfails
    | some old =>
      simp only [hbefore] at hlevels
      simp only [complete_inner hgroup hlevels.2.1] at hfails
      nomatch hfails

theorem intact_install (hintact : writer.database.Intact) (draft : Draft) :
    (install (opened writer) draft).database.Intact :=
  (Matches.steady_install (opened writer) draft).intact_iff.mp ((intact_opened writer).mpr hintact)

theorem transact_edit_fails (hintact : writer.database.Intact) (hgrows : work.Grows)
    (h : FailsWith may work ⟨writer.database.tables, writer.blobs, []⟩) :
    FailsWith (Halt.May may) (transact (edit work)) writer := by
  refine transact_fails (.edit (group_opened writer) ⟨hgrows, fun _ _ _ => trivial⟩) (edit_fails h) ?_
  intro value inside hdone
  obtain ⟨draft, -, rfl⟩ := edit_ok hdone
  exact intact_install hintact draft

/-! ### Deletions -/

theorem delete_fails {rev : RevId} (hintact : writer.database.Intact) (healthy : writer.database.tables.Healthy)
    (hrange : writer.database.tables.Knows doc rev → rev.generation + 1 < RevId.generationBound) :
    FailsWith (Halt.May StoreError.Recoverable) (delete doc rev) writer :=
  transact_edit_fails hintact (Edit.bury_grows doc rev) (Edit.bury_fails healthy hrange)

theorem deleteEach_fails {revs : List RevId} (hintact : writer.database.Intact)
    (healthy : writer.database.tables.Healthy) (hrange : ∀ rev ∈ revs, rev.generation + 1 < RevId.generationBound) :
    FailsWith (Halt.May StoreError.Recoverable) (deleteEach doc revs) writer := by
  induction revs generalizing writer with
  | nil => exact .pure []
  | cons rev rest ih =>
    refine (delete_fails hintact healthy fun _ => hrange rev List.mem_cons_self).bind fun tombstone between hdeleted => ?_
    have hsteady := (Matches.transact_edit (Edit.bury doc rev) ⟨rfl, rfl⟩ tombstone between hdeleted).1
    obtain ⟨draft, hburied, htables⟩ := delete_ok hdeleted
    obtain ⟨_, _, -, healthy', -⟩ := Edit.bury_effect healthy hburied
    have hlater := fun other hother => hrange other (List.mem_cons_of_mem _ hother)
    exact (ih (hsteady.intact_iff.mp hintact) (htables ▸ healthy') hlater).answer

theorem range_of_liveLeaves {draft draft' : Draft} {revs : List RevId} (hroom : draft.tables.Extensible)
    (h : Edit.liveLeaves doc draft = .ok revs draft') :
    draft'.tables = draft.tables ∧ ∀ rev ∈ revs, rev.generation + 1 < RevId.generationBound := by
  obtain ⟨leaves, _, hquery, hvalue⟩ := ok_bind_iff.mp h
  obtain ⟨hleaves, rfl⟩ := Edit.query_ok_iff.mp hquery
  obtain ⟨rfl, rfl⟩ := ok_pure_iff.mp hvalue
  refine ⟨rfl, fun rev hrev => ?_⟩
  obtain ⟨leaf, hleaf, rfl⟩ := List.mem_map.mp hrev
  have hmem := List.mem_of_mem_filter hleaf
  cases hnumber : draft.tables.documentNumber? doc with
  | none =>
    rw [leafRevisions, select, hnumber] at hleaves
    obtain rfl := Except.ok.inj hleaves
    exact absurd hmem List.not_mem_nil
  | some number =>
    obtain ⟨row, hrow, hread⟩ := exists_mem_left (select_ok hnumber hleaves) hmem
    obtain ⟨_, rev, -, hparse, rfl⟩ := readRevision_ok_iff.mp hread
    exact hroom row (List.mem_of_mem_filter hrow) rev (RevId.parse?_of_parse hparse)

theorem deleteAllLeaves_fails (hanchored : writer.database.Anchored) (hintact : writer.database.Intact)
    (healthy : writer.database.tables.Healthy) (hroom : writer.database.tables.Extensible) :
    FailsWith (Halt.May StoreError.Recoverable) (deleteAllLeaves doc) writer := by
  refine transact_fails (deleteLiveLeaves_ends covers_any.toCourse hanchored fun _ _ _ rev _ => covers_any.bury doc rev) ?_ ?_
  · have hread : FailsWith (Halt.May StoreError.Recoverable) (edit (Edit.liveLeaves doc)) (opened writer) :=
      edit_fails (Edit.liveLeaves_fails healthy)
    refine hread.bind fun revs between hlisted => ?_
    obtain ⟨draft, hleaves, rfl⟩ := edit_ok hlisted
    obtain ⟨hsame, hrange⟩ := range_of_liveLeaves hroom hleaves
    refine deleteEach_fails ?_ ?_ hrange
    · exact intact_install hintact draft
    · exact (hsame ▸ healthy : draft.tables.Healthy)
  · intro tombstones inside hdone
    obtain ⟨revs, between, hlisted, hdeleted⟩ := ok_bind_iff.mp hdone
    obtain ⟨draft, -, rfl⟩ := edit_ok hlisted
    have hsteady := (deleteEach_matches revs ⟨rfl, rfl⟩ tombstones inside hdeleted).1
    exact hsteady.intact_iff.mp (intact_install hintact draft)

/-! ### Other mutations -/

variable {body : Bytes}

theorem createAs_fails {attachments : List NewAttachment} (hintact : writer.database.Intact)
    (healthy : writer.database.tables.Healthy) :
    FailsWith (Halt.May (Mutation.MayFail (.create (some doc) body attachments))) (createAs doc body attachments) writer := by
  refine check_fails (fun error hbody => .inr ?_) fun hbody => ?_
  · simp [Mutation.inspect, Mutation.check, hbody, bind, Except.bind]
  · by_cases hdoc : doc = ""
    · rw [if_pos hdoc]
      intro halt after hfails
      obtain ⟨rfl, -⟩ := EStateM.Result.error.inj hfails
      refine .inr ?_
      simp [Mutation.inspect, Mutation.check, hbody, hdoc, bind, Except.bind, throw, throwThe, MonadExceptOf.throw]
    · rw [if_neg hdoc]
      refine transact_edit_fails hintact (Edit.create_grows doc body attachments)
        ((Edit.create_fails healthy).mono fun error hmay => hmay.imp_right fun hnames => ?_)
      simp [Mutation.inspect, Mutation.check, hbody, hdoc, hnames, bind, Except.bind, pure, Except.pure]

theorem create_fails {doc : Option String} {attachments : List NewAttachment} (hintact : writer.database.Intact)
    (healthy : writer.database.tables.Healthy) :
    FailsWith (Halt.May (Mutation.MayFail (.create doc body attachments))) (create doc body attachments) writer := by
  cases doc with
  | some doc => exact createAs_fails hintact healthy
  | none =>
    intro halt after hfails
    rw [create_none] at hfails
    have hinspect : Mutation.inspect (.create none body attachments)
        = Mutation.inspect (.create (some (idAt writer.clock)) body attachments) := by
      simp [Mutation.inspect, Mutation.check, idAt_ne_empty]
    have hmade : FailsWith (Halt.May (Mutation.MayFail (.create none body attachments)))
        (createAs (idAt writer.clock) body attachments >>= fun revision => tick >>= fun _ => Pure.pure revision) writer := by
      unfold Mutation.MayFail
      rw [hinspect]
      exact (createAs_fails hintact healthy).bind fun _ _ _ => .of_ok rfl
    exact hmade halt after hfails

theorem update_fails {expected : RevId} {changes : AttachmentChanges} (hintact : writer.database.Intact)
    (healthy : writer.database.tables.Healthy)
    (hrange : writer.database.tables.Knows doc expected → expected.generation + 1 < RevId.generationBound) :
    FailsWith (Halt.May (Mutation.MayFail (.update doc expected body changes))) (update doc expected body changes) writer := by
  refine check_fails (fun error hbody => .inr ?_) fun hbody => check_fails (fun error hnames => .inr ?_) fun _ => ?_
  · simp [Mutation.inspect, Mutation.check, hbody, bind, Except.bind]
  · simp [Mutation.inspect, Mutation.check, hbody, hnames, bind, Except.bind]
  · exact transact_edit_fails hintact (Edit.update_grows doc expected body changes)
      ((Edit.update_fails healthy hrange).mono fun _ => .inl)

theorem graft_fails {item : Graft} (hintact : writer.database.Intact) (healthy : writer.database.tables.Healthy)
    (hrange : ∀ rev ∈ item.history, rev.generation < RevId.generationBound) :
    FailsWith (Halt.May (Mutation.MayFail (.graft item))) (graft item) writer :=
  check_fails (fun _ => .inr) fun hcheck => transact_edit_fails hintact (Edit.graft_grows item)
    ((Edit.graft_fails healthy hcheck hrange).mono fun _ => .inl)

end Action

/-- A mutation on its own, or in a group no level of which has failed, fails as it may. -/
theorem Mutation.run_fails {mutation : Mutation} {writer : Writer} (hanchored : writer.database.Anchored)
    (hintact : writer.database.Intact) (healthy : writer.database.tables.Healthy)
    (hroom : writer.database.tables.Extensible) (hrange : mutation.InRange) :
    FailsWith (Halt.May mutation.MayFail) mutation.run writer := by
  have hrecovers : ∀ halt, Halt.May StoreError.Recoverable halt → Halt.May mutation.MayFail halt := by
    rintro (error | _) hmay
    · exact .inl hmay
    · exact hmay
  cases mutation with
  | create doc body attachments => exact (Action.create_fails hintact healthy).answer
  | update doc expected body changes =>
    exact (Action.update_fails hintact healthy (hroom.of_knows healthy.legible)).answer
  | delete doc rev =>
    exact ((Action.delete_fails hintact healthy (hroom.of_knows healthy.legible)).mono hrecovers).answer
  | deleteAllLeaves doc => exact ((Action.deleteAllLeaves_fails hanchored hintact healthy hroom).mono hrecovers).answer
  | graft item =>
    refine (Action.graft_fails hintact healthy hrange).bind fun found _ _ => ?_
    cases found with
    | some revision => exact .pure _
    | none => exact .pure _

namespace Store

variable {store after : Store} {mutation : Mutation} {error : StoreError}

theorem execute_fails {α : Type} {may : StoreError → Prop} {R Q : Holdings → Holdings → Prop} {action : Action α}
    (hopen : store.closed = false) (hrest : store.AtRest) (hends : Action.EndsAt R Q action store.writer)
    (h : FailsWith (Halt.May may) action store.writer) : FailsWith may (execute action) store := by
  intro error after hfails
  unfold execute at hfails
  unfold Action.EndsAt at hends
  simp only [hopen, Bool.false_eq_true, ↓reduceIte, Writer.run] at hfails
  cases hresult : action store.writer with
  | ok value writer =>
    rw [hresult] at hfails hends
    have hclosed := hends.levels.none_iff.mp hrest
    simp [Writer.settle, Database.inTransaction, hclosed] at hfails
  | error halt writer =>
    rw [hresult] at hfails hends
    cases halt with
    | panic => exact (h .panic writer hresult).elim
    | fault found =>
      have hclosed := hends.levels.none_iff.mp hrest
      simp only [Writer.settle, Database.inTransaction, hclosed, Option.isSome_none, Bool.false_eq_true,
        ↓reduceIte] at hfails
      obtain ⟨rfl, -⟩ := EStateM.Result.error.inj hfails
      exact h (.fault found) writer hresult

/-- A mutation that is asked of an open store on its own refuses only arguments that are wrong in themselves, and from any other failure its caller may recover. -/
theorem Onward.no_internal_error {config : Config} {blobs : BlobStore} (h : (openWith config blobs).Onward store)
    (hopen : store.closed = false) (hroom : store.writer.database.tables.Extensible) (hrange : mutation.InRange)
    (hfails : execute mutation.run store = .error error after) :
    (∀ what, error ≠ .invariantViolation what) ∧ error ≠ .transactionAborted ∧
      (∀ fault, error = .invalidInput fault → mutation.inspect = .error error) ∧
      (mutation.inspect = .ok () → error.recoverable = true) := by
  obtain ⟨hrest, healthy, -⟩ := h.preserved rfl healthy_empty
  have hanchored := Writer.anchored_of_rest hrest
  have hruns := mutation.run_fails hanchored (Writer.intact_of_rest hrest) healthy hroom hrange
  rcases execute_fails hopen hrest (mutation.run_follows covers_sound store.writer hanchored) hruns error after hfails with
    hrecoverable | hrefused
  · refine ⟨?_, ?_, ?_, fun _ => hrecoverable⟩
    · rintro what rfl
      nomatch hrecoverable
    · rintro rfl
      nomatch hrecoverable
    · rintro fault rfl
      nomatch hrecoverable
  · obtain ⟨fault, rfl⟩ := Mutation.inspect_error hrefused
    refine ⟨nofun, nofun, fun _ _ => hrefused, fun haccepted => ?_⟩
    rw [hrefused] at haccepted
    nomatch haccepted

/-- A revision that has a child cannot be deleted, and is told so. -/
theorem no_internal_error_parent :
    let older : RevId := ⟨1, "a", by decide, by decide⟩
    let item : Graft := { doc := "d", history := [older, ⟨2, "b", by decide, by decide⟩], body := some Body.empty }
    let store := stateAfter (graftAll [item]) (new {})
    ∃ error after, execute (Mutation.delete "d" older).run store = .error error after ∧
      error ≠ .transactionAborted ∧ error.recoverable = true := by
  intro older item store
  have hstart : (openWith {} {}).Onward store := .graftAll [item] .start
  have hfails : succeeds (execute (Mutation.delete "d" older).run) store = false := by decide +kernel
  cases hresult : execute (Mutation.delete "d" older).run store with
  | ok outcome after =>
    rw [succeeds, hresult] at hfails
    exact absurd hfails.symm Bool.false_ne_true
  | error error after =>
    obtain ⟨-, hgroup, -, hrecoverable⟩ :=
      hstart.no_internal_error (by decide +kernel) (by decide +kernel) (by trivial) hresult
    exact ⟨error, after, rfl, hgroup, hrecoverable rfl⟩

end Store

end RevisionForest
