import RevisionForest.Proofs.Keeping
import RevisionForest.Proofs.Stock
import RevisionForest.Proofs.Views
/-!
# Attachments have their data

A description is stored after its data was written, and blobs are never taken back; so whatever failed in between, every description that is stored has its data. What stands under its digest are bytes that were once supplied and that have this digest, and the length in the description is that of some supplied data of the same digest. These are the same bytes, unless two different ones of all the data that were supplied have one digest (`Digest.CollisionFree`).

The blobs are followed separately from the tables: no action does anything to them but write supplied data, however it ends and whatever levels are open (`Command.run_addressed`), while the rows go along every mutation that succeeds (`Mutation.runs_sources`).
-/

namespace RevisionForest

/-- No two of some data have the same digest. -/
def Digest.CollisionFree (supplied : List Bytes) : Prop :=
  ∀ data ∈ supplied, ∀ other ∈ supplied, Digest.of data = Digest.of other → data = other

instance (supplied : List Bytes) : Decidable (Digest.CollisionFree supplied) :=
  inferInstanceAs (Decidable (∀ data ∈ supplied, ∀ other ∈ supplied, Digest.of data = Digest.of other → data = other))

/-! ### What is supplied -/

/-- The attachment data that a mutation brings. -/
def Mutation.supplied : Mutation → List Bytes
  | .create _ _ attachments => attachments.map (·.data)
  | .update _ _ _ changes => changes.put.map (·.data)
  | .delete _ _ | .deleteAllLeaves _ => []
  | .graft item => item.attachments.map (·.data)

mutual

/-- The data that a command brings, in whatever groups. -/
def Command.supplied : Command → List Bytes
  | .mutate mutation => mutation.supplied
  | .putBlob data => [data]
  | .attempt command => command.supplied
  | .transact script => Command.allSupplied script
  | _ => []

def Command.allSupplied : List Command → List Bytes
  | [] => []
  | command :: rest => command.supplied ++ Command.allSupplied rest

end

/-- The description counts the length of supplied data that have its digest. -/
def Attachment.SuppliedFrom (supplied : List Bytes) (attachment : Attachment) : Prop :=
  ∃ data ∈ supplied, Digest.of data = attachment.digest ∧ data.length = attachment.encodedLength

mutual

theorem Command.supplied_of_makes {mutation : Mutation} : ∀ command : Command, command.Makes mutation →
    mutation.supplied ⊆ command.supplied
  | .mutate _, hmakes => hmakes ▸ List.Subset.refl _
  | .attempt command, hmakes => command.supplied_of_makes hmakes
  | .transact script, hmakes => Command.allSupplied_of_makes script hmakes

theorem Command.allSupplied_of_makes {mutation : Mutation} : ∀ script : List Command, Command.AnyMakes mutation script →
    mutation.supplied ⊆ Command.allSupplied script
  | command :: _, .inl hmakes => fun _ hmem => List.mem_append_left _ (command.supplied_of_makes hmakes hmem)
  | _ :: rest, .inr hmakes => fun _ hmem => List.mem_append_right _ (Command.allSupplied_of_makes rest hmakes hmem)

end

theorem Command.allSupplied_subset {supplied : List Bytes} {script : List Command}
    (h : ∀ command ∈ script, command.supplied ⊆ supplied) : Command.allSupplied script ⊆ supplied := by
  induction script with
  | nil => exact List.nil_subset supplied
  | cons command rest ih =>
    exact List.append_subset.mpr
      ⟨h command List.mem_cons_self, ih fun other hother => h other (List.mem_cons_of_mem _ hother)⟩

/-! ### Blobs -/

/-- The blobs are supplied data, each under its digest. -/
def Writer.Addressed (supplied : List Bytes) (writer : Writer) : Prop :=
  writer.blobs.Addressed supplied

variable {supplied : List Bytes}

namespace Action

variable {α β : Type} {action : Action α} {doc : String}

theorem transaction_addressed (step : Transaction α) : Keeps (Writer.Addressed supplied) (transaction step) := by
  intro writer h
  unfold stateAfter transaction
  cases step writer.database <;> exact h

theorem fail_addressed (error : StoreError) : Keeps (Writer.Addressed supplied) (fail error : Action α) :=
  fun _ h => h

theorem check_addressed (condition : Except StoreError Unit) : Keeps (Writer.Addressed supplied) (check condition) := by
  cases condition with
  | ok => exact .pure _
  | error error => exact fail_addressed error

theorem guard_addressed {condition : Prop} [Decidable condition] {error : StoreError} {next : PUnit → Action α}
    (h : Keeps (Writer.Addressed supplied) (next ⟨⟩)) :
    Keeps (Writer.Addressed supplied) (if condition then fail error >>= next else next ⟨⟩) := by
  split
  · exact fun _ haddressed => haddressed
  · exact h

theorem edit_addressed {work : Edit α} (h : work.Writes supplied) : Keeps (Writer.Addressed supplied) (edit work) := by
  intro writer haddressed
  have hafter : (stateAfter work ⟨writer.database.tables, writer.blobs, []⟩).blobs.Addressed supplied :=
    h.addressed haddressed
  unfold stateAfter at hafter ⊢
  unfold edit
  cases hwork : work ⟨writer.database.tables, writer.blobs, []⟩ with
  | ok value draft =>
    rw [hwork] at hafter
    exact hafter
  | error error draft =>
    rw [hwork] at hafter
    exact hafter

theorem complete_addressed : Keeps (Writer.Addressed supplied) complete := by
  refine (transaction_addressed _).bind fun _ => (transaction_addressed _).bind fun ending => ?_
  cases ending with
  | nested => exact .pure _
  | committed events => exact .modify fun _ h => h
  | rolledBack => exact fail_addressed _

theorem transact_addressed (h : Keeps (Writer.Addressed supplied) action) :
    Keeps (Writer.Addressed supplied) (transact action) := by
  intro writer haddressed
  have hinside : Keeps (Writer.Addressed supplied) (transaction Transaction.begin *> action) :=
    (transaction_addressed Transaction.begin).bind fun _ => h
  have hbetween := hinside haddressed
  unfold stateAfter at hbetween ⊢
  unfold transact
  -- However the action ends, what ends its level touches no blob.
  cases hrun : (transaction Transaction.begin *> action) writer with
  | ok value inside =>
    rw [hrun] at hbetween
    have hafter := complete_addressed hbetween
    unfold stateAfter at hafter
    cases hend : complete inside <;> simpa [hend] using hafter
  | error halt inside =>
    rw [hrun] at hbetween
    cases halt with
    | panic => exact hbetween
    | fault error =>
      have hafter := transaction_addressed Transaction.finish hbetween
      unfold stateAfter at hafter
      simp only [close]
      cases hend : transaction Transaction.finish inside <;> simpa [hend] using hafter

theorem putBlob_addressed {data : Bytes} (hknown : data ∈ supplied) : Keeps (Writer.Addressed supplied) (putBlob data) := by
  intro writer h
  have hafter : (stateAfter (BlobStore.put data) writer.blobs).Addressed supplied :=
    BlobStore.Written.addressed (.single ⟨data, hknown, rfl⟩) h
  unfold stateAfter at hafter ⊢
  unfold putBlob
  cases hput : BlobStore.put data writer.blobs with
  | ok digest blobs =>
    rw [hput] at hafter
    exact hafter
  | error error blobs =>
    rw [hput] at hafter
    exact hafter

theorem attempt_addressed {action : Action Answer} (h : Keeps (Writer.Addressed supplied) action) :
    Keeps (Writer.Addressed supplied) (attempt action) := by
  intro writer haddressed
  have hafter := h haddressed
  unfold stateAfter at hafter ⊢
  unfold attempt
  cases hrun : action writer with
  | ok answer after => simpa [hrun] using hafter
  | error halt after => cases halt <;> simpa [hrun] using hafter

theorem createAs_addressed (doc : String) (body : Bytes) {attachments : List NewAttachment}
    (hknown : ∀ attachment ∈ attachments, attachment.data ∈ supplied) :
    Keeps (Writer.Addressed supplied) (createAs doc body attachments) :=
  (check_addressed _).bind fun _ => guard_addressed (transact_addressed (edit_addressed (Edit.create_writes doc body hknown)))

theorem create_addressed (doc : Option String) (body : Bytes) {attachments : List NewAttachment}
    (hknown : ∀ attachment ∈ attachments, attachment.data ∈ supplied) :
    Keeps (Writer.Addressed supplied) (create doc body attachments) := by
  cases doc with
  | some given => exact createAs_addressed given body hknown
  | none =>
    intro writer h
    have hlast : ∀ revision : Revision, Keeps (Writer.Addressed supplied) (tick >>= fun _ => (pure revision : Action Revision)) :=
      fun _ _ haddressed => haddressed
    have hafter := (createAs_addressed (idAt writer.clock) body hknown).bind hlast h
    unfold stateAfter at hafter ⊢
    rwa [create_none]

theorem graft_addressed {item : Graft} (hknown : ∀ attachment ∈ item.attachments, attachment.data ∈ supplied) :
    Keeps (Writer.Addressed supplied) (graft item) :=
  (check_addressed _).bind fun _ => transact_addressed (edit_addressed (Edit.graft_writes hknown))

theorem deleteEach_addressed (doc : String) (revs : List RevId) : Keeps (Writer.Addressed supplied) (deleteEach doc revs) := by
  induction revs with
  | nil => exact .pure _
  | cons rev rest ih =>
    exact (transact_addressed (edit_addressed (Edit.bury_writes doc rev))).bind fun _ => ih.answer _

end Action

theorem Mutation.run_addressed (mutation : Mutation) (hknown : mutation.supplied ⊆ supplied) :
    Keeps (Writer.Addressed supplied) mutation.run := by
  cases mutation with
  | create doc body attachments =>
    exact (Action.create_addressed doc body fun _ hmem => hknown (List.mem_map_of_mem hmem)).answer _
  | update doc expected body changes =>
    refine Keeps.answer ((Action.check_addressed _).bind fun _ => (Action.check_addressed _).bind fun _ => ?_) _
    exact Action.transact_addressed (Action.edit_addressed
      (Edit.update_writes doc expected body fun _ hmem => hknown (List.mem_map_of_mem hmem)))
  | delete doc rev => exact (Action.transact_addressed (Action.edit_addressed (Edit.bury_writes doc rev))).answer _
  | deleteAllLeaves doc =>
    refine Keeps.answer (Action.transact_addressed ?_) _
    exact (Action.edit_addressed (Edit.liveLeaves_writes doc)).bind fun revs => Action.deleteEach_addressed doc revs
  | graft item =>
    refine Keeps.bind (Action.graft_addressed fun _ hmem => hknown (List.mem_map_of_mem hmem)) fun found => ?_
    cases found <;> exact .pure _

mutual

theorem Command.run_addressed : ∀ command : Command, command.supplied ⊆ supplied →
    Keeps (Writer.Addressed supplied) command.run
  | .mutate mutation, hknown => (mutation.run_addressed hknown).answer _
  | .operate operation, _ => Action.transaction_addressed operation.run
  | .putBlob _, hknown => (Action.putBlob_addressed (hknown List.mem_cons_self)).answer _
  | .fail error, _ => Action.fail_addressed error
  | .panic, _ => fun _ h => h
  | .attempt command, hknown => Action.attempt_addressed (command.run_addressed hknown)
  | .transact script, hknown => (Action.transact_addressed (Command.runAll_addressed script hknown)).answer _

theorem Command.runAll_addressed : ∀ script : List Command, Command.allSupplied script ⊆ supplied →
    Keeps (Writer.Addressed supplied) (Command.runAll script)
  | [], _ => .pure _
  | command :: rest, hknown =>
    (command.run_addressed fun _ hmem => hknown (List.mem_append_left _ hmem)).bind fun _ =>
      (Command.runAll_addressed rest fun _ hmem => hknown (List.mem_append_right _ hmem)).answer _

end

theorem Writer.settle_blobs {α : Type} (result : Except Halt α) (writer : Writer) :
    (writer.settle result).2.blobs = writer.blobs := by
  unfold Writer.settle
  cases writer.database.inTransaction <;> rcases result with (_ | _) | _ <;> rfl

theorem Writer.run_addressed {α : Type} {action : Action α} (h : Keeps (Writer.Addressed supplied) action) {writer : Writer}
    (haddressed : writer.Addressed supplied) : (writer.run action).2.Addressed supplied := by
  have hafter := h haddressed
  unfold stateAfter at hafter
  unfold Writer.run Writer.Addressed
  cases hrun : action writer with
  | ok value after =>
    rw [hrun] at hafter
    rwa [Writer.settle_blobs]
  | error halt after =>
    rw [hrun] at hafter
    rwa [Writer.settle_blobs]

/-! ### Descriptions -/

/-- Healthy tables stay healthy, and what they describe stays supplied. -/
abbrev Holdings.Sources (supplied : List Bytes) : Holdings → Holdings → Prop :=
  Holdings.Keeping (Tables.AllDescribe (·.SuppliedFrom supplied))

theorem suppliedFrom_stored {new : List NewAttachment} (hknown : ∀ attachment ∈ new, attachment.data ∈ supplied)
    (revpos : Nat) : ∀ attachment ∈ new.map (·.stored revpos), attachment.SuppliedFrom supplied := by
  intro attachment hmem
  obtain ⟨given, hgiven, rfl⟩ := List.mem_map.mp hmem
  exact ⟨given.data, hknown given hgiven, rfl, rfl⟩

namespace Edit

open Tables

theorem create_sources (doc : String) (body : Bytes) {attachments : List NewAttachment}
    (hknown : ∀ attachment ∈ attachments, attachment.data ∈ supplied) :
    (create doc body attachments).Runs (Holdings.Sources supplied) := by
  refine ⟨create_grows doc body attachments, fun draft value draft' h _ healthy hsourced => ?_⟩
  obtain ⟨-, hafter, hgains⟩ := create_effect healthy h
  have hregistered : (draft.tables.register doc).AllDescribe (·.SuppliedFrom supplied) := hsourced
  exact ⟨hafter, hregistered.grow hgains (suppliedFrom_stored hknown 1)⟩

theorem update_sources (doc : String) (expected : RevId) (body : Bytes) {changes : AttachmentChanges}
    (hknown : ∀ attachment ∈ changes.put, attachment.data ∈ supplied) :
    (update doc expected body changes).Runs (Holdings.Sources supplied) := by
  refine ⟨update_grows doc expected body changes,
    fun draft value draft' h _ (healthy : draft.tables.Healthy) hsourced => ?_⟩
  obtain ⟨number, row, attachments, kept, ⟨-, -, -, -, hattachments, hkept⟩, hafter, -, hderives⟩ := update_effect healthy h
  refine ⟨hafter, hsourced.derive hderives fun attachment hmem => ?_⟩
  rcases List.mem_append.mp hmem with hold | hnew
  · rw [keptAttachments_ok hkept] at hold
    exact hsourced.attachmentsFor healthy.legible hattachments attachment (List.mem_of_mem_filter hold)
  · exact suppliedFrom_stored hknown _ attachment hnew

theorem bury_sources (doc : String) (rev : RevId) : (bury doc rev).Runs (Holdings.Sources supplied) := by
  refine ⟨bury_grows doc rev, fun draft value draft' h _ healthy hsourced => ?_⟩
  obtain ⟨number, row, -, hafter, -, hderives⟩ := bury_effect healthy h
  exact ⟨hafter, hsourced.derive hderives (List.forall_mem_nil _)⟩

theorem graft_sources {item : Graft} (hknown : ∀ attachment ∈ item.attachments, attachment.data ∈ supplied)
    (hcheck : item.check = .ok ()) : (graft item).Runs (Holdings.Sources supplied) := by
  refine ⟨graft_grows item, fun draft value draft' h _ (healthy : draft.tables.Healthy) hsourced => ?_⟩
  obtain ⟨rev, number, opened, ⟨-, hopen, hafter⟩, hcases⟩ := graft_effect healthy (Graft.check_ok_iff.mp hcheck).2.2.1 h
  obtain ⟨-, -, -, -, hrows⟩ := openTables_ok healthy hopen
  have hopened : opened.AllDescribe (·.SuppliedFrom supplied) := by
    intro row hrow
    rw [hrows] at hrow
    exact hsourced row hrow
  refine ⟨hafter, ?_⟩
  rcases hcases with ⟨-, -, rfl, -⟩ | ⟨-, -, hgains⟩
  · exact hopened
  · exact hopened.grow hgains (suppliedFrom_stored hknown _)

end Edit

theorem Mutation.runs_sources (mutation : Mutation) (hknown : mutation.supplied ⊆ supplied) (holdings : Holdings) :
    mutation.Runs (Holdings.Sources supplied) holdings := by
  cases mutation with
  | create _ body attachments =>
    exact fun doc _ _ => Edit.create_sources doc body fun _ hmem => hknown (List.mem_map_of_mem hmem)
  | update doc expected body changes =>
    exact fun _ _ => (Edit.update_sources doc expected body fun _ hmem => hknown (List.mem_map_of_mem hmem)).runsFrom holdings
  | delete doc rev => exact Edit.bury_sources doc rev
  | deleteAllLeaves doc => exact fun _ _ _ rev _ => Edit.bury_sources doc rev
  | graft item => exact Edit.graft_sources fun _ hmem => hknown (List.mem_map_of_mem hmem)

/-! ### Stores -/

namespace Store

variable {store : Store}

/-- Open stores that began without documents and have lost no blob, and whose blobs and attachments were all made of some supplied data. Requests may have failed, and the blobs may have refused any write. -/
structure Fed (supplied : List Bytes) (store : Store) : Prop where
  opened : store.closed = false
  fed : ∃ config blobs, blobs.Addressed supplied ∧
    (openWith config blobs).Becomes (fun command => command.Plain ∧ command.supplied ⊆ supplied) (Besides False) store

theorem Fed.networked (h : store.Fed supplied) : store.Networked := by
  obtain ⟨config, blobs, -, hfed⟩ := h.fed
  exact ⟨h.opened, config, blobs, hfed.mono (fun _ => And.left) fun _ _ => id⟩

theorem execute_addressed {α : Type} {action : Action α} (h : Keeps (Writer.Addressed supplied) action)
    (haddressed : store.writer.Addressed supplied) : (stateAfter (execute action) store).writer.Addressed supplied := by
  rw [stateAfter_execute]
  split
  · exact haddressed
  · exact Writer.run_addressed h haddressed

theorem putLocal_addressed (doc : String) (body : Bytes) :
    Keeps (fun store => store.writer.Addressed supplied) (putLocal doc body) := by
  intro store haddressed
  unfold putLocal
  cases (Body.validate body).mapError StoreError.ofData with
  | error error => exact haddressed
  | ok => exact execute_addressed (Action.transact_addressed (Action.transaction_addressed _)) haddressed

theorem deleteLocal_addressed (doc : String) :
    Keeps (fun store => store.writer.Addressed supplied) (deleteLocal doc) := by
  intro store
  refine execute_addressed ((Action.transact_addressed (Action.transaction_addressed _)).bind fun removed => ?_)
  cases removed with
  | true => exact .pure _
  | false => exact Action.fail_addressed _

theorem Besides.addressed {after : Store} (h : store.Besides False after) (haddressed : store.writer.Addressed supplied) :
    after.writer.Addressed supplied := by
  cases h with
  | apart hapart =>
    cases hapart with
    | putLocal doc body => exact putLocal_addressed doc body haddressed
    | deleteLocal doc => exact deleteLocal_addressed doc haddressed
    | compact => exact execute_addressed (Action.transaction_addressed _) haddressed
    | elapsed clock => exact haddressed
  | subscribed | drained | unsubscribed | closed => exact haddressed
  | reopened _ hblobs =>
    have hkept : store.config.keepsBlobs = true := hblobs.resolve_left id
    simpa only [Writer.Addressed, reopen, hkept, ↓reduceIte] using haddressed
  | bereft hlossy => exact hlossy.elim

/-- Whatever failed, the blobs are supplied data, each under its digest. -/
theorem Fed.addressed (h : store.Fed supplied) : store.writer.Addressed supplied := by
  obtain ⟨config, blobs, hblobs, hfed⟩ := h.fed
  clear h
  induction hfed with
  | start => exact hblobs
  | command command hmay _ ih =>
    rw [stateAfter_submit]
    exact execute_addressed (command.run_addressed hmay.2) ih
  | script script hmay _ ih =>
    have hknown := Command.allSupplied_subset fun command hmem => (hmay command hmem).2
    rw [executeScript_eq, ← stateAfter_execute]
    exact execute_addressed (Command.runAll_addressed script hknown) ih
  | besides hother _ ih => exact hother.addressed ih

theorem Fed.sourced (h : store.Fed supplied) :
    store.writer.database.tables.AllDescribe (·.SuppliedFrom supplied) := by
  obtain ⟨config, blobs, -, hfed⟩ := h.fed
  have hmade : (openWith config blobs).MadeBy (fun mutation => mutation.supplied ⊆ supplied) store :=
    hfed.mono (fun command hmay => ⟨hmay.1, fun mutation hmakes _ hmem => hmay.2 (command.supplied_of_makes hmakes hmem)⟩)
      fun _ _ => Besides.loosen
  refine (hmade.keeps (fun mutation => mutation.runs_sources) (fun before after haside hsourced => ?_) rfl healthy_empty
    (List.forall_mem_nil _)).2.2
  rwa [← haside]

theorem Fed.blob_ok (h : store.Fed supplied) {row : AttachmentRow} {attachment : Attachment}
    (hrow : row ∈ store.writer.database.tables.attachments) (heq : row = Tables.attachmentRow row.sequence attachment) :
    ∃ bytes, store.blob attachment.digest = .ok bytes ∧ Digest.of bytes = attachment.digest ∧
      (Digest.CollisionFree supplied → bytes.length = attachment.encodedLength) := by
  have hfound : ∀ other, row = Tables.attachmentRow row.sequence other → other = attachment := by
    intro other hother
    have hread := congrArg Tables.readAttachment (hother.symm.trans heq)
    rw [Tables.readAttachment_attachmentRow, Tables.readAttachment_attachmentRow] at hread
    exact Except.ok.inj hread
  obtain ⟨stocked, hstocked, -, hthere⟩ := h.networked.stocked.attachments row hrow
  obtain rfl := hfound stocked hstocked
  obtain ⟨bytes, hbytes⟩ := Option.isSome_iff_exists.mp hthere
  obtain ⟨hdigest, hmem⟩ := h.addressed stocked.digest bytes hbytes
  refine ⟨bytes, ?_, hdigest, fun hfree => ?_⟩
  · have hget : store.writer.blobs.find? stocked.digest = some bytes := hbytes
    rw [Store.blob, BlobStore.get, hget]
    rfl
  · -- The bytes may have been stored before the data that are described, under the same digest.
    obtain ⟨described, hdescribed, data, hdata, hof, hlength⟩ := h.sourced row hrow
    obtain rfl := hfound described hdescribed
    rw [hfree bytes hmem data hdata (hdigest.trans hof.symm), hlength]

theorem attachment_of_listed {doc : String} {rev : RevId} {attachments : List Attachment} {attachment : Attachment}
    {bytes : Bytes} (hattachments : store.attachments doc rev = .ok attachments)
    (hdistinct : (attachments.map (·.name)).Nodup) (hmem : attachment ∈ attachments)
    (hblob : store.blob attachment.digest = .ok bytes) :
    store.attachment doc rev attachment.name = .ok (attachment, bytes) := by
  have hfind : (attachments.find? fun other => other.name = attachment.name) = some attachment := by
    cases hfind : attachments.find? fun other => other.name = attachment.name with
    | none => simpa using List.find?_eq_none.mp hfind attachment hmem
    | some found =>
      have hname : found.name = attachment.name := by simpa using List.find?_some hfind
      rw [List.inj_on_of_nodup_map hdistinct (List.mem_of_find?_eq_some hfind) hmem hname]
  rw [Store.attachment, hattachments]
  simp only [bind, Except.bind, hfind, Store.expect, hblob]
  rfl

/-- Each attachment row has its data among the blobs, and of a stored revision exactly the listed attachments can be read, as many bytes as described if no two data supplied share a digest. -/
theorem Fed.backed (h : store.Fed supplied) :
    (∀ row ∈ store.writer.database.tables.attachments, ∃ digest bytes, row.digestText = digest.toHex ∧
      store.blob digest = .ok bytes ∧ Digest.of bytes = digest ∧
      (Digest.CollisionFree supplied → bytes.length = row.encodedLength)) ∧
    ∀ doc rev, store.containsRevision doc rev = .ok true →
      ∃ attachments, store.attachments doc rev = .ok attachments ∧
        (∀ name, (∃ found, store.attachment doc rev name = .ok found) ↔ name ∈ attachments.map (·.name)) ∧
        ∀ attachment ∈ attachments, ∃ bytes, store.attachment doc rev attachment.name = .ok (attachment, bytes) ∧
          Digest.of bytes = attachment.digest ∧
          (Digest.CollisionFree supplied → bytes.length = attachment.encodedLength) := by
  obtain ⟨-, healthy⟩ := h.networked.reachable.healthy
  have hopen := h.opened
  refine ⟨fun row hrow => ?_, fun doc rev hknown => ?_⟩
  · obtain ⟨attachment, heq⟩ := healthy.legible.attachments row hrow
    obtain ⟨bytes, hblob, hdigest, hlength⟩ := h.blob_ok hrow heq
    refine ⟨attachment.digest, bytes, congrArg AttachmentRow.digestText heq, hblob, hdigest, fun hfree => ?_⟩
    rw [hlength hfree, heq, AttachmentRow.encodedLength]
    exact (Column.unsigned_signed attachment.encodedLength).symm
  obtain ⟨known, hanswer, hiff⟩ := containsRevision_eq hopen doc rev
  obtain ⟨number, hnumber, bone, hbone, hdocument, htext⟩ := hiff.mp (Except.ok.inj (hanswer.symm.trans hknown))
  obtain ⟨row, hrow, rfl⟩ := Tables.mem_bones_iff.mp hbone
  obtain ⟨attachments, hread, hrows⟩ := healthy.legible.attachmentsFor_ok row.sequence
  have hattachments : store.attachments doc rev = .ok attachments :=
    attachments_of_row hopen healthy hnumber hrow hdocument htext hread
  have hfound : ∀ attachment ∈ attachments, ∃ bytes,
      store.attachment doc rev attachment.name = .ok (attachment, bytes) ∧ Digest.of bytes = attachment.digest ∧
        (Digest.CollisionFree supplied → bytes.length = attachment.encodedLength) := by
    intro attachment hmem
    have hstored := List.mem_of_mem_filter (hrows.subset (List.mem_map_of_mem hmem))
    obtain ⟨bytes, hblob, hdigest, hlength⟩ := h.blob_ok hstored rfl
    exact ⟨bytes, attachment_of_listed hattachments (healthy.nodup_names hread) hmem hblob, hdigest, hlength⟩
  refine ⟨attachments, hattachments, fun name => ⟨fun hanswer => ?_, fun hlisted => ?_⟩, hfound⟩
  · obtain ⟨found, hanswer⟩ := hanswer
    rw [Store.attachment, hattachments] at hanswer
    cases hfind : attachments.find? fun other => other.name = name with
    | none => simp [bind, Except.bind, hfind, Store.expect] at hanswer
    | some attachment =>
      have hname : attachment.name = name := by simpa using List.find?_some hfind
      exact List.mem_map.mpr ⟨attachment, List.mem_of_find?_eq_some hfind, hname⟩
  · obtain ⟨attachment, hmem, rfl⟩ := List.mem_map.mp hlisted
    obtain ⟨bytes, hanswer, -⟩ := hfound attachment hmem
    exact ⟨_, hanswer⟩

/-- A store whose blobs take two writes, of which the second one is kept although its group fails. -/
theorem backed_refused :
    let root : RevId := ⟨1, "a", by decide, by decide⟩
    let bring (doc : String) (data : Bytes) : Command :=
      .mutate (.graft { doc, history := [root], body := some Body.empty, attachments := [.plain "x" "text/plain" data] })
    let script : Script :=
      [bring "d" [1], .attempt (.transact [bring "e" [2], .fail .queueClosed]), .attempt (bring "f" [3])]
    let store := (executeScript script (openWith {} { budget := some 2 })).2
    (store.hasBlob [2] = true ∧ store.hasBlob [3] = false ∧
        (store.attachments "d" root).map (·.map (·.name)) = .ok ["x"]) ∧
      ∃ attachments, store.attachments "d" root = .ok attachments ∧
        ∀ attachment ∈ attachments, ∃ bytes, store.attachment "d" root attachment.name = .ok (attachment, bytes) ∧
          Digest.of bytes = attachment.digest ∧ bytes.length = attachment.encodedLength := by
  intro root bring script store
  have hmay : ∀ command ∈ script, command.Plain ∧ command.supplied ⊆ [[1], [2], [3]] := by
    simp [script, bring, Command.Plain, Command.AllPlain, Command.supplied, Command.allSupplied, Mutation.supplied,
      NewAttachment.plain]
  have hfed : store.Fed [[1], [2], [3]] :=
    ⟨by decide +kernel, {}, { budget := some 2 }, BlobStore.addressed_of_nil rfl, .script script hmay .start⟩
  have hfree : Digest.CollisionFree [[1], [2], [3]] := by decide +kernel
  have hknown : store.containsRevision "d" root = .ok true := by decide +kernel
  obtain ⟨-, hrevisions⟩ := hfed.backed
  obtain ⟨attachments, hattachments, -, hfound⟩ := hrevisions "d" root hknown
  refine ⟨by decide +kernel, attachments, hattachments, fun attachment hmem => ?_⟩
  obtain ⟨bytes, hanswer, hdigest, hlength⟩ := hfound attachment hmem
  exact ⟨bytes, hanswer, hdigest, hlength hfree⟩

end Store

end RevisionForest
