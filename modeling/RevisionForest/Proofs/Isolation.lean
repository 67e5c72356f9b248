import RevisionForest.Proofs.TwinStores
/-!
# Documents do not interfere

All documents of a store share one counter of sequences, one table of revisions, one column of parents and one of flags. Still none of them can be told from the history of another: run some errands, and run only those of them that concern one document, and these errands are answered the same, the document and its tree look the same (`Store.Resembles`), and the same was announced of it, up to a renaming that keeps the order of the sequences. The answers about local documents are those of a run without any other errands (`Errand.isolated`).

The data of attachments are shared as well, under their digests. Those of one document are the same in both runs unless two different data that were ever supplied have one digest.
-/

namespace RevisionForest

variable {doc : String} {names : Renaming} {feed : Feed} {store store' : Store} {known : List Bytes}

namespace Store

/-! ### Reads of twins -/

theorem Twin.ask_agree {α β : Type} {values : α → β → Prop} {question : Tables → Tables.Query α}
    {question' : Tables → Tables.Query β} (twin : store.Twin doc names feed store')
    (h : Agree values (question store.writer.database.tables) (question' store'.writer.database.tables)) :
    Agree values (store.ask question) (store'.ask question') := by
  unfold ask
  rw [twin.equipped.opened, twin.equipped'.opened]
  exact h.mapError _

theorem expect_agree {α β : Type} {values : α → β → Prop} {found : Option α} {found' : Option β}
    (h : Option.Rel values found found') (missing : Missing) : Agree values (expect found missing) (expect found' missing) := by
  cases h with
  | some hvalues => exact .ok hvalues
  | none => exact .error _

theorem Twin.read_agree (twin : store.Twin doc names feed store') (rev : Option RevId) :
    Agree (Revision.Renamed names) (store.read doc rev) (store'.read doc rev) := by
  cases rev with
  | some rev => exact (twin.ask_agree (twin.tables.getRevision_agree rev)).bind fun _ _ hfound => expect_agree hfound _
  | none => exact (twin.ask_agree twin.tables.currentRevision_agree).bind fun _ _ hfound => expect_agree hfound _

theorem Twin.leaves_agree (twin : store.Twin doc names feed store') :
    Agree (List.Forall₂ (Revision.Renamed names)) (store.leaves doc) (store'.leaves doc) := by
  refine (twin.ask_agree twin.tables.leafRevisions_agree).bind fun leaves leaves' hleaves => ?_
  cases hleaves with
  | nil => exact .error _
  | cons hfirst hrest => exact .ok (.cons hfirst hrest)

theorem Twin.isConflicted_eq (twin : store.Twin doc names feed store') :
    store.isConflicted doc = store'.isConflicted doc := by
  have hnumber : Agree (Option.Rel names.number) (store.ask fun tables => .ok (tables.documentNumber? doc))
      (store'.ask fun tables => .ok (tables.documentNumber? doc)) := twin.ask_agree (.ok twin.tables.found)
  have hanswer : Agree Eq (store.isConflicted doc) (store'.isConflicted doc) := by
    refine hnumber.bind fun found found' hfound => (expect_agree hfound _).bind fun number number' h => ?_
    refine (twin.ask_agree (twin.tables.leaves_agree h)).bind fun leaves leaves' hleaves => .ok ?_
    have hlive : List.Forall₂ (Leaf.Renamed names) (leaves.filter fun leaf => !leaf.deleted)
        (leaves'.filter fun leaf => !leaf.deleted) := by
      refine filter_rel hleaves ?_
      rintro leaf _ ⟨-⟩
      rfl
    rw [Election.isConflicted, Election.isConflicted, List.countP_eq_length_filter, List.countP_eq_length_filter,
      hlive.length_eq]
  exact hanswer.eq

theorem Twin.revisionHistory_eq (twin : store.Twin doc names feed store') (rev : RevId) :
    store.revisionHistory doc rev = store'.revisionHistory doc rev :=
  (twin.ask_agree (twin.tables.revisionHistory_agree rev)).eq

/-! ### Data of attachments -/

theorem getRevision_of_read {rev : RevId} {revision : Revision} (h : store.read doc (some rev) = .ok revision) :
    store.writer.database.tables.getRevision doc rev = .ok (some revision) := by
  obtain ⟨found, hask, hexpect⟩ := except_bind_ok_iff.mp h
  unfold ask at hask
  split at hask
  · nomatch hask
  cases found with
  | none => nomatch hexpect
  | some found =>
    obtain rfl := Except.ok.inj hexpect
    exact mapError_ok_iff.mp hask

theorem Equipped.blob_ok {rev : RevId} {revision : Revision} {attachment : Attachment} (equipped : store.Equipped)
    (haddressed : store.writer.Addressed known) (hread : store.read doc (some rev) = .ok revision)
    (hmem : attachment ∈ revision.attachments) :
    ∃ bytes ∈ known, Digest.of bytes = attachment.digest ∧ store.blob attachment.digest = .ok bytes := by
  have hget := getRevision_of_read hread
  cases hnumber : store.writer.database.tables.documentNumber? doc with
  | none =>
    unfold Tables.getRevision Tables.select at hget
    rw [hnumber] at hget
    nomatch hget
  | some number =>
    obtain ⟨row, -, -, -, hrevision⟩ := Tables.getRevision_ok_some hnumber hget
    obtain ⟨attachments, _, hattachments, -, rfl⟩ := Tables.readRevision_ok_iff.mp hrevision
    have hstocked := (equipped.stocked.attachmentsFor equipped.healthy hattachments).1 attachment hmem
    obtain ⟨bytes, hfind⟩ := Option.isSome_iff_exists.mp hstocked.2
    obtain ⟨hdigest, hknown⟩ := haddressed attachment.digest bytes hfind
    have hstored : store.writer.blobs.find? attachment.digest = some bytes := hfind
    exact ⟨bytes, hknown, hdigest, by rw [blob, BlobStore.get, hstored]; rfl⟩

theorem Twin.attachment_eq (twin : store.Twin doc names feed store') (haddressed : store.writer.Addressed known)
    (haddressed' : store'.writer.Addressed known) (hfree : Digest.CollisionFree known) (rev : RevId) (name : String) :
    store.attachment doc rev name = store'.attachment doc rev name := by
  have hread := twin.read_agree (some rev)
  unfold attachment attachments
  generalize hfound : store.read doc (some rev) = found at hread
  generalize hfound' : store'.read doc (some rev) = found' at hread
  cases hread with
  | error error => rfl
  | @ok revision revision' hrenamed =>
    obtain ⟨-, -, -⟩ := hrenamed
    cases hnamed : revision.attachments.find? fun attachment => attachment.name = name with
    | none => simp [bind, Except.bind, pure, Except.pure, hnamed, expect]
    | some attachment =>
      have hmem := List.mem_of_find?_eq_some hnamed
      obtain ⟨bytes, hknown, hdigest, hblob⟩ := twin.equipped.blob_ok haddressed hfound hmem
      obtain ⟨bytes', hknown', hdigest', hblob'⟩ := twin.equipped'.blob_ok haddressed' hfound' hmem
      obtain rfl := hfree bytes hknown bytes' hknown' (hdigest.trans hdigest'.symm)
      simp [bind, Except.bind, pure, Except.pure, hnamed, expect, hblob, hblob']

/-! ### Events -/

theorem drain_observed {config : Config} {blobs : BlobStore} {events : List ChangeEvent}
    (h : store.writer.feed = (observed config blobs).writer.feed.publish events) : (store.drain 0 none).1 = events := by
  have hheard : store.writer.feed.find? 0 = some ⟨0, none, events, true, true⟩ := by
    rw [h, Feed.find?_publish]
    exact congrArg some (Subscriber.foldl_deliver_of_open _ rfl rfl rfl events)
  simp only [drain, Feed.drain_of_find? hheard]

/-- A document looks the same in both stores, up to the renaming: its revisions with their places in the tree, their flags, bodies and attachments, its winner, its leaves and its histories, and what the first subscriber was told of it. -/
structure Resembles (doc : String) (names : Renaming) (store store' : Store) : Prop where
  revisions : Agree (List.Forall₂ (Revision.Renamed names)) (store.ask (·.select doc fun _ => true))
    (store'.ask (·.select doc fun _ => true))
  read : ∀ rev, Agree (Revision.Renamed names) (store.read doc rev) (store'.read doc rev)
  leaves : Agree (List.Forall₂ (Revision.Renamed names)) (store.leaves doc) (store'.leaves doc)
  conflicted : store.isConflicted doc = store'.isConflicted doc
  history : ∀ rev, store.revisionHistory doc rev = store'.revisionHistory doc rev
  events : List.Forall₂ (ChangeEvent.Renamed doc names) ((store.drain 0 none).1.filter (·.doc = doc))
    (store'.drain 0 none).1

theorem Twin.resembles {config : Config} {blobs : BlobStore}
    (twin : store.Twin doc names (observed config blobs).writer.feed store') : store.Resembles doc names store' where
  revisions := twin.ask_agree (twin.tables.select_agree fun _ _ _ => rfl)
  read := twin.read_agree
  leaves := twin.leaves_agree
  conflicted := twin.isConflicted_eq
  history := twin.revisionHistory_eq
  events := by
    obtain ⟨events, events', hfeed, hfeed', hevents⟩ := twin.published
    rw [drain_observed hfeed, drain_observed hfeed']
    exact hevents

/-! ### From the beginning -/

variable {config : Config} {blobs : BlobStore}

theorem equipped_observed (hunlimited : blobs.budget = none) : (observed config blobs).Equipped where
  opened := rfl
  rest := rfl
  healthy := healthy_empty
  unlimited := hunlimited
  stocked := ⟨List.forall_mem_nil _, List.forall_mem_nil _⟩

theorem twin_observed (doc : String) (hunlimited : blobs.budget = none) :
    (observed config blobs).Twin doc ⟨fun _ _ => False, fun _ _ => False⟩ (observed config blobs).writer.feed
      (observed config blobs) where
  equipped := equipped_observed hunlimited
  equipped' := equipped_observed hunlimited
  tables :=
    { shape := Tables.shape_empty
      shape' := Tables.shape_empty
      fertile := rfl
      fertile' := rfl
      found := .none
      known := fun _ _ h => h.elim
      rows := fun _ _ h => h.elim
      placed := fun _ _ h => h.elim
      ordered := fun _ _ _ _ h => h.elim
      described := fun _ _ h => h.elim }
  published := ⟨[], [], (Feed.publish_nil _).symm, (Feed.publish_nil _).symm, .nil⟩

end Store

namespace Errand

open Store

/-- What is answered about one document, and what becomes of it, is what it would be if nothing else had been asked, up to a renaming of its numbers. -/
theorem isolated (config : Config) (blobs : List (Digest × Bytes)) (run : List Errand) :
    let start := observed config { blobs }
    let whole := attemptEach run start
    (∀ doc,
      let sole := attemptEach (run.filter (·.concerns doc)) start
      (∃ names : Renaming, names.Ordered ∧
        List.Forall₂ (Entry.Renamed names) (whole.1.filter (·.errand.concerns doc)) sole.1 ∧
        whole.2.Resembles doc names sole.2) ∧
      ∀ known, BlobStore.Addressed known { blobs } → (∀ errand ∈ run, errand.supplied ⊆ known) →
        Digest.CollisionFree known → ∀ rev name, whole.2.attachment doc rev name = sole.2.attachment doc rev name) ∧
    whole.1.filter (·.errand.isLocal) = (attemptEach (run.filter (·.isLocal)) start).1 := by
  intro start whole
  have equipped : start.Equipped := equipped_observed rfl
  refine ⟨fun doc => ?_, LocalTwin.attemptEach ⟨equipped, equipped, rfl⟩ run⟩
  intro sole
  obtain ⟨names, -, hlog, twin⟩ := (twin_observed doc rfl : start.Twin doc _ start.writer.feed start).attemptEach run
  refine ⟨⟨names, twin.tables.names_ordered, hlog, twin.resembles⟩, fun known haddressed hsupplied hfree rev name => ?_⟩
  have hkeeps : ∀ errand ∈ run, Keeps (fun store => store.writer.Addressed known) errand.run := fun errand hmem =>
    errand.run_addressed (hsupplied errand hmem)
  have hwhole : whole.2.writer.Addressed known := attemptEach_keeps hkeeps haddressed
  have hsole : sole.2.writer.Addressed known :=
    attemptEach_keeps (fun errand hmem => hkeeps errand (List.mem_of_mem_filter hmem)) haddressed
  exact twin.attachment_eq hwhole hsole hfree rev name

/-- The second document of a run has greater numbers than it would have alone, and the same data. -/
theorem isolated_second :
    let create (doc : String) (data : Bytes) : Errand :=
      .mutate (.create (some doc) Body.empty [.plain "x" "text/plain" data]) doc rfl
    let whole := attemptEach [create "e" [1], .putLocal "l" Body.empty, create "d" [2], .getLocal "l"] (observed {} {})
    let sole := attemptEach [create "d" [2]] (observed {} {})
    (∃ names : Renaming, names.Ordered ∧ names.number 2 1 ∧ names.sequence 2 1) ∧
      ∀ rev name, whole.2.attachment "d" rev name = sole.2.attachment "d" rev name := by
  intro create whole sole
  obtain ⟨hdocuments, -⟩ :=
    isolated {} [] [create "e" [1], .putLocal "l" Body.empty, create "d" [2], .getLocal "l"]
  obtain ⟨⟨names, hordered, -, hresembles⟩, hdata⟩ := hdocuments "d"
  have hread : Agree (Revision.Renamed names) (whole.2.read "d" none) (sole.2.read "d" none) := hresembles.read none
  have hwhole : (whole.2.read "d" none).map (fun revision => (revision.number, revision.sequence)) = .ok (2, 2) := by
    decide +kernel
  have hsole : (sole.2.read "d" none).map (fun revision => (revision.number, revision.sequence)) = .ok (1, 1) := by
    decide +kernel
  generalize whole.2.read "d" none = found at hread hwhole
  generalize sole.2.read "d" none = found' at hread hsole
  refine ⟨⟨names, hordered, ?_⟩, hdata [[1], [2]] (BlobStore.addressed_of_nil rfl) (by decide) (by decide +kernel)⟩
  cases hread with
  | error error => nomatch hwhole
  | ok hrenamed =>
    obtain ⟨hnumber, hsequence, -⟩ := hrenamed
    obtain ⟨hnumber2, hsequence2⟩ := Prod.mk.inj (Except.ok.inj hwhole)
    obtain ⟨hnumber1, hsequence1⟩ := Prod.mk.inj (Except.ok.inj hsole)
    exact ⟨hnumber2 ▸ hnumber1 ▸ hnumber, hsequence2 ▸ hsequence1 ▸ hsequence⟩

end Errand

end RevisionForest
