import RevisionForest.Proofs.Grafts
/-!
# Trees that peers share

An id names one revision on every peer: what is above it and whether it is a tombstone is the same for all (`Pedigree`). The tables of a peer mirror this tree if every row of a document hangs below the row of the id above it, and every row without a child is a tombstone exactly if its id is. Nothing is said of the flags of other rows, since an ancestor can have come as a stub; but an ancestor has a child and keeps it. So rows can be added wherever they hang right, and what was mirrored stays mirrored (`Mirrors.grow`).
-/

namespace RevisionForest

/-- What is above each id, and which ids are tombstones. -/
structure Pedigree where
  parent : RevId → Option RevId
  deleted : RevId → Bool

/-- A history from a root on that leaves out no id. -/
structure Pedigree.Line (tree : Pedigree) (history : List RevId) : Prop where
  root : ∀ rev, history.head? = some rev → tree.parent rev = none
  chain : history.IsChain fun older newer => tree.parent newer = some older

namespace Tables

/-- A document has a revision of this id. -/
def Stores (tables : Tables) (document : Int) (rev : RevId) : Prop :=
  ∃ bone ∈ tables.bones, bone.document = document ∧ bone.revText = rev.text

/-- A row of some document that stores `rev` joins the others by a step: from nothing if it has no parent, else from the id that its parent stores. -/
def Joins (tables : Tables) (step : Option RevId → RevId → Prop) (document : Int) (parent : Option Int) (rev : RevId) : Prop :=
  (step none rev ∧ parent = none) ∨
    ∃ older sequence, step (some older) rev ∧ parent = some sequence ∧
      tables.sequenceOf? document older = some sequence

/-- A row of some document that stores `rev` has the right parent: none if `rev` is a root, else the row of the id above. -/
def Hangs (tables : Tables) (tree : Pedigree) (document : Int) (parent : Option Int) (rev : RevId) : Prop :=
  (tree.parent rev = none ∧ parent = none) ∨
    ∃ older sequence, tree.parent rev = some older ∧ parent = some sequence ∧
      tables.sequenceOf? document older = some sequence

/-- The rows of a document stand as in the tree. -/
structure Mirrors (tables : Tables) (tree : Pedigree) (document : Int) : Prop where
  parents : ∀ bone ∈ tables.bones, bone.document = document → ∀ rev, bone.revText = rev.text →
    tables.Hangs tree document bone.parent rev
  flags : ∀ bone ∈ tables.bones, bone.document = document → ∀ rev, bone.revText = rev.text →
    bone.deleted = tree.deleted rev ∨ tables.isLeaf bone.sequence = false

variable {tables before after : Tables} {tree : Pedigree} {step : Option RevId → RevId → Prop} {document : Int}
  {parent : Option Int} {rev : RevId} {history missing : List RevId} {rows : List RevisionRow}
  {attachments : List AttachmentRow}

/-! ### Growth -/

theorem hangs_iff : tables.Hangs tree document parent rev ↔
    tables.Joins (fun above rev => tree.parent rev = above) document parent rev :=
  Iff.rfl

theorem Joins.mono (h : before.Joins step document parent rev) (hextends : before.Extends after) :
    after.Joins step document parent rev := by
  rcases h with hroot | ⟨older, sequence, habove, hparent, hstored⟩
  · exact .inl hroot
  · exact .inr ⟨older, sequence, habove, hparent, hextends.sequenceOf? hstored⟩

theorem Hangs.mono (h : before.Hangs tree document parent rev) (hextends : before.Extends after) :
    after.Hangs tree document parent rev :=
  hangs_iff.mpr ((hangs_iff.mp h).mono hextends)

/-- Rows that hang right, and have children or the right flags, can be added. -/
theorem Mirrors.grow (h : before.Mirrors tree document) (hgains : before.Gains after rows attachments)
    (hparents : ∀ row ∈ rows, row.document = document → ∀ rev, row.revText = rev.text →
      after.Hangs tree document row.parent rev)
    (hflags : ∀ row ∈ rows, row.document = document → ∀ rev, row.revText = rev.text →
      row.deleted = tree.deleted rev ∨ after.isLeaf row.sequence = false) : after.Mirrors tree document where
  parents := by
    intro bone hbone hhome rev htext
    rw [hgains.bones] at hbone
    rcases List.mem_append.mp hbone with hold | hnew
    · exact (h.parents bone hold hhome rev htext).mono hgains.extends
    · exact hparents bone hnew hhome rev htext
  flags := by
    intro bone hbone hhome rev htext
    rw [hgains.bones] at hbone
    rcases List.mem_append.mp hbone with hold | hnew
    · rcases h.flags bone hold hhome rev htext with hflag | hchild
      · exact .inl hflag
      · exact .inr (hgains.extends.isLeaf_eq_false hchild)
    · exact hflags bone hnew hhome rev htext

theorem mirrors_of_fresh (hfresh : ∀ bone ∈ tables.bones, bone.document ≠ document) : tables.Mirrors tree document where
  parents := fun bone hbone hhome => absurd hhome (hfresh bone hbone)
  flags := fun bone hbone hhome => absurd hhome (hfresh bone hbone)

/-! ### Stored ids -/

theorem stores_iff : tables.Stores document rev ↔ (tables.sequenceOf? document rev).isSome = true := by
  rw [sequenceOf?_eq_bones, Option.isSome_map, List.find?_isSome]
  simp only [Stores, Bool.and_eq_true, decide_eq_true_eq]

theorem Stores.of_sequence {sequence : Int} (h : tables.sequenceOf? document rev = some sequence) :
    tables.Stores document rev :=
  stores_iff.mpr (by rw [h]; rfl)

theorem Gains.stores_iff (h : before.Gains after rows attachments) :
    after.Stores document rev ↔
      before.Stores document rev ∨ ∃ row ∈ rows, row.document = document ∧ row.revText = rev.text := by
  simp only [Stores, h.bones, List.mem_append]
  constructor
  · rintro ⟨bone, hold | hnew, hrest⟩
    · exact .inl ⟨bone, hold, hrest⟩
    · exact .inr ⟨bone, hnew, hrest⟩
  · rintro (⟨bone, hold, hrest⟩ | ⟨bone, hnew, hrest⟩)
    · exact ⟨bone, .inl hold, hrest⟩
    · exact ⟨bone, .inr hnew, hrest⟩

theorem Mirrors.parent_stored {older : RevId} (h : tables.Mirrors tree document) (hstored : tables.Stores document rev)
    (habove : tree.parent rev = some older) : tables.Stores document older := by
  obtain ⟨bone, hbone, hhome, htext⟩ := hstored
  rcases h.parents bone hbone hhome rev htext with ⟨hroot, -⟩ | ⟨above, sequence, habove', -, hfound⟩
  · rw [habove] at hroot
    nomatch hroot
  · rw [habove] at habove'
    rw [Option.some.inj habove']
    exact .of_sequence hfound

/-- If the last id of a history is stored, so are all before it. -/
theorem Mirrors.history_stored (h : tables.Mirrors tree document)
    (hchain : history.IsChain fun older newer => tree.parent newer = some older) (hlast : history.getLast? = some rev)
    (hstored : tables.Stores document rev) : ∀ older ∈ history, tables.Stores document older := by
  induction history with
  | nil => exact fun older holder => absurd holder List.not_mem_nil
  | cons first rest ih =>
    cases rest with
    | nil =>
      intro older holder
      obtain rfl := Option.some.inj hlast
      rw [List.mem_singleton.mp holder]
      exact hstored
    | cons next rest =>
      obtain ⟨hstep, hchain⟩ := List.isChain_cons_cons.mp hchain
      have hrest := ih hchain (by rwa [List.getLast?_cons_cons] at hlast)
      have hfirst := h.parent_stored (hrest next List.mem_cons_self) hstep
      intro older holder
      rcases List.mem_cons.mp holder with rfl | holder
      · exact hfirst
      · exact hrest older holder

/-! ### Planting -/

theorem joins_stubRows {sequence : Int} (shape : tables.Shape)
    (hchain : (missing ++ [rev]).IsChain fun older newer => step (some older) newer)
    (hfirst : ∀ first, (missing ++ [rev]).head? = some first → tables.Joins step document parent first)
    (hrows : ∀ row ∈ stubRows document parent sequence missing, row ∈ tables.bones) :
    (∀ row ∈ stubRows document parent sequence missing, ∀ other, row.revText = other.text →
        tables.Joins step document row.parent other) ∧
      tables.Joins step document (lastStub parent sequence missing) rev := by
  induction missing generalizing parent sequence with
  | nil => exact ⟨fun row hrow => absurd hrow List.not_mem_nil, hfirst rev rfl⟩
  | cons stubbed rest ih =>
    have hstored : tables.sequenceOf? document stubbed = some sequence := by
      obtain ⟨row, hrow, hbare⟩ := mem_bones_iff.mp (hrows _ List.mem_cons_self)
      have hbare' : row.bare = ((stub document parent stubbed).row sequence).bare := hbare
      obtain ⟨hsequence, hhome, -, -, -, htext, -⟩ := RevisionRow.bare_eq_iff.mp hbare'
      exact shape.sequenceOf?_eq_some_iff.mpr ⟨row, hrow, hhome, htext, hsequence⟩
    have hnext : ∀ next, (rest ++ [rev]).head? = some next → tables.Joins step document (some sequence) next := by
      intro next hnext
      have hstep := (List.isChain_cons.mp hchain).1 next hnext
      exact .inr ⟨stubbed, sequence, hstep, rfl, hstored⟩
    obtain ⟨hlater, hlast⟩ := ih (List.isChain_cons.mp hchain).2 hnext fun row hrow =>
      hrows row (List.mem_cons_of_mem _ hrow)
    refine ⟨fun row hrow other htext => ?_, hlast⟩
    rcases List.mem_cons.mp hrow with rfl | hrow
    · obtain rfl := RevId.text_injective htext
      exact hfirst stubbed rfl
    · exact hlater row hrow other htext

theorem exists_child_of_stubRows {sequence : Int} {tip row : RevisionRow}
    (htip : tip.parent = lastStub parent sequence missing) (hrow : row ∈ stubRows document parent sequence missing) :
    ∃ child ∈ stubRows document parent sequence missing ++ [tip], child.parent = some row.sequence := by
  induction missing generalizing parent sequence with
  | nil => exact absurd hrow List.not_mem_nil
  | cons stubbed rest ih =>
    rcases List.mem_cons.mp hrow with rfl | hrow
    · cases rest with
      | nil => exact ⟨tip, List.mem_append_right _ (List.mem_singleton.mpr rfl), htip⟩
      | cons next rest => exact ⟨_, List.mem_append_left _ (List.mem_cons_of_mem _ List.mem_cons_self), rfl⟩
    · obtain ⟨child, hchild, hparent⟩ := ih htip hrow
      exact ⟨child, List.mem_cons_of_mem _ hchild, hparent⟩

/-! ### Documents by name -/

/-- The document of this name has a revision of this id. -/
def Knows (tables : Tables) (doc : String) (rev : RevId) : Prop :=
  ∃ number, tables.documentNumber? doc = some number ∧ tables.Stores number rev

/-- If there is a document of this name, it has a revision and mirrors the tree. -/
def Shows (tables : Tables) (tree : Pedigree) (doc : String) : Prop :=
  ∀ number, tables.documentNumber? doc = some number →
    tables.Mirrors tree number ∧ ∃ bone ∈ tables.bones, bone.document = number

variable {doc other : String} {number : Int} {opened : Tables}

theorem not_knows_of_absent (hnone : tables.documentNumber? doc = none) (rev : RevId) : ¬tables.Knows doc rev := by
  rintro ⟨number, hnumber, -⟩
  exact Option.some_ne_none number (hnumber.symm.trans hnone)

theorem shows_of_absent (hnone : tables.documentNumber? doc = none) (tree : Pedigree) : tables.Shows tree doc :=
  fun number hnumber => absurd (hnumber.symm.trans hnone) (Option.some_ne_none number)

theorem Gains.documentNumber? (h : before.Gains after rows attachments) (doc : String) :
    after.documentNumber? doc = before.documentNumber? doc := by
  simp only [Tables.documentNumber?, h.documents]

theorem Shape.doc_eq_of_number (shape : tables.Shape) (h : tables.documentNumber? doc = some number)
    (hother : tables.documentNumber? other = some number) : doc = other := by
  have hmem := shape.documentNumber?_eq_some_iff.mp h
  have hmem' := shape.documentNumber?_eq_some_iff.mp hother
  exact congrArg DocumentRow.id (List.inj_on_of_nodup_map shape.numbers hmem hmem' rfl)

theorem Gains.knows_iff (h : before.Gains after rows attachments) (shape : before.Shape)
    (hnumber : before.documentNumber? doc = some number) (hhome : ∀ row ∈ rows, row.document = number) :
    after.Knows other rev ↔ before.Knows other rev ∨ (other = doc ∧ ∃ row ∈ rows, row.revText = rev.text) := by
  simp only [Knows, h.documentNumber?, h.stores_iff]
  constructor
  · rintro ⟨found, hfound, hold | ⟨row, hrow, hdocument, htext⟩⟩
    · exact .inl ⟨found, hfound, hold⟩
    · rw [← hdocument, hhome row hrow] at hfound
      exact .inr ⟨shape.doc_eq_of_number hfound hnumber, row, hrow, htext⟩
  · rintro (⟨found, hfound, hold⟩ | ⟨rfl, row, hrow, htext⟩)
    · exact ⟨found, hfound, .inl hold⟩
    · exact ⟨number, hnumber, .inr ⟨row, hrow, hhome row hrow, htext⟩⟩

theorem Shows.beside (h : before.Shows tree other) (hgains : before.Gains after rows attachments)
    (shape : before.Shape) (hnumber : before.documentNumber? doc = some number)
    (hhome : ∀ row ∈ rows, row.document = number) (hne : other ≠ doc) : after.Shows tree other := by
  intro found hfound
  rw [hgains.documentNumber?] at hfound
  obtain ⟨hmirrors, bone, hbone, hdocument⟩ := h found hfound
  have hforeign : ∀ row ∈ rows, row.document ≠ found := by
    intro row hrow heq
    rw [← heq, hhome row hrow] at hfound
    exact hne (shape.doc_eq_of_number hfound hnumber)
  refine ⟨hmirrors.grow hgains ?_ ?_, bone, hgains.extends.bones.subset hbone, hdocument⟩
  · exact fun row hrow heq => absurd heq (hforeign row hrow)
  · exact fun row hrow heq => absurd heq (hforeign row hrow)

theorem Gains.shows (h : before.Gains after rows attachments) (shape : before.Shape)
    (hnumber : before.documentNumber? doc = some number) (hhome : ∀ row ∈ rows, row.document = number)
    (hsome : rows ≠ []) (hmirrors : after.Mirrors tree number) (hothers : other ≠ doc → before.Shows tree other) :
    after.Shows tree other := by
  by_cases heq : other = doc
  · intro found hfound
    rw [h.documentNumber?, heq, hnumber] at hfound
    obtain rfl := Option.some.inj hfound
    obtain ⟨row, hrow⟩ := List.exists_mem_of_ne_nil rows hsome
    exact ⟨hmirrors, row, h.bones ▸ List.mem_append_right _ hrow, hhome row hrow⟩
  · exact (hothers heq).beside h shape hnumber hhome heq

/-! ### Opening a document -/

theorem openTables_ok_iff :
    Edit.openTables doc tables = .ok number opened ↔
      (tables.documentNumber? doc = some number ∧ tables = opened) ∨
        ((isBlankId doc = false ∧ tables.documentNumber? doc = none) ∧ tables.lastNumber + 1 = number ∧
          tables.register doc = opened) := by
  unfold Edit.openTables
  cases hfound : tables.documentNumber? doc with
  | some found => simp
  | none => simp [insertDocument_ok_iff, hfound]

theorem openTables_of_free (hnamed : isBlankId doc = false) (hfree : tables.documentNumber? doc = none) :
    Edit.openTables doc tables = .ok (tables.lastNumber + 1) (tables.register doc) :=
  openTables_ok_iff.mpr (.inr ⟨⟨hnamed, hfree⟩, rfl, rfl⟩)

theorem documentNumber?_register (hne : other ≠ doc) :
    (tables.register doc).documentNumber? other = tables.documentNumber? other := by
  have hlast : decide (doc = other) = false := decide_eq_false (Ne.symm hne)
  simp only [Tables.documentNumber?, register, List.find?_append, List.find?_singleton, hlast]
  simp

theorem openTables_knows (shape : tables.Shape) (h : Edit.openTables doc tables = .ok number opened) (other : String)
    (rev : RevId) : opened.Knows other rev ↔ tables.Knows other rev := by
  rcases openTables_ok_iff.mp h with ⟨-, rfl⟩ | ⟨⟨-, hfree⟩, rfl, rfl⟩
  · exact Iff.rfl
  · by_cases heq : other = doc
    · subst heq
      constructor
      · rintro ⟨found, hfound, bone, hbone, hdocument, -⟩
        obtain ⟨row, hrow, rfl⟩ := Option.map_eq_some_iff.mp hfound
        have hid := List.find?_some hrow
        simp only [decide_eq_true_eq] at hid
        rcases List.mem_append.mp (List.mem_of_find?_eq_some hrow) with hold | hnew
        · exact absurd hid (documentNumber?_eq_none_iff.mp hfree row hold)
        · rw [List.mem_singleton.mp hnew] at hdocument
          exact absurd hdocument (shape.fresh_lastNumber bone hbone)
      · rintro ⟨found, hfound, -⟩
        rw [hfree] at hfound
        nomatch hfound
    · simp only [Knows, documentNumber?_register heq]
      rfl

theorem openTables_shows (tree : Pedigree) (shape : tables.Shape) (h : Edit.openTables doc tables = .ok number opened) :
    (∀ other, other ≠ doc → tables.Shows tree other → opened.Shows tree other) ∧
      (tables.Shows tree doc → opened.Mirrors tree number) := by
  rcases openTables_ok_iff.mp h with ⟨hnumber, rfl⟩ | ⟨-, rfl, rfl⟩
  · exact ⟨fun _ _ hshows => hshows, fun hshows => (hshows number hnumber).1⟩
  · refine ⟨fun other hne hshows found hfound => ?_, fun _ => mirrors_of_fresh shape.fresh_lastNumber⟩
    rw [documentNumber?_register hne] at hfound
    obtain ⟨⟨hparents, hflags⟩, hinhabited⟩ := hshows found hfound
    exact ⟨⟨hparents, hflags⟩, hinhabited⟩

end Tables

end RevisionForest
