import RevisionForest.Proofs.Idempotence
import RevisionForest.Proofs.Views
/-!
# When a graft connects its history

A graft plants the ids after the deepest one that is known, each below the one before, and never changes the parent of a revision that is there. So an id that came first of a truncated history, and was stored without a parent, stays cut off from what is above it, and a later graft that goes through it does not look beyond it. This is the only way in which a history can stay in pieces: a graft whose history does not contradict the stored parents leaves all of it stored, each id as the parent of the next, exactly if no id of it but the first was stored without a parent before (`Store.Reachable.graft_connects`).
-/

namespace RevisionForest

theorem isChain_and {α : Type} {first second : α → α → Prop} {list : List α} (h : list.IsChain first)
    (h' : list.IsChain second) : list.IsChain fun older newer => first older newer ∧ second older newer := by
  induction h with
  | nil => exact .nil
  | singleton item => exact .singleton item
  | cons_cons hstep _ ih =>
    obtain ⟨hstep', hrest⟩ := List.isChain_cons_cons.mp h'
    exact .cons_cons ⟨hstep, hstep'⟩ (ih hrest)

theorem exists_before {α : Type} {relation : α → α → Prop} {list : List α} {newer : α} (h : list.IsChain relation)
    (hnewer : newer ∈ list.tail) : ∃ older ∈ list, relation older newer := by
  induction h with
  | nil => nomatch hnewer
  | singleton item => nomatch hnewer
  | @cons_cons older next rest hstep _ ih =>
    rcases List.mem_cons.mp hnewer with rfl | hrest
    · exact ⟨older, List.mem_cons_self, hstep⟩
    · obtain ⟨between, hbetween, hrelated⟩ := ih hrest
      exact ⟨between, List.mem_cons_of_mem _ hbetween, hrelated⟩

namespace Graft

variable {history : List RevId} {older other newer : RevId}

theorem eq_of_generation (hgap : gap? history = none) (holder : older ∈ history) (hother : other ∈ history)
    (h : older.generation = other.generation) : older = other := by
  by_contra hne
  have hdistinct : history.Pairwise fun older newer => older.generation ≠ newer.generation :=
    (ascending_of_gap? hgap).imp Nat.ne_of_lt
  have hsymm : Std.Symm fun older newer : RevId => older.generation ≠ newer.generation := ⟨fun _ _ => Ne.symm⟩
  exact hdistinct.forall holder hother hne h

/-- What a history says of an id: that it is the first, or what comes right before it. -/
def Says (history : List RevId) : Option RevId → RevId → Prop
  | none, newer => history.head? = some newer
  | some older, newer => older ∈ history ∧ newer.generation = older.generation + 1

theorem says_chain (hgap : gap? history = none) : history.IsChain fun older newer => Says history (some older) newer :=
  (gap?_eq_none_iff.mp hgap).imp_of_mem_imp fun _ _ holder _ hstep => ⟨holder, hstep⟩

theorem not_head_of_tail (hgap : gap? history = none) (hnewer : newer ∈ history.tail) : history.head? ≠ some newer := by
  intro hhead
  cases history with
  | nil => nomatch hhead
  | cons first rest =>
    obtain rfl := Option.some.inj hhead
    exact Nat.lt_irrefl _ ((List.pairwise_cons.mp (ascending_of_gap? hgap)).1 first hnewer)

end Graft

namespace Tables

variable {tables before after : Tables} {doc : String} {rev older : RevId} {number sequence : Int} {row : RevisionRow}
  {history prior missing : List RevId}

/-- Every id of a history is stored, and each is the stored parent of the next. -/
def Connects (tables : Tables) (doc : String) (history : List RevId) : Prop :=
  (∀ rev ∈ history, tables.Knows doc rev) ∧ history.IsChain fun older newer => tables.parentRev? doc newer = some older

/-- A history does not contradict the stored parents. -/
def Tolerates (tables : Tables) (doc : String) (history : List RevId) : Prop :=
  history.IsChain fun older newer => ∀ above ∈ tables.parentRev? doc newer, above = older

instance (tables : Tables) (doc : String) (rev : RevId) : Decidable (tables.Knows doc rev) :=
  decidable_of_iff _ knows_iff_any

instance (tables : Tables) (doc : String) (history : List RevId) : Decidable (tables.Connects doc history) :=
  inferInstanceAs (Decidable (_ ∧ _))

instance (tables : Tables) (doc : String) (history : List RevId) : Decidable (tables.Tolerates doc history) :=
  inferInstanceAs (Decidable (List.IsChain _ _))

/-! ### Stored parents -/

theorem Healthy.parentRev?_of_parent (healthy : tables.Healthy) (hnumber : tables.documentNumber? doc = some number)
    (hrow : row ∈ tables.revisions) (hdocument : row.document = number) (htext : row.revText = rev.text)
    (hparent : row.parent = some sequence) (hfound : tables.sequenceOf? number older = some sequence) :
    tables.parentRev? doc rev = some older := by
  obtain ⟨above, habove, -, hname, hsequence⟩ := healthy.shape.sequenceOf?_eq_some_iff.mp hfound
  have hreads := healthy.legible.reads habove hname
  rw [healthy.shape.parentRev?_eq hnumber hrow hdocument htext, hparent, Option.bind_some,
    healthy.shape.rowAt?_eq_some_iff.mpr ⟨habove, hsequence⟩, Option.bind_some, hname, RevId.parse?_text older hreads.2]

theorem Healthy.parent_cases (healthy : tables.Healthy) (hnumber : tables.documentNumber? doc = some number)
    (hrow : row ∈ tables.revisions) (hdocument : row.document = number) (htext : row.revText = rev.text) :
    (row.parent = none ∧ tables.parentRev? doc rev = none) ∨
      ∃ older sequence, row.parent = some sequence ∧ tables.sequenceOf? number older = some sequence ∧
        tables.parentRev? doc rev = some older := by
  cases hparent : row.parent with
  | none =>
    refine .inl ⟨rfl, ?_⟩
    rw [healthy.shape.parentRev?_eq hnumber hrow hdocument htext, hparent]
    rfl
  | some sequence =>
    obtain ⟨-, above, habove, hsequence, hhome⟩ := healthy.shape.parents row hrow sequence hparent
    obtain ⟨older, hreads⟩ := healthy.legible.revisions above habove
    have hfound : tables.sequenceOf? number older = some sequence :=
      healthy.shape.sequenceOf?_eq_some_iff.mpr ⟨above, habove, hhome.trans hdocument, hreads.1, hsequence⟩
    exact .inr ⟨older, sequence, rfl, hfound,
      healthy.parentRev?_of_parent hnumber hrow hdocument htext hparent hfound⟩

theorem Knows.exists_row (h : tables.Knows doc rev) :
    ∃ number row, tables.documentNumber? doc = some number ∧ row ∈ tables.revisions ∧ row.document = number ∧
      row.revText = rev.text := by
  obtain ⟨number, hnumber, bone, hbone, hdocument, htext⟩ := h
  obtain ⟨row, hrow, rfl⟩ := mem_bones_iff.mp hbone
  exact ⟨number, row, hnumber, hrow, hdocument, htext⟩

theorem Healthy.knows_parent (healthy : tables.Healthy) (h : tables.parentRev? doc rev = some older) :
    tables.Knows doc older := by
  by_cases hknows : tables.Knows doc rev
  · obtain ⟨number, row, hnumber, hrow, hdocument, htext⟩ := hknows.exists_row
    rcases healthy.parent_cases hnumber hrow hdocument htext with ⟨-, hnone⟩ | ⟨stored, sequence, -, hfound, hsome⟩
    · exact absurd (hnone.symm.trans h) (Option.some_ne_none _).symm
    · obtain rfl := Option.some.inj (hsome.symm.trans h)
      exact ⟨number, hnumber, .of_sequence hfound⟩
  · exact absurd ((parentRev?_eq_none hknows).symm.trans h) (Option.some_ne_none _).symm

theorem Extends.parentRev?_eq (h : before.Extends after) (healthy : before.Healthy) (healthy' : after.Healthy)
    (hknows : before.Knows doc rev) : after.parentRev? doc rev = before.parentRev? doc rev := by
  obtain ⟨number, row, hnumber, hrow, hdocument, htext⟩ := hknows.exists_row
  obtain ⟨kept, hkept, hbare⟩ := h.exists_row hrow
  obtain ⟨-, hhome, hparent, -, -, hname, -⟩ := RevisionRow.bare_eq_iff.mp hbare
  have hnumber' := h.documentNumber? hnumber
  rcases healthy.parent_cases hnumber hrow hdocument htext with ⟨hroot, hnone⟩ | ⟨older, sequence, hsome, hfound, habove⟩
  · rw [healthy'.shape.parentRev?_eq hnumber' hkept (hhome.trans hdocument) (hname.trans htext), hparent, hroot, hnone]
    rfl
  · rw [habove]
    exact healthy'.parentRev?_of_parent hnumber' hkept (hhome.trans hdocument) (hname.trans htext) (hparent.trans hsome)
      (h.sequenceOf? hfound)

theorem Healthy.knows_line (healthy : tables.Healthy) (hlast : prior.getLast? = some rev) (hknows : tables.Knows doc rev)
    (hfits : prior.IsChain fun older newer => tables.Knows doc newer → tables.parentRev? doc newer = some older) :
    ∀ other ∈ prior, tables.Knows doc other := by
  induction prior with
  | nil => exact fun other hother => absurd hother List.not_mem_nil
  | cons first rest ih =>
    cases rest with
    | nil =>
      intro other hother
      obtain rfl := Option.some.inj hlast
      rwa [List.mem_singleton.mp hother]
    | cons next rest =>
      obtain ⟨hstep, hchain⟩ := List.isChain_cons_cons.mp hfits
      have hrest := ih (by rwa [List.getLast?_cons_cons] at hlast) hchain
      have hfirst := healthy.knows_parent (hstep (hrest next List.mem_cons_self))
      intro other hother
      rcases List.mem_cons.mp hother with rfl | hother
      · exact hfirst
      · exact hrest other hother

/-! ### New rows -/

variable {step : Option RevId → RevId → Prop} {parent : Option Int} {tip : RevisionRow} {attachments : List AttachmentRow}
  {leaf : RevId}

theorem Healthy.joins_cases (healthy : tables.Healthy) (hnumber : tables.documentNumber? doc = some number)
    (hrow : row ∈ tables.revisions) (hdocument : row.document = number) (htext : row.revText = rev.text)
    (h : tables.Joins step number row.parent rev) :
    step none rev ∨ ∃ older, step (some older) rev ∧ tables.parentRev? doc rev = some older := by
  rcases h with ⟨hroot, -⟩ | ⟨older, sequence, hstep, hparent, hfound⟩
  · exact .inl hroot
  · exact .inr ⟨older, hstep, healthy.parentRev?_of_parent hnumber hrow hdocument htext hparent hfound⟩

theorem Gains.branch (hgains : before.Gains after (stubRows number parent sequence missing ++ [tip]) attachments)
    (healthy : after.Healthy) (hnumber : after.documentNumber? doc = some number) (hhome : tip.document = number)
    (hparent : tip.parent = lastStub parent sequence missing) (htext : tip.revText = leaf.text)
    (hchain : (missing ++ [leaf]).IsChain fun older newer => step (some older) newer)
    (hfirst : ∀ first, (missing ++ [leaf]).head? = some first → before.Joins step number parent first) :
    ∀ rev ∈ missing ++ [leaf], after.Knows doc rev ∧
      (step none rev ∨ ∃ older, step (some older) rev ∧ after.parentRev? doc rev = some older) := by
  intro rev hrev
  have hadded : ∀ row ∈ stubRows number parent sequence missing ++ [tip], row ∈ after.bones := by
    intro row hrow
    rw [hgains.bones]
    exact List.mem_append_right _ hrow
  obtain ⟨hstubs, htip⟩ := joins_stubRows healthy.shape hchain
    (fun first hhead => (hfirst first hhead).mono hgains.extends) fun row hrow => hadded row (List.mem_append_left _ hrow)
  obtain ⟨bone, hbone, hname⟩ := (exists_mem_branch_iff htext).mpr hrev
  obtain ⟨row, hrow, rfl⟩ := mem_bones_iff.mp (hadded bone hbone)
  have hdocument : row.document = number := document_of_mem_branch hhome row.bare hbone
  have hjoins : after.Joins step number row.parent rev := by
    rcases List.mem_append.mp hbone with hstub | hlast
    · exact hstubs row.bare hstub rev hname
    · have hsame : row.bare = tip := List.mem_singleton.mp hlast
      obtain rfl := RevId.text_injective ((hsame ▸ htext : row.bare.revText = leaf.text).symm.trans hname)
      have habove : row.parent = lastStub parent sequence missing := (congrArg RevisionRow.parent hsame).trans hparent
      exact habove ▸ htip
  exact ⟨⟨number, hnumber, row.bare, mem_bones_iff.mpr ⟨row, hrow, rfl⟩, hdocument, hname⟩,
    healthy.joins_cases hnumber hrow hdocument hname hjoins⟩

end Tables

namespace Edit

open Tables

variable {draft draft' : Draft} {item : Graft} {found : Option Revision}

/-- A graft stores what comes after the deepest known id of its history, each id below the one before it. -/
theorem graft_branch (healthy : draft.tables.Healthy) (hcheck : item.check = .ok ()) (h : graft item draft = .ok found draft') :
    ∃ prior fresh, prior ++ fresh = item.history ∧
      (prior = [] ∨ ∃ known, prior.getLast? = some known ∧ draft.tables.Knows item.doc known) ∧
      ∀ rev ∈ fresh, draft'.tables.Knows item.doc rev ∧
        (Graft.Says item.history none rev ∨
          ∃ older, Graft.Says item.history (some older) rev ∧ draft'.tables.parentRev? item.doc rev = some older) := by
  have hgap := (Graft.check_ok_iff.mp hcheck).2.2.1
  obtain ⟨rev, number, opened, ⟨hrev, hopen, healthy'⟩, hcases⟩ := graft_effect healthy hgap h
  obtain ⟨hopened, hnumber, -⟩ := openTables_ok healthy hopen
  have hknows := openTables_knows healthy.shape hopen item.doc
  rcases hcases with ⟨hthere, -, -, -⟩ | ⟨-, -, hgains⟩
  · have hknown : draft.tables.Knows item.doc rev := (hknows rev).mp ⟨number, hnumber, stores_iff.mpr hthere⟩
    exact ⟨item.history, [], List.append_nil _, .inr ⟨rev, hrev, hknown⟩, fun other hother => absurd hother List.not_mem_nil⟩
  · obtain ⟨prior, hsplit, hdeepest⟩ := exists_prior (opened.sequenceOf? number) hrev
    have hhome := (hgains.documentNumber? item.doc).trans hnumber
    refine ⟨prior, _, hsplit, ?_, And.elim (hgains.branch healthy' hhome rfl rfl rfl)
      (joins_missing (Graft.Says item.history) (Graft.says_chain hgap) (fun first hhead => hhead) hrev)⟩
    rcases hdeepest with ⟨-, hnil⟩ | ⟨known, sequence, hlast, hfound, -⟩
    · exact .inl hnil
    · exact .inr ⟨known, hlast, (hknows known).mp ⟨number, hnumber, .of_sequence hfound⟩⟩

/-- A history that does not contradict the stored parents comes to be connected exactly if no id of it but the first was stored without a parent. -/
theorem connects_iff (healthy : draft.tables.Healthy) (hcheck : item.check = .ok ()) (h : graft item draft = .ok found draft')
    (htolerates : draft.tables.Tolerates item.doc item.history) :
    draft'.tables.Connects item.doc item.history ↔
      ∀ rev ∈ item.history.tail, draft.tables.Knows item.doc rev → draft.tables.parentRev? item.doc rev ≠ none := by
  obtain ⟨healthy', hextends⟩ := (covers_sound.graft item hcheck).2 draft found draft' h { limit := 0 } healthy
  have hkept : ∀ rev, draft.tables.Knows item.doc rev →
      draft'.tables.parentRev? item.doc rev = draft.tables.parentRev? item.doc rev :=
    fun rev hknown => hextends.parentRev?_eq healthy healthy' hknown
  constructor
  · rintro ⟨-, hchain⟩ rev hrev hknown hroot
    obtain ⟨older, -, habove⟩ := exists_before hchain hrev
    rw [hkept rev hknown, hroot] at habove
    nomatch habove
  · intro hrooted
    have hgap := (Graft.check_ok_iff.mp hcheck).2.2.1
    obtain ⟨prior, fresh, hsplit, hprior, hfresh⟩ := graft_branch healthy hcheck h
    have hfits : item.history.IsChain fun older newer =>
        draft.tables.Knows item.doc newer → draft.tables.parentRev? item.doc newer = some older := by
      refine htolerates.imp_of_mem_tail_imp fun older newer _ hnewer htolerated hknown => ?_
      obtain ⟨above, habove⟩ := Option.ne_none_iff_exists'.mp (hrooted newer hnewer hknown)
      rw [habove, htolerated above habove]
    have hold : ∀ rev ∈ prior, draft.tables.Knows item.doc rev := by
      rcases hprior with rfl | ⟨known, hlast, hknown⟩
      · exact fun rev hrev => absurd hrev List.not_mem_nil
      · rw [← hsplit] at hfits
        exact healthy.knows_line hlast hknown hfits.left_of_append
    refine ⟨fun rev hrev => ?_, ?_⟩
    · rw [← hsplit] at hrev
      rcases List.mem_append.mp hrev with hthere | hnew
      · exact hextends.knows (hold rev hthere)
      · exact (hfresh rev hnew).1
    · refine (isChain_and (Graft.gap?_eq_none_iff.mp hgap) hfits).imp_of_mem_tail_imp
        fun older newer holder hnewer ⟨hstep, hfit⟩ => ?_
      by_cases hknown : draft.tables.Knows item.doc newer
      · rw [hkept newer hknown, hfit hknown]
      · -- A new id hangs below what the history says comes before it, and that is one id.
        have hnew : newer ∈ fresh := by
          have hmem := List.mem_of_mem_tail hnewer
          rw [← hsplit] at hmem
          exact (List.mem_append.mp hmem).resolve_left fun hthere => hknown (hold newer hthere)
        rcases (hfresh newer hnew).2 with hfirst | ⟨above, ⟨habove, hnext⟩, hparent⟩
        · exact absurd hfirst (Graft.not_head_of_tail hgap hnewer)
        · rw [hparent, Graft.eq_of_generation hgap habove holder (Nat.succ.inj (hnext.symm.trans hstep))]

end Edit

namespace Store

variable {store after : Store} {item : Graft} {found : Option Revision}

/-- A graft that does not contradict what is stored leaves its whole history stored, each id as the parent of the next, exactly if no id of it but the first was stored without a parent. -/
theorem Reachable.graft_connects (h : store.Reachable) (hgraft : graft item store = .ok found after)
    (htolerates : store.writer.database.tables.Tolerates item.doc item.history) :
    after.writer.database.tables.Connects item.doc item.history ↔
      ∀ rev ∈ item.history.tail, store.writer.database.tables.Knows item.doc rev →
        store.writer.database.tables.parentRev? item.doc rev ≠ none := by
  obtain ⟨-, healthy⟩ := h.healthy
  obtain ⟨-, writer, hrun, -, rfl⟩ := execute_ok_iff.mp hgraft
  obtain ⟨_, _, hpassed, hlevel⟩ := ok_bind_iff.mp hrun
  obtain ⟨hcheck, rfl⟩ := Action.check_ok_iff.mp hpassed
  obtain ⟨draft, hedit, hsame⟩ := Action.transact_edit_ok (Edit.graft_grows item) hlevel
  have htables : writer.database.tables = draft.tables := congrArg Holdings.tables hsame
  rw [htables]
  exact Edit.connects_iff healthy hcheck hedit htolerates

/-- A history that goes on from one that was known in full is connected. -/
theorem graft_connects_longer :
    let older : RevId := ⟨1, "a", by decide, by decide⟩
    let newer : RevId := ⟨2, "b", by decide, by decide⟩
    let item : Graft :=
      { doc := "d", history := [older, newer, ⟨3, "c", by decide, by decide⟩, ⟨4, "d", by decide, by decide⟩] }
    let store := stateAfter (graftAll [{ doc := "d", history := [older, newer] }]) (new {})
    (stateAfter (graft item) store).writer.database.tables.Connects "d" item.history := by
  intro older newer item store
  have hreachable : store.Reachable := ⟨by decide +kernel, {}, {}, Onward.graftAll _ .start⟩
  obtain ⟨found, hgraft⟩ := exists_ok_of_succeeds (show succeeds (graft item) store = true by decide +kernel)
  exact (hreachable.graft_connects hgraft (by decide +kernel)).mpr (by decide +kernel)

/-- The first and the third id of a line were stored without parents, so a graft of the whole line plants nothing between the two. -/
theorem graft_leaves_gap :
    let first : RevId := ⟨1, "a", by decide, by decide⟩
    let second : RevId := ⟨2, "b", by decide, by decide⟩
    let third : RevId := ⟨3, "c", by decide, by decide⟩
    let fourth : RevId := ⟨4, "d", by decide, by decide⟩
    let plain (history : List RevId) : Graft := { doc := "d", history, body := some Body.empty }
    let item := plain [first, second, third, fourth]
    let store := stateAfter (graftAll [plain [first], plain [third]]) (new {})
    store.Reachable ∧ store.writer.database.tables.Tolerates "d" item.history ∧
      ∃ found after, graft item store = .ok found after ∧
        ¬after.writer.database.tables.Connects "d" item.history ∧
        ¬after.writer.database.tables.Knows "d" second ∧ after.writer.database.tables.parentRev? "d" third = none ∧
        after.revisionHistory "d" fourth = .ok [third, fourth] := by
  intro first second third fourth plain item store
  have hreachable : store.Reachable := ⟨by decide +kernel, {}, {}, Onward.graftAll _ .start⟩
  obtain ⟨found, hgraft⟩ := exists_ok_of_succeeds (show succeeds (graft item) store = true by decide +kernel)
  exact ⟨hreachable, by decide +kernel, found, _, hgraft, by decide +kernel, by decide +kernel, by decide +kernel,
    by decide +kernel⟩

end Store

end RevisionForest
