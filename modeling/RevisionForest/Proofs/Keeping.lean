import RevisionForest.Proofs.Reachable
/-!
# What requests keep

A property of the tables is kept by all requests that are made of a store if the mutations in them keep it and local documents have no part in it (`Store.MadeBy.keeps`).
-/

namespace RevisionForest

/-- Healthy tables stay healthy and keep a property. -/
def Holdings.Keeping (P : Tables → Prop) (before after : Holdings) : Prop :=
  before.tables.Healthy → P before.tables → after.tables.Healthy ∧ P after.tables

variable {P : Tables → Prop}

theorem course_keeping (P : Tables → Prop) : Course (Holdings.Keeping P) where
  refl := fun _ _ _ _ _ healthy hholds => ⟨healthy, hholds⟩
  trans := by
    intro first second third hfirst hsecond healthy hholds
    obtain ⟨healthy', hholds'⟩ := hfirst healthy hholds
    exact hsecond healthy' hholds'

theorem Edit.Runs.imp {R R' : Holdings → Holdings → Prop} {α : Type} {work : Edit α} (hruns : work.Runs R)
    (h : ∀ before after, R before after → R' before after) : work.Runs R' :=
  ⟨hruns.1, fun draft value draft' hwork feed => h _ _ (hruns.2 draft value draft' hwork feed)⟩

theorem Covers.imp {R R' : Holdings → Holdings → Prop} (covers : Covers R) (course : Course R')
    (h : ∀ before after, R before after → R' before after) : Covers R' where
  toCourse := course
  create := fun doc body attachments hdoc hbody => (covers.create doc body attachments hdoc hbody).imp h
  update := fun doc expected body changes hbody hnames => (covers.update doc expected body changes hbody hnames).imp h
  bury := fun doc rev => (covers.bury doc rev).imp h
  graft := fun item hcheck => (covers.graft item hcheck).imp h

namespace Store

variable {may : Mutation → Prop} {start store : Store}

theorem MadeBy.keeps (h : start.MadeBy may store)
    (hruns : ∀ mutation, may mutation → ∀ holdings, mutation.Runs (Holdings.Keeping P) holdings)
    (haside : ∀ before after : Tables, before.Aside after → P before → P after) (hrest : start.AtRest)
    (healthy : start.writer.database.tables.Healthy) (hstart : P start.writer.database.tables) :
    store.AtRest ∧ store.writer.database.tables.Healthy ∧ P store.writer.database.tables := by
  have course := course_keeping P
  have hcommand : ∀ command : Command, (command.Plain ∧ ∀ mutation, command.Makes mutation → may mutation) →
      Action.Follows (Holdings.Keeping P) command.run := fun command hmay =>
    command.run_follows_of course hmay.1 fun mutation hmakes => hruns mutation (hmay.2 mutation hmakes)
  have hbesides : ∀ store after : Store, store.Besides True after → store.AtRest →
      after.AtRest ∧ Holdings.Keeping P store.writer.holdings after.writer.holdings := by
    intro store after hother hbetween
    obtain ⟨hafter, hleft, -⟩ := hother.aside hbetween
    exact ⟨hafter, fun healthy hholds => ⟨hleft.healthy healthy, haside _ _ hleft hholds⟩⟩
  obtain ⟨hafter, hkept⟩ := h.follows course hcommand hbesides hrest
  exact ⟨hafter, hkept healthy hstart⟩

/-- What all edits keep, and local documents leave alone, is kept whatever is asked of a store. -/
theorem Onward.keeps (h : start.Onward store) (covers : Covers (Holdings.Keeping P))
    (haside : ∀ before after : Tables, before.Aside after → P before → P after) (hrest : start.AtRest)
    (healthy : start.writer.database.tables.Healthy) (hstart : P start.writer.database.tables) :
    P store.writer.database.tables := by
  have hmade : start.MadeBy (fun _ => True) store := h.mono (fun _ hplain => ⟨hplain, fun _ _ => trivial⟩) fun _ _ => id
  exact (hmade.keeps (fun mutation _ => covers.runs mutation) haside hrest healthy hstart).2.2

end Store

end RevisionForest
