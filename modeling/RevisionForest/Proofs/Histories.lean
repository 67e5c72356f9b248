import RevisionForest.Proofs.Lineage
/-!
# Histories grow at their end

The history of a stored revision is read off the rows without their flags, from its own row backwards. Rows that are added behind do not change it (`Extends.revisionHistory_eq`), and the history of a new row is what stands above it and then its own id (`Trunk.revisionHistory_eq`). So a branch, which is a chain of stubs with a tip below them, continues the history that it hangs off by its own ids (`Trunk.branch`).
-/

namespace RevisionForest

namespace Tables

variable {tables before after : Tables} {doc : String} {rev older : RevId} {sequence number : Int}
  {list newer : List RevisionRow} {row above bone tip : RevisionRow} {parent : Option Int} {missing history : List RevId}

/-! ### Lines of rows -/

theorem map_bare_lineage (sequence : Int) (list : List RevisionRow) :
    (lineage sequence list).map (·.bare) = lineage sequence (list.map (·.bare)) := by
  induction list generalizing sequence with
  | nil => rfl
  | cons row older ih =>
    have hsame : row.bare.sequence = row.sequence ∧ row.bare.parent = row.parent := ⟨rfl, rfl⟩
    rw [List.map_cons, lineage, lineage, hsame.1, hsame.2]
    split
    · cases row.parent with
      | none => rfl
      | some parent => simp only [List.map_append, ih, List.map_cons, List.map_nil]
    · exact ih sequence

theorem lineage_append_of_ne (h : ∀ row ∈ newer, row.sequence ≠ sequence) :
    lineage sequence (newer ++ list) = lineage sequence list := by
  induction newer with
  | nil => rfl
  | cons row rest ih =>
    obtain ⟨hne, hrest⟩ := List.forall_mem_cons.mp h
    rw [List.cons_append, lineage, if_neg hne, ih hrest]

theorem lineage_root (hsorted : list.Pairwise fun newer older => older.sequence < newer.sequence) (hrow : row ∈ list)
    (hparent : row.parent = none) : lineage row.sequence list = [row] := by
  induction list with
  | nil => exact absurd hrow List.not_mem_nil
  | cons newest older ih =>
    obtain ⟨hbelow, hsorted⟩ := List.pairwise_cons.mp hsorted
    rcases List.mem_cons.mp hrow with rfl | hrow
    · rw [lineage, if_pos rfl, hparent]
    · have hlt := hbelow row hrow
      rw [lineage, if_neg (by omega), ih hsorted hrow]

theorem lineage_below (hsorted : list.Pairwise fun newer older => older.sequence < newer.sequence) (hrow : row ∈ list)
    (habove : above ∈ list) (hparent : row.parent = some above.sequence) (hlt : above.sequence < row.sequence) :
    lineage row.sequence list = lineage above.sequence list ++ [row] := by
  induction list with
  | nil => exact absurd hrow List.not_mem_nil
  | cons newest older ih =>
    obtain ⟨hbelow, hsorted⟩ := List.pairwise_cons.mp hsorted
    rcases List.mem_cons.mp hrow with rfl | hrow
    · rw [lineage, lineage, if_pos rfl, if_neg (by omega), hparent]
    · have hnewest := hbelow row hrow
      have holder : above ∈ older := by
        rcases List.mem_cons.mp habove with rfl | holder
        · omega
        · exact holder
      rw [lineage, lineage, if_neg (by omega), if_neg (by omega)]
      exact ih hsorted hrow holder

/-! ### Histories -/

theorem revisionHistory_eq_bones (hplace : tables.place? doc rev = some sequence) :
    tables.revisionHistory doc rev
      = (lineage sequence tables.bones.reverse).mapM fun row => readStored (RevId.parse row.revText) := by
  obtain ⟨number, hnumber, hsequence⟩ := place?_eq_some_iff.mp hplace
  rw [bones, ← List.map_reverse, ← map_bare_lineage, List.mapM_map]
  simp only [revisionHistory, hnumber, hsequence]
  rfl

theorem Shape.ascending_bones (shape : tables.Shape) :
    tables.bones.reverse.Pairwise fun newer older => older.sequence < newer.sequence := by
  rw [List.pairwise_reverse, bones, List.pairwise_map]
  exact shape.ascending

theorem Shape.place?_of_bone (shape : tables.Shape) (hbone : bone ∈ tables.bones)
    (hnumber : tables.documentNumber? doc = some bone.document) (htext : bone.revText = rev.text) :
    tables.place? doc rev = some bone.sequence := by
  obtain ⟨row, hrow, rfl⟩ := mem_bones_iff.mp hbone
  exact place?_eq_some_iff.mpr ⟨_, hnumber, shape.sequenceOf?_eq_some_iff.mpr ⟨row, hrow, rfl, htext, rfl⟩⟩

theorem Shape.exists_bone_at (shape : tables.Shape) (hplace : tables.place? doc rev = some sequence) :
    ∃ bone ∈ tables.bones, bone.sequence = sequence := by
  obtain ⟨_, -, hsequence⟩ := place?_eq_some_iff.mp hplace
  obtain ⟨row, hrow, -, -, rfl⟩ := shape.sequenceOf?_eq_some_iff.mp hsequence
  exact ⟨row.bare, mem_bones_iff.mpr ⟨row, hrow, rfl⟩, rfl⟩

theorem Extends.revisionHistory_eq (h : before.Extends after) (shape : before.Shape) (shape' : after.Shape)
    (hplace : before.place? doc rev = some sequence) : after.revisionHistory doc rev = before.revisionHistory doc rev := by
  rw [revisionHistory_eq_bones hplace, revisionHistory_eq_bones (h.place? hplace)]
  obtain ⟨rows, hrows⟩ := h.bones
  obtain ⟨bone, hbone, rfl⟩ := shape.exists_bone_at hplace
  have hascending := shape'.ascending_bones
  rw [← hrows, List.reverse_append] at hascending ⊢
  rw [lineage_append_of_ne]
  intro row hrow
  have hlt := (List.pairwise_append.mp hascending).2.2 row hrow bone (List.mem_reverse.mpr hbone)
  omega

/-- A place for a row: at the root, or below a stored revision with this history. -/
inductive Trunk (tables : Tables) (doc : String) : Option Int → List RevId → Prop
  | root : Trunk tables doc none []
  | below {older : RevId} {sequence : Int} {history : List RevId} (hplace : tables.place? doc older = some sequence)
    (hread : tables.revisionHistory doc older = .ok history) : Trunk tables doc (some sequence) history

theorem Trunk.mono (h : before.Trunk doc parent history) (hextends : before.Extends after) (shape : before.Shape)
    (shape' : after.Shape) : after.Trunk doc parent history := by
  cases h with
  | root => exact .root
  | below hplace hread =>
    exact .below (hextends.place? hplace) ((hextends.revisionHistory_eq shape shape' hplace).trans hread)

theorem Trunk.revisionHistory_eq (h : tables.Trunk doc bone.parent history) (healthy : tables.Healthy)
    (hbone : bone ∈ tables.bones) (hnumber : tables.documentNumber? doc = some bone.document)
    (htext : bone.revText = rev.text) : tables.revisionHistory doc rev = .ok (history ++ [rev]) := by
  have hread : readStored (RevId.parse bone.revText) = .ok rev := by
    obtain ⟨row, hrow, rfl⟩ := mem_bones_iff.mp hbone
    have hreads := healthy.legible.reads hrow htext
    rw [readStored_ok_iff, htext, RevId.parse_text hreads.2]
  have hsorted := healthy.shape.ascending_bones
  have hmem := List.mem_reverse.mpr hbone
  rw [revisionHistory_eq_bones (healthy.shape.place?_of_bone hbone hnumber htext)]
  generalize hparent : bone.parent = parent at h
  cases h with
  | root =>
    rw [lineage_root hsorted hmem hparent, List.mapM_cons, hread]
    rfl
  | @below older sequence history habove hhistory =>
    obtain ⟨above, hmem', rfl⟩ := healthy.shape.exists_bone_at habove
    have hlt : above.sequence < bone.sequence := by
      obtain ⟨row, hrow, rfl⟩ := mem_bones_iff.mp hbone
      exact (healthy.shape.parents row hrow _ hparent).1
    rw [revisionHistory_eq_bones habove] at hhistory
    rw [lineage_below hsorted hmem (List.mem_reverse.mpr hmem') hparent hlt, List.mapM_append, hhistory, List.mapM_cons,
      hread]
    rfl

/-- The history of the tip of a branch is what the branch hangs off, then its stubs, then the tip. -/
theorem Trunk.branch (h : tables.Trunk doc parent history) (healthy : tables.Healthy)
    (hnumber : tables.documentNumber? doc = some number)
    (hbranch : ∀ row ∈ stubRows number parent sequence missing ++ [tip], row ∈ tables.bones) (hhome : tip.document = number)
    (htext : tip.revText = rev.text) (hparent : tip.parent = lastStub parent sequence missing) :
    tables.revisionHistory doc rev = .ok (history ++ missing ++ [rev]) := by
  induction missing generalizing parent sequence history with
  | nil =>
    have habove : tables.Trunk doc tip.parent history := hparent ▸ h
    rw [List.append_nil]
    exact habove.revisionHistory_eq healthy (hbranch tip (List.mem_singleton.mpr rfl)) (hhome ▸ hnumber) htext
  | cons stubbed rest ih =>
    obtain ⟨hstub, hrest⟩ := List.forall_mem_cons.mp hbranch
    have hplace : tables.place? doc stubbed = some sequence := healthy.shape.place?_of_bone hstub hnumber rfl
    have hnext := Trunk.below hplace (h.revisionHistory_eq healthy hstub hnumber rfl)
    simpa using ih hnext hrest hparent

end Tables

end RevisionForest
