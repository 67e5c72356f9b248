import RevisionForest.Proofs.Ranking
import Mathlib.Data.List.Nodup
/-!
# The last of the best

The rank compares printed ids, and the order of ids compares a generation and a suffix. Ids of one generation are printed with the same text in front of their suffixes, so both come to the same (`Leaf.rank_eq`). The election therefore looks for a maximum of one total preorder, and of several leaves that no other outranks it takes the last (`Election.Prevails`). That determines the winner (`Prevails.unique`), so a leaf that is not elected can be left out without a trace, and where ids do not repeat there is only one leaf that no other outranks, wherever it stands.
-/

namespace RevisionForest

open Std

/-! ### The rank -/

namespace Leaf

theorem compare_text {left right : RevId} (h : left.generation = right.generation) :
    compare left.text right.text = compare left.suffix right.suffix := by
  have hequal : left.text = right.text ↔ left.suffix = right.suffix :=
    ⟨fun htext => congrArg RevId.suffix (RevId.text_injective htext), fun hsuffix => by rw [RevId.text, RevId.text, h, hsuffix]⟩
  change compareOfLessAndEq left.text right.text = compareOfLessAndEq left.suffix right.suffix
  simp only [compareOfLessAndEq, text_lt_iff h, hequal]

theorem rank_eq (left right : Leaf) :
    left.rank right = (compare (!left.deleted) (!right.deleted)).then (compare left.rev right.rev) := by
  have hkind : compare right.deleted left.deleted = compare (!left.deleted) (!right.deleted) := by
    cases left.deleted <;> cases right.deleted <;> rfl
  have hrev : (compare left.rev.generation right.rev.generation).then (compare left.rev.text right.rev.text)
      = compare left.rev right.rev := by
    change _ = (compare left.rev.generation right.rev.generation).then (compare left.rev.suffix right.rev.suffix)
    cases hgeneration : compare left.rev.generation right.rev.generation with
    | lt => rfl
    | gt => rfl
    | eq => exact compare_text (Nat.compare_eq_eq.mp hgeneration)
  rw [rank, hkind, hrev]

end Leaf

namespace Election

variable {leaves leaves' before after : List Leaf} {leaf winner winner' : Leaf}

/-! ### The leaf that is elected -/

namespace Prevails

/-- Of two leaves in one list, both prevailing, the later one would outrank the earlier one and be outranked by none. -/
theorem unique (h : Prevails leaves winner) (h' : Prevails leaves winner') : winner = winner' := by
  have hlater : ∀ {winner winner' : Leaf}, Prevails leaves winner' → winner ∈ leaves → winner'.rank winner ≠ .lt := by
    intro winner winner' hprevails hmem hlt
    exact hprevails.rank_ne_gt hmem (OrientedCmp.gt_iff_lt.mpr hlt)
  have hmem := h.mem
  have hmem' := h'.mem
  obtain ⟨before, after, heq, -, hafter⟩ := id h
  obtain ⟨before', after', heq', -, hafter'⟩ := id h'
  rcases List.append_eq_append_iff.mp (heq.symm.trans heq') with ⟨between, -, htail⟩ | ⟨between, -, htail⟩
  · cases between with
    | nil => exact (List.cons.inj htail).1
    | cons first between =>
      obtain ⟨-, rfl⟩ := List.cons.inj htail
      exact absurd (hafter winner' (List.mem_append_right between List.mem_cons_self)) (hlater h' hmem)
  · cases between with
    | nil => exact (List.cons.inj htail).1.symm
    | cons first between =>
      obtain ⟨-, rfl⟩ := List.cons.inj htail
      exact absurd (hafter' winner (List.mem_append_right between List.mem_cons_self)) (hlater h hmem')

theorem erase (h : Prevails (before ++ leaf :: after) winner) : winner = leaf ∨ Prevails (before ++ after) winner := by
  obtain ⟨front, back, heq, hfront, hback⟩ := h
  rcases List.append_eq_append_iff.mp heq with ⟨between, rfl, htail⟩ | ⟨between, rfl, htail⟩
  · cases between with
    | nil => exact .inl (List.cons.inj htail).1.symm
    | cons first between =>
      obtain ⟨rfl, rfl⟩ := List.cons.inj htail
      refine .inr ⟨before ++ between, back, (List.append_assoc ..).symm, fun other hother => hfront other ?_, hback⟩
      rcases List.mem_append.mp hother with hmem | hmem
      · exact List.mem_append_left _ hmem
      · exact List.mem_append_right _ (List.mem_cons_of_mem _ hmem)
  · cases between with
    | nil => exact .inl (List.cons.inj htail).1
    | cons first between =>
      obtain ⟨rfl, rfl⟩ := List.cons.inj htail
      refine .inr ⟨front, between ++ after, List.append_assoc .., hfront, fun other hother => hback other ?_⟩
      rcases List.mem_append.mp hother with hmem | hmem
      · exact List.mem_append_left _ hmem
      · exact List.mem_append_right _ (List.mem_cons_of_mem _ hmem)

end Prevails

theorem winner?_eq_some_iff : winner? leaves = some winner ↔ Prevails leaves winner := by
  refine ⟨winner?_prevails, fun h => ?_⟩
  cases helected : winner? leaves with
  | none => exact absurd (winner?_eq_none.mp helected ▸ h.mem) List.not_mem_nil
  | some elected => rw [(winner?_prevails helected).unique h]

theorem winner?_insert (before after : List Leaf) (leaf : Leaf) :
    winner? (before ++ leaf :: after) = some leaf ∨ winner? (before ++ leaf :: after) = winner? (before ++ after) := by
  cases helected : winner? (before ++ leaf :: after) with
  | none => exact absurd (winner?_eq_none.mp helected) (by simp)
  | some winner =>
    rcases (winner?_eq_some_iff.mp helected).erase with rfl | hprevails
    · exact .inl rfl
    · exact .inr (winner?_eq_some_iff.mpr hprevails).symm

theorem winner?_perm (hperm : leaves.Perm leaves') (hids : (leaves.map (·.rev)).Nodup) :
    winner? leaves = winner? leaves' := by
  cases helected : winner? leaves with
  | none =>
    rw [winner?_eq_none.mp helected] at hperm
    exact (winner?_eq_none.mpr hperm.nil_eq.symm).symm
  | some winner =>
    symm
    refine winner?_eq_some (hperm.subset (winner?_mem helected)) fun leaf hleaf hne => Leaf.rank_eq_lt_iff.mpr ?_
    refine winner?_outranks helected (fun other hother heq => ?_) (hperm.mem_iff.mpr hleaf) hne
    exact List.inj_on_of_nodup_map hids hother (winner?_mem helected) heq

/-- The winner is the last of the leaves that no other outranks, in a total preorder by which live leaves come before tombstones and then ids stand in their own order. -/
theorem elects_maximum :
    (∀ leaves, winner? leaves = none ↔ leaves = []) ∧
    (∀ leaves winner, winner? leaves = some winner ↔ Prevails leaves winner) ∧
    TransCmp Leaf.rank ∧
    (∀ left right : Leaf, left.rank right = (compare (!left.deleted) (!right.deleted)).then (compare left.rev right.rev)) ∧
    (∀ leaves leaves', leaves.Perm leaves' → (leaves.map (·.rev)).Nodup → winner? leaves = winner? leaves') ∧
    ∀ before after leaf, winner? (before ++ leaf :: after) = some leaf ∨
      winner? (before ++ leaf :: after) = winner? (before ++ after) :=
  ⟨fun _ => winner?_eq_none, fun _ _ => winner?_eq_some_iff, inferInstance, Leaf.rank_eq,
    fun _ _ => winner?_perm, winner?_insert⟩

/-- A tombstone of a later generation loses against both live leaves, and of these the greater suffix wins from the front as from the back. -/
theorem elects_maximum_reversed :
    let lesser : Leaf := ⟨1, ⟨9, "a", by decide, by decide⟩, false⟩
    let greater : Leaf := ⟨2, ⟨9, "b", by decide, by decide⟩, false⟩
    let buried : Leaf := ⟨3, ⟨10, "c", by decide, by decide⟩, true⟩
    [lesser, greater, buried].Perm [greater, buried, lesser] ∧ ([lesser, greater, buried].map (·.rev)).Nodup ∧
      winner? [lesser, greater, buried] = some greater ∧ winner? [greater, buried, lesser] = some greater := by
  intro lesser greater buried
  have hperm : [lesser, greater, buried].Perm [greater, buried, lesser] := by decide +kernel
  have hids : ([lesser, greater, buried].map (·.rev)).Nodup := by decide +kernel
  have helected : winner? [lesser, greater, buried] = some greater := by decide +kernel
  obtain ⟨-, -, -, -, horder, -⟩ := elects_maximum
  exact ⟨hperm, hids, helected, (horder _ _ hperm hids).symm.trans helected⟩

end Election

end RevisionForest
