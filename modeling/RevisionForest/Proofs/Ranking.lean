import RevisionForest.Election
import Mathlib.Tactic.Common
/-!
# The election is a maximum

`Leaf.rank` compares the printed ids of two leaves, but a printed id is its generation, a dash and its suffix, so among leaves of one generation it compares suffixes (`rank_eq_lt_iff`). The rank is a total preorder in which only leaves of one id and one kind are level; the election folds `better` over a list. What the fold carries is not outranked by what it met before, and it is given up for any leaf that it does not outrank, so what comes out is the last leaf of the list that no other leaf outranks (`foldl_better_prevails`). Where ids do not repeat, that leaf is determined by the ids and kinds alone, in whatever order the leaves stand (`winner?_rev_eq`).
-/

namespace RevisionForest

open Std

namespace RevId

theorem text_toList (rev : RevId) :
    rev.text.toList = Nat.toDigits 10 rev.generation ++ '-' :: rev.suffix.toList :=
  toList_partsText rev.generation rev.suffix

/-- The generation ends at the first dash, so a printed id is printed by one id only. -/
theorem text_injective {left right : RevId} (h : left.text = right.text) : left = right := by
  have hlist := congrArg String.toList h
  rw [text_toList, text_toList] at hlist
  have hdash : ∀ rev : RevId, ∀ c ∈ Nat.toDigits 10 rev.generation, decide (c ≠ '-') = true := by
    intro rev c hc
    have hdigit := isDigit_of_mem_toDigits hc
    apply decide_eq_true
    intro heq
    subst heq
    exact absurd hdigit (by decide)
  have htake := congrArg (List.takeWhile (· ≠ '-')) hlist
  have hdrop := congrArg (List.dropWhile (· ≠ '-')) hlist
  rw [List.takeWhile_append_of_pos (hdash left), List.takeWhile_append_of_pos (hdash right)] at htake
  rw [List.dropWhile_append_of_pos (hdash left), List.dropWhile_append_of_pos (hdash right)] at hdrop
  simp only [ne_eq, not_true_eq_false, decide_false, Bool.false_eq_true, not_false_eq_true,
    List.takeWhile_cons_of_neg, List.append_nil] at htake
  simp only [ne_eq, not_true_eq_false, decide_false, Bool.false_eq_true, not_false_eq_true,
    List.dropWhile_cons_of_neg, List.cons.injEq, true_and] at hdrop
  have hgeneration : left.generation = right.generation := by
    have := congrArg (fun digits => Nat.ofDigitChars 10 digits 0) htake
    simpa only [Nat.ofDigitChars_toDigits (b := 10) (by decide) (by decide)] using this
  cases left
  cases right
  simp only [RevId.mk.injEq]
  exact ⟨hgeneration, String.toList_injective hdrop⟩

end RevId

namespace Leaf

/-- A live leaf outranks every tombstone; among leaves of one kind a higher generation outranks a lower one, and within a generation the greater suffix outranks the smaller. -/
def Outranks (better worse : Leaf) : Prop :=
  (better.deleted = false ∧ worse.deleted = true) ∨
    (better.deleted = worse.deleted ∧
      (worse.rev.generation < better.rev.generation ∨
        (worse.rev.generation = better.rev.generation ∧ worse.rev.suffix < better.rev.suffix)))

instance : TransCmp rank :=
  inferInstanceAs (TransCmp (compareLex (fun left right : Leaf => compareOn Leaf.deleted right left)
    (compareLex (compareOn fun leaf => leaf.rev.generation) (compareOn fun leaf => leaf.rev.text))))

theorem rank_eq_eq {left right : Leaf} (h : left.rank right = .eq) :
    left.deleted = right.deleted ∧ left.rev = right.rev := by
  simp only [rank, Ordering.then_eq_eq, LawfulEqOrd.compare_eq_iff_eq] at h
  exact ⟨h.1.symm, RevId.text_injective h.2.2⟩

theorem rank_congr {left left' right right' : Leaf} (hleft : left.deleted = left'.deleted ∧ left.rev = left'.rev)
    (hright : right.deleted = right'.deleted ∧ right.rev = right'.rev) : left.rank right = left'.rank right' := by
  simp only [rank, hleft.1, hleft.2, hright.1, hright.2]

theorem text_lt_iff {left right : RevId} (h : left.generation = right.generation) :
    left.text < right.text ↔ left.suffix < right.suffix := by
  have hstem : ∀ stem left right : List Char, stem ++ left < stem ++ right ↔ left < right := by
    intro stem left right
    induction stem with
    | nil => exact Iff.rfl
    | cons c stem ih => simp [ih]
  change left.text.toList < right.text.toList ↔ left.suffix.toList < right.suffix.toList
  rw [RevId.text_toList, RevId.text_toList, h, hstem, List.cons_lt_cons_self]

theorem rank_eq_lt_iff {worse better : Leaf} : worse.rank better = .lt ↔ better.Outranks worse := by
  have hkind : compare better.deleted worse.deleted = .lt ↔ better.deleted = false ∧ worse.deleted = true := by
    cases better.deleted <;> cases worse.deleted <;> decide
  simp only [rank, Outranks, Ordering.then_eq_lt, hkind, LawfulEqOrd.compare_eq_iff_eq, Nat.compare_eq_lt]
  refine or_congr Iff.rfl (and_congr Iff.rfl (or_congr Iff.rfl ?_))
  apply and_congr_right
  intro hgeneration
  rw [← text_lt_iff hgeneration]
  exact compareOfLessAndEq_eq_lt

end Leaf

namespace Election

variable {leaves leaves' : List Leaf} {leaf next winner winner' : Leaf}

/-! ### The last of the leaves that no other outranks -/

/-- No leaf of the list outranks this one, and it outranks those behind it. -/
def Prevails (leaves : List Leaf) (winner : Leaf) : Prop :=
  ∃ before after, leaves = before ++ winner :: after ∧ (∀ leaf ∈ before, leaf.rank winner ≠ .gt) ∧
    ∀ leaf ∈ after, leaf.rank winner = .lt

namespace Prevails

theorem mem (h : Prevails leaves winner) : winner ∈ leaves := by
  obtain ⟨before, after, rfl, -, -⟩ := h
  exact List.mem_append_right before List.mem_cons_self

theorem rank_ne_gt (h : Prevails leaves winner) (hleaf : leaf ∈ leaves) : leaf.rank winner ≠ .gt := by
  obtain ⟨before, after, rfl, hbefore, hafter⟩ := h
  rcases List.mem_append.mp hleaf with hmem | hmem
  · exact hbefore leaf hmem
  · rcases List.mem_cons.mp hmem with rfl | hmem
    · exact Ordering.isLE_iff_ne_gt.mp ReflCmp.isLE_rfl
    · rw [hafter leaf hmem]
      decide

theorem single (leaf : Leaf) : Prevails [leaf] leaf :=
  ⟨[], [], rfl, fun _ h => absurd h List.not_mem_nil, fun _ h => absurd h List.not_mem_nil⟩

theorem cons (h : Prevails leaves winner) (hrank : leaf.rank winner ≠ .gt) : Prevails (leaf :: leaves) winner := by
  obtain ⟨before, after, rfl, hbefore, hafter⟩ := h
  exact ⟨leaf :: before, after, rfl, List.forall_mem_cons.mpr ⟨hrank, hbefore⟩, hafter⟩

theorem insert (h : Prevails (leaf :: leaves) winner) (hrank : next.rank leaf = .lt) :
    Prevails (leaf :: next :: leaves) winner := by
  obtain ⟨before, after, heq, hbefore, hafter⟩ := h
  cases before with
  | nil =>
    obtain ⟨rfl, rfl⟩ := List.cons.inj heq
    exact ⟨[], next :: leaves, rfl, hbefore, List.forall_mem_cons.mpr ⟨hrank, hafter⟩⟩
  | cons first before =>
    obtain ⟨rfl, rfl⟩ := List.cons.inj heq
    have hfirst : leaf.rank winner ≠ .gt := hbefore leaf List.mem_cons_self
    have hnext : next.rank winner ≠ .gt := by
      have hle := TransCmp.isLE_trans (Ordering.isLE_of_eq_lt hrank) (Ordering.isLE_iff_ne_gt.mpr hfirst)
      exact Ordering.isLE_iff_ne_gt.mp hle
    refine ⟨leaf :: next :: before, after, rfl, ?_, hafter⟩
    rw [List.forall_mem_cons] at hbefore
    exact List.forall_mem_cons.mpr ⟨hfirst, List.forall_mem_cons.mpr ⟨hnext, hbefore.2⟩⟩

end Prevails

/-- The fold carries the leaf that prevails among those it has met. -/
theorem foldl_better_prevails (rest : List Leaf) (first : Leaf) :
    Prevails (first :: rest) (rest.foldl better first) := by
  induction rest generalizing first with
  | nil => exact .single first
  | cons next rest ih =>
    rw [List.foldl_cons]
    unfold better
    split
    · rename_i hgt
      exact (ih first).insert (OrientedCmp.gt_iff_lt.mp hgt)
    · rename_i hnotGt
      refine (ih next).cons fun hgt => ?_
      have hnext := (ih next).rank_ne_gt List.mem_cons_self
      have hle := TransCmp.isLE_trans (Ordering.isLE_iff_ne_gt.mpr hnotGt) (Ordering.isLE_iff_ne_gt.mpr hnext)
      exact Ordering.isLE_iff_ne_gt.mp hle hgt

/-! ### The winner -/

theorem winner?_eq_none : winner? leaves = none ↔ leaves = [] := by
  cases leaves with
  | nil => exact ⟨fun _ => rfl, fun _ => rfl⟩
  | cons first rest => simp [winner?]

theorem winner?_prevails (h : winner? leaves = some winner) : Prevails leaves winner := by
  cases leaves with
  | nil => simp [winner?] at h
  | cons first rest =>
    obtain rfl := Option.some.inj h
    exact foldl_better_prevails rest first

theorem winner?_mem (h : winner? leaves = some winner) : winner ∈ leaves :=
  (winner?_prevails h).mem

theorem winner?_isLE (h : winner? leaves = some winner) (hleaf : leaf ∈ leaves) : (leaf.rank winner).isLE :=
  Ordering.isLE_iff_ne_gt.mpr ((winner?_prevails h).rank_ne_gt hleaf)

theorem winner?_eq_some (hmem : winner ∈ leaves) (hmax : ∀ leaf ∈ leaves, leaf ≠ winner → leaf.rank winner = .lt) :
    winner? leaves = some winner := by
  cases helected : winner? leaves with
  | none =>
    rw [winner?_eq_none] at helected
    exact absurd (helected ▸ hmem) List.not_mem_nil
  | some elected =>
    by_cases heq : elected = winner
    · rw [heq]
    · have hlt := hmax elected (winner?_mem helected) heq
      have hle := winner?_isLE helected hmem
      exact absurd (OrientedCmp.gt_iff_lt.mpr hlt) (Ordering.isLE_iff_ne_gt.mp hle)

theorem winner?_outranks (h : winner? leaves = some winner)
    (hids : ∀ leaf ∈ leaves, leaf.rev = winner.rev → leaf = winner) (hleaf : leaf ∈ leaves) (hne : leaf ≠ winner) :
    winner.Outranks leaf := by
  rw [← Leaf.rank_eq_lt_iff]
  have hle := winner?_isLE h hleaf
  cases hrank : leaf.rank winner with
  | lt => rfl
  | eq => exact absurd (hids leaf hleaf (Leaf.rank_eq_eq hrank).2) hne
  | gt =>
    rw [hrank] at hle
    exact absurd hle (by decide)

theorem winner?_rev_eq (hsame : ∀ shown, (∃ leaf ∈ leaves, (leaf.rev, leaf.deleted) = shown) ↔
      ∃ leaf ∈ leaves', (leaf.rev, leaf.deleted) = shown)
    (h : winner? leaves = some winner) (h' : winner? leaves' = some winner') :
    winner.deleted = winner'.deleted ∧ winner.rev = winner'.rev := by
  obtain ⟨twin', hmem', heq'⟩ := (hsame (winner.rev, winner.deleted)).mp ⟨winner, winner?_mem h, rfl⟩
  obtain ⟨twin, hmem, heq⟩ := (hsame (winner'.rev, winner'.deleted)).mpr ⟨winner', winner?_mem h', rfl⟩
  have htwin' : winner.deleted = twin'.deleted ∧ winner.rev = twin'.rev :=
    ⟨(congrArg Prod.snd heq').symm, (congrArg Prod.fst heq').symm⟩
  have htwin : winner'.deleted = twin.deleted ∧ winner'.rev = twin.rev :=
    ⟨(congrArg Prod.snd heq).symm, (congrArg Prod.fst heq).symm⟩
  have hforth : (winner.rank winner').isLE := by
    rw [Leaf.rank_congr htwin' ⟨rfl, rfl⟩]
    exact winner?_isLE h' hmem'
  have hback : (winner'.rank winner).isLE := by
    rw [Leaf.rank_congr htwin ⟨rfl, rfl⟩]
    exact winner?_isLE h hmem
  exact Leaf.rank_eq_eq (OrientedCmp.isLE_antisymm hforth hback)

end Election

end RevisionForest
