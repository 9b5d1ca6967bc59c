import Mathlib.Data.List.Sort
import WireTables.Proofs.Builder.History

namespace WireTables

/-- The items in ascending order, those that compare as equal in their own order. -/
structure StableSort {α : Type} (compare : α → α → Ordering) (items order : List α) : Prop where
  perm : order.Perm items
  ascending : order.Pairwise fun left right => compare left right ≠ .gt
  stable : ∀ item ∈ items,
    order.filter (compare · item == .eq) = items.filter (compare · item == .eq)

section Sorting

variable {α : Type} {compare : α → α → Except Fault Ordering} {cmp other : α → α → Ordering}
  {items order : List α}

theorem StableSort.congr (same : ∀ left ∈ items, ∀ right ∈ items, cmp left right = other left right)
    (sorted : StableSort cmp items order) : StableSort other items order where
  perm := sorted.perm
  ascending := by
    apply sorted.ascending.imp_of_mem
    intro left right leftMember rightMember ascends
    rw [← same left (sorted.perm.mem_iff.mp leftMember) right (sorted.perm.mem_iff.mp rightMember)]
    exact ascends
  stable item member := by
    have filters (list : List α) (known : ∀ found ∈ list, found ∈ items) :
        list.filter (other · item == .eq) = list.filter (cmp · item == .eq) := by
      apply List.filter_congr
      intro found present
      rw [same found (known found present) item member]
    rw [filters order fun _ => sorted.perm.mem_iff.mp, filters items fun _ known => known]
    exact sorted.stable item member

def NotBefore (cmp : α → α → Ordering) (left right : α) : Prop := cmp left right ≠ .lt

instance : DecidableRel (NotBefore cmp) := fun left right =>
  inferInstanceAs (Decidable (cmp left right ≠ .lt))

theorem insertSorted_eq (item : α) (items : List α) :
    insertSorted (fun left right => .ok (cmp left right)) item items =
      .ok (items.orderedInsert (NotBefore cmp) item) := by
  induction items with
  | nil => rfl
  | cons last rest ih =>
      by_cases before : cmp item last = .lt
      · rw [List.orderedInsert_of_not_le _ _ (fun behind => behind before)]
        simp only [insertSorted, before, ih]
        rfl
      · rw [List.orderedInsert_cons_of_le _ _ before]
        cases found : cmp item last with
        | lt => exact absurd found before
        | eq | gt =>
            simp only [insertSorted, found]
            rfl

theorem foldlM_insertSorted_eq (items sorted : List α) :
    items.foldlM (fun sorted item =>
        insertSorted (fun left right => .ok (cmp left right)) item sorted) sorted =
      (.ok (items.reverse.foldr (List.orderedInsert (NotBefore cmp)) sorted) :
        Except Fault (List α)) := by
  induction items generalizing sorted with
  | nil => rfl
  | cons item items ih =>
      rw [List.foldlM_cons, insertSorted_eq, List.reverse_cons, List.foldr_append]
      exact ih _

theorem insertionSort_eq (items : List α) :
    insertionSort (fun left right => .ok (cmp left right)) items =
      .ok (items.reverse.insertionSort (NotBefore cmp)).reverse := by
  rw [insertionSort, foldlM_insertSorted_eq]
  rfl

variable [Std.TransCmp cmp]

theorem NotBefore.trans {first second third : α} (early : NotBefore cmp first second)
    (late : NotBefore cmp second third) : NotBefore cmp first third := by
  have swapped {left right : α} (behind : NotBefore cmp left right) : (cmp right left).isLE := by
    rw [@Std.OrientedCmp.eq_swap _ cmp]
    cases found : cmp left right with
    | lt => exact absurd found behind
    | eq => rfl
    | gt => rfl
  have whole := Std.TransCmp.isLE_trans (swapped late) (swapped early)
  intro before
  rw [@Std.OrientedCmp.eq_swap _ cmp, before] at whole
  cases whole

instance : IsTrans α (NotBefore cmp) := ⟨fun _ _ _ => NotBefore.trans⟩

instance : Std.Total (NotBefore cmp) where
  total left right := by
    by_cases before : cmp left right = .lt
    · right
      intro behind
      rw [@Std.OrientedCmp.eq_swap _ cmp, before] at behind
      cases behind
    · exact .inl before

/-- Items that compare as equal are left as they were by sorting. -/
theorem filter_insertionSort (item : α) (items : List α) :
    (items.insertionSort (NotBefore cmp)).filter (cmp · item == .eq) =
      items.filter (cmp · item == .eq) := by
  have equal : (items.filter (cmp · item == .eq)).Pairwise (NotBefore cmp) := by
    apply List.pairwise_of_forall_mem_list
    intro left leftMember right rightMember
    have leftEqual := eq_of_beq (List.mem_filter.mp leftMember).2
    have rightEqual := eq_of_beq (List.mem_filter.mp rightMember).2
    rw [NotBefore, Std.TransCmp.congr_left leftEqual, @Std.OrientedCmp.eq_swap _ cmp,
      rightEqual]
    decide
  -- sorting keeps the order of what is sorted already, and loses no item
  have kept := (List.sublist_insertionSort equal List.filter_sublist).filter (cmp · item == .eq)
  rw [List.filter_filter] at kept
  simp only [Bool.and_self] at kept
  have length := ((List.perm_insertionSort (NotBefore cmp) items).filter
    (cmp · item == .eq)).length_eq
  exact (kept.eq_of_length length.symm).symm

theorem stableSort_of_insertionSort
    (compared : ∀ left ∈ items, ∀ right ∈ items, compare left right = .ok (cmp left right)) :
    ∃ order, insertionSort compare items = .ok order ∧ StableSort cmp items order := by
  refine ⟨_, (insertionSort_congr compared).trans (insertionSort_eq items), ?_⟩
  constructor
  case perm =>
    exact (List.reverse_perm _).trans ((List.perm_insertionSort _ _).trans (List.reverse_perm _))
  case ascending =>
    rw [List.pairwise_reverse]
    apply (List.pairwise_insertionSort (NotBefore cmp) items.reverse).imp
    intro late early behind greater
    apply behind
    rw [@Std.OrientedCmp.eq_swap _ cmp, greater]
    rfl
  case stable =>
    intro item _
    rw [List.filter_reverse, filter_insertionSort, List.filter_reverse, List.reverse_reverse]

end Sorting

end WireTables
