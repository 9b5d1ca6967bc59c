import Mathlib.Data.Nat.Log
import WireTables.Proofs.View.Elements
import WireTables.Proofs.View.SortedSearch

/-!
What a binary search looks at. A search of a part looks at its middle and then at one of the halves
beside it, so it never looks anywhere twice, and as often as the part can be halved. Whether it finds
a table hangs on the order in which the tables stand to what is sought.
-/

namespace WireTables

section Probes

variable {vector : VectorView .table} {verdict : TableView → Ordering}

/-- A search of a part that looks at these indices, in this order, and at nothing else: it comes to
the same in any vector that has the same tables there. -/
structure LooksAt (vector : VectorView .table) (verdict : TableView → Ordering) (start span : Nat)
    (indices : List Nat) (search : Search) : Prop where
  searched : ∀ other : VectorView .table,
    (∀ index ∈ indices, other.get index = vector.get index) →
      other.searchFrom (fun table => .ok (verdict table)) start span = .ok search
  probed : indices.map vector.get = search.probed.map .ok
  once : indices.Nodup
  inside : ∀ index ∈ indices, start ≤ index ∧ index < start + span
  few : ∀ halvings, span < Nat.pow 2 halvings → indices.length ≤ halvings
  found : ∀ table, search.found = some table →
    ∃ index ∈ indices, vector.get index = .ok table ∧ verdict table = .eq

theorem looksAt_nothing (start : Nat) : LooksAt vector verdict start 0 [] ⟨none, []⟩ where
  searched other _ := by
    rw [VectorView.searchFrom, if_pos rfl]
    rfl
  probed := rfl
  once := List.nodup_nil
  inside _ member := (List.not_mem_nil member).elim
  few _ _ := Nat.zero_le _
  found _ same := nomatch same

theorem looksAt_middle {start span : Nat} {table : TableView} (nonempty : span ≠ 0)
    (got : vector.get (start + span / 2) = .ok table) (equal : verdict table = .eq) :
    LooksAt vector verdict start span [start + span / 2] ⟨some table, [table]⟩ where
  searched other same := by
    have there := (same _ List.mem_cons_self).trans got
    rw [searchFrom_apply nonempty there rfl, equal]
  probed := by rw [List.map_singleton, got, List.map_singleton]
  once := List.pairwise_singleton ..
  inside index member := by
    rw [List.mem_singleton] at member
    omega
  few halvings small := by
    have some : halvings ≠ 0 := by
      rintro rfl
      exact nonempty (Nat.lt_one_iff.mp small)
    exact Nat.one_le_iff_ne_zero.mpr some
  found found same := by
    cases same
    exact ⟨_, List.mem_cons_self, got, equal⟩

/-- A search that goes on in a half beside the middle. -/
theorem LooksAt.after {start span first count : Nat} {indices : List Nat} {search : Search}
    {table : TableView} (looks : LooksAt vector verdict first count indices search)
    (nonempty : span ≠ 0) (got : vector.get (start + span / 2) = .ok table)
    (half : count ≤ span / 2)
    (beside : start ≤ first ∧ first + count ≤ start + span / 2 ∨
      start + span / 2 < first ∧ first + count ≤ start + span)
    (goesOn : ∀ other : VectorView .table, other.get (start + span / 2) = .ok table →
      other.searchFrom (fun table => .ok (verdict table)) start span =
        (·.after table) <$> other.searchFrom (fun table => .ok (verdict table)) first count) :
    LooksAt vector verdict start span ((start + span / 2) :: indices) (search.after table) where
  searched other same := by
    rw [List.forall_mem_cons] at same
    exact (goesOn other (same.1.trans got)).trans
      (read_map.mpr ⟨search, looks.searched other same.2, rfl⟩)
  probed := by
    rw [List.map_cons, got, looks.probed]
    rfl
  once := by
    -- the middle is in neither half
    refine List.nodup_cons.mpr ⟨fun member => ?_, looks.once⟩
    have inside := looks.inside _ member
    omega
  inside := by
    refine List.forall_mem_cons.mpr ⟨by omega, fun index member => ?_⟩
    have inside := looks.inside index member
    omega
  few halvings small := by
    cases halvings with
    | zero => exact absurd (Nat.lt_one_iff.mp small) nonempty
    | succ halvings =>
        have doubled : span < Nat.pow 2 halvings * 2 := small
        exact Nat.succ_le_succ (looks.few halvings (by omega))
  found found same := by
    obtain ⟨index, member, reached⟩ := looks.found found same
    exact ⟨index, List.mem_cons_of_mem _ member, reached⟩

theorem exists_looksAt (verdict : TableView → Ordering)
    (followed : ∀ index < vector.length, ∃ table, vector.get index = .ok table)
    (start : Nat) {span : Nat} (inside : start + span ≤ vector.length) :
    ∃ indices search, LooksAt vector verdict start span indices search := by
  induction span using Nat.strongRecOn generalizing start with
  | ind span ih =>
      by_cases empty : span = 0
      · subst empty
        exact ⟨_, _, looksAt_nothing start⟩
      obtain ⟨table, got⟩ := followed (start + span / 2) (by omega)
      cases judged : verdict table with
      | eq => exact ⟨_, _, looksAt_middle empty got judged⟩
      | gt =>
          obtain ⟨indices, search, looks⟩ := ih (span / 2) (by omega) start (by omega)
          refine ⟨_, _, looks.after empty got (Nat.le_refl _) (by omega) fun other there => ?_⟩
          rw [searchFrom_apply empty there rfl, judged]
      | lt =>
          obtain ⟨indices, search, looks⟩ := ih (span - (span / 2 + 1)) (by omega)
            (start + (span / 2 + 1)) (by omega)
          refine ⟨_, _, looks.after empty got (by omega) (by omega) fun other there => ?_⟩
          rw [searchFrom_apply empty there rfl, judged]

theorem rising_of_runs {views : List TableView} {before equal behind : Nat}
    (runs : views.map verdict =
      List.replicate before .lt ++ List.replicate equal .eq ++ List.replicate behind .gt) :
    Rising verdict views := by
  have pairs : (views.map verdict).Pairwise fun early late =>
      (late = .lt → early = .lt) ∧ (early = .gt → late = .gt) := by
    rw [runs]
    simp [List.pairwise_append, List.pairwise_replicate, List.mem_replicate]
  exact List.pairwise_map.mp pairs

end Probes

/-- A search of a vector whose tables can all be followed comes to an end without a fault. It looks
at some of the vector's indices, at none of them twice, and at no more than there are binary digits
in the length: what stands at other indices makes no difference. A table that it finds is one of the
vector's for which the probe says equal, and if the probe's verdicts come in runs of less, equal and
greater, it finds one just when there is one. -/
theorem VectorView.search_exact (vector : VectorView .table)
    (followed : ∀ index < vector.length, ∃ table, vector.get index = .ok table)
    (verdict : TableView → Ordering) :
    ∃ (views : List TableView) (indices : List Nat) (search : Search),
      VectorShown vector views ∧
      vector.search (fun table => .ok (verdict table)) = .ok search ∧
      indices.map vector.get = search.probed.map .ok ∧
      (∀ other : VectorView .table, other.length = vector.length →
        (∀ index ∈ indices, other.get index = vector.get index) →
          other.search (fun table => .ok (verdict table)) = .ok search) ∧
      (∀ index ∈ indices, index < vector.length) ∧
      indices.Nodup ∧
      indices.length ≤ Nat.log 2 vector.length + 1 ∧
      (vector.length = 0 → indices = []) ∧
      (∀ table, search.found = some table →
        ∃ index < vector.length, vector.get index = .ok table ∧ verdict table = .eq) ∧
      ∀ before equal behind : Nat,
        views.map verdict =
          List.replicate before .lt ++ List.replicate equal .eq ++ List.replicate behind .gt →
        ((∃ table, search.found = some table) ↔ 0 < equal) := by
  obtain ⟨views, shown⟩ := VectorShown.exists_items followed
  have whole : 0 + vector.length ≤ vector.length := Nat.le_of_eq (Nat.zero_add _)
  obtain ⟨indices, search, looks⟩ := exists_looksAt verdict followed 0 whole
  have inside : ∀ index ∈ indices, index < vector.length := by
    intro index member
    have bounds := looks.inside index member
    omega
  have searched : vector.search (fun table => .ok (verdict table)) = .ok search :=
    looks.searched vector fun _ _ => rfl
  have found : ∀ table, search.found = some table →
      ∃ index < vector.length, vector.get index = .ok table ∧ verdict table = .eq := by
    intro table same
    obtain ⟨index, member, reached⟩ := looks.found table same
    exact ⟨index, inside index member, reached⟩
  refine ⟨views, indices, search, shown, searched, looks.probed, ?_, inside, looks.once, ?_, ?_,
    found, ?_⟩
  · intro other length same
    rw [VectorView.search, length]
    exact looks.searched other same
  · exact looks.few _ (Nat.lt_pow_succ_log_self Nat.one_lt_two _)
  · intro empty
    rw [List.eq_nil_iff_forall_not_mem]
    intro index member
    have := inside index member
    omega
  · intro before equal behind runs
    have equals : (∃ table ∈ views, verdict table = .eq) ↔ 0 < equal := by
      rw [← List.mem_map, runs]
      simp [List.mem_replicate, Nat.pos_iff_ne_zero]
    rw [← equals]
    have probed : ∀ table ∈ views, (.ok (verdict table) : Except Fault Ordering) =
        .ok (verdict table) := fun _ _ => rfl
    obtain ⟨again, searchedAgain, ends⟩ := searchFrom_rising shown.get probed (rising_of_runs runs)
      (Nat.le_of_eq ((Nat.zero_add _).trans shown.length))
    cases Except.ok.inj (searched.symm.trans searchedAgain)
    constructor
    · rintro ⟨table, same⟩
      exact ⟨table, ends.found table same⟩
    · rintro ⟨table, member, judged⟩
      by_contra nothing
      obtain ⟨index, bound, rfl⟩ := List.getElem_of_mem member
      rw [not_exists, ← Option.eq_none_iff_forall_ne_some] at nothing
      have reached : index < 0 + vector.length := by rwa [Nat.zero_add, shown.length]
      exact ends.missing nothing index _ (Nat.zero_le _) reached (List.getElem?_eq_getElem bound)
        judged

theorem search_exact_of_three :
    let buffer : Bytes := [3, 0, 0, 0, 12, 0, 0, 0, 12, 0, 0, 0, 12, 0, 0, 0, 244, 255, 255, 255,
      248, 255, 255, 255, 252, 255, 255, 255, 4, 0, 4, 0]
    let vector : VectorView .table := ⟨buffer, 0, 3⟩
    (∀ index < vector.length, ∃ table, vector.get index = .ok table) ∧
      ∃ (indices : List Nat) (search : Search),
        vector.search (fun table => .ok (compare table.position 24)) = .ok search ∧
          indices.map vector.get = search.probed.map .ok ∧ indices.length ≤ 2 ∧
            ∃ table, search.found = some table ∧ table.position = 24 := by
  intro buffer vector
  have followed : ∀ index < vector.length, ∃ table, vector.get index = .ok table := by
    have each : ∀ index : Fin 3, (vector.get index).toOption.isSome := by decide +kernel
    intro index inside
    obtain ⟨table, got⟩ := Option.isSome_iff_exists.mp (each ⟨index, inside⟩)
    exact ⟨table, ok_of_toOption got⟩
  obtain ⟨views, indices, search, shown, searched, probed, -, -, -, few, -, equal, runs⟩ :=
    vector.search_exact followed fun table => compare table.position 24
  have listed : vector.toList = .ok [⟨buffer, 16, 28, 4⟩, ⟨buffer, 20, 28, 4⟩, ⟨buffer, 24, 28, 4⟩] :=
    ok_of_toOption (by decide +kernel)
  cases Except.ok.inj (shown.toList.symm.trans listed)
  obtain ⟨table, found⟩ := (runs 2 1 0 rfl).mpr Nat.one_pos
  obtain ⟨index, inside, got, judged⟩ := equal table found
  exact ⟨followed, indices, search, searched, probed, few, table, found, Nat.compare_eq_eq.mp judged⟩

end WireTables
