import Mathlib.Order.Compare
import WireTables.Proofs.Scalar.Number
import WireTables.Proofs.View.Relocation

namespace WireTables

theorem compareLex_eq_cmp (left right : Bytes) :
    List.compareLex compare left right = cmp left right := by
  induction left generalizing right with
  | nil => cases right <;> rfl
  | cons first left ih =>
      cases right with
      | nil => rfl
      | cons second right =>
          rw [List.compareLex_cons_cons, ih]
          change (compareOfLessAndEq first second).then
            (if left < right then .lt else if right < left then .gt else .eq) =
              if first :: left < second :: right then .lt
              else if second :: right < first :: left then .gt else .eq
          simp only [compareOfLessAndEq, List.cons_lt_cons_iff]
          rcases Std.lt_trichotomy first second with below | rfl | above
          · simp [below]
          · simp [UInt8.lt_irrefl]
          · have apart : first ≠ second := (UInt8.ne_of_lt above).symm
            simp [above, apart, apart.symm, UInt8.lt_asymm above]

/-- Texts are ordered as lists of unsigned bytes are. -/
theorem orderBytes_eq_cmp (left right : Bytes) : orderBytes left right = cmp left right := by
  rw [← compareLex_eq_cmp]
  induction left generalizing right with
  | nil => cases right <;> rfl
  | cons first left ih =>
      cases right with
      | nil => rfl
      | cons second right =>
          rw [orderBytes, ih, List.compareLex_cons_cons]

theorem transCmp_comap {α β : Type} {cmp : β → β → Ordering} [Std.TransCmp cmp] (rank : α → β) :
    Std.TransCmp fun left right => cmp (rank left) (rank right) where
  eq_swap := Std.OrientedCmp.eq_swap
  isLE_trans := Std.TransCmp.isLE_trans

namespace KeyField

/-- Texts by the first byte that differs, behind all that they begin with; values by their
numbers. -/
def compareKeys : (key : KeyField) → key.Value → key.Value → Ordering
  | .string _, left, right => cmp (left : List UInt8) right
  | .scalar type _, left, right =>
      compare ((type.number left).getD 0) ((type.number right).getD 0)

instance (key : KeyField) : Std.TransCmp key.compareKeys := by
  cases key with
  | string slot =>
      have same : (KeyField.string slot).compareKeys = List.compareLex compare :=
        funext fun left => funext fun right => (compareLex_eq_cmp left right).symm
      rw [same]
      exact inferInstanceAs (Std.TransCmp (List.compareLex compare))
  | scalar type slot =>
      exact @transCmp_comap _ _ compare _ fun value => (type.number value).getD 0

def Comparable : (key : KeyField) → key.Value → Prop
  | .string _, _ => True
  | .scalar type _, value => type.number value ≠ none

instance (key : KeyField) : DecidablePred key.Comparable :=
  match key with
  | .string _ => fun _ => inferInstanceAs (Decidable True)
  | .scalar type _ => fun value => inferInstanceAs (Decidable (type.number value ≠ none))

theorem order_eq {key : KeyField} {left right : key.Value} (first : key.Comparable left)
    (second : key.Comparable right) : key.order left right = key.compareKeys left right := by
  cases key with
  | string slot => exact orderBytes_eq_cmp left right
  | scalar type slot =>
      obtain ⟨low, leftNumber⟩ := Option.ne_none_iff_exists'.mp first
      obtain ⟨high, rightNumber⟩ := Option.ne_none_iff_exists'.mp second
      simp only [order, compareKeys, leftNumber, rightNumber, Option.getD_some]
      exact ScalarType.order_eq_compare leftNumber rightNumber

def slot : KeyField → Slot
  | .string slot => slot
  | .scalar _ slot => slot

/-- What an absent key counts as. -/
def absent : (key : KeyField) → key.Value
  | .string _ => []
  | .scalar type _ => type.zero

theorem comparable_absent (key : KeyField) : key.Comparable key.absent := by
  have number_zero (type : ScalarType) : type.number type.zero ≠ none := by cases type <;> decide
  cases key with
  | string slot => exact trivial
  | scalar type slot => exact number_zero type

def find? : (key : KeyField) → TableView → Except Fault (Option key.Value)
  | .string slot, table => table.stringAt slot
  | .scalar type slot, table => table.scalarAt? slot type

/-- The table has the key, or lacks it and has what an absent one counts as. -/
def Shows (key : KeyField) (table : TableView) (value : key.Value) : Prop :=
  key.find? table = .ok (some value) ∨ table.has key.slot = .ok false ∧ value = key.absent

theorem shows_moved (front : Bytes) (key : KeyField) (table : TableView) (value : key.Value) :
    key.Shows (table.moved front) value ↔ key.Shows table value := by
  have same : key.find? (table.moved front) = key.find? table := by
    cases key with
    | string slot => exact table.stringAt_moved front slot
    | scalar type slot => exact table.scalarAt?_moved front slot type
  rw [Shows, Shows, same, TableView.has_moved]

/-- The field of the key is absent from the table, or has a value that can be compared. -/
def HeldBy (key : KeyField) (table : TableView) : Prop :=
  table.has key.slot = .ok false ∨ ∃ value, key.find? table = .ok (some value) ∧ key.Comparable value

instance (key : KeyField) (table : TableView) : Decidable (key.HeldBy table) :=
  have present : (key.find? table).toOption.join.any (fun value => key.Comparable value) = true ↔
      ∃ value, key.find? table = .ok (some value) ∧ key.Comparable value := by
    rcases key.find? table with cause | _ | value <;> simp [Except.toOption]
  have := decidable_of_iff _ present
  inferInstanceAs (Decidable (_ ∨ _))

theorem lookup_of_has {α : Type} {table : TableView} {slot : Slot}
    (missing : table.has slot = .ok false) (absent : α) (read : Nat → Except Fault α) :
    table.lookup slot absent read = .ok absent := by
  rcases read_bind.mp missing with ⟨entry, found, zero⟩
  have nothing : entry = 0 := by simpa using Except.ok.inj zero
  rw [TableView.lookup, found, nothing]
  rfl

section Read

variable {key : KeyField} {table : TableView} {value : key.Value}

theorem read_of_has (missing : table.has key.slot = .ok false) :
    key.read table = .ok key.absent := by
  cases key with
  | string slot =>
      have nothing : table.valueAt slot .string = .ok none := lookup_of_has missing none _
      exact read_bind.mpr ⟨none, nothing, rfl⟩
  | scalar type slot => exact lookup_of_has missing _ _

theorem read_of_find? (found : key.find? table = .ok (some value)) : key.read table = .ok value := by
  cases key with
  | string slot => exact read_bind.mpr ⟨some value, found, rfl⟩
  | scalar type slot =>
      rcases read_bind.mp found with ⟨entry, entered, looked⟩
      refine read_bind.mpr ⟨entry, entered, ?_⟩
      split at looked
      case isTrue => cases looked
      case isFalse present =>
        rw [if_neg present]
        obtain ⟨loaded, followed, same⟩ := read_map.mp looked
        cases same
        exact followed

theorem Shows.read (shows : key.Shows table value) : key.read table = .ok value := by
  rcases shows with found | ⟨missing, rfl⟩
  · exact read_of_find? found
  · exact read_of_has missing

theorem orderTables_of_shows {other : TableView} {otherValue : key.Value}
    (shows : key.Shows table value) (also : key.Shows other otherValue)
    (first : key.Comparable value) (second : key.Comparable otherValue) :
    key.orderTables table other = .ok (key.compareKeys value otherValue) := by
  rw [← order_eq first second]
  exact read_bind.mpr ⟨_, shows.read, read_bind.mpr ⟨_, also.read, rfl⟩⟩

theorem orderWith_of_shows {sought : key.Value} (shows : key.Shows table value)
    (first : key.Comparable value) (second : key.Comparable sought) :
    key.orderWith sought table = .ok (key.compareKeys value sought) := by
  rw [← order_eq first second]
  exact read_bind.mpr ⟨_, shows.read, rfl⟩

theorem HeldBy.shows (held : key.HeldBy table) :
    ∃ value, key.Shows table value ∧ key.Comparable value := by
  rcases held with missing | ⟨value, found, comparable⟩
  · exact ⟨_, .inr ⟨missing, rfl⟩, key.comparable_absent⟩
  · exact ⟨value, .inl found, comparable⟩

end Read

end KeyField

section Search

variable {vector : VectorView .table} {probe : TableView → Except Fault Ordering}
  {verdict : TableView → Ordering} {views : List TableView}

def Rising (verdict : TableView → Ordering) (views : List TableView) : Prop :=
  views.Pairwise fun early late =>
    (verdict late = .lt → verdict early = .lt) ∧ (verdict early = .gt → verdict late = .gt)

/-- The search stops at a table that it seeks, or there is none in the part it looks at. -/
structure SearchEnds (verdict : TableView → Ordering) (views : List TableView) (start span : Nat)
    (search : Search) : Prop where
  found : ∀ table, search.found = some table → table ∈ views ∧ verdict table = .eq
  missing : search.found = none → ∀ (index : Nat) (table : TableView), start ≤ index →
    index < start + span → views[index]? = some table → verdict table ≠ .eq

theorem SearchEnds.after {start span first count : Nat} {search : Search} {table : TableView}
    (ends : SearchEnds verdict views first count search)
    (passed : ∀ (index : Nat) (other : TableView), start ≤ index → index < start + span →
      ¬ (first ≤ index ∧ index < first + count) → views[index]? = some other →
        verdict other ≠ .eq) :
    SearchEnds verdict views start span (search.after table) where
  found := ends.found
  missing nothing index other above below reached := by
    by_cases inside : first ≤ index ∧ index < first + count
    · exact ends.missing nothing index other inside.1 inside.2 reached
    · exact passed index other above below inside reached

theorem searchFrom_apply {start span : Nat} {table : TableView} (nonempty : span ≠ 0)
    (got : vector.get (start + span / 2) = .ok table) (probed : probe table = .ok (verdict table)) :
    vector.searchFrom probe start span =
      match verdict table with
      | .gt => (·.after table) <$> vector.searchFrom probe start (span / 2)
      | .lt => (·.after table) <$>
          vector.searchFrom probe (start + (span / 2 + 1)) (span - (span / 2 + 1))
      | .eq => .ok ⟨some table, [table]⟩ := by
  rw [VectorView.searchFrom, if_neg nonempty]
  dsimp only
  rw [got]
  change (probe table >>= _) = _
  rw [probed]
  cases verdict table <;> rfl

theorem searchFrom_rising
    (got : ∀ (index : Nat) (table : TableView), views[index]? = some table →
      vector.get index = .ok table)
    (probed : ∀ table ∈ views, probe table = .ok (verdict table)) (rising : Rising verdict views)
    {start span : Nat} (inside : start + span ≤ views.length) :
    ∃ search, vector.searchFrom probe start span = .ok search ∧
      SearchEnds verdict views start span search := by
  have pairs := List.pairwise_iff_getElem.mp rising
  induction span using Nat.strongRecOn generalizing start with
  | ind span ih =>
      by_cases empty : span = 0
      · subst empty
        refine ⟨⟨none, []⟩, by rw [VectorView.searchFrom]; rfl, ?_, ?_⟩
        · intro _ same
          cases same
        · intro _ index _ above below
          omega
      · have within : start + span / 2 < views.length := by omega
        have member : views[start + span / 2] ∈ views := List.getElem_mem within
        rw [searchFrom_apply empty (got _ _ (List.getElem?_eq_getElem within)) (probed _ member)]
        cases judged : verdict views[start + span / 2] with
        | eq =>
            refine ⟨_, rfl, ?_, ?_⟩
            · intro table same
              cases same
              exact ⟨member, judged⟩
            · intro same
              cases same
        | gt =>
            -- the tables from the middle on are behind what is sought
            have half : start + span / 2 ≤ views.length := by omega
            obtain ⟨search, searched, ends⟩ := ih (span / 2) (by omega) half
            refine ⟨_, read_map.mpr ⟨search, searched, rfl⟩, ends.after ?_⟩
            intro index other above below outside reached
            obtain ⟨bound, rfl⟩ := List.getElem?_eq_some_iff.mp reached
            rcases Nat.lt_or_eq_of_le (show start + span / 2 ≤ index by omega) with behind | rfl
            · simp [(pairs _ _ within bound behind).2 judged]
            · simp [judged]
        | lt =>
            have rest : start + (span / 2 + 1) + (span - (span / 2 + 1)) ≤ views.length := by omega
            obtain ⟨search, searched, ends⟩ := ih (span - (span / 2 + 1)) (by omega) rest
            refine ⟨_, read_map.mpr ⟨search, searched, rfl⟩, ends.after ?_⟩
            intro index other above below outside reached
            obtain ⟨bound, rfl⟩ := List.getElem?_eq_some_iff.mp reached
            rcases Nat.lt_or_eq_of_le (show index ≤ start + span / 2 by omega) with before | rfl
            · simp [(pairs _ _ bound within before).1 judged]
            · simp [judged]

variable {α : Type} {items : List α} {viewOf : α → TableView} {key : KeyField}
  {keyOf : α → key.Value} {value : key.Value}

/-- In ascending order of their keys, tables rise towards any key and beyond. -/
theorem rising_of_ascending
    (judged : ∀ item ∈ items, verdict (viewOf item) = key.compareKeys (keyOf item) value)
    (ascending : items.Pairwise fun left right =>
      key.compareKeys (keyOf left) (keyOf right) ≠ .gt) :
    Rising verdict (items.map viewOf) := by
  apply List.pairwise_map.mpr
  apply ascending.imp_of_mem
  intro early late earlyMember lateMember ascends
  have inOrder := Ordering.isLE_iff_ne_gt.mpr ascends
  rw [judged early earlyMember, judged late lateMember]
  constructor
  · exact Std.TransCmp.lt_of_isLE_of_lt inOrder
  · rw [@Std.OrientedCmp.gt_iff_lt _ key.compareKeys, @Std.OrientedCmp.gt_iff_lt _ key.compareKeys]
    exact fun before => Std.TransCmp.lt_of_lt_of_isLE before inOrder

/-- A search by a key finds a table that has it, if any does. -/
theorem find_ascending (length : vector.length = items.length)
    (got : ∀ (index : Nat) (table : TableView), (items.map viewOf)[index]? = some table →
      vector.get index = .ok table)
    (shown : ∀ item ∈ items, key.Shows (viewOf item) (keyOf item))
    (comparable : ∀ item ∈ items, key.Comparable (keyOf item))
    (ascending : items.Pairwise fun left right =>
      key.compareKeys (keyOf left) (keyOf right) ≠ .gt)
    (sought : key.Comparable value) :
    ∃ found, vector.find key value = .ok found ∧
      (∀ table, found = some table →
        ∃ item ∈ items, table = viewOf item ∧ key.compareKeys (keyOf item) value = .eq) ∧
      (found = none → ∀ item ∈ items, key.compareKeys (keyOf item) value ≠ .eq) := by
  have probed : ∀ item ∈ items,
      key.orderWith value (viewOf item) = .ok (key.compareKeys (keyOf item) value) :=
    fun item member => KeyField.orderWith_of_shows (shown item member) (comparable item member) sought
  let verdict (table : TableView) : Ordering := (key.orderWith value table).toOption.getD .eq
  have judged : ∀ item ∈ items, verdict (viewOf item) = key.compareKeys (keyOf item) value := by
    intro item member
    simp only [verdict, probed item member, Except.toOption, Option.getD_some]
  have probes : ∀ table ∈ items.map viewOf, key.orderWith value table = .ok (verdict table) := by
    rintro table member
    obtain ⟨item, known, rfl⟩ := List.mem_map.mp member
    rw [probed item known, judged item known]
  have rising := rising_of_ascending judged ascending
  have whole : 0 + vector.length ≤ (items.map viewOf).length := by
    simp [length]
  obtain ⟨search, searched, ends⟩ := searchFrom_rising got probes rising whole
  refine ⟨search.found, read_bind.mpr ⟨search, searched, rfl⟩, ?_, ?_⟩
  · intro table found
    obtain ⟨member, equal⟩ := ends.found table found
    obtain ⟨item, known, rfl⟩ := List.mem_map.mp member
    exact ⟨item, known, rfl, (judged item known).symm.trans equal⟩
  · intro nothing item known
    obtain ⟨index, bound, rfl⟩ := List.getElem_of_mem known
    rw [← judged _ known]
    have reached : (items.map viewOf)[index]? = some (viewOf items[index]) := by
      rw [List.getElem?_map, List.getElem?_eq_getElem bound, Option.map_some]
    exact ends.missing nothing index _ (Nat.zero_le _) (by omega) reached

end Search

end WireTables
