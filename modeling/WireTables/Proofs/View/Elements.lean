import Mathlib.Data.List.OfFn
import WireTables.Proofs.View.Relocation

namespace WireTables

/-- The vector has these elements, each by its index and all of them in order, and no others. -/
structure VectorShown {element : Kind} (vector : VectorView element) (items : List element.View) :
    Prop where
  length : vector.length = items.length
  get : ∀ (index : Nat) (item : element.View), items[index]? = some item →
    vector.get index = .ok item
  get? : ∀ index : Nat, vector.get? index = .ok items[index]?
  toList : vector.toList = .ok items

theorem readEach_ok {α : Type} {read : Nat → Except Fault α} {items : List α} {start : Nat}
    (each : ∀ (index : Nat) (item : α), items[index]? = some item →
      read (start + index) = .ok item) :
    readEach read start items.length = .ok items := by
  induction items generalizing start with
  | nil => rfl
  | cons item items ih =>
      refine read_bind.mpr ⟨item, each 0 item rfl, read_bind.mpr ⟨items, ih ?_, rfl⟩⟩
      intro index found reached
      rw [Nat.add_assoc, Nat.add_comm 1]
      exact each (index + 1) found reached

theorem slice_append {bytes first second : Bytes} {start size more : Nat}
    (taken : slice bytes start size = .ok first)
    (next : slice bytes (start + size) more = .ok second) :
    slice bytes start (size + more) = .ok (first ++ second) := by
  obtain ⟨-, rfl⟩ := slice_eq_ok_iff.mp taken
  obtain ⟨fits, rfl⟩ := slice_eq_ok_iff.mp next
  rw [slice_ok (by omega), List.take_add, List.drop_drop]

theorem slice_flatMap {α : Type} {encode : α → Bytes} {width : Nat} {bytes : Bytes} {start : Nat}
    {items : List α} (inside : start ≤ bytes.length)
    (blocks : ∀ (index : Nat) (item : α), items[index]? = some item →
      slice bytes (start + index * width) width = .ok (encode item)) :
    slice bytes start (items.length * width) = .ok (items.flatMap encode) := by
  induction items generalizing start with
  | nil =>
      have nothing : slice bytes start 0 = .ok ((bytes.drop start).take 0) := slice_ok inside
      simpa using nothing
  | cons item items ih =>
      have first := blocks 0 item rfl
      rw [Nat.zero_mul, Nat.add_zero] at first
      obtain ⟨fits, -⟩ := slice_eq_ok_iff.mp first
      have later := ih fits fun index found reached => by
        have block := blocks (index + 1) found reached
        rwa [Nat.succ_mul, Nat.add_comm _ width, ← Nat.add_assoc] at block
      rw [List.length_cons, Nat.succ_mul, Nat.add_comm _ width]
      exact slice_append first later

namespace VectorShown

variable {element : Kind} {vector : VectorView element} {items : List element.View}

theorem of_follow (length : vector.length = items.length)
    (each : ∀ (index : Nat) (item : element.View), items[index]? = some item →
      vector.followElement index = .ok item) : VectorShown vector items where
  length := length
  get index item reached := by
    obtain ⟨inside, -⟩ := List.getElem?_eq_some_iff.mp reached
    rw [VectorView.get, if_pos (length ▸ inside)]
    exact each index item reached
  get? index := by
    simp only [VectorView.get?]
    split
    case isTrue inside =>
      rw [length] at inside
      have reached := List.getElem?_eq_getElem inside
      rw [each index _ reached, reached]
      rfl
    case isFalse outside =>
      rw [length] at outside
      rw [List.getElem?_eq_none (Nat.le_of_not_lt outside)]
      rfl
  toList := by
    rw [VectorView.toList, length]
    apply readEach_ok
    intro index item reached
    rw [Nat.zero_add]
    exact each index item reached

theorem follow (shown : VectorShown vector items) {index : Nat} {item : element.View}
    (reached : items[index]? = some item) : vector.followElement index = .ok item := by
  obtain ⟨inside, -⟩ := List.getElem?_eq_some_iff.mp reached
  have got := shown.get index item reached
  rwa [VectorView.get, if_pos (shown.length ▸ inside)] at got

theorem exists_items
    (followed : ∀ index < vector.length, ∃ item, vector.get index = .ok item) :
    ∃ items, VectorShown vector items := by
  have each (index : Fin vector.length) : ∃ item, vector.followElement index = .ok item := by
    obtain ⟨item, got⟩ := followed index index.isLt
    rw [VectorView.get, if_pos index.isLt] at got
    exact ⟨item, got⟩
  refine ⟨List.ofFn fun index => (each index).choose, of_follow List.length_ofFn.symm ?_⟩
  intro index item reached
  obtain ⟨inside, same⟩ := List.getElem?_eq_some_iff.mp reached
  rw [List.length_ofFn] at inside
  rw [List.getElem_ofFn] at same
  rw [← same]
  exact (each ⟨index, inside⟩).choose_spec

theorem bytes {type : ScalarType} {buffer : Bytes} {position : Nat}
    {vector : VectorView (.scalar type)} {items : List type.Value} (exact : type ≠ .bool)
    (loaded : VectorView.load buffer position = .ok vector) (shown : VectorShown vector items) :
    vector.bytes = .ok (items.flatMap type.encode) := by
  rcases read_bind.mp loaded with ⟨length, counted, same⟩
  cases same
  rcases loadScalar_eq_ok_iff.mp counted with ⟨counter, taken, -⟩
  have inside := (slice_eq_ok_iff.mp taken).1
  have counted := shown.length
  dsimp only at counted
  rw [VectorView.bytes, counted]
  refine slice_flatMap inside fun index item reached => ?_
  rcases loadScalar_eq_ok_iff.mp (shown.follow reached) with ⟨block, found, rfl⟩
  rw [type.encode_decode exact (length_of_slice found)]
  exact found

end VectorShown

end WireTables
