import WireTables.Scalar.Basic

/-!
Bytes inside longer bytes. Buffers grow at their start, so what stands in them is placed by its
distance from the end; a read inside a part is the same read of the whole, moved by what comes
before the part.
-/

namespace WireTables

theorem read_bind {ε α β : Type} {read : Except ε α} {next : α → Except ε β} {result : β} :
    (read >>= next) = .ok result ↔ ∃ value, read = .ok value ∧ next value = .ok result := by
  cases read with
  | error cause => simp [bind, Except.bind]
  | ok value => simp [bind, Except.bind]

theorem slice_ok {bytes : Bytes} {start size : Nat} (fits : start + size ≤ bytes.length) :
    slice bytes start size = .ok ((bytes.drop start).take size) :=
  slice_eq_ok_iff.mpr ⟨fits, rfl⟩

theorem slice_outside {bytes : Bytes} {start size : Nat} (outside : bytes.length < start + size) :
    slice bytes start size = .error .outOfRange :=
  if_neg (Nat.not_le.mpr outside)

theorem loadScalar_eq_ok_iff {type : ScalarType} {bytes : Bytes} {index : Nat} {value : type.Value} :
    loadScalar type bytes index = .ok value ↔
      ∃ block, slice bytes index type.width = .ok block ∧ type.decode block = value := by
  rw [loadScalar]
  cases slice bytes index type.width with
  | ok block => simp [Except.map]
  | error cause => simp [Except.map]

theorem loadScalar_outside {type : ScalarType} {bytes : Bytes} {index : Nat}
    (outside : bytes.length < index + type.width) :
    loadScalar type bytes index = .error .outOfRange := by
  rw [loadScalar, slice_outside outside]
  rfl

theorem slice_append_front (front bytes : Bytes) (start size : Nat) :
    slice (front ++ bytes) (front.length + start) size = slice bytes start size := by
  simp only [slice]
  have bound : front.length + start + size ≤ (front ++ bytes).length ↔
      start + size ≤ bytes.length := by
    rw [List.length_append]
    omega
  simp only [bound, List.drop_append]
  rw [List.drop_eq_nil_of_le (by omega), Nat.add_sub_cancel_left, List.nil_append]

theorem loadScalar_append_front (type : ScalarType) (front bytes : Bytes) (index : Nat) :
    loadScalar type (front ++ bytes) (front.length + index) = loadScalar type bytes index := by
  rw [loadScalar, slice_append_front, loadScalar]

theorem length_append_sub {bytes : Bytes} {distance : Nat} (front : Bytes)
    (inside : distance ≤ bytes.length) :
    (front ++ bytes).length - distance = front.length + (bytes.length - distance) := by
  rw [List.length_append]
  exact Nat.add_sub_assoc inside _

theorem getElem?_of_suffix {bytes whole : Bytes} {distance : Nat} (suffix : bytes <:+ whole)
    (inside : distance ≤ bytes.length) :
    whole[whole.length - distance]? = bytes[bytes.length - distance]? := by
  rcases suffix with ⟨front, rfl⟩
  rw [length_append_sub front inside, List.getElem?_append_right (Nat.le_add_right ..),
    Nat.add_sub_cancel_left]

theorem length_flatMap_of_width {α : Type} {encode : α → Bytes} {width : Nat}
    (wide : ∀ item, (encode item).length = width) (items : List α) :
    (items.flatMap encode).length = items.length * width := by
  simp only [List.length_flatMap, wide, List.map_const', List.sum_replicate_nat]

/-- The block stands in the bytes, and its first byte is `distance` bytes away from their end. -/
def StandsAt (bytes : Bytes) (distance : Nat) (block : Bytes) : Prop :=
  ∃ front behind, bytes = front ++ (block ++ behind) ∧ distance = block.length + behind.length

namespace StandsAt

variable {bytes block left right : Bytes} {distance : Nat}

theorem of_append (front block behind : Bytes) :
    StandsAt (front ++ (block ++ behind)) (block.length + behind.length) block :=
  ⟨front, behind, rfl, rfl⟩

theorem of_front (block behind : Bytes) :
    StandsAt (block ++ behind) (block.length + behind.length) block :=
  of_append [] block behind

theorem distance_le (stands : StandsAt bytes distance block) : distance ≤ bytes.length := by
  rcases stands with ⟨front, behind, rfl, rfl⟩
  simp only [List.length_append]
  omega

theorem length_le (stands : StandsAt bytes distance block) : block.length ≤ distance := by
  rcases stands with ⟨front, behind, rfl, rfl⟩
  omega

theorem append_front (front : Bytes) (stands : StandsAt bytes distance block) :
    StandsAt (front ++ bytes) distance block := by
  rcases stands with ⟨before, behind, rfl, rfl⟩
  exact ⟨front ++ before, behind, by rw [List.append_assoc], rfl⟩

theorem of_suffix {whole : Bytes} (suffix : bytes <:+ whole)
    (stands : StandsAt bytes distance block) : StandsAt whole distance block := by
  rcases suffix with ⟨front, rfl⟩
  exact stands.append_front front

theorem beginning (stands : StandsAt bytes distance (left ++ right)) :
    StandsAt bytes distance left := by
  rcases stands with ⟨front, behind, rfl, rfl⟩
  refine ⟨front, right ++ behind, by simp only [List.append_assoc], ?_⟩
  simp only [List.length_append]
  omega

theorem rest (stands : StandsAt bytes distance (left ++ right)) :
    StandsAt bytes (distance - left.length) right := by
  rcases stands with ⟨front, behind, rfl, rfl⟩
  refine ⟨front ++ left, behind, by simp only [List.append_assoc], ?_⟩
  simp only [List.length_append]
  omega

theorem block_at {α : Type} {encode : α → Bytes} {width : Nat}
    (wide : ∀ item, (encode item).length = width) {items : List α} {index : Nat} {item : α}
    (reached : items[index]? = some item) (stands : StandsAt bytes distance (items.flatMap encode)) :
    StandsAt bytes (distance - index * width) (encode item) := by
  induction items generalizing index distance with
  | nil => cases reached
  | cons first items ih =>
      rw [List.flatMap_cons] at stands
      cases index with
      | zero =>
          cases reached
          rw [Nat.zero_mul, Nat.sub_zero]
          exact stands.beginning
      | succ index =>
          have later := ih reached stands.rest
          rw [wide, Nat.sub_sub, Nat.add_comm width, ← Nat.succ_mul] at later
          exact later

theorem slice_eq (stands : StandsAt bytes distance block) :
    slice bytes (bytes.length - distance) block.length = .ok block := by
  rcases stands with ⟨front, behind, rfl, rfl⟩
  have start : (front ++ (block ++ behind)).length - (block.length + behind.length) =
      front.length + 0 := by
    simp only [List.length_append]
    omega
  rw [start, slice_append_front, slice_eq_ok_iff]
  simp

theorem load_eq {type : ScalarType} {value : type.Value}
    (stands : StandsAt bytes distance (type.encode value)) :
    loadScalar type bytes (bytes.length - distance) = .ok value := by
  have taken := stands.slice_eq
  rw [ScalarType.length_encode] at taken
  rw [loadScalar, taken, Except.map, ScalarType.decode_encode]

end StandsAt

end WireTables
