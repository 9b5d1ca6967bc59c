import WireTables.Buffer.Growth

/-!
Storage that is filled from its end towards its start. The head separates the free bytes from the
written ones; distances from the end stay what they are when the storage grows, since it grows at
its start.
-/

namespace WireTables

/-- `free` lists the bytes before the head, the nearest first, and `written` those from the head on,
in address order. What stands in the free bytes is left over from earlier writes. -/
structure Storage where
  free : Bytes
  written : Bytes
  room : Nat := free.length
  size : Nat := written.length
  room_eq : room = free.length := by rfl
  size_eq : size = written.length := by rfl
  deriving DecidableEq, Repr

namespace Storage

theorem ext_lists {left right : Storage} (free : left.free = right.free)
    (written : left.written = right.written) : left = right := by
  cases left
  cases right
  simp_all

def ofCapacity (capacity : Nat) : Storage where
  free := zeros capacity
  written := []
  room := capacity
  size := 0
  room_eq := by simp
  size_eq := rfl

def capacity (storage : Storage) : Nat := storage.room + storage.size

def contents (storage : Storage) : Bytes := storage.free.reverse ++ storage.written

def grow (storage : Storage) (count : Nat) : Storage where
  free := storage.free ++ zeros count
  written := storage.written
  room := storage.room + count
  size := storage.size
  room_eq := by simp [storage.room_eq]
  size_eq := storage.size_eq

def push (storage : Storage) (bytes : Bytes) : Storage where
  free := storage.free.drop bytes.length
  written := bytes ++ storage.written
  room := storage.room - bytes.length
  size := bytes.length + storage.size
  room_eq := by simp [storage.room_eq]
  size_eq := by simp [storage.size_eq]

def retract (storage : Storage) (count : Nat) : Storage where
  free := (storage.written.take count).reverse ++ storage.free
  written := storage.written.drop count
  room := min count storage.size + storage.room
  size := storage.size - count
  room_eq := by simp [storage.room_eq, storage.size_eq]
  size_eq := by simp [storage.size_eq]

def suffix (storage : Storage) (distance : Nat) : Bytes :=
  storage.written.drop (storage.size - distance)

def patch (storage : Storage) (distance : Nat) (bytes : Bytes) : Storage where
  free := storage.free
  written := overwrite storage.written (storage.size - distance) bytes
  room := storage.room
  room_eq := storage.room_eq

end Storage

end WireTables
