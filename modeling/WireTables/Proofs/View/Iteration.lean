import Mathlib.Data.List.Basic
import WireTables.Proofs.View.Elements

namespace WireTables

inductive CursorCall
  | next
  | nextLast
  | nth (count : Nat)
  | remaining

inductive CursorAnswer (α : Type)
  | item (item : Option α)
  | count (count : Nat)

namespace CursorAnswer

variable {α β : Type}

def item? : CursorAnswer α → Option α
  | item found => found
  | count _ => none

def map (change : α → β) : CursorAnswer α → CursorAnswer β
  | item found => item (found.map change)
  | count left => count left

def IsOver : CursorAnswer α → Prop
  | item found => found = none
  | count left => left = 0

end CursorAnswer

namespace VectorCursor

variable {element : Kind}

def step (cursor : VectorCursor element) :
    CursorCall → Except Fault (CursorAnswer element.View × VectorCursor element)
  | .next => do
      let (found, after) ← cursor.next
      pure (.item found, after)
  | .nextLast => do
      let (found, after) ← cursor.nextLast
      pure (.item found, after)
  | .nth count => do
      let (found, after) ← cursor.nth count
      pure (.item found, after)
  | .remaining => pure (.count cursor.remaining, cursor)

def run (cursor : VectorCursor element) :
    List CursorCall → Except Fault (List (CursorAnswer element.View) × VectorCursor element)
  | [] => pure ([], cursor)
  | call :: calls => do
      let (answer, after) ← cursor.step call
      let (answers, last) ← after.run calls
      pure (answer :: answers, last)

end VectorCursor

namespace CursorCall

variable {α β : Type}

def pop : CursorCall → List α → CursorAnswer α × List α
  | next, queue => (.item queue.head?, queue.tail)
  | nextLast, queue => (.item queue.getLast?, queue.dropLast)
  | nth count, queue => (.item (queue.drop count).head?, (queue.drop count).tail)
  | remaining, queue => (.count queue.length, queue)

def passed : CursorCall → List α → List α
  | nth count, queue => queue.take count
  | _, _ => []

def popAll : List CursorCall → List α → List (CursorAnswer α) × List α
  | [], queue => ([], queue)
  | call :: calls, queue =>
      ((call.pop queue).1 :: (popAll calls (call.pop queue).2).1,
        (popAll calls (call.pop queue).2).2)

def passedAll : List CursorCall → List α → List α
  | [], _ => []
  | call :: calls, queue => call.passed queue ++ passedAll calls (call.pop queue).2

theorem pop_map (change : α → β) (call : CursorCall) (queue : List α) :
    call.pop (queue.map change) =
      ((call.pop queue).1.map change, (call.pop queue).2.map change) := by
  cases call with
  | next => simp [pop, CursorAnswer.map]
  | nextLast => simp [pop, CursorAnswer.map]
  | nth count => simp [pop, CursorAnswer.map, ← List.map_drop, ← List.map_tail]
  | remaining => simp [pop, CursorAnswer.map]

theorem popAll_map (change : α → β) (calls : List CursorCall) (queue : List α) :
    popAll calls (queue.map change) =
      ((popAll calls queue).1.map (CursorAnswer.map change), (popAll calls queue).2.map change) := by
  induction calls generalizing queue with
  | nil => rfl
  | cons call calls ih => simp only [popAll, pop_map, ih, List.map_cons]

theorem perm_pop (call : CursorCall) (queue : List α) :
    ((call.pop queue).1.item?.toList ++ (call.passed queue ++ (call.pop queue).2)).Perm queue := by
  cases call with
  | next => cases queue <;> exact List.Perm.refl _
  | nextLast =>
      rcases List.eq_nil_or_concat queue with rfl | ⟨early, last, rfl⟩
      · exact List.Perm.refl _
      · simp only [pop, passed, CursorAnswer.item?, List.concat_eq_append, List.getLast?_concat,
          List.dropLast_concat, Option.toList_some, List.nil_append]
        exact List.perm_append_comm
  | nth count =>
      have parts : (queue.drop count).head?.toList ++ (queue.drop count).tail = queue.drop count := by
        cases queue.drop count <;> rfl
      calc
        _ = (queue.drop count).head?.toList ++ (queue.take count ++ (queue.drop count).tail) := rfl
        _ |>.Perm (queue.take count ++
            ((queue.drop count).head?.toList ++ (queue.drop count).tail)) :=
          List.perm_append_comm_assoc ..
        _ = queue := by rw [parts, List.take_append_drop]
  | remaining => exact List.Perm.refl _

theorem perm_popAll (calls : List CursorCall) (queue : List α) :
    ((popAll calls queue).1.flatMap (·.item?.toList) ++
      (passedAll calls queue ++ (popAll calls queue).2)).Perm queue := by
  induction calls generalizing queue with
  | nil => exact List.Perm.refl _
  | cons call calls ih =>
      simp only [popAll, passedAll, List.flatMap_cons, List.append_assoc]
      -- what the first call drops goes in front of what the later ones hand out
      refine List.Perm.trans (List.Perm.append_left _ (List.perm_append_comm_assoc ..)) ?_
      exact List.Perm.trans (.append_left _ (.append_left _ (ih _))) (perm_pop call queue)

theorem popAll_nil (calls : List CursorCall) :
    (∀ answer ∈ (popAll calls ([] : List α)).1, answer.IsOver) ∧
      (popAll calls ([] : List α)).2 = [] := by
  induction calls with
  | nil => exact ⟨fun _ member => (List.not_mem_nil member).elim, rfl⟩
  | cons call calls ih =>
      have spent : (call.pop ([] : List α)).1.IsOver ∧ (call.pop ([] : List α)).2 = [] := by
        cases call <;> simp [pop, CursorAnswer.IsOver]
      rw [popAll, spent.2]
      exact ⟨List.forall_mem_cons.mpr ⟨spent.1, ih.1⟩, ih.2⟩

theorem pop_of_isOver {call : CursorCall} {queue : List α} (spent : (call.pop queue).1.IsOver) :
    (call.pop queue).2 = [] := by
  cases call with
  | next => cases queue <;> simp_all [pop, CursorAnswer.IsOver]
  | nextLast =>
      simp only [pop, CursorAnswer.IsOver, List.getLast?_eq_none_iff] at spent
      rw [pop, spent, List.dropLast_nil]
  | nth count =>
      simp only [pop, CursorAnswer.IsOver, List.head?_eq_none_iff] at spent
      rw [pop, spent, List.tail_nil]
  | remaining => exact List.eq_nil_of_length_eq_zero spent

theorem popAll_of_isOver {calls : List CursorCall} {queue : List α}
    (spent : ∃ answer ∈ (popAll calls queue).1, answer.IsOver) : (popAll calls queue).2 = [] := by
  induction calls generalizing queue with
  | nil =>
      obtain ⟨_, member, -⟩ := spent
      exact (List.not_mem_nil member).elim
  | cons call calls ih =>
      rw [popAll] at spent ⊢
      obtain ⟨answer, member, ended⟩ := spent
      rcases List.mem_cons.mp member with rfl | later
      · rw [pop_of_isOver ended]
        exact (popAll_nil calls).2
      · exact ih ⟨answer, later, ended⟩

end CursorCall

section Walk

variable {element : Kind} {vector : VectorView element} {items queue : List element.View}
  {cursor : VectorCursor element}

/-- Where a walk stands: what is left lies between what it passed and what it took at the back. -/
structure StandsBetween (vector : VectorView element) (items queue : List element.View)
    (cursor : VectorCursor element) : Prop where
  vector : cursor.vector = vector
  items : ∃ front back, items = front ++ (queue ++ back) ∧ cursor.front = front.length ∧
    cursor.back = front.length + queue.length

theorem standsBetween_cursor (shown : VectorShown vector items) :
    StandsBetween vector items items vector.cursor where
  vector := rfl
  items := ⟨[], [], by simp, rfl, by simp [VectorView.cursor, shown.length]⟩

namespace StandsBetween

theorem remaining (stands : StandsBetween vector items queue cursor) :
    cursor.remaining = queue.length := by
  obtain ⟨front, back, -, first, last⟩ := stands.items
  rw [VectorCursor.remaining, first, last, Nat.add_sub_cancel_left]

theorem front_eq_back_iff (stands : StandsBetween vector items queue cursor) :
    cursor.front = cursor.back ↔ queue = [] := by
  obtain ⟨front, back, -, first, last⟩ := stands.items
  rw [first, last, Nat.left_eq_add, List.length_eq_zero_iff]

theorem next (shown : VectorShown vector items) (stands : StandsBetween vector items queue cursor) :
    ∃ after, cursor.next = .ok (queue.head?, after) ∧
      StandsBetween vector items queue.tail after := by
  cases queue with
  | nil => exact ⟨cursor, if_pos (stands.front_eq_back_iff.mpr rfl), stands⟩
  | cons item queue =>
      have apart : cursor.front ≠ cursor.back := fun same =>
        nomatch stands.front_eq_back_iff.mp same
      obtain ⟨front, back, joined, first, last⟩ := stands.items
      have reached : items[cursor.front]? = some item := by
        rw [joined, first, List.getElem?_append_right (Nat.le_refl _), Nat.sub_self]
        rfl
      rw [VectorCursor.next, if_neg apart, stands.vector, shown.follow reached]
      refine ⟨_, rfl, ⟨rfl, front ++ [item], back, ?_, ?_, ?_⟩⟩
      · rw [joined, List.append_assoc]
        rfl
      · rw [first, List.length_append, List.length_singleton]
      · rw [last, List.length_append, List.length_singleton, List.length_cons, List.tail_cons]
        omega

theorem nextLast (shown : VectorShown vector items)
    (stands : StandsBetween vector items queue cursor) :
    ∃ after, cursor.nextLast = .ok (queue.getLast?, after) ∧
      StandsBetween vector items queue.dropLast after := by
  rcases List.eq_nil_or_concat queue with rfl | ⟨early, item, rfl⟩
  · exact ⟨cursor, if_pos (stands.front_eq_back_iff.mpr rfl), stands⟩
  · rw [List.concat_eq_append] at stands ⊢
    have apart : cursor.front ≠ cursor.back := fun same => by
      simpa using stands.front_eq_back_iff.mp same
    obtain ⟨front, back, joined, first, last⟩ := stands.items
    have place : cursor.back - 1 = front.length + early.length := by
      rw [last, List.length_append, List.length_singleton]
      omega
    have reached : items[cursor.back - 1]? = some item := by
      rw [joined, place, List.getElem?_append_right (Nat.le_add_right ..), Nat.add_sub_cancel_left,
        List.append_assoc, List.getElem?_append_right (Nat.le_refl _), Nat.sub_self]
      rfl
    rw [VectorCursor.nextLast, if_neg apart, stands.vector, shown.follow reached,
      List.getLast?_concat, List.dropLast_concat]
    refine ⟨_, rfl, ⟨rfl, front, [item] ++ back, ?_, first, place⟩⟩
    rw [joined, List.append_assoc]

theorem nth (shown : VectorShown vector items) (stands : StandsBetween vector items queue cursor)
    (count : Nat) :
    ∃ after, cursor.nth count = .ok ((queue.drop count).head?, after) ∧
      StandsBetween vector items (queue.drop count).tail after := by
  refine next shown ⟨stands.vector, ?_⟩
  obtain ⟨front, back, joined, first, last⟩ := stands.items
  refine ⟨front ++ queue.take count, back, ?_, ?_, ?_⟩
  · rw [joined, List.append_assoc, ← List.append_assoc (queue.take count), List.take_append_drop]
  · simp only [first, last, List.length_append, List.length_take, Nat.add_min_add_left]
  · simp only [last, List.length_append, List.length_take, List.length_drop]
    omega

theorem step (shown : VectorShown vector items) (stands : StandsBetween vector items queue cursor)
    (call : CursorCall) :
    ∃ after, cursor.step call = .ok ((call.pop queue).1, after) ∧
      StandsBetween vector items (call.pop queue).2 after := by
  cases call with
  | next =>
      obtain ⟨after, stepped, later⟩ := stands.next shown
      exact ⟨after, read_bind.mpr ⟨_, stepped, rfl⟩, later⟩
  | nextLast =>
      obtain ⟨after, stepped, later⟩ := stands.nextLast shown
      exact ⟨after, read_bind.mpr ⟨_, stepped, rfl⟩, later⟩
  | nth count =>
      obtain ⟨after, stepped, later⟩ := stands.nth shown count
      exact ⟨after, read_bind.mpr ⟨_, stepped, rfl⟩, later⟩
  | remaining =>
      rw [VectorCursor.step, stands.remaining]
      exact ⟨cursor, rfl, stands⟩

theorem run (shown : VectorShown vector items) (stands : StandsBetween vector items queue cursor)
    (calls : List CursorCall) :
    ∃ after, cursor.run calls = .ok ((CursorCall.popAll calls queue).1, after) ∧
      StandsBetween vector items (CursorCall.popAll calls queue).2 after := by
  induction calls generalizing queue cursor with
  | nil => exact ⟨cursor, rfl, stands⟩
  | cons call calls ih =>
      obtain ⟨middle, stepped, between⟩ := stands.step shown call
      obtain ⟨after, ran, later⟩ := ih between
      exact ⟨after, read_bind.mpr ⟨_, stepped, read_bind.mpr ⟨_, ran, rfl⟩⟩, later⟩

end StandsBetween

end Walk

/-- What the walks over a vector with these elements come to. In `once` each element carries its
index, so that equal elements are told apart. -/
structure WalksOver {element : Kind} (vector : VectorView element) (items : List element.View) :
    Prop where
  queue : ∀ calls, ∃ last, vector.cursor.run calls = .ok ((CursorCall.popAll calls items).1, last) ∧
    last.remaining = (CursorCall.popAll calls items).2.length
  once : ∀ calls, let marked := CursorCall.popAll calls items.zipIdx
    (CursorCall.popAll calls items).1 = marked.1.map (CursorAnswer.map Prod.fst) ∧
      (marked.1.flatMap (·.item?.toList) ++
        (CursorCall.passedAll calls items.zipIdx ++ marked.2)).Perm items.zipIdx
  spent : ∀ calls answers last, vector.cursor.run calls = .ok (answers, last) →
    (∃ answer ∈ answers, answer.IsOver) ∨ last.remaining = 0 →
      ∀ later, ∃ more ended, last.run later = .ok (more, ended) ∧ ∀ answer ∈ more, answer.IsOver

theorem VectorShown.walksOver {element : Kind} {vector : VectorView element}
    {items : List element.View} (shown : VectorShown vector items) : WalksOver vector items where
  queue calls := by
    obtain ⟨last, ran, stands⟩ := (standsBetween_cursor shown).run shown calls
    exact ⟨last, ran, stands.remaining⟩
  once calls := by
    refine ⟨?_, CursorCall.perm_popAll calls items.zipIdx⟩
    have same := CursorCall.popAll_map Prod.fst calls items.zipIdx
    rw [List.zipIdx_map_fst] at same
    exact congrArg Prod.fst same
  spent calls answers last ran spent later := by
    obtain ⟨after, same, stands⟩ := (standsBetween_cursor shown).run shown calls
    cases ran.symm.trans same
    have empty : (CursorCall.popAll calls items).2 = [] := by
      rcases spent with ended | nothing
      · exact CursorCall.popAll_of_isOver ended
      · exact List.eq_nil_of_length_eq_zero (stands.remaining.symm.trans nothing)
    rw [empty] at stands
    obtain ⟨ended, ranLater, -⟩ := stands.run shown later
    exact ⟨_, ended, ranLater, (CursorCall.popAll_nil later).1⟩

/-- A vector whose elements can all be followed has a list of them, which reading by index agrees
with, inside the vector and past its end. A walk that is asked for elements from either end, for
later ones and for how many are left, in whatever order, answers as a queue of that list; it hands
out no element twice and drops none but on the way to a later one, and when nothing is left it stays
so. Where the elements are scalars other than booleans, the bytes of the vector are their encodings,
one after the other. -/
theorem VectorView.iteration_exact :
    (∀ (element : Kind) (vector : VectorView element),
      (∀ index < vector.length, ∃ item, vector.get index = .ok item) →
        ∃ items, VectorShown vector items ∧ WalksOver vector items) ∧
      ∀ (type : ScalarType) (buffer : Bytes) (position : Nat) (vector : VectorView (.scalar type))
        (items : List type.Value), type ≠ .bool → VectorView.load buffer position = .ok vector →
          VectorShown vector items → vector.bytes = .ok (items.flatMap type.encode) := by
  constructor
  · intro element vector followed
    obtain ⟨items, shown⟩ := VectorShown.exists_items followed
    exact ⟨items, shown, shown.walksOver⟩
  · intro type buffer position vector items exact loaded shown
    exact shown.bytes exact loaded

theorem iteration_exact_of_uint16 :
    let buffer : Bytes := [3, 0, 0, 0, 10, 0, 20, 0, 30, 0]
    let vector : VectorView (.scalar .uint16) := ⟨buffer, 0, 3⟩
    VectorView.load buffer 0 = .ok vector ∧
      (∀ index < vector.length, ∃ item, vector.get index = .ok item) ∧
        (∃ last, vector.cursor.run [.nextLast, .remaining, .nth 1, .next] =
          .ok ([.item (some 30), .count 2, .item (some 20), .item none], last)) ∧
            vector.bytes = .ok [10, 0, 20, 0, 30, 0] := by
  intro buffer vector
  have loaded : VectorView.load buffer 0 = .ok vector := ok_of_toOption (by decide +kernel)
  have followed : ∀ index < vector.length, ∃ item, vector.get index = .ok item := by
    have each : ∀ index : Fin 3, (vector.get index).toOption.isSome := by decide +kernel
    intro index inside
    obtain ⟨item, got⟩ := Option.isSome_iff_exists.mp (each ⟨index, inside⟩)
    exact ⟨item, ok_of_toOption got⟩
  have listed : vector.toList = .ok [10, 20, 30] := ok_of_toOption (by decide +kernel)
  obtain ⟨items, shown, walks⟩ := VectorView.iteration_exact.1 _ vector followed
  have bytes := VectorView.iteration_exact.2 _ _ _ vector items (by decide) loaded shown
  cases Except.ok.inj (shown.toList.symm.trans listed)
  obtain ⟨last, ran, -⟩ := walks.queue [.nextLast, .remaining, .nth 1, .next]
  exact ⟨loaded, followed, ⟨last, ran⟩, bytes⟩

end WireTables
