import Mathlib.Data.List.Forall2
import WireTables.Proofs.Document.LedgerRead

/-!
One document, written with defaults left out and again with defaults forced. Heads, padding and
vtables come apart, and offsets with them, but the ledgers of both builders say the same of each
slot. What a table holds is all that its readers see, so they only tell the two apart by asking
whether a field is there.
-/

namespace WireTables

open Build

inductive Call.SameButOffsets : Call → Call → Prop
  | same (call : Call) : SameButOffsets call call
  | addReference {kind : Kind} (target other : Offset kind) :
      SameButOffsets (.addReference target) (.addReference other)
  | storeReference {kind : Kind} (slot : Slot) (target other : Offset kind) :
      SameButOffsets (.storeReference slot target) (.storeReference slot other)
  | storeStruct {kind : Kind} (slot : Slot) (target other : Offset kind) :
      SameButOffsets (.storeStruct slot target) (.storeStruct slot other)
  | requireField (table other : Offset .table) (slot : Slot) :
      SameButOffsets (.requireField table slot) (.requireField other slot)
  | writeReferences {kind : Kind} (items others : List (Offset kind)) :
      SameButOffsets (.writeReferences items) (.writeReferences others)
  | writeSorted (key : KeyField) (tables others : List (Offset .table)) :
      SameButOffsets (.writeSorted key tables) (.writeSorted key others)
  | writeSortedBy (compare : TableView → TableView → Except Fault Ordering)
      (tables others : List (Offset .table)) :
      SameButOffsets (.writeSortedBy compare tables) (.writeSortedBy compare others)
  | finish (root other : Offset .table) (identifier : Option String) (sized : Bool) :
      SameButOffsets (.finish root identifier sized) (.finish other identifier sized)

inductive Content.SameButOffsets : Content → Content → Prop
  | same (content : Content) : SameButOffsets content content
  | reference (target other : UInt32) : SameButOffsets (.reference target) (.reference other)
  | struct (start other : UInt32) : SameButOffsets (.struct start) (.struct other)

theorem Content.SameButOffsets.scalar {type : ScalarType} {value default : type.Value}
    {other : Content} (same : SameButOffsets (.scalar type value default) other) :
    other = .scalar type value default := by
  cases same
  rfl

/-- The same addition, with defaults left out on one side and forced on the other. -/
structure Entry.Mirrors (omitting forcing : Entry) : Prop where
  slot : omitting.slot = forcing.slot
  content : Content.SameButOffsets omitting.content forcing.content
  omits : omitting.forced = false
  forces : forcing.forced = true

structure Ledger.Mirrors (omitting forcing : Ledger) : Prop where
  pending : List.Forall₂ Entry.Mirrors omitting.pending forcing.pending
  tables : List.Forall₂ (fun left right : Account => List.Forall₂ Entry.Mirrors left.entries
    right.entries) omitting.tables forcing.tables

theorem Call.SameButOffsets.unforced {call other : Call} (same : call.SameButOffsets other)
    (unforced : ∀ force, call ≠ .forceDefaults force) (force : Bool) :
    other ≠ .forceDefaults force := by
  cases same with
  | same => exact unforced force
  | _ => nofun

namespace Ledger.Mirrors

variable {omitting forcing : Ledger} {left right after last : Builder} {call other : Call}
  {answer reply : Answer}

theorem nothing : Ledger.empty.Mirrors .empty := ⟨.nil, .nil⟩

theorem add {entry mirror : Entry} (mirrors : omitting.Mirrors forcing)
    (entered : entry.Mirrors mirror) :
    Ledger.Mirrors ⟨entry :: omitting.pending, omitting.tables⟩
      ⟨mirror :: forcing.pending, forcing.tables⟩ :=
  ⟨.cons entered mirrors.pending, mirrors.tables⟩

theorem step (mirrors : omitting.Mirrors forcing) (same : call.SameButOffsets other)
    (omits : left.forceDefaults = false) (forces : right.forceDefaults = true)
    (stepped : call.step left = .ok (answer, after))
    (steppedToo : other.step right = .ok (reply, last)) (alike : answer.isOk = reply.isOk) :
    (omitting.after left call answer).Mirrors (forcing.after right other reply) := by
  cases answer with
  | error error =>
      cases reply with
      | ok reply => cases alike
      | error other =>
          cases same with
          | same call =>
              cases call with
              | clear => exact nothing
              | _ => exact mirrors
          | _ => exact mirrors
  | ok found =>
      cases reply with
      | error error => cases alike
      | ok reply =>
          cases same with
          | same call =>
              cases call with
              | clear => exact nothing
              | openTable count => exact ⟨.nil, mirrors.tables⟩
              | closeTable =>
                  obtain ⟨table, rfl⟩ := object_of_closeTable stepped
                  obtain ⟨mirror, rfl⟩ := object_of_closeTable steppedToo
                  exact ⟨.nil, .cons mirrors.pending mirrors.tables⟩
              | storeScalar | storeOptional | storeReference | storeStruct =>
                  exact mirrors.add ⟨rfl, .same _, omits, forces⟩
              | _ => exact mirrors
          | storeReference slot target other =>
              exact mirrors.add ⟨rfl, .reference target.value other.value, omits, forces⟩
          | storeStruct slot target other =>
              exact mirrors.add ⟨rfl, .struct target.value other.value, omits, forces⟩
          | _ => exact mirrors

theorem through {calls others : List Call} {stages ends : List (Answer × Builder)}
    (mirrors : omitting.Mirrors forcing) (accounted : left.Accounted omitting)
    (accountedToo : right.Accounted forcing) (omits : left.forceDefaults = false)
    (forces : right.forceDefaults = true) (same : List.Forall₂ Call.SameButOffsets calls others)
    (unforced : ∀ call ∈ calls, ∀ force, call ≠ .forceDefaults force)
    (ran : left.run calls = .ok stages) (ranToo : right.run others = .ok ends)
    (alike : stages.map (·.1.isOk) = ends.map (·.1.isOk)) :
    (omitting.through left calls stages).Mirrors (forcing.through right others ends) := by
  -- Both runs at once: neither builder changes whether it forces defaults.
  induction same generalizing omitting forcing left right stages ends with
  | nil => exact mirrors
  | cons sameHere _ ih =>
      rcases Builder.run_cons.mp ran with ⟨answer, after, later, stepped, ranLater, rfl⟩
      rcases Builder.run_cons.mp ranToo with ⟨reply, last, rest, steppedToo, ranRest, rfl⟩
      have sound := Builder.sound_of_step accounted.agrees.sound stepped
      have soundToo := Builder.sound_of_step accountedToo.agrees.sound steppedToo
      have books := Books.of_step accounted.agrees.sound.ordered sound.ordered.small stepped
      have booksToo :=
        Books.of_step accountedToo.agrees.sound.ordered soundToo.ordered.small steppedToo
      rw [List.map_cons, List.map_cons, List.cons.injEq] at alike
      rw [List.forall_mem_cons] at unforced
      exact ih (mirrors.step sameHere omits forces stepped steppedToo alike.1)
        (accounted.step _ stepped) (accountedToo.step _ steppedToo)
        ((books.forceDefaults unforced.1).trans omits)
        ((booksToo.forceDefaults (sameHere.unforced unforced.1)).trans forces)
        unforced.2 ranLater ranRest alike.2

end Ledger.Mirrors

def Entry.isDefault (entry : Entry) : Bool :=
  match entry.content with
  | .scalar type value default => type.sameEncoding value default
  | _ => false

/-- The slot was given a struct that starts at the very end. It has no bytes, and cannot be told
from none. -/
def Bare (entries : List Entry) (slot : Slot) : Prop :=
  ∃ entry ∈ entries, entry.slot = slot ∧ entry.content = .struct 0

/-- What is read from a table that was written with defaults left out, and from the one with
defaults forced. Where they are forced something may stand behind a struct that was bare without
them. -/
structure Indistinct (omitting forcing : List Entry) (left right : TableView) : Prop where
  scalar : ∀ entry ∈ omitting, ∀ (type : ScalarType) (value default : type.Value),
    entry.content = .scalar type value default →
      left.scalarAt entry.slot type default = .ok value ∧
        right.scalarAt entry.slot type default = .ok value ∧
        left.has entry.slot = .ok (!type.sameEncoding value default) ∧
        right.has entry.slot = .ok true
  presence : ∀ (slot : Slot) (index : Nat), indexOfSlot slot = some index →
    ∃ here there : Bool, left.has slot = .ok here ∧ right.has slot = .ok there ∧
      (here ≠ there ↔ (∃ entry ∈ omitting, entry.slot = slot ∧ entry.isDefault = true) ∨
        Xor (Bare omitting slot) (Bare forcing slot))

section Reading

variable {omitting forcing : List Entry} {entry mirror : Entry} {slot : Slot}

theorem exists_mirror (mirrors : List.Forall₂ Entry.Mirrors omitting forcing)
    (member : entry ∈ omitting) : ∃ mirror ∈ forcing, entry.Mirrors mirror := by
  induction mirrors with
  | nil => cases member
  | cons here _ ih =>
      rcases List.mem_cons.mp member with rfl | member
      · exact ⟨_, List.mem_cons_self, here⟩
      · obtain ⟨mirror, known, mirrored⟩ := ih member
        exact ⟨mirror, List.mem_cons_of_mem _ known, mirrored⟩

theorem slots_of_mirrors (mirrors : List.Forall₂ Entry.Mirrors omitting forcing) :
    omitting.map Entry.slot = forcing.map Entry.slot := by
  induction mirrors with
  | nil => rfl
  | cons here _ ih => rw [List.map_cons, List.map_cons, here.slot, ih]

theorem Entry.Mirrors.stored_ne_iff (mirrors : entry.Mirrors mirror) :
    entry.stored ≠ mirror.stored ↔ entry.isDefault = true ∨
      Xor (entry.content = .struct 0) (mirror.content = .struct 0) := by
  rcases entry with ⟨slot, content, forced⟩
  rcases mirror with ⟨other, mirrored, forcedToo⟩
  rcases mirrors with ⟨-, same, rfl, rfl⟩
  simp only [Entry.stored, Entry.isDefault] at same ⊢
  cases same with
  | same =>
      cases content with
      | scalar type value default => simp [Content.stored]
      | optional type value => simp [Content.stored]
      | reference target => simp [Content.stored]
      | struct start => simp [Content.stored]
  | reference target other => simp [Content.stored]
  | struct start other =>
      have kept (word : UInt32) : (word != 0) = !decide (word = 0) := rfl
      by_cases bare : start = 0 <;> by_cases bareToo : other = 0 <;>
        simp [Content.stored, kept, bare, bareToo]

theorem exists_at_slot {entries : List Entry} {holds : Entry → Prop}
    (distinct : (entries.map Entry.slot).Nodup) (member : entry ∈ entries) :
    (∃ other ∈ entries, other.slot = entry.slot ∧ holds other) ↔ holds entry := by
  constructor
  · rintro ⟨other, among, same, held⟩
    rwa [List.inj_on_of_nodup_map distinct among member same] at held
  · exact fun held => ⟨entry, member, rfl, held⟩

theorem isSome_held (distinct : (omitting.map Entry.slot).Nodup) (member : entry ∈ omitting) :
    (held omitting entry.slot).isSome = entry.stored := by
  rw [held_of_distinct distinct member]
  cases entry.stored <;> rfl

theorem isSome_held_ne_iff (mirrors : List.Forall₂ Entry.Mirrors omitting forcing)
    (distinct : (omitting.map Entry.slot).Nodup) :
    (held omitting slot).isSome ≠ (held forcing slot).isSome ↔
      (∃ entry ∈ omitting, entry.slot = slot ∧ entry.isDefault = true) ∨
        Xor (Bare omitting slot) (Bare forcing slot) := by
  have slots := slots_of_mirrors mirrors
  have distinctToo := slots ▸ distinct
  by_cases added : slot ∈ omitting.map Entry.slot
  · obtain ⟨entry, member, rfl⟩ := List.mem_map.mp added
    obtain ⟨mirror, known, mirrored⟩ := exists_mirror mirrors member
    have held_mirror := isSome_held distinctToo known
    have bareToo : Bare forcing mirror.slot ↔ mirror.content = .struct 0 :=
      exists_at_slot distinctToo known
    rw [← mirrored.slot] at held_mirror bareToo
    rw [isSome_held distinct member, held_mirror, exists_at_slot distinct member, bareToo, Bare,
      exists_at_slot distinct member]
    exact mirrored.stored_ne_iff
  · have none {entries : List Entry} {holds : Entry → Prop} (missing : slot ∉ entries.map Entry.slot) :
        ¬ ∃ entry ∈ entries, entry.slot = slot ∧ holds entry :=
      fun ⟨entry, member, same, _⟩ => missing (List.mem_map.mpr ⟨entry, member, same⟩)
    rw [held_of_absent added, held_of_absent (slots ▸ added)]
    simp [Bare, none added, none (slots ▸ added)]

/-- A reader that asks for a field with the default of its writer cannot tell what was left out. -/
theorem indistinct_of_mirrors {omitted forced : Account} {left right : TableView} {bytes : Bytes}
    (mirrors : List.Forall₂ Entry.Mirrors omitted.entries forced.entries)
    (distinct : (omitted.entries.map Entry.slot).Nodup) (shows : omitted.ShownBy left)
    (showsToo : forced.ShownBy right) (stands : forced.StandsIn bytes) :
    Indistinct omitted.entries forced.entries left right where
  scalar entry member type value default written := by
    obtain ⟨mirror, known, mirrored⟩ := exists_mirror mirrors member
    rcases mirrored with ⟨slot, content, omits, forces⟩
    rw [written] at content
    have stored : mirror.stored = true := by
      rw [Entry.stored, content.scalar, forces]
      rfl
    have holdsToo := held_of_distinct (slots_of_mirrors mirrors ▸ distinct) known
    rw [if_pos stored, content.scalar, ← slot] at holdsToo
    -- Nothing is forced into a slot without a field, so that a reader finds the default in it.
    obtain ⟨index, place⟩ := stands.indexed holdsToo
    have holds := held_of_distinct distinct member
    rw [Entry.stored, written, omits, Content.stored, Bool.false_or] at holds
    refine ⟨?_, (showsToo.readBy holdsToo).1 default, ?_, showsToo.has holdsToo⟩
    · cases same : type.sameEncoding value default with
      | true =>
          rw [same] at holds
          rw [eq_of_sameEncoding same]
          exact (shows.lacks holds place).scalarAt type default
      | false =>
          rw [same] at holds
          exact (shows.readBy holds).1 default
    · rw [shows.has_eq place, holds]
      cases type.sameEncoding value default <;> rfl
  presence slot index place :=
    ⟨_, _, shows.has_eq place, showsToo.has_eq place, isSome_held_ne_iff mirrors distinct⟩

end Reading

theorem forall₂_imp_mem {α β : Type} {relation stronger : α → β → Prop} {items : List α}
    {others : List β} (related : List.Forall₂ stronger items others)
    (each : ∀ item ∈ items, ∀ other ∈ others, stronger item other → relation item other) :
    List.Forall₂ relation items others := by
  induction related with
  | nil => exact .nil
  | cons here _ ih =>
      refine .cons (each _ List.mem_cons_self _ List.mem_cons_self here) (ih ?_)
      intro item member other known
      exact each item (List.mem_cons_of_mem _ member) other (List.mem_cons_of_mem _ known)

/-- The same calls, answered alike, finish two buffers whose tables correspond, each to the one that
was closed at the same time. Where no slot was added to twice, every scalar reads as it was written
in both, and only the defaults that were left out are missing, and structs that are bare where
nothing is forced behind them. -/
theorem defaults_invisible {left right : Builder} {calls others : List Call}
    {stages ends : List (Answer × Builder)} {bytes whole : Bytes}
    (accounted : left.Accounted .empty) (accountedToo : right.Accounted .empty)
    (omits : left.forceDefaults = false) (forces : right.forceDefaults = true)
    (same : List.Forall₂ Call.SameButOffsets calls others)
    (unforced : ∀ call ∈ calls, ∀ force, call ≠ .forceDefaults force)
    (ran : left.run calls = .ok stages) (ranToo : right.run others = .ok ends)
    (alike : stages.map (·.1.isOk) = ends.map (·.1.isOk))
    (finished : (left.lastOf stages).finishedBytes = .ok bytes)
    (finishedToo : (right.lastOf ends).finishedBytes = .ok whole) :
    List.Forall₂ (fun omitted forced : Account => (omitted.entries.map Entry.slot).Nodup →
      ∃ here there, TableView.load bytes (bytes.length - omitted.table.toNat) = .ok here ∧
        TableView.load whole (whole.length - forced.table.toNat) = .ok there ∧
          Indistinct omitted.entries forced.entries here there)
      (Ledger.empty.through left calls stages).tables
      (Ledger.empty.through right others ends).tables := by
  have mirrors := Ledger.Mirrors.nothing.through accounted accountedToo omits forces same unforced
    ran ranToo alike
  refine forall₂_imp_mem mirrors.tables fun omitted known forced knownToo mirrored distinct => ?_
  have omitting := accounted.of_run ran
  have forcing := accountedToo.of_run ranToo
  rw [← Builder.written_of_finishedBytes finished,
    ← Builder.written_of_finishedBytes finishedToo]
  obtain ⟨here, loaded, -, shows⟩ := omitting.read known List.suffix_rfl
  obtain ⟨there, loadedToo, -, showsToo⟩ := forcing.read knownToo List.suffix_rfl
  exact ⟨here, there, loaded, loadedToo, indistinct_of_mirrors mirrored distinct shows showsToo
    (forcing.agrees.tables forced knownToo)⟩

theorem defaults_invisible_of_zeros :
    let bytes : Bytes := [12, 0, 0, 0, 0, 0, 6, 0, 8, 0, 4, 0, 6, 0, 0, 0, 0, 0, 0, 128]
    let whole : Bytes := [12, 0, 0, 0, 8, 0, 20, 0, 16, 0, 4, 0, 8, 0, 0, 0, 0, 0, 0, 0, 0, 0, 0, 0,
      0, 0, 0, 0, 0, 0, 0, 128]
    ∃ here there, TableView.load bytes 12 = .ok here ∧ TableView.load whole 12 = .ok there ∧
      here.scalarAt 4 .float32 ⟨0⟩ = .ok ⟨0x80000000⟩ ∧
      there.scalarAt 4 .float32 ⟨0⟩ = .ok ⟨0x80000000⟩ ∧
      here.has 4 = .ok true ∧ there.has 4 = .ok true ∧
      here.has 6 = .ok false ∧ there.has 6 = .ok true := by
  intro bytes whole
  let calls (root : UInt32) : List Call := [.openTable 2, .storeScalar 4 .float32 ⟨0x80000000⟩ ⟨0⟩,
    .storeScalar 6 .float64 ⟨0⟩ ⟨0⟩, .closeTable, .finish ⟨root⟩ none false]
  let entries (forced : Bool) : List Entry :=
    [⟨6, .scalar .float64 ⟨0⟩ ⟨0⟩, forced⟩, ⟨4, .scalar .float32 ⟨0x80000000⟩ ⟨0⟩, forced⟩]
  let outcome (forced : Bool) (root : UInt32) :=
    ((fun stages => (stages.map fun stage : Answer × Builder => stage.1.isOk,
      ((Builder.ofOptions ⟨0, forced⟩).lastOf stages).finishedBytes.toOption,
      (Ledger.empty.through (.ofOptions ⟨0, forced⟩) (calls root) stages).tables)) <$>
        (Builder.ofOptions ⟨0, forced⟩).run (calls root)).toOption
  have omitted : outcome false 8 =
    some (List.replicate 5 true, some bytes, [⟨8, entries false⟩]) := by decide +kernel
  have forced : outcome true 20 =
    some (List.replicate 5 true, some whole, [⟨20, entries true⟩]) := by decide +kernel
  obtain ⟨stages, ran, shown⟩ := read_map.mp (ok_of_toOption omitted)
  obtain ⟨ends, ranToo, shownToo⟩ := read_map.mp (ok_of_toOption forced)
  simp only [Prod.mk.injEq] at shown shownToo
  obtain ⟨answered, finished, tables⟩ := shown
  obtain ⟨answeredToo, finishedToo, tablesToo⟩ := shownToo
  have same : List.Forall₂ Call.SameButOffsets (calls 8) (calls 20) :=
    .cons (.same _) (.cons (.same _) (.cons (.same _) (.cons (.same _) (.cons (.finish ..) .nil))))
  have related := defaults_invisible (.new _ (by decide)) (.new _ (by decide)) rfl rfl same
    (by simp [calls]) ran ranToo (answered.trans answeredToo.symm) (ok_of_toOption finished)
    (ok_of_toOption finishedToo)
  rw [tables, tablesToo, List.forall₂_cons] at related
  obtain ⟨here, there, loaded, loadedToo, indistinct⟩ := related.1 (by decide)
  obtain ⟨reads, readsToo, present, presentToo⟩ :=
    indistinct.scalar ⟨4, _, _⟩ (.tail _ (.head _)) .float32 ⟨0x80000000⟩ ⟨0⟩ rfl
  obtain ⟨-, -, absent, forcedThere⟩ :=
    indistinct.scalar ⟨6, _, _⟩ (.head _) .float64 ⟨0⟩ ⟨0⟩ rfl
  exact ⟨here, there, loaded, loadedToo, reads, readsToo, present, presentToo, absent, forcedThere⟩

/-- A forced default stands behind a struct that without it is bare: the struct is there in one of
the tables and not in the other, although it was not left out as a default. -/
theorem presence_differs_of_bare_struct :
    let calls (start root : UInt32) : List Call := [.openTable 2,
      .storeScalar 4 .uint32 (0 : UInt32) 0, .storeStruct 6 (⟨start⟩ : Offset (.struct 0)),
      .closeTable, .finish ⟨root⟩ none false]
    let bytes : Bytes := [8, 0, 0, 0, 4, 0, 4, 0, 4, 0, 0, 0]
    let whole : Bytes := [12, 0, 0, 0, 8, 0, 8, 0, 4, 0, 4, 0, 8, 0, 0, 0, 0, 0, 0, 0]
    ((fun stages => (stages.map fun stage : Answer × Builder => stage.1.isOk,
        ((Builder.ofOptions ⟨0, false⟩).lastOf stages).finishedBytes.toOption)) <$>
          (Builder.ofOptions ⟨0, false⟩).run (calls 0 4)).toOption =
        some (List.replicate 5 true, some bytes) ∧
      ((fun stages => (stages.map fun stage : Answer × Builder => stage.1.isOk,
        ((Builder.ofOptions ⟨0, true⟩).lastOf stages).finishedBytes.toOption)) <$>
          (Builder.ofOptions ⟨0, true⟩).run (calls 4 8)).toOption =
        some (List.replicate 5 true, some whole) ∧
      (TableView.load bytes 8 >>= fun table => table.has 6).toOption = some false ∧
      (TableView.load whole 12 >>= fun table => table.has 6).toOption = some true := by
  intro calls bytes whole
  refine ⟨?_, ?_, ?_, ?_⟩
  · decide +kernel
  · decide +kernel
  · decide +kernel
  · decide +kernel

end WireTables
