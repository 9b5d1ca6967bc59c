import WireTables.Proofs.Document.LedgerRead
import WireTables.Proofs.Document.Origin

/-!
How the tables of a session lie to each other. The fields of a table were stored after all earlier
tables were closed and before it was closed itself, so no two tables have bytes of a field in common.
Every vtable was written while some table was closed, whichever tables share it.
-/

namespace WireTables

open Build

def Turn.Wrote (turn : Turn) (distance width : Nat) : Prop :=
  turn.before.storage.size + width ≤ distance ∧ distance ≤ turn.after.storage.size

theorem Turn.Stored.wrote {turn : Turn} {slot : Slot} {content : Content} {location : UInt32}
    (stored : turn.Stored slot content location) : turn.Wrote location.toNat content.width := by
  rw [Turn.Wrote, stored.place]
  exact ⟨stored.wide, Nat.le_refl _⟩

def WroteClosing (turns : List Turn) (distance width : Nat) : Prop :=
  ∃ turn ∈ turns, turn.call = .closeTable ∧ turn.Wrote distance width

theorem WroteClosing.later {turns : List Turn} {distance width : Nat}
    (wrote : WroteClosing turns distance width) (turn : Turn) :
    WroteClosing (turn :: turns) distance width := by
  rcases wrote with ⟨origin, member, closes, wrote⟩
  exact ⟨origin, List.mem_cons_of_mem _ member, closes, wrote⟩

theorem vtableWidth_eq {bytes : Bytes} {distance : Nat} {table start otherTable otherStart : UInt32}
    {fields others : List UInt32}
    (stands : StandsAt bytes distance (vtableBytes table start fields))
    (other : StandsAt bytes distance (vtableBytes otherTable otherStart others))
    (small : vtableWidth fields ≤ maxEntry) (otherSmall : vtableWidth others ≤ maxEntry) :
    vtableWidth fields = vtableWidth others := by
  have size := stands.beginning.load_shortWord
  have same := Except.ok.inj (size.symm.trans other.beginning.load_shortWord)
  rw [← toNat_ofNat_of_entry small, same, toNat_ofNat_of_entry otherSmall]

section VTables

variable {first last before after : Builder} {list : List Turn} {call : Call} {answer : Answer}

structure Kept (turns : List Turn) (builder : Builder) (vtable : UInt32) (fields : List UInt32) :
    Prop where
  stands : ∃ table start,
    StandsAt builder.storage.written vtable.toNat (vtableBytes table start fields)
  small : vtableWidth fields ≤ maxEntry
  wrote : WroteClosing turns vtable.toNat (vtableWidth fields)

theorem Kept.later {vtable : UInt32} {fields : List UInt32} (kept : Kept list before vtable fields)
    (turn : Turn) (suffix : before.storage.written <:+ after.storage.written) :
    Kept (turn :: list) after vtable fields where
  stands := by
    rcases kept.stands with ⟨table, start, stands⟩
    exact ⟨table, start, stands.of_suffix suffix⟩
  small := kept.small
  wrote := kept.wrote.later turn

theorem kept_of_closed {start table vtable : UInt32} {fields : List UInt32}
    (closed : Closed before after start fields table vtable)
    (known : ∀ vtable ∈ before.vtables, ∃ fields, Kept list before vtable fields) :
    Kept (⟨before, .closeTable, answer, after⟩ :: list) after vtable fields where
  stands := ⟨table, start, closed.standing⟩
  small := closed.vtableSize
  wrote := by
    rcases closed.written with ⟨front, written, ⟨-, cached, -⟩ | ⟨rfl, same, -⟩⟩
    · rcases known vtable cached with ⟨others, kept⟩
      rcases kept.stands with ⟨otherTable, otherStart, stands⟩
      rw [vtableWidth_eq closed.standing (stands.of_suffix closed.suffix) closed.vtableSize
        kept.small]
      exact kept.wrote.later _
    · refine ⟨_, List.mem_cons_self, rfl, ?_, ?_⟩
      · have size := congrArg List.length written
        simp only [List.length_append, length_vtableBytes, ← before.storage.size_eq,
          ← after.storage.size_eq] at size
        rw [same, closed.headed]
        change before.storage.size + _ ≤ _
        omega
      · rw [same, closed.headed]

theorem Call.vtables_of_step (ordered : before.Ordered) (kept : call ≠ .clear)
    (stepped : call.step before = .ok (answer, after)) :
    after.vtables = before.vtables ∨ ∃ start fields table vtable, call = .closeTable ∧
      answer = .ok (.object table) ∧ Closed before after start fields table vtable := by
  rcases Call.changes_or_closed kept stepped with changes | ⟨offset, closes, answered, ran⟩
  · exact .inl (KeepsVTables.vtables_of_changes changes)
  · obtain ⟨start, fields, vtable, closed⟩ := closeTable_done ordered ran
    exact .inr ⟨start, fields, offset.value, vtable, closes, answered, closed⟩

theorem Turns.each_vtable (holds : List Turn → Builder → UInt32 → Prop)
    (turns : Turns first list last) (ordered : first.Ordered) (none : first.vtables = [])
    (later : ∀ {list : List Turn} {before : Builder} {turn : Turn} {vtable : UInt32},
      before.storage.written <:+ turn.after.storage.written → holds list before vtable →
        holds (turn :: list) turn.after vtable)
    (written : ∀ {list : List Turn} {before after : Builder} {answer : Answer}
      {start table vtable : UInt32} {fields : List UInt32},
      Closed before after start fields table vtable →
        (∀ vtable ∈ before.vtables, holds list before vtable) →
          holds (⟨before, .closeTable, answer, after⟩ :: list) after vtable) :
    ∀ vtable ∈ last.vtables, holds list last vtable := by
  induction turns with
  | nothing =>
      intro vtable cached
      rw [none] at cached
      cases cached
  | made early kept stepped small ih =>
      have earlyOrdered := early.ordered ordered
      have suffix := Builder.suffix_of_changes (Call.changes_of_ordered kept earlyOrdered stepped)
      intro vtable cached
      rcases Call.vtables_of_step earlyOrdered kept stepped with
        same | ⟨start, fields, table, found, rfl, rfl, closed⟩
      · exact later suffix (ih vtable (same ▸ cached))
      · rcases closed.written with ⟨front, -, ⟨-, -, same⟩ | ⟨-, -, grown⟩⟩
        · exact later suffix (ih vtable (same ▸ cached))
        · rw [grown, List.mem_append, List.mem_singleton] at cached
          rcases cached with cached | rfl
          · exact later suffix (ih vtable cached)
          · exact written closed ih

theorem Turns.kept (turns : Turns first list last) (ordered : first.Ordered)
    (none : first.vtables = []) :
    ∀ vtable ∈ last.vtables, ∃ fields, Kept list last vtable fields := by
  apply turns.each_vtable (fun list builder vtable => ∃ fields, Kept list builder vtable fields)
    ordered none
  case later =>
    rintro list before turn vtable suffix ⟨fields, known⟩
    exact ⟨fields, known.later turn suffix⟩
  case written => exact fun closed known => ⟨_, kept_of_closed closed known⟩

end VTables

/-- A table with the place of its vtable, and with what was added to it. -/
structure Layout extends TableRecord where
  vtablePlace : UInt32
  entries : List Entry

def Layout.account (layout : Layout) : Account := ⟨layout.table, layout.entries⟩

/-- Where a table came from: the turns that wrote the distance to its vtable and the vtable, and
those that stored what its slots hold. -/
structure Built (turns : List Turn) (layout : Layout) : Prop where
  closed : ∃ turn ∈ turns, TableStands turn.after.storage.written layout.start layout.table
    layout.vtablePlace layout.fields
  link : WroteClosing turns layout.table.toNat referenceWidth
  vtable : WroteClosing turns layout.vtablePlace.toNat (vtableWidth layout.fields)
  started : layout.start.toNat ≤ layout.table.toNat
  traced : ∀ slot, Traced turns layout.start slot (placeOf layout.fields slot)
    (held layout.entries slot)
  below : ∀ location ∈ layout.fields, location.toNat + referenceWidth ≤ layout.table.toNat

theorem Built.later {turns : List Turn} {layout : Layout} (built : Built turns layout)
    (turn : Turn) : Built (turn :: turns) layout where
  closed := by
    rcases built.closed with ⟨closing, member, stands⟩
    exact ⟨closing, List.mem_cons_of_mem _ member, stands⟩
  link := built.link.later turn
  vtable := built.vtable.later turn
  started := built.started
  traced slot := (built.traced slot).later turn
  below := built.below

/-- The tables, the latest first: each was started when all earlier ones were closed. -/
inductive Stacked (turns : List Turn) : List Layout → Nat → Prop
  | none (high : Nat) : Stacked turns [] high
  | above {layout : Layout} {layouts : List Layout} {high : Nat}
      (earlier : Stacked turns layouts layout.start.toNat) (built : Built turns layout)
      (below : layout.table.toNat ≤ high) : Stacked turns (layout :: layouts) high

namespace Stacked

variable {turns : List Turn} {layouts : List Layout} {layout other : Layout} {high : Nat}

theorem later (stacked : Stacked turns layouts high) (turn : Turn) :
    Stacked (turn :: turns) layouts high := by
  induction stacked with
  | none high => exact .none high
  | above _ built below ih => exact .above ih (built.later turn) below

theorem higher {higher : Nat} (stacked : Stacked turns layouts high) (grown : high ≤ higher) :
    Stacked turns layouts higher := by
  cases stacked with
  | none => exact .none higher
  | above earlier built below => exact .above earlier built (Nat.le_trans below grown)

theorem built (stacked : Stacked turns layouts high) (member : layout ∈ layouts) :
    Built turns layout ∧ layout.table.toNat ≤ high := by
  induction stacked with
  | none => cases member
  | above earlier built below ih =>
      rcases List.mem_cons.mp member with rfl | member
      · exact ⟨built, below⟩
      · obtain ⟨found, reached⟩ := ih member
        exact ⟨found, Nat.le_trans reached (Nat.le_trans built.started below)⟩

theorem apart (stacked : Stacked turns layouts high) (one : layout ∈ layouts)
    (two : other ∈ layouts) (differ : layout ≠ other) :
    layout.table.toNat ≤ other.start.toNat ∨ other.table.toNat ≤ layout.start.toNat := by
  induction stacked with
  | none => cases one
  | above earlier built below ih =>
      rcases List.mem_cons.mp one with rfl | before <;> rcases List.mem_cons.mp two with rfl | after
      · exact absurd rfl differ
      · exact .inr (earlier.built after).2
      · exact .inl (earlier.built before).2
      · exact ih before after

end Stacked

section Stacking

variable {first last before after : Builder} {list : List Turn} {ledger : Ledger}
  {start table vtable : UInt32} {fields : List UInt32} {answer : Answer}

structure Ledger.Piles (ledger : Ledger) (turns : List Turn) (builder : Builder) : Prop where
  closed : ∃ layouts, Stacked turns layouts builder.storage.size ∧
    layouts.map Layout.account = ledger.tables
  opened : ∀ start fields, builder.openObject = .table start fields →
    ∃ layouts, Stacked turns layouts start.toNat ∧ layouts.map Layout.account = ledger.tables

theorem built_of_closed {list : List Turn} {entries : List Entry} (ordered : before.Ordered)
    (small : after.storage.size ≤ maxBufferSize)
    (closed : Closed before after start fields table vtable)
    (known : ∀ vtable ∈ before.vtables, ∃ fields, Kept list before vtable fields)
    (traced : ∀ slot, Traced list start slot (placeOf fields slot) (held entries slot)) :
    Built (⟨before, .closeTable, answer, after⟩ :: list) ⟨⟨table, start, fields⟩, vtable, entries⟩ where
  closed := ⟨_, List.mem_cons_self, closed.stands small⟩
  link := by
    refine ⟨_, List.mem_cons_self, rfl, ?_, ?_⟩
    · change before.storage.size + referenceWidth ≤ table.toNat
      rw [closed.place]
      omega
    · have reached := (closed.stands small).link.distance_le
      rw [← after.storage.size_eq] at reached
      exact reached
  vtable := (kept_of_closed closed known).wrote
  started := by
    have reached := (ordered.opened start fields closed.opened).1
    change start.toNat ≤ table.toNat
    rw [closed.place]
    omega
  traced slot := (traced slot).later _
  below location member := by
    have reached := (ordered.opened start fields closed.opened).2 location member
    change location.toNat + referenceWidth ≤ table.toNat
    rw [closed.place]
    omega

theorem Ledger.Piles.of_grown {turn : Turn} (piles : ledger.Piles list before)
    (grown : before.storage.size ≤ after.storage.size) {entries : List Entry}
    (opened : ∀ start fields, after.openObject = .table start fields →
      ∃ same, before.openObject = .table start same) :
    Ledger.Piles ⟨entries, ledger.tables⟩ (turn :: list) after where
  closed := by
    rcases piles.closed with ⟨layouts, stacked, same⟩
    exact ⟨layouts, (stacked.later turn).higher grown, same⟩
  opened start fields stillOpen := by
    obtain ⟨earlier, wasOpen⟩ := opened start fields stillOpen
    rcases piles.opened start earlier wasOpen with ⟨layouts, stacked, same⟩
    exact ⟨layouts, stacked.later turn, same⟩

theorem Turns.piles (turns : Turns first list last) (ordered : first.Ordered)
    (idle : first.openObject = .nothing) (none : first.vtables = []) :
    (Ledger.empty.over list).Piles list last := by
  induction turns with
  | nothing =>
      refine ⟨⟨[], .none _, rfl⟩, fun start fields opened => ?_⟩
      rw [idle] at opened
      cases opened
  | made early kept stepped small ih =>
      rename_i earlier before after call answer
      have earlyOrdered := early.ordered ordered
      have grown := Builder.size_le_of_changes (Call.changes_of_ordered kept earlyOrdered stepped)
      rw [Ledger.over]
      cases Books.of_step earlyOrdered small stepped with
      | cleared => exact absurd rfl kept
      | forced force reply same =>
          exact ih.of_grown grown fun start fields opened => ⟨fields, by rw [← opened, same]⟩
      | opened count reply same =>
          rcases ih.closed with ⟨layouts, stacked, tables⟩
          refine ⟨⟨layouts, (stacked.later _).higher grown, tables⟩, ?_⟩
          intro start fields opened
          rw [same] at opened
          cases opened
          rw [earlyOrdered.toNat_head]
          exact ⟨layouts, stacked.later _, tables⟩
      | stored reply adds stores =>
          rw [Ledger.after_of_content reply adds]
          refine ih.of_grown grown fun start fields opened => ?_
          cases stores with
          | omitted start already unchanged wasOpen stillOpen =>
              rw [stillOpen] at opened
              cases opened
              exact ⟨already, wasOpen⟩
          | kept start already index location wasOpen stillOpen =>
              rw [stillOpen] at opened
              cases opened
              exact ⟨already, wasOpen⟩
      | closed closed =>
          rename_i start table vtable fields
          rcases ih.opened start fields closed.opened with ⟨layouts, stacked, tables⟩
          have reached := (closed.stands small).link.distance_le
          rw [← after.storage.size_eq] at reached
          refine ⟨⟨_ :: layouts, .above (stacked.later _) (built_of_closed earlyOrdered small closed
            (early.kept ordered none) (early.traced ordered idle start fields closed.opened)) reached,
              congrArg (List.cons _) tables⟩, ?_⟩
          intro start fields opened
          rw [closed.openObject] at opened
          cases opened
      | spared unchanged spares =>
          rw [unchanged]
          refine ih.of_grown grown fun start fields opened => ?_
          rcases spares.openObject with same | none
          · exact ⟨fields, same ▸ opened⟩
          · exact absurd opened (none start fields)

end Stacking

end WireTables
