import WireTables.Proofs.Document.Origin

namespace WireTables

def Turn.recording (turn : Turn) : Option (Slot × UInt32) :=
  match turn.answer, turn.call.content? with
  | .ok _, some (slot, content) =>
      if content.stored turn.before.forceDefaults then some (slot, turn.after.head) else none
  | _, _ => none

def Turn.startsTable (turn : Turn) : Bool :=
  match turn.answer, turn.call with
  | .ok _, .openTable _ => true
  | _, _ => false

/-- The location recorded last for the slot since a table was started, or zero. The latest turn
comes first. -/
def recordedLast (slot : Slot) : List Turn → UInt32
  | [] => 0
  | turn :: earlier =>
      if turn.startsTable then 0
      else
        match turn.recording with
        | some (recorded, location) => if recorded = slot then location else recordedLast slot earlier
        | none => recordedLast slot earlier

def Builder.History (builder : Builder) (turns : List Turn) : Prop :=
  ∃ first : Builder, first.Reachable ∧ first.openObject = .nothing ∧ Turns first turns builder

section Recording

variable {before after : Builder} {call : Call} {answer : Answer} {earlier : List Turn}

theorem Builder.Reachable.history {builder : Builder} (reachable : builder.Reachable) :
    ∃ turns, builder.History turns := by
  induction reachable with
  | new options fits => exact ⟨[], _, .new options fits, rfl, .nothing⟩
  | step call before stepped ih =>
      rename_i answer builder after
      by_cases cleared : call = .clear
      · subst cleared
        refine ⟨[], _, .step _ before stepped, ?_, .nothing⟩
        rw [Call.clear_of_step stepped]
        rfl
      · obtain ⟨turns, first, start, idle, made⟩ := ih
        exact ⟨_, first, start, idle,
          .made made cleared stepped (sound_of_step before.sound stepped).ordered.small⟩

theorem recordedLast_of_none {turn : Turn} (starts : turn.startsTable = false)
    (none : turn.recording = none) (slot : Slot) :
    recordedLast slot (turn :: earlier) = recordedLast slot earlier := by
  simp only [recordedLast, starts, none, Bool.false_eq_true, if_false]

theorem recordedLast_of_unchanged
    (unchanged : ∀ ledger : Ledger, ledger.after before call answer = ledger) (slot : Slot) :
    recordedLast slot (⟨before, call, answer, after⟩ :: earlier) = recordedLast slot earlier := by
  cases answer with
  | error error => exact recordedLast_of_none rfl rfl slot
  | ok reply =>
      apply recordedLast_of_none
      · cases call with
        | openTable count =>
            have kept := congrArg Ledger.pending (unchanged ⟨[⟨0, .reference 0, false⟩], []⟩)
            cases kept
        | _ => rfl
      · cases adds : call.content? with
        | none => simp only [Turn.recording, adds]
        | some added =>
            have longer := congrArg (List.length ∘ Ledger.pending) (unchanged Ledger.empty)
            rw [Ledger.after_of_content reply adds] at longer
            cases longer

theorem startsTable_of_content {reply : Reply} {added : Slot × Content}
    (adds : call.content? = some added) :
    Turn.startsTable ⟨before, call, .ok reply, after⟩ = false := by
  cases call <;> first | rfl | cases adds

theorem Turns.recordedLast_eq {first last : Builder} {list : List Turn}
    (turns : Turns first list last) (ordered : first.Ordered) (idle : first.openObject = .nothing) :
    ∀ start fields, last.openObject = .table start fields → ∀ slot,
      placeOf fields slot = recordedLast slot list := by
  induction turns with
  | nothing =>
      intro start fields opened
      rw [idle] at opened
      cases opened
  | made early kept stepped small ih =>
      rename_i earlier before after call answer
      intro start fields opened slot
      cases Books.of_step (early.ordered ordered) small stepped with
      | cleared => exact absurd rfl kept
      | forced force reply same =>
          rw [same] at opened
          exact ih start fields opened slot
      | opened count reply same =>
          rw [same] at opened
          cases opened
          exact placeOf_replicate count slot
      | stored reply adds stores =>
          have starts : Turn.startsTable ⟨before, call, .ok reply, after⟩ = false :=
            startsTable_of_content adds
          cases stores with
          | omitted start already unchanged wasOpen stillOpen _ left same =>
              rw [stillOpen] at opened
              cases opened
              rw [recordedLast_of_none starts (by simp [Turn.recording, adds, left]),
                placeOf_congr same]
              exact ih start already wasOpen slot
          | kept start already index location wasOpen stillOpen _ stored place inside _ _ headed =>
              rw [stillOpen] at opened
              cases opened
              simp only [recordedLast, starts, Turn.recording, adds, stored, Bool.false_eq_true,
                if_false, if_true]
              split
              case isTrue same => rw [← same, placeOf_set location place inside, headed]
              case isFalse apart =>
                rw [placeOf_set_of_ne location place apart]
                exact ih start already wasOpen slot
      | closed closed =>
          rw [closed.openObject] at opened
          cases opened
      | spared unchanged spares =>
          rw [recordedLast_of_unchanged unchanged]
          rcases spares.openObject with same | none
          · exact ih start fields (same ▸ opened) slot
          · exact absurd opened (none start fields)

end Recording

end WireTables
