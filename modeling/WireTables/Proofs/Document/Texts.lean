import WireTables.Proofs.Document.SharedStrings
import WireTables.Proofs.Document.Stacking

namespace WireTables

open Build

def Call.text? : Call → Option Bytes
  | writeString text => some (encodeText text)
  | writeByteString bytes => some bytes
  | shareString text => some (encodeText text)
  | _ => none

structure Turn.Spells (turn : Turn) (text : Bytes) (offset : UInt32) : Prop where
  other : turn.call.content? = none
  wrote : turn.Wrote offset.toNat (referenceWidth + text.length)
  stands : StandsAt turn.after.storage.written offset.toNat
    (ScalarType.uint32.encode (UInt32.ofNat text.length) ++ text)

section Spelling

variable {first last before middle after : Builder} {call : Call} {answer : Answer}
  {text : Bytes} {offset : UInt32} {list : List Turn}

theorem spells_of_wrote (other : call.content? = none)
    (wrote : Wrote before middle offset
      (ScalarType.uint32.encode (UInt32.ofNat text.length) ++ text))
    (same : after.storage = middle.storage) :
    (⟨before, call, answer, after⟩ : Turn).Spells text offset where
  other := other
  wrote := by
    have wide := wrote.wide
    rw [List.length_append, ScalarType.length_encode, ← wrote.place] at wide
    exact ⟨wide, same ▸ Nat.le_of_eq wrote.place⟩
  stands := same ▸ wrote.stands

theorem spells_of_shareString {text : String} {offset : Offset .string} (sound : before.Sound)
    (ran : shareString text before = .done offset after) :
    (encodeText text, offset) ∈ before.strings ∧ after = before ∨
      (⟨before, .shareString text, answer, after⟩ : Turn).Spells (encodeText text) offset.value ∧
        after.strings = (encodeText text, offset) :: before.strings := by
  obtain ⟨-, ⟨found, same⟩ | ⟨-, written, wrote, rfl⟩⟩ := shareString_done ran
  · exact .inl ⟨mem_of_lookup found, same⟩
  · exact .inr ⟨spells_of_wrote rfl (writeByteString_done sound.fits wrote) rfl, rfl⟩

theorem spells_of_step (sound : before.Sound)
    (stepped : call.step before = .ok (.ok (.object offset), after))
    (worded : call.text? = some text) :
    (⟨before, call, answer, after⟩ : Turn).Spells text offset ∨ (text, ⟨offset⟩) ∈ before.strings := by
  have ran := Call.done_of_step stepped
  cases call with
  | writeString text =>
      cases worded
      rcases done_bind.mp ran with ⟨object, _, wrote, ended⟩
      cases ended
      exact .inl (spells_of_wrote rfl (writeByteString_done sound.fits wrote) rfl)
  | writeByteString bytes =>
      cases worded
      rcases done_bind.mp ran with ⟨object, _, wrote, ended⟩
      cases ended
      exact .inl (spells_of_wrote rfl (writeByteString_done sound.fits wrote) rfl)
  | shareString text =>
      cases worded
      rcases done_bind.mp ran with ⟨object, _, shared, ended⟩
      cases ended
      rcases spells_of_shareString sound shared with ⟨pooled, -⟩ | ⟨spells, -⟩
      · exact .inr pooled
      · exact .inl spells
  | _ => cases worded

theorem spells_of_pooled (sound : before.Sound) (kept : call ≠ .clear)
    (stepped : call.step before = .ok (answer, after)) {entry : Bytes × Offset .string}
    (pooled : entry ∈ after.strings) :
    entry ∈ before.strings ∨
      (⟨before, call, answer, after⟩ : Turn).Spells entry.1 entry.2.value := by
  by_cases shares : ∃ text, call = .shareString text
  · rcases shares with ⟨text, rfl⟩
    rcases Call.step_ok stepped with ⟨reply, rfl, ran⟩ | ⟨error, rfl, ran⟩
    · rcases done_bind.mp ran with ⟨object, _, shared, ended⟩
      cases ended
      rcases spells_of_shareString sound shared with ⟨-, rfl⟩ | ⟨spells, joined⟩
      · exact .inl pooled
      · rw [joined] at pooled
        rcases List.mem_cons.mp pooled with rfl | pooled
        · exact .inr spells
        · exact .inl pooled
    · rcases refused_bind.mp ran with refused | ⟨_, _, _, ended⟩
      · exact .inl (shareString_refused refused ▸ pooled)
      · cases ended
  · rw [Call.strings_of_other sound kept (fun text same => shares ⟨text, same⟩) stepped] at pooled
    exact .inl pooled

theorem Turns.sound (turns : Turns first list last) (sound : first.Sound) : last.Sound := by
  induction turns with
  | nothing => exact sound
  | made _ _ stepped _ ih => exact Builder.sound_of_step ih stepped

theorem Turns.pooled (turns : Turns first list last) (sound : first.Sound)
    (none : first.strings = []) :
    ∀ entry ∈ last.strings, ∃ turn ∈ list, turn.Spells entry.1 entry.2.value := by
  induction turns with
  | nothing =>
      intro entry member
      rw [none] at member
      cases member
  | made early kept stepped small ih =>
      intro entry member
      rcases spells_of_pooled (early.sound sound) kept stepped member with known | spells
      · rcases ih entry known with ⟨turn, member, spells⟩
        exact ⟨turn, List.mem_cons_of_mem _ member, spells⟩
      · exact ⟨_, List.mem_cons_self, spells⟩

theorem Turns.spells (turns : Turns first list last) (sound : first.Sound)
    (none : first.strings = []) {turn : Turn} (member : turn ∈ list)
    (worded : turn.call.text? = some text) (answered : turn.answer = .ok (.object offset)) :
    ∃ origin ∈ list, origin.Spells text offset := by
  induction turns with
  | nothing => cases member
  | made early kept stepped small ih =>
      rcases List.mem_cons.mp member with rfl | member
      · dsimp only at worded answered
        subst answered
        rcases spells_of_step (early.sound sound) stepped worded with spells | pooled
        · exact ⟨_, List.mem_cons_self, spells⟩
        · rcases early.pooled sound none _ pooled with ⟨origin, known, spells⟩
          exact ⟨origin, List.mem_cons_of_mem _ known, spells⟩
      · rcases ih member with ⟨origin, known, spells⟩
        exact ⟨origin, List.mem_cons_of_mem _ known, spells⟩

end Spelling

end WireTables
