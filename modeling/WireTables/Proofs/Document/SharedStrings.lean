import WireTables.Proofs.Document.Piece
import WireTables.Proofs.Builder.Finished

namespace WireTables

theorem encodeText_inj {left right : String} : encodeText left = encodeText right ↔ left = right := by
  constructor
  · intro same
    exact String.toByteArray_inj.mp (ByteArray.ext (Array.toList_inj.mp same))
  · exact congrArg encodeText

theorem mem_of_lookup {texts : List (Bytes × Offset .string)} {text : Bytes}
    {offset : Offset .string} (found : texts.lookup text = some offset) :
    (text, offset) ∈ texts := by
  obtain ⟨front, behind, rfl, -⟩ := List.lookup_eq_some_iff.mp found
  exact List.mem_append_right _ List.mem_cons_self

namespace Build

variable {before after builder : Builder} {text : String} {offset : Offset .string}

def SamePool (before after : Builder) : Prop := after.strings = before.strings

theorem samePool_allows_fields : AllowsFields SamePool where
  refl _ := rfl
  trans early late := late.trans early
  pushed pushes := by
    rcases pushes with ⟨front, pushed⟩
    exact pushed.strings
  recorded _ _ _ := rfl

theorem samePool_allows : AllowsPlacing SamePool where
  toAllowsPushes := samePool_allows_fields.toAllowsPushes
  vectorOpened _ _ _ := rfl
  vectorClosed _ := rfl
  finished _ _ := rfl

theorem shareString_done (ran : shareString text before = .done offset after) :
    before.finished = false ∧
      (before.strings.lookup (encodeText text) = some offset ∧ after = before ∨
        before.strings.lookup (encodeText text) = none ∧ ∃ written,
          writeString text before = .done offset written ∧
            after = { written with strings := (encodeText text, offset) :: before.strings }) := by
  rcases done_bind.mp ran with ⟨_, same, required, rest⟩
  rw [requireUnfinished_apply] at required
  split at required
  case isTrue => cases required
  case isFalse unfinished =>
    cases required
    refine ⟨by simpa using unfinished, ?_⟩
    rw [state_bind] at rest
    cases shared : before.strings.lookup (encodeText text) with
    | some found =>
        rw [shared] at rest
        cases rest
        exact .inl ⟨rfl, rfl⟩
    | none =>
        rw [shared] at rest
        rcases done_bind.mp rest with ⟨found, written, wrote, rest⟩
        cases rest
        have same : written.strings = before.strings :=
          (samePool_allows.of_writeByteString (encodeText text) before).of_done wrote
        refine .inr ⟨rfl, written, wrote, ?_⟩
        rw [← same]

theorem shareString_refused {error : Refusal} (ran : shareString text before = .refused error after) :
    after.strings = before.strings := by
  rcases refused_bind.mp ran with refused | ⟨_, same, required, rest⟩
  · rw [(still_requireUnfinished before).of_refused refused]
  · obtain rfl := (still_requireUnfinished before).of_done required
    rw [state_bind] at rest
    cases shared : before.strings.lookup (encodeText text) with
    | some found =>
        rw [shared] at rest
        cases rest
    | none =>
        rw [shared] at rest
        rcases refused_bind.mp rest with refused | ⟨_, _, _, ended⟩
        · exact (samePool_allows.of_writeByteString (encodeText text) before).of_refused refused
        · cases ended

theorem shareString_of_pooled (unfinished : builder.finished = false)
    (pooled : builder.strings.lookup (encodeText text) = some offset) :
    shareString text builder = .done offset builder := by
  have passed : requireUnfinished builder = .done () builder := by
    rw [requireUnfinished_apply, if_neg (Bool.eq_false_iff.mp unfinished)]
  rw [shareString, bind_of_done passed, state_bind, pooled]
  rfl

end Build

namespace Call

open Build

variable {before after : Builder} {call : Call} {answer : Answer}

theorem strings_of_other (sound : before.Sound) (kept : call ≠ .clear)
    (other : ∀ text, call ≠ .shareString text) (stepped : call.step before = .ok (answer, after)) :
    after.strings = before.strings := by
  have left := leaves_of_step stepped
  have allows := samePool_allows_fields
  cases call with
  | clear => exact absurd rfl kept
  | forceDefaults force =>
      cases left
      rfl
  | openTable count =>
      refine allows.of_replying (samePool_allows.of_requireNothingOpen fun _ _ => ?_) after left
      exact Moves.of_update rfl
  | storeScalar slot type value default =>
      exact allows.of_replying (allows.of_storeScalar slot type value default before) after left
  | storeOptional slot type value =>
      exact allows.of_replying (allows.of_storeOptional slot type value before) after left
  | storeReference slot target =>
      exact allows.of_replying (allows.of_storeReference slot target before) after left
  | storeStruct slot target =>
      exact allows.of_replying (allows.of_storeStruct slot target before) after left
  | closeTable =>
      refine allows.of_replying (Moves.of_endings (fun table after ran => ?_)
        fun error after ran => allows.pushed (closeTable_refused ran)) after left
      obtain ⟨start, fields, vtable, closed⟩ :=
        closeTable_done sound.ordered ran
      exact closed.strings
  | _ => exact moves_of_unshared samePool_allows rfl other before after left

end Call

/-- Each string of the pool stands in what was written. -/
def Builder.Pools (builder : Builder) : Prop :=
  ∀ entry ∈ builder.strings, StandsAt builder.storage.written entry.2.value.toNat
    (ScalarType.uint32.encode (UInt32.ofNat entry.1.length) ++ entry.1)

namespace Builder

variable {before after builder : Builder} {call : Call} {answer : Answer}

theorem Pools.of_changes (pools : before.Pools) (changes : Changes before after)
    (same : after.strings = before.strings) : after.Pools := by
  intro entry member
  rw [same] at member
  exact (pools entry member).of_suffix (suffix_of_changes changes)

theorem Pools.step (sound : before.Sound) (pools : before.Pools)
    (stepped : call.step before = .ok (answer, after)) : after.Pools := by
  by_cases cleared : call = .clear
  · subst cleared
    rw [Call.clear_of_step stepped]
    exact fun _ member => absurd member List.not_mem_nil
  have changes := Call.changes_of_step cleared sound stepped
  by_cases shares : ∃ text, call = .shareString text
  · rcases shares with ⟨text, rfl⟩
    rcases Call.step_ok stepped with ⟨reply, rfl, ran⟩ | ⟨error, rfl, ran⟩
    · rcases Build.done_bind.mp ran with ⟨offset, last, shared, ended⟩
      cases ended
      obtain ⟨-, ⟨-, rfl⟩ | ⟨-, written, wrote, rfl⟩⟩ := Build.shareString_done shared
      · exact pools
      · have block := Build.writeByteString_done sound.fits wrote
        intro entry member
        rcases List.mem_cons.mp member with rfl | member
        · exact block.stands
        · exact (pools entry member).of_suffix (suffix_of_changes changes)
    · rcases Build.refused_bind.mp ran with refused | ⟨_, _, _, ended⟩
      · exact pools.of_changes changes (Build.shareString_refused refused)
      · cases ended
  · exact pools.of_changes changes
      (Call.strings_of_other sound cleared (fun text same => shares ⟨text, same⟩) stepped)

theorem Reachable.pools (reachable : builder.Reachable) : builder.Pools := by
  induction reachable with
  | new options _ => exact fun _ member => absurd member List.not_mem_nil
  | step call before stepped ih => exact ih.step before.sound stepped

theorem Pools.run {calls : List Call} {stages : List (Answer × Builder)} (pools : builder.Pools)
    (sound : builder.Sound) (ran : builder.run calls = .ok stages) :
    (builder.lastOf stages).Pools := by
  induction calls generalizing builder stages with
  | nil =>
      cases ran
      exact pools
  | cons call calls ih =>
      rcases run_cons.mp ran with ⟨answer, middle, later, stepped, ranLater, rfl⟩
      have last := ih (pools.step sound stepped) (sound_of_step sound stepped) ranLater
      exact last

theorem Pools.read {entry : Bytes × Offset .string} {bytes : Bytes} (pools : builder.Pools)
    (sound : builder.Sound) (member : entry ∈ builder.strings)
    (suffix : builder.storage.written <:+ bytes) :
    readString bytes (bytes.length - entry.2.value.toNat) = .ok entry.1 := by
  have small := sound.ordered.small
  rw [builder.storage.size_eq] at small
  have stored : Stored false builder.storage.written entry.2.value.toNat (.string entry.1) :=
    stored_string small (pools entry member)
  exact (stored.of_suffix suffix).read.1

theorem pooled_of_step {text : Bytes} {offset : Offset .string} (sound : before.Sound)
    (kept : call ≠ .clear) (stepped : call.step before = .ok (answer, after))
    (pooled : before.strings.lookup text = some offset) :
    after.strings.lookup text = some offset := by
  by_cases shares : ∃ text, call = .shareString text
  · rcases shares with ⟨other, rfl⟩
    rcases Call.step_ok stepped with ⟨reply, rfl, ran⟩ | ⟨error, rfl, ran⟩
    · rcases Build.done_bind.mp ran with ⟨found, last, shared, ended⟩
      cases ended
      obtain ⟨-, ⟨-, rfl⟩ | ⟨fresh, written, -, rfl⟩⟩ := Build.shareString_done shared
      · exact pooled
      · have apart : text ≠ encodeText other := by
          rintro rfl
          rw [fresh] at pooled
          cases pooled
        rw [List.lookup_cons, beq_eq_false_iff_ne.mpr apart]
        exact pooled
    · rcases Build.refused_bind.mp ran with refused | ⟨_, _, _, ended⟩
      · rw [Build.shareString_refused refused]
        exact pooled
      · cases ended
  · rw [Call.strings_of_other sound kept (fun text same => shares ⟨text, same⟩) stepped]
    exact pooled

theorem pooled_of_run {calls : List Call} {stages : List (Answer × Builder)} {text : Bytes}
    {offset : Offset .string} (sound : builder.Sound) (kept : ∀ call ∈ calls, call ≠ .clear)
    (ran : builder.run calls = .ok stages) (pooled : builder.strings.lookup text = some offset) :
    (builder.lastOf stages).Sound ∧ (builder.lastOf stages).strings.lookup text = some offset := by
  induction calls generalizing builder stages with
  | nil =>
      cases ran
      exact ⟨sound, pooled⟩
  | cons call calls ih =>
      rw [List.forall_mem_cons] at kept
      rcases run_cons.mp ran with ⟨answer, middle, later, stepped, ranLater, rfl⟩
      have last := ih (sound_of_step sound stepped) kept.2 ranLater
        (pooled_of_step sound kept.1 stepped pooled)
      exact last

theorem pooled_of_shareString {text : String} {offset : UInt32}
    (stepped : (Call.shareString text).step before = .ok (.ok (.object offset), after)) :
    after.strings.lookup (encodeText text) = some ⟨offset⟩ := by
  rcases Build.done_bind.mp (Call.done_of_step stepped) with ⟨found, last, shared, ended⟩
  cases ended
  obtain ⟨-, ⟨pooled, rfl⟩ | ⟨-, written, -, rfl⟩⟩ := Build.shareString_done shared
  · exact pooled
  · rw [List.lookup_cons, beq_self_eq_true]

theorem Pools.inj (pools : builder.Pools) (sound : builder.Sound) {first second : Bytes}
    {offset : Offset .string} (left : builder.strings.lookup first = some offset)
    (right : builder.strings.lookup second = some offset) : first = second := by
  have one := pools.read sound (mem_of_lookup left) (List.suffix_refl _)
  have other := pools.read sound (mem_of_lookup right) (List.suffix_refl _)
  exact Except.ok.inj (one.symm.trans other)

theorem shareString_again {text : String} {offset : Offset .string}
    (pooled : builder.strings.lookup (encodeText text) = some offset) :
    (Call.shareString text).step builder =
      .ok (if builder.finished then .error .finished else .ok (.object offset.value), builder) := by
  have ran : (Call.shareString text).run builder =
      if builder.finished then .refused .finished builder
      else .done (.object offset.value) builder := by
    cases finished : builder.finished with
    | true =>
        refine Build.bind_of_refused (Build.bind_of_refused ?_)
        rw [Build.requireUnfinished_apply, if_pos finished]
    | false => exact Build.bind_of_done (Build.shareString_of_pooled finished pooled)
  simp only [Call.step, ran]
  cases builder.finished <;> rfl

end Builder

/-- Every entry of the pool leads to its text in what was written. A text that is shared again,
after any calls but `clear`, has the offset it had, and nothing is done for it; other texts have
other offsets. A text that is not written joins no pool, and one that was shared reads as itself in
the finished bytes. -/
theorem Builder.Reachable.shared_strings {builder : Builder} (reachable : builder.Reachable) :
    (∀ entry ∈ builder.strings, 0 < entry.2.value.toNat ∧
      entry.2.value.toNat ≤ builder.storage.size ∧
      ∀ bytes : Bytes, builder.storage.written <:+ bytes →
        readString bytes (bytes.length - entry.2.value.toNat) = .ok entry.1) ∧
    (∀ (text : String) (error : Refusal) (after : Builder),
      (Call.shareString text).step builder = .ok (.error error, after) →
        after.strings = builder.strings) ∧
    (∀ (text : String) (offset : UInt32) (shared : Builder),
      (Call.shareString text).step builder = .ok (.ok (.object offset), shared) →
      ∀ (calls : List Call) (stages : List (Answer × Builder)), (∀ call ∈ calls, call ≠ .clear) →
        shared.run calls = .ok stages →
        let last := shared.lastOf stages
        (Call.shareString text).step last =
          .ok (if last.finished then .error .finished else .ok (.object offset), last) ∧
        (∀ (other : String) (found : UInt32) (after : Builder),
          (Call.shareString other).step last = .ok (.ok (.object found), after) →
            (found = offset ↔ other = text)) ∧
        (∀ bytes, last.finishedBytes = .ok bytes →
          readString bytes (bytes.length - offset.toNat) = .ok (encodeText text))) := by
  have sound := reachable.sound
  refine ⟨fun entry member => ?_, fun text error after stepped => ?_, ?_⟩
  · have stands := reachable.pools entry member
    have long := stands.length_le
    rw [List.length_append, ScalarType.length_encode] at long
    refine ⟨Nat.lt_of_lt_of_le (by decide) (Nat.le_trans (Nat.le_add_right _ _) long), ?_,
      fun bytes => reachable.pools.read sound member⟩
    rw [builder.storage.size_eq]
    exact stands.distance_le
  · rcases Build.refused_bind.mp (Call.refused_of_step stepped) with refused | ⟨_, _, _, ended⟩
    · exact Build.shareString_refused refused
    · cases ended
  · intro text offset shared stepped calls stages kept ran last
    have pooledAtFirst := pooled_of_shareString stepped
    obtain ⟨lastSound, pooled⟩ :=
      pooled_of_run (sound_of_step sound stepped) kept ran pooledAtFirst
    have lastPools : last.Pools :=
      (reachable.step _ stepped).pools.run (sound_of_step sound stepped) ran
    refine ⟨shareString_again pooled, fun other found after again => ?_, fun bytes shown => ?_⟩
    -- both texts are in the last pool, in which offsets tell texts apart
    · have afterSound := sound_of_step lastSound again
      have pooledOther := pooled_of_shareString again
      have goesOn : Call.shareString other ≠ .clear := nofun
      have stillPooled := pooled_of_step lastSound goesOn again pooled
      constructor
      · rintro rfl
        exact encodeText_inj.mp
          ((lastPools.step lastSound again).inj afterSound pooledOther stillPooled)
      · rintro rfl
        rw [stillPooled] at pooledOther
        cases pooledOther
        rfl
    · rw [← written_of_finishedBytes shown]
      exact lastPools.read lastSound (mem_of_lookup pooled) (List.suffix_refl _)

theorem shared_strings_of_pair :
    ∃ (shared after : Builder) (offset found : UInt32) (stages : List (Answer × Builder)),
      (Call.shareString "ab").step (.ofOptions ⟨0, false⟩) = .ok (.ok (.object offset), shared) ∧
      shared.run [.writeString "ab", .openTable 0, .shareString "ab", .closeTable] = .ok stages ∧
      (Call.shareString "ab").step (shared.lastOf stages) =
        .ok (.ok (.object offset), shared.lastOf stages) ∧
      (Call.shareString "ba").step (shared.lastOf stages) = .ok (.ok (.object found), after) ∧
      found ≠ offset := by
  let calls : List Call := [.writeString "ab", .openTable 0, .shareString "ab", .closeTable]
  have evaluated : ((fun stage : Answer × Builder => (objectOf stage.1,
      ((fun stages => ((stage.2.lastOf stages).finished,
        ((fun later => objectOf later.1) <$>
          (Call.shareString "ba").step (stage.2.lastOf stages)).toOption)) <$>
            stage.2.run calls).toOption)) <$>
          (Call.shareString "ab").step (.ofOptions ⟨0, false⟩)).toOption =
      some (some 8, some (false, some (some 32))) := by decide +kernel
  obtain ⟨⟨answer, shared⟩, first, shown⟩ := read_map.mp (ok_of_toOption evaluated)
  simp only [Prod.mk.injEq] at shown
  rcases shown with ⟨answered, later⟩
  obtain rfl := objectOf_eq_some.mp answered
  obtain ⟨stages, ran, rest⟩ := read_map.mp (ok_of_toOption later)
  simp only [Prod.mk.injEq] at rest
  rcases rest with ⟨unfinished, other⟩
  obtain ⟨⟨reply, after⟩, otherRan, found⟩ := read_map.mp (ok_of_toOption other)
  obtain rfl := objectOf_eq_some.mp found
  have reachable := Builder.Reachable.new ⟨0, false⟩ (by decide)
  have kept : ∀ call ∈ calls, call ≠ .clear := by simp [calls]
  obtain ⟨-, -, shares⟩ := reachable.shared_strings
  obtain ⟨again, apart, -⟩ := shares "ab" 8 shared first calls stages kept ran
  rw [unfinished] at again
  refine ⟨shared, after, 8, 32, stages, first, ran, again, otherRan, ?_⟩
  rw [ne_eq, apart "ba" 32 after otherRan]
  decide

end WireTables
