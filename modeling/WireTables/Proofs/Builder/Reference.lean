import WireTables.Proofs.Builder.Room

namespace WireTables

open Build

namespace Build

variable {kind : Kind} {before : Builder}

def addMark (mark : Bytes) (sized : Bool) : Build Unit := do
  let trailer := referenceWidth + mark.length + if sized then referenceWidth else 0
  prepare (max (← state).alignment referenceWidth) trailer
  put mark

def addSize (sized : Bool) : Build Unit := do
  if sized then putScalar .uint32 (← head)

theorem addTrailer_eq (root : Offset .table) (mark : Bytes) (sized : Bool) :
    addTrailer root mark sized = (do
      addMark mark sized
      addReference root
      addSize sized) := by
  simp only [addTrailer, addMark, addSize, bind_assoc]

theorem moves_addMark (mark : Bytes) (sized : Bool) (builder : Builder) :
    Moves Pushes (addMark mark sized) builder := by
  apply Moves.state_bind
  apply Moves.bind .trans (moves_prepare _ _ builder)
  exact fun _ middle _ => moves_put _ middle

theorem moves_addSize (sized : Bool) (builder : Builder) :
    Moves Pushes (addSize sized) builder := by
  cases sized with
  | true => exact moves_put _ builder
  | false => exact Moves.of_pure (.refl builder) ()

theorem addReference_of_prepared {padded : Builder} (target : Offset kind)
    (prepares : prepare referenceWidth 0 before = .done () padded) :
    (padded.head < target.value →
      addReference target before = .refused (.dangling target.value padded.head) padded) ∧
    (target.value ≤ padded.head → ∃ stored, addReference target before = .done () stored ∧
      stored.storage.size = referenceWidth + padded.storage.size) := by
  rw [addReference, bind_of_done prepares]
  constructor
  · intro past
    rw [head_bind, if_pos past]
    rfl
  · intro reached
    have enough : ¬ padded.storage.room < ScalarType.uint32.width :=
      Nat.not_lt.mpr (prepare_room prepares)
    rw [head_bind, if_neg (UInt32.not_lt.mpr reached), putScalar, put, ScalarType.length_encode,
      if_neg enough]
    refine ⟨_, rfl, ?_⟩
    rw [Storage.size_push, ScalarType.length_encode]
    rfl

end Build

namespace Call

/-- The offsets that the call is to refer to. -/
def targets : Call → List UInt32
  | addReference target => [target.value]
  | storeReference _ target => [target.value]
  | writeReferences items => items.map Offset.value
  | finish root _ _ => [root.value]
  | _ => []

/-- The call on the first builder has come as far as to store a reference to the target, and the
second is the builder then. -/
inductive ComesTo : Call → Builder → Builder → UInt32 → Prop
  | add {builder : Builder} {kind : Kind} (target : Offset kind) :
      ComesTo (.addReference target) builder builder target.value
  | field {builder : Builder} {slot : Slot} {index : Nat} {kind : Kind} (target : Offset kind)
      (found : openField slot builder = .done index builder) :
      ComesTo (.storeReference slot target) builder builder target.value
  | element {builder opened midway : Builder} {kind : Kind} (early late : List (Offset kind))
      (target : Offset kind)
      (opens : Build.openVector referenceWidth (early ++ target :: late).length referenceWidth
        builder = .done () opened)
      (wrote : (late.reverse.forM Build.addReference) opened = .done () midway) :
      ComesTo (.writeReferences (early ++ target :: late)) builder midway target.value
  | root {builder midway : Builder} {identifier : Option String} {sized : Bool}
      (root : Offset .table)
      (valid : (identifier.map encodeText).filter (!validIdentifier ·) = none)
      (idle : requireNothingOpen builder = .done () builder)
      (wrote : addMark ((identifier.map encodeText).getD []) sized builder = .done () midway) :
      ComesTo (.finish root identifier sized) builder midway root.value

/-- How the call goes on: it adds the reference, and the rest only changes what comes after. -/
structure GoesOn (call : Call) (builder midway : Builder) (target : UInt32) : Prop where
  early : Changes builder midway
  late : ∃ (kind : Kind) (offset : Offset kind) (rest : Unit → Build Reply),
    offset.value = target ∧ call.run builder = (Build.addReference offset >>= rest) midway ∧
      ∀ stored, Build.addReference offset midway = .done () stored →
        Moves Changes (rest ()) stored

variable {call : Call} {builder midway : Builder}

theorem goesOn_element {kind : Kind} {early late : List (Offset kind)} {target : Offset kind}
    {opened : Builder}
    (opens : Build.openVector referenceWidth (early ++ target :: late).length referenceWidth
      builder = .done () opened)
    (wrote : (late.reverse.forM Build.addReference) opened = .done () midway) :
    GoesOn (.writeReferences (early ++ target :: late)) builder midway target.value := by
  have adds (items : List (Offset kind)) (builder : Builder) :
      Moves Changes (items.forM Build.addReference) builder :=
    Moves.forM (fun _ => .refl) .trans
      (fun item builder => changes_of_pushes (moves_addReference item builder)) items builder
  refine ⟨?_, kind, target, fun _ => do
    early.reverse.forM Build.addReference
    let vector ← @Build.closeVector kind
    pure (.object vector.value), rfl, ?_, fun stored _ => ?_⟩
  · have opening : Changes builder opened :=
      (changes_allow.of_openVector _ _ _ builder).of_done opens
    exact opening.trans ((adds _ opened).of_done wrote)
  · have run : Call.run (.writeReferences (early ++ target :: late)) = (do
        Build.openVector referenceWidth (early ++ target :: late).length referenceWidth
        late.reverse.forM Build.addReference
        Build.addReference target
        early.reverse.forM Build.addReference
        let vector ← @Build.closeVector kind
        pure (.object vector.value)) := by
      simp only [Call.run, placing, replying, Build.writeReferences, List.reverse_append,
        List.reverse_cons, List.forM_eq_forM, List.forM_append, List.forM_cons, List.forM_nil,
        bind_assoc, pure_bind]
    rw [run, bind_of_done opens, bind_of_done wrote]
  · refine Moves.bind .trans (adds _ stored) fun _ last _ => ?_
    exact Moves.bind .trans (changes_allow.of_closeVector last) fun _ _ _ => Moves.of_pure .refl _

theorem goesOn_field {kind : Kind} {target : Offset kind} {slot : Slot} {index : Nat}
    (found : openField slot builder = .done index builder) :
    GoesOn (.storeReference slot target) builder builder target.value := by
  obtain ⟨-, start, fields, opened, -, inside⟩ := openField_done found
  refine ⟨.refl, kind, target, fun _ => do
    recordField index
    pure .nothing, rfl, ?_, fun stored adds => ?_⟩
  · have run : Call.run (.storeReference slot target) = (do
        let index ← openField slot
        Build.addReference target
        recordField index
        pure .nothing) := by
      simp only [Call.run, quietly, replying, Build.storeReference, bind_assoc]
    rw [run, bind_of_done found]
  · have pushes : Pushes builder stored := (moves_addReference target builder).of_done adds
    obtain ⟨front, pushed⟩ := pushes
    have stillOpen := pushed.openObject.trans opened
    have recorded : Moves Changes (recordField index) stored := by
      intro after left
      rw [recordField_apply index stillOpen] at left
      cases left
      exact .single (.recorded index stillOpen inside)
    exact Moves.bind .trans recorded fun _ _ _ => Moves.of_pure .refl _

theorem goesOn_root {root : Offset .table} {identifier : Option String} {sized : Bool}
    (valid : (identifier.map encodeText).filter (!validIdentifier ·) = none)
    (idle : requireNothingOpen builder = .done () builder)
    (wrote : addMark ((identifier.map encodeText).getD []) sized builder = .done () midway) :
    GoesOn (.finish root identifier sized) builder midway root.value := by
  obtain ⟨-, unfinished, closed⟩ := requireNothingOpen_done idle
  have marks : Pushes builder midway := (moves_addMark _ sized builder).of_done wrote
  refine ⟨.single (.pushed marks), .table, root, fun _ => do
    addSize sized
    update fun builder => { builder with finished := true }
    pure .nothing, rfl, ?_, fun stored adds => ?_⟩
  · have finish : Build.finish root identifier sized builder = (do
        addMark ((identifier.map encodeText).getD []) sized
        Build.addReference root
        addSize sized
        update fun builder => { builder with finished := true } : Build Unit) builder := by
      rw [finish_apply, valid]
      dsimp only
      rw [bind_of_done idle, addTrailer_eq]
      simp only [bind_assoc]
    rw [Call.run, quietly, replying, bind_apply, finish, ← bind_apply]
    simp only [bind_assoc]
    rw [bind_of_done wrote]
  · have added : Pushes midway stored := (moves_addReference root midway).of_done adds
    apply Moves.bind .trans (changes_of_pushes (moves_addSize sized stored))
    intro _ last sizes
    have all := (marks.trans added).trans ((moves_addSize sized stored).of_done sizes)
    obtain ⟨front, pushed⟩ := all
    have ended : Moves Changes (update fun builder => { builder with finished := true }) last :=
      Moves.of_update (.single (.finished (pushed.finished.trans unfinished)
        (pushed.openObject.trans closed)))
    exact Moves.bind .trans ended fun _ _ _ => Moves.of_pure .refl _

theorem ComesTo.goesOn {target : UInt32} (comes : call.ComesTo builder midway target) :
    call.GoesOn builder midway target := by
  cases comes with
  | add target =>
      exact ⟨.refl, _, target, fun _ => pure .nothing, rfl, rfl, fun _ _ => Moves.of_pure .refl _⟩
  | field target found => exact goesOn_field found
  | element early late target opens wrote => exact goesOn_element opens wrote
  | root root valid idle wrote => exact goesOn_root valid idle wrote

theorem ComesTo.answered {target : UInt32} (comes : call.ComesTo builder midway target)
    (sound : builder.Sound) : ∃ answer after, call.step builder = .ok (answer, after) := by
  have makes : call.MakesRoom := by cases comes <;> trivial
  have regular : call.Regular := by cases comes <;> trivial
  have limit : 4 * maxBufferSize ≤ addressLimit := by decide
  have least : 3 * referenceWidth ≤ maxBufferSize := by decide
  refine (Safe.answers (safe_run makes regular sound)).resolve_right fun large => large.2 ?_
  cases comes with
  | add => trivial
  | field => trivial
  | element early late target opens =>
      obtain ⟨second, third, -, first, -⟩ := openVector_steps opens
      have small := prepare_small sound.fits first
      simp only [Countable, Addressable]
      omega
  | root root valid idle wrote =>
      rw [addMark, state_bind] at wrote
      rcases done_bind.mp wrote with ⟨_, padded, prepares, -⟩
      have small := prepare_small sound.fits prepares
      simp only [Countable, Addressable]
      omega

theorem comesTo_of_done {reply : Reply} {after : Builder} (ran : call.run builder = .done reply after) :
    ∀ target ∈ call.targets, ∃ midway, call.ComesTo builder midway target := by
  cases call with
  | addReference target =>
      intro _ member
      rw [List.mem_singleton.mp member]
      exact ⟨builder, .add target⟩
  | storeReference slot target =>
      intro _ member
      rw [List.mem_singleton.mp member]
      rcases done_bind.mp ran with ⟨_, _, stored, -⟩
      rcases done_bind.mp stored with ⟨index, middle, found, -⟩
      obtain ⟨rfl, -⟩ := openField_done found
      exact ⟨middle, .field target found⟩
  | writeReferences items =>
      intro _ member
      obtain ⟨target, known, rfl⟩ := List.mem_map.mp member
      obtain ⟨early, late, rfl⟩ := List.append_of_mem known
      rcases done_bind.mp ran with ⟨_, _, wrote, -⟩
      rcases done_bind.mp wrote with ⟨_, opened, opens, wrote⟩
      rcases done_bind.mp wrote with ⟨_, full, adds, -⟩
      rw [List.reverse_append, List.forM_eq_forM, List.forM_append, List.reverse_cons,
        List.forM_append, bind_assoc] at adds
      rcases done_bind.mp adds with ⟨_, midway, first, -⟩
      exact ⟨midway, .element early late target opens first⟩
  | finish root identifier sized =>
      intro _ member
      rw [List.mem_singleton.mp member]
      rcases done_bind.mp ran with ⟨_, last, finished, -⟩
      rw [finish_apply] at finished
      split at finished
      case h_1 => cases finished
      case h_2 valid =>
        rcases done_bind.mp finished with ⟨_, same, idle, rest⟩
        obtain ⟨rfl, -, -⟩ := requireNothingOpen_done idle
        rcases done_bind.mp rest with ⟨_, trailed, trails, -⟩
        rw [addTrailer_eq] at trails
        rcases done_bind.mp trails with ⟨_, midway, marks, -⟩
        exact ⟨midway, .root root valid idle marks⟩
  | _ => exact fun _ member => absurd member List.not_mem_nil

end Call

theorem resolves_of_addReference {kind : Kind} {target : Offset kind} {before stored : Builder}
    {bytes : Bytes} (fits : before.capacity ≤ maxBufferSize)
    (adds : addReference target before = .done () stored)
    (ends : stored.storage.written <:+ bytes) :
    RefersTo bytes stored.storage.size target.value.toNat ∧
      (bytes.length - target.value.toNat < bytes.length ↔ target.value ≠ 0) := by
  obtain ⟨front, rfl⟩ := ends
  obtain ⟨middle, -, -, -, pushed⟩ := addReference_done adds
  have pushes : Pushes before stored := (moves_addReference target before).of_done adds
  have refers := (refersTo_of_addReference (Builder.size_le (pushes.fits fits)) adds).append_front front
  have inside := refers.inside
  have size := pushed.size
  rw [ScalarType.length_encode] at size
  have width : 0 < ScalarType.uint32.width := by decide
  have null : target.value ≠ 0 ↔ target.value.toNat ≠ 0 := by
    rw [ne_eq, ← UInt32.toNat_inj]
    rfl
  refine ⟨refers, ?_⟩
  rw [null]
  omega

/-- What becomes of references, whatever calls led to the builder. A call that goes through has come
to store each of its own. Where a call comes to store one, it is refused if the head cannot be
aligned, and as dangling if the target lies past the aligned head. Any other target is stored, zero
included, and stays: in all that ends with what is written from then on, the reference leads to the
target. So does each reference in a finished buffer, whoever added it, and it leads below the length
of the buffer just when it is not to zero. -/
theorem Builder.Reachable.references_resolve {builder : Builder} (reachable : builder.Reachable) :
    (∀ (call : Call) (reply : Reply) (after : Builder),
      call.step builder = .ok (.ok reply, after) →
        ∀ target ∈ call.targets, ∃ midway, call.ComesTo builder midway target) ∧
    (∀ (call : Call) (midway : Builder) (target : UInt32), call.ComesTo builder midway target →
      ∃ (answer : Answer) (after : Builder), call.step builder = .ok (answer, after) ∧
        (∀ error padded, prepare referenceWidth 0 midway = .refused error padded →
          answer = .error error) ∧
        ∀ padded, prepare referenceWidth 0 midway = .done () padded →
          (padded.head < target → answer = .error (.dangling target padded.head)) ∧
          (target ≤ padded.head → ∀ (later : Builder) (bytes : Bytes), after.Follows later →
            later.storage.written <:+ bytes →
              RefersTo bytes (referenceWidth + padded.storage.size) target.toNat ∧
                (bytes.length - target.toNat < bytes.length ↔ target ≠ 0))) ∧
    ∀ (kind : Kind) (target : Offset kind) (midway stored last : Builder) (bytes : Bytes),
      Changes builder midway → addReference target midway = .done () stored →
        Changes stored last → last.finishedBytes = .ok bytes →
          RefersTo bytes stored.storage.size target.value.toNat ∧
            (bytes.length - target.value.toNat < bytes.length ↔ target.value ≠ 0) := by
  have sound := reachable.sound
  refine ⟨fun call reply after stepped => Call.comesTo_of_done (Call.done_of_step stepped), ?_, ?_⟩
  · intro call midway target comes
    obtain ⟨answer, after, stepped⟩ := comes.answered sound
    -- the call up to its reference, the reference, and what the call does after that
    obtain ⟨early, kind, offset, rest, rfl, run, late⟩ := comes.goesOn
    have refused {error : Refusal} {last : Builder}
        (ran : addReference offset midway = .refused error last) : answer = .error error := by
      rw [Call.step, run, bind_of_refused ran] at stepped
      cases stepped
      rfl
    refine ⟨answer, after, stepped, fun error padded prepares => ?_, fun padded prepares => ?_⟩
    · exact refused (bind_of_refused prepares)
    · obtain ⟨dangling, goes⟩ := addReference_of_prepared offset prepares
      refine ⟨fun past => refused (dangling past), fun reached later bytes follows ends => ?_⟩
      obtain ⟨stored, adds, size⟩ := goes reached
      have left := Call.leaves_of_step stepped
      rw [run, bind_of_done adds] at left
      have changes := (late stored adds after left).trans
        (follows.changes (sound_of_step sound stepped))
      rw [← size]
      exact resolves_of_addReference (sound_of_changes sound early).fits adds
        ((suffix_of_changes changes).trans ends)
  · intro kind target midway stored last bytes early adds late shown
    rw [← written_of_finishedBytes shown]
    exact resolves_of_addReference (sound_of_changes sound early).fits adds (suffix_of_changes late)

theorem references_resolve_of_null :
    ∃ (builder last after : Builder) (answer : Answer), builder.Reachable ∧
      (Call.addReference (⟨9⟩ : Offset .string)).step builder =
        .ok (.error (.dangling 9 4), last) ∧
      (Call.addReference (⟨0⟩ : Offset .string)).step builder = .ok (answer, after) ∧
      followReference after.storage.written (after.storage.written.length - 8) =
        .ok after.storage.written.length := by
  have evaluated : ((fun stage => (stage.2.storage.size,
      ((do prepare referenceWidth 0; head : Build UInt32) stage.2).value?)) <$>
        (Call.add .uint32 (1 : UInt32)).step (.ofOptions ⟨64, false⟩)).toOption =
      some (4, some 4) := by decide +kernel
  obtain ⟨⟨_, builder⟩, built, shown⟩ := read_map.mp (ok_of_toOption evaluated)
  simp only [Prod.mk.injEq] at shown
  rcases shown with ⟨size, headed⟩
  obtain ⟨same, ran⟩ := Outcome.done_of_value? headed
  rcases done_bind.mp ran with ⟨_, padded, prepares, asked⟩
  have head : padded.head = 4 := (Outcome.done.inj asked).1
  have width : padded.storage.size = 4 := by
    rw [(prepare_done prepares).2.size, size]
    rfl
  have reachable : builder.Reachable := .step _ (.new ⟨64, false⟩ (by decide)) built
  obtain ⟨-, resolves, -⟩ := reachable.references_resolve
  obtain ⟨answer, last, refused, -, pads⟩ := resolves _ builder 9 (.add (⟨9⟩ : Offset .string))
  have dangling := (pads padded prepares).1 (by rw [head]; decide)
  obtain ⟨answer, after, stored, -, pads⟩ := resolves _ builder 0 (.add (⟨0⟩ : Offset .string))
  have follows : after.Follows after := ⟨[], [], nofun, rfl, List.mem_cons_self⟩
  obtain ⟨found, -⟩ := (pads padded prepares).2 (by rw [head]; decide) after _ follows
    (List.suffix_refl _)
  have follow := found.follow
  rw [width] at follow
  refine ⟨builder, last, after, answer, reachable, ?_, stored, follow⟩
  rw [refused, dangling, head]

end WireTables
