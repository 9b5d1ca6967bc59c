import WireTables.Proofs.Builder.Finality
import WireTables.Proofs.Builder.Guards

/-!
A session as the list of its turns, one for each call. What was written is final, so turns write one
in front of the other: what stands between the heads before and after a turn was written in that
turn, and keeps off what other turns wrote.
-/

namespace WireTables

/-- The builders of sessions in which no more is written than a buffer may hold. What was done
before a builder was cleared does not count. -/
inductive Builder.Measured : Builder → Prop
  | new (options : BuilderOptions) : Measured (.ofOptions options)
  | cleared {builder : Builder} (before : Attainable builder) : Measured builder.clear
  | step {builder after : Builder} {answer : Answer} (call : Call) (before : Measured builder)
      (stepped : call.step builder = .ok (answer, after))
      (small : after.storage.size ≤ maxBufferSize) : Measured after

namespace Builder

variable {before after builder : Builder} {closing : Prop} {call : Call} {answer : Answer}

theorem size_le_of_changes (changes : ChangesBy closing before after) :
    before.storage.size ≤ after.storage.size := by
  rw [before.storage.size_eq, after.storage.size_eq]
  exact (suffix_of_changes changes).length_le

theorem ordered_of_changes (ordered : before.Ordered)
    (changes : ChangesBy closing before after)
    (small : after.storage.size ≤ maxBufferSize) : after.Ordered := by
  induction changes with
  | refl => exact ordered
  | tail early change ih =>
      have shorter := size_le_of_changes (.single change)
      exact ordered_of_change (ih (Nat.le_trans shorter small)) small change

theorem ordered_clear (builder : Builder) : builder.clear.Ordered where
  small := by
    change builder.storage.size - builder.storage.size ≤ maxBufferSize
    rw [Nat.sub_self]
    exact Nat.zero_le _
  vtables _ member := absurd member List.not_mem_nil
  opened _ _ opened := nomatch opened

theorem ordered_of_step (ordered : before.Ordered) (stepped : call.step before = .ok (answer, after))
    (small : after.storage.size ≤ maxBufferSize) : after.Ordered := by
  by_cases cleared : call = .clear
  · subst cleared
    rw [Call.clear_of_step stepped]
    exact ordered_clear before
  · exact ordered_of_changes ordered (Call.changes_of_ordered cleared ordered stepped) small

theorem Measured.ordered (measured : builder.Measured) : builder.Ordered := by
  induction measured with
  | new options =>
      exact ⟨Nat.zero_le _, fun _ member => absurd member List.not_mem_nil, fun _ _ opened =>
        nomatch opened⟩
  | cleared _ => exact ordered_clear _
  | step call _ stepped small ih => exact ordered_of_step ih stepped small

theorem Reachable.measured (reachable : builder.Reachable) : builder.Measured := by
  induction reachable with
  | new options _ => exact .new options
  | step call before stepped ih =>
      exact .step call ih stepped (sound_of_step before.sound stepped).ordered.small

end Builder

structure Turn where
  before : Builder
  call : Call
  answer : Answer
  after : Builder

/-- The turns that lead from one builder to another, the latest first. -/
inductive Turns (start : Builder) : List Turn → Builder → Prop
  | nothing : Turns start [] start
  | made {earlier : List Turn} {before after : Builder} {call : Call} {answer : Answer}
      (early : Turns start earlier before) (kept : call ≠ .clear)
      (stepped : call.step before = .ok (answer, after))
      (small : after.storage.size ≤ maxBufferSize) :
      Turns start (⟨before, call, answer, after⟩ :: earlier) after

def Builder.turns (builder : Builder) : List Call → List (Answer × Builder) → List Turn
  | call :: calls, (answer, after) :: stages =>
      ⟨builder, call, answer, after⟩ :: after.turns calls stages
  | _, _ => []

namespace Turns

variable {start last : Builder} {list : List Turn} {turn : Turn}

theorem of_run {builder : Builder} {calls : List Call} {stages : List (Answer × Builder)}
    (early : Turns start list builder) (kept : ∀ call ∈ calls, call ≠ .clear)
    (small : ∀ stage ∈ stages, stage.2.storage.size ≤ maxBufferSize)
    (ran : builder.run calls = .ok stages) :
    Turns start ((builder.turns calls stages).reverse ++ list) (builder.lastOf stages) := by
  induction calls generalizing builder list stages with
  | nil =>
      cases ran
      exact early
  | cons call calls ih =>
      rcases Builder.run_cons.mp ran with ⟨answer, after, later, stepped, ranLater, rfl⟩
      rw [List.forall_mem_cons] at kept small
      rw [Builder.turns, List.reverse_cons, List.append_assoc]
      exact ih (.made early kept.1 stepped small.1) kept.2 small.2 ranLater

theorem ordered (turns : Turns start list last) (ordered : start.Ordered) : last.Ordered := by
  induction turns with
  | nothing => exact ordered
  | made _ _ stepped small ih => exact Builder.ordered_of_step ih stepped small

theorem changes (turns : Turns start list last) (ordered : start.Ordered) : Changes start last := by
  induction turns with
  | nothing => exact .refl
  | made early kept stepped small ih =>
      exact ih.trans (Call.changes_of_ordered kept (early.ordered ordered) stepped)

structure Holds (start last : Builder) (turn : Turn) : Prop where
  ordered : turn.before.Ordered
  stepped : turn.call.step turn.before = .ok (turn.answer, turn.after)
  early : Changes start turn.before
  changes : Changes turn.before turn.after
  late : Changes turn.after last

theorem holds (turns : Turns start list last) (ordered : start.Ordered) (member : turn ∈ list) :
    Holds start last turn := by
  induction turns with
  | nothing => cases member
  | made early kept stepped small ih =>
      have change := Call.changes_of_ordered kept (early.ordered ordered) stepped
      rcases List.mem_cons.mp member with rfl | member
      · exact ⟨early.ordered ordered, stepped, early.changes ordered, change, .refl⟩
      · have holds := ih member
        exact { holds with late := holds.late.trans change }

theorem split {late early : List Turn} (turns : Turns start (late ++ early) last) :
    ∃ middle, Turns start early middle ∧ Turns middle late last := by
  induction late generalizing last with
  | nil => exact ⟨last, turns, .nothing⟩
  | cons turn late ih =>
      cases turns with
      | made rest kept stepped small =>
          obtain ⟨middle, before, after⟩ := ih rest
          exact ⟨middle, before, .made after kept stepped small⟩

theorem until_turn {late early : List Turn} (turns : Turns start (late ++ turn :: early) last) :
    Turns start early turn.before := by
  obtain ⟨middle, first, -⟩ := turns.split
  cases first with
  | made first => exact first

/-- Two turns of a session write in different places. -/
theorem apart {first second : Turn} (turns : Turns start list last) (ordered : start.Ordered)
    (one : first ∈ list) (other : second ∈ list) (differ : first ≠ second) :
    first.after.storage.size ≤ second.before.storage.size ∨
      second.after.storage.size ≤ first.before.storage.size := by
  induction turns with
  | nothing => cases one
  | made early _ _ _ ih =>
      have below {turn : Turn} (member : turn ∈ _) :=
        Builder.size_le_of_changes (early.holds ordered member).late
      rcases List.mem_cons.mp one with rfl | one <;> rcases List.mem_cons.mp other with rfl | other
      · exact absurd rfl differ
      · exact .inr (below other)
      · exact .inl (below one)
      · exact ih one other

end Turns

end WireTables
