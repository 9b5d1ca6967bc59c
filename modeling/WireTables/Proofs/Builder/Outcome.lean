import WireTables.Builder.Basic

namespace WireTables

inductive Outcome.Leaves {α : Type} : Outcome α → Builder → Prop
  | done (value : α) (after : Builder) : Leaves (.done value after) after
  | refused (error : Refusal) (after : Builder) : Leaves (.refused error after) after

def Outcome.value? {α : Type} : Outcome α → Option α
  | .done value _ => some value
  | _ => none

theorem Outcome.done_of_value? {α : Type} {outcome : Outcome α} {value : α}
    (ended : outcome.value? = some value) : ∃ after, outcome = .done value after := by
  cases outcome with
  | done found after =>
      cases ended
      exact ⟨after, rfl⟩
  | refused error after => cases ended
  | fault cause => cases ended

namespace Build

variable {α β : Type} {step : Build α} {next : α → Build β} {builder after : Builder}

@[simp] theorem update_apply (change : Builder → Builder) (builder : Builder) :
    update change builder = .done () (change builder) := rfl

theorem bind_apply (step : Build α) (next : α → Build β) (builder : Builder) :
    (step >>= next) builder =
      match step builder with
      | .done value middle => next value middle
      | .refused error middle => .refused error middle
      | .fault cause => .fault cause := rfl

theorem bind_of_done {value : α} (ran : step builder = .done value after) :
    (step >>= next) builder = next value after := by
  rw [bind_apply, ran]

theorem bind_of_refused {error : Refusal} (ran : step builder = .refused error after) :
    (step >>= next) builder = .refused error after := by
  rw [bind_apply, ran]

theorem bind_of_fault {cause : Fault} (ran : step builder = .fault cause) :
    (step >>= next) builder = .fault cause := by
  rw [bind_apply, ran]

@[simp] theorem state_bind (next : Builder → Build β) (builder : Builder) :
    (state >>= next) builder = next builder builder := rfl

@[simp] theorem update_bind (change : Builder → Builder) (next : Unit → Build β)
    (builder : Builder) : (update change >>= next) builder = next () (change builder) := rfl

@[simp] theorem head_bind (next : UInt32 → Build β) (builder : Builder) :
    (head >>= next) builder = next builder.head builder := rfl

theorem demand_bind {holds : Prop} [Decidable holds] {cause : Fault} {next : Unit → Build β} :
    (demand holds cause >>= next) builder = if holds then next () builder else .fault cause := by
  rw [bind_apply, demand]
  by_cases held : holds
  · rw [if_pos held, if_pos held]
  · rw [if_neg held, if_neg held]

theorem done_bind {result : β} :
    (step >>= next) builder = .done result after ↔
      ∃ value middle, step builder = .done value middle ∧ next value middle = .done result after := by
  rw [bind_apply]
  cases step builder with
  | done value middle => simp [and_assoc]
  | refused error middle => simp
  | fault cause => simp

theorem refused_bind {error : Refusal} :
    (step >>= next) builder = .refused error after ↔
      step builder = .refused error after ∨
        ∃ value middle, step builder = .done value middle ∧
          next value middle = .refused error after := by
  rw [bind_apply]
  cases step builder with
  | done value middle => simp [and_assoc]
  | refused error middle => simp
  | fault cause => simp

theorem attempt_ok {value : α} :
    attempt step builder = .done (.ok value) after ↔ step builder = .done value after := by
  rw [attempt]
  cases step builder <;> simp

theorem attempt_error {error : Refusal} :
    attempt step builder = .done (.error error) after ↔ step builder = .refused error after := by
  rw [attempt]
  cases step builder <;> simp

theorem forM_reverse_cons_done {visit : α → Build Unit} {item : α} {items : List α} :
    ((item :: items).reverse.forM visit) builder = .done () after ↔
      ∃ middle, (items.reverse.forM visit) builder = .done () middle ∧
        visit item middle = .done () after := by
  rw [List.forM_eq_forM, List.reverse_cons, List.forM_append, done_bind]
  constructor
  · rintro ⟨_, middle, early, late⟩
    rcases done_bind.mp late with ⟨_, last, visited, rest⟩
    cases rest
    exact ⟨middle, early, visited⟩
  · rintro ⟨middle, early, visited⟩
    exact ⟨(), middle, early, done_bind.mpr ⟨(), after, visited, rfl⟩⟩

theorem leaves_bind (left : ((step >>= next) builder).Leaves after) :
    (∃ error, step builder = .refused error after) ∨
      ∃ value middle, step builder = .done value middle ∧ (next value middle).Leaves after := by
  rw [bind_apply] at left
  cases ran : step builder with
  | done value middle => exact .inr ⟨value, middle, rfl, by rwa [ran] at left⟩
  | refused error middle =>
      rw [ran] at left
      cases left
      exact .inl ⟨error, rfl⟩
  | fault cause =>
      rw [ran] at left
      cases left

def Moves (relation : Builder → Builder → Prop) (step : Build α) (builder : Builder) : Prop :=
  ∀ after, (step builder).Leaves after → relation builder after

namespace Moves

variable {relation : Builder → Builder → Prop}

theorem of_endings
    (done : ∀ value after, step builder = .done value after → relation builder after)
    (refused : ∀ error after, step builder = .refused error after → relation builder after) :
    Moves relation step builder := by
  intro after left
  cases ran : step builder with
  | done value middle =>
      rw [ran] at left
      cases left
      exact done value after ran
  | refused error middle =>
      rw [ran] at left
      cases left
      exact refused error after ran
  | fault cause =>
      rw [ran] at left
      cases left

theorem of_done (moves : Moves relation step builder) {value : α}
    (ran : step builder = .done value after) : relation builder after :=
  moves after (ran ▸ .done value after)

theorem of_refused (moves : Moves relation step builder) {error : Refusal}
    (ran : step builder = .refused error after) : relation builder after :=
  moves after (ran ▸ .refused error after)

theorem of_pure (same : relation builder builder) (value : α) :
    Moves relation (pure value : Build α) builder := by
  intro after left
  cases left
  exact same

theorem of_refuse (same : relation builder builder) (error : Refusal) :
    Moves relation (refuse error : Build α) builder := by
  intro after left
  cases left
  exact same

theorem of_update {change : Builder → Builder} (changed : relation builder (change builder)) :
    Moves relation (update change) builder := by
  intro after left
  cases left
  exact changed

theorem of_read (same : relation builder builder) (read : Except Fault α) :
    Moves relation (ofRead read) builder := by
  intro after left
  cases read with
  | ok value =>
      cases left
      exact same
  | error cause => cases left

theorem bind (trans : ∀ {a b c}, relation a b → relation b c → relation a c)
    (first : Moves relation step builder)
    (second : ∀ value middle, step builder = .done value middle →
      Moves relation (next value) middle) :
    Moves relation (step >>= next) builder := by
  intro after left
  rcases leaves_bind left with ⟨error, ran⟩ | ⟨value, middle, ran, left⟩
  · exact first.of_refused ran
  · exact trans (first.of_done ran) (second value middle ran after left)

theorem state_bind {next : Builder → Build β} (moves : Moves relation (next builder) builder) :
    Moves relation (Build.state >>= next) builder := moves

theorem head_bind {next : UInt32 → Build β} (moves : Moves relation (next builder.head) builder) :
    Moves relation (Build.head >>= next) builder := moves

theorem attempt (moves : Moves relation step builder) :
    Moves relation (Build.attempt step) builder := by
  intro after left
  apply moves
  simp only [Build.attempt] at left
  cases ran : step builder with
  | done value middle =>
      rw [ran] at left
      cases left
      exact .done value after
  | refused error middle =>
      rw [ran] at left
      cases left
      exact .refused error after
  | fault cause =>
      rw [ran] at left
      cases left

theorem forM (refl : ∀ a, relation a a)
    (trans : ∀ {a b c}, relation a b → relation b c → relation a c) {visit : α → Build PUnit}
    (each : ∀ item builder, Moves relation (visit item) builder) (items : List α)
    (builder : Builder) : Moves relation (items.forM visit) builder := by
  induction items generalizing builder with
  | nil => exact of_pure (refl builder) _
  | cons item items ih =>
      rw [List.forM_eq_forM, List.forM_cons]
      exact bind trans (each item builder) fun _ middle _ => ih middle

theorem mapM (refl : ∀ a, relation a a)
    (trans : ∀ {a b c}, relation a b → relation b c → relation a c) {visit : α → Build β}
    (each : ∀ item builder, Moves relation (visit item) builder) (items : List α)
    (builder : Builder) : Moves relation (items.mapM visit) builder := by
  induction items generalizing builder with
  | nil =>
      rw [List.mapM_nil]
      exact of_pure (refl builder) _
  | cons item items ih =>
      rw [List.mapM_cons]
      refine bind trans (each item builder) fun value middle _ => ?_
      exact bind trans (ih middle) fun values last _ => of_pure (refl last) _

end Moves

theorem holds_of_mapM {α β : Type} {holds : Builder → Prop} {visit : α → Build β}
    {before after : Builder} {items : List α} {values : List β}
    (keeps : ∀ item value before after, holds before → visit item before = .done value after →
      holds after) (start : holds before)
    (ran : items.mapM visit before = .done values after) :
    values.length = items.length ∧ holds after := by
  induction items generalizing before values with
  | nil =>
      rw [List.mapM_nil] at ran
      cases ran
      exact ⟨rfl, start⟩
  | cons item items ih =>
      rw [List.mapM_cons] at ran
      rcases done_bind.mp ran with ⟨value, middle, first, ran⟩
      rcases done_bind.mp ran with ⟨rest, last, later, ran⟩
      cases ran
      obtain ⟨length, ending⟩ := ih (keeps item value _ _ start first) later
      exact ⟨congrArg Nat.succ length, ending⟩

end Build

end WireTables
