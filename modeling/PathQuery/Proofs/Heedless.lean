import PathQuery.Action

/-!
# Actions that do not look back

What an action does must not depend on what was reported before it. It answers the same and leaves
the same state whatever the earlier events were, and its own events come behind them.
-/

namespace PathQuery

variable {σ τ : Type}

namespace Action

variable {α β : Type}

/-- The outcome of an action with earlier events in front of its own. -/
def behind (earlier : List Event) :
    EStateM.Result Error (Logged σ) α → EStateM.Result Error (Logged σ) α
  | .ok x t => .ok x ⟨t.state, earlier ++ t.events⟩
  | .error e t => .error e ⟨t.state, earlier ++ t.events⟩

/-- Earlier events stay in front and make no difference. -/
def Heedless (a : Action σ α) : Prop :=
  ∀ (x : σ) (earlier events : List Event), a ⟨x, earlier ++ events⟩ = behind earlier (a ⟨x, events⟩)

theorem Heedless.eq_behind {a : Action σ α} (h : Heedless a) (x : σ) (events : List Event) :
    a ⟨x, events⟩ = behind events (a ⟨x, []⟩) := by
  have hrun := h x events []
  rwa [List.append_nil] at hrun

theorem heedless_pure (x : α) : Heedless (pure x : Action σ α) :=
  fun _ _ _ => rfl

theorem heedless_current : Heedless (current : Action σ σ) :=
  fun _ _ _ => rfl

theorem heedless_put (x : σ) : Heedless (put x) :=
  fun _ _ _ => rfl

theorem heedless_report (e : Event) : Heedless (report e : Action σ Unit) := by
  intro x earlier events
  show EStateM.Result.ok () _ = EStateM.Result.ok () _
  rw [List.append_assoc]

theorem heedless_ofExcept (r : Except Error α) : Heedless (ofExcept r : Action σ α) := by
  cases r <;> exact fun _ _ _ => rfl

theorem Heedless.bind {a : Action σ β} {f : β → Action σ α} (h : Heedless a)
    (hf : ∀ x, Heedless (f x)) : Heedless (a >>= f) := by
  intro x earlier events
  show EStateM.bind a f ⟨x, earlier ++ events⟩ = behind earlier (EStateM.bind a f ⟨x, events⟩)
  rw [EStateM.bind, EStateM.bind, h]
  cases a ⟨x, events⟩ with
  | ok y t => exact hf y t.state earlier t.events
  | error e t => rfl

theorem Heedless.focus {view : σ → τ} {update : σ → τ → σ} {a : Action τ α} (h : Heedless a) :
    Heedless (Action.focus view update a) := by
  intro x earlier events
  simp only [Action.focus]
  rw [h]
  cases a ⟨view x, events⟩ <;> rfl

end Action

theorem Plan.heedless_perform (i : Instruction) : (Plan.perform i).Heedless := by
  intro p earlier events
  unfold Plan.perform
  dsimp only
  cases p.apply i with
  | ok q => simp only [Action.behind, List.append_assoc]
  | error e => rfl

end PathQuery
