import PathQuery.Action

/-!
# Actions that mirror each other

Two states may differ in what no step depends on. When a function forgets the difference, a step on
the image of a state answers the image of the answer and leaves the image of the state; what is
reported stays the same.
-/

namespace PathQuery

variable {σ τ υ : Type}

/-- The state under a function, with the same events. -/
def Logged.map (f : σ → τ) (s : Logged σ) : Logged τ :=
  ⟨f s.state, s.events⟩

namespace Action

variable {α β γ δ : Type} {f : σ → τ}

/-- On the image of a state `b` answers the image of what `a` answers, or fails with the same error,
and leaves the image of the state that `a` leaves. -/
def Mirrors (f : σ → τ) (g : α → β) (a : Action σ α) (b : Action τ β) : Prop :=
  ∀ s, b (s.map f) =
    match a s with
    | .ok x t => .ok (g x) (t.map f)
    | .error e t => .error e (t.map f)

theorem mirrors_pure (g : α → β) (x : α) :
    Mirrors f g (pure x : Action σ α) (pure (g x) : Action τ β) :=
  fun _ => rfl

theorem mirrors_throw (g : α → β) (e : Error) :
    Mirrors f g (throw e : Action σ α) (throw e : Action τ β) :=
  fun _ => rfl

theorem mirrors_current : Mirrors f f current current :=
  fun _ => rfl

theorem mirrors_put (x : σ) : Mirrors f id (put x) (put (f x)) :=
  fun _ => rfl

theorem mirrors_report (e : Event) : Mirrors f id (report e) (report e) :=
  fun _ => rfl

/-- Steps mirror each other when the parts that they run one after the other do. -/
theorem Mirrors.bind {g : α → β} {h : γ → δ} {a : Action σ α} {b : Action τ β}
    {c : α → Action σ γ} {d : β → Action τ δ} (first : Mirrors f g a b)
    (next : ∀ x, Mirrors f h (c x) (d (g x))) : Mirrors f h (a >>= c) (b >>= d) := by
  intro s
  show EStateM.bind b d (s.map f) =
    match EStateM.bind a c s with
    | .ok x t => .ok (h x) (t.map f)
    | .error e t => .error e (t.map f)
  rw [EStateM.bind, EStateM.bind, first s]
  cases a s with
  | ok x t => exact next x t
  | error e t => rfl

-- Computations without state need to give the same up to the function of the answers.
theorem mirrors_ofExcept (g : α → β) (r : Except Error α) :
    Mirrors f g (ofExcept r : Action σ α) (ofExcept (g <$> r) : Action τ β) := by
  cases r <;> exact fun _ => rfl

theorem mirrors_ofExcept_self (r : Except Error α) :
    Mirrors f id (ofExcept r : Action σ α) (ofExcept r : Action τ α) := by
  have hmirrors := mirrors_ofExcept (f := f) id r
  rwa [id_map] at hmirrors

-- A step on a part that the function of the states keeps.
theorem mirrors_focus {view : σ → υ} {update : σ → υ → σ} {view' : τ → υ} {update' : τ → υ → τ}
    (hview : ∀ s, view' (f s) = view s) (hupdate : ∀ s x, update' (f s) x = f (update s x))
    (a : Action υ α) : Mirrors f id (focus view update a) (focus view' update' a) := by
  intro s
  simp only [focus, Logged.map, hview]
  cases a ⟨view s.state, s.events⟩ with
  | ok x t => simp [hupdate]
  | error e t => simp [hupdate]

-- A step on a state of its own leaves that state in the answer.
theorem Mirrors.within {g : α → β} {a : Action υ α} {b : Action υ β} (h : Mirrors id g a b)
    (start : υ) :
    Mirrors f (Prod.map g id) (within start a : Action σ (α × υ)) (Action.within start b) := by
  intro s
  have hrun := h ⟨start, s.events⟩
  simp only [Action.within]
  rw [show (⟨start, (s.map f).events⟩ : Logged υ) = Logged.map id ⟨start, s.events⟩ from rfl, hrun]
  cases a ⟨start, s.events⟩ <;> rfl

-- The result of a step is the outcome that it has without earlier events.
theorem Mirrors.result {g : α → β} {a : Action σ α} {b : Action τ β} (h : Mirrors f g a b)
    (start : σ) : b.result (f start) = g <$> a.result start := by
  have hrun := h ⟨start, []⟩
  unfold Action.result
  rw [show (⟨f start, []⟩ : Logged τ) = Logged.map f ⟨start, []⟩ from rfl, hrun]
  cases a ⟨start, []⟩ <;> rfl

/-- Steps along lists mirror each other when they do so item by item. -/
theorem mirrors_foldlM {g : α → β} {h : γ → δ} {step : γ → α → Action σ γ}
    {step' : δ → β → Action τ δ} (hstep : ∀ y x, Mirrors f h (step y x) (step' (h y) (g x)))
    (xs : List α) (y : γ) :
    Mirrors f h (xs.foldlM step y) ((xs.map g).foldlM step' (h y)) := by
  induction xs generalizing y with
  | nil => exact mirrors_pure h y
  | cons x xs ih =>
    rw [List.map_cons, List.foldlM_cons, List.foldlM_cons]
    exact (hstep y x).bind ih

end Action

end PathQuery
