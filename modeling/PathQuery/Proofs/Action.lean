import PathQuery.Action

/-!
# Outcomes of actions

An action ends with an answer or with an error, and leaves a state in either case. `Ensures` says
what holds in both cases, so that one statement about a step covers its failures too.
-/

namespace PathQuery

namespace Action

variable {σ τ α β : Type} {s : Logged σ} {ok : α → Logged σ → Prop}
  {fail : Error → Logged σ → Prop}

/-- The answer and the state it leaves satisfy `ok`, the error and the state it leaves `fail`. -/
def Ensures (a : Action σ α) (s : Logged σ) (ok : α → Logged σ → Prop)
    (fail : Error → Logged σ → Prop) : Prop :=
  match a s with
  | .ok x t => ok x t
  | .error e t => fail e t

theorem Ensures.of_ok {a : Action σ α} {x : α} {t : Logged σ} (h : a.Ensures s ok fail)
    (run : a s = .ok x t) : ok x t := by
  rw [Ensures, run] at h
  exact h

theorem Ensures.of_error {a : Action σ α} {e : Error} {t : Logged σ} (h : a.Ensures s ok fail)
    (run : a s = .error e t) : fail e t := by
  rw [Ensures, run] at h
  exact h

theorem Ensures.imp {a : Action σ α} {ok' : α → Logged σ → Prop}
    {fail' : Error → Logged σ → Prop} (h : a.Ensures s ok fail)
    (hok : ∀ x t, ok x t → ok' x t) (hfail : ∀ e t, fail e t → fail' e t) :
    a.Ensures s ok' fail' := by
  unfold Ensures at *
  split
  next x t run => rw [run] at h; exact hok x t h
  next e t run => rw [run] at h; exact hfail e t h

-- A step that ensures something only by its answer has answered.
theorem exists_ok_iff {a : Action σ α} :
    a.Ensures s ok (fun _ _ => False) ↔ ∃ x t, a s = .ok x t ∧ ok x t := by
  unfold Ensures
  cases a s <;> simp [and_assoc]

-- A step that ensures something only by its error has failed.
theorem exists_error_iff {a : Action σ α} :
    a.Ensures s (fun _ _ => False) fail ↔ ∃ e t, a s = .error e t ∧ fail e t := by
  unfold Ensures
  cases a s <;> simp [and_assoc]

theorem exists_eq_error_iff {a : Action σ α} {e : Error} :
    (∃ t, a s = .error e t) ↔ a.Ensures s (fun _ _ => False) fun f _ => f = e := by
  rw [exists_error_iff]
  simp

theorem ensures_congr {a : Action σ α} {ok' : α → Logged σ → Prop}
    {fail' : Error → Logged σ → Prop} (hok : ∀ x t, ok x t ↔ ok' x t)
    (hfail : ∀ e t, fail e t ↔ fail' e t) : a.Ensures s ok fail ↔ a.Ensures s ok' fail' :=
  ⟨fun h => h.imp (fun x t => (hok x t).1) fun e t => (hfail e t).1,
    fun h => h.imp (fun x t => (hok x t).2) fun e t => (hfail e t).2⟩

/-- What follows a step starts in the state that the step leaves. -/
@[simp]
theorem ensures_bind {a : Action σ β} {f : β → Action σ α} :
    Ensures (a >>= f) s ok fail ↔ a.Ensures s (fun x t => (f x).Ensures t ok fail) fail := by
  show Ensures (EStateM.bind a f) s ok fail ↔ _
  unfold Ensures EStateM.bind
  cases a s <;> rfl

@[simp]
theorem ensures_map {a : Action σ β} {f : β → α} :
    Ensures (f <$> a) s ok fail ↔ a.Ensures s (fun x t => ok (f x) t) fail := by
  show Ensures (EStateM.map f a) s ok fail ↔ _
  unfold Ensures EStateM.map
  cases a s <;> rfl

@[simp]
theorem ensures_pure {x : α} : Ensures (pure x : Action σ α) s ok fail ↔ ok x s :=
  Iff.rfl

@[simp]
theorem ensures_throw {e : Error} : Ensures (throw e : Action σ α) s ok fail ↔ fail e s :=
  Iff.rfl

@[simp]
theorem ensures_current {ok : σ → Logged σ → Prop} :
    (current : Action σ σ).Ensures s ok fail ↔ ok s.state s :=
  Iff.rfl

@[simp]
theorem ensures_put {x : σ} {ok : Unit → Logged σ → Prop} :
    (put x).Ensures s ok fail ↔ ok () ⟨x, s.events⟩ :=
  Iff.rfl

@[simp]
theorem ensures_report {e : Event} {ok : Unit → Logged σ → Prop} :
    (report e : Action σ Unit).Ensures s ok fail ↔ ok () ⟨s.state, s.events ++ [e]⟩ :=
  Iff.rfl

-- A computation without state leaves the state as it is.
theorem ensures_ofExcept {r : Except Error α} :
    (ofExcept r : Action σ α).Ensures s ok fail ↔
      (∀ x, r = .ok x → ok x s) ∧ ∀ e, r = .error e → fail e s := by
  cases r with
  | ok x => exact ⟨fun h => ⟨fun y hy => by cases hy; exact h, nofun⟩, fun h => h.1 x rfl⟩
  | error e => exact ⟨fun h => ⟨nofun, fun y hy => by cases hy; exact h⟩, fun h => h.2 e rfl⟩

@[simp]
theorem ensures_ofExcept_ok {x : α} :
    (ofExcept (.ok x) : Action σ α).Ensures s ok fail ↔ ok x s :=
  Iff.rfl

-- A step on a part of the state changes only that part.
theorem ensures_focus {view : σ → τ} {update : σ → τ → σ} {a : Action τ α} :
    (focus view update a).Ensures s ok fail ↔
      a.Ensures ⟨view s.state, s.events⟩ (fun x t => ok x ⟨update s.state t.state, t.events⟩)
        (fun e t => fail e ⟨update s.state t.state, t.events⟩) := by
  unfold Ensures focus
  cases a ⟨view s.state, s.events⟩ <;> rfl

-- A step on a state of its own leaves the state as it is and answers the other one.
theorem ensures_within {start : τ} {a : Action τ α} {ok : α × τ → Logged σ → Prop} :
    (within start a).Ensures s ok fail ↔
      a.Ensures ⟨start, s.events⟩ (fun x t => ok (x, t.state) ⟨s.state, t.events⟩)
        (fun e t => fail e ⟨s.state, t.events⟩) := by
  unfold Ensures within
  cases a ⟨start, s.events⟩ <;> rfl

-- Steps in a row answer when each of them does.
theorem bind_eq_ok_iff {a : Action σ β} {f : β → Action σ α} {y : α} {u : Logged σ} :
    (a >>= f) s = .ok y u ↔ ∃ x t, a s = .ok x t ∧ f x t = .ok y u := by
  show EStateM.bind a f s = .ok y u ↔ _
  unfold EStateM.bind
  cases a s <;> simp [and_assoc]

-- Steps in a row do the same when the first ones do, and the others where the first ones lead.
theorem bind_congr {a b : Action σ β} {f g : β → Action σ α} (h : a s = b s)
    (hf : ∀ x t, a s = .ok x t → f x t = g x t) : (a >>= f) s = (b >>= g) s := by
  show EStateM.bind a f s = EStateM.bind b g s
  unfold EStateM.bind
  rw [← h]
  cases run : a s with
  | ok x t => exact hf x t run
  | error e t => rfl

-- Steps in a row fail when the first one does, or when it answers and the rest fails.
theorem bind_eq_error_iff {a : Action σ β} {f : β → Action σ α} {e : Error} {u : Logged σ} :
    (a >>= f) s = .error e u ↔ a s = .error e u ∨ ∃ x t, a s = .ok x t ∧ f x t = .error e u := by
  show EStateM.bind a f s = .error e u ↔ _
  unfold EStateM.bind
  cases a s <;> simp [and_assoc]

theorem result_eq_ok_iff {a : Action σ α} {start : σ} {x : α} :
    a.result start = .ok x ↔ a.Ensures ⟨start, []⟩ (fun y _ => y = x) (fun _ _ => False) := by
  unfold Ensures result
  cases a ⟨start, []⟩ <;> simp

theorem result_eq_error_iff {a : Action σ α} {start : σ} {e : Error} :
    a.result start = .error e ↔
      a.Ensures ⟨start, []⟩ (fun _ _ => False) (fun f _ => f = e) := by
  unfold Ensures result
  cases a ⟨start, []⟩ <;> simp

-- The result of a step is the outcome that it has without earlier events.
theorem Ensures.result {a : Action σ α} {start : σ} {p : α → Prop} {q : Error → Prop}
    (h : a.Ensures ⟨start, []⟩ (fun x _ => p x) (fun e _ => q e)) :
    (∀ x, a.result start = .ok x → p x) ∧ ∀ e, a.result start = .error e → q e := by
  unfold Ensures at h
  unfold Action.result
  cases run : a ⟨start, []⟩ with
  | ok x t =>
    rw [run] at h
    exact ⟨fun y hy => by cases hy; exact h, nofun⟩
  | error e t =>
    rw [run] at h
    exact ⟨nofun, fun y hy => by cases hy; exact h⟩

end Action

/-- A handle takes an instruction or stays as it is. -/
theorem Plan.ensures_perform (i : Instruction) (s : Logged Plan) :
    (Plan.perform i).Ensures s
      (fun _ t => s.state.apply i = .ok t.state ∧ t.events = s.events ++ i.events)
      (fun e t => s.state.apply i = .error e ∧ t = s) := by
  unfold Action.Ensures Plan.perform
  cases s.state.apply i with
  | ok p => exact ⟨rfl, rfl⟩
  | error e => exact ⟨rfl, rfl⟩

end PathQuery
