import PathQuery.Event

/-!
# Action — steps that change a state, report events and may fail

A step that fails keeps what it changed and reported before.
-/

namespace PathQuery

/-- A state with the events reported so far. -/
structure Logged (σ : Type) where
  state : σ
  events : List Event

/-- A step on a state, with an answer or an error. -/
abbrev Action (σ : Type) : Type → Type :=
  EStateM Error (Logged σ)

namespace Action

variable {σ τ α : Type}

def current : Action σ σ := fun s =>
  .ok s.state s

def put (x : σ) : Action σ Unit := fun s =>
  .ok () { s with state := x }

def report (e : Event) : Action σ Unit := fun s =>
  .ok () { s with events := s.events ++ [e] }

/-- The answer of a computation without state. -/
def ofExcept : Except Error α → Action σ α
  | .ok a => fun s => .ok a s
  | .error e => fun s => .error e s

/-- Runs a step on a part of the state. -/
def focus (view : σ → τ) (update : σ → τ → σ) (a : Action τ α) : Action σ α := fun s =>
  match a ⟨view s.state, s.events⟩ with
  | .ok x t => .ok x ⟨update s.state t.state, t.events⟩
  | .error e t => .error e ⟨update s.state t.state, t.events⟩

/-- Runs a step on a state of its own, which is part of the answer. -/
def within (start : τ) (a : Action τ α) : Action σ (α × τ) := fun s =>
  match a ⟨start, s.events⟩ with
  | .ok x t => .ok (x, t.state) ⟨s.state, t.events⟩
  | .error e t => .error e ⟨s.state, t.events⟩

/-- The answer or the error of a step that starts without events. -/
def result (a : Action σ α) (start : σ) : Except Error α :=
  match a ⟨start, []⟩ with
  | .ok x _ => .ok x
  | .error e _ => .error e

end Action

/-- What a handle reports when it takes an instruction. -/
def Instruction.events : Instruction → List Event
  | .restrict clause => [.restricted clause]
  | _ => []

/-- Takes one instruction; a refused one changes nothing. -/
def Plan.perform (i : Instruction) : Action Plan Unit := fun s =>
  match s.state.apply i with
  | .ok p => .ok () ⟨p, s.events ++ i.events⟩
  | .error e => .error e s

end PathQuery
