import PathQuery.Proofs.Strict.Run

/-!
# Widenings

A widening says that a property is compared as another type. It may stand around a whole accessor,
around a tuple or one of its items, or between two accesses of a chain. Nothing depends on it: an
accessor resolves as it does without any of them, so calls answer the same and compile to the same.
-/

namespace PathQuery

/-! ## Accessors without widenings -/

namespace Accessor

mutual

/-- The accessor with every widening taken away, also those inside of tuples. -/
def unwidened : Accessor → Accessor
  | .root => .root
  | .member owner name => .member (unwidened owner) name
  | .widen operand _ => unwidened operand
  | .tuple items => .tuple (unwidenedItems items)

/-- The accessors with every widening taken away, one by one. -/
def unwidenedItems : List Accessor → List Accessor
  | [] => []
  | a :: as => unwidened a :: unwidenedItems as

end

theorem unwidenedItems_eq_map (items : List Accessor) :
    unwidenedItems items = items.map unwidened := by
  induction items with
  | nil => rfl
  | cons a items ih => rw [unwidenedItems, ih, List.map_cons]

-- No widening is left around an accessor, so there is none to strip.
theorem bare_unwidened (a : Accessor) : a.unwidened.bare = a.unwidened := by
  fun_induction Accessor.bare a with
  | case1 operand target ih => exact ih
  | case2 a hbare =>
    cases a with
    | widen operand target => exact absurd rfl (hbare operand target)
    | root | member _ _ | tuple _ => rfl

theorem names_unwidened (a : Accessor) : a.unwidened.names = a.names := by
  fun_induction Accessor.names a with
  | case1 => rfl
  | case2 owner name ih => rw [unwidened, names, ih]
  | case3 operand target ih => exact ih
  | case4 items => rfl

end Accessor

namespace Schema

variable (s : Schema) (root : String)

theorem path_unwidened (a : Accessor) : s.path root a.unwidened = s.path root a := by
  rw [path, path, Accessor.names_bare, Accessor.names_bare, a.names_unwidened]

/-- An accessor resolves to the same paths, or fails with the same error, without its widenings. -/
theorem paths_unwidened (a : Accessor) : s.paths root a.unwidened = s.paths root a := by
  rw [paths, a.bare_unwidened]
  fun_induction Accessor.bare a with
  | case1 operand target ih => exact ih
  | case2 a hbare =>
    -- what is left is a tuple, whose items lose theirs, or a single accessor
    cases a with
    | widen operand target => exact absurd rfl (hbare operand target)
    | tuple items =>
      have hitem : (s.path root ∘ Accessor.unwidened) = s.path root :=
        funext (s.path_unwidened root)
      change (Accessor.unwidenedItems items).mapM (s.path root) = items.mapM (s.path root)
      rw [Accessor.unwidenedItems_eq_map, List.mapM_map, hitem]
    | root => rfl
    | member owner name =>
      have hsingle := s.path_unwidened root (.member owner name)
      rw [Accessor.unwidened] at hsingle ⊢
      simp only [hsingle]
      rfl

end Schema

/-! ## Calls without widenings -/

def Request.unwidened : Request → Request
  | .condition a kind operands => .condition a.unwidened kind operands
  | .page kind count => .page kind count

def Call.unwidened (c : Call) : Call :=
  { c with request := c.request.unwidened }

namespace Spec

def Move.unwidened : Move → Move
  | .put placement request => .put placement request.unwidened
  | .chain calls => .chain (calls.map Call.unwidened)
  | .joinKind kind => .joinKind kind
  | .resultType target => .resultType target

theorem perform_unwidened (placement : Placement) (request : Request) :
    perform placement request.unwidened = perform placement request := by
  cases request with
  | condition a kind operands =>
    have hprepare : ∀ spec : Spec,
        spec.prepare a.unwidened kind operands = spec.prepare a kind operands := by
      intro spec
      rw [prepare, prepare, Schema.paths_unwidened]
    simp only [Request.unwidened, perform, insert, hprepare]
  | page kind count => rfl

theorem chainFrom_unwidened (previous : Option Nat) (cs : List Call) (s : Logged Spec) :
    chainFrom previous (cs.map Call.unwidened) s = chainFrom previous cs s := by
  induction cs generalizing previous s with
  | nil => rfl
  | cons c cs ih =>
    -- the placement of a call does not depend on what it asks for
    have hplacement : Call.placement c.unwidened previous = Call.placement c previous := rfl
    rw [List.map_cons, chainFrom, chainFrom, hplacement, Call.unwidened, perform_unwidened]
    simp only [ih]

theorem Move.play_unwidened (m : Move) (s : Logged Spec) : m.unwidened.play s = m.play s := by
  cases m with
  | put placement request => rw [unwidened, play, play, perform_unwidened]
  | chain calls => exact chainFrom_unwidened none calls s
  | joinKind kind => rfl
  | resultType target => rfl

theorem play_unwidened (ms : List Move) (s : Logged Spec) :
    play (ms.map Move.unwidened) s = play ms s := by
  induction ms generalizing s with
  | nil => rfl
  | cons m ms ih => simp only [List.map_cons, play, Move.play_unwidened, ih]

/-- Widenings make no difference. An accessor resolves to the same paths and to the same path, or
fails with the same error, when all of its widenings are taken away. So runs that differ in nothing
but widenings, whichever of their accessors have them and where, answer the same call by call,
leave the same specification and come to the same plan or the same error. -/
theorem play_eq_of_unwidened_eq :
    (∀ (s : Schema) (root : String) (a : Accessor),
      s.paths root a.unwidened = s.paths root a ∧ s.path root a.unwidened = s.path root a) ∧
    ∀ moves moves' : List Move, moves.map Move.unwidened = moves'.map Move.unwidened →
      (∀ s, play moves s = play moves' s) ∧
      ∀ settings schema root,
        outcome settings schema root moves = outcome settings schema root moves' := by
  refine ⟨fun s root a => ⟨s.paths_unwidened root a, s.path_unwidened root a⟩,
    fun moves moves' hsame => ?_⟩
  have hplay : ∀ s, play moves s = play moves' s := by
    intro s
    rw [← play_unwidened moves, hsame, play_unwidened]
  refine ⟨hplay, fun settings schema root => ?_⟩
  simp only [outcome, hplay]

/-- The calls on the employees, with a tuple of one relationship for the selection. -/
def tupledStaffMoves : List Move :=
  [.chain (staffCalls.set 3 ⟨.select (.tuple [.chain ["manager"]]), false⟩)]

/-- The same calls with widenings around an accessor, inside of its chain, around the tuple and
around its item. -/
def widenedStaffMoves : List Move :=
  [.chain
    [⟨.notEqual (.widen (.member (.widen (.chain ["manager"]) .string) "age") .int64) (.int64 50),
      false⟩,
     ⟨.isNull (.chain ["manager", "manager", "name"]), true⟩,
     ⟨.orderByDescending (.chain ["manager", "name"]), false⟩,
     ⟨.select (.widen (.tuple [.widen (.chain ["manager"]) .uuid]) .bool), false⟩,
     ⟨.take 10, false⟩]]

-- With widenings in four places the calls answer the same and come to the same plan.
theorem play_eq_of_unwidened_eq_staff :
    widenedStaffMoves.map Move.unwidened = tupledStaffMoves.map Move.unwidened ∧
      outcome .standard staffSchema "Employee" widenedStaffMoves =
        .ok ([[.ok 0, .ok 0, .ok 1, .ok 2, .ok 3]], .ok staffPlan) := by
  have hsame : widenedStaffMoves.map Move.unwidened = tupledStaffMoves.map Move.unwidened := rfl
  refine ⟨hsame, ?_⟩
  rw [(play_eq_of_unwidened_eq.2 _ _ hsame).2]
  cbv

end Spec

end PathQuery
