import Mathlib.Data.List.Forall2

/-!
# Computations that may fail

How a chain of computations succeeds, and where a run over a list fails first.
-/

namespace PathQuery.Except

variable {ε α β : Type}

theorem bind_eq_ok_iff {x : Except ε α} {f : α → Except ε β} {b : β} :
    x >>= f = .ok b ↔ ∃ a, x = .ok a ∧ f a = .ok b := by
  cases x with
  | error e => exact ⟨nofun, nofun⟩
  | ok a => exact ⟨fun h => ⟨a, rfl, h⟩, fun ⟨_, ha, h⟩ => by cases ha; exact h⟩

theorem bind_eq_error_iff {x : Except ε α} {f : α → Except ε β} {e : ε} :
    x >>= f = .error e ↔ x = .error e ∨ ∃ a, x = .ok a ∧ f a = .error e := by
  cases x with
  | error e' =>
    refine ⟨fun h => .inl (by cases h; rfl), ?_⟩
    intro hrun
    rcases hrun with h | ⟨_, h, _⟩
    · cases h; rfl
    · cases h
  | ok a =>
    refine ⟨fun h => .inr ⟨a, rfl, h⟩, ?_⟩
    intro hrun
    rcases hrun with h | ⟨_, ha, h⟩
    · cases h
    · cases ha; exact h

/-- A run over a list succeeds item by item. -/
theorem mapM_eq_ok_iff {f : α → Except ε β} {xs : List α} {ys : List β} :
    xs.mapM f = .ok ys ↔ List.Forall₂ (fun x y => f x = .ok y) xs ys := by
  induction xs generalizing ys with
  | nil =>
    rw [List.mapM_nil, List.forall₂_nil_left_iff]
    exact ⟨fun h => by cases h; rfl, fun h => by rw [h]; rfl⟩
  | cons x xs ih =>
    rw [List.mapM_cons, bind_eq_ok_iff, List.forall₂_cons_left_iff]
    constructor
    · intro hrun
      rcases hrun with ⟨y, hy, h⟩
      rcases bind_eq_ok_iff.1 h with ⟨ys', hys, h⟩
      cases h
      exact ⟨y, ys', hy, ih.1 hys, rfl⟩
    · intro hrun
      rcases hrun with ⟨y, ys', hy, hys, rfl⟩
      exact ⟨y, hy, bind_eq_ok_iff.2 ⟨ys', ih.2 hys, rfl⟩⟩

-- Where it is known what an item can give, a run that succeeds has applied that to all of them.
theorem eq_map_of_mapM {f : α → Except ε β} {value : α → β} {xs : List α} {ys : List β}
    (h : xs.mapM f = .ok ys) (hvalue : ∀ x y, f x = .ok y → y = value x) :
    ys = xs.map value ∧ ∀ x ∈ xs, f x = .ok (value x) := by
  have hall := mapM_eq_ok_iff.1 h
  have hmap : ys = xs.map value := by
    rw [eq_comm, ← List.forall₂_eq_eq_eq, List.forall₂_map_left_iff]
    exact hall.imp fun x y hy => (hvalue x y hy).symm
  rw [hmap, List.forall₂_map_right_iff, List.forall₂_same] at hall
  exact ⟨hmap, hall⟩

-- Every answer of a run over a list is that of an item.
theorem exists_item_of_mem {f : α → Except ε β} {xs : List α} {ys : List β} {y : β}
    (h : xs.mapM f = .ok ys) (hy : y ∈ ys) : ∃ x ∈ xs, f x = .ok y := by
  have hall := mapM_eq_ok_iff.1 h
  clear h
  induction hall with
  | nil => cases hy
  | cons hx _ ih =>
    rcases List.mem_cons.1 hy with rfl | hy
    · exact ⟨_, List.mem_cons_self, hx⟩
    · rcases ih hy with ⟨x', hmem, hx'⟩
      exact ⟨x', List.mem_cons_of_mem _ hmem, hx'⟩

-- A run over a list that succeeds gives an answer for every item.
theorem exists_answer_of_mem {f : α → Except ε β} {xs : List α} {ys : List β} {x : α}
    (h : xs.mapM f = .ok ys) (hx : x ∈ xs) : ∃ y, f x = .ok y := by
  have hall := mapM_eq_ok_iff.1 h
  clear h
  induction hall with
  | nil => cases hx
  | cons hy _ ih =>
    rcases List.mem_cons.1 hx with rfl | hx
    · exact ⟨_, hy⟩
    · exact ih hx

-- A run over a list fails with the error of the first item that fails.
theorem exists_of_mapM_eq_error {f : α → Except ε β} {xs : List α} {e : ε}
    (h : xs.mapM f = .error e) :
    ∃ before x after, xs = before ++ x :: after ∧ (∀ y ∈ before, ∃ z, f y = .ok z) ∧
      f x = .error e := by
  induction xs with
  | nil => cases h
  | cons x xs ih =>
    rw [List.mapM_cons] at h
    rcases bind_eq_error_iff.1 h with h | ⟨z, hz, h⟩
    · exact ⟨[], x, xs, rfl, nofun, h⟩
    rcases bind_eq_error_iff.1 h with h | ⟨zs, -, h⟩
    · rcases ih h with ⟨before, x', after, rfl, hb, hx⟩
      exact ⟨x :: before, x', after, rfl, List.forall_mem_cons.2 ⟨⟨z, hz⟩, hb⟩, hx⟩
    · cases h

theorem mapM_eq_error_iff {f : α → Except ε β} {xs : List α} {e : ε} :
    xs.mapM f = .error e ↔
      ∃ before x after, xs = before ++ x :: after ∧ (∀ y ∈ before, ∃ z, f y = .ok z) ∧
        f x = .error e := by
  refine ⟨exists_of_mapM_eq_error, ?_⟩
  rintro ⟨before, x, after, rfl, hbefore, hx⟩
  induction before with
  | nil =>
    rw [List.nil_append, List.mapM_cons]
    exact bind_eq_error_iff.2 (.inl hx)
  | cons y before ih =>
    rcases List.forall_mem_cons.1 hbefore with ⟨⟨z, hz⟩, hrest⟩
    rw [List.cons_append, List.mapM_cons]
    exact bind_eq_error_iff.2 (.inr ⟨z, hz, bind_eq_error_iff.2 (.inl (ih hrest))⟩)

/-- A function of the answers can be applied behind the run. -/
theorem mapM_map {γ : Type} (f : α → Except ε β) (g : β → γ) (xs : List α) :
    (xs.mapM fun x => g <$> f x) = List.map g <$> xs.mapM f := by
  induction xs with
  | nil => rfl
  | cons x xs ih =>
    simp only [List.mapM_cons, ih, bind_map_left, map_bind]
    rfl

end PathQuery.Except
