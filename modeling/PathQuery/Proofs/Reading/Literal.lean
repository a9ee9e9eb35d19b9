import PathQuery.Proofs.Literals

/-!
# Reading literals

A literal stands between single quotes, and a quote inside it is written twice. A text with literals
is read from left to right: from an opening quote up to the first quote that no other quote follows,
and outside of literals character by character. The operands that stand between quotes are read back
as their display texts, one by one and in lists, whatever the texts are.
-/

namespace PathQuery

open PathQuery.Text

/-! ## One literal -/

namespace Text

/-- Reads a literal behind its opening quote; the answer is its text and what follows it. -/
def readQuoted? : List Char → Option (List Char × List Char)
  | [] => none
  | '\'' :: '\'' :: cs => (readQuoted? cs).map fun (text, rest) => ('\'' :: text, rest)
  | '\'' :: cs => some ([], cs)
  | c :: cs => (readQuoted? cs).map fun (text, rest) => (c :: text, rest)

/-- Reads a literal; the answer is its text and what follows it. -/
def readLiteral? : List Char → Option (List Char × List Char)
  | '\'' :: cs => readQuoted? cs
  | _ => none

variable {cs text rest : List Char}

theorem readQuoted?_cons {c : Char} (h : c ≠ '\'') (cs : List Char) :
    readQuoted? (c :: cs) = (readQuoted? cs).map fun (text, rest) => (c :: text, rest) := by
  rw [readQuoted?]
  · exact fun _ h' _ => h h'
  · exact h

theorem length_of_readQuoted? (h : readQuoted? cs = some (text, rest)) :
    rest.length < cs.length := by
  fun_induction readQuoted? cs generalizing text with
  | case1 => cases h
  | case2 cs ih =>
    obtain ⟨⟨text', rest'⟩, hread, heq⟩ := Option.map_eq_some_iff.1 h
    cases heq
    have hlt := ih hread
    simp only [List.length_cons]
    omega
  | case3 cs _ =>
    cases h
    exact Nat.lt_succ_self _
  | case4 c cs _ _ ih =>
    obtain ⟨⟨text', rest'⟩, hread, heq⟩ := Option.map_eq_some_iff.1 h
    cases heq
    exact Nat.lt_succ_of_lt (ih hread)

-- What follows a literal goes on with it only if it begins with a quote.
theorem readQuoted?_append {t : List Char} (h : readQuoted? cs = some (text, rest))
    (ht : t.head? ≠ some '\'') : readQuoted? (cs ++ t) = some (text, rest ++ t) := by
  fun_induction readQuoted? cs generalizing text with
  | case1 => cases h
  | case2 cs ih =>
    obtain ⟨⟨text', rest'⟩, hread, heq⟩ := Option.map_eq_some_iff.1 h
    cases heq
    rw [List.cons_append, List.cons_append, readQuoted?, ih hread, Option.map_some]
  | case3 cs hcs =>
    cases h
    rw [List.cons_append, readQuoted?]
    intro ds hds
    cases rest with
    | nil =>
      rw [← List.nil_append t, hds] at ht
      exact ht rfl
    | cons c rest =>
      cases hds
      exact hcs rest rfl
  | case4 c cs _ hc ih =>
    obtain ⟨⟨text', rest'⟩, hread, heq⟩ := Option.map_eq_some_iff.1 h
    cases heq
    rw [List.cons_append, readQuoted?_cons hc, ih hread, Option.map_some]

theorem readQuoted?_doubleQuotes (cs : List Char) :
    readQuoted? (doubleQuotes cs ++ ['\'']) = some (cs, []) := by
  induction cs with
  | nil => rfl
  | cons c cs ih =>
    rw [doubleQuotes]
    split
    next h =>
      rw [h, List.cons_append, List.cons_append, readQuoted?, ih, Option.map_some]
    next h => rw [List.cons_append, readQuoted?_cons h, ih, Option.map_some]

end Text

/-! ## Lexemes -/

/-- A literal with its text, or a character outside of literals. -/
inductive Lexeme where
  | literal (text : String)
  | bare (c : Char)
deriving DecidableEq

namespace Lexeme

/-- Reads all literals and what stands between them; a literal that is not closed is not read. -/
def read? : List Char → Option (List Lexeme)
  | [] => some []
  | c :: cs =>
    if c = '\'' then
      match _ : readQuoted? cs with
      | none => none
      | some (text, rest) => (read? rest).map (.literal (String.ofList text) :: ·)
    else
      (read? cs).map (.bare c :: ·)
termination_by cs => cs.length
decreasing_by
  · exact Nat.lt_succ_of_lt (length_of_readQuoted? ‹_›)
  · exact Nat.lt_succ_self _

def literal? : Lexeme → Option String
  | .literal text => some text
  | .bare _ => none

/-- The texts of the literals, in their order. -/
def literals (ls : List Lexeme) : List String :=
  ls.filterMap literal?

variable {cs text rest : List Char} {ls : List Lexeme}

theorem read?_quote (h : readQuoted? cs = some (text, rest)) :
    read? ('\'' :: cs) = (read? rest).map (.literal (String.ofList text) :: ·) := by
  rw [read?, if_pos rfl]
  split
  next hnone => cases h.symm.trans hnone
  next text' rest' hsome =>
    cases h.symm.trans hsome
    rfl

theorem read?_bare {c : Char} (h : c ≠ '\'') (cs : List Char) :
    read? (c :: cs) = (read? cs).map (.bare c :: ·) := by
  rw [read?, if_neg h]

theorem read?_bares (h : ∀ c ∈ cs, c ≠ '\'') (t : List Char) :
    read? (cs ++ t) = (read? t).map (cs.map .bare ++ ·) := by
  induction cs with
  | nil =>
    rw [List.nil_append]
    exact Option.map_id'.symm
  | cons c cs ih =>
    obtain ⟨hc, hcs⟩ := List.forall_mem_cons.1 h
    rw [List.cons_append, read?_bare hc, ih hcs, Option.map_map]
    rfl

/-- Texts are read one after the other, unless a literal at the end of the first would go on with a
quote at the front of the second. -/
theorem read?_append {t : List Char} (h : read? cs = some ls) (ht : t.head? ≠ some '\'') :
    read? (cs ++ t) = (read? t).map (ls ++ ·) := by
  fun_induction read? cs generalizing ls with
  | case1 =>
    cases h
    rw [List.nil_append]
    exact Option.map_id'.symm
  | case2 cs hnone => cases h
  | case3 cs text rest hread ih =>
    obtain ⟨ls', hls', rfl⟩ := Option.map_eq_some_iff.1 h
    rw [List.cons_append, read?_quote (readQuoted?_append hread ht), ih hls', Option.map_map]
    rfl
  | case4 c cs hc ih =>
    obtain ⟨ls', hls', rfl⟩ := Option.map_eq_some_iff.1 h
    rw [List.cons_append, read?_bare hc, ih hls', Option.map_map]
    rfl

end Lexeme

/-! ## Operands -/

namespace Value

variable {v : Value}

theorem toList_sql (h : v.isBare = false) : v.sql.toList = quoted v.text.toList := by
  cases v with
  | string s => exact String.toList_ofList
  | date d => exact String.toList_ofList
  | dateTime dt => exact String.toList_ofList
  | uuid u => exact String.toList_ofList
  | _ => cases h

theorem readLiteral?_sql {t : List Char} (h : v.isBare = false) (ht : t.head? ≠ some '\'') :
    readLiteral? (v.sql.toList ++ t) = some (v.text.toList, t) := by
  rw [toList_sql h, quoted, List.cons_append, readLiteral?]
  exact readQuoted?_append (readQuoted?_doubleQuotes _) ht

theorem read?_sql (h : v.isBare = false) : Lexeme.read? v.sql.toList = some [.literal v.text] := by
  rw [toList_sql h, quoted, Lexeme.read?_quote (readQuoted?_doubleQuotes _), Lexeme.read?,
    Option.map_some, String.ofList_toList]

/-- The texts of values as literals, with a comma and a space between them. -/
def lexemes (vs : List Value) : List Lexeme :=
  [.bare ',', .bare ' '].intercalate (vs.map fun v => [.literal v.text])

theorem lexemes_cons_cons (v w : Value) (vs : List Value) :
    lexemes (v :: w :: vs) = .literal v.text :: .bare ',' :: .bare ' ' :: lexemes (w :: vs) := by
  rw [lexemes, List.map_cons, List.map_cons, List.intercalate_cons_cons]
  rfl

theorem literals_lexemes (vs : List Value) : Lexeme.literals (lexemes vs) = vs.map text := by
  induction vs with
  | nil => rfl
  | cons v vs ih =>
    cases vs with
    | nil => rfl
    | cons w vs =>
      rw [List.map_cons, ← ih, lexemes_cons_cons]
      rfl

/-- Values between quotes with commas between them are read as their texts, and no comma of a text
is taken for one between them. -/
theorem read?_list {vs : List Value} (h : ∀ v ∈ vs, v.isBare = false) :
    Lexeme.read? (", ".intercalate (vs.map sql)).toList = some (lexemes vs) := by
  induction vs with
  | nil =>
    rw [show (", ".intercalate ([].map sql)).toList = [] from rfl, Lexeme.read?]
    rfl
  | cons v vs ih =>
    obtain ⟨hv, hvs⟩ := List.forall_mem_cons.1 h
    cases vs with
    | nil =>
      rw [List.map_singleton, String.intercalate_singleton, read?_sql hv]
      rfl
    | cons w vs =>
      -- a space stands in front of every literal but the first, so no two of them touch
      rw [List.map_cons, List.map_cons, String.intercalate_cons_cons, String.toList_append,
        String.toList_append, List.append_assoc, ← List.map_cons,
        Lexeme.read?_append (read?_sql hv) (by simp), Lexeme.read?_bares (by simp), ih hvs,
        lexemes_cons_cons]
      rfl

end Value

namespace Predicate

/-- Operands between quotes are read back, whatever follows that does not begin with a quote. In the
text of a membership term with such operands, the list between the brackets is read as their texts
with a comma between any two of them and nothing else, and so is the whole term if its property is
read. -/
theorem quoted_read_back :
    (∀ (v : Value) (t : List Char), v.isBare = false → t.head? ≠ some '\'' →
      readLiteral? (v.sql.toList ++ t) = some (v.text.toList, t)) ∧
    ∀ (property : String) (vs : List Value), (∀ v ∈ vs, v.isBare = false) →
      ∃ list : String, (oneOf property vs).sql = property ++ " IN (" ++ list ++ ")" ∧
        Lexeme.literals (Value.lexemes vs) = vs.map Value.text ∧
        ∀ t : List Char,
          Lexeme.read? (list.toList ++ ')' :: t) =
            (Lexeme.read? t).map (Value.lexemes vs ++ .bare ')' :: ·) ∧
          ∀ before, Lexeme.read? property.toList = some before →
            Lexeme.read? ((oneOf property vs).sql.toList ++ t) =
              (Lexeme.read? t).map
                (before ++ " IN (".toList.map .bare ++ Value.lexemes vs ++ .bare ')' :: ·) := by
  refine ⟨fun v t hv ht => Value.readLiteral?_sql hv ht, fun property vs hvs =>
    ⟨", ".intercalate (vs.map Value.sql), rfl, Value.literals_lexemes vs, fun t => ?_⟩⟩
  have hlist : Lexeme.read? ((", ".intercalate (vs.map Value.sql)).toList ++ ')' :: t) =
      (Lexeme.read? t).map (Value.lexemes vs ++ .bare ')' :: ·) := by
    rw [Lexeme.read?_append (Value.read?_list hvs) (by simp), Lexeme.read?_bare (by decide),
      Option.map_map]
    rfl
  refine ⟨hlist, fun before hbefore => ?_⟩
  have hsql : (oneOf property vs).sql.toList ++ t = property.toList ++ (" IN (".toList ++
      ((", ".intercalate (vs.map Value.sql)).toList ++ ')' :: t)) := by
    simp [sql]
  rw [hsql, Lexeme.read?_append hbefore (by simp), Lexeme.read?_bares (by simp), hlist,
    Option.map_map, Option.map_map]
  refine congrArg (Option.map · _) (funext fun ls => ?_)
  simp

/-- Texts that look like the end of a literal, like a separator and like an opening quote. -/
def quotes : List Value :=
  [.string "' OR '", .string "a, b", .string "'"]

-- None of the quotes and commas inside the operands ends a literal or separates two of them.
theorem quoted_read_back_quotes :
    (∀ v ∈ quotes, v.isBare = false) ∧
      readLiteral? "''' OR ''' AND".toList = some ("' OR '".toList, " AND".toList) ∧
      (oneOf "this.name" quotes).sql = "this.name IN (''' OR ''', 'a, b', '''')" ∧
      Lexeme.read? "this.name IN (''' OR ''', 'a, b', '''')".toList =
        some ("this.name".toList.map Lexeme.bare ++ " IN (".toList.map Lexeme.bare ++
          [.literal "' OR '", .bare ',', .bare ' ', .literal "a, b", .bare ',', .bare ' ',
            .literal "'"] ++ [.bare ')']) := by
  have hbare : ∀ v ∈ quotes, v.isBare = false := by decide
  have hsql : (oneOf "this.name" quotes).sql = "this.name IN (''' OR ''', 'a, b', '''')" := by
    decide
  obtain ⟨hone, hlist⟩ := quoted_read_back
  obtain ⟨_, -, -, hread⟩ := hlist "this.name" quotes hbare
  have hproperty : Lexeme.read? "this.name".toList = some ("this.name".toList.map .bare) := by
    rw [← List.append_nil "this.name".toList, Lexeme.read?_bares (by simp), Lexeme.read?,
      Option.map_some, List.append_nil, List.append_nil]
  have hwhole := (hread []).2 _ hproperty
  rw [hsql, List.append_nil, Lexeme.read?, Option.map_some] at hwhole
  exact ⟨hbare, hone (.string "' OR '") " AND".toList rfl (by simp), hsql, hwhole⟩

end Predicate

end PathQuery
