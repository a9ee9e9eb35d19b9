import Mathlib.Data.List.TakeWhile

/-!
# Reading conditions

A condition is read from the words NOT, AND and OR, brackets and atoms. NOT binds tighter than AND
and AND tighter than OR; brackets stand around anything. A text whose atoms are given is cut into
tokens in one way at most, and tokens have one reading at most.
-/

namespace PathQuery

/-! ## Formulas and tokens -/

/-- What a condition says about its atoms. -/
inductive Formula where
  | atom (text : String)
  | not (f : Formula)
  | and (fs : List Formula)
  | or (fs : List Formula)

namespace Formula

/-- The conjunction of formulas; a single one stands for itself. -/
def all : List Formula → Formula
  | [f] => f
  | fs => .and fs

/-- The disjunction of formulas; a single one stands for itself. -/
def any : List Formula → Formula
  | [f] => f
  | fs => .or fs

end Formula

/-- A word, a bracket or an atom of a condition. -/
inductive Token where
  | atom (text : String)
  | not
  | and
  | or
  | opening
  | closing
deriving DecidableEq

namespace Token

def text : Token → String
  | .atom text => text
  | .not => "NOT "
  | .and => " AND "
  | .or => " OR "
  | .opening => "("
  | .closing => ")"

def atom? : Token → Option String
  | .atom text => some text
  | _ => none

/-- The text that tokens spell. -/
def spell (ts : List Token) : String :=
  String.join (ts.map text)

/-- The atoms among tokens, in their order. -/
def atoms (ts : List Token) : List String :=
  ts.filterMap atom?

end Token

/-! ## The grammar -/

mutual

/-- An atom, the negation of a term, or a condition between brackets. -/
inductive IsTerm : List Token → Formula → Prop where
  | atom (text : String) : IsTerm [.atom text] (.atom text)
  | not {ts : List Token} {f : Formula} (h : IsTerm ts f) : IsTerm (.not :: ts) (.not f)
  | brackets {ts : List Token} {fs : List Formula} (h : IsDisjunction ts fs) :
    IsTerm (.opening :: (ts ++ [.closing])) (.any fs)

/-- Terms with `AND` between them. -/
inductive IsConjunction : List Token → List Formula → Prop where
  | last {ts : List Token} {f : Formula} (h : IsTerm ts f) : IsConjunction ts [f]
  | cons {ts us : List Token} {f : Formula} {fs : List Formula} (h : IsTerm ts f)
    (h' : IsConjunction us fs) : IsConjunction (ts ++ .and :: us) (f :: fs)

/-- Conjunctions with `OR` between them. -/
inductive IsDisjunction : List Token → List Formula → Prop where
  | last {ts : List Token} {fs : List Formula} (h : IsConjunction ts fs) :
    IsDisjunction ts [.all fs]
  | cons {ts us : List Token} {fs gs : List Formula} (h : IsConjunction ts fs)
    (h' : IsDisjunction us gs) : IsDisjunction (ts ++ .or :: us) (.all fs :: gs)

end

/-- The tokens say what the formula says. -/
def IsReading (ts : List Token) (f : Formula) : Prop :=
  ∃ fs, IsDisjunction ts fs ∧ f = .any fs

/-! ## At most one reading -/

mutual

-- What is read at the front of a list of tokens determines the rest of it, so two readings are
-- compared term by term.
theorem IsTerm.unique {ts us rest rest' : List Token} {f g : Formula} (h : IsTerm ts f)
    (h' : IsTerm us g) (heq : ts ++ rest = us ++ rest') : f = g ∧ rest = rest' := by
  -- the first token tells which kind of term it is
  cases h with
  | atom text =>
    cases h' with
    | atom text' =>
      rcases List.cons.inj heq with ⟨htext, hrest⟩
      exact ⟨congrArg Formula.atom (Token.atom.inj htext), hrest⟩
    | not h' => cases heq
    | brackets h' => cases heq
  | not h =>
    cases h' with
    | atom text' => cases heq
    | not h' =>
      rcases IsTerm.unique h h' (List.cons.inj heq).2 with ⟨hf, hrest⟩
      exact ⟨congrArg Formula.not hf, hrest⟩
    | brackets h' => cases heq
  | brackets h =>
    cases h' with
    | atom text' => cases heq
    | not h' => cases heq
    | brackets h' =>
      rw [List.cons_append, List.cons_append, List.append_assoc, List.append_assoc] at heq
      have hinner := IsDisjunction.unique h h' (List.cons.inj heq).2 (by simp) (by simp)
      exact ⟨congrArg Formula.any hinner.1, (List.cons.inj hinner.2).2⟩
termination_by 3 * ts.length

theorem IsConjunction.unique {ts us rest rest' : List Token} {fs gs : List Formula}
    (h : IsConjunction ts fs) (h' : IsConjunction us gs) (heq : ts ++ rest = us ++ rest')
    (hend : rest.head? ≠ some .and) (hend' : rest'.head? ≠ some .and) : fs = gs ∧ rest = rest' := by
  cases h with
  | last h =>
    cases h' with
    | last h' =>
      rcases IsTerm.unique h h' heq with ⟨rfl, hrest⟩
      exact ⟨rfl, hrest⟩
    | cons h' hs' =>
      rw [List.append_assoc] at heq
      rw [(IsTerm.unique h h' heq).2] at hend
      exact absurd rfl hend
  | cons h hs =>
    rw [List.append_assoc] at heq
    cases h' with
    | last h' =>
      rw [← (IsTerm.unique h h' heq).2] at hend'
      exact absurd rfl hend'
    | cons h' hs' =>
      rw [List.append_assoc] at heq
      rcases IsTerm.unique h h' heq with ⟨rfl, hrest⟩
      rcases IsConjunction.unique hs hs' (List.cons.inj hrest).2 hend hend' with ⟨rfl, hrest⟩
      exact ⟨rfl, hrest⟩
termination_by 3 * ts.length + 1

theorem IsDisjunction.unique {ts us rest rest' : List Token} {fs gs : List Formula}
    (h : IsDisjunction ts fs) (h' : IsDisjunction us gs) (heq : ts ++ rest = us ++ rest')
    (hend : rest.head? ≠ some .and ∧ rest.head? ≠ some .or)
    (hend' : rest'.head? ≠ some .and ∧ rest'.head? ≠ some .or) : fs = gs ∧ rest = rest' := by
  cases h with
  | last h =>
    cases h' with
    | last h' =>
      rcases IsConjunction.unique h h' heq hend.1 hend'.1 with ⟨rfl, hrest⟩
      exact ⟨rfl, hrest⟩
    | cons h' hs' =>
      rw [List.append_assoc] at heq
      rw [(IsConjunction.unique h h' heq hend.1 (by simp)).2] at hend
      exact absurd rfl hend.2
  | cons h hs =>
    rw [List.append_assoc] at heq
    cases h' with
    | last h' =>
      rw [← (IsConjunction.unique h h' heq (by simp) hend'.1).2] at hend'
      exact absurd rfl hend'.2
    | cons h' hs' =>
      rw [List.append_assoc] at heq
      rcases IsConjunction.unique h h' heq (by simp) (by simp) with ⟨rfl, hrest⟩
      rcases IsDisjunction.unique hs hs' (List.cons.inj hrest).2 hend hend' with ⟨rfl, hrest⟩
      exact ⟨rfl, hrest⟩
termination_by 3 * ts.length + 2

end

/-- Tokens say one thing at most. -/
theorem IsReading.unique {ts : List Token} {f g : Formula} (h : IsReading ts f)
    (h' : IsReading ts g) : f = g := by
  rcases h with ⟨fs, hfs, rfl⟩
  rcases h' with ⟨gs, hgs, rfl⟩
  have hsame := IsDisjunction.unique hfs hgs (congrArg (· ++ []) rfl) (by simp) (by simp)
  rw [hsame.1]

/-! ## Texts -/

namespace Token

/-- The character occurs in a word or is a bracket. -/
def isWordChar (c : Char) : Bool :=
  ['N', 'O', 'T', ' ', 'A', 'D', 'R', '(', ')'].contains c

/-- Words and brackets alone do not make up the text. -/
def Solid (text : String) : Prop :=
  ∃ c ∈ text.toList, isWordChar c = false

theorem Solid.append_left {text : String} (h : Solid text) (front : String) :
    Solid (front ++ text) := by
  obtain ⟨c, hc, hword⟩ := h
  exact ⟨c, by rw [String.toList_append]; exact List.mem_append_right _ hc, hword⟩

theorem Solid.append_right {text : String} (h : Solid text) (back : String) :
    Solid (text ++ back) := by
  obtain ⟨c, hc, hword⟩ := h
  exact ⟨c, by rw [String.toList_append]; exact List.mem_append_left _ hc, hword⟩

/-- The words and brackets in front of the first atom. -/
def lead (ts : List Token) : List Token :=
  ts.takeWhile fun t => t.atom?.isNone

theorem spell_cons (t : Token) (ts : List Token) : spell (t :: ts) = t.text ++ spell ts := by
  simp [spell]

theorem spell_append (ts us : List Token) : spell (ts ++ us) = spell ts ++ spell us := by
  simp [spell]

theorem atoms_cons (t : Token) (ts : List Token) :
    atoms (t :: ts) = t.atom?.toList ++ atoms ts := by
  cases h : t.atom? with
  | none => exact List.filterMap_cons_none h
  | some a => exact List.filterMap_cons_some h

theorem atoms_append (ts us : List Token) : atoms (ts ++ us) = atoms ts ++ atoms us :=
  List.filterMap_append

theorem spell_brackets (ts : List Token) :
    spell (.opening :: (ts ++ [.closing])) = "(" ++ spell ts ++ ")" := by
  rw [spell_cons, spell_append, ← String.append_assoc]
  rfl

theorem atoms_brackets (ts : List Token) : atoms (.opening :: (ts ++ [.closing])) = atoms ts := by
  rw [atoms_cons, atoms_append]
  exact List.append_nil _

variable {t u : Token} {ts us : List Token} {a : String}

theorem eq_atom (h : t.atom? = some a) : t = .atom a := by
  cases t <;> cases h
  rfl

theorem lead_of_word (h : t.atom? = none) : lead (t :: ts) = t :: lead ts :=
  List.takeWhile_cons_of_pos (by rw [h]; rfl)

theorem lead_of_atom (h : t.atom? = some a) : lead (t :: ts) = [] :=
  List.takeWhile_cons_of_neg (by rw [h]; exact Bool.false_ne_true)

theorem text_ne_nil (h : t.atom? = none) : t.text.toList ≠ [] := by
  cases t with
  | atom text => cases h
  | _ => decide

theorem isWordChar_of_mem (h : t.atom? = none) : ∀ c ∈ t.text.toList, isWordChar c = true := by
  have hall : t.text.toList.all isWordChar = true := by
    cases t with
    | atom text => cases h
    | _ => decide
  exact List.all_eq_true.1 hall

-- No word or bracket begins another one.
theorem eq_of_text_append {rest rest' : List Char} (ht : t.atom? = none) (hu : u.atom? = none)
    (h : t.text.toList ++ rest = u.text.toList ++ rest') : t = u := by
  cases t <;> cases u <;> simp_all [text, atom?]

-- Up to its first character outside words, a text is spelled by what leads to its first atom and
-- by the beginning of that atom.
theorem takeWhile_spell {rest : List String} (h : atoms ts = a :: rest) (ha : Solid a) :
    (spell ts).toList.takeWhile isWordChar =
      (spell (lead ts)).toList ++ a.toList.takeWhile isWordChar := by
  induction ts with
  | nil => cases h
  | cons t ts ih =>
    rw [spell_cons, String.toList_append]
    rw [atoms_cons] at h
    cases ht : t.atom? with
    | none =>
      rw [ht] at h
      rw [List.takeWhile_append_of_pos (isWordChar_of_mem ht), ih h, lead_of_word ht, spell_cons,
        String.toList_append, List.append_assoc]
    | some b =>
      rw [ht] at h
      obtain ⟨rfl, -⟩ := List.cons.inj h
      obtain ⟨c, hc, hword⟩ := ha
      -- the atom has a character outside words, so nothing behind it is reached
      have hshort : (b.toList.takeWhile isWordChar).length ≠ b.toList.length := by
        intro hlength
        have hall := (List.takeWhile_prefix isWordChar).eq_of_length hlength
        rw [List.takeWhile_eq_self_iff.1 hall c hc] at hword
        cases hword
      rw [eq_atom ht, lead_of_atom rfl, text, List.takeWhile_append, if_neg hshort]
      rfl

-- Two texts that are the same begin both with words or both with atoms.
theorem atom?_eq_none_of_spell_eq (hatoms : atoms (t :: ts) = atoms (u :: us))
    (hsolid : ∀ a ∈ atoms (t :: ts), Solid a) (h : spell (t :: ts) = spell (u :: us))
    (ht : t.atom? = none) : u.atom? = none := by
  cases hu : u.atom? with
  | none => rfl
  | some a =>
    have hus : atoms (u :: us) = a :: atoms us := by
      rw [atoms_cons, hu]
      rfl
    have ha : Solid a := hsolid a (by rw [hatoms, hus]; exact List.mem_cons_self)
    have heq := takeWhile_spell (hatoms.trans hus) ha
    rw [h, takeWhile_spell hus ha, lead_of_atom hu, lead_of_word ht, spell_cons,
      String.toList_append] at heq
    have hempty := List.append_cancel_right heq
    exact absurd (List.append_eq_nil_iff.1 hempty.symm).1 (text_ne_nil ht)

theorem spell_ne_empty (hatoms : atoms (t :: ts) = []) : spell (t :: ts) ≠ "" := by
  have ht : t.atom? = none := List.filterMap_eq_nil_iff.1 hatoms t List.mem_cons_self
  intro h
  rw [spell_cons] at h
  have hchars := congrArg String.toList h
  rw [String.toList_append] at hchars
  exact text_ne_nil ht (List.append_eq_nil_iff.1 hchars).1

/-- A text is cut into words, brackets and given atoms in one way at most. -/
theorem eq_of_spell_eq (hatoms : atoms ts = atoms us) (hsolid : ∀ a ∈ atoms ts, Solid a)
    (h : spell ts = spell us) : ts = us := by
  induction ts generalizing us with
  | nil =>
    cases us with
    | nil => rfl
    | cons u us => exact absurd h.symm (spell_ne_empty hatoms.symm)
  | cons t ts ih =>
    cases us with
    | nil => exact absurd h (spell_ne_empty hatoms)
    | cons u us =>
      have hchars : t.text.toList ++ (spell ts).toList = u.text.toList ++ (spell us).toList := by
        rw [← String.toList_append, ← String.toList_append, ← spell_cons, ← spell_cons, h]
      have hsame : t = u := by
        cases ht : t.atom? with
        | none =>
          exact eq_of_text_append ht (atom?_eq_none_of_spell_eq hatoms hsolid h ht) hchars
        | some a =>
          cases hu : u.atom? with
          | none =>
            rw [hatoms] at hsolid
            rw [atom?_eq_none_of_spell_eq hatoms.symm hsolid h.symm hu] at ht
            cases ht
          | some b =>
            rw [atoms_cons, atoms_cons, ht, hu] at hatoms
            obtain ⟨rfl, -⟩ := List.cons.inj hatoms
            rw [eq_atom ht, eq_atom hu]
      subst hsame
      rw [atoms_cons, atoms_cons] at hatoms
      rw [atoms_cons] at hsolid
      have hrest : ts = us :=
        ih (List.append_cancel_left hatoms) (fun a ha => hsolid a (List.mem_append_right _ ha))
          (String.toList_inj.1 (List.append_cancel_left hchars))
      rw [hrest]

end Token

/-- The text says what the formula says, with the given texts as its atoms from left to right. -/
def ReadsAs (text : String) (atoms : List String) (f : Formula) : Prop :=
  ∃ ts, Token.spell ts = text ∧ Token.atoms ts = atoms ∧ IsReading ts f

/-- Tokens that have a reading spell a text that has this reading and no other. -/
theorem IsReading.readsAs_iff {ts : List Token} {f g : Formula} (h : IsReading ts f)
    (hsolid : ∀ a ∈ Token.atoms ts, Token.Solid a) :
    ReadsAs (Token.spell ts) (Token.atoms ts) g ↔ g = f := by
  constructor
  · rintro ⟨us, hspell, hatoms, hus⟩
    rw [Token.eq_of_spell_eq hatoms.symm hsolid hspell.symm] at h
    exact hus.unique h
  · rintro rfl
    exact ⟨ts, rfl, rfl, h⟩

end PathQuery
