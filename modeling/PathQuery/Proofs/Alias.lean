import PathQuery.Settings.Basic
import PathQuery.Text.Numeral

/-!
# Generated aliases

The alias of a join is a stem with a number behind it. Different numbers make different aliases, and
under valid settings none of them is the root alias and no alias has a point in it.
-/

namespace PathQuery

open PathQuery.Text

theorem naturalText_injective {m n : Nat} (h : naturalText m = naturalText n) : m = n := by
  have hdigits : digits m = digits n := String.ofList_injective h
  calc
    m = digitsValue (digits m) := (digitsValue_digits m).symm
    _ = digitsValue (digits n) := by rw [hdigits]
    _ = n := digitsValue_digits n

/-- The alias of the join with a number. -/
def generatedAlias (stem : String) (n : Nat) : String :=
  stem ++ naturalText n

theorem generatedAlias_injective {stem : String} {m n : Nat}
    (h : generatedAlias stem m = generatedAlias stem n) : m = n :=
  naturalText_injective (String.append_right_inj stem |>.1 h)

theorem toList_generatedAlias (stem : String) (n : Nat) :
    (generatedAlias stem n).toList = stem.toList ++ digits n := by
  rw [generatedAlias, naturalText, String.toList_append, String.toList_ofList]

/-! ## Identifiers -/

theorem afterStart?_append (start rest : List Char) :
    afterStart? start (start ++ rest) = some rest := by
  induction start with
  | nil => rfl
  | cons d start ih => rw [List.cons_append, afterStart?, if_pos rfl, ih]

theorem isGeneratedFrom_generatedAlias (stem : String) (n : Nat) :
    isGeneratedFrom stem (generatedAlias stem n) = true := by
  have hall : (digits n).all Char.isDigit = true :=
    List.all_eq_true.2 fun _ h => isDigit_of_mem_digits h
  have hne : (digits n).isEmpty = false :=
    List.isEmpty_eq_false_iff.2 (digits_ne_nil n)
  rw [isGeneratedFrom, toList_generatedAlias, afterStart?_append]
  simp only [hne, hall, Bool.not_false, Bool.and_self]

-- An identifier consists of letters, digits and underscores.
theorem isIdentifierChar_of_mem {s : String} (h : isIdentifier s = true) {c : Char}
    (hc : c ∈ s.toList) : isIdentifierChar c = true := by
  unfold isIdentifier at h
  split at h
  next hnil => rw [hnil] at hc; cases hc
  next d ds hcons =>
    rcases Bool.and_eq_true_iff.1 h with ⟨hstart, hrest⟩
    rw [hcons] at hc
    rcases List.mem_cons.1 hc with rfl | hc
    · simp only [isIdentifierStart, isIdentifierChar, Char.isAlphanum, Bool.or_eq_true] at hstart ⊢
      exact hstart.imp_left .inl
    · exact List.all_eq_true.1 hrest c hc

theorem point_notMem_of_isIdentifier {s : String} (h : isIdentifier s = true) :
    '.' ∉ s.toList := fun hc => by
  have hchar := isIdentifierChar_of_mem h hc
  revert hchar
  decide

-- What stands before the first point of a reference is its alias.
theorem takeWhile_point {a : String} (h : '.' ∉ a.toList) (name : String) :
    (a ++ "." ++ name).toList.takeWhile (· != '.') = a.toList := by
  have hletters : ∀ c ∈ a.toList, (c != '.') = true := by
    intro c hc
    rw [bne_iff_ne]
    intro heq
    subst heq
    exact h hc
  rw [String.toList_append, String.toList_append, List.append_assoc,
    List.takeWhile_append_of_pos hletters]
  exact List.append_nil _

/-! ## Valid settings -/

namespace Settings

theorem validate_eq_ok {s : Settings} (h : s.validate = .ok ()) :
    isIdentifier s.rootAlias = true ∧ isIdentifier s.stem = true ∧
      isGeneratedFrom s.stem s.rootAlias = false := by
  unfold validate at h
  split at h
  · cases h
  rename_i hroot
  split at h
  · cases h
  rename_i hstem
  split at h
  · cases h
  rename_i hclash
  simp only [Bool.not_eq_true', Bool.not_eq_false, Bool.not_eq_true] at hroot hstem hclash
  exact ⟨hroot, hstem, hclash⟩

-- No generated alias is the root alias.
theorem generatedAlias_ne_rootAlias {s : Settings} (h : s.validate = .ok ()) (n : Nat) :
    generatedAlias s.stem n ≠ s.rootAlias := by
  intro heq
  have hclash := (validate_eq_ok h).2.2
  rw [← heq, isGeneratedFrom_generatedAlias] at hclash
  cases hclash

theorem point_notMem_rootAlias {s : Settings} (h : s.validate = .ok ()) :
    '.' ∉ s.rootAlias.toList :=
  point_notMem_of_isIdentifier (validate_eq_ok h).1

theorem point_notMem_generatedAlias {s : Settings} (h : s.validate = .ok ()) (n : Nat) :
    '.' ∉ (generatedAlias s.stem n).toList := by
  rw [toList_generatedAlias, List.mem_append]
  intro hmem
  rcases hmem with hc | hc
  · exact point_notMem_of_isIdentifier (validate_eq_ok h).2.1 hc
  · have hdigit := isDigit_of_mem_digits hc
    revert hdigit
    decide

end Settings

end PathQuery
