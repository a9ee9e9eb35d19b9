import PathQuery.Proofs.Binary64.Value
import PathQuery.Proofs.Pieces
import PathQuery.Proofs.Reading.Predicate
import PathQuery.Proofs.Views

/-!
# Operands in the text of a statement

Operands stand in a statement bare or between quotes. What stands bare is a constant, save for
numbers that are not finite and for decimals, which are any text. Only some operands of conditions
lead to such texts.
-/

namespace PathQuery

open PathQuery.Text
open Condition (Kind Group)

/-! ## Constants -/

/-- A word for null or a truth value, or a finite decimal numeral. -/
def IsConstant (text : String) : Prop :=
  text = "NULL" ∨ text = "true" ∨ text = "false" ∨ IsNumeral text.toList

theorem isConstant_of_isNumeral {cs : List Char} (h : IsNumeral cs) :
    IsConstant (String.ofList cs) := by
  refine .inr (.inr (.inr ?_))
  rwa [String.toList_ofList]

-- A word for a number that is not finite is no constant.
theorem not_isConstant_of_isWord {text : String} (h : Binary64.IsWord text.toList) :
    ¬ IsConstant text := by
  rintro (rfl | rfl | rfl | hnumeral)
  · revert h
    decide
  · revert h
    decide
  · revert h
    decide
  · exact Binary64.not_isNumeral_of_isWord h hnumeral

theorem isConstant_display {f : Binary64} :
    IsConstant (String.ofList f.display) ↔ f.isFinite = true := by
  cases hfinite : f.isFinite with
  | true => exact iff_of_true (isConstant_of_isNumeral (Binary64.isNumeral_display hfinite)) rfl
  | false =>
    refine iff_of_false (not_isConstant_of_isWord ?_) Bool.false_ne_true
    rw [String.toList_ofList]
    exact Binary64.isWord_display hfinite

theorem isConstant_integerText (i : Int) : IsConstant (integerText i) :=
  isConstant_of_isNumeral (isNumeral_signed i)

namespace Value

/-- Null, truth values and numbers stand without quotes. -/
def isBare : Value → Bool
  | .null | .bool _ | .int32 _ | .int64 _ | .float64 _ | .decimal _ => true
  | _ => false

/-- An operand that stands as something else than a constant, once it is converted to the type if
there is one. -/
inductive Strays : Option Scalar → Value → Prop where
  /-- a number that is not finite, compared as it is -/
  | float {t : Option Scalar} {f : Binary64} (ht : t = none ∨ t = some .float64)
    (hf : f.isFinite = false) : Strays t (.float64 f)
  /-- a decimal whose text is no constant, compared as it is -/
  | decimal {t : Option Scalar} {d : String} (ht : t = none ∨ t = some .decimal)
    (hd : ¬ IsConstant d) : Strays t (.decimal d)
  /-- a decimal that is read as a number that is not finite -/
  | decimalAsFloat {d : String} {f : Binary64} (h : Binary64.read? d.toList = some f)
    (hf : f.isFinite = false) : Strays (some .float64) (.decimal d)
  /-- a text that is read as a number that is not finite -/
  | stringAsFloat {s : String} {f : Binary64} (h : Binary64.read? (trim s.toList) = some f)
    (hf : f.isFinite = false) : Strays (some .float64) (.string s)
  /-- a text that is kept as a decimal without being a numeral -/
  | stringAsDecimal {s : String} (h : Binary64.IsWord (trim s.toList)) :
    Strays (some .decimal) (.string s)

variable {v w : Value} {t : Option Scalar}

variable {f : Binary64} {d : String}

theorem strays_float64 : Strays none (.float64 f) ↔ f.isFinite = false :=
  ⟨fun | .float _ hf => hf, .float (.inl rfl)⟩

theorem strays_decimal : Strays none (.decimal d) ↔ ¬ IsConstant d :=
  ⟨fun | .decimal _ hd => hd, .decimal (.inl rfl)⟩

/-- A bare operand stands as a constant, unless it is a number that is not finite or a decimal with
some other text. -/
theorem isConstant_sql (h : w.isBare = true) : IsConstant w.sql ↔ ¬ Strays none w := by
  cases w with
  | null => exact iff_of_true (.inl rfl) nofun
  | bool b =>
    refine iff_of_true ?_ nofun
    cases b
    · exact .inr (.inr (.inl rfl))
    · exact .inr (.inl rfl)
  | int32 i => exact iff_of_true (isConstant_integerText i.toInt) nofun
  | int64 i => exact iff_of_true (isConstant_integerText i.toInt) nofun
  | float64 f =>
    have hsql : (Value.float64 f).sql = String.ofList f.display := rfl
    rw [hsql, isConstant_display, strays_float64, Bool.not_eq_false]
  | decimal d =>
    have hsql : (Value.decimal d).sql = d := rfl
    rw [hsql, strays_decimal, not_not]
  | _ => cases h

theorem isFinite_ofInt_int32 (i : Int32) : (Binary64.ofInt i.toInt).isFinite = true := by
  have hlow := i.le_toInt
  have hhigh := i.toInt_lt
  exact Binary64.isFinite_ofInt (by omega)

theorem isFinite_ofInt_int64 (i : Int64) : (Binary64.ofInt i.toInt).isFinite = true := by
  have hlow := i.le_toInt
  have hhigh := i.toInt_lt
  exact Binary64.isFinite_ofInt (by omega)

-- An integer has a finite number nearest to it, all other numbers are read as they stand.
theorem strays_asFloat64 (h : v.asFloat64? = some f) :
    Strays (some .float64) v ↔ f.isFinite = false := by
  cases v with
  | int32 i =>
    obtain rfl : Binary64.ofInt i.toInt = f := Option.some.inj h
    exact iff_of_false nofun (by rw [isFinite_ofInt_int32]; decide)
  | int64 i =>
    obtain rfl : Binary64.ofInt i.toInt = f := Option.some.inj h
    exact iff_of_false nofun (by rw [isFinite_ofInt_int64]; decide)
  | float64 g =>
    obtain rfl : g = f := Option.some.inj h
    exact ⟨fun | .float _ hf => hf, .float (.inr rfl)⟩
  | decimal d =>
    refine ⟨fun hstrays => ?_, .decimalAsFloat h⟩
    cases hstrays with
    | decimal ht => cases ht <;> contradiction
    | decimalAsFloat hread hf => rwa [Option.some.inj (hread.symm.trans h)] at hf
  | string s =>
    refine ⟨fun hstrays => ?_, .stringAsFloat h⟩
    cases hstrays with
    | stringAsFloat hread hf => rwa [Option.some.inj (hread.symm.trans h)] at hf
  | _ => cases h

-- A number that is not finite is refused, a word for one is not.
theorem strays_asDecimal (h : v.asDecimal? = some d) :
    Strays (some .decimal) v ↔ ¬ IsConstant d := by
  cases v with
  | int32 i =>
    obtain rfl : integerText i.toInt = d := Option.some.inj h
    exact iff_of_false nofun (not_not.2 (isConstant_integerText _))
  | int64 i =>
    obtain rfl : integerText i.toInt = d := Option.some.inj h
    exact iff_of_false nofun (not_not.2 (isConstant_integerText _))
  | float64 g =>
    obtain ⟨hfinite, rfl⟩ : g.isFinite = true ∧ String.ofList g.display = d := by
      simpa [asDecimal?] using h
    refine iff_of_false (fun hstrays => ?_) (not_not.2 (isConstant_display.2 hfinite))
    cases hstrays with
    | float ht => cases ht <;> contradiction
  | decimal c =>
    obtain rfl : c = d := Option.some.inj h
    exact ⟨fun | .decimal _ hd => hd, .decimal (.inr rfl)⟩
  | string s =>
    obtain ⟨hread, rfl⟩ : (Binary64.read? (trim s.toList)).isSome = true ∧
        String.ofList (trim s.toList) = d := by
      simpa [asDecimal?, numeral?] using h
    obtain ⟨f, hf⟩ := Option.isSome_iff_exists.1 hread
    constructor
    · rintro ⟨hword⟩
      exact not_isConstant_of_isWord (by rwa [String.toList_ofList])
    · intro hconstant
      refine .stringAsDecimal (by_contra fun hword => ?_)
      exact hconstant (isConstant_of_isNumeral (Binary64.isNumeral_of_read? hf hword))
  | _ => cases h

theorem Strays.scalar_eq {s : Scalar} (h : Strays (some s) v) : s = .float64 ∨ s = .decimal := by
  cases h with
  | float ht => exact .inl (Option.some.inj (ht.resolve_left (Option.some_ne_none s)))
  | decimal ht => exact .inr (Option.some.inj (ht.resolve_left (Option.some_ne_none s)))
  | decimalAsFloat => exact .inl rfl
  | stringAsFloat => exact .inl rfl
  | stringAsDecimal => exact .inr rfl

/-- A converted operand strays exactly if the operand does. -/
theorem strays_convert {s : Scalar} (h : v.convert s = some w) (hw : w.isBare = true) :
    Strays (some s) v ↔ Strays none w := by
  unfold convert at h
  split at h
  next hnull =>
    obtain rfl : v = .null := isNull_iff.1 hnull
    obtain rfl : Value.null = w := Option.some.inj h
    exact iff_of_false nofun nofun
  next =>
    cases s
    case float64 =>
      obtain ⟨f, hf, rfl⟩ := Option.map_eq_some_iff.1 h
      rw [strays_asFloat64 hf, strays_float64]
    case decimal =>
      obtain ⟨d, hd, rfl⟩ := Option.map_eq_some_iff.1 h
      rw [strays_asDecimal hd, strays_decimal]
    case bool | int32 | int64 =>
      obtain ⟨x, -, rfl⟩ := Option.map_eq_some_iff.1 h
      exact iff_of_false (fun hstrays => hstrays.scalar_eq.elim nofun nofun) nofun
    case date | dateTime | uuid =>
      obtain ⟨x, -, rfl⟩ := Option.map_eq_some_iff.1 h
      cases hw
    case string =>
      obtain rfl := Option.some.inj h
      cases hw

end Value

/-! ## The counts of a page -/

/-- What a statement says for the last condition of a kind that counts rows: a keyword and the
operand behind it, bare and as a constant. It says nothing where no condition is of that kind. -/
inductive CountText (kind : Kind) (keyword : String) (cs : List Condition) : String → Prop where
  | absent (h : ∀ c ∈ cs, c.kind ≠ kind) : CountText kind keyword cs ""
  | last {front back : List Condition} {c : Condition} {v : Value} (hcs : cs = front ++ c :: back)
    (hkind : c.kind = kind) (hback : ∀ d ∈ back, d.kind ≠ kind) (hv : c.operands = .single v)
    (hbare : v.isBare = true) (hconstant : IsConstant v.sql) :
    CountText kind keyword cs (keyword ++ v.sql)

/-- A keyword and the numeral of a count, if there is one. -/
def Page.part (keyword : String) : Option Nat → String
  | none => ""
  | some n => keyword ++ naturalText n

theorem Page.sql_eq (p : Page) :
    p.sql = Page.part " LIMIT " p.limit ++ Page.part " OFFSET " p.offset := by
  rcases p with ⟨_ | _, _ | _⟩ <;> rfl

-- A count is an integer operand that is not negative, and its numeral is that of the operand.
theorem Condition.exists_operand_of_count {c : Condition} {n : Nat} (h : c.count = .ok n) :
    ∃ i : Int64, c.operands = .single (.int64 i) ∧ (Value.int64 i).sql = naturalText n := by
  obtain ⟨v, hv, hn⟩ := Except.bind_eq_ok_iff.1 h
  cases v with
  | int64 i =>
    unfold single at hv
    split at hv
    next hoperands =>
      cases hv
      dsimp only at hn
      split at hn
      next => cases hn
      next hsign =>
        cases hn
        refine ⟨i, hoperands, ?_⟩
        obtain ⟨n, hi⟩ := Int.eq_ofNat_of_zero_le (Int.not_lt.1 hsign)
        change integerText i.toInt = _
        rw [hi]
        rfl
    next => cases hv
  | _ => cases hn

theorem countText_of_lastCount {kind : Kind} {keyword : String} {cs : List Condition}
    {count : Option Nat} (h : LastCount kind cs count) :
    CountText kind keyword cs (Page.part keyword count) := by
  cases h with
  | absent h => exact .absent h
  | last hcs hkind hback hcount =>
    obtain ⟨i, hoperands, hsql⟩ := Condition.exists_operand_of_count hcount
    rw [Page.part, ← hsql]
    exact .last hcs hkind hback hoperands rfl (isConstant_integerText i.toInt)

/-! ## The operands of a plan -/

-- A bare operand stands as a constant exactly if the operand of its condition does not stray.
theorem Condition.Arrives.isConstant_iff {c : Condition} {v w : Value} (h : c.Arrives v w)
    (hw : w.isBare = true) : IsConstant w.sql ↔ ¬ Value.Strays c.target? v := by
  rw [Value.isConstant_sql hw]
  unfold Arrives at h
  split at h
  next t ht => rw [ht, Value.strays_convert h hw]
  next ht => rw [ht, h]

namespace Spec

variable {settings : Settings} {spec : Spec} {plan : Plan}

/-- The operands of the filters in their order, each with its condition. -/
def operands (spec : Spec) : List (Condition × Value) :=
  (spec.conditions.filter (·.kind.isFilter)).flatMap fun c => c.operands.toList.map (c, ·)

/-- The literals of the clauses are the operands of the filters as they arrive. -/
theorem Clauses.arrive {aliasOf : List String → String} {clauses : List Predicate}
    (h : spec.Clauses aliasOf clauses) :
    List.Forall₂ (fun o w => o.1.Arrives o.2 w) spec.operands
      (clauses.flatMap Predicate.literals) := by
  rw [operands, ← flatMap_filters, List.flatMap_assoc]
  refine List.rel_flatMap h fun g clause hclause => ?_
  obtain ⟨terms, rfl, hterms⟩ := hclause
  rw [Predicate.literals, Predicate.allLiterals_eq]
  refine List.rel_flatMap hterms fun c term hterm => ?_
  obtain ⟨path, -, vs, harrive, hshape⟩ := hterm
  rw [hshape.literals_eq]
  exact List.forall₂_map_left_iff.2 harrive

/-- In the statement of a plan every operand of a filter has its place, and where it stands bare it
stands as a constant, unless it strays. The operands of the last conditions that count rows stand
behind their keywords, always bare and always as constants. -/
theorem toPlan_constants (h : spec.Reachable) (run : spec.toPlan settings = .ok plan) :
    plan.sql = plan.sqlAround (Piece.spell plan.pieces) ∧
      List.Forall₂
        (fun o w => o.1.Arrives o.2 w ∧
          (w.isBare = true → (IsConstant w.sql ↔ ¬ Value.Strays o.1.target? o.2)))
        spec.operands (Piece.operands plan.pieces) ∧
      ∃ limit offset, plan.page.sql = limit ++ offset ∧
        CountText .take " LIMIT " spec.conditions limit ∧
        CountText .skip " OFFSET " spec.conditions offset := by
  obtain ⟨c, clauses, hcompiled⟩ := (toPlan_outcomes settings h).1 plan run
  have harrive := hcompiled.clauses_of.arrive
  rw [← hcompiled.predicates_of_start, ← Plan.operands_pieces] at harrive
  refine ⟨?_, harrive.imp fun o w hw => ⟨hw, hw.isConstant_iff⟩, _, _, Page.sql_eq plan.page,
    countText_of_lastCount (hcompiled.lastCount h rfl),
    countText_of_lastCount (hcompiled.lastCount h rfl)⟩
  rw [Plan.spell_pieces, Plan.sql_eq]

-- The age that the employees' managers are compared with stands as a numeral.
theorem toPlan_constants_staff :
    staff.Reachable ∧ staff.toPlan .standard = .ok staffPlan ∧
      Piece.operands staffPlan.pieces = [.int32 50] ∧ IsConstant (Value.int32 50).sql ∧
      staffPlan.sql = staffPlan.sqlAround (Piece.spell staffPlan.pieces) := by
  obtain ⟨hsql, hoperands, -⟩ := toPlan_constants reachable_staff toPlan_staff
  have hliterals : Piece.operands staffPlan.pieces = [.int32 50] := rfl
  have hsources : staff.operands.map Prod.snd = [.int64 50] := by decide
  rw [hliterals] at hoperands
  obtain ⟨o, os, hage, -, hstaff⟩ := List.forall₂_cons_right_iff.1 hoperands
  have hoperand : o.2 = .int64 50 := by
    rw [hstaff] at hsources
    exact (List.cons.inj hsources).1
  have hconstant : IsConstant (Value.int32 50).sql := by
    refine (hage.2 rfl).2 ?_
    rw [hoperand]
    generalize o.1.target? = t
    nofun
  exact ⟨reachable_staff, toPlan_staff, hliterals, hconstant, hsql⟩

/-- Items with their prices. -/
def goodsSchema : Schema :=
  ⟨[⟨"Item", [⟨"price", .scalar .decimal⟩]⟩]⟩

/-- The items whose price is a text that is read as a number. -/
def goods : Spec :=
  (chain [⟨.equal (.chain ["price"]) (.string "nan"), false⟩]
    ⟨⟨goodsSchema, "Item", .inner, [], none⟩, []⟩).2.state

def goodsPlan : Plan :=
  { Plan.start "Item" "this" with predicates := [.or [.equal "this.price" (.decimal "nan")]] }

-- A number that is not finite is no decimal, but a word for one in a text becomes the text of one
-- and stands bare in the statement.
theorem nan_stands_bare :
    Settings.standard.validate = .ok () ∧ goods.Reachable ∧
      goods.toPlan .standard = .ok goodsPlan ∧
      goodsPlan.sql = "SELECT this.* FROM Item this WHERE this.price = nan" ∧
      Piece.operands goodsPlan.pieces = [.decimal "nan"] ∧
      (Value.decimal "nan").isBare = true ∧ ¬ IsConstant (Value.decimal "nan").sql ∧
      (Value.float64 (.nan false)).convert .decimal = none := by
  refine ⟨by decide, ?_, by cbv, by decide, rfl, rfl, ?_, by decide⟩
  · exact Reachable.chain (.start (show start goodsSchema "Item" = .ok _ by rfl)) _
  · exact not_isConstant_of_isWord (by decide)

end Spec

end PathQuery
