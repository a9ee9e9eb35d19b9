/-!
# Numeral — decimal and hexadecimal numerals of natural numbers and integers

Writers produce character lists; readers take the characters at the front and return the rest,
or read a whole text.
-/

namespace PathQuery.Text

/-- The decimal digits of `n`, without leading zeros. -/
def digits (n : Nat) : List Char :=
  Nat.toDigits 10 n

/-- The decimal digits of `n` behind as many zeros as fill `width`. -/
def padded (width n : Nat) : List Char :=
  List.replicate (width - (digits n).length) '0' ++ digits n

/-- A minus sign stands before the digits of a negative integer. -/
def signed : Int → List Char
  | .ofNat n => digits n
  | .negSucc n => '-' :: digits (n + 1)

/-- The number that a list of decimal digits denotes. -/
def digitsValue (cs : List Char) : Nat :=
  Nat.ofDigitChars 10 cs 0

/-- Splits off the digits at the front, at most `most` of them. -/
def digitRun : Nat → List Char → List Char × List Char
  | 0, cs => ([], cs)
  | _ + 1, [] => ([], [])
  | most + 1, c :: cs =>
    if c.isDigit then
      let (ds, rest) := digitRun most cs
      (c :: ds, rest)
    else
      ([], c :: cs)

/-- Reads one or more digits at the front, at most `most` of them. -/
def readDigits (most : Nat) (cs : List Char) : Option (Nat × List Char) :=
  match digitRun most cs with
  | ([], _) => none
  | (ds, rest) => some (digitsValue ds, rest)

/-- Reads exactly `width` digits at the front. -/
def readExactly (width : Nat) (cs : List Char) : Option (Nat × List Char) :=
  let (ds, rest) := digitRun width cs
  if ds.length = width then some (digitsValue ds, rest) else none

/-- Reads a whole text of one or more digits. -/
def natural? (cs : List Char) : Option Nat :=
  match cs with
  | [] => none
  | _ => if cs.all Char.isDigit then some (digitsValue cs) else none

/-- Reads a whole text of one or more digits behind an optional sign. -/
def integer? : List Char → Option Int
  | '-' :: cs => (natural? cs).map fun n => -(n : Int)
  | '+' :: cs => (natural? cs).map Int.ofNat
  | cs => (natural? cs).map Int.ofNat

/-- The decimal numeral of a natural number. -/
def naturalText (n : Nat) : String :=
  String.ofList (digits n)

/-- The decimal numeral of an integer. -/
def integerText (i : Int) : String :=
  String.ofList (signed i)

/-! ## Hexadecimal -/

/-- The lower-case digit of a number below sixteen. -/
def hexDigit (n : Nat) : Char :=
  Nat.digitChar (n % 16)

/-- The number that a hexadecimal digit of either case denotes. -/
def hexValue (c : Char) : Option Nat :=
  if '0' ≤ c ∧ c ≤ '9' then some (c.toNat - '0'.toNat)
  else if 'a' ≤ c ∧ c ≤ 'f' then some (c.toNat - 'a'.toNat + 10)
  else if 'A' ≤ c ∧ c ≤ 'F' then some (c.toNat - 'A'.toNat + 10)
  else none

/-- The last `width` hexadecimal digits of `n`, most significant first. -/
def hexDigits : Nat → Nat → List Char
  | 0, _ => []
  | width + 1, n => hexDigits width (n / 16) ++ [hexDigit n]

/-- Reads hexadecimal digits into the number they denote, after `acc`. -/
def readHex (acc : Nat) : List Char → Option Nat
  | [] => some acc
  | c :: cs => (hexValue c).bind fun d => readHex (acc * 16 + d) cs

/-! ## Numerals of natural numbers -/

theorem digits_ne_nil (n : Nat) : digits n ≠ [] :=
  List.ne_nil_of_length_pos Nat.length_toDigits_pos

theorem isDigit_of_mem_digits {n : Nat} {c : Char} (h : c ∈ digits n) : c.isDigit = true :=
  Nat.isDigit_of_mem_toDigits (by decide) (by decide) h

theorem digitsValue_digits (n : Nat) : digitsValue (digits n) = n :=
  Nat.ofDigitChars_toDigits (by decide) (by decide)

/-- A numeral reads back as its number. -/
theorem natural?_digits (n : Nat) : natural? (digits n) = some n := by
  have hall : (digits n).all Char.isDigit = true :=
    List.all_eq_true.2 fun _ h => isDigit_of_mem_digits h
  have hne := digits_ne_nil n
  have hv := digitsValue_digits n
  unfold natural?
  split
  · simp_all
  · rw [if_pos hall, hv]

end PathQuery.Text
