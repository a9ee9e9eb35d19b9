/-!
# Quoted — text between single quotes

A quote inside the text is written twice, as in SQL string literals.
-/

namespace PathQuery.Text

/-- Every quote is written twice. -/
def doubleQuotes : List Char → List Char
  | [] => []
  | c :: cs => if c = '\'' then '\'' :: '\'' :: doubleQuotes cs else c :: doubleQuotes cs

/-- The text between quotes. -/
def quoted (cs : List Char) : List Char :=
  '\'' :: (doubleQuotes cs ++ ['\''])

end PathQuery.Text
