import TableFlow.Formula.Basic

/-!
# Formulas as text

`Formula.source` writes a formula so that reading the text gives it back: every operator
with two arguments stands in parentheses, names that are no plain words stand in back
quotes, text stands in single quotes, and a quote inside is written twice.
-/

namespace TableFlow.Formula

/-- A quote written twice wherever it occurs. -/
def doubled (quote : Char) (s : String) : String :=
  String.ofList (s.toList.flatMap fun c => if c = quote then [quote, quote] else [c])

/-- A name that needs no quotes: an ASCII word that is no keyword. -/
def isPlainName (name : String) : Bool :=
  match name.toList with
  | [] => false
  | c :: rest =>
    (c.isAlpha || c == '_') && rest.all (fun c => c.isAlphanum || c == '_')
      && !keywords.contains name

def nameSource (name : String) : String :=
  if isPlainName name then name else "`" ++ doubled '`' name ++ "`"

def valueSource : Value → String
  | .text s => "'" ++ doubled '\'' s ++ "'"
  | v => v.display

mutual

def source : Formula → String
  | constant v => valueSource v
  | column name => nameSource name
  | apply name [a, b] .operator => "(" ++ source a ++ " " ++ name ++ " " ++ source b ++ ")"
  | apply name args _ => name ++ "(" ++ ", ".intercalate (sources args) ++ ")"

def sources : List Formula → List String
  | [] => []
  | e :: rest => source e :: sources rest

end

end TableFlow.Formula
