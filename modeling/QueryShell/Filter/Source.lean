import QueryShell.Filter.Basic
import QueryShell.Text.Lines
import QueryShell.Text.Quoted

/-! Filters as source text. -/

namespace QueryShell.Filter

mutual

def source : Filter → String
  | .empty => ""
  | .parens f => "(" ++ source f ++ ")"
  | .array f => "[" ++ source f ++ "]"
  | .object f => "\x7b" ++ source f ++ "\x7d"
  | .name n => n
  | .number text => text
  | .string text => Text.quote text
  | .pipe l r => source l ++ " | " ++ source r
  | .comma l r => source l ++ ", " ++ source r
  | .add l r => source l ++ " + " ++ source r
  | .multiply l r => source l ++ " * " ++ source r
  | .assign l r => source l ++ " = " ++ source r
  | .semicolon l r => source l ++ "; " ++ source r
  | .pair l r => source l ++ ": " ++ source r
  | .apply attributes =>
    if attributes.all isEmpty then "."
    else
      match splitDecimal? attributes with
      | some text => text
      | none => Text.joinStrings " " (sources attributes)
  | .command f => "!" ++ source f
  | .globalVariable f => "$" ++ source f

def sources : List Filter → List String
  | [] => []
  | f :: fs => source f :: sources fs

end

end QueryShell.Filter
