import QueryShell.Eval.Node
import QueryShell.Filter.Source

/-! The evaluation of filters. -/

namespace QueryShell.Filter

mutual

def eval (runtime : Runtime) : Filter → Evaluator
  | .empty => Node.constant .nothing
  | .parens f => Node.parens (eval runtime f)
  | .array f => Node.arrayOf (eval runtime f)
  | .object f => Node.objectOf (eval runtime f)
  | .name label => Node.name runtime label
  | .number text => Node.constant (Node.numeral text)
  | .string text => Node.constant (.once (.string text))
  | .pipe l r => Node.pipe (eval runtime l) (eval runtime r)
  | .apply attributes =>
    if attributes.all isEmpty then Node.identity
    else
      match splitDecimal? attributes with
      | some text => Node.constant (Node.numeral text)
      | none => evalCall runtime attributes
  | .comma l r => Node.comma (eval runtime l) (eval runtime r)
  | .add l r => Node.binary .add (eval runtime l) (eval runtime r)
  | .multiply l r => Node.binary .multiply (eval runtime l) (eval runtime r)
  | .pair l r => Node.binary .pair (eval runtime l) (eval runtime r)
  | .assign (.name label) r => Node.assign (.local label) (eval runtime r)
  | .assign (.globalVariable f) r =>
    Node.assign (.global ⟨f.literalName?, eval runtime f⟩) (eval runtime r)
  | .assign l r => Node.assign (.unassignable l.kind l.source) (eval runtime r)
  | .semicolon l r => Node.semicolon (eval runtime l) (eval runtime r)
  | .command f => Node.command runtime ⟨f.literalName?, eval runtime f⟩
  | .globalVariable f => Node.globalVariable ⟨f.literalName?, eval runtime f⟩

/-- A call of the function that the first filter names, with the others as arguments. -/
def evalCall (runtime : Runtime) : List Filter → Evaluator
  | [] => Node.identity
  | head :: args => Node.call runtime ⟨head.literalName?, eval runtime head⟩ (evalAll runtime args)

def evalAll (runtime : Runtime) : List Filter → List Evaluator
  | [] => []
  | f :: fs => eval runtime f :: evalAll runtime fs

end

end QueryShell.Filter
