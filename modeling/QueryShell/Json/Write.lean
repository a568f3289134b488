import QueryShell.Json.Basic
import QueryShell.Text.Quoted

/-! JSON on one line, without blanks. -/

namespace QueryShell.Json

mutual

def text : Json → List Char
  | .null => ['n', 'u', 'l', 'l']
  | .boolean true => ['t', 'r', 'u', 'e']
  | .boolean false => ['f', 'a', 'l', 's', 'e']
  | .number n => n
  | .string s => Text.quoted s.toList
  | .array [] => ['[', ']']
  | .array (v :: vs) => '[' :: text v ++ itemsTail vs
  | .object [] => ['\x7b', '\x7d']
  | .object ((key, v) :: rest) =>
    '\x7b' :: Text.quoted key.toList ++ ':' :: text v ++ entriesTail rest

def itemsTail : List Json → List Char
  | [] => [']']
  | v :: vs => ',' :: text v ++ itemsTail vs

def entriesTail : List (String × Json) → List Char
  | [] => ['\x7d']
  | (key, v) :: rest => ',' :: Text.quoted key.toList ++ ':' :: text v ++ entriesTail rest

end

end QueryShell.Json
