import QueryShell.Text.Lines

/-! The report of a failure that ends the shell: what it was about, and the causes behind it. -/

namespace QueryShell.Shell

/-- What was going on, and what failed, the nearest cause first. -/
structure Failure where
  activity : String
  causes : List String

namespace Failure

/-- A text with its first line behind a mark and the others behind as many blanks as given. -/
def indented (mark : List Char) (blanks : Nat) (text : List Char) : List Char :=
  mark ++ text.flatMap fun c => if c = '\n' then '\n' :: List.replicate blanks ' ' else [c]

/-- A number at the right end of five places. -/
def numbered (n : Nat) : List Char :=
  let digits := (toString n).toList
  List.replicate (5 - digits.length) ' ' ++ digits ++ [':', ' ']

def numberedFrom (n : Nat) : List String → List (List Char)
  | [] => []
  | cause :: rest => indented (numbered n) 7 cause.toList :: numberedFrom (n + 1) rest

def causeTexts : List String → List (List Char)
  | [cause] => [indented (List.replicate 4 ' ') 4 cause.toList]
  | causes => numberedFrom 0 causes

def report (failure : Failure) : List Char :=
  let causes := causeTexts failure.causes
  let behind := if causes.isEmpty then [] else "\n\nCaused by:\n".toList ++ Text.join ['\n'] causes
  "Error: ".toList ++ failure.activity.toList ++ behind ++ ['\n']

end Failure
end QueryShell.Shell
