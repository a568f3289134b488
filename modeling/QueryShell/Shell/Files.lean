import QueryShell.Text.Lines
import QueryShell.Text.Utf8

/-! Files as the shell reads them, and folders of texts to read them from. -/

namespace QueryShell.Shell

inductive ReadFailure where
  | notFound
  | notPermitted
  | notADirectory
  | isADirectory
  | notText
  | other (message : String)
  deriving DecidableEq

def ReadFailure.message : ReadFailure → String
  | .notFound => "No such file or directory (os error 2)"
  | .notPermitted => "Permission denied (os error 13)"
  | .notADirectory => "Not a directory (os error 20)"
  | .isADirectory => "Is a directory (os error 21)"
  | .notText => "stream did not contain valid UTF-8"
  | .other message => message

/-- The text of each file, or why it cannot be read. -/
abbrev Files := String → Except ReadFailure (List Char)

/-- The files after one of them was written, whatever was there before. -/
def Files.write (files : Files) (path : String) (bytes : List UInt8) : Files := fun other =>
  if other = path then (Text.ofUtf8 bytes).mapError fun _ => .notText else files other

abbrev Folder := List (String × String)

namespace Folder

def splitAtSlashes : List Char → List (List Char)
  | [] => [[]]
  | '/' :: cs => [] :: splitAtSlashes cs
  | c :: cs =>
    match splitAtSlashes cs with
    | [] => [[c]]
    | part :: parts => (c :: part) :: parts

def parts (path : String) : List (List Char) := (splitAtSlashes path.toList).filter (!·.isEmpty)

def text? (folder : Folder) (names : List (List Char)) : Option String :=
  (folder.find? fun (path, _) => parts path = names).map Prod.snd

def isFolder (folder : Folder) (names : List (List Char)) : Bool :=
  names.isEmpty || folder.any fun (path, _) => names.isPrefixOf (parts path)

/-- Follows names from a folder that is there. A dot stays in it and two dots lead out of it. -/
def walk (folder : Folder) (current : List (List Char)) :
    List (List Char) → Except ReadFailure String
  | [] => .error .isADirectory
  | name :: rest =>
    if name = [] || name = ['.'] then walk folder current rest
    else if name = ['.', '.'] then
      if current.isEmpty then .error .notFound else walk folder current.dropLast rest
    else
      match text? folder (current ++ [name]) with
      | some text => if rest.isEmpty then .ok text else .error .notADirectory
      | none =>
        if isFolder folder (current ++ [name]) then walk folder (current ++ [name]) rest
        else .error .notFound

/-- Nothing is known of files elsewhere. -/
def read (folder : Folder) : Files := fun path =>
  match path.toList with
  | [] => .error .notFound
  | '/' :: _ => .error .notFound
  | cs => (walk folder [] (splitAtSlashes cs)).map String.toList

end Folder
end QueryShell.Shell
