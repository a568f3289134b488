import QueryShell.Config.Basic
import QueryShell.Error
import QueryShell.Toml.Read
import QueryShell.Toml.Write

/-! The configuration file. Each setting may be missing, and then has its standard value; whatever
else the file holds is not looked at. -/

namespace QueryShell.Config

open Toml (Node)

/-- The settings of a section by name. A list gives them in their order. -/
def settings? (names : List String) : Node → Option (List (String × Node))
  | .table _ entries => some entries
  | .array items => some (names.zip items)
  | .tables items => some (names.zip items)
  | _ => none

def entry {α : Type} (entries : List (String × Node)) (name : String) (standard : α)
    (read : Node → Option α) :
    Option α :=
  match Dictionary.find? name entries with
  | none => some standard
  | some node => read node

def text? : Node → Option String
  | .text s => some s
  | _ => none

def flag? : Node → Option Bool
  | .boolean b => some b
  | _ => none

def count? : Node → Option Nat
  | .integer n => if 0 ≤ n then some n.toNat else none
  | _ => none

def engine? (node : Node) : Option EngineSettings := do
  let entries ← settings? ["thread_name_prefix"] node
  return ⟨← entry entries "thread_name_prefix" standard.engine.threadNamePrefix text?⟩

def command? (node : Node) : Option CommandSettings := do
  let entries ← settings? ["end_of_transmission", "strip_trailing_eot"] node
  return ⟨← entry entries "end_of_transmission" standard.command.endOfTransmission flag?,
    ← entry entries "strip_trailing_eot" standard.command.stripTrailingEot flag?⟩

def output? (node : Node) : Option OutputSettings := do
  let entries ← settings? ["indent"] node
  return ⟨← entry entries "indent" standard.output.indent count?⟩

def ofNode? (node : Node) : Option Config := do
  let entries ← settings? ["engine", "command", "output"] node
  return ⟨← entry entries "engine" standard.engine engine?,
    ← entry entries "command" standard.command command?,
    ← entry entries "output" standard.output output?⟩

def ofText (cs : List Char) : Except Error Config :=
  match (Toml.read cs).bind ofNode? with
  | some config => .ok config
  | none => .error .toml

def flagText (b : Bool) : String := if b then "true" else "false"

def lines (config : Config) : List (List Char) :=
  ["[engine]".toList,
    "thread_name_prefix = ".toList ++ Toml.stringText config.engine.threadNamePrefix.toList,
    [],
    "[command]".toList,
    "end_of_transmission = ".toList ++ (flagText config.command.endOfTransmission).toList,
    "strip_trailing_eot = ".toList ++ (flagText config.command.stripTrailingEot).toList,
    [],
    "[output]".toList,
    "indent = ".toList ++ Numeral.write config.output.indent]

/-- A larger indentation cannot be saved. -/
def indentLimit : Nat := 0x7fffffffffffffff

def toText (config : Config) : Except Error (List Char) :=
  if config.output.indent ≤ indentLimit then .ok (config.lines.flatMap (· ++ ['\n']))
  else .error (.config "Failed to serialize config: out-of-range value for u64 type")

end QueryShell.Config
