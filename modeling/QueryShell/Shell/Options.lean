/-! What can be said on the command line. -/

namespace QueryShell.Shell

structure Options where
  /-- A filter, or a file with one behind an at sign. -/
  filter : Option String
  config : Option String
  compact : Bool
  arguments : List String

namespace Options

def empty : Options := ⟨none, none, false, []⟩

/-- An option may be given once, and its value is not another option. -/
def setFilter (options : Options) (value : String) : Option Options :=
  if options.filter.isSome then none else some { options with filter := some value }

def setConfig (options : Options) (path : String) : Option Options :=
  if options.config.isSome then none else some { options with config := some path }

def setCompact (options : Options) : Option Options :=
  if options.compact then none else some { options with compact := true }

def looksLikeOption (arg : String) : Bool :=
  match arg.toList with
  | '-' :: _ :: _ => true
  | _ => false

def attached? (name : String) (arg : String) : Option String :=
  if name.toList.isPrefixOf arg.toList then some (String.ofList (arg.toList.drop name.length))
  else none

def single? (options : Options) (arg : String) : Option Options :=
  if arg = "--compact" then options.setCompact
  else
    match attached? "--filter=" arg, attached? "--config=" arg, attached? "-c=" arg,
      attached? "-c" arg with
    | some value, _, _, _ => options.setFilter value
    | none, some path, _, _ => options.setConfig path
    | none, none, some value, _ => options.setFilter value
    | none, none, none, some value => options.setFilter value
    | none, none, none, none => none

/-- All arguments from the first one that is no option are left to the filter. -/
def addAll (options : Options) : List String → Option Options
  | [] => some options
  | arg :: rest =>
    if arg = "--" then some { options with arguments := rest }
    else if arg = "-c" || arg = "--filter" || arg = "--config" then
      match rest with
      | [] => none
      | value :: rest =>
        if looksLikeOption value then none
        else
          match if arg = "--config" then options.setConfig value else options.setFilter value with
          | none => none
          | some options => addAll options rest
    else if looksLikeOption arg then
      match options.single? arg with
      | none => none
      | some options => addAll options rest
    else some { options with arguments := arg :: rest }

/-- Nothing if the arguments make no sense. -/
def ofArguments? (args : List String) : Option Options := empty.addAll args

def filterPath? (filter : String) : Option String :=
  match filter.toList with
  | '@' :: path => some (String.ofList path)
  | _ => none

def paths (options : Options) : List String :=
  options.config.toList ++ (options.filter.bind filterPath?).toList

end Options
end QueryShell.Shell
