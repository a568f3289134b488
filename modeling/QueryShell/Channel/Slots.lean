import QueryShell.Channel.Queue
import QueryShell.Stream.Namespaces

/-! Slots for what travels beside the values. Each slot is assigned at most once. -/

namespace QueryShell

inductive SlotKind where
  | globals
  | locals
  | formats
  | context
  deriving DecidableEq

namespace SlotKind

def all : List SlotKind := [.globals, .locals, .formats, .context]

def name : SlotKind → String
  | .globals => "globals"
  | .locals => "locals"
  | .formats => "format-strings"
  | .context => "context"

abbrev Content : SlotKind → Type
  | .globals => Scope
  | .locals => Scope
  | .formats => Formats
  | .context => Context

end SlotKind

def Namespaces.get (namespaces : Namespaces) : (kind : SlotKind) → kind.Content
  | .globals => namespaces.globals
  | .locals => namespaces.locals
  | .formats => namespaces.formats
  | .context => namespaces.context

structure Slots where
  globals : Option Scope
  locals : Option Scope
  formats : Option Formats
  context : Option Context

namespace Slots

def empty : Slots := ⟨none, none, none, none⟩

def ofNamespaces (n : Namespaces) : Slots :=
  ⟨some n.globals, some n.locals, some n.formats, some n.context⟩

def get? (slots : Slots) : (kind : SlotKind) → Option kind.Content
  | .globals => slots.globals
  | .locals => slots.locals
  | .formats => slots.formats
  | .context => slots.context

def isSet (slots : Slots) (kind : SlotKind) : Bool := (slots.get? kind).isSome

def put (slots : Slots) : (kind : SlotKind) → kind.Content → Slots
  | .globals, scope => { slots with globals := some scope }
  | .locals, scope => { slots with locals := some scope }
  | .formats, formats => { slots with formats := some formats }
  | .context, context => { slots with context := some context }

def assign (slots : Slots) (kind : SlotKind) (content : kind.Content) : Except ChannelError Slots :=
  if slots.isSet kind then .error .alreadyAssigned else .ok (slots.put kind content)

/-- An assignment that leaves a slot alone that is set. -/
def supply (slots : Slots) (kind : SlotKind) (content : kind.Content) : Slots :=
  if slots.isSet kind then slots else slots.put kind content

def supplyAll (slots : Slots) (n : Namespaces) : Slots :=
  SlotKind.all.foldl (fun slots kind => slots.supply kind (n.get kind)) slots

def fillDefaults (slots : Slots) : Slots := slots.supplyAll .empty

/-- A slot that is set can be read whether or not the token has fired. -/
def read (slots : Slots) (kind : SlotKind) (fired : Bool) : Reading kind.Content :=
  match slots.get? kind with
  | some content => .value content
  | none => if fired then .failed .cancelled else .waiting

/-- What the slots hold, with defaults for those not set. -/
def namespaces (slots : Slots) : Namespaces :=
  ⟨slots.globals.getD [], slots.locals.getD [], slots.formats.getD [], slots.context.getD .standard⟩

def allSet (slots : Slots) : Bool := SlotKind.all.all slots.isSet

def snapshot (slots : Slots) (fired : Bool) : Reading Namespaces :=
  if slots.allSet then .value slots.namespaces else if fired then .failed .cancelled else .waiting

end Slots
end QueryShell
