import CidrTable.Table.Decode

/-! Decode hooks, tried in turn.

A hook takes a document and handles it, fails on it, or declines and hands a document on.
`Hook.run` offers a document to the hooks of a list in order: the first that does not
decline settles the outcome, and the ones after it are not run. -/
namespace CidrTable

/-- Something that may turn a document into a table. -/
abbrev Hook (V : Type) := Json → Reported (Outcome V)

/-- The outcome, or that of the next hook on what was handed on. -/
def Outcome.orElse {V : Type} (o : Outcome V) (next : Hook V) : Reported (Outcome V) :=
  match o with
  | .declined raw => next raw
  | o => pure o

namespace Hook

variable {V : Type}

/-- The hooks of a list in order, until one does not decline. -/
def run (hooks : List (Hook V)) (raw : Json) : Reported (Outcome V) :=
  hooks.foldlM (fun o next => o.orElse next) (.declined raw)

/-- Decodes the document itself. -/
def table (S : Schema V) : Hook V := Outcome.ofJson S

/-- Decodes the first item of a list and declines all else. -/
def firstOfList (S : Schema V) : Hook V
  | .array (first :: _) => Outcome.ofJson S first
  | raw => pure (.declined raw)

/-- Decodes what an object holds under a key and declines all else. -/
def under (key : String) (S : Schema V) : Hook V
  | .object fields =>
    match Fields.get? fields key with
    | some j => Outcome.ofJson S j
    | none => pure (.declined (.object fields))
  | raw => pure (.declined raw)

/-- Declines and hands another document on. -/
def replace (other : Json) : Hook V := fun _ => pure (.declined other)

end Hook

end CidrTable
