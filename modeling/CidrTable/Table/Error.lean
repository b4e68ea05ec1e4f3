import CidrTable.Located
import CidrTable.Subnet.Key
import CidrTable.Text.Quoted

/-! Why a document is no table.

Each failure belongs to one stable class. No failure leaves a part of a table behind. -/
namespace CidrTable

/-- Why a document does not decode as a table. -/
inductive DecodeError where
  /-- A key is no text but a thing of this kind. -/
  | keyKind (index : Nat) (kind : String)
  /-- A key is text but denotes no subnet. -/
  | subnet (index : Nat) (key : String) (cause : KeyError)
  /-- A key's mask is of a width that no family has. -/
  | maskWidth (index : Nat) (bits : Nat)
  /-- A value does not decode; the name is that of the values' type. -/
  | value (typeName : String) (cause : Located)
  /-- The document is neither a map nor a value. -/
  | notApplicable (typeName : String)
  deriving DecidableEq

namespace DecodeError

/-- The class a failure belongs to. -/
def code : DecodeError → String
  | keyKind .. => "Invalid key type"
  | subnet .. => "Invalid subnet"
  | maskWidth .. => "Invalid netmask"
  | value .. => "Value decoding failed"
  | notApplicable .. => "Not a subnet map"

def message : DecodeError → String
  | keyKind index kind => "key " ++ toString index ++ " is not a string (" ++ kind ++ ")"
  | subnet index key cause =>
    "key " ++ toString index ++ " (" ++ Text.quoted key ++ ") is not a valid subnet: " ++
      cause.message
  | maskWidth index bits =>
    "key " ++ toString index ++ " has an invalid netmask (" ++ toString bits ++ " bits)"
  | value typeName cause => "unable to decode " ++ Text.quoted typeName ++ ": " ++ cause.write
  | notApplicable typeName => "input is neither a map nor a " ++ Text.quoted typeName

/-- The messages of the causes behind the failure, the nearest first. -/
def causes : DecodeError → List String
  | subnet _ _ cause => cause.message :: cause.causes
  | value _ cause => [cause.write]
  | _ => []

end DecodeError

end CidrTable
