import SchemaTypes.Table
import SchemaTypes.Text.Blank

/-!
# Options — what a run may be told

Two switches, both off by default.  A parameter text sets them: chunks between commas, each a key
and a value around the first equals sign, both trimmed.  A chunk without a key says nothing; of
several chunks with one key the last speaks, in the place of the first.
-/

namespace SchemaTypes

/-- The switches of a run. -/
structure Options where
  /-- Keep the package on every name. -/
  alwaysQualify : Bool := false
  /-- Write the values of an enum wherever a field has its type. -/
  embedEnums : Bool := false
  deriving DecidableEq

namespace Options

/-- Why a parameter is refused. -/
inductive Error where
  | unknownKey (key : String)
  | invalidValue (key value : String)
  deriving DecidableEq

/-- The wording of a refusal. -/
def Error.message : Error → String
  | .unknownKey key =>
    "Unknown option '" ++ key ++
      "'. Supported options: ['always_qualify_type_names', 'embed_enums']"
  | .invalidValue key value => "Invalid boolean value '" ++ value ++ "' for option '" ++ key ++ "'"

/-! ## The grammar of a parameter -/

/-- The key and the value of a chunk; no equals sign means an empty value. -/
def chunk (cs : List Char) : String × String :=
  (String.ofList (Text.trimChars (cs.takeWhile (· != '='))),
    String.ofList (Text.trimChars ((cs.dropWhile (· != '=')).drop 1)))

/-- The chunks of a parameter that have a key, from left to right. -/
def chunks (parameter : String) : List (String × String) :=
  ((parameter.toList.splitOn ',').map chunk).filter (·.1 != "")

/-- The meaning of a value, upper or lower case alike.  All letters of the accepted values are
ASCII, and no other character has one of them as its lower case. -/
def truth? (value : String) : Option Bool :=
  let folded := String.ofList (value.toList.map Char.toLower)
  if folded ∈ ["", "true", "1", "yes"] then some true
  else if folded ∈ ["false", "0", "no"] then some false
  else none

/-- The switches after one key has been given its value. -/
def set (options : Options) (key value : String) : Except Error Options :=
  if key = "always_qualify_type_names" then
    match truth? value with
    | some b => .ok { options with alwaysQualify := b }
    | none => .error (.invalidValue key value)
  else if key = "embed_enums" then
    match truth? value with
    | some b => .ok { options with embedEnums := b }
    | none => .error (.invalidValue key value)
  else .error (.unknownKey key)

/-- The switches that a parameter sets, or the first refusal of a key. -/
def parse (parameter : String) : Except Error Options :=
  (Table.ofList (chunks parameter)).entries.foldlM (fun options e => options.set e.1 e.2) {}

end Options

end SchemaTypes
