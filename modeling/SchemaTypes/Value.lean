import SchemaTypes.Text.Quoted

/-!
# Value — values of any kind and how messages show them

A value that turns up where a type was expected is shown in the message that refuses it.  `shown` is
that form: lists in brackets, texts in quotes, and structured values as a call with named arguments.
Values of all other kinds show themselves, and `Value.other` knows one by what comes of that.

Showing a value may fail: integers are shown up to a number of digits, and what a value does to show
itself is its own affair.  A list or a structured value fails as the first value in it does.
-/

namespace SchemaTypes

/-- Why a value is not shown. -/
inductive ShowError where
  | tooManyDigits
  /-- An error of some kind, from a value that shows itself. -/
  | own (kind message : String)
  deriving DecidableEq

/-- The wording of the error. -/
def ShowError.message : ShowError → String
  | .tooManyDigits =>
    "Exceeds the limit (4300 digits) for integer string conversion; " ++
      "use sys.set_int_max_str_digits() to increase the limit"
  | .own _ message => message

/-- A value. -/
inductive Value where
  | none
  | bool (b : Bool)
  | int (n : Int)
  | text (s : String)
  | list (items : List Value)
  | structured (kind : String) (fields : List (String × Value))
  /-- A value of any other kind, by what comes of showing it. -/
  | other (shown : Except ShowError String)
  deriving Inhabited

namespace Value

/-- How many digits of an integer are shown. -/
def digitLimit : Nat := 4300

/-- An integer, unless it has too many digits. -/
def shownInt (n : Int) : Except ShowError String :=
  if n.natAbs < Nat.pow 10 digitLimit then .ok (toString n) else .error .tooManyDigits

mutual

/-- The form in which a message shows a value. -/
def shown : Value → Except ShowError String
  | .none => .ok "None"
  | .bool true => .ok "True"
  | .bool false => .ok "False"
  | .int n => shownInt n
  | .text s => .ok (Text.quoted s)
  | .list items => (shownItems items).map fun ss => "[" ++ ", ".intercalate ss ++ "]"
  | .structured kind fields =>
    (shownFields fields).map fun ss => kind ++ "(" ++ ", ".intercalate ss ++ ")"
  | .other shown => shown

/-- The items of a list, each as shown. -/
def shownItems : List Value → Except ShowError (List String)
  | [] => .ok []
  | item :: items =>
    match item.shown with
    | .error e => .error e
    | .ok s => (shownItems items).map (s :: ·)

/-- The named arguments of a structured value, each as shown. -/
def shownFields : List (String × Value) → Except ShowError (List String)
  | [] => .ok []
  | (name, value) :: fields =>
    match value.shown with
    | .error e => .error e
    | .ok s => (shownFields fields).map ((name ++ "=" ++ s) :: ·)

end

end Value

/-! ## Refused values -/

/-- What comes of refusing a value in the place of a type. -/
inductive Refusal where
  /-- The value is refused, as it is shown. -/
  | unsupported (shown : String)
  /-- The value was to be shown and could not be. -/
  | unshown (e : ShowError)
  deriving DecidableEq

/-- The wording of a refusal. -/
def Refusal.message : Refusal → String
  | .unsupported shown => "Unsupported type node: " ++ shown
  | .unshown e => e.message

/-- The refusal of a value. -/
def Value.refusal (v : Value) : Refusal :=
  match v.shown with
  | .ok shown => .unsupported shown
  | .error e => .unshown e

end SchemaTypes
