/-!
# Name — dotted names and the words they are written as

A schema entity has a dotted full name, such as `.shop.Order.Item`.  Leading dots never matter for
what a name stands for: `canonical` gives each name exactly one.  In generated code a name is one
word, its segments run together; the segments of its package are left out unless every name is to be
qualified.
-/

namespace SchemaTypes.Name

/-- The name without its leading dots. -/
def bare (name : String) : String := String.ofList (name.toList.dropWhile (· == '.'))

/-- The name with exactly one leading dot. -/
def canonical (name : String) : String := "." ++ bare name

/-- The segments of a dotted name, run together. -/
def word (name : String) : String := String.ofList (name.toList.filter (· != '.'))

/-- Whether the name lies in the package, segment for segment. -/
def inPackage (package fullName : String) : Bool :=
  (package.toList ++ ['.']).isPrefixOf (bare fullName).toList

/-- The word a full name is written as.  The word of a non-empty package is cut off from the names
that lie in it, unless names are always qualified. -/
def qualify (fullName package : String) (always : Bool) : String :=
  if !always && package != "" && inPackage package fullName then
    String.ofList ((word fullName).toList.drop (word package).toList.length)
  else word fullName

@[simp] theorem toList_bare (name : String) :
    (bare name).toList = name.toList.dropWhile (· == '.') := String.toList_ofList

@[simp] theorem toList_word (name : String) :
    (word name).toList = name.toList.filter (· != '.') := String.toList_ofList

/-- Always qualified, a name is written as all its segments. -/
@[simp] theorem qualify_always (fullName package : String) :
    qualify fullName package true = word fullName := rfl

/-- Outside any package, a name is written as all its segments. -/
@[simp] theorem qualify_empty (fullName : String) (always : Bool) :
    qualify fullName "" always = word fullName := by simp [qualify]

end SchemaTypes.Name
