import SchemaTypes.Dialect.Basic
import SchemaTypes.Options
import SchemaTypes.Text.Digit

/-!
# Command/Arguments — the words after the program's name

Every word is first told apart on its own (`Token.ofWord`): an option, something that looks like an
option but is none, or a value.  Long options may be cut short; a value may be joined to its option
by an equals sign, and to a short option directly.  Then the tokens are taken from left to right
(`Draft.take`), and the first that cannot be taken decides.  What is missing is told before what is
left over.

A double dash joined to a setting takes the setting's value away: it counts as given and has none.
-/

namespace SchemaTypes.Command

/-- The options that stand in front of a value. -/
inductive Setting where
  | schema
  | output
  | dialect
  | search
  deriving DecidableEq

/-- The options that stand alone. -/
inductive Switch where
  | help
  | alwaysQualify
  | embedEnums
  deriving DecidableEq

/-- The options of the command line. -/
inductive Opt where
  | setting (s : Setting)
  | switch (s : Switch)
  deriving DecidableEq

namespace Opt

/-- All spellings, in the order in which they are listed to the user. -/
def spellings : List (String × Opt) :=
  [("-h", switch .help), ("--help", switch .help), ("--proto", setting .schema),
    ("--out", setting .output), ("--dialect", setting .dialect), ("-I", setting .search),
    ("--include", setting .search), ("--always-qualify-type-names", switch .alwaysQualify),
    ("--embed-enums", switch .embedEnums)]

/-- How messages name an option: by all its spellings. -/
def label (o : Opt) : String :=
  "/".intercalate ((spellings.filter (·.2 == o)).map Prod.fst)

/-- The option of a spelling. -/
def ofSpelling? (s : String) : Option Opt := (spellings.find? (·.1 == s)).map Prod.snd

end Opt

/-- How messages name a setting. -/
def Setting.label (s : Setting) : String := (Opt.setting s).label

/-- How messages name a switch. -/
def Switch.label (s : Switch) : String := (Opt.switch s).label

/-- Why the words are refused. -/
inductive UsageError where
  | ambiguous (word : String) (candidates : List String)
  | expectedValue (s : Setting)
  | invalidDialect (value : String)
  | ignoredValue (s : Switch) (value : String)
  | missing (ss : List Setting)
  | unrecognized (words : List String)
  deriving DecidableEq

/-- The wording of a refusal. -/
def UsageError.message : UsageError → String
  | .ambiguous word candidates =>
    "ambiguous option: " ++ word ++ " could match " ++ ", ".intercalate candidates
  | .expectedValue s => "argument " ++ s.label ++ ": expected one argument"
  | .invalidDialect value =>
    "argument " ++ Setting.dialect.label ++ ": invalid choice: " ++ Text.quoted value ++
      " (choose from 'elm', 'flow')"
  | .ignoredValue s value =>
    "argument " ++ s.label ++ ": ignored explicit argument " ++ Text.quoted value
  | .missing ss =>
    "the following arguments are required: " ++ ", ".intercalate (ss.map Setting.label)
  | .unrecognized words => "unrecognized arguments: " ++ " ".intercalate words

/-! ## Words -/

/-- Whether an option is spelled with one dash and a letter, or with two and a name. -/
inductive Spelling where
  | short
  | long
  deriving DecidableEq

/-- What a word is taken for. -/
inductive Token where
  | option (o : Opt)
  | joined (o : Opt) (spelling : Spelling) (text : String)
  | unknown (word : String)
  | value (word : String)
  | separator
  deriving DecidableEq

/-- Whether the characters are a minus sign and a decimal number; a line end may follow. -/
def isNegativeNumber (cs : List Char) : Bool :=
  let cs := if cs.getLast? = some '\n' then cs.dropLast else cs
  match cs with
  | '-' :: digits =>
    let whole := digits.takeWhile Text.isDecimal
    match digits.dropWhile Text.isDecimal with
    | [] => !whole.isEmpty
    | '.' :: fraction => !fraction.isEmpty && fraction.all Text.isDecimal
    | _ => false
  | _ => false

/-- The options that a word may be an abbreviation of, or a short option joined to a text. -/
def candidates (word : String) : List (String × Token) :=
  match word.toList with
  | '-' :: '-' :: _ =>
    let start := word.toList.takeWhile (· != '=')
    (Opt.spellings.filter fun s => start.isPrefixOf s.1.toList).map fun s =>
      match word.toList.dropWhile (· != '=') with
      | [] => (s.1, .option s.2)
      | _ :: text => (s.1, .joined s.2 .long (String.ofList text))
  | mark :: letter :: text =>
    (Opt.spellings.filter (·.1 == String.ofList [mark, letter])).map fun s =>
      (s.1, .joined s.2 .short (String.ofList text))
  | _ => []

/-- The option spelled in full before an equals sign, with the text after it. -/
def withEquals? (word : String) : Option Token :=
  match word.toList.dropWhile (· != '=') with
  | [] => none
  | _ :: text =>
    let spelling := match word.toList with
      | '-' :: '-' :: _ => Spelling.long
      | _ => .short
    (Opt.ofSpelling? (String.ofList (word.toList.takeWhile (· != '=')))).map fun o =>
      .joined o spelling (String.ofList text)

/-- What a word is taken for, by itself. -/
def Token.ofWord (word : String) : Except UsageError Token :=
  if word.toList.head? ≠ some '-' then .ok (.value word)
  else
    match Opt.ofSpelling? word, withEquals? word with
    | some o, _ => .ok (.option o)
    | none, some t => .ok t
    | none, none =>
      match candidates word with
      | [(_, t)] => .ok t
      | [] =>
        if word = "-" ∨ isNegativeNumber word.toList ∨ ' ' ∈ word.toList then .ok (.value word)
        else .ok (.unknown word)
      | several => .error (.ambiguous word (several.map Prod.fst))

/-- The tokens of the words.  After a double dash every word is a value. -/
def tokens : List String → Except UsageError (List Token)
  | [] => .ok []
  | word :: words =>
    if word = "--" then .ok (.separator :: words.map .value)
    else
      match Token.ofWord word with
      | .error e => .error e
      | .ok t =>
        match tokens words with
        | .error e => .error e
        | .ok ts => .ok (t :: ts)

/-! ## Settings -/

/-- What the command line asks for.  A setting whose value was taken away is `none`. -/
structure Settings where
  schema : Option String := none
  output : Option String := none
  dialect : Option Dialect := some .flow
  searched : List String := []
  options : Options := {}
  deriving DecidableEq

/-- Why there are no settings: help was asked for, or the words are refused. -/
inductive Stop where
  | help
  | usage (e : UsageError)
  deriving DecidableEq

/-- The settings taken so far, which of them were given, and the words that no option takes. -/
structure Draft where
  settings : Settings := {}
  given : List Setting := []
  extra : List String := []
  deriving DecidableEq

/-- The value in a text joined to a setting: a double dash stands for none. -/
def joinedValue (text : String) : Option String := if text = "--" then none else some text

/-- The settings after one more is given; the last value counts, searched directories add up. -/
def Settings.give (s : Settings) (setting : Setting) (value : Option String) :
    Except UsageError Settings :=
  match setting, value with
  | .schema, _ => .ok { s with schema := value }
  | .output, _ => .ok { s with output := value }
  | .search, _ => .ok { s with searched := s.searched ++ value.toList }
  | .dialect, none => .ok { s with dialect := none }
  | .dialect, some name =>
    match Dialect.ofName? name with
    | some d => .ok { s with dialect := some d }
    | none => .error (.invalidDialect name)

namespace Draft

/-- The draft with a word that no option takes. -/
def leave (d : Draft) (word : String) : Draft := { d with extra := d.extra ++ [word] }

/-- The draft after a setting with its value. -/
def accept (d : Draft) (setting : Setting) (value : Option String) : Except Stop Draft :=
  match d.settings.give setting value with
  | .ok settings => .ok { d with settings := settings, given := d.given ++ [setting] }
  | .error e => .error (.usage e)

/-- The draft with the options changed. -/
def withOptions (d : Draft) (options : Options) : Draft :=
  { d with settings := { d.settings with options := options } }

/-- The draft after a switch. -/
def turnOn (d : Draft) : Switch → Except Stop Draft
  | .help => .error .help
  | .alwaysQualify => .ok (d.withOptions { d.settings.options with alwaysQualify := true })
  | .embedEnums => .ok (d.withOptions { d.settings.options with embedEnums := true })

/-- Where the letters behind the short help option lead.  They are short options themselves: help
may stand among them again, and a setting ends them.  All of them are read before help is given. -/
def helpCluster : List Char → List Token → Stop
  | ['h'], _ => .help
  | 'h' :: letters, ts => helpCluster letters ts
  | ['I'], .value _ :: _ => .help
  | ['I'], _ => .usage (.expectedValue .search)
  | 'I' :: _, _ => .help
  | letters, _ => .usage (.ignoredValue .help (String.ofList letters))

/-- The draft after all tokens, taken from left to right. -/
def take : Draft → List Token → Except Stop Draft
  | d, [] => .ok d
  | d, .value word :: ts => take (d.leave word) ts
  | d, .unknown word :: ts => take (d.leave word) ts
  | d, .separator :: ts => take (d.leave "--") ts
  | d, .option (.switch s) :: ts =>
    match d.turnOn s with
    | .ok d => take d ts
    | .error stop => .error stop
  | d, .option (.setting s) :: .value word :: ts =>
    match d.accept s (some word) with
    | .ok d => take d ts
    | .error stop => .error stop
  | _, .option (.setting s) :: _ => .error (.usage (.expectedValue s))
  | _, .joined (.switch .help) .short text :: ts => .error (helpCluster text.toList ts)
  | _, .joined (.switch s) _ text :: _ => .error (.usage (.ignoredValue s text))
  | d, .joined (.setting s) _ text :: ts =>
    match d.accept s (joinedValue text) with
    | .ok d => take d ts
    | .error stop => .error stop

/-- The required settings that were not given. -/
def missing (d : Draft) : List Setting := [.schema, .output].filter (· ∉ d.given)

/-- The settings, once nothing is missing and nothing is left over. -/
def settle (d : Draft) : Except Stop Settings :=
  if d.missing ≠ [] then .error (.usage (.missing d.missing))
  else if d.extra ≠ [] then .error (.usage (.unrecognized d.extra))
  else .ok d.settings

end Draft

/-- The settings that the words of a command line ask for. -/
def Settings.ofWords (words : List String) : Except Stop Settings :=
  match tokens words with
  | .error e => .error (.usage e)
  | .ok ts =>
    match Draft.take {} ts with
    | .error s => .error s
    | .ok d => d.settle

end SchemaTypes.Command
