import Mathlib.Data.List.Induction
import SchemaTypes.Proofs.Chunks
import SchemaTypes.Proofs.LastEntry
import SchemaTypes.Proofs.Pass

/-!
# Proofs/Parameter — which parameters are accepted, and what the others are refused for

The entries that a parameter spells are put into a table before they are looked at.  Its names stand
in the order of their first entries (`isFirst_keys_ofList`), and its values are those of the last
(`get?_ofList_eq_some_iff`).  So a key is met where it first stands and judged by what is said of it
last: `parse_decides_grammar`.

Whether an entry is refused does not depend on the switches so far (`failure?_set`), so a refusal is
the first one in the table, and without one each switch ends as its own entry says
(`isOn_of_foldlM`).
-/

namespace SchemaTypes

/-! ## Tables filled pair by pair -/

namespace Table

variable {α : Type} {pairs : List (String × α)} {key : String} {value : α}

theorem ofList_concat (pairs : List (String × α)) (p : String × α) :
    ofList (pairs ++ [p]) = (ofList pairs).insert p.1 p.2 :=
  List.foldl_concat ..

theorem map_fst_put (name : String) (value : α) : ∀ es : List (String × α),
    (put name value es).map Prod.fst
      = if name ∈ es.map Prod.fst then es.map Prod.fst else es.map Prod.fst ++ [name]
  | [] => rfl
  | (key, old) :: es => by
      by_cases h : key = name
      · simp [put, h]
      · simp only [put, if_neg h, List.map_cons, map_fst_put name value es, List.mem_cons,
          Ne.symm h, false_or]
        split <;> rfl

/-- A name that is new comes last; any other keeps its place. -/
theorem keys_insert (t : Table α) (name : String) (value : α) :
    (t.insert name value).keys = if name ∈ t.keys then t.keys else t.keys ++ [name] :=
  map_fst_put name value t.entries

theorem mem_keys_ofList : key ∈ (ofList pairs).keys ↔ key ∈ pairs.map Prod.fst := by
  induction pairs using List.reverseRecOn with
  | nil => rfl
  | append_singleton pairs p ih =>
    rw [ofList_concat, keys_insert, List.map_append, List.mem_append, ← ih]
    split <;> grind

theorem nodup_keys_ofList (pairs : List (String × α)) : (ofList pairs).keys.Nodup := by
  induction pairs using List.reverseRecOn with
  | nil => exact List.nodup_nil
  | append_singleton pairs p ih =>
    rw [ofList_concat, keys_insert]
    split
    · exact ih
    · exact List.nodup_append.mpr ⟨ih, List.nodup_singleton _, by grind⟩

/-- The first name with a property is the first among the pairs. -/
theorem isFirst_keys_ofList {p : String → Prop} :
    IsFirst p (ofList pairs).keys key ↔ IsFirst p (pairs.map Prod.fst) key := by
  induction pairs using List.reverseRecOn with
  | nil => rfl
  | append_singleton pairs last ih =>
    rw [ofList_concat, keys_insert, List.map_append]
    split
    · next old =>
      -- The name has a place already, so it has the property there too.
      rw [ih]
      exact (isFirst_concat_of_old fun _ => mem_keys_ofList.mp old).symm
    · rw [isFirst_append, isFirst_append, ih]
      simp only [mem_keys_ofList]
      rfl

/-- The value under a name is that of the last pair with the name. -/
theorem get?_ofList_eq_some_iff :
    (ofList pairs).get? key = some value ↔ IsLast (·.1 = key) pairs (key, value) := by
  induction pairs using List.reverseRecOn with
  | nil => simp [ofList, IsLast]
  | append_singleton pairs last ih =>
    rw [ofList_concat, get?_insert, isLast_append, isLast_singleton]
    split
    · next here => grind
    · next there => grind

theorem find?_eq_some_iff_mem {es : List (String × α)} (nodup : (es.map Prod.fst).Nodup) :
    find? key es = some value ↔ (key, value) ∈ es := by
  induction es with
  | nil => simp [find?]
  | cons e es ih =>
    obtain ⟨fresh, nodup⟩ := List.nodup_cons.mp nodup
    have absent (h : e.1 = key) : (key, value) ∉ es := fun hmem =>
      fresh (h ▸ List.mem_map_of_mem (f := Prod.fst) hmem)
    rw [find?, List.mem_cons, ← ih nodup]
    grind

end Table

namespace Options

/-! ## Switches and what is said of them -/

/-- The switches, each under its key. -/
inductive Switch where
  | alwaysQualify
  | embedEnums
  deriving DecidableEq

/-- The key by which a parameter names a switch. -/
def Switch.key : Switch → String
  | .alwaysQualify => "always_qualify_type_names"
  | .embedEnums => "embed_enums"

/-- Whether a switch is on. -/
def isOn (options : Options) : Switch → Bool
  | .alwaysQualify => options.alwaysQualify
  | .embedEnums => options.embedEnums

/-- The options with one switch turned on or off. -/
def turn (options : Options) : Switch → Bool → Options
  | .alwaysQualify, b => { options with alwaysQualify := b }
  | .embedEnums, b => { options with embedEnums := b }

theorem Switch.key_injective : Function.Injective Switch.key := by
  intro s t
  cases s <;> cases t <;> decide

theorem isOn_turn (options : Options) (s t : Switch) (b : Bool) :
    (options.turn s b).isOn t = if t = s then b else options.isOn t := by
  cases s <;> cases t <;> rfl

/-- The words for on and off. -/
def words : Bool → List String
  | true => ["", "true", "1", "yes"]
  | false => ["false", "0", "no"]

/-- A value is a word for on or off, each letter of it in either case. -/
def Means (value : String) (b : Bool) : Prop :=
  ∃ word ∈ words b, List.Forall₂ (fun c l => c = l ∨ c = l.toUpper) value.toList word.toList

/-- What has a given lower case: that letter itself and its upper case. -/
theorem toLower_eq_iff {c l : Char} (h : l.isUpper = false) :
    c.toLower = l ↔ c = l ∨ c = l.toUpper := by
  -- In numbers, either case is 32 away from the other, and all that are no letters stay.
  have other := of_decide_eq_false h
  delta Char.toLower Char.toUpper
  simp only [ge_iff_le, UInt32.le_iff_toNat_le] at other ⊢
  split <;> split <;> simp only [Char.ext_iff, ← UInt32.toNat_inj, UInt32.toNat_add,
    UInt32.toNat_sub] <;> simp_all <;> omega

theorem map_toLower_eq_iff : ∀ {ls : List Char}, (∀ l ∈ ls, l.isUpper = false) → ∀ {cs : List Char},
    cs.map Char.toLower = ls ↔ List.Forall₂ (fun c l => c = l ∨ c = l.toUpper) cs ls
  | [], _, cs => by simp
  | l :: ls, h, cs => by
      obtain ⟨hl, hls⟩ := List.forall_mem_cons.mp h
      simp only [List.map_eq_cons_iff, toLower_eq_iff hl, map_toLower_eq_iff hls,
        List.forall₂_cons_right_iff]
      grind

theorem means_iff {value : String} {b : Bool} :
    Means value b ↔ String.ofList (value.toList.map Char.toLower) ∈ words b := by
  have lower : ∀ word ∈ words b, ∀ l ∈ word.toList, l.isUpper = false := by
    have all : (words b).all (fun word => word.toList.all fun l => !l.isUpper) = true := by
      cases b <;> decide
    simpa [List.all_eq_true] using all
  constructor
  · rintro ⟨word, hword, spelt⟩
    rwa [(map_toLower_eq_iff (lower word hword)).mpr spelt, String.ofList_toList]
  · intro h
    exact ⟨_, h, (map_toLower_eq_iff (lower _ h)).mp String.toList_ofList.symm⟩

/-- A value has the truth that it means. -/
theorem truth?_eq_some_iff {value : String} {b : Bool} : truth? value = some b ↔ Means value b := by
  rw [means_iff, truth?]
  cases b <;> simp only [words] <;> grind

/-! ## One entry -/

theorem set_of_truth {s : Switch} {value : String} {b : Bool} (h : truth? value = some b)
    (options : Options) : options.set s.key value = .ok (options.turn s b) := by
  cases s <;> simp [set, Switch.key, turn, h]

theorem set_of_no_truth {s : Switch} {value : String} (h : truth? value = none)
    (options : Options) : options.set s.key value = .error (.invalidValue s.key value) := by
  cases s <;> simp [set, Switch.key, h]

theorem set_of_unknown {key : String} (unknown : ∀ s : Switch, key ≠ s.key) (options : Options)
    (value : String) : options.set key value = .error (.unknownKey key) := by
  have hqualify : key ≠ "always_qualify_type_names" := unknown .alwaysQualify
  have hembed : key ≠ "embed_enums" := unknown .embedEnums
  rw [set, if_neg hqualify, if_neg hembed]

theorem exists_key_or_forall_ne (key : String) :
    (∃ s : Switch, key = s.key) ∨ ∀ s : Switch, key ≠ s.key := by
  rw [← not_exists]
  exact Classical.em _

/-- An entry is refused for its key if that is none of a switch, and else for its value. -/
theorem set_eq_error_iff {options : Options} {key value : String} {e : Error} :
    options.set key value = .error e ↔
      ((∀ s : Switch, key ≠ s.key) ∧ e = .unknownKey key) ∨
        ∃ s : Switch, key = s.key ∧ truth? value = none ∧ e = .invalidValue s.key value := by
  obtain ⟨s, rfl⟩ | unknown := exists_key_or_forall_ne key
  · cases htruth : truth? value with
    | none =>
      rw [set_of_no_truth htruth]
      refine ⟨fun h => .inr ⟨s, rfl, rfl, (Except.error.inj h).symm⟩, ?_⟩
      rintro (⟨unknown, -⟩ | ⟨t, ht, -, rfl⟩)
      · exact (unknown s rfl).elim
      · rw [← ht]
    | some b =>
      rw [set_of_truth htruth]
      refine ⟨nofun, ?_⟩
      rintro (⟨unknown, -⟩ | ⟨-, -, none, -⟩)
      · exact (unknown s rfl).elim
      · exact nomatch none
  · rw [set_of_unknown unknown]
    refine ⟨fun h => .inl ⟨unknown, (Except.error.inj h).symm⟩, ?_⟩
    rintro (⟨-, rfl⟩ | ⟨s, known, -⟩)
    · rfl
    · exact (unknown s known).elim

/-- Whether an entry is refused, and why, does not depend on the switches so far. -/
theorem failure?_set (options : Options) (key value : String) :
    failure? (options.set key value) = failure? (({} : Options).set key value) := by
  ext e
  rw [failure?_eq_some_iff, failure?_eq_some_iff, set_eq_error_iff, set_eq_error_iff]

theorem exists_of_set {options next : Options} {key value : String}
    (h : options.set key value = .ok next) :
    ∃ s b, key = Switch.key s ∧ truth? value = some b ∧ next = options.turn s b := by
  obtain ⟨s, rfl⟩ | unknown := exists_key_or_forall_ne key
  · cases htruth : truth? value with
    | none =>
      rw [set_of_no_truth htruth] at h
      exact nomatch h
    | some b =>
      rw [set_of_truth htruth] at h
      exact ⟨s, b, rfl, rfl, (Except.ok.inj h).symm⟩
  · rw [set_of_unknown unknown] at h
    exact nomatch h

/-- Over entries with distinct keys, a switch ends as its entry says, or as it was before. -/
theorem isOn_of_foldlM (s : Switch) : ∀ {es : List (String × String)} {options last : Options},
    (es.map Prod.fst).Nodup → es.foldlM (fun options e => options.set e.1 e.2) options = .ok last →
      last.isOn s = ((Table.find? s.key es).bind truth?).getD (options.isOn s)
  | [], options, last, _, h => by
      obtain rfl : options = last := Except.ok.inj h
      rfl
  | (key, value) :: es, options, last, distinct, h => by
      obtain ⟨fresh, nodup⟩ := List.nodup_cons.mp distinct
      rw [List.foldlM_cons] at h
      cases hset : options.set key value with
      | error e =>
        rw [hset] at h
        exact nomatch h
      | ok next =>
        rw [hset] at h
        have later : es.foldlM (fun options e => options.set e.1 e.2) next = .ok last := h
        obtain ⟨t, b, rfl, htruth, rfl⟩ := exists_of_set hset
        rw [isOn_of_foldlM s nodup later, isOn_turn, Table.find?]
        by_cases hs : s = t
        · subst hs
          rw [if_pos rfl, if_pos rfl, Table.find?_eq_none_iff.mpr fresh, Option.bind_some, htruth]
          rfl
        · rw [if_neg hs, if_neg fun same => hs (Switch.key_injective same).symm]

/-! ## All entries -/

/-- The last entry with a key has a value. -/
def LastValue (entries : List (String × String)) (key value : String) : Prop :=
  IsLast (·.1 = key) entries (key, value)

/-- A key is one of a switch, and its last value says on or off. -/
def Accepts (entries : List (String × String)) (key : String) : Prop :=
  (∃ s : Switch, key = s.key) ∧ ∃ value b, LastValue entries key value ∧ Means value b

/-- A key is refused: it is none of a switch, or its last value says neither on nor off. -/
inductive Offends (entries : List (String × String)) (key : String) : Prop
  | unknown : (∀ s : Switch, key ≠ s.key) → Offends entries key
  | invalid {value : String} : LastValue entries key value → (∀ b, ¬Means value b) →
      Offends entries key

/-- What a refusal tells: the first key that is refused, with its last value if the key is known. -/
inductive Reports (entries : List (String × String)) : Error → Prop
  | unknown {key : String} : IsFirst (Offends entries) (entries.map Prod.fst) key →
      (∀ s : Switch, key ≠ s.key) → Reports entries (.unknownKey key)
  | invalid {s : Switch} {value : String} :
      IsFirst (Offends entries) (entries.map Prod.fst) s.key → LastValue entries s.key value →
      Reports entries (.invalidValue s.key value)

/-- What is said of a switch: its last value, or nothing, which leaves it off. -/
inductive Says (entries : List (String × String)) (s : Switch) : Bool → Prop
  | last {value : String} {b : Bool} : LastValue entries s.key value → Means value b →
      Says entries s b
  | nothing : s.key ∉ entries.map Prod.fst → Says entries s false

section Entries

variable {entries : List (String × String)} {key value : String}

theorem mem_entries_iff : (key, value) ∈ (Table.ofList entries).entries ↔
    LastValue entries key value := by
  rw [← Table.find?_eq_some_iff_mem (Table.nodup_keys_ofList entries)]
  exact Table.get?_ofList_eq_some_iff

theorem LastValue.unique {other : String} (h : LastValue entries key value)
    (h' : LastValue entries key other) : value = other := by
  rw [LastValue, ← Table.get?_ofList_eq_some_iff] at h h'
  exact Option.some.inj (h.symm.trans h')

/-- An entry of the table is refused exactly when its key is. -/
theorem failure?_set_ne_none_iff (last : LastValue entries key value) :
    failure? (({} : Options).set key value) ≠ none ↔ Offends entries key := by
  rw [← exists_error_iff]
  simp only [set_eq_error_iff]
  constructor
  · rintro ⟨e, ⟨unknown, -⟩ | ⟨s, -, none, -⟩⟩
    · exact .unknown unknown
    · refine .invalid last fun b means => ?_
      rw [truth?_eq_some_iff.mpr means] at none
      exact nomatch none
  · rintro (unknown | ⟨last', invalid⟩)
    · exact ⟨_, .inl ⟨unknown, rfl⟩⟩
    · obtain rfl := last.unique last'
      obtain ⟨s, known⟩ | unknown := exists_key_or_forall_ne key
      · refine ⟨_, .inr ⟨s, known, ?_, rfl⟩⟩
        exact Option.eq_none_iff_forall_ne_some.mpr fun b h => invalid b (truth?_eq_some_iff.mp h)
      · exact ⟨_, .inl ⟨unknown, rfl⟩⟩

theorem not_offends_iff (last : LastValue entries key value) :
    ¬Offends entries key ↔ Accepts entries key := by
  constructor
  · intro fine
    refine ⟨(exists_key_or_forall_ne key).resolve_right fun h => fine (.unknown h), value, ?_⟩
    by_contra invalid
    exact fine (.invalid last fun b means => invalid ⟨b, last, means⟩)
  · rintro ⟨⟨s, rfl⟩, other, b, last', means⟩ (unknown | ⟨last'', invalid⟩)
    · exact unknown s rfl
    · exact invalid b (last'.unique last'' ▸ means)

/-- The first key that is refused is that of the first entry of the table that is. -/
theorem isFirst_offends_iff : IsFirst (Offends entries) (entries.map Prod.fst) key ↔
    ∃ value, IsFirst (fun e => failure? (({} : Options).set e.1 e.2) ≠ none)
      (Table.ofList entries).entries (key, value) := by
  have refused : ∀ e ∈ (Table.ofList entries).entries,
      (failure? (({} : Options).set e.1 e.2) ≠ none ↔ Offends entries e.1) :=
    fun e h => failure?_set_ne_none_iff (mem_entries_iff.mp h)
  rw [← Table.isFirst_keys_ofList, Table.keys, isFirst_map]
  simp only [isFirst_congr refused]
  constructor
  · rintro ⟨⟨key, value⟩, rfl, first⟩
    exact ⟨value, first⟩
  · rintro ⟨value, first⟩
    exact ⟨(key, value), rfl, first⟩

end Entries

/-! ## The whole parameter -/

variable {parameter : String}

theorem failure?_parse (parameter : String) : failure? (parse parameter)
    = (Table.ofList (chunks parameter)).entries.findSome? fun e =>
        failure? (({} : Options).set e.1 e.2) :=
  failure?_foldlM (fun options e => failure?_set options e.1 e.2) _ _

theorem parse_eq_error_iff {e : Error} :
    parse parameter = .error e ↔ Reports (chunks parameter) e := by
  rw [← failure?_eq_some_iff, failure?_parse, findSome?_eq_some_iff_isFirst]
  constructor
  · rintro ⟨⟨key, value⟩, first, failed⟩
    have firstKey := isFirst_offends_iff.mpr ⟨value, first⟩
    rw [failure?_eq_some_iff, set_eq_error_iff] at failed
    obtain ⟨unknown, rfl⟩ | ⟨s, rfl, -, rfl⟩ := failed
    · exact .unknown firstKey unknown
    · exact .invalid firstKey (mem_entries_iff.mp first.mem.1)
  · rintro (⟨firstKey, unknown⟩ | ⟨firstKey, last⟩)
    · obtain ⟨value, first⟩ := isFirst_offends_iff.mp firstKey
      refine ⟨_, first, ?_⟩
      rw [failure?_eq_some_iff, set_eq_error_iff]
      exact .inl ⟨unknown, rfl⟩
    · obtain ⟨value, first⟩ := isFirst_offends_iff.mp firstKey
      obtain rfl := last.unique (mem_entries_iff.mp first.mem.1)
      refine ⟨_, first, ?_⟩
      obtain ⟨e, failed⟩ := Option.ne_none_iff_exists'.mp first.mem.2
      obtain ⟨unknown, -⟩ | ⟨t, ht, -, rfl⟩ :=
        set_eq_error_iff.mp (failure?_eq_some_iff.mp failed)
      · exact (unknown _ rfl).elim
      · rw [failed, ← ht]

theorem exists_parse_eq_ok_iff : (∃ options, parse parameter = .ok options) ↔
    ∀ key ∈ (chunks parameter).map Prod.fst, Accepts (chunks parameter) key := by
  rw [← failure?_eq_none_iff, failure?_parse, List.findSome?_eq_none_iff]
  constructor
  · intro accepted key hkey
    obtain ⟨⟨key, value⟩, hentry, rfl⟩ := List.mem_map.mp (Table.mem_keys_ofList.mpr hkey)
    have last := mem_entries_iff.mp hentry
    rw [← not_offends_iff last, ← failure?_set_ne_none_iff last, not_not]
    exact accepted _ hentry
  · rintro accepted ⟨key, value⟩ hentry
    have last := mem_entries_iff.mp hentry
    have hkey := Table.mem_keys_ofList.mp (List.mem_map_of_mem (f := Prod.fst) hentry)
    have fine : ¬Offends (chunks parameter) key := (not_offends_iff last).mpr (accepted key hkey)
    rwa [← failure?_set_ne_none_iff last, not_not] at fine

theorem says_of_parse {options : Options} (h : parse parameter = .ok options) (s : Switch) :
    Says (chunks parameter) s (options.isOn s) := by
  have accepted := exists_parse_eq_ok_iff.mp ⟨options, h⟩
  rw [isOn_of_foldlM s (Table.nodup_keys_ofList _) h]
  by_cases hkey : s.key ∈ (chunks parameter).map Prod.fst
  · obtain ⟨-, value, b, last, means⟩ := accepted s.key hkey
    have found : Table.find? s.key (Table.ofList (chunks parameter)).entries = some value :=
      Table.get?_ofList_eq_some_iff.mpr last
    rw [found, Option.bind_some, truth?_eq_some_iff.mpr means]
    exact .last last means
  · have absent := Table.find?_eq_none_iff.mpr (mt Table.mem_keys_ofList.mp hkey)
    rw [absent]
    cases s <;> exact .nothing hkey

/-- A message quotes a text. -/
def Quotes (message text : String) : Prop :=
  ∃ before after, message = before ++ "'" ++ text ++ "'" ++ after

theorem quotes_of_eq {message text : String} (before after : String)
    (h : message = before ++ "'" ++ text ++ ("'" ++ after)) : Quotes message text :=
  ⟨before, after, h.trans String.append_assoc.symm⟩

theorem quotes_unknownKey (key : String) : Quotes (Error.unknownKey key).message key :=
  quotes_of_eq "Unknown option "
    ". Supported options: ['always_qualify_type_names', 'embed_enums']" rfl

theorem quotes_invalidKey (key value : String) :
    Quotes (Error.invalidValue key value).message key := by
  refine quotes_of_eq ("Invalid boolean value '" ++ value ++ "' for option ") "" ?_
  have joined : "Invalid boolean value '" ++ value ++ "' for option " ++ "'"
      = "Invalid boolean value '" ++ value ++ "' for option '" := String.append_assoc
  rw [joined]
  rfl

theorem quotes_invalidValue (key value : String) :
    Quotes (Error.invalidValue key value).message value := by
  refine quotes_of_eq "Invalid boolean value " (" for option '" ++ key ++ "'") ?_
  have joined : "'" ++ (" for option '" ++ key ++ "'") = "' for option '" ++ key ++ "'" := by
    rw [← String.append_assoc, ← String.append_assoc]
    rfl
  rw [joined, ← String.append_assoc, ← String.append_assoc]
  rfl

/-- Every parameter spells one list of entries.  It is accepted exactly when every key in the list
is one of a switch and has, last, a value for on or off; each switch then ends as is last said of
it, or off when nothing is said.  Else the first key that does not pass is told, with its last value
if that is what does not pass: a value that another one follows is neither heeded nor told. -/
theorem parse_decides_grammar (parameter : String) :
    ∃ entries, (∀ es, Spells parameter es ↔ es = entries) ∧
      ((∃ options, parse parameter = .ok options) ↔
        ∀ key ∈ entries.map Prod.fst, Accepts entries key) ∧
      (∀ options, parse parameter = .ok options → ∀ s, Says entries s (options.isOn s)) ∧
      (∀ e, parse parameter = .error e ↔ Reports entries e) ∧
      (∀ key, Quotes (Error.unknownKey key).message key) ∧
      ∀ key value, Quotes (Error.invalidValue key value).message key ∧
        Quotes (Error.invalidValue key value).message value := by
  refine ⟨chunks parameter, fun es => spells_iff, exists_parse_eq_ok_iff,
    fun options h s => says_of_parse h s, fun e => parse_eq_error_iff, quotes_unknownKey, ?_⟩
  exact fun key value => ⟨quotes_invalidKey key value, quotes_invalidValue key value⟩

/-- Of two values for one key the last is told, ahead of an unknown key between them; and a value
that says neither on nor off does no harm where another one follows. -/
theorem parse_decides_grammar_overridden :
    (parse " embed_enums = maybe,,=1,colour,\u00a0embed_enums=a=b " =
        .error (.invalidValue "embed_enums" "a=b") ∧
      Reports [("embed_enums", "maybe"), ("colour", ""), ("embed_enums", "a=b")]
        (.invalidValue "embed_enums" "a=b")) ∧
    parse "embed_enums=maybe, embed_enums=Yes" = .ok { embedEnums := true } ∧
      Says [("embed_enums", "maybe"), ("embed_enums", "Yes")] .embedEnums true := by
  obtain ⟨entries, spelt, -, -, told, -⟩ :=
    parse_decides_grammar " embed_enums = maybe,,=1,colour,\u00a0embed_enums=a=b "
  obtain rfl := (spelt _).mp (spells_iff.mpr rfl)
  have refused : parse " embed_enums = maybe,,=1,colour,\u00a0embed_enums=a=b " =
      .error (.invalidValue "embed_enums" "a=b") := rfl
  refine ⟨⟨refused, (told _).mp refused⟩, ?_⟩
  obtain ⟨entries, spelt, -, said, -⟩ := parse_decides_grammar "embed_enums=maybe, embed_enums=Yes"
  obtain rfl := (spelt _).mp (spells_iff.mpr rfl)
  have accepted : parse "embed_enums=maybe, embed_enums=Yes" = .ok { embedEnums := true } := rfl
  exact ⟨accepted, said _ accepted .embedEnums⟩

end Options

end SchemaTypes
