import TypeSketch.Inference
import TypeSketch.Name.Singular
import TypeSketch.Setting
import TypeSketch.Text.Blank

/-!
# Options

The settings of one run.  They are changed by mappings from option names to values; of several
spellings of one option the last counts.  A mapping with an unknown name is refused at once, and
values are checked in a fixed order, so that the first fault in that order is reported.
-/

namespace TypeSketch

inductive QuoteStyle
  | single
  | double
deriving DecidableEq

namespace QuoteStyle

def char : QuoteStyle → Char
  | .single => '\''
  | .double => '"'

def name : QuoteStyle → String
  | .single => "single"
  | .double => "double"

def all : List QuoteStyle := [.single, .double]

end QuoteStyle

/-- The order of the declarations behind the root. -/
inductive DeclarationOrder
  | discovery
  | dependency
deriving DecidableEq

namespace DeclarationOrder

def name : DeclarationOrder → String
  | .discovery => "discovery"
  | .dependency => "dependency"

def all : List DeclarationOrder := [.discovery, .dependency]

def ofName? (name : String) : Option DeclarationOrder :=
  all.find? (·.name == name)

/-- What is said of a name that no order has. -/
def unknownMessage (name : String) : String :=
  let shown := String.ofList (Text.shown name.toList)
  s!"Unknown declaration order: {shown}"

end DeclarationOrder

inductive OptionName
  | rootName
  | singularize
  | literalThreshold
  | nullAsOptional
  | indent
  | quote
  | extractObjects
  | maxDepth
  | declarationOrder
  | singularOverrides
deriving DecidableEq

namespace OptionName

def text : OptionName → String
  | .rootName => "root_name"
  | .singularize => "singularize"
  | .literalThreshold => "literal_threshold"
  | .nullAsOptional => "null_as_optional"
  | .indent => "indent"
  | .quote => "quote"
  | .extractObjects => "extract_objects"
  | .maxDepth => "max_depth"
  | .declarationOrder => "declaration_order"
  | .singularOverrides => "singular_overrides"

def all : List OptionName :=
  [.rootName, .singularize, .literalThreshold, .nullAsOptional, .indent, .quote, .extractObjects,
   .maxDepth, .declarationOrder, .singularOverrides]

/-- An underscore in front of each capital but a first one, dashes as underscores, and all in
lower case. -/
def snakeCase : List Char → List Char
  | [] => []
  | c :: rest =>
      Text.toLower ((c :: rest.flatMap fun d => if d.isUpper then ['_', d] else [d]).map
        fun d => if d = '-' then '_' else d)

/-- The option that a key of a mapping names, in any of its spellings. -/
def ofKey? (key : List Char) : Option OptionName :=
  all.find? fun n => n.text.toList = snakeCase key

end OptionName

/-- What can be wrong with options and the files they come from. -/
inductive ConfigFault
  | unknownOption (key : List Char)
  | notAMapping
  | blankRootName
  | notABoolean (option : OptionName)
  | notAnInteger (option : OptionName)
  | tooSmall (option : OptionName) (least : Nat) (value : Int)
  | unknownQuote (value : Setting)
  | unknownOrder (value : Setting)
  | badOverrides
  | notOptions (type : String)
  | unreadableFile (path : String)
  | fileNotAMapping (path : String)

namespace ConfigFault

def oneOf (option : OptionName) (names : List String) (value : Setting) : String :=
  let choices := ", ".intercalate names
  let given := String.ofList value.shown
  s!"{option.text} must be one of {choices}, got {given}"

def message : ConfigFault → String
  | .unknownOption key => s!"Unknown option: {String.ofList key}"
  | .notAMapping => "options must be a mapping"
  | .blankRootName => "root_name must be a non-empty string"
  | .notABoolean option => s!"{option.text} must be a boolean"
  | .notAnInteger option => s!"{option.text} must be an integer"
  | .tooSmall option least value => s!"{option.text} must be >= {least}, got {value}"
  | .unknownQuote value => oneOf .quote (QuoteStyle.all.map (·.name)) value
  | .unknownOrder value => oneOf .declarationOrder (DeclarationOrder.all.map (·.name)) value
  | .badOverrides => "singular_overrides must map strings to strings"
  | .notOptions type => s!"expected GenerateOptions, got {type}"
  | .unreadableFile path => s!"Failed to parse {path}"
  | .fileNotAMapping path => s!"{path} must contain a mapping at the root"

end ConfigFault

structure Options where
  /-- The name of the root type, before its suffix. -/
  rootName : String := "rootType"
  /-- Whether plural field names give singular type names. -/
  singularize : Bool := true
  /-- The most literals a kind may show before it is widened; none at zero. -/
  literalThreshold : Nat := 0
  /-- Whether a field that may be null is written as an optional one. -/
  nullAsOptional : Bool := false
  /-- The spaces in front of each field of a declaration. -/
  indent : Nat := 2
  quote : QuoteStyle := .single
  /-- Whether every object gets a declaration, also a small one. -/
  extractObjects : Bool := true
  /-- The greatest depth of the data that is accepted. -/
  maxDepth : Nat := 200
  order : DeclarationOrder := .discovery
  /-- Singulars by their plurals in lower case. -/
  overrides : List (String × String) := []
deriving DecidableEq

/-- A mapping whose keys have been recognised. -/
abbrev Changes := List (OptionName × Setting)

namespace Changes

/-- Recognises the keys of a mapping; the first unknown one is reported. -/
def ofEntries (entries : List (MapKey × Setting)) : Except ConfigFault Changes :=
  entries.mapM fun e =>
    match OptionName.ofKey? e.1.text with
    | some option => .ok (option, e.2)
    | none => .error (.unknownOption e.1.text)

/-- The last value for an option. -/
def get? (changes : Changes) (option : OptionName) : Option Setting :=
  (changes.reverse.find? fun c => c.1 = option).map (·.2)

end Changes

namespace Setting

def toRootName : Setting → Except ConfigFault String
  | .scalar (.str s) => if s.toList.all Text.isBlank then .error .blankRootName else .ok s
  | _ => .error .blankRootName

def toFlag (option : OptionName) : Setting → Except ConfigFault Bool
  | .scalar (.bool b) => .ok b
  | _ => .error (.notABoolean option)

def toCount (option : OptionName) (least : Nat) : Setting → Except ConfigFault Nat
  | .scalar (.int n) => if n < least then .error (.tooSmall option least n) else .ok n.toNat
  | _ => .error (.notAnInteger option)

def toQuote (s : Setting) : Except ConfigFault QuoteStyle :=
  match s with
  | .scalar (.str name) =>
      match QuoteStyle.all.find? (·.name == name) with
      | some q => .ok q
      | none => .error (.unknownQuote s)
  | _ => .error (.unknownQuote s)

def toOrder (s : Setting) : Except ConfigFault DeclarationOrder :=
  match s with
  | .scalar (.str name) =>
      match DeclarationOrder.ofName? name with
      | some o => .ok o
      | none => .error (.unknownOrder s)
  | _ => .error (.unknownOrder s)

/-- Pairs of strings, the first ones in lower case. -/
def toOverrides : Setting → Except ConfigFault (List (String × String))
  | .map entries => do
      let pairs ← entries.mapM fun
        | (.literal (.str plural), .scalar (.str singular)) => .ok (plural, singular)
        | _ => .error .badOverrides
      .ok (Name.lowerOverrides pairs)
  | _ => .error .badOverrides

end Setting

namespace Options

/-- The value of an option after the changes. -/
def pick {α : Type} (changes : Changes) (option : OptionName) (current : α)
    (read : Setting → Except ConfigFault α) : Except ConfigFault α :=
  match changes.get? option with
  | some s => read s
  | none => .ok current

/-- The options after the changes, checked in the order in which faults are reported. -/
def change (o : Options) (changes : Changes) : Except ConfigFault Options := do
  let rootName ← pick changes .rootName o.rootName Setting.toRootName
  let singularize ← pick changes .singularize o.singularize (Setting.toFlag .singularize)
  let nullAsOptional ← pick changes .nullAsOptional o.nullAsOptional
    (Setting.toFlag .nullAsOptional)
  let extractObjects ← pick changes .extractObjects o.extractObjects
    (Setting.toFlag .extractObjects)
  let literalThreshold ← pick changes .literalThreshold o.literalThreshold
    (Setting.toCount .literalThreshold 0)
  let indent ← pick changes .indent o.indent (Setting.toCount .indent 0)
  let maxDepth ← pick changes .maxDepth o.maxDepth (Setting.toCount .maxDepth 1)
  let quote ← pick changes .quote o.quote Setting.toQuote
  let order ← pick changes .declarationOrder o.order Setting.toOrder
  let overrides ← pick changes .singularOverrides o.overrides Setting.toOverrides
  pure { rootName, singularize, literalThreshold, nullAsOptional, indent, quote, extractObjects,
         maxDepth, order, overrides }

/-- The options with the settings of a mapping put over them. -/
def replace (o : Options) (entries : List (MapKey × Setting)) : Except ConfigFault Options := do
  let changes ← Changes.ofEntries entries
  o.change changes

/-- The defaults with the settings of a mapping put over them. -/
def ofSetting : Setting → Except ConfigFault Options
  | .map entries => ({} : Options).replace entries
  | _ => .error .notAMapping

/-- Whether literals are kept at all. -/
def tracksLiterals (o : Options) : Bool := 0 < o.literalThreshold

/-- What inference depends on. -/
def limits (o : Options) : Limits := ⟨o.literalThreshold, o.maxDepth⟩

end Options

end TypeSketch
