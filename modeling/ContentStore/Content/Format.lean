import ContentStore.Content.Calendar
import ContentStore.Json.Basic
import ContentStore.Keyed.Sorted
import ContentStore.Text.Quoted

/-!
# Formats

A format refines the strings, numbers or objects that a definition admits. Formats are registered under
what they refine and an id; a format that is not registered refines nothing.
-/

namespace ContentStore

inductive FormatTarget where
  | string
  | number
  | jsonObject
  deriving DecidableEq

namespace FormatTarget

def name : FormatTarget → String
  | .string => "String"
  | .number => "Number"
  | .jsonObject => "JsonObject"

def ofName? (name : String) : Option FormatTarget :=
  [FormatTarget.string, .number, .jsonObject].find? fun target => target.name == name

end FormatTarget

/-- A named refinement: `reject` gives a message for a value that it does not admit. -/
structure Format where
  target : FormatTarget
  id : String
  reject : Json → Option String

/-- Registered formats, the latest first. -/
structure FormatRegistry where
  formats : List Format

namespace Format

def ofText (id : String) (condition : List Char → Bool) (message : String) : Format where
  target := .string
  id := id
  reject
    | .string s => if condition s.toList then none else some message
    | _ => some message

def plainDate : Format :=
  ofText "dev.collecta:String.PlainDate" Calendar.date
    "Invalid PlainDate: Must be a date in the format YYYY-MM-DD"

def plainTime : Format :=
  ofText "dev.collecta:String.PlainTime" Calendar.time
    "Invalid PlainTime: Must be a time in the format HH:MM[:SS[.fff]]"

def instant : Format :=
  ofText "dev.collecta:String.Instant" Calendar.instant
    "Invalid Instant: Must be an RFC 3339 timestamp with offset"

def markdown : Format where
  target := .string
  id := "dev.collecta:String.Markdown"
  reject _ := none

def integer : Format where
  target := .number
  id := "dev.collecta:Number.Integer"
  reject
    | .number n => if n.isWhole then none else some "Invalid Integer: Must be a whole number"
    | _ => some "Invalid Integer: Must be a whole number"

/-- Documents of a text editor, told by the type of their root node. -/
def richText : Format where
  target := .jsonObject
  id := "dev.collecta:JsonObject.RichText"
  reject value :=
    if (value.get? "type").bind Json.string? = some "doc" then none
    else some "Invalid RichText: Root node must have type \"doc\""

def builtins : List Format :=
  [plainDate, plainTime, instant, markdown, integer, richText]

end Format

namespace FormatRegistry

def empty : FormatRegistry := ⟨[]⟩

def get? (registry : FormatRegistry) (target : FormatTarget) (id : String) : Option Format :=
  registry.formats.find? fun format => format.target == target && format.id == id

def register (registry : FormatRegistry) (format : Format) : FormatRegistry :=
  ⟨format :: registry.formats.filter fun other =>
    !(other.target == format.target && other.id == format.id)⟩

def builtins : FormatRegistry :=
  Format.builtins.foldl register empty

def size (registry : FormatRegistry) : Nat :=
  registry.formats.length

def reject (registry : FormatRegistry) (target : FormatTarget) (id : String) (value : Json) :
    Option String :=
  (registry.get? target id).bind fun format => format.reject value

/-- The registry for a reader: its formats by target and id, sorted. -/
def text (registry : FormatRegistry) : String :=
  let names := registry.formats.map fun format => format.target.name ++ ":" ++ format.id
  let sorted := names.mergeSort fun a b => (compare a b).isLE
  "FormatRegistry \x7b formats: [" ++ String.intercalate ", " (sorted.map Text.quoted) ++ "] \x7d"

end FormatRegistry

end ContentStore
