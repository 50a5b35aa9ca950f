import ContentStore.Json.Basic
import ContentStore.Keyed.Sorted
import ContentStore.Text.Ascii

/-!
# Files in content

A file in content is a reference to a stored file, or a new file whose bytes travel with the content.
A schema may accept files by media type and extension; letter case does not count.
-/

namespace ContentStore

/-- A file as content holds it. A new file keeps its list of bytes as it stands in the content. -/
inductive FileValue where
  | stored (id name mimeType : String)
  | new (name mimeType : String) (content : List Json)

namespace FileValue

def isByte : Json → Bool
  | .number n => n.toNat?.any fun value => value ≤ 255
  | _ => false

def byte? : Json → Option UInt8
  | .number n => n.toNat?.bind fun value => if value < 256 then some (UInt8.ofNat value) else none
  | _ => none

def onlyKeys (allowed : List String) (members : List (String × Json)) : Bool :=
  members.all fun (key, _) => allowed.contains key

/-- The file that a value stands for: a reference has exactly an id, a name and a media type, a new file
exactly a name, a media type and a list of bytes. -/
def ofJson? : Json → Option FileValue
  | .object members => do
      let name ← (members.lookup "name").bind Json.string?
      let mimeType ← (members.lookup "mimeType").bind Json.string?
      match members.lookup "id", members.lookup "content" with
      | some id, none =>
          if onlyKeys ["id", "name", "mimeType"] members then
            id.string?.map fun id => .stored id name mimeType
          else none
      | none, some (.array items) =>
          if onlyKeys ["name", "mimeType", "content"] members && items.all isByte then
            some (.new name mimeType items)
          else none
      | _, _ => none
  | _ => none

def name : FileValue → String
  | .stored _ name _ => name
  | .new name _ _ => name

def mimeType : FileValue → String
  | .stored _ _ mimeType => mimeType
  | .new _ mimeType _ => mimeType

/-- The bytes of a new file. There are none if an item of its list is not a byte; no file that content
holds is like that. -/
def bytes? : FileValue → Option (List UInt8)
  | .stored _ _ _ => none
  | .new _ _ content => content.mapM byte?

end FileValue

def fileReference (id name mimeType : String) : Json :=
  .object [("id", .string id), ("mimeType", .string mimeType), ("name", .string name)]

/-- The extension of a file name with its point, in small letters. Neither it nor what stands before it
may be empty. -/
def fileExtension? (name : String) : Option String :=
  match Text.splitLast '.' name.toList with
  | some (_ :: _, c :: rest) => some (String.ofList ('.' :: (c :: rest).map Char.toLower))
  | _ => none

/-- Whether a media type meets a pattern: any type, the type itself, or all types of one family. -/
def mimeMatches (pattern mimeType : String) : Bool :=
  pattern == "*/*" || Text.sameLetters pattern mimeType ||
    match Text.dropEnd ['/', '*'] pattern.toList, Text.splitFirst '/' mimeType.toList with
    | some family, some (actual, _) => Text.sameLetters (String.ofList family) (String.ofList actual)
    | _, _ => false

def accepts (accept : SortedMap String (List String)) (name mimeType : String) : Bool :=
  match fileExtension? name with
  | none => false
  | some ext =>
      accept.entries.any fun (pattern, extensions) =>
        mimeMatches pattern mimeType && extensions.any fun allowed => Text.sameLetters allowed ext

end ContentStore
