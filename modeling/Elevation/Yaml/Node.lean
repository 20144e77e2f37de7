import Elevation.Text
import Elevation.Yaml.Scalar

/-! The directives in front of a document, which give a meaning to its tags, and its nodes: scalars
that have been read, collections, and aliases that have not yet been followed. A directive that is
not known, or that asks for an unknown version, is passed over. -/

namespace Elevation.Yaml

structure Directives where
  version : Version
  handles : List (String × String)
  deriving Repr

namespace Directives

def standard : Directives := ⟨.v12, [("!!", Scalar.tagBase)]⟩

def words : (fuel : Nat) → List Char → List String
  | 0, _ => []
  | fuel + 1, text =>
    match text.dropWhile Text.isSpace with
    | [] => []
    | text =>
      let word := text.takeWhile fun c => !Text.isSpace c
      String.ofList word :: words fuel (text.drop word.length)

def isVersion (text : String) : Bool :=
  let major := text.toList.takeWhile Char.isDigit
  match text.toList.drop major.length with
  | '.' :: minor => major ≠ [] && minor ≠ [] && minor.all Char.isDigit
  | _ => false

def add (d : Directives) (line : List Char) : Option Directives :=
  let line := (Text.trim (String.ofList line)).toList
  match words (line.length + 1) line with
  | ["%TAG", handle, meaning] => some { d with handles := (handle, meaning) :: d.handles }
  | "%TAG" :: _ => none
  | ["%YAML", version] =>
    if version = "1.1" then some { d with version := .v11 }
    else if version = "1.2" then some { d with version := .v12 }
    else if isVersion version then some d
    else none
  | "%YAML" :: _ => none
  | _ => some d

def unescape? (text : List Char) : Option (List Char) :=
  let rec bytes : List Char → List UInt8
    | '%' :: a :: b :: rest =>
      UInt8.ofNat (Numeric.digitValue a * 16 + Numeric.digitValue b) :: bytes rest
    | c :: rest => Text.Utf8.encodeChar c ++ bytes rest
    | [] => []
  let decoded := Text.Utf8.decode (bytes text)
  if Text.Utf8.encode decoded = bytes text then some decoded else none

/-- The meaning of a tag as it is written. A tag in angle brackets stands for itself, and so does
one with the primary handle; every other handle has to be known. -/
def tagName? (d : Directives) (source : List Char) : Option String :=
  match source with
  | ['!'] => some "!"
  | '!' :: '<' :: rest =>
    let name := String.ofList rest.dropLast
    if name = "!" || name = "!!" || rest.getLast? ≠ some '>' then none else some name
  | _ =>
    let suffix := (source.reverse.takeWhile (· ≠ '!')).reverse
    let handle := String.ofList (source.take (source.length - suffix.length))
    if suffix = [] then none
    else
      match d.handles.lookup handle with
      | some meaning => (unescape? suffix).map fun text => meaning ++ String.ofList text
      | none => if handle = "!" then some (String.ofList source) else none

end Directives

inductive Style where
  | plain
  | singleQuoted
  | doubleQuoted
  | block
  deriving DecidableEq, Repr

structure Marks where
  anchor : Option String
  tag : Option String
  deriving DecidableEq, Repr

namespace Marks

def none : Marks := ⟨.none, .none⟩

end Marks

inductive MapKind where
  | plain
  | set
  | ordered
  deriving DecidableEq, Repr

/-- `pairs` is a sequence of maps with one entry each. -/
inductive Node where
  | scalar (marks : Marks) (style : Style) (text : List Char) (value : Scalar)
  | reference (name : String)
  | map (marks : Marks) (kind : MapKind) (entries : List (Node × Option Node))
  | seq (marks : Marks) (items : List Node)
  | pairs (marks : Marks) (entries : List (Node × Option Node))
  deriving Inhabited, Repr

namespace Node

def marks : Node → Marks
  | scalar marks _ _ _ => marks
  | reference _ => Marks.none
  | map marks _ _ => marks
  | seq marks _ => marks
  | pairs marks _ => marks

/-- Keys that are equal as scalars. Collections and aliases are never equal to another key. -/
def sameKey : Node → Node → Bool
  | scalar _ _ _ a, scalar _ _ _ b => a.same b
  | _, _ => false

def isAbsent : Option Node → Bool
  | .none => true
  | some (scalar marks _ _ .null) => marks.tag.isNone
  | some _ => false

def entryOfItem : Node → Option (Node × Option Node)
  | map _ _ [] => some (scalar Marks.none .plain [] .null, .none)
  | map _ _ [entry] => some entry
  | map _ _ _ => .none
  | item => some (item, .none)

def hasRepeatedKey : List (Node × Option Node) → Bool
  | [] => false
  | (key, _) :: rest => rest.any (fun entry => key.sameKey entry.1) || hasRepeatedKey rest

def ofEntries (marks : Marks) (entries : List (Node × Option Node)) : Option Node :=
  if marks.tag = some (Scalar.tagBase ++ "set") then
    if entries.all fun entry => isAbsent entry.2 then some (map marks .set entries) else .none
  else some (map marks .plain entries)

def ofItems (marks : Marks) (items : List Node) : Option Node :=
  if marks.tag = some (Scalar.tagBase ++ "omap") then do
    let entries ← items.mapM entryOfItem
    if hasRepeatedKey entries then .none else some (map marks .ordered entries)
  else if marks.tag = some (Scalar.tagBase ++ "pairs") then
    (items.mapM entryOfItem).map (pairs marks)
  else some (seq marks items)

end Node

end Elevation.Yaml
