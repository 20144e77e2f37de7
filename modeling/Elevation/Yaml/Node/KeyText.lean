import Elevation.Number
import Elevation.Text
import Elevation.Yaml.Node

/-! The text of a collection that is used as a key: the collection written in flow style, on one
line if it fits. -/

namespace Elevation.Yaml.Node

def lineLimit : Nat := 80

def escape? (c : Char) : Option (List Char) :=
  match c with
  | '"' => some ['\\', '"']
  | '\\' => some ['\\', '\\']
  | '\n' => some ['\\', 'n']
  | '\t' => some ['\\', 't']
  | '\r' => some ['\\', 'r']
  | '\x08' => some ['\\', 'b']
  | '\x0c' => some ['\\', 'f']
  | '\x00' => some ['\\', '0']
  | '\x07' => some ['\\', 'a']
  | '\x0b' => some ['\\', 'v']
  | '\x1b' => some ['\\', 'e']
  | c => if c.toNat < 32 then some ('\\' :: 'x' :: Text.hexText c.toNat) else none

def inDoubleQuotes (text : List Char) : List Char :=
  '"' :: text.flatMap (fun c => (escape? c).getD [c]) ++ ['"']

def inSingleQuotes (text : List Char) : List Char :=
  '\'' :: text.flatMap (fun c => if c = '\'' then ['\'', '\''] else [c]) ++ ['\'']

/-- Single quotes are used for a text that holds double quotes alone. -/
def inQuotes (text : List Char) : List Char :=
  if text.contains '"' && !text.contains '\'' then inSingleQuotes text else inDoubleQuotes text

def isControl (c : Char) : Bool :=
  c.toNat < 9 || (0x0b ≤ c.toNat && c.toNat < 0x20) || (0x7f ≤ c.toNat && c.toNat < 0xa0)

def breaksPlain : List Char → Bool
  | a :: b :: rest =>
    (a = ':' || a = '\n') && (b = ' ' || b = '\t') || (a = ' ' || a = '\t') && b = '\n' ||
      (a = ' ' || a = '\t' || a = '\n') && b = '#' || breaksPlain (b :: rest)
  | _ => false

/-- Whether a text can be written as a plain scalar in a flow collection and is read back as
text. -/
def isPlainText (version : Version) (text : List Char) : Bool :=
  let starts := match text with
    | [] => false
    | [c] => c ≠ '?' && c ≠ '-'
    | a :: b :: _ => !((a = '?' || a = '-') && (b = ' ' || b = '\t'))
  let first := !(text.head?.map ("\n\t ,[]\x7b\x7d#&*!|>'\"%@\x60".toList.contains ·)).getD true
  let last := !(text.getLast?.map ("\n\t :-".toList.contains ·)).getD true
  starts && first && last && !breaksPlain text &&
    !text.any ("[]\x7b\x7d,".toList.contains ·) &&
    Scalar.ofPlain version false text = Scalar.ofList text

def textOfString (version : Version) (style : Style) (text : List Char) : List Char :=
  if style = .doubleQuoted || text.any isControl then inDoubleQuotes text
  else
    match style with
    | .singleQuoted => inSingleQuotes text
    | .plain => if isPlainText version text then text else inQuotes text
    | _ => inQuotes text

def baseMarks : Version → List (List Char × Nat)
  | .v12 => [(['0', 'o'], 8), (['0', 'x'], 16)]
  | .v11 => [(['0', 'b'], 2), (['0', 'x'], 16), (['0'], 8)]

def base? (version : Version) (source : List Char) : Option (List Char × Nat) :=
  let digits := (Numeric.splitSign source).2
  (baseMarks version).find? fun (mark, _) =>
    mark.isPrefixOf digits && mark.length < digits.length &&
      (mark.length = 2 || digits.all fun c => Numeric.isOctalDigit c || c = '_')

/-- How many places of a fraction have to be written: all of them, if the last is zero. -/
def placesOf (source : List Char) : Nat :=
  let places := ((source.dropWhile (· ≠ '.')).drop 1).filter (· ≠ '_')
  if places.getLast? = some '0' then places.length else 0

def padPlaces (places : Nat) (text : List Char) : List Char :=
  let present := ((text.dropWhile (· ≠ '.')).drop 1).length
  let point := if places = 0 || text.contains '.' then [] else ['.']
  text ++ point ++ List.replicate (places - present) '0'

def textOfDecimal (source : List Char) : Number → List Char
  | .infinite negative => (if negative then "-.inf" else ".inf").toList
  | .nan => ".nan".toList
  | n =>
    let text := if n = Number.zero true then "-0".toList else n.text.toList
    if source.any fun c => c = 'e' || c = 'E' then n.scientific.toList
    else if text.contains 'e' then text
    else padPlaces (placesOf source) text

/-- The text of a number. The base of an integer, the presence of an exponent and zeros at the end
of a fraction are kept from its source. -/
def textOfNumber (version : Version) (source : List Char) (n : Number) : List Char :=
  match base? version source, n.integer? with
  | some (mark, base), some (negative, size) =>
    (if negative && 0 < size then ['-'] else []) ++ mark ++ Nat.toDigits base size
  | _, _ => textOfDecimal source n

/-- The text of a scalar. Names that are written as they were read keep their spelling. -/
def textOfScalar (version : Version) (style : Style) (source : List Char) : Scalar → List Char
  | .null => if Scalar.isNullText source then source else "null".toList
  | .boolean _ => source
  | .number n => textOfNumber version source n
  | .string text => textOfString version style text.toList
  | .date => source
  | .bytes _ => source
  | .merge => "<<".toList

def textOfTag (tag : String) : String :=
  if tag.startsWith Scalar.tagBase then "!!" ++ (tag.drop Scalar.tagBase.length).toString
  else if tag.startsWith "!" then tag
  else "!<" ++ tag ++ ">"

def textOfMarks (own : String) (m : Marks) : List Char :=
  let anchor := m.anchor.map ("&" ++ ·)
  let tag := m.tag.map fun tag => if tag = "!" && own ≠ "" then "!!" ++ own else textOfTag tag
  (" ".intercalate (anchor.toList ++ tag.toList)).toList

def behindMarks (marks text : List Char) : List Char :=
  if marks = [] then text else marks ++ ' ' :: text

def addCommas : List (List Char) → List (List Char)
  | [] => []
  | [last] => [last]
  | item :: rest => (item ++ [',']) :: addCommas rest

def inBrackets (opening closing : Char) (indent : Nat) (items : List (List Char)) : List Char :=
  let lines := addCommas items
  let width := lines.foldl (fun n line => n + Text.Utf8.unitCount line + 2) 2
  if lines = [] then [opening, closing]
  else if width > lineLimit || lines.any (·.contains '\n') then
    let spaces := List.replicate indent ' '
    opening :: (lines.flatMap fun line => '\n' :: ' ' :: ' ' :: spaces ++ line) ++
      '\n' :: spaces ++ [closing]
  else [opening, ' '] ++ [' '].intercalate lines ++ [' ', closing]

def isMarkedKey : Node → Bool
  | scalar _ style _ _ => style = .block
  | reference _ => false
  | _ => true

def isCollection : Node → Bool
  | scalar _ _ _ _ => false
  | reference _ => false
  | _ => true

def textOfEntry (indent : Nat) (marked : Bool) (key : List Char) (collection : Bool)
    (value : Option (List Char)) : List Char :=
  match value with
  | none => if key = [] then ['?'] else if marked then '?' :: ' ' :: key else key
  | some value =>
    let head :=
      if marked then '?' :: ' ' :: key ++ '\n' :: List.replicate indent ' ' ++ [':']
      else key ++ [':']
    if value = [] then head
    else if !marked && collection && value.contains '\n' then
      head ++ '\n' :: List.replicate (indent + 2) ' ' ++ value
    else head ++ ' ' :: value

mutual

def innerText (version : Version) (indent : Nat) : Node → List Char
  | scalar marks style source value =>
    behindMarks (textOfMarks "" marks) (textOfScalar version style source value)
  | reference name => '*' :: name.toList
  | map marks kind entries =>
    behindMarks (textOfMarks "map" marks)
      (inBrackets '\x7b' '\x7d' indent (entryTexts version (indent + 2) (kind = .set) entries))
  | seq marks items =>
    behindMarks (textOfMarks "seq" marks)
      (inBrackets '[' ']' indent (itemTexts version (indent + 4) items))
  | pairs marks entries =>
    behindMarks (textOfMarks "seq" marks)
      (inBrackets '[' ']' indent (entryTexts version (indent + 4) false entries))

def itemTexts (version : Version) (indent : Nat) : List Node → List (List Char)
  | [] => []
  | item :: rest => innerText version indent item :: itemTexts version indent rest

def entryTexts (version : Version) (indent : Nat) (keysOnly : Bool) :
    List (Node × Option Node) → List (List Char)
  | [] => []
  | (key, value) :: rest =>
    let text := match value with
      | none => none
      | some node => if keysOnly then none else some (innerText version (indent + 2) node)
    textOfEntry indent key.isMarkedKey (innerText version (indent + 2) key)
      ((value.map isCollection).getD false) text :: entryTexts version indent keysOnly rest

end

/-- The text of a collection as a key. Its own anchor and tag are left out, and an alias is written
as it is. -/
def keyText (version : Version) : Node → String
  | map _ kind entries =>
    String.ofList (inBrackets '\x7b' '\x7d' 0 (entryTexts version 2 (kind = .set) entries))
  | seq _ items => String.ofList (inBrackets '[' ']' 0 (itemTexts version 4 items))
  | pairs _ entries => String.ofList (inBrackets '[' ']' 0 (entryTexts version 4 false entries))
  | scalar _ _ source _ => String.ofList source
  | reference name => "*" ++ name

end Elevation.Yaml.Node
