import Elevation.Text

/-! The texts of scalars. In a scalar of several lines a single line end between two lines of text
is read as a space, and blank lines between them are read as line ends. In double quotes escapes are
replaced first, and lines are folded afterwards, which leaves escaped characters alone. The header
of a block scalar says whether lines are folded, how far the text is indented beyond the node around
it, and what becomes of the line ends behind the text. -/

namespace Elevation.Yaml.Text

def trimStart (line : List Char) : List Char := line.dropWhile Text.isSpace

def trimEnd (line : List Char) : List Char := (line.reverse.dropWhile Text.isSpace).reverse

/-- The line without a carriage return at its end. -/
def dropReturn (line : List Char) : List Char :=
  if line.getLast? = some '\r' then line.dropLast else line

def foldRest (gap : List Char) : List (List Char) → List Char
  | [] => []
  | [last] => gap ++ trimStart last
  | line :: rest =>
    match trimStart (trimEnd (dropReturn line)) with
    | [] => if gap = ['\n'] then '\n' :: foldRest gap rest else foldRest ['\n'] rest
    | text => gap ++ text ++ foldRest [' '] rest

def fold (text : List Char) : List Char :=
  match text.splitOn '\n' with
  | [] => []
  | [line] => line
  | first :: rest => trimEnd (dropReturn first) ++ foldRest [' '] rest

def isReserved (c : Char) : Bool := "\t,%|>@\x60".toList.contains c

def plain (source : List Char) : Option (List Char) :=
  if (source.head?.map isReserved).getD false then none else some (fold source)

def joinQuotes : List Char → List Char
  | [] => []
  | '\'' :: '\'' :: rest => '\'' :: joinQuotes rest
  | c :: rest => c :: joinQuotes rest

def singleQuoted (source : List Char) : Option (List Char) :=
  if source.length < 2 || source.getLast? ≠ some '\'' then none
  else some (joinQuotes (fold (source.drop 1).dropLast))

end Elevation.Yaml.Text

/-! Scalars in double quotes. They are kept as code points and 16-bit units in between, because an
escape can stand for half of a character. -/

namespace Elevation.Yaml.Text.DoubleQuoted

/-- A piece of the text between the quotes. An escaped line end leaves nothing but the right to drop
the white space behind it. -/
inductive Piece where
  | plain (c : Char)
  | escaped (code : Nat)
  | joined
  deriving DecidableEq, Repr

inductive State where
  | text
  | escape
  | hex (left value : Nat)
  deriving DecidableEq, Repr

def escapes : List (Char × Nat) :=
  [('0', 0), ('a', 7), ('b', 8), ('t', 9), ('\t', 9), ('n', 10), ('v', 11), ('f', 12), ('r', 13),
   ('e', 27), (' ', 32), ('"', 34), ('/', 47), ('\\', 92), ('N', 0x85), ('_', 0xa0),
   ('L', 0x2028), ('P', 0x2029)]

def hexLength? : Char → Option Nat
  | 'x' => some 2
  | 'u' => some 4
  | 'U' => some 8
  | _ => none

def hexValue? (c : Char) : Option Nat :=
  if c.isDigit then some (c.toNat - 48)
  else if 'a' ≤ c ∧ c ≤ 'f' then some (c.toNat - 87)
  else if 'A' ≤ c ∧ c ≤ 'F' then some (c.toNat - 55)
  else none

/-- The text behind the opening quote, in pieces. The last character has to be a quote; it counts
even if a backslash stands in front of it. -/
def pieces : State → List Char → Option (List Piece)
  | _, [] => none
  | .text, c :: rest =>
    if c = '\\' then pieces .escape rest
    else if rest = [] then (if c = '"' then some [] else none)
    else (pieces .text rest).map (.plain c :: ·)
  | .escape, c :: rest =>
    if c = '\n' then (pieces .text rest).map (.joined :: ·)
    else if c = '\r' ∧ rest.head? = some '\n' then pieces .escape rest
    else
      match hexLength? c, escapes.lookup c with
      | some length, _ => pieces (.hex length 0) rest
      | none, some code =>
        if rest = [] then (if c = '"' then some [.escaped code] else none)
        else (pieces .text rest).map (.escaped code :: ·)
      | none, none => none
  | .hex left value, c :: rest =>
    match hexValue? c with
    | none => none
    | some digit =>
      let value := 16 * value + digit
      if 1 < left then pieces (.hex (left - 1) value) rest
      else if 0x10ffff < value then none
      else (pieces .text rest).map (.escaped value :: ·)

/-- What folding has to remember: white space that is dropped if the line ends behind it, the number
of line ends since the last text less one, or that white space is to be dropped. -/
inductive Fold where
  | held (spaces : List Nat)
  | ended (blankLines : Nat)
  | joined
  deriving DecidableEq, Repr

def Fold.release : Fold → List Nat
  | held spaces => spaces
  | ended 0 => [32]
  | ended (n + 1) => List.replicate (n + 1) 10
  | joined => []

def foldPieces : Fold → List Piece → List Nat
  | f, [] => f.release
  | f, .escaped code :: rest => f.release ++ code :: foldPieces (.held []) rest
  | f, .joined :: rest => f.release ++ foldPieces .joined rest
  | f, .plain c :: rest =>
    if c = '\r' ∧ rest.head? = some (.plain '\n') then foldPieces f rest
    else if c = '\n' then
      match f with
      | .ended n => foldPieces (.ended (n + 1)) rest
      | _ => foldPieces (.ended 0) rest
    else if c = ' ' ∨ c = '\t' then
      match f with
      | .held spaces => foldPieces (.held (spaces ++ [c.toNat])) rest
      | f => foldPieces f rest
    else f.release ++ c.toNat :: foldPieces (.held []) rest

def isHigh (n : Nat) : Bool := 0xd800 ≤ n && n < 0xdc00

def isLow (n : Nat) : Bool := 0xdc00 ≤ n && n < 0xe000

/-- Joins the halves of characters. A half that stands alone becomes a replacement character. -/
def joinUnits : List Nat → List Char
  | [] => []
  | [n] => [if isHigh n || isLow n then '\uFFFD' else Char.ofNat n]
  | n :: m :: rest =>
    if isHigh n && isLow m then
      Char.ofNat (0x10000 + (n - 0xd800) * 1024 + (m - 0xdc00)) :: joinUnits rest
    else (if isHigh n || isLow n then '\uFFFD' else Char.ofNat n) :: joinUnits (m :: rest)

def decode (source : List Char) : Option (List Char) :=
  match source with
  | [] => none
  | _ :: rest => (pieces .text rest).map fun found => joinUnits (foldPieces (.held []) found)

end Elevation.Yaml.Text.DoubleQuoted

/-! Block scalars. -/

namespace Elevation.Yaml.Text

inductive Chomp where
  | clip
  | strip
  | keep
  deriving DecidableEq, Repr

structure BlockHeader where
  folded : Bool
  /-- The indentation beyond that of the node around, 0 if the first line of the text sets it. -/
  indent : Nat
  chomp : Chomp
  deriving DecidableEq, Repr

structure BlockLine where
  indent : Nat
  text : List Char
  deriving DecidableEq, Repr

namespace BlockHeader

def readIndicators (h : BlockHeader) : List Char → Option BlockHeader
  | [] => some h
  | c :: rest =>
    if h.chomp = .clip && (c = '-' || c = '+') then
      readIndicators { h with chomp := if c = '-' then .strip else .keep } rest
    else if h.indent = 0 && '0' < c && c ≤ '9' then
      readIndicators { h with indent := c.toNat - 48 } rest
    else none

def read : List Char → Option BlockHeader
  | [] => none
  | mode :: rest => readIndicators ⟨mode = '>', 0, .clip⟩ rest

end BlockHeader

namespace BlockLine

def ofLine (line : List Char) : BlockLine :=
  let text := line.dropWhile (· = ' ')
  ⟨line.length - text.length, text⟩

def isBlank (l : BlockLine) : Bool := l.text = [] || l.text = ['\r']

def extra (trim : Nat) (l : BlockLine) : List Char := List.replicate (l.indent - trim) ' '

end BlockLine

def literalLines (trim : Nat) (lines : List BlockLine) : List Char :=
  ['\n'].intercalate (lines.map fun l => l.extra trim ++ dropReturn l.text)

/-- The lines of a folded block scalar. `gap` is what separates them from the text before, and
`more` says whether the line before was indented further than the text. -/
def foldedLines (trim : Nat) : (gap : List Char) → (more : Bool) → List BlockLine → List Char
  | _, _, [] => []
  | gap, more, l :: rest =>
    let text := dropReturn l.text
    if trim < l.indent || text.head? = some '\t' then
      let gap :=
        if gap = [' '] then ['\n'] else if !more && gap = ['\n'] then ['\n', '\n'] else gap
      gap ++ l.extra trim ++ text ++ foldedLines trim ['\n'] true rest
    else if text = [] then
      if gap = ['\n'] then '\n' :: foldedLines trim gap more rest
      else foldedLines trim ['\n'] more rest
    else gap ++ text ++ foldedLines trim [' '] false rest

def countToText (lines : List BlockLine) : Nat := (lines.reverse.dropWhile BlockLine.isBlank).length

def countToIndented (trim : Nat) (start : Nat) (lines : List BlockLine) : Nat :=
  start + ((lines.drop start).reverse.dropWhile fun l => l.indent ≤ trim).length

def chompText (chomp : Chomp) (trim : Nat) (text : List Char) (rest : List BlockLine) : List Char :=
  match chomp with
  | .strip => text
  | .clip => text ++ ['\n']
  | .keep =>
    let text := text ++ rest.flatMap fun l => '\n' :: l.extra trim
    if text.getLast? = some '\n' then text else text ++ ['\n']

/-- The text of a block scalar inside a node that is indented by `outer`. The text must be indented,
unless it is the whole document. -/
def block (header : BlockHeader) (outer : Nat) (atRoot : Bool) (source : List Char) :
    Option (List Char) :=
  let lines := if source = [] then [] else (source.splitOn '\n').map BlockLine.ofLine
  let count := countToText lines
  if count = 0 then
    some (if header.chomp = .keep && lines ≠ [] then List.replicate (max 1 (lines.length - 1)) '\n'
      else [])
  else
    let leading := lines.takeWhile BlockLine.isBlank
    match lines.drop leading.length with
    | [] => none
    | first :: _ =>
      let least := outer + header.indent
      let least :=
        if header.indent = 0 then leading.foldl (fun n l => max n l.indent) least else least
      let trim := if header.indent = 0 then first.indent else least
      if first.indent < least || trim = 0 && !atRoot then none
      else
        let count := countToIndented trim count lines
        let body := (lines.take count).drop leading.length
        if body.any fun l => dropReturn l.text ≠ [] && l.indent < trim then none
        else
          let text :=
            (leading.flatMap fun l => l.extra trim ++ ['\n']) ++
            if header.folded then foldedLines trim [] false body else literalLines trim body
          some (chompText header.chomp trim text (lines.drop count))

end Elevation.Yaml.Text
