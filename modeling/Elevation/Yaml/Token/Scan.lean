import Elevation.Yaml.Token

/-! Scanning a YAML text into lexemes. The scanner knows how far the lines of a scalar have to be
indented, how deep it is inside flow collections, and whether a colon may follow directly. A scalar
that runs over several lines is one lexeme.

The only texts refused here are those that no later stage could accept: a closing bracket without an
open one, a flow collection whose lines are not indented enough, and text behind the header of a
block scalar. -/

namespace Elevation.Yaml

structure Scanner where
  need : Nat
  column : Nat
  depth : Nat
  /-- In a flow collection, whether a colon directly behind what was scanned marks a value. -/
  closed : Bool
  deriving DecidableEq, Repr

namespace Scanner

inductive Mode where
  | stream
  | blockStart
  | document
  | flow
  deriving DecidableEq, Repr

def start : Scanner := ⟨0, 0, 0, false⟩

structure Step where
  lexemes : List Lexeme
  mode : Mode
  scanner : Scanner
  rest : List Char
  deriving Repr

def Step.after (step : Step) (before : List Lexeme) : Step :=
  { step with lexemes := before ++ step.lexemes }

def isGap : Option Char → Bool
  | none => true
  | some c => c = ' ' || c = '\t' || c = '\n' || c = '\r'

def gapLength (cs : List Char) : Nat := (cs.takeWhile fun c => isGap (some c)).length

def isFlowMark : Option Char → Bool
  | none => false
  | some c => c = ',' || c = '[' || c = ']' || c = '\x7b' || c = '\x7d'

def isNameEnd (c : Char) : Bool := isGap (some c) || isFlowMark (some c)

def isTagChar (c : Char) : Bool :=
  c.isAlphanum || "-#;/?:@&=+$_.!~*'()".toList.contains c

def lexeme (kind : TokenKind) (text : List Char) : List Lexeme :=
  if text = [] then [] else [⟨kind, text⟩]

def restOfLine : List Char → List Char
  | [] => []
  | '\n' :: _ => []
  | '\r' :: '\n' :: _ => []
  | c :: rest => c :: restOfLine rest

def newline : List Char → List Lexeme × List Char
  | '\n' :: rest => ([⟨.newline, ['\n']⟩], rest)
  | '\r' :: '\n' :: rest => ([⟨.newline, ['\r', '\n']⟩], rest)
  | cs => ([], cs)

def spaces (cs : List Char) : List Lexeme × List Char :=
  (lexeme .space (cs.takeWhile Text.isSpace), cs.dropWhile Text.isSpace)

def indentOf (cs : List Char) : Nat := (cs.takeWhile (· = ' ')).length

def commentLine (cs : List Char) : List Lexeme × List Char :=
  let text := restOfLine cs
  (lexeme .comment text, cs.drop text.length)

def atLineEnd (cs : List Char) : Bool :=
  match cs.dropWhile Text.isSpace with
  | [] => true
  | '#' :: _ => true
  | '\n' :: _ => true
  | '\r' :: '\n' :: _ => true
  | _ => false

def isDocumentMark : List Char → Bool
  | '-' :: '-' :: '-' :: rest => isGap rest.head?
  | '.' :: '.' :: '.' :: rest => isGap rest.head?
  | _ => false

/-- Whether a scalar goes on in the line that begins here. Blank lines always belong to it. -/
def continues (need : Nat) (line : List Char) : Bool :=
  if need = 0 then !isDocumentMark line
  else
    match line.drop (indentOf line) with
    | '\n' :: _ => true
    | '\r' :: '\n' :: _ => true
    | _ => need ≤ indentOf line

/-- The length of a plain scalar: what was kept so far, and how much was looked at. Trailing white
space is kept only when more text follows. -/
def plainLength (inFlow : Bool) (need seen kept : Nat) : List Char → Nat
  | [] => kept
  | '\r' :: '\n' :: rest =>
    if rest.head? = some '#' || inFlow && isFlowMark rest.head? then kept
    else if continues need rest then plainLength inFlow need (seen + 2) kept rest
    else kept
  | c :: rest =>
    let next := rest.head?
    let stops := next = some '#' || inFlow && isFlowMark next
    if c = ':' then
      if isGap next || inFlow && isFlowMark next then kept
      else plainLength inFlow need (seen + 1) (seen + 1) rest
    else if c = '\n' then
      if stops then kept
      else if continues need rest then plainLength inFlow need (seen + 1) kept rest
      else kept
    else if Text.isSpace c then
      if stops then kept else plainLength inFlow need (seen + 1) kept rest
    else if c = '\r' then
      if stops then seen + 1 else plainLength inFlow need (seen + 1) (seen + 1) rest
    else if inFlow && isFlowMark (some c) then kept
    else plainLength inFlow need (seen + 1) (seen + 1) rest

def singleQuoteEnd? : (seen : Nat) → List Char → Option Nat
  | _, [] => none
  | seen, '\'' :: '\'' :: rest => singleQuoteEnd? (seen + 2) rest
  | seen, '\'' :: _ => some seen
  | seen, _ :: rest => singleQuoteEnd? (seen + 1) rest

def doubleQuoteEnd? : (seen : Nat) → List Char → Option Nat
  | _, [] => none
  | seen, '\\' :: _ :: rest => doubleQuoteEnd? (seen + 2) rest
  | seen, '"' :: _ => some seen
  | seen, _ :: rest => doubleQuoteEnd? (seen + 1) rest

/-- The distance to the first line end within `length` characters behind which a scalar does not go
on. -/
def brokenLine? (need : Nat) : (length seen : Nat) → List Char → Option Nat
  | 0, _, _ => none
  | _, _, [] => none
  | length + 1, seen, c :: rest =>
    if c = '\n' && !continues need rest then some seen else brokenLine? need length (seen + 1) rest

/-- The length of a quoted scalar, its quotes included. One that is broken off by a line that is not
indented enough ends with the line before. -/
def quotedLength (need : Nat) (cs : List Char) : Nat :=
  let body := cs.drop 1
  let close? := if cs.head? = some '\'' then singleQuoteEnd? 1 body else doubleQuoteEnd? 1 body
  match close? with
  | none => cs.length
  | some close =>
    match brokenLine? need (close - 1) 1 body with
    | none => close + 1
    | some line => if cs[line - 1]? = some '\r' then line - 1 else line

def blankLines (blank seen indent : Nat) : List Char → Nat × Nat
  | ' ' :: rest => blankLines blank (seen + 1) (indent + 1) rest
  | '\n' :: rest => blankLines (seen + 1) (seen + 1) 0 rest
  | '\r' :: '\n' :: rest => blankLines (seen + 2) (seen + 2) 0 rest
  | _ => (blank, indent)

def blockLines (need : Nat) : (atStart : Bool) → (seen kept : Nat) → List Char → Nat
  | atStart, seen, kept, [] => if atStart then kept else seen
  | atStart, seen, kept, c :: rest =>
    if atStart && !continues need (c :: rest) then kept
    else if c = '\n' then blockLines need true (seen + 1) (seen + 1) rest
    else blockLines need false (seen + 1) kept rest

def isSpareLine (indent : Nat) (line : List Char) : Bool :=
  let line := if line.getLast? = some '\r' then line.dropLast else line
  line.all (· = ' ') && line.length ≤ indent

/-- Drops spare lines, the last line first, but never the first line. -/
def dropSpareLines (indent : Nat) : List (List Char) → List (List Char)
  | last :: before :: more =>
    if isSpareLine indent last then dropSpareLines indent (before :: more)
    else last :: before :: more
  | lines => lines

def chompedLength (indent : Nat) (text : List Char) : Nat :=
  let lines := (text.splitOn '\n').reverse
  -- A text that ends its last line has an empty piece behind the line end.
  let lines := match lines with
    | [] :: before :: more => before :: more
    | _ => lines
  let kept := (dropSpareLines indent lines).map fun line => line.length + 1
  min (kept.foldl (fun n length => n + length) 0) text.length

/-- What follows a block scalar when a tab stands where its indentation should be. -/
def strayTabs (cs : List Char) : Nat :=
  let indent := indentOf cs
  if cs[indent]? = some '\t' then gapLength cs else 0

/-- The length of the block scalar that begins here, and the indentation its lines need. `explicit`
is the indentation that the header asks for beyond that of the parent. -/
def blockLength (need : Nat) (explicit : Option Nat) (keep : Bool) (cs : List Char) : Nat × Nat :=
  let (blank, indent) := blankLines 0 0 0 cs
  let need' :=
    if indent < need then need
    else match explicit with
      | none => indent
      | some extra => extra + (if need = 0 then 1 else need)
  let length := if indent < need then blank else blockLines need' true blank blank (cs.drop blank)
  let stray := strayTabs (cs.drop length)
  if 0 < stray then (length + stray, need')
  else if keep then (length, need')
  else (chompedLength indent (cs.take length), need')

def headerDemands : List Char → Option Nat × Bool
  | [] => (none, false)
  | c :: rest =>
    if c = '+' then ((headerDemands rest).1, true)
    else if '0' < c && c ≤ '9' then
      let later := headerDemands rest
      (some (later.1.getD (c.toNat - '1'.toNat)), later.2)
    else if c = '-' then headerDemands rest
    else (none, false)

def tagLength (cs : List Char) : Nat :=
  let rec suffix : (seen : Nat) → List Char → Nat
    | seen, '%' :: a :: b :: rest =>
      if Text.isHexDigit a && Text.isHexDigit b then suffix (seen + 3) rest else seen
    | seen, c :: rest => if isTagChar c then suffix (seen + 1) rest else seen
    | seen, [] => seen
  match cs with
  | '!' :: '<' :: rest =>
    let uri := rest.takeWhile fun c => !isGap (some c) && c ≠ '>'
    let close := if (rest.drop uri.length).head? = some '>' then 1 else 0
    uri.length + 2 + close
  | '!' :: rest => suffix 1 rest
  | _ => 0

def nameLength (cs : List Char) : Nat := (cs.takeWhile fun c => !isNameEnd c).length

/-- Tags, anchors and marks in front of a node, with the white space behind each. Every round takes
at least one character. -/
def properties : (fuel : Nat) → Scanner → List Char → List Lexeme × Scanner × List Char
  | 0, s, cs => ([], s, cs)
  | fuel + 1, s, cs =>
    let take (kind : TokenKind) (length : Nat) (s : Scanner) :=
      let (gap, rest) := spaces (cs.drop length)
      let (more, s, rest) := properties fuel s rest
      (⟨kind, cs.take length⟩ :: gap ++ more, s, rest)
    let mark (kind : TokenKind) (next : Option Char) :=
      if isGap next || 0 < s.depth && isFlowMark next then
        take kind 1
          (if s.depth = 0 then { s with need := s.column + 1 } else { s with closed := false })
      else ([], s, cs)
    match cs with
    | '!' :: _ => take .tag (tagLength cs) s
    | '&' :: _ => take .anchor (nameLength cs) s
    | '-' :: rest => mark .itemMark rest.head?
    | '?' :: rest => mark .keyMark rest.head?
    | ':' :: rest => mark .valueMark rest.head?
    | _ => ([], s, cs)

def propertyFuel : List Char → Nat
  | [] => 0
  | c :: rest => if "!&-?:".toList.contains c then rest.length + 1 else 0

def afterScalar (s : Scanner) : Mode := if 0 < s.depth then .flow else .document

def plain (s : Scanner) (cs : List Char) : Step :=
  let length := plainLength (0 < s.depth) s.need 0 0 cs
  ⟨[⟨.plain, cs.take length⟩], afterScalar s, s, cs.drop length⟩

def quoted (s : Scanner) (cs : List Char) : Step :=
  let length := quotedLength s.need cs
  let kind := if cs.head? = some '\'' then TokenKind.singleQuoted else .doubleQuoted
  ⟨[⟨kind, cs.take length⟩], afterScalar s, s, cs.drop length⟩

def blockStart (s : Scanner) (cs : List Char) : Step :=
  let mark (kind : TokenKind) (c : Char) (rest : List Char) : Step :=
    if isGap rest.head? then
      let (gap, after) := spaces rest
      let width := 1 + (rest.length - after.length)
      ⟨⟨kind, [c]⟩ :: gap, .blockStart, { s with need := s.column + 1, column := s.column + width },
        after⟩
    else ⟨[], .document, s, cs⟩
  match cs with
  | '-' :: rest => mark .itemMark '-' rest
  | '?' :: rest => mark .keyMark '?' rest
  | ':' :: rest => mark .valueMark ':' rest
  | _ => ⟨[], .document, s, cs⟩

def lineStart (s : Scanner) (cs : List Char) : Step :=
  if isDocumentMark cs then
    let s := { s with need := 0, column := 0 }
    if cs.head? = some '-' then ⟨[⟨.documentStart, cs.take 3⟩], .document, s, cs.drop 3⟩
    else ⟨[⟨.documentEnd, cs.take 3⟩], .stream, s, cs.drop 3⟩
  else
    let column := indentOf cs
    let rest := cs.drop column
    let need := if column < s.need && !isGap rest[1]? then column else s.need
    let step := blockStart { s with need := need, column := column } rest
    step.after (lexeme .space (cs.take column))

def directiveText (line : List Char) : List Char :=
  let rec before : (afterSpace : Bool) → List Char → List Char
    | _, [] => []
    | afterSpace, c :: rest =>
      if afterSpace && c = '#' then [] else c :: before (Text.isSpace c) rest
  ((before false line).reverse.dropWhile Text.isSpace).reverse

def stream (s : Scanner) (cs : List Char) : Step :=
  let (bom, cs) := match cs with
    | '\uFEFF' :: rest => ([(⟨.byteOrderMark, ['\uFEFF']⟩ : Lexeme)], rest)
    | _ => ([], cs)
  if cs.head? = some '%' then
    let text := directiveText (restOfLine cs)
    let (gap, rest) := spaces (cs.drop text.length)
    let (comment, rest) := commentLine rest
    ⟨bom ++ (⟨.directive, text⟩ : Lexeme) :: gap ++ comment, .stream, s, rest⟩
  else if atLineEnd cs then
    let (gap, rest) := spaces cs
    let (comment, rest) := commentLine rest
    let (line, rest) := newline rest
    ⟨bom ++ gap ++ comment ++ line, .stream, s, rest⟩
  else
    (lineStart s cs).after (bom ++ [⟨.documentBegin, []⟩])

def blockScalar (s : Scanner) (cs : List Char) : Option Step :=
  let header := cs.takeWhile fun c => !isGap (some c) && c ≠ '#'
  let (gap, rest) := spaces (cs.drop header.length)
  if !(atLineEnd rest) then none
  else
    let (comment, rest) := commentLine rest
    let (line, rest) := newline rest
    let (explicit, keep) := headerDemands (header.drop 1)
    let (length, need) := blockLength s.need explicit keep rest
    some ((lineStart { s with need := need } (rest.drop length)).after
      ((⟨.blockHeader, header⟩ : Lexeme) :: gap ++ comment ++ line ++
        [⟨.blockText, rest.take length⟩]))

def document (s : Scanner) (cs : List Char) : Option Step :=
  let (gap, rest) := spaces cs
  let (marks, s, rest) := properties (propertyFuel rest) s rest
  let before := gap ++ marks
  let add (step : Step) : Step := step.after before
  let endOfLine (rest : List Char) : Step :=
    let (comment, rest) := commentLine rest
    let (line, rest) := newline rest
    add ((lineStart s rest).after (comment ++ line))
  match rest with
  | [] => some (endOfLine [])
  | c :: more =>
    if c = '#' || c = '\n' || c = '\r' && more.head? = some '\n' then some (endOfLine rest)
    else if c = '\x7b' then
      some (add ⟨[⟨.flowMapStart, [c]⟩], .flow, { s with closed := false, depth := 1 }, more⟩)
    else if c = '[' then
      some (add ⟨[⟨.flowSeqStart, [c]⟩], .flow, { s with closed := false, depth := 1 }, more⟩)
    else if c = '\x7d' || c = ']' then none
    else if c = '*' then
      let length := nameLength rest
      some (add ⟨[⟨.reference, rest.take length⟩], .document, s, rest.drop length⟩)
    else if c = '"' || c = '\'' then some (add (quoted s rest))
    else if c = '|' || c = '>' then (blockScalar s rest).map add
    else some (add (plain s rest))

def flowGap : (fuel : Nat) → (indent : Option Nat) → List Char →
    List Lexeme × Option Nat × List Char
  | 0, indent, cs => ([], indent, cs)
  | fuel + 1, indent, cs =>
    let (line, rest) := newline cs
    if line = [] then
      let (gap, rest) := spaces rest
      if gap = [] then ([], indent, cs)
      else
        let (more, indent, rest) := flowGap fuel indent rest
        (gap ++ more, indent, rest)
    else
      let column := indentOf rest
      let (gap, after) := spaces (rest.drop column)
      let (more, indent, after) := flowGap fuel (some column) after
      (line ++ lexeme .space (rest.take column) ++ gap ++ more, indent, after)

def commas : (fuel : Nat) → Scanner → List Char → List Lexeme × Scanner × List Char
  | fuel + 1, s, ',' :: rest =>
    let (gap, rest) := spaces rest
    let (more, s, rest) := commas fuel { s with closed := false } rest
    (⟨.comma, [',']⟩ :: gap ++ more, s, rest)
  | _, s, cs => ([], s, cs)

def commaFuel (cs : List Char) : Nat := (cs.takeWhile fun c => c = ',' || Text.isSpace c).length

/-- Whether a line at this indentation may belong to the open flow collection. The bracket that
closes the outermost one may stand one column to the left. -/
def flowLineFits (s : Scanner) (indent : Nat) (line : List Char) : Bool :=
  let atClose := indent + 1 = s.need && s.depth = 1 &&
    (line.head? = some ']' || line.head? = some '\x7d')
  let outside := indent < s.need && line.head? ≠ some '#' || indent = 0 && isDocumentMark line
  !outside || atClose

def flow (s : Scanner) (cs : List Char) : Option Step :=
  let (gap, indent, rest) := flowGap (gapLength cs + 1) none cs
  let s := match indent with
    | some column => { s with column := column }
    | none => s
  if (indent.map fun column => flowLineFits s column rest) = some false then none
  else
    let (separators, s, rest) := commas (commaFuel rest) s rest
    let (marks, s, rest) := properties (propertyFuel rest) s rest
    let before := gap ++ separators ++ marks
    let add (step : Step) : Step := step.after before
    let closeAt (kind : TokenKind) (c : Char) (more : List Char) : Step :=
      let s := { s with closed := true, depth := s.depth - 1 }
      ⟨[⟨kind, [c]⟩], afterScalar s, s, more⟩
    let openAt (kind : TokenKind) (c : Char) (more : List Char) : Step :=
      ⟨[⟨kind, [c]⟩], .flow, { s with closed := false, depth := s.depth + 1 }, more⟩
    match rest with
    | [] => some (add ⟨[], .flow, s, []⟩)
    | c :: more =>
      if c = '\n' || c = '\r' && more.head? = some '\n' then some (add ⟨[], .flow, s, rest⟩)
      else if c = '#' then
        let (comment, rest) := commentLine rest
        some (add ⟨comment, .flow, s, rest⟩)
      else if c = '\x7b' then some (add (openAt .flowMapStart c more))
      else if c = '[' then some (add (openAt .flowSeqStart c more))
      else if c = '\x7d' then some (add (closeAt .flowMapEnd c more))
      else if c = ']' then some (add (closeAt .flowSeqEnd c more))
      else if c = '*' then
        let length := nameLength rest
        some (add ⟨[⟨.reference, rest.take length⟩], .flow, s, rest.drop length⟩)
      else if c = '"' || c = '\'' then some (add (quoted { s with closed := true } rest))
      else if c = ':' && (s.closed || isGap more.head? || more.head? = some ',') then
        let (gap, after) := spaces more
        some (add ⟨⟨.valueMark, [c]⟩ :: gap, .flow, { s with closed := false }, after⟩)
      else some (add (plain { s with closed := false } rest))

def step (mode : Mode) (s : Scanner) (cs : List Char) : Option Step :=
  match mode with
  | .stream => some (stream s cs)
  | .blockStart => some (blockStart s cs)
  | .document => document s cs
  | .flow => flow s cs

def run : (fuel : Nat) → Mode → Scanner → List Char → Option (List Lexeme)
  | _, _, _, [] => some []
  | 0, _, _, _ :: _ => none
  | fuel + 1, mode, s, c :: rest => do
    let done ← step mode s (c :: rest)
    let more ← run fuel done.mode done.scanner done.rest
    return done.lexemes ++ more

end Scanner

/-- The lexemes of a text. Of any two steps in a row one takes a character, except for two more at
the beginning and end of a document, so the fuel suffices. -/
def lexemes (text : List Char) : Option (List Lexeme) :=
  Scanner.run (4 * text.length + 4) .stream Scanner.start text

def tokens (text : List Char) : Option (List Token) :=
  (lexemes text).map (place Position.start)

end Elevation.Yaml
