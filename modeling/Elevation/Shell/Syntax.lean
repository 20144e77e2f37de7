/-! Scripts of the shell: simple commands with assignments and redirections, lists, loops and
branches, and the words and operators that they are read from. Helpers and commands are often such
scripts, so that a run can be followed to its end. -/

namespace Elevation.Shell

/-- A part of a word: text, or the value of a parameter. The fallback stands in for an empty
value. -/
inductive Piece where
  | text (quoted : Bool) (chars : List Char)
  | parameter (quoted : Bool) (name : String) (fallback : List Piece)
  deriving Inhabited, Repr

abbrev Word := List Piece

inductive Redirect where
  | file (stream : Nat) (target : Word)
  | duplicate (stream source : Nat)
  deriving Repr

inductive Command where
  | simple (line : Nat) (assignments : List (String × Word)) (words : List Word)
      (redirects : List Redirect)
  | group (body : List Command) (redirects : List Redirect)
  | forEach (name : String) (words : List Word) (body : List Command)
  | loop (negated : Bool) (condition body : List Command)
  | branch (condition body otherwise : List Command)
  | both (first second : Command)
  | either (first second : Command)
  | background (body : Command)
  deriving Inhabited, Repr

inductive Item where
  | word (w : Word)
  | stream (number : Nat)
  | sign (text : String)
  deriving Repr

structure Lexeme where
  line : Nat
  item : Item
  deriving Repr

def isNameStart (c : Char) : Bool := c.isAlpha || c = '_'

def isNameChar (c : Char) : Bool := c.isAlphanum || c = '_'

def isSpecial (c : Char) : Bool := "@*#?$!-".toList.contains c || c.isDigit

def endsWord (c : Char) : Bool := " \t\n;&|<>()".toList.contains c

mutual

/-- The pieces of a word, or of its part between double quotes, and what follows. -/
def pieces : (fuel : Nat) → (quoted : Bool) → List Char → List Piece × List Char
  | 0, _, rest => ([], rest)
  | _, _, [] => ([], [])
  | fuel + 1, quoted, c :: rest =>
    let add (piece : Piece) (rest : List Char) : List Piece × List Char :=
      let (more, rest) := pieces fuel quoted rest
      (piece :: more, rest)
    if quoted && c = '"' then ([], rest)
    else if !quoted && endsWord c then ([], c :: rest)
    else if c = '$' then
      let (piece, rest) := parameter fuel quoted rest
      add piece rest
    else if c = '\\' then
      match rest with
      | [] => ([.text true ['\\']], [])
      | '\n' :: rest => pieces fuel quoted rest
      | d :: rest =>
        if quoted && !"$\x60\"\\".toList.contains d then add (.text true ['\\', d]) rest
        else add (.text true [d]) rest
    else if quoted then add (.text true [c]) rest
    else if c = '\'' then
      let inside := rest.takeWhile (· ≠ '\'')
      add (.text true inside) (rest.drop (inside.length + 1))
    else if c = '"' then
      let (inside, rest) := pieces fuel true rest
      let (more, rest) := pieces fuel quoted rest
      (if inside.isEmpty then (.text true [] :: more, rest) else (inside ++ more, rest))
    else add (.text false [c]) rest

def parameter : (fuel : Nat) → (quoted : Bool) → List Char → Piece × List Char
  | 0, quoted, rest => (.text quoted ['$'], rest)
  | fuel + 1, quoted, rest =>
    match rest with
    | '\x7b' :: rest =>
      let inside := rest.takeWhile (· ≠ '\x7d')
      let after := rest.drop (inside.length + 1)
      let name := match inside with
        | c :: _ => if isNameStart c then inside.takeWhile isNameChar else [c]
        | [] => []
      match inside.drop name.length with
      | ':' :: '-' :: fallback =>
        (.parameter quoted (String.ofList name) (pieces fuel quoted fallback).1, after)
      | _ => (.parameter quoted (String.ofList name) [], after)
    | c :: rest =>
      if isNameStart c then
        let name := (c :: rest).takeWhile isNameChar
        (.parameter quoted (String.ofList name) [], (c :: rest).drop name.length)
      else if isSpecial c then (.parameter quoted (String.ofList [c]) [], rest)
      else (.text quoted ['$'], c :: rest)
    | [] => (.text quoted ['$'], [])

end

def signs : List String := ["&&", "||", ">&", "<&", ">>", ";", "&", "|", "<", ">", "(", ")", "\n"]

def sign? (text : List Char) : Option String :=
  signs.find? fun sign => sign.toList.isPrefixOf text

def countLines (text : List Char) : Nat := text.count '\n'

def lexemes : (fuel : Nat) → (line : Nat) → List Char → List Lexeme
  | 0, _, _ => []
  | fuel + 1, line, text =>
    match text with
    | [] => []
    | c :: rest =>
      if c = ' ' || c = '\t' then lexemes fuel line rest
      else if c = '#' then lexemes fuel line (rest.dropWhile (· ≠ '\n'))
      else if c = '\\' && rest.head? = some '\n' then lexemes fuel (line + 1) (rest.drop 1)
      else
        match sign? text with
        | some sign =>
          let after := if sign = "\n" then line + 1 else line
          ⟨line, .sign sign⟩ :: lexemes fuel after (text.drop sign.length)
        | none =>
          let (word, after) := pieces (text.length + 1) false text
          let used := text.take (text.length - after.length)
          let item :=
            if used.all Char.isDigit && (after.head? = some '<' || after.head? = some '>') then
              Item.stream (used.foldl (fun n c => n * 10 + (c.toNat - 48)) 0)
            else .word word
          ⟨line, item⟩ :: lexemes fuel (line + countLines used) after

end Elevation.Shell
