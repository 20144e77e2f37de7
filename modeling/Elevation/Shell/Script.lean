import Elevation.Shell.Syntax

/-! Reading a script: its commands, from its words and operators. -/

namespace Elevation.Shell

def plainText? (w : Word) : Option String :=
  let part? (piece : Piece) : Option (List Char) :=
    match piece with
    | .text false chars => some chars
    | _ => none
  (w.mapM part?).map fun (parts : List (List Char)) => String.ofList parts.flatten

def keyword? (l : Lexeme) : Option String :=
  match l.item with
  | .word w => plainText? w
  | _ => none

def isSign (text : String) (l : Lexeme) : Bool :=
  match l.item with
  | .sign sign => sign = text
  | _ => false

def skipLines (ls : List Lexeme) : List Lexeme := ls.dropWhile (isSign "\n")

def skipEnds (ls : List Lexeme) : List Lexeme :=
  ls.dropWhile fun l => isSign "\n" l || isSign ";" l

def expect (name : String) (ls : List Lexeme) : Option (List Lexeme) :=
  match skipEnds ls with
  | l :: rest => if keyword? l = some name then some rest else none
  | [] => none

/-- The stream that an operator redirects by default. -/
def redirect? (stream : Option Nat) (sign : String) (target : Word) : Option Redirect :=
  let input := sign = "<" || sign = "<&"
  let stream := stream.getD (if input then 0 else 1)
  if sign = "<" || sign = ">" || sign = ">>" then some (.file stream target)
  else if sign = "<&" || sign = ">&" then
    (plainText? target).bind fun text => (text.toNat?).map (.duplicate stream)
  else none

def assignment? (w : Word) : Option (String × Word) :=
  let name := w.takeWhile fun piece =>
    match piece with
    | .text false [c] => isNameChar c
    | _ => false
  match w.drop name.length, plainText? name with
  | .text false ['='] :: value, some text =>
    if (text.toList.head?.map isNameStart).getD false then some (text, value) else none
  | _, _ => none

def simpleParts : List Lexeme → List (String × Word) × List Word × List Redirect × List Lexeme
  | [] => ([], [], [], [])
  | ⟨_, .word w⟩ :: rest =>
    match assignment? w, simpleParts rest with
    | some assignment, (assignments, words, redirects, after) =>
      (assignment :: assignments, words, redirects, after)
    | none, (assignments, words, redirects, after) =>
      -- An assignment behind the first word is a word like any other.
      let late := assignments.map fun (name, value) =>
        Piece.text false name.toList :: .text false ['='] :: value
      ([], w :: late ++ words, redirects, after)
  | ⟨_, .stream n⟩ :: ⟨_, .sign sign⟩ :: ⟨_, .word target⟩ :: rest =>
    let (assignments, words, redirects, after) := simpleParts rest
    (assignments, words, (redirect? (some n) sign target).toList ++ redirects, after)
  | ⟨line, .sign sign⟩ :: ⟨targetLine, .word target⟩ :: rest =>
    match redirect? none sign target with
    | some redirect =>
      let (assignments, words, redirects, after) := simpleParts rest
      (assignments, words, redirect :: redirects, after)
    | none => ([], [], [], ⟨line, .sign sign⟩ :: ⟨targetLine, .word target⟩ :: rest)
  | rest => ([], [], [], rest)

def redirects (ls : List Lexeme) : List Redirect × List Lexeme :=
  let (_, words, found, after) := simpleParts ls
  if words.isEmpty then (found, after) else ([], ls)

def wordsOf : List Lexeme → List Word × List Lexeme
  | ⟨_, .word w⟩ :: rest =>
    let (words, after) := wordsOf rest
    (w :: words, after)
  | rest => ([], rest)

mutual

/-- Commands up to one of the keywords given, or up to the end. -/
def readList : (fuel : Nat) → (stops : List String) → List Lexeme →
    Option (List Command × List Lexeme)
  | 0, _, _ => none
  | fuel + 1, stops, ls =>
    match skipEnds ls with
    | [] => some ([], [])
    | l :: rest =>
      if ((keyword? l).map stops.contains).getD false then some ([], l :: rest)
      else do
        let (first, after) ← readAndOr fuel (l :: rest)
        match after with
        | next :: more =>
          if isSign "&" next then
            let (others, after) ← readList fuel stops more
            return (.background first :: others, after)
          else if isSign ";" next || isSign "\n" next then
            let (others, after) ← readList fuel stops more
            return (first :: others, after)
          else none
        | [] => return ([first], [])

def readAndOr : (fuel : Nat) → List Lexeme → Option (Command × List Lexeme)
  | 0, _ => none
  | fuel + 1, ls => do
    let (first, after) ← readCommand fuel ls
    readRest fuel first after

def readRest : (fuel : Nat) → Command → List Lexeme → Option (Command × List Lexeme)
  | 0, _, _ => none
  | fuel + 1, first, ls =>
    match ls with
    | l :: rest =>
      if isSign "&&" l then do
        let (second, after) ← readCommand fuel (skipLines rest)
        readRest fuel (.both first second) after
      else if isSign "||" l then do
        let (second, after) ← readCommand fuel (skipLines rest)
        readRest fuel (.either first second) after
      else some (first, l :: rest)
    | [] => some (first, [])

def readCommand : (fuel : Nat) → List Lexeme → Option (Command × List Lexeme)
  | 0, _ => none
  | _, [] => none
  | fuel + 1, l :: rest =>
    let closed (body : Command) (after : List Lexeme) : Option (Command × List Lexeme) :=
      let (found, after) := redirects after
      some (if found.isEmpty then body else .group [body] found, after)
    match keyword? l with
    | some "for" =>
      match rest with
      | binding :: after =>
        match keyword? binding with
        | none => none
        | some name => do
          let (words, after) ← match skipLines after with
            | next :: more =>
              if keyword? next = some "in" then some (wordsOf more)
              else some ([[Piece.parameter true "@" []]], next :: more)
            | [] => none
          let (body, after) ← readList fuel ["done"] (← expect "do" after)
          closed (.forEach name words body) (← expect "done" after)
      | [] => none
    | some "while" => do
      let (condition, after) ← readList fuel ["do"] rest
      let (body, after) ← readList fuel ["done"] (← expect "do" after)
      closed (.loop false condition body) (← expect "done" after)
    | some "until" => do
      let (condition, after) ← readList fuel ["do"] rest
      let (body, after) ← readList fuel ["done"] (← expect "do" after)
      closed (.loop true condition body) (← expect "done" after)
    | some "if" => do
      let (branch, after) ← readBranch fuel rest
      closed branch after
    | some "\x7b" => do
      let (body, after) ← readList fuel ["\x7d"] rest
      closed (.group body []) (← expect "\x7d" after)
    | _ =>
      let (assignments, words, found, after) := simpleParts (l :: rest)
      if after.length < rest.length + 1 then some (.simple l.line assignments words found, after)
      else none

def readBranch : (fuel : Nat) → List Lexeme → Option (Command × List Lexeme)
  | 0, _ => none
  | fuel + 1, ls => do
    let (condition, after) ← readList fuel ["then"] ls
    let (body, after) ← readList fuel ["elif", "else", "fi"] (← expect "then" after)
    match skipEnds after with
    | l :: rest =>
      if keyword? l = some "elif" then
        let (otherwise, after) ← readBranch fuel rest
        return (.branch condition body [otherwise], after)
      else if keyword? l = some "else" then
        let (otherwise, after) ← readList fuel ["fi"] rest
        return (.branch condition body otherwise, ← expect "fi" after)
      else if keyword? l = some "fi" then return (.branch condition body [], rest)
      else none
    | [] => none

end

def script? (text : List Char) : Option (List Command) :=
  match readList (4 * text.length + 4) [] (lexemes (text.length + 1) 1 text) with
  | some (commands, []) => some commands
  | _ => none

end Elevation.Shell
