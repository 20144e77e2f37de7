import Elevation.Shell.Syntax

/-! The fields of a word. Values of unquoted parameters are split at blanks, quoted ones are kept in
one piece, and all arguments in quotes stay fields of their own. -/

namespace Elevation.Shell

structure Parameters where
  value : String → String
  args : List String
  separators : List Char

/-- What a piece of a word contributes to the fields: text that belongs to the current field, text
that may be split, or the border between two fields. -/
inductive Fragment where
  | kept (chars : List Char)
  | split (chars : List Char)
  | border
  deriving Repr

namespace Parameters

def separate (fragment : List Char → Fragment) (args : List String) : List Fragment :=
  (args.map fun arg => fragment arg.toList).intersperse .border

def joined (p : Parameters) (args : List String) : String :=
  (String.ofList (p.separators.take 1)).intercalate args

def list (p : Parameters) (quoted : Bool) (name : String) : List Fragment :=
  if !quoted then separate .split p.args
  else if name = "@" then separate .kept p.args
  else [.kept (p.joined p.args).toList]

mutual

def fragment (p : Parameters) (inFallback : Bool) : Piece → List Fragment
  | .text quoted chars => [if inFallback && !quoted then .split chars else .kept chars]
  | .parameter quoted name fallback =>
    if name = "@" || name = "*" then p.list quoted name
    else
      let value := (p.value name).toList
      if value = [] && !fallback.isEmpty then p.fragments true fallback
      else [if quoted then .kept value else .split value]

def fragments (p : Parameters) (inFallback : Bool) : List Piece → List Fragment
  | [] => []
  | piece :: rest => p.fragment inFallback piece ++ p.fragments inFallback rest

end

/-- Splits a value. The fields that are complete and the one that is still open are carried along;
blanks end a field and open none, any other separator ends a field even if it is empty. -/
def splitValue (p : Parameters) (complete : List String) (current : Option (List Char)) :
    List Char → List String × Option (List Char)
  | [] => (complete, current)
  | c :: rest =>
    if !p.separators.contains c then
      splitValue p complete (some (current.getD [] ++ [c])) rest
    else if c = ' ' || c = '\t' || c = '\n' then
      splitValue p (complete ++ (current.map String.ofList).toList) none rest
    else splitValue p (complete ++ [String.ofList (current.getD [])]) none rest

def assemble (p : Parameters) (complete : List String) (current : Option (List Char)) :
    List Fragment → List String
  | [] => complete ++ (current.map String.ofList).toList
  | .kept chars :: rest => assemble p complete (some (current.getD [] ++ chars)) rest
  | .split chars :: rest =>
    let (complete, current) := p.splitValue complete current chars
    assemble p complete current rest
  | .border :: rest =>
    assemble p (complete ++ (current.map String.ofList).toList) none rest

def fields (p : Parameters) (w : Word) : List String :=
  p.assemble [] none (p.fragments false w)

def text (p : Parameters) (w : Word) : String :=
  let part : Fragment → List Char
    | .kept chars => chars
    | .split chars => chars
    | .border => [' ']
  String.ofList ((p.fragments false w).flatMap part)

end Parameters

end Elevation.Shell
