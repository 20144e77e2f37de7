import Elevation.Yaml.Tree

/-! Building trees from tokens. The open nodes stand on a stack, the innermost first. Each token
either goes into the innermost node, opens a new one, or closes the innermost node and is looked at
again. Tokens that no node has a place for are refused. -/

namespace Elevation.Yaml

/-- An open node. Of a block collection the last entry is kept apart, and the entries before it,
like all entries of a flow collection, stand in reverse. -/
inductive Frame where
  | document (offset : Nat) (start : List Token) (value : Option Tree) (tail : List Token)
  | documentEnd (tail : List Token)
  | leaf (token : Token) (tail : List Token)
  | block (header : Token) (props : List Token)
  | map (offset indent : Nat) (before : List (Entry Tree)) (last : Entry Tree)
  | seq (offset indent : Nat) (before : List (Entry Tree)) (last : Entry Tree)
  | flow (opening : Token) (entries : List (Entry Tree)) (closing : List Token)
  deriving Repr

structure Builder where
  stack : List Frame
  keyLine : Bool
  parts : List Part
  deriving Repr

namespace Builder

def empty : Builder := ⟨[], false, []⟩

/-- What a token leads to: it has been taken, or it is looked at again by the node that is the
innermost now. -/
inductive Advance where
  | taken (b : Builder)
  | again (b : Builder)

/-! Closing the innermost node. -/

def asItem (e : Entry Tree) : Entry Tree :=
  match e.sep with
  | none => e
  | some sep =>
    if e.value.isSome || e.start.any (Token.isKind .keyMark) ||
        sep.any (Token.isKind .valueMark) then e
    else
      match e.key with
      | some key =>
        if key.isFlowing then ⟨e.start, e.explicit, none, none, some (key.addTail sep)⟩
        else ⟨e.start ++ sep, e.explicit, none, none, some key⟩
      | none => ⟨e.start ++ sep, e.explicit, none, none, none⟩

def flowEntries (opening : Token) (entries : List (Entry Tree)) : List (Entry Tree) :=
  if opening.kind = .flowSeqStart then (entries.map asItem).reverse else entries.reverse

def outerIndent : List Frame → Nat
  | .map _ indent _ _ :: _ => indent
  | .seq _ indent _ _ :: _ => indent
  | .flow opening _ _ :: _ => opening.indent
  | _ => 0

def isDocument : Frame → Bool
  | .document _ _ _ _ => true
  | _ => false

def treeOf (outer : List Frame) : Frame → Option Tree
  | .document _ _ _ _ => none
  | .documentEnd _ => none
  | .leaf token tail => some (.leaf token tail)
  | .block header props => some (.block header props [] (outerIndent outer))
  | .map offset indent before last => some (.map offset indent (last :: before).reverse)
  | .seq offset indent before last => some (.seq offset indent (last :: before).reverse)
  | .flow opening entries closing =>
    let indent := if (outer.head?.map isDocument).getD false then 0 else opening.indent
    some (.flow opening indent (flowEntries opening entries) closing)

/-- Splits white space and comments off the end of a block collection. Comments that are indented
like its entries stay with it. -/
def splitBlank (indent : Nat) (entries : List (Entry Tree)) : List (Entry Tree) × List Token :=
  match entries.reverse with
  | [] => (entries, [])
  | last :: before =>
    let loose := indent = 0 || last.start.all fun t => t.kind ≠ .comment || t.indent < indent
    if last.isBlank && loose then (before.reverse, last.start) else (entries, [])

def splitTree : Tree → Tree × List Token
  | .map offset indent entries =>
    let (entries, blank) := splitBlank indent entries
    (.map offset indent entries, blank)
  | .seq offset indent entries =>
    let (entries, blank) := splitBlank indent entries
    (.seq offset indent entries, blank)
  | tree => (tree, [])

/-- The entries in reverse after an entry has got its value. White space and comments at the end of
the value begin the next entry. -/
def withValue (before : List (Entry Tree)) (last : Entry Tree) (tree : Tree) :
    List (Entry Tree) × Entry Tree :=
  let (tree, blank) := splitTree tree
  let last := { last with value := some tree }
  if blank = [] then (before, last) else (last :: before, Entry.ofStart blank)

def insert (tree : Tree) (keyLine : Bool) : Frame → Option (Frame × Bool)
  | .document offset start _ tail =>
    let (tree, blank) := splitTree tree
    some (.document offset start (some tree) (if blank = [] then tail else blank), keyLine)
  | .map offset indent before last =>
    if last.value.isSome then
      some (.map offset indent (last :: before) (.ofKey [] (some tree) []), true)
    else if last.sep.isSome then
      let (before, last) := withValue before last tree
      some (.map offset indent before last, keyLine)
    else
      let last := { last with key := some tree, sep := some [] }
      some (.map offset indent before last, !last.explicit)
  | .seq offset indent before last =>
    let (before, last) :=
      if last.value.isSome then withValue (last :: before) (.ofStart []) tree
      else withValue before last tree
    some (.seq offset indent before last, keyLine)
  | .flow opening entries closing =>
    match entries with
    | [] => some (.flow opening [.ofKey [] (some tree) []] closing, keyLine)
    | last :: before =>
      if last.value.isSome then
        some (.flow opening (.ofKey [] (some tree) [] :: last :: before) closing, keyLine)
      else if last.sep.isSome then
        some (.flow opening ({ last with value := some tree } :: before) closing, keyLine)
      else
        let last := { last with key := some tree, sep := some [] }
        some (.flow opening (last :: before) closing, keyLine)
  | _ => none

def pop (b : Builder) : Option Builder :=
  match b.stack with
  | [] => none
  | .document offset start value tail :: rest =>
    some { b with stack := rest, parts := .document start value tail offset :: b.parts }
  | .documentEnd tail :: rest =>
    some { b with stack := rest, parts := .documentEnd tail :: b.parts }
  | frame :: rest => do
    let tree ← treeOf rest frame
    let outer ← rest.head?
    let (outer, keyLine) ← insert tree b.keyLine outer
    return { b with stack := outer :: rest.tail, keyLine := keyLine }

def popAgain (b : Builder) : Option Advance := b.pop.map .again

def replaceTop (b : Builder) (frame : Frame) : Builder := { b with stack := frame :: b.stack.tail }

def push (b : Builder) (frame : Frame) : Builder := { b with stack := frame :: b.stack }

def put (b : Builder) (frame : Frame) : Option Advance := some (.taken (b.replaceTop frame))

/-! Opening nodes. -/

def isKeyBoundary (t : Token) : Bool :=
  t.kind = .documentStart || t.kind = .keyMark || t.kind = .valueMark || t.kind = .itemMark ||
    t.kind = .newline

/-- Splits off the tokens that belong to the first key of a map which begins behind them: those on
the same line behind the last mark. -/
def splitKeyProps (tokens : List Token) : List Token × List Token :=
  let line := (tokens.reverse.takeWhile fun t => !isKeyBoundary t).reverse
  let spaces := line.takeWhile (Token.isKind .space)
  (tokens.take (tokens.length - line.length) ++ spaces, line.drop spaces.length)

def takeKeyProps : List Frame → List Frame × List Token
  | .document offset start value tail :: rest =>
    let (kept, props) := splitKeyProps start
    (.document offset kept value tail :: rest, props)
  | .map offset indent before last :: rest =>
    match last.sep with
    | some sep =>
      let (kept, props) := splitKeyProps sep
      (.map offset indent before { last with sep := some kept } :: rest, props)
    | none =>
      let (kept, props) := splitKeyProps last.start
      (.map offset indent before { last with start := kept } :: rest, props)
  | .seq offset indent before last :: rest =>
    let (kept, props) := splitKeyProps last.start
    (.seq offset indent before { last with start := kept } :: rest, props)
  | stack => (stack, [])

/-- The node that a token opens. A mark for a key or a value opens a map, which takes the tokens in
front of it out of the node around it. -/
def opened (b : Builder) (t : Token) : Option Builder :=
  let mapWith (entry : List Token → Entry Tree) : Builder :=
    let (stack, props) := takeKeyProps b.stack
    { b with stack := .map t.offset t.indent [] (entry props) :: stack, keyLine := true }
  match t.kind with
  | .reference | .plain | .singleQuoted | .doubleQuoted => some (b.push (.leaf t []))
  | .blockHeader => some (b.push (.block t []))
  | .flowMapStart | .flowSeqStart => some (b.push (.flow t [] []))
  | .itemMark => some (b.push (.seq t.offset t.indent [] (.ofStart [t])))
  | .keyMark => some (mapWith fun props => ⟨props ++ [t], true, none, none, none⟩)
  | .valueMark => some (mapWith fun props => .ofKey props none [t])
  | _ => none

/-! One function per kind of open node. -/

/-- The rest of a line behind a node. Anything but white space and a comment belongs to a node
further out, or to none. -/
def lineEnd (b : Builder) (t : Token) (keep : Frame) : Option Advance :=
  match t.kind with
  | .comma | .documentStart | .documentEnd | .flowMapEnd | .flowSeqEnd | .valueMark => b.popAgain
  | .newline => (({ b with keyLine := false }).replaceTop keep).pop.map .taken
  | .space | .comment => b.put keep
  | _ => none

def inStream (b : Builder) (t : Token) : Option Advance :=
  match t.kind with
  | .directive => some (.taken { b with parts := .directive t.text :: b.parts })
  | .byteOrderMark | .space | .comment | .newline => some (.taken b)
  | .documentBegin => some (.taken (b.push (.document t.offset [] none [])))
  | .documentStart => some (.taken (b.push (.document t.offset [t] none [])))
  | _ => none

def inDocument (b : Builder) (t : Token) (offset : Nat) (start : List Token) (value : Option Tree)
    (tail : List Token) : Option Advance :=
  if value.isSome then b.lineEnd t (.document offset start value (tail ++ [t]))
  else
    match t.kind with
    | .documentStart =>
      if start.all Token.isTrivia then b.put (.document offset (start ++ [t]) value tail)
      else b.popAgain
    | .anchor | .tag | .space | .comment | .newline =>
      b.put (.document offset (start ++ [t]) value tail)
    | _ => (b.opened t).map .taken

def inDocumentEnd (b : Builder) (t : Token) (tail : List Token) : Option Advance :=
  match t.kind with
  | .documentBegin => some (.taken b)
  | .newline => ((b.replaceTop (.documentEnd (tail ++ [t]))).pop).map .taken
  | _ => b.put (.documentEnd (tail ++ [t]))

def inLeaf (b : Builder) (t : Token) (token : Token) (tail : List Token) : Option Advance :=
  if t.kind = .valueMark then
    let (outer, props) := takeKeyProps b.stack.tail
    let entry := Entry.ofKey props (some (Tree.leaf token [])) (tail ++ [t])
    some (.taken { b with
      stack := .map token.offset token.indent [] entry :: outer, keyLine := true })
  else b.lineEnd t (.leaf token (tail ++ [t]))

def inBlock (b : Builder) (t : Token) (header : Token) (props : List Token) : Option Advance :=
  match t.kind with
  | .space | .comment | .newline => b.put (.block header (props ++ [t]))
  | .blockText => do
    let outer ← b.stack.tail.head?
    let tree := Tree.block header props t.text (outerIndent b.stack.tail)
    let (outer, keyLine) ← insert tree b.keyLine outer
    return .taken { b with stack := outer :: b.stack.tail.tail, keyLine := keyLine }
  | _ => b.popAgain

/-- A comment that is indented further than the collection belongs to the entry before, if only
white space stands between them. -/
def joinComment (t : Token) (indent : Nat) (before : List (Entry Tree)) (last : Entry Tree) :
    Option (List (Entry Tree) × Entry Tree) :=
  let alone := last.start.all fun s => s.kind = .newline || s.kind = .space
  if t.kind = .comment && indent < t.indent && alone then
    match before with
    | previous :: more =>
      match previous.value with
      | some value =>
        if value.tail?.isSome then
          some (more, { previous with value := some (value.addTail (last.start ++ [t])) })
        else none
      | none => none
    | [] => none
  else none

def addTrivia (t : Token) (indent : Nat) (before : List (Entry Tree)) (last : Entry Tree) :
    List (Entry Tree) × Entry Tree :=
  match last.value with
  | some value =>
    let afterComment := ((value.tail?.getD []).getLast?.map (Token.isKind .comment)).getD false
    if t.kind = .newline && afterComment then
      (before, { last with value := some (value.addTail [t]) })
    else (last :: before, .ofStart [t])
  | none =>
    if last.sep.isSome then (before, last.push t)
    else (joinComment t indent before last).getD (before, last.push t)

/-- Splits the tokens between a key without a value and the next entry: from the second line end
on they belong to the next entry. Whatever else stands between starts the count again. -/
def splitNextEntry (indent : Nat) (sep : List Token) : List Token × List Token :=
  let lines := (sep.zipIdx.foldl (fun (lines : List Nat) (t, i) =>
    match t.kind with
    | .newline => lines ++ [i]
    | .space => lines
    | .comment => if indent < t.indent then [] else lines
    | _ => []) [])
  match lines with
  | _ :: second :: _ => (sep.take second, sep.drop second)
  | _ => (sep, [])

/-- Marks, properties and nodes inside a block map. `next` says whether the token can begin a new
entry, and `start` holds the tokens that then stand in front of it. -/
def inMapEntry (b : Builder) (t : Token) (offset indent : Nat) (before : List (Entry Tree))
    (last : Entry Tree) (atIndent next : Bool) (start : List Token) : Option Advance :=
  let onKeyLine := { b with keyLine := true }
  let update (last : Entry Tree) : Frame := .map offset indent before last
  let append (entry : Entry Tree) : Frame := .map offset indent (last :: before) entry
  let nested (b : Builder) (entry : Entry Tree) : Option Advance :=
    some (.taken (b.push (.map t.offset t.indent [] entry)))
  match t.kind with
  | .anchor | .tag =>
    if next || last.value.isSome then onKeyLine.put (append (.ofStart (start ++ [t])))
    else b.put (update (last.push t))
  | .keyMark =>
    if last.sep.isNone && !last.explicit then
      onKeyLine.put (update { last with start := last.start ++ [t], explicit := true })
    else if next || last.value.isSome then
      onKeyLine.put (append ⟨start ++ [t], true, none, none, none⟩)
    else nested onKeyLine ⟨[t], true, none, none, none⟩
  | .valueMark =>
    match last.sep with
    | none =>
      if last.explicit && !last.start.any (Token.isKind .newline) then
        let (kept, props) := splitKeyProps last.start
        nested (onKeyLine.replaceTop (update { last with start := kept })) (.ofKey props none [t])
      else onKeyLine.put (update { last with key := none, sep := some [t] })
    | some sep =>
      if last.explicit then
        if last.value.isSome then onKeyLine.put (append (.ofKey [] none [t]))
        else if last.sepHas .valueMark then nested onKeyLine (.ofKey start none [t])
        else if (last.key.map Tree.isFlowing).getD false && !last.sepHas .newline then
          let (kept, props) := splitKeyProps last.start
          nested (onKeyLine.replaceTop (update ⟨kept, last.explicit, none, none, none⟩))
            (.ofKey props last.key (sep ++ [t]))
        else onKeyLine.put (update { last with sep := some (sep ++ start ++ [t]) })
      else if last.value.isSome || next then onKeyLine.put (append (.ofKey start none [t]))
      else if last.sepHas .valueMark then nested onKeyLine (.ofKey [] none [t])
      else onKeyLine.put (update { last with sep := some (sep ++ [t]) })
  | .reference | .plain | .singleQuoted | .doubleQuoted =>
    let leaf := Tree.leaf t []
    if next || last.value.isSome then onKeyLine.put (append (.ofKey start (some leaf) []))
    else if last.sep.isSome then some (.taken (b.push (.leaf t [])))
    else onKeyLine.put (update { last with key := some leaf, sep := some [] })
  | .itemMark =>
    if !last.explicit && last.sep.isSome && !last.sepHas .newline then none
    else (b.opened t).map .taken
  | _ =>
    let b := if atIndent then b.replaceTop (append (.ofStart start)) else b
    match b.opened t with
    | some b => some (.taken b)
    | none => none

def inMap (b : Builder) (t : Token) (offset indent : Nat) (before : List (Entry Tree))
    (last : Entry Tree) : Option Advance :=
  if t.isTrivia then
    let (before, last) := addTrivia t indent before last
    let b := if t.kind = .newline then { b with keyLine := false } else b
    b.put (.map offset indent before last)
  else if t.indent < indent then b.popAgain
  else
    let atIndent := !b.keyLine && t.indent = indent
    let next := atIndent && (last.sep.isSome || last.explicit) && t.kind ≠ .itemMark
    let (kept, start) :=
      if next && last.value.isNone then splitNextEntry indent (last.sep.getD []) else ([], [])
    let last := if start = [] then last else { last with sep := some kept }
    let b := b.replaceTop (.map offset indent before last)
    match t.kind with
    | .anchor | .tag | .keyMark | .valueMark | .reference | .plain | .singleQuoted | .doubleQuoted
    | .itemMark | .blockHeader | .flowMapStart | .flowSeqStart =>
      inMapEntry b t offset indent before last atIndent next start
    | _ => b.popAgain

/-- A token opens a node if it stands further in than a sequence and can open one, and closes the
sequence otherwise. -/
def openOrPop (b : Builder) (t : Token) (indent : Nat) : Option Advance :=
  if indent < t.indent then
    match b.opened t with
    | some b => some (.taken b)
    | none => b.popAgain
  else b.popAgain

def inSeq (b : Builder) (t : Token) (offset indent : Nat) (before : List (Entry Tree))
    (last : Entry Tree) : Option Advance :=
  match t.kind with
  | .newline | .space | .comment =>
    let (before, last) := addTrivia t indent before last
    b.put (.seq offset indent before last)
  | .anchor | .tag =>
    if last.value.isSome || t.indent ≤ indent then b.openOrPop t indent
    else b.put (.seq offset indent before (last.push t))
  | .itemMark =>
    if t.indent ≠ indent then b.openOrPop t indent
    else if last.value.isSome || last.start.any (Token.isKind .itemMark) then
      b.put (.seq offset indent (last :: before) (.ofStart [t]))
    else b.put (.seq offset indent before (last.push t))
  | _ => b.openOrPop t indent

def afterFlow (b : Builder) (t : Token) (opening : Token) (entries : List (Entry Tree))
    (closing : List Token) : Option Advance :=
  let leaves : Bool := match b.stack.tail with
    | .map _ indent _ last :: _ =>
      t.kind = .valueMark && indent = opening.indent || t.kind = .newline && last.sep.isNone
    | _ => false
  let inFlow : Bool := match b.stack.tail with
    | .flow _ _ _ :: _ => true
    | _ => false
  if leaves then b.popAgain
  else if t.kind = .valueMark && !inFlow then
    let (outer, props) := takeKeyProps b.stack.tail
    let key := Tree.flow opening opening.indent (flowEntries opening entries) (closing.take 1)
    let entry := Entry.ofKey props (some key) (closing.drop 1 ++ [t])
    some (.taken { b with
      stack := .map opening.offset opening.indent [] entry :: outer, keyLine := true })
  else b.lineEnd t (.flow opening entries (closing ++ [t]))

def inFlow (b : Builder) (t : Token) (opening : Token) (entries : List (Entry Tree))
    (closing : List Token) : Option Advance :=
  if closing ≠ [] then b.afterFlow t opening entries closing
  else
    let append (entry : Entry Tree) : Option Advance :=
      b.put (.flow opening (entry :: entries) closing)
    let update (before : List (Entry Tree)) (last : Entry Tree) : Option Advance :=
      b.put (.flow opening (last :: before) closing)
    match t.kind, entries with
    | .comma, [] | .keyMark, [] => append (.ofStart [t])
    | .comma, last :: before | .keyMark, last :: before =>
      if last.sep.isSome then append (.ofStart [t])
      else update before { last with start := last.start ++ [t] }
    | .valueMark, [] => append (.ofKey [] none [t])
    | .valueMark, last :: before =>
      if last.value.isSome then append (.ofKey [] none [t])
      else update before (match last.sep with
        | some sep => { last with sep := some (sep ++ [t]) }
        | none => { last with key := none, sep := some [t] })
    | .space, [] | .comment, [] | .newline, [] | .anchor, [] | .tag, [] => append (.ofStart [t])
    | .space, last :: before | .comment, last :: before | .newline, last :: before
    | .anchor, last :: before | .tag, last :: before =>
      if last.value.isSome then append (.ofStart [t]) else update before (last.push t)
    | .reference, [] | .plain, [] | .singleQuoted, [] | .doubleQuoted, [] =>
      append (.ofKey [] (some (.leaf t [])) [])
    | .reference, last :: before | .plain, last :: before | .singleQuoted, last :: before
    | .doubleQuoted, last :: before =>
      if last.value.isSome then append (.ofKey [] (some (.leaf t [])) [])
      else if last.sep.isSome then some (.taken (b.push (.leaf t [])))
      else update before { last with key := some (.leaf t []), sep := some [] }
    | .flowMapEnd, _ | .flowSeqEnd, _ => b.put (.flow opening entries [t])
    | _, _ =>
      match b.opened t with
      | some b => some (.taken b)
      | none => b.popAgain

def popAll : (fuel : Nat) → Builder → Option Builder
  | 0, b => if b.stack = [] then some b else none
  | fuel + 1, b => if b.stack = [] then some b else b.pop.bind (popAll fuel)

def advance (b : Builder) (t : Token) : Option Advance :=
  match b.stack with
  | [] => b.inStream t
  | .document offset start value tail :: _ => b.inDocument t offset start value tail
  | .documentEnd tail :: _ => b.inDocumentEnd t tail
  | .leaf token tail :: _ => b.inLeaf t token tail
  | .block header props :: _ => b.inBlock t header props
  | .map offset indent before last :: _ => b.inMap t offset indent before last
  | .seq offset indent before last :: _ => b.inSeq t offset indent before last
  | .flow opening entries closing :: _ => b.inFlow t opening entries closing

/-- Looks at a token until a node takes it. Each time it is looked at again one node has been
closed, so there are at most as many rounds as open nodes. -/
def settle : (fuel : Nat) → Builder → Token → Option Builder
  | 0, _, _ => none
  | fuel + 1, b, t =>
    match b.advance t with
    | some (.taken b) => some b
    | some (.again b) => settle fuel b t
    | none => none

def inDocumentEndAlready : List Frame → Bool
  | .documentEnd _ :: _ => true
  | _ => false

def step (b : Builder) (t : Token) : Option Builder :=
  if t.kind = .documentEnd && !inDocumentEndAlready b.stack then
    (popAll b.stack.length b).map fun b => b.push (.documentEnd [])
  else settle (b.stack.length + 1) b t

def finish (b : Builder) : Option (List Part) :=
  (popAll b.stack.length b).map fun b => b.parts.reverse

end Builder

def parts (tokens : List Token) : Option (List Part) :=
  (tokens.foldlM Builder.step Builder.empty).bind Builder.finish

end Elevation.Yaml
