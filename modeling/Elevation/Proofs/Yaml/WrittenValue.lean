import Elevation.Proofs.Yaml.FieldOrder
import Elevation.Proofs.Yaml.WrittenTree
import Elevation.Yaml

/-! The value of a written text: an object with one field, which holds an object with a field for
each line. The nodes of the entries are read first and then evaluated, each time one entry after the
other. -/

namespace Elevation.Yaml.Written

def Name.node (key : Name) : Node :=
  .scalar Marks.none .plain key.text (Scalar.ofList key.text)

def Name.string (key : Name) : String := String.ofList key.text

namespace Content

def node : Content → Node
  | text _ value => .scalar Marks.none .doubleQuoted value.toList (.string value)
  | flag value => .scalar Marks.none .plain (flag value).source (.boolean value)

end Content

namespace Line

def pair (l : Line) : Node × Option Node := (l.key.node, some l.content.node)

def field (l : Line) : String × Value := (l.key.string, l.content.value)

end Line

def value (head : Name) (lines : List Line) : Value :=
  .object [(head.string, .object (lines.map Line.field))]

/-! Reading the nodes. -/

/-- What is known of a place in front of which stands nothing but white space. -/
def bareProps (offset : Nat) : Props := ⟨none, none, false, false, none, none, none, offset, offset⟩

@[simp] theorem bareProps_found (offset : Nat) : (bareProps offset).found = none := rfl

theorem newline_notMem {text : List Char} (h : IsWord text) : '\n' ∉ text :=
  fun hmem => absurd (h _ hmem) (by decide)

theorem plain_eq {text : List Char} (h : IsWord text) :
    Text.plain text = some text := by
  have hreserved : (text.head?.map Text.isReserved).getD false = false := by
    cases text with
    | nil => rfl
    | cons c text =>
      have hne {d : Char} (hd : isLetter d = false) : c ≠ d :=
        Scanner.letter_ne (h c List.mem_cons_self) hd
      simp [Text.isReserved, hne (d := '\t') (by decide), hne (d := ',') (by decide),
        hne (d := '%') (by decide), hne (d := '|') (by decide), hne (d := '>') (by decide),
        hne (d := '@') (by decide), hne (d := '\x60') (by decide)]
  simp [Text.plain, hreserved, Text.fold, List.splitOn_eq_singleton (newline_notMem h)]

variable {s : Scope}

theorem ofTree_key (hs : s.directives.version = .v12) (key : Name) (p offset indent : Nat) :
    Node.ofTree s.key (bareProps p) (.leaf ⟨.plain, key.text, offset, indent⟩ []) =
      some ⟨key.node, offset + Token.width key.text⟩ := by
  have hversion : s.key.directives.version = .v12 := hs
  have hkey : s.key.atKey = true := rfl
  simp [Node.ofTree, Node.ofLeaf, tailEnd?, plain_eq key.letters, Node.marksOf, bareProps,
    Node.ofText, hversion, hkey, key.isText, Name.node, Marks.none, Token.endOffset]

theorem ofPlain_flag (value : Bool) :
    Scalar.ofPlain .v12 false (Content.flag value).source = .boolean value := by
  cases value <;> decide +kernel

theorem ofTree_content (hs : s.directives.version = .v12) (c : Content) {p : Props}
    (hanchor : p.anchor = none) (htag : p.tag = none) (offset indent : Nat) {l : Token}
    (hend : l.kind = .newline) :
    ∃ finish, Node.ofTree s.inner p (.leaf ⟨c.kind, c.source, offset, indent⟩ [l]) =
      some ⟨c.node, finish⟩ := by
  have hversion : s.inner.directives.version = .v12 := hs
  have hkey : s.inner.atKey = false := rfl
  cases c with
  | text capital value =>
    simp [Node.ofTree, Node.ofLeaf, tailEnd?, hend, Content.kind, Content.source,
      Text.DoubleQuoted.decode_quote, Node.marksOf, hanchor, htag, Node.ofText, Content.node,
      Marks.none, Scalar.ofList]
  | flag value =>
    simp [Node.ofTree, Node.ofLeaf, tailEnd?, hend, Content.kind,
      plain_eq (Content.isWord_flag value), Node.marksOf, hanchor, htag, Node.ofText, hversion,
      hkey, ofPlain_flag, Content.node, Marks.none]

/-- One entry of a map is read: a key, the mark behind it, and a value, each in its place. -/
theorem ofMapEntries_cons (hs : s.directives.version = .v12) {key : Name} {start sep : List Token}
    {value : Tree} {rest : List (Entry Tree)} {indent offset : Nat} {mark : Token} {props : Props}
    {placed : Placed} {c : Collected (Node × Option Node)}
    (hstart : Props.ofTokens? ⟨false, .keyMark,
      .tree (.leaf ⟨.plain, key.text, offset, indent⟩ []), c.offset, indent, true⟩ start =
        some (bareProps offset))
    (hsep : Props.ofTokens? ⟨false, .valueMark, .tree value, offset + Token.width key.text, indent,
      false⟩ sep = some props)
    (hmark : props.found = some mark)
    (hfits : Node.valueMarkFits (bareProps offset) props mark (some value) = true)
    (hvalue : Node.ofTree s.inner props value = some placed)
    (hfresh : Pairs.hasKey c.found key.node = false) :
    Node.ofMapEntries s indent c (⟨start, false, some (.leaf ⟨.plain, key.text, offset, indent⟩ []),
        some sep, some value⟩ :: rest) =
      Node.ofMapEntries s indent
        { c with offset := placed.finish, found := (key.node, some placed.node) :: c.found }
        rest := by
  have hline : '\n' ∉ key.text := newline_notMem key.letters
  have hkeyFits : Node.implicitKeyFits indent (bareProps offset)
      (some (.leaf ⟨.plain, key.text, offset, indent⟩ [])) = true := by
    simp [Node.implicitKeyFits, Tree.isSeq, Tree.keyIndent, Tree.hasNewline, bareProps, hline]
  have hkey := ofTree_key hs key offset offset indent
  simp [Node.ofMapEntries, Follower.ofTreeOr, Follower.ofTree?, hstart, hsep, Node.ofOption, hkey,
    hmark, hfits, hvalue, hfresh, hkeyFits, Tree.isBlock]

/-- What the mark behind a key leaves known, with the white space behind it. -/
def markedProps (mark : Token) (hasNewline : Bool) (offset : Nat) : Props :=
  { bareProps offset with found := some mark, hasNewline := hasNewline }

theorem ofMapEntries_line (hs : s.directives.version = .v12) (l : Line) (offset : Nat)
    (start : List Token) {c : Collected (Node × Option Node)}
    (hstart : start = [] ∧ c.offset = offset + 2 ∨ start = [Line.indentation offset])
    (hfresh : Pairs.hasKey c.found l.key.node = false) (rest : List (Entry Tree)) :
    ∃ finish, Node.ofMapEntries s 2 c (l.entry offset start :: rest) =
      Node.ofMapEntries s 2 { c with offset := finish, found := l.pair :: c.found } rest := by
  obtain ⟨finish, hvalue⟩ := ofTree_content hs l.content
    (p := markedProps (l.mark offset) false (l.gap offset).endOffset) rfl rfl
    (l.gap offset).endOffset 2 (l := l.lineEnd offset) rfl
  have hfits : Node.valueMarkFits (bareProps (offset + 2))
      (markedProps (l.mark offset) false (l.gap offset).endOffset) (l.mark offset)
      (some (.leaf (l.valueToken offset) [l.lineEnd offset])) = true := by
    have hmark : (l.mark offset).offset ≤ offset + 2 + keyLimit :=
      Nat.add_le_add_left l.key.fits (offset + 2)
    exact decide_eq_true hmark
  have hfront : Props.ofTokens? ⟨false, .keyMark, .tree (.leaf (l.keyToken offset) []), c.offset, 2,
      true⟩ start = some (bareProps (offset + 2)) := by
    rcases hstart with ⟨rfl, hoffset⟩ | rfl
    · rw [hoffset]
      rfl
    · rfl
  exact ⟨finish, ofMapEntries_cons hs hfront rfl rfl hfits hvalue hfresh⟩

theorem hasKey_pairs {lines : List Line} {key : Name}
    (h : key.text ∉ lines.map fun l => l.key.text) :
    Pairs.hasKey (lines.map Line.pair).reverse key.node = false := by
  simpa [Pairs.hasKey, Line.pair, Name.node, Node.sameKey, Scalar.same, Scalar.ofList,
    String.ofList_inj] using h

def Distinct (lines : List Line) : Prop := (lines.map fun l => l.key.text).Nodup

theorem Distinct.not_mem {before after : List Line} {l : Line}
    (h : Distinct (before ++ l :: after)) : l.key.text ∉ before.map fun l => l.key.text := by
  rw [Distinct, List.map_append, List.map_cons] at h
  exact fun hmem => (List.nodup_append.1 h).2.2 _ hmem _ List.mem_cons_self rfl

theorem ofMapEntries_below (hs : s.directives.version = .v12) (read lines : List Line)
    (hkeys : Distinct (read ++ lines)) (offset : Nat) {c : Collected (Node × Option Node)}
    (hread : c.found = (read.map Line.pair).reverse) :
    ∃ finish, Node.ofMapEntries s 2 c (belowEntries offset lines) =
      some { c with offset := finish, found := ((read ++ lines).map Line.pair).reverse } := by
  induction lines generalizing read offset c with
  | nil => exact ⟨c.offset, by simp [belowEntries, Node.ofMapEntries, ← hread]⟩
  | cons l lines ih =>
    have hfresh := hkeys.not_mem
    obtain ⟨finish, hline⟩ := ofMapEntries_line hs l offset _ (.inr rfl)
      (hread ▸ hasKey_pairs hfresh) (belowEntries (l.next offset) lines)
    have happend : read ++ l :: lines = read ++ [l] ++ lines := by simp
    rw [happend] at hkeys ⊢
    obtain ⟨finish', hbelow⟩ := ih (read ++ [l]) hkeys (l.next offset)
      (c := { c with offset := finish, found := l.pair :: c.found }) (by simp [hread])
    exact ⟨finish', hline.trans hbelow⟩

def linesNode (lines : List Line) : Node := .map Marks.none .plain (lines.map Line.pair)

def node (head : Name) (lines : List Line) : Node :=
  .map Marks.none .plain [(head.node, some (linesNode lines))]

theorem ofTree_map {p : Props} (hanchor : p.anchor = none) (htag : p.tag = none)
    {offset indent finish : Nat} {entries : List (Entry Tree)} {found : List (Node × Option Node)}
    (h : Node.ofMapEntries s indent (.start offset) entries = some ⟨finish, none, found⟩) :
    Node.ofTree s p (.map offset indent entries) =
      some ⟨.map Marks.none .plain found.reverse, finish⟩ := by
  simp [Node.ofTree, Node.marksOf, hanchor, htag, h, Collected.finish?, Node.ofEntries, Marks.none]

theorem ofTree_innerTree (hs : s.directives.version = .v12) (l : Line) (lines : List Line)
    (hkeys : Distinct (l :: lines)) (offset : Nat) {p : Props} (hanchor : p.anchor = none)
    (htag : p.tag = none) :
    ∃ finish, Node.ofTree s p (innerTree offset l lines) =
      some ⟨linesNode (l :: lines), finish⟩ := by
  obtain ⟨finish, hfirst⟩ := ofMapEntries_line hs l offset []
    (c := .start (offset + 2)) (.inl ⟨rfl, rfl⟩) rfl (belowEntries (l.next offset) lines)
  obtain ⟨finish', hbelow⟩ := ofMapEntries_below hs [l] lines hkeys (l.next offset)
    (c := { Collected.start (offset + 2) with offset := finish, found := [l.pair] }) rfl
  have hentries : Node.ofMapEntries s 2 (.start (offset + 2))
      (l.entry offset [] :: belowEntries (l.next offset) lines) =
      some ⟨finish', none, ((l :: lines).map Line.pair).reverse⟩ := hfirst.trans hbelow
  refine ⟨finish', ?_⟩
  rw [innerTree, ofTree_map hanchor htag hentries, List.reverse_reverse, linesNode]

theorem ofDocument_tree (head : Name) (l : Line) (lines : List Line)
    (hkeys : Distinct (l :: lines)) :
    Node.ofDocument Directives.standard [] (some (tree head l lines)) [] 0 =
      some (node head (l :: lines), false) := by
  obtain ⟨finish, hinner⟩ := ofTree_innerTree (s := Scope.inner ⟨Directives.standard, false, true⟩)
    rfl l lines hkeys head.next (p := markedProps head.mark true (head.next + 2)) rfl rfl
  have hfits : Node.valueMarkFits (bareProps 0) (markedProps head.mark true (head.next + 2))
      head.mark (some (innerTree head.next l lines)) = true := by
    have hmark : head.mark.offset ≤ 0 + keyLimit := Nat.add_le_add_left head.fits 0
    exact decide_eq_true hmark
  have hsep : Props.ofTokens? ⟨false, .valueMark, .tree (innerTree head.next l lines),
      0 + Token.width head.text, 0, false⟩ head.sep =
      some (markedProps head.mark true (head.next + 2)) := rfl
  have hentry : Node.ofMapEntries ⟨Directives.standard, false, true⟩ 0 (.start 0)
      [{ head.begun head.sep with value := some (innerTree head.next l lines) }] =
      some ⟨finish, none, [(head.node, some (linesNode (l :: lines)))]⟩ := by
    refine (ofMapEntries_cons rfl rfl hsep rfl hfits hinner rfl).trans ?_
    rw [Node.ofMapEntries]
    rfl
  have hfront : Props.ofTokens? ⟨false, .documentStart, .tree (tree head l lines), 0, 0, true⟩ [] =
      some (bareProps 0) := rfl
  have htree : Node.ofTree ⟨Directives.standard, false, true⟩ (bareProps 0) (tree head l lines) =
      some ⟨node head (l :: lines), finish⟩ := ofTree_map rfl rfl hentry
  simp [Node.ofDocument, Follower.ofTreeOr, hfront, Node.ofOption, htree, tailEnd?]

/-! Evaluating the nodes. -/

theorem setField_of_fresh {fields : List (String × Value)} {name : String}
    (h : name ∉ fields.map Prod.fst) (value : Value) :
    Value.setField fields name value = fields ++ [(name, value)] := by
  induction fields with
  | nil => rfl
  | cons field fields ih =>
    obtain ⟨hfirst, hrest⟩ := not_or.1 (mt List.mem_cons.2 h)
    simp [Value.setField, Ne.symm hfirst, ih hrest]

theorem indexed_eq_nil {fields : List (String × Value)}
    (h : ∀ field ∈ fields, Value.indexOf? field.1 = none) : Value.indexed fields = [] := by
  induction fields with
  | nil => rfl
  | cons field fields ih =>
    obtain ⟨hfirst, hrest⟩ := List.forall_mem_cons.1 h
    rw [Value.indexed_cons, hfirst]
    exact ih hrest

/-- Fields whose names are no indices keep their order. -/
theorem orderFields_eq {fields : List (String × Value)}
    (h : ∀ field ∈ fields, Value.indexOf? field.1 = none) : Value.orderFields fields = fields := by
  have hfilter : fields.filter (fun field => (Value.indexOf? field.1).isNone) = fields := by
    rw [List.filter_eq_self]
    exact fun field hfield => by simp [h field hfield]
  rw [Value.orderFields_eq_append, indexed_eq_nil h, hfilter, List.map_nil, List.nil_append]

theorem eval_key (version : Version) (cycles : List Value) (a : Anchors) (key : Name) :
    Node.eval version cycles a key.node = some ⟨.string key.string, .scalar, a⟩ := rfl

theorem eval_content (version : Version) (cycles : List Value) (a : Anchors) (c : Content) :
    Node.eval version cycles a c.node = some ⟨c.value, .scalar, a⟩ := by
  cases c <;> rfl

theorem evalFields_cons {version : Version} {cycles : List Value} {a : Anchors}
    {fields : List (String × Value)} {key : Name} {node : Node} {value : Value} {made : Makeup}
    (hvalue : Node.eval version cycles a node = some ⟨value, made, a⟩)
    (hfresh : key.string ∉ fields.map Prod.fst) (makeup : Makeup)
    (rest : List (Node × Option Node)) :
    Node.evalFields version cycles a fields makeup ((key.node, some node) :: rest) =
      Node.evalFields version cycles a (fields ++ [(key.string, value)])
        ((makeup.join .scalar).join made) rest := by
  have hmerge : key.node.isMergeKey = false := rfl
  have hname : Node.fieldName version key.node (.string key.string) = key.string := rfl
  rw [Node.evalFields]
  simp [eval_key, Node.evalOption, hvalue, hmerge, hname, setField_of_fresh hfresh]

theorem evalFields_lines (version : Version) (cycles : List Value) (a : Anchors)
    (done lines : List Line) (hkeys : Distinct (done ++ lines)) (makeup : Makeup) :
    ∃ makeup', Node.evalFields version cycles a (done.map Line.field) makeup
        (lines.map Line.pair) =
      some ⟨(done ++ lines).map Line.field, makeup', a⟩ := by
  induction lines generalizing done makeup with
  | nil => exact ⟨makeup, by simp [Node.evalFields]⟩
  | cons l lines ih =>
    have hfresh : l.key.string ∉ (done.map Line.field).map Prod.fst := by
      have htext := hkeys.not_mem
      simpa [Line.field, Name.string, String.ofList_inj] using htext
    have hline := evalFields_cons (eval_content version cycles a l.content) hfresh makeup
      (lines.map Line.pair)
    have happend : done ++ l :: lines = done ++ [l] ++ lines := by simp
    rw [happend] at hkeys ⊢
    obtain ⟨makeup', hrest⟩ := ih (done ++ [l]) hkeys ((makeup.join .scalar).join .scalar)
    rw [List.map_append] at hrest
    exact ⟨makeup', hline.trans hrest⟩

/-- A map without an anchor is an object with the fields of its entries. -/
theorem eval_map {version : Version} {cycles : List Value} {a : Anchors}
    {entries : List (Node × Option Node)} {fields : List (String × Value)} {makeup : Makeup}
    (hfields : Node.evalFields version cycles a [] .nothing entries = some ⟨fields, makeup, a⟩)
    (hnames : ∀ field ∈ fields, Value.indexOf? field.1 = none) :
    Node.eval version cycles a (.map Marks.none .plain entries) =
      some ⟨.object fields, makeup, a⟩ := by
  simp [Node.eval, Marks.none, hfields, orderFields_eq hnames]

theorem toValue?_node (version : Version) (head : Name) (lines : List Line)
    (hkeys : Distinct lines) : (node head lines).toValue? version = some (value head lines) := by
  obtain ⟨makeup, hlines⟩ := evalFields_lines version [] .empty [] lines hkeys .nothing
  have hinner : Node.eval version [] .empty (linesNode lines) =
      some ⟨.object (lines.map Line.field), makeup, .empty⟩ := by
    refine eval_map hlines fun field hfield => ?_
    obtain ⟨l, -, rfl⟩ := List.mem_map.1 hfield
    exact l.key.notIndex
  have hhead : Node.evalFields version [] .empty [] .nothing
      [(head.node, some (linesNode lines))] =
      some ⟨[(head.string, .object (lines.map Line.field))],
        (Makeup.nothing.join .scalar).join makeup, .empty⟩ := by
    rw [evalFields_cons hinner List.not_mem_nil, Node.evalFields]
    rfl
  have hindex : Value.indexOf? head.string = none := head.notIndex
  have houter : Node.eval version [] .empty (node head lines) =
      some ⟨value head lines, (Makeup.nothing.join .scalar).join makeup, .empty⟩ :=
    eval_map hhead (by simpa using hindex)
  have hcyclic : Anchors.empty.cyclic = false := rfl
  simp [Node.toValue?, houter, hcyclic]

/-- A written text is read as what was written. -/
theorem parse_source (head : Name) (l : Line) (lines : List Line)
    (hkeys : Distinct (l :: lines)) :
    parse (source head (l :: lines)) = some (value head (l :: lines)) := by
  have hdocument := ofDocument_tree head l lines hkeys
  simp [parse, tokens_source, Builder.parts_source, Reading.add, Reading.start, hdocument,
    Reading.value?, toValue?_node _ _ _ hkeys]

end Elevation.Yaml.Written
