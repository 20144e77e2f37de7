import Elevation.Proofs.Yaml.Quoting
import Elevation.Yaml.Node.OfTree
import Elevation.Yaml.Value

/-! Writing YAML: a key by itself on the first line, and below it, each on a line of its own and
indented by two spaces, keys with a text in double quotes or a flag. -/

namespace Elevation.Yaml.Written

def isLetter (c : Char) : Bool := 'a' ≤ c && c ≤ 'z' || c = '_'

def IsWord (text : List Char) : Prop := ∀ c ∈ text, isLetter c = true

instance : DecidablePred IsWord := fun _ => decidable_of_iff _ List.all_eq_true

/-- A key that is written without quotes and read as the text that it is. -/
structure Name where
  text : List Char
  ne_nil : text ≠ []
  letters : IsWord text
  isText : Scalar.ofPlain .v12 true text = Scalar.ofList text
  fits : Token.width text ≤ keyLimit
  notIndex : Value.indexOf? (String.ofList text) = none

theorem Name.exists_letter (name : Name) : ∃ c word, name.text = c :: word ∧ isLetter c = true ∧
    IsWord word := by
  obtain ⟨c, word, hword⟩ := List.exists_cons_of_ne_nil name.ne_nil
  have hletters := name.letters
  rw [hword] at hletters
  obtain ⟨hc, hrest⟩ := List.forall_mem_cons.1 hletters
  exact ⟨c, word, hword, hc, hrest⟩

/-- A value on the line of its key. `capital` is the case in which escapes are written. -/
inductive Content where
  | text (capital : Bool) (value : String)
  | flag (value : Bool)

namespace Content

def source : Content → List Char
  | text capital value => Text.DoubleQuoted.quote capital value.toList
  | flag true => ['t', 'r', 'u', 'e']
  | flag false => ['f', 'a', 'l', 's', 'e']

def kind : Content → TokenKind
  | text _ _ => .doubleQuoted
  | flag _ => .plain

def value : Content → Value
  | text _ value => .string value
  | flag value => .boolean value

theorem isWord_flag (value : Bool) : IsWord (flag value).source := by
  cases value <;> decide

theorem flag_ne_nil (value : Bool) : (flag value).source ≠ [] := by
  cases value <;> decide

end Content

structure Line where
  key : Name
  content : Content

namespace Line

def body (l : Line) : List Char := l.key.text ++ ':' :: ' ' :: l.content.source

end Line

def below (lines : List Line) : List Char := lines.flatMap fun l => ' ' :: ' ' :: l.body ++ ['\n']

def Line.lexemes (l : Line) : List Lexeme :=
  [⟨.plain, l.key.text⟩, ⟨.valueMark, [':']⟩, ⟨.space, [' ']⟩,
    ⟨l.content.kind, l.content.source⟩, ⟨.newline, ['\n']⟩]

def belowLexemes (lines : List Line) : List Lexeme :=
  lines.flatMap fun l => ⟨.space, [' ', ' ']⟩ :: l.lexemes

def headLexemes (head : Name) : List Lexeme :=
  [⟨.documentBegin, []⟩, ⟨.plain, head.text⟩, ⟨.valueMark, [':']⟩, ⟨.newline, ['\n']⟩]

def source (head : Name) (lines : List Line) : List Char := head.text ++ ':' :: '\n' :: below lines

end Elevation.Yaml.Written

namespace Elevation.Yaml.Scanner

open Written Text.DoubleQuoted

theorem letter_ne {c d : Char} (hc : isLetter c = true) (hd : isLetter d = false) : c ≠ d := by
  rintro rfl
  exact absurd (hc.symm.trans hd) (by decide)

/-! A letter is no white space, and nothing that begins a property. -/

theorem isSpace_letter {c : Char} (hc : isLetter c = true) : Text.isSpace c = false := by
  simp [Text.isSpace, letter_ne (d := ' ') hc (by decide), letter_ne (d := '\t') hc (by decide)]

theorem isGap_letter {c : Char} (hc : isLetter c = true) : isGap (some c) = false := by
  simp [isGap, letter_ne (d := ' ') hc (by decide), letter_ne (d := '\t') hc (by decide),
    letter_ne (d := '\n') hc (by decide), letter_ne (d := '\r') hc (by decide)]

theorem isProperty_letter {c : Char} (hc : isLetter c = true) :
    "!&-?:".toList.contains c = false := by
  simp [letter_ne (d := '!') hc (by decide), letter_ne (d := '&') hc (by decide),
    letter_ne (d := '-') hc (by decide), letter_ne (d := '?') hc (by decide),
    letter_ne (d := ':') hc (by decide)]

/-! How far plain text goes. -/

theorem plainLength_letter {c : Char} (hc : isLetter c = true) (need seen kept : Nat)
    (rest : List Char) :
    plainLength false need seen kept (c :: rest) =
      plainLength false need (seen + 1) (seen + 1) rest := by
  have hcolon : c ≠ ':' := letter_ne hc (by decide)
  have hnewline : c ≠ '\n' := letter_ne hc (by decide)
  have hreturn : c ≠ '\r' := letter_ne hc (by decide)
  rw [plainLength]
  · simp [hcolon, hnewline, hreturn, isSpace_letter hc]
  · exact fun _ h => absurd h hreturn

theorem plainLength_letters {word : List Char} (h : IsWord word)
    (need seen : Nat) (rest : List Char) :
    plainLength false need seen seen (word ++ rest) =
      plainLength false need (seen + word.length) (seen + word.length) rest := by
  induction word generalizing seen with
  | nil => rfl
  | cons c word ih =>
    obtain ⟨hc, hword⟩ := List.forall_mem_cons.1 h
    rw [List.cons_append, plainLength_letter hc, ih hword, List.length_cons, Nat.add_right_comm,
      Nat.add_assoc seen]

theorem plainLength_key (key : Name) (need : Nat) (gap : Char) (hgap : isGap (some gap) = true)
    (rest : List Char) :
    plainLength false need 0 0 (key.text ++ ':' :: gap :: rest) = key.text.length := by
  rw [plainLength_letters key.letters, Nat.zero_add, plainLength]
  · simp [hgap]
  · exact fun _ h => absurd h (by decide)

/-- A word ends with its line, unless the next line is indented further than its own. -/
theorem plainLength_word {word : List Char} (h : IsWord word) {need : Nat}
    {rest : List Char} (hrest : continues need rest = false) :
    plainLength false need 0 0 (word ++ '\n' :: rest) = word.length := by
  rw [plainLength_letters h, Nat.zero_add, plainLength]
  · simp [hrest]
  · exact fun _ h => absurd h (by decide)

/-! One step after the other. -/

theorem spaces_cons {c : Char} (hc : Text.isSpace c = false) (rest : List Char) :
    spaces (c :: rest) = ([], c :: rest) := by
  simp [spaces, lexeme, hc]

theorem propertyFuel_none {c : Char} (hc : "!&-?:".toList.contains c = false)
    (rest : List Char) : propertyFuel (c :: rest) = 0 := by
  simp only [propertyFuel, hc]
  rfl

theorem properties_none {c : Char} (hc : "!&-?:".toList.contains c = false) (fuel : Nat)
    (s : Scanner) (rest : List Char) : properties fuel s (c :: rest) = ([], s, c :: rest) := by
  cases fuel with
  | zero => rfl
  | succ fuel =>
    simp at hc
    simp [properties, hc]

theorem document_letter {c : Char} (hc : isLetter c = true) (s : Scanner) (rest : List Char) :
    document s (c :: rest) = some (plain s (c :: rest)) := by
  have hne {d : Char} (hd : isLetter d = false) : c ≠ d := letter_ne hc hd
  simp only [document, spaces_cons (isSpace_letter hc), properties_none (isProperty_letter hc)]
  simp [hne (d := '#') (by decide), hne (d := '\n') (by decide), hne (d := '\r') (by decide),
    hne (d := '\x7b') (by decide), hne (d := '[') (by decide), hne (d := '\x7d') (by decide),
    hne (d := ']') (by decide), hne (d := '*') (by decide), hne (d := '"') (by decide),
    hne (d := '\'') (by decide), hne (d := '|') (by decide), hne (d := '>') (by decide),
    Step.after]

theorem document_word {s : Scanner} (hs : s.depth = 0) {word rest : List Char} (hword : word ≠ [])
    (h : IsWord word)
    (hlength : plainLength false s.need 0 0 (word ++ rest) = word.length) :
    document s (word ++ rest) = some ⟨[⟨.plain, word⟩], .document, s, rest⟩ := by
  have hplain : document s (word ++ rest) = some (plain s (word ++ rest)) := by
    obtain ⟨c, more, rfl⟩ := List.exists_cons_of_ne_nil hword
    exact document_letter (h c List.mem_cons_self) s _
  simp [hplain, plain, hs, hlength, afterScalar]

theorem blockStart_letter {c : Char} (hc : isLetter c = true) (s : Scanner) (rest : List Char) :
    blockStart s (c :: rest) = ⟨[], .document, s, c :: rest⟩ := by
  have hne {d : Char} (hd : isLetter d = false) : c ≠ d := letter_ne hc hd
  have hdash : c ≠ '-' := hne (by decide)
  have hquestion : c ≠ '?' := hne (by decide)
  have hcolon : c ≠ ':' := hne (by decide)
  simp [blockStart, hdash, hquestion, hcolon]

theorem lineStart_line (s : Scanner) (l : Line) (rest : List Char) :
    lineStart s (' ' :: ' ' :: l.body ++ rest) =
      ⟨[⟨.space, [' ', ' ']⟩], .document, { s with need := min 2 s.need, column := 2 },
        l.body ++ rest⟩ := by
  obtain ⟨c, word, hword, hc, hletters⟩ := l.key.exists_letter
  have hspace : c ≠ ' ' := letter_ne hc (by decide)
  have hbody : l.body ++ rest = c :: (word ++ ':' :: ' ' :: (l.content.source ++ rest)) := by
    simp [Line.body, hword]
  have hnext : isGap (l.body ++ rest)[1]? = false := by
    rw [hbody]
    cases word with
    | nil => rfl
    | cons d word => exact isGap_letter (hletters d List.mem_cons_self)
  have hmark : isDocumentMark (' ' :: ' ' :: l.body ++ rest) = false := rfl
  have hindent : indentOf (' ' :: ' ' :: l.body ++ rest) = 2 := by
    simp [indentOf, hbody, hspace]
  have hneed : (if 2 < s.need && !false then 2 else s.need) = min 2 s.need := by
    by_cases h : 2 < s.need <;> simp [h] <;> omega
  have hdrop : (' ' :: ' ' :: l.body ++ rest).drop 2 = l.body ++ rest := rfl
  have htake : (' ' :: ' ' :: l.body ++ rest).take 2 = [' ', ' '] := rfl
  simp only [lineStart, hmark, hindent, hdrop, htake, hnext, hneed]
  simp only [hbody, blockStart_letter hc, lexeme, Step.after]
  simp

theorem lineStart_nil (s : Scanner) :
    lineStart s [] = ⟨[], .document, { s with column := 0 }, []⟩ := by
  simp [lineStart, isDocumentMark, indentOf, isGap, blockStart, lexeme, Step.after]

theorem document_newline (s : Scanner) (rest : List Char) :
    document s ('\n' :: rest) = some ((lineStart s rest).after [⟨.newline, ['\n']⟩]) := by
  have hspaces : spaces ('\n' :: rest) = ([], '\n' :: rest) := spaces_cons (by decide) rest
  have hfuel : propertyFuel ('\n' :: rest) = 0 := rfl
  simp [document, hspaces, hfuel, properties, commentLine, restOfLine, newline, lexeme, Step.after]

theorem after_after (step : Step) (a b : List Lexeme) :
    (step.after a).after b = step.after (b ++ a) := by
  simp [Step.after]

/-- Behind the mark for a value, and the white space that follows it, everything goes on as without
them. -/
theorem document_mark {s : Scanner} (hs : s.depth = 0) {c : Char} {rest after : List Char}
    {gap : List Lexeme} (hgap : isGap rest.head? = true) (hspaces : spaces rest = (gap, c :: after))
    (hspace : Text.isSpace c = false) (hnone : "!&-?:".toList.contains c = false) :
    document s (':' :: rest) = (document { s with need := s.column + 1 } (c :: after)).map
      (Step.after · (⟨.valueMark, [':']⟩ :: gap)) := by
  have hcolon : spaces (':' :: rest) = ([], ':' :: rest) := spaces_cons (by decide) rest
  have hfuel : propertyFuel (':' :: rest) = rest.length + 1 := rfl
  have hfuel' := propertyFuel_none hnone after
  have hmarks : properties (rest.length + 1) s (':' :: rest) =
      (⟨.valueMark, [':']⟩ :: gap, { s with need := s.column + 1 }, c :: after) := by
    simp [properties, hgap, hspaces, properties_none hnone, hs]
  simp only [document, hcolon, hfuel, hmarks, spaces_cons hspace, hfuel', properties,
    List.nil_append, after_after, List.append_nil]
  repeat' split
  all_goals simp [after_after, Option.map_map, Function.comp_def]

theorem document_quoteMark (s : Scanner) (rest : List Char) :
    document s ('"' :: rest) = some (quoted s ('"' :: rest)) := by
  have hspaces : spaces ('"' :: rest) = ([], '"' :: rest) := spaces_cons (by decide) rest
  have hfuel : propertyFuel ('"' :: rest) = 0 := rfl
  simp [document, hspaces, hfuel, properties, Step.after]

theorem document_quote {s : Scanner} (hs : s.depth = 0) (capital : Bool) (text rest : List Char) :
    document s (quote capital text ++ rest) =
      some ⟨[⟨.doubleQuoted, quote capital text⟩], .document, s, rest⟩ := by
  have hlength : quotedLength s.need (quote capital text ++ rest) = (quote capital text).length :=
    quotedLength_quote s.need text rest
  have hquoted : document s (quote capital text ++ rest) =
      some (quoted s (quote capital text ++ rest)) := document_quoteMark s _
  have hhead : (quote capital text ++ rest).head? ≠ some '\'' := by simp [quote]
  rw [hquoted, quoted, hlength, if_neg hhead, List.take_left, List.drop_left, afterScalar, hs]
  rfl

theorem document_content {s : Scanner} (hs : s.depth = 0) (c : Content) {rest : List Char}
    (hrest : continues s.need rest = false) :
    document s (c.source ++ '\n' :: rest) =
      some ⟨[⟨c.kind, c.source⟩], .document, s, '\n' :: rest⟩ := by
  cases c with
  | text capital value => exact document_quote hs capital value.toList ('\n' :: rest)
  | flag value =>
    have hword := Content.isWord_flag value
    exact document_word hs (Content.flag_ne_nil value) hword (plainLength_word hword hrest)

theorem source_eq_cons (c : Content) : ∃ first rest, c.source = first :: rest ∧
    Text.isSpace first = false ∧ "!&-?:".toList.contains first = false := by
  cases c with
  | text capital value => exact ⟨_, _, rfl, by decide, by decide⟩
  | flag value =>
    cases value with
    | true => exact ⟨_, _, rfl, by decide, by decide⟩
    | false => exact ⟨_, _, rfl, by decide, by decide⟩

theorem document_value {s : Scanner} (hs : s.depth = 0) (c : Content) {rest : List Char}
    (hrest : continues (s.column + 1) rest = false) :
    document s (':' :: ' ' :: c.source ++ '\n' :: rest) =
      some ⟨[⟨.valueMark, [':']⟩, ⟨.space, [' ']⟩, ⟨c.kind, c.source⟩], .document,
        { s with need := s.column + 1 }, '\n' :: rest⟩ := by
  have hcontent := document_content (s := { s with need := s.column + 1 }) hs c hrest
  obtain ⟨first, more, hsource, hspace, hnone⟩ := source_eq_cons c
  have hspaces : spaces (' ' :: (c.source ++ '\n' :: rest)) =
      ([⟨.space, [' ']⟩], first :: (more ++ '\n' :: rest)) := by
    have hblank : Text.isSpace ' ' = true := rfl
    simp [spaces, lexeme, hsource, hspace, hblank]
  rw [List.cons_append, List.cons_append, document_mark hs rfl hspaces hspace hnone,
    ← List.cons_append, ← hsource, hcontent]
  rfl

/-- The mark behind a key, with the end of the line behind it. -/
theorem document_mark_newline {s : Scanner} (hs : s.depth = 0) (rest : List Char) :
    document s (':' :: '\n' :: rest) =
      some ((lineStart { s with need := s.column + 1 } rest).after
        [⟨.valueMark, [':']⟩, ⟨.newline, ['\n']⟩]) := by
  have hspaces : spaces ('\n' :: rest) = ([], '\n' :: rest) := spaces_cons (by decide) rest
  rw [document_mark hs rfl hspaces (by decide) (by decide), document_newline, Option.map_some,
    after_after]
  rfl

/-! The whole text. -/

theorem below_cons (l : Line) (lines : List Line) :
    below (l :: lines) = ' ' :: ' ' :: l.body ++ '\n' :: below lines := by
  simp [below]

theorem continues_below (lines : List Line) : continues 3 (below lines) = false := by
  cases lines with
  | nil => rfl
  | cons l lines =>
    obtain ⟨c, word, hword, hc, -⟩ := l.key.exists_letter
    have hspace : c ≠ ' ' := letter_ne hc (by decide)
    have hnewline : c ≠ '\n' := letter_ne hc (by decide)
    have hreturn : c ≠ '\r' := letter_ne hc (by decide)
    simp [below_cons, Line.body, hword, continues, indentOf, hspace, hnewline, hreturn]

theorem run_nil (fuel : Nat) (mode : Mode) (s : Scanner) : run fuel mode s [] = some [] := by
  cases fuel <;> rfl

theorem run_document {s : Scanner} {cs : List Char} {done : Step} {fuel : Nat}
    {more : List Lexeme} (hstep : document s cs = some done) (hcs : cs ≠ [])
    (hrun : run fuel done.mode done.scanner done.rest = some more) :
    run (fuel + 1) .document s cs = some (done.lexemes ++ more) := by
  obtain ⟨c, rest, rfl⟩ := List.exists_cons_of_ne_nil hcs
  simp [run, step, hstep, hrun]

variable {need : Nat} {closed : Bool}

/-- Two steps scan a line up to its end: one takes the key, and one the value. -/
theorem run_body (l : Line) (lines : List Line) {fuel : Nat} {more : List Lexeme}
    (hrun : run fuel .document ⟨3, 2, 0, closed⟩ ('\n' :: below lines) = some more) :
    run (fuel + 2) .document ⟨need, 2, 0, closed⟩ (l.body ++ '\n' :: below lines) =
      some ([⟨.plain, l.key.text⟩, ⟨.valueMark, [':']⟩, ⟨.space, [' ']⟩,
        ⟨l.content.kind, l.content.source⟩] ++ more) := by
  have hbody : l.body ++ '\n' :: below lines =
      l.key.text ++ ':' :: ' ' :: (l.content.source ++ '\n' :: below lines) := by
    simp [Line.body]
  have hkey := document_word (s := ⟨need, 2, 0, closed⟩) rfl l.key.ne_nil l.key.letters
    (plainLength_key l.key need ' ' rfl (l.content.source ++ '\n' :: below lines))
  have hvalue := document_value (s := ⟨need, 2, 0, closed⟩) rfl l.content (continues_below lines)
  rw [hbody]
  exact run_document hkey (by simp) (run_document hvalue (by simp) hrun)

/-- Three steps scan a line: its key, its value, and its end with the indentation of the next. -/
theorem run_lines (l : Line) (lines : List Line) {fuel : Nat} (hfuel : 3 * lines.length ≤ fuel) :
    run (fuel + 3) .document ⟨need, 2, 0, closed⟩ (l.body ++ '\n' :: below lines) =
      some (l.lexemes ++ belowLexemes lines) := by
  induction lines generalizing l need fuel with
  | nil =>
    have hend := document_newline ⟨3, 2, 0, closed⟩ []
    rw [lineStart_nil] at hend
    exact run_body l [] (run_document hend (by simp) (run_nil fuel _ _))
  | cons next lines ih =>
    rw [List.length_cons] at hfuel
    obtain ⟨less, rfl⟩ := Nat.exists_eq_add_of_le' (show 3 ≤ fuel by omega)
    have hend := document_newline ⟨3, 2, 0, closed⟩ (below (next :: lines))
    rw [below_cons, lineStart_line] at hend
    have hnext : run (less + 3) .document ⟨2, 2, 0, closed⟩ (next.body ++ '\n' :: below lines) =
        some (next.lexemes ++ belowLexemes lines) := ih next (by omega)
    rw [← below_cons] at hend
    exact (run_body l (next :: lines) (run_document hend (by simp) hnext)).trans
      (by simp [belowLexemes, Line.lexemes, Step.after])

theorem length_below (lines : List Line) : lines.length ≤ (below lines).length := by
  induction lines with
  | nil => exact Nat.le_refl 0
  | cons l lines ih =>
    simp only [below_cons, List.length_append, List.length_cons]
    omega

theorem stream_letter {c : Char} (hc : isLetter c = true) (rest : List Char) :
    stream start (c :: rest) = ⟨[⟨.documentBegin, []⟩], .document, start, c :: rest⟩ := by
  have hne {d : Char} (hd : isLetter d = false) : c ≠ d := letter_ne hc hd
  have hspace : c ≠ ' ' := hne (by decide)
  have hend : atLineEnd (c :: rest) = false := by
    simp [atLineEnd, isSpace_letter hc, hne (d := '#') (by decide), hne (d := '\n') (by decide),
      hne (d := '\r') (by decide)]
  have hmark : isDocumentMark (c :: rest) = false := by
    simp [isDocumentMark, hne (d := '-') (by decide), hne (d := '.') (by decide)]
  have hstart : lineStart start (c :: rest) = ⟨[], .document, start, c :: rest⟩ := by
    simp [lineStart, hmark, indentOf, hspace, blockStart_letter hc, lexeme, Step.after, start]
  simp [stream, hend, hstart, hne (d := '\uFEFF') (by decide), hne (d := '%') (by decide),
    Step.after]

/-- One step opens the document, one scans the head, and one goes on to the lines below. -/
theorem lexemes_source (head : Name) (l : Line) (lines : List Line) :
    lexemes (source head (l :: lines)) = some (headLexemes head ++ belowLexemes (l :: lines)) := by
  obtain ⟨c, word, hword, hc, -⟩ := head.exists_letter
  have hsource : source head (l :: lines) =
      c :: (word ++ ':' :: '\n' :: below (l :: lines)) := by simp [source, hword]
  have hkey : document start (source head (l :: lines)) = _ :=
    document_word rfl head.ne_nil head.letters
      (plainLength_key head 0 '\n' rfl (below (l :: lines)))
  have hmark := document_mark_newline (s := start) rfl (below (l :: lines))
  rw [below_cons, lineStart_line, ← below_cons] at hmark
  have hlength := length_below lines
  obtain ⟨fuel, hfuel, hless⟩ : ∃ fuel, 4 * (source head (l :: lines)).length + 4 = fuel + 3 + 3 ∧
      3 * lines.length ≤ fuel := by
    refine ⟨4 * (source head (l :: lines)).length - 2, ?_, ?_⟩ <;>
      simp only [hsource, below_cons, List.length_append, List.length_cons] <;> omega
  have hlines : run (fuel + 3) .document ⟨1, 2, 0, false⟩ (l.body ++ '\n' :: below lines) =
      some (l.lexemes ++ belowLexemes lines) := run_lines l lines hless
  have hrun := run_document hkey (by simp [hsource]) (run_document hmark (by simp) hlines)
  rw [lexemes, hfuel, hsource, run, step, stream_letter hc, ← hsource]
  simp only [bind, Option.bind_some]
  rw [hrun]
  simp [headLexemes, belowLexemes, Line.lexemes, Step.after]

end Elevation.Yaml.Scanner
