import Elevation.Proofs.Yaml.Written
import Elevation.Yaml.Tree.Build

/-! The shape of a written text: a map with one entry, whose value is a map with one entry for each
line. Lines are taken in one after the other, and each leaves its entry as the last one. -/

namespace Elevation.Yaml.Written

/-! The tokens of a line that begins at an offset. -/

namespace Line

variable (l : Line) (offset : Nat)

def indentation : Token := ⟨.space, [' ', ' '], offset, 0⟩

def keyToken : Token := ⟨.plain, l.key.text, offset + 2, 2⟩

def mark : Token := ⟨.valueMark, [':'], (l.keyToken offset).endOffset, 2⟩

def gap : Token := ⟨.space, [' '], (l.mark offset).endOffset, 2⟩

def valueToken : Token :=
  ⟨l.content.kind, l.content.source, (l.gap offset).endOffset, 2⟩

def lineEnd : Token := ⟨.newline, ['\n'], (l.valueToken offset).endOffset, 2⟩

def next : Nat := (l.lineEnd offset).endOffset

def tokens : List Token :=
  [indentation offset, l.keyToken offset, l.mark offset, l.gap offset, l.valueToken offset,
    l.lineEnd offset]

/-- The entry of a line as long as its value has not been reached: the tokens in front of its key,
and those between key and value so far. -/
def begun (start sep : List Token) : Entry Tree :=
  ⟨start, false, some (.leaf (l.keyToken offset) []), some sep, none⟩

def entry (start : List Token) : Entry Tree :=
  { l.begun offset start [l.mark offset, l.gap offset] with
    value := some (.leaf (l.valueToken offset) [l.lineEnd offset]) }

end Line

def belowTokens : (offset : Nat) → List Line → List Token
  | _, [] => []
  | offset, l :: lines => l.tokens offset ++ belowTokens (l.next offset) lines

def belowEntries : (offset : Nat) → List Line → List (Entry Tree)
  | _, [] => []
  | offset, l :: lines => l.entry offset [Line.indentation offset] ::
      belowEntries (l.next offset) lines

namespace Name

/-! The tokens of the first line. -/

variable (head : Name)

def keyToken : Token := ⟨.plain, head.text, 0, 0⟩

def mark : Token := ⟨.valueMark, [':'], head.keyToken.endOffset, 0⟩

def lineEnd : Token := ⟨.newline, ['\n'], head.mark.endOffset, 0⟩

def next : Nat := head.lineEnd.endOffset

def tokens : List Token := [⟨.documentBegin, [], 0, 0⟩, head.keyToken, head.mark, head.lineEnd]

def begun (sep : List Token) : Entry Tree :=
  ⟨[], false, some (.leaf head.keyToken []), some sep, none⟩

def sep : List Token := [head.mark, head.lineEnd, Line.indentation head.next]

end Name

def innerTree (offset : Nat) (l : Line) (lines : List Line) : Tree :=
  .map (offset + 2) 2 (l.entry offset [] :: belowEntries (l.next offset) lines)

def tree (head : Name) (l : Line) (lines : List Line) : Tree :=
  .map 0 0 [{ head.begun head.sep with value := some (innerTree head.next l lines) }]

theorem place_below (offset : Nat) (lines : List Line) :
    place ⟨offset, 0, true⟩ (belowLexemes lines) = belowTokens offset lines := by
  induction lines generalizing offset with
  | nil => rfl
  | cons l lines ih =>
    have hl : place ⟨offset, 0, true⟩ (⟨.space, [' ', ' ']⟩ :: l.lexemes ++ belowLexemes lines) =
        l.tokens offset ++ place ⟨l.next offset, 0, true⟩ (belowLexemes lines) := by
      obtain ⟨key, content⟩ := l
      cases content <;> rfl
    calc place ⟨offset, 0, true⟩ (belowLexemes (l :: lines))
        = place ⟨offset, 0, true⟩ (⟨.space, [' ', ' ']⟩ :: l.lexemes ++ belowLexemes lines) := by
          simp [belowLexemes]
      _ = belowTokens offset (l :: lines) := by rw [hl, ih, belowTokens]

theorem tokens_source (head : Name) (l : Line) (lines : List Line) :
    tokens (source head (l :: lines)) =
      some (head.tokens ++ belowTokens head.next (l :: lines)) := by
  have hhead : place Position.start (headLexemes head ++ belowLexemes (l :: lines)) =
      head.tokens ++ place ⟨head.next, 0, true⟩ (belowLexemes (l :: lines)) := rfl
  rw [tokens, Scanner.lexemes_source, Option.map_some, hhead, place_below]

end Elevation.Yaml.Written

namespace Elevation.Yaml.Builder

open Written

variable (l : Line) (offset : Nat) {m : Nat} {start sep : List Token} {before : List (Entry Tree)}
  {outer : List Frame} {done : List Part}

theorem step_value :
    step ⟨.map m 2 before (l.begun offset start sep) :: outer, true, done⟩ (l.valueToken offset) =
      some ⟨.leaf (l.valueToken offset) [] :: .map m 2 before (l.begun offset start sep) :: outer,
        true, done⟩ := by
  cases hc : l.content <;> simp only [Line.valueToken, hc] <;> rfl

theorem foldlM_value :
    [l.gap offset, l.valueToken offset, l.lineEnd offset].foldlM step
        ⟨.map m 2 before (l.begun offset start [l.mark offset]) :: outer, true, done⟩ =
      some ⟨.map m 2 before (l.entry offset start) :: outer, false, done⟩ := by
  have hgap : step ⟨.map m 2 before (l.begun offset start [l.mark offset]) :: outer, true, done⟩
        (l.gap offset) =
      some ⟨.map m 2 before (l.begun offset start [l.mark offset, l.gap offset]) :: outer, true,
        done⟩ := rfl
  have hend : step ⟨.leaf (l.valueToken offset) [] ::
        .map m 2 before (l.begun offset start [l.mark offset, l.gap offset]) :: outer, true, done⟩
        (l.lineEnd offset) =
      some ⟨.map m 2 before (l.entry offset start) :: outer, false, done⟩ := rfl
  simp [hgap, step_value, hend]

/-- A line gives its entry to the map in which the mark behind its key stands. -/
theorem foldlM_tokens {b b₁ b₂ : Builder} (hindent : step b (Line.indentation offset) = some b₁)
    (hkey : step b₁ (l.keyToken offset) = some b₂)
    (hmark : step b₂ (l.mark offset) =
      some ⟨.map m 2 before (l.begun offset start [l.mark offset]) :: outer, true, done⟩) :
    (l.tokens offset).foldlM step b =
      some ⟨.map m 2 before (l.entry offset start) :: outer, false, done⟩ := by
  have htokens : l.tokens offset = [Line.indentation offset, l.keyToken offset, l.mark offset] ++
      [l.gap offset, l.valueToken offset, l.lineEnd offset] := rfl
  rw [htokens, List.foldlM_append]
  simp only [List.foldlM_cons, List.foldlM_nil, hindent, hkey, hmark, bind, pure,
    Option.bind_some]
  exact foldlM_value l offset

/-- A line behind another one leaves its entry as the last of the same map. -/
theorem foldlM_line (last : Line) (old : Nat) :
    (l.tokens offset).foldlM step
        ⟨.map m 2 before (last.entry old start) :: outer, false, done⟩ =
      some ⟨.map m 2 (last.entry old start :: before)
        (l.entry offset [Line.indentation offset]) :: outer, false, done⟩ := by
  have hindent : step ⟨.map m 2 before (last.entry old start) :: outer, false, done⟩
        (Line.indentation offset) =
      some ⟨.map m 2 (last.entry old start :: before) (.ofStart [Line.indentation offset]) ::
        outer, false, done⟩ := rfl
  have hkey (before : List (Entry Tree)) :
      step ⟨.map m 2 before (.ofStart [Line.indentation offset]) :: outer, false, done⟩
        (l.keyToken offset) =
      some ⟨.map m 2 before (l.begun offset [Line.indentation offset] []) :: outer, true,
        done⟩ := rfl
  have hmark (before : List (Entry Tree)) :
      step ⟨.map m 2 before (l.begun offset [Line.indentation offset] []) :: outer, true, done⟩
        (l.mark offset) =
      some ⟨.map m 2 before (l.begun offset [Line.indentation offset] [l.mark offset]) :: outer,
        true, done⟩ := rfl
  exact foldlM_tokens l offset hindent (hkey _) (hmark _)

theorem foldlM_below (lines : List Line) (last : Line) (old : Nat) (start : List Token)
    (before : List (Entry Tree)) :
    ∃ before' last', (belowTokens offset lines).foldlM step
        ⟨.map m 2 before (last.entry old start) :: outer, false, done⟩ =
      some ⟨.map m 2 before' last' :: outer, false, done⟩ ∧ last'.isBlank = false ∧
      (last' :: before').reverse =
        (last.entry old start :: before).reverse ++ belowEntries offset lines := by
  induction lines generalizing offset last old start before with
  | nil => exact ⟨before, last.entry old start, rfl, rfl, by simp [belowEntries]⟩
  | cons l lines ih =>
    obtain ⟨before', last', hfold, hlast, hentries⟩ := ih (l.next offset) l offset
      [Line.indentation offset] (last.entry old start :: before)
    refine ⟨before', last', ?_, hlast, ?_⟩
    · rw [belowTokens, List.foldlM_append, foldlM_line]
      exact hfold
    · rw [hentries]
      simp [belowEntries]

theorem foldlM_head (head : Name) :
    head.tokens.foldlM step empty =
      some ⟨[.map 0 0 [] (head.begun [head.mark, head.lineEnd]), .document 0 [] none []], false,
        []⟩ := rfl

def around (head : Name) : List Frame :=
  [.map 0 0 [] (head.begun head.sep), .document 0 [] none []]

theorem foldlM_first (head : Name) :
    (l.tokens head.next).foldlM step
        ⟨[.map 0 0 [] (head.begun [head.mark, head.lineEnd]), .document 0 [] none []], false, []⟩ =
      some ⟨.map (head.next + 2) 2 [] (l.entry head.next []) :: around head, false, []⟩ := by
  have hindent : step ⟨[.map 0 0 [] (head.begun [head.mark, head.lineEnd]),
        .document 0 [] none []], false, []⟩ (Line.indentation head.next) =
      some ⟨around head, false, []⟩ := rfl
  have hkey : step ⟨around head, false, []⟩ (l.keyToken head.next) =
      some ⟨.leaf (l.keyToken head.next) [] :: around head, false, []⟩ := rfl
  have hmark : step ⟨.leaf (l.keyToken head.next) [] :: around head, false, []⟩
        (l.mark head.next) =
      some ⟨.map (head.next + 2) 2 [] (l.begun head.next [] [l.mark head.next]) :: around head,
        true, []⟩ := rfl
  exact foldlM_tokens l head.next hindent hkey hmark

/-- Nothing is split off a map whose last entry is complete. -/
theorem splitTree_map {last : Entry Tree} (hlast : last.isBlank = false) (indent : Nat)
    (before : List (Entry Tree)) : splitTree (.map m indent (before.reverse ++ [last])) =
      (.map m indent (before.reverse ++ [last]), []) := by
  simp [splitTree, splitBlank, hlast]

theorem popAll_of_pop {b b' : Builder} {fuel : Nat} (hstack : b.stack ≠ [])
    (hpop : b.pop = some b') : popAll (fuel + 1) b = popAll fuel b' := by
  simp [popAll, hstack, hpop]

theorem finish_lines (head : Name) {last : Entry Tree} (hlast : last.isBlank = false) :
    finish ⟨.map m 2 before last :: around head, false, []⟩ =
      some [.document [] (some (.map 0 0 [{ head.begun head.sep with
        value := some (.map m 2 (last :: before).reverse) }])) [] 0] := by
  have hsplit := splitTree_map (m := m) hlast 2 before
  rw [← List.reverse_cons] at hsplit
  have htree : treeOf (around head) (.map m 2 before last) =
      some (.map m 2 (last :: before).reverse) := rfl
  generalize (last :: before).reverse = entries at hsplit htree ⊢
  have hinsert : insert (.map m 2 entries) false (.map 0 0 [] (head.begun head.sep)) =
      some (.map 0 0 [] { head.begun head.sep with value := some (.map m 2 entries) }, false) := by
    simp [insert, withValue, hsplit, Name.begun]
  have hclose : pop ⟨.map m 2 before last :: around head, false, []⟩ =
      some ⟨[.map 0 0 [] { head.begun head.sep with value := some (.map m 2 entries) },
        .document 0 [] none []], false, []⟩ := by
    simp only [pop, htree, bind, Option.bind_some]
    simp [around, hinsert]
  have hall : popAll 3 ⟨.map m 2 before last :: around head, false, []⟩ =
      some ⟨[], false, [.document [] (some (.map 0 0 [{ head.begun head.sep with
        value := some (.map m 2 entries) }])) [] 0]⟩ := by
    rw [popAll_of_pop (by simp) hclose]
    rfl
  exact congrArg (Option.map fun b : Builder => b.parts.reverse) hall

/-- A written text is one document. -/
theorem parts_source (head : Name) (l : Line) (lines : List Line) :
    Yaml.parts (head.tokens ++ belowTokens head.next (l :: lines)) =
      some [.document [] (some (tree head l lines)) [] 0] := by
  obtain ⟨before, last, hfold, hlast, hentries⟩ :=
    foldlM_below (l.next head.next) lines l head.next [] []
  have hbuild : (head.tokens ++ belowTokens head.next (l :: lines)).foldlM step empty =
      some ⟨.map (head.next + 2) 2 before last :: around head, false, []⟩ := by
    rw [List.foldlM_append, foldlM_head, belowTokens]
    simp only [bind, Option.bind_some]
    rw [List.foldlM_append, foldlM_first]
    exact hfold
  rw [Yaml.parts, hbuild, Option.bind_some, finish_lines head hlast, hentries]
  rfl

end Elevation.Yaml.Builder
