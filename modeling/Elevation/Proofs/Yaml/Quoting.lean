import Elevation.Proofs.Text.Utf8
import Elevation.Yaml.Text
import Elevation.Yaml.Token.Scan

/-! Writing a text in double quotes. Quotes, backslashes and control characters are escaped; so no
line ends inside the quotes, folding has nothing to do, and the text that is read is the one that
was written. -/

namespace Elevation.Yaml.Text.DoubleQuoted

def hexDigit (capital : Bool) (n : Nat) : Char :=
  Char.ofNat (if n < 10 then 48 + n else if capital then 55 + n else 87 + n)

def isControl (c : Char) : Bool := c.toNat < 0x20

def escape (capital : Bool) (c : Char) : List Char :=
  if c = '"' ∨ c = '\\' then ['\\', c]
  else if isControl c then
    ['\\', 'u', '0', '0', hexDigit capital (c.toNat / 16), hexDigit capital (c.toNat % 16)]
  else [c]

def escapeAll (capital : Bool) (text : List Char) : List Char := text.flatMap (escape capital)

def quote (capital : Bool) (text : List Char) : List Char :=
  '"' :: escapeAll capital text ++ ['"']

variable {capital : Bool}

/-- How a character is written: as it is, behind a backslash, or by its number. -/
theorem escape_cases (capital : Bool) (c : Char) :
    (c = '"' ∨ c = '\\') ∧ escape capital c = ['\\', c] ∨
    isControl c = true ∧ escape capital c =
      ['\\', 'u', '0', '0', hexDigit capital (c.toNat / 16), hexDigit capital (c.toNat % 16)] ∨
    (c ≠ '"' ∧ c ≠ '\\' ∧ isControl c = false) ∧ escape capital c = [c] := by
  unfold escape
  by_cases hmark : c = '"' ∨ c = '\\'
  · exact .inl ⟨hmark, if_pos hmark⟩
  · rw [if_neg hmark]
    cases hcontrol : isControl c with
    | true => exact .inr (.inl ⟨rfl, rfl⟩)
    | false =>
      obtain ⟨hquote, hslash⟩ := not_or.1 hmark
      exact .inr (.inr ⟨⟨hquote, hslash, rfl⟩, rfl⟩)

theorem hexValue?_hexDigit (capital : Bool) {n : Nat} (h : n < 16) :
    hexValue? (hexDigit capital n) = some n := by
  have hall : ∀ capital : Bool, ∀ n < 16, hexValue? (hexDigit capital n) = some n := by decide
  exact hall capital n h

theorem hexDigit_ne (capital : Bool) {n : Nat} (h : n < 16) :
    hexDigit capital n ≠ '"' ∧ hexDigit capital n ≠ '\\' ∧ hexDigit capital n ≠ '\n' := by
  have hall : ∀ capital : Bool, ∀ n < 16, hexDigit capital n ≠ '"' ∧
      hexDigit capital n ≠ '\\' ∧ hexDigit capital n ≠ '\n' := by decide
  exact hall capital n h

theorem newline_notMem_escape (c : Char) : '\n' ∉ escape capital c := by
  rcases escape_cases capital c with ⟨hmark, hc⟩ | ⟨hcontrol, hc⟩ | ⟨⟨-, -, hcontrol⟩, hc⟩
  · rw [hc]
    rcases hmark with rfl | rfl <;> decide
  · have hn : c.toNat < 0x20 := by simpa [isControl] using hcontrol
    obtain ⟨-, -, hhigh⟩ := hexDigit_ne capital (n := c.toNat / 16) (by omega)
    obtain ⟨-, -, hlow⟩ := hexDigit_ne capital (n := c.toNat % 16) (by omega)
    simp [hc, hhigh.symm, hlow.symm]
  · have hnewline : '\n' ≠ c := by
      rintro rfl
      exact absurd hcontrol (by decide)
    simp [hc, hnewline]

theorem newline_notMem_escapeAll (text : List Char) : '\n' ∉ escapeAll capital text := by
  intro h
  obtain ⟨c, -, hc⟩ := List.mem_flatMap.1 h
  exact newline_notMem_escape c hc

/-! Reading what stands between the quotes. -/

def pieceOf (c : Char) : Piece :=
  if c = '"' ∨ c = '\\' ∨ isControl c then .escaped c.toNat else .plain c

theorem pieces_hex {c : Char} {digit : Nat} (h : hexValue? c = some digit) (left value : Nat)
    (rest : List Char) :
    pieces (.hex (left + 2) value) (c :: rest) =
      pieces (.hex (left + 1) (16 * value + digit)) rest := by
  rw [pieces, h]
  exact if_pos (by omega)

theorem pieces_last {c : Char} {digit value : Nat} (h : hexValue? c = some digit)
    (hvalue : 16 * value + digit ≤ 0x10ffff) (rest : List Char) :
    pieces (.hex 1 value) (c :: rest) =
      (pieces .text rest).map (.escaped (16 * value + digit) :: ·) := by
  rw [pieces, h]
  simp [Nat.not_lt.2 hvalue]

theorem pieces_escape (c : Char) {rest : List Char} (h : rest ≠ []) :
    pieces .text (escape capital c ++ rest) = (pieces .text rest).map (pieceOf c :: ·) := by
  rcases escape_cases capital c with ⟨hmark, hc⟩ | ⟨hcontrol, hc⟩ | ⟨⟨hquote, hslash, hcontrol⟩, hc⟩
  · rw [hc]
    have hmarkCode : escapes.lookup '"' = some 34 := by decide
    have hslashCode : escapes.lookup '\\' = some 92 := by decide
    rcases hmark with rfl | rfl <;> simp [pieces, hexLength?, hmarkCode, hslashCode, pieceOf, h]
  · have hn : c.toNat < 0x20 := by simpa [isControl] using hcontrol
    have hvalue : 16 * (c.toNat / 16) + c.toNat % 16 = c.toNat := by omega
    have hpiece : pieceOf c = .escaped c.toNat := by simp [pieceOf, hcontrol]
    rw [hc, hpiece]
    have hzero : hexValue? '0' = some 0 := by decide
    have hhigh := hexValue?_hexDigit capital (n := c.toNat / 16) (by omega)
    have hlow := hexValue?_hexDigit capital (n := c.toNat % 16) (by omega)
    calc pieces .text ('\\' :: 'u' :: '0' :: '0' :: hexDigit capital (c.toNat / 16) ::
          hexDigit capital (c.toNat % 16) :: rest)
        = pieces (.hex 4 0) ('0' :: '0' :: hexDigit capital (c.toNat / 16) ::
            hexDigit capital (c.toNat % 16) :: rest) := by simp [pieces, hexLength?]
      _ = pieces (.hex 1 (c.toNat / 16)) (hexDigit capital (c.toNat % 16) :: rest) := by
          rw [pieces_hex hzero, pieces_hex hzero, pieces_hex hhigh, Nat.mul_zero, Nat.zero_add]
          simp
      _ = (pieces .text rest).map (.escaped c.toNat :: ·) := by
          rw [pieces_last hlow (by omega), hvalue]
  · rw [hc]
    simp [pieces, pieceOf, hquote, hslash, hcontrol, h]

theorem pieces_escapeAll (text : List Char) :
    pieces .text (escapeAll capital text ++ ['"']) = some (text.map pieceOf) := by
  induction text with
  | nil => simp [escapeAll, pieces]
  | cons c text ih =>
    have hrest : escapeAll capital text ++ ['"'] ≠ [] := by simp
    calc pieces .text (escapeAll capital (c :: text) ++ ['"'])
        = pieces .text (escape capital c ++ (escapeAll capital text ++ ['"'])) := by
          simp [escapeAll]
      _ = some ((c :: text).map pieceOf) := by rw [pieces_escape c hrest, ih]; rfl

/-- Folding changes nothing: white space is only held back until the next character comes. -/
theorem foldPieces_pieceOf (spaces : List Nat) (text : List Char) :
    foldPieces (.held spaces) (text.map pieceOf) = spaces ++ text.map Char.toNat := by
  induction text generalizing spaces with
  | nil => simp [foldPieces, Fold.release]
  | cons c text ih =>
    by_cases h : c = '"' ∨ c = '\\' ∨ isControl c
    · simp [pieceOf, h, foldPieces, Fold.release, ih]
    · have hcontrol : isControl c = false := by simp_all
      have hreturn : c ≠ '\r' := by rintro rfl; exact absurd hcontrol (by decide)
      have hnewline : c ≠ '\n' := by rintro rfl; exact absurd hcontrol (by decide)
      by_cases hspace : c = ' ' ∨ c = '\t'
      · simp [pieceOf, h, foldPieces, hreturn, hnewline, hspace, ih]
      · simp [pieceOf, h, foldPieces, hreturn, hnewline, hspace, Fold.release, ih]

theorem not_half (c : Char) : isHigh c.toNat = false ∧ isLow c.toNat = false := by
  have hbounds := Elevation.Text.Utf8.toNat_bounds c
  simp only [isHigh, isLow, Bool.and_eq_false_iff, decide_eq_false_iff_not]
  omega

theorem joinUnits_toNat (text : List Char) : joinUnits (text.map Char.toNat) = text := by
  induction text with
  | nil => rfl
  | cons c text ih =>
    obtain ⟨hhigh, hlow⟩ := not_half c
    cases text with
    | nil => simp [joinUnits, hhigh, hlow]
    | cons d text =>
      rw [List.map_cons] at ih
      simp [joinUnits, hhigh, hlow, ih]

theorem decode_quote (text : List Char) : decode (quote capital text) = some text := by
  simp only [decode, quote, List.cons_append, pieces_escapeAll, Option.map_some]
  rw [foldPieces_pieceOf, List.nil_append, joinUnits_toNat]

end Elevation.Yaml.Text.DoubleQuoted

namespace Elevation.Yaml.Scanner

open Text.DoubleQuoted

variable {capital : Bool}

/-! Finding the end of what was written. -/

theorem doubleQuoteEnd?_cons {c : Char} (hquote : c ≠ '"') (hslash : c ≠ '\\') (seen : Nat)
    (rest : List Char) : doubleQuoteEnd? seen (c :: rest) = doubleQuoteEnd? (seen + 1) rest := by
  rw [doubleQuoteEnd?]
  · exact fun _ _ h => absurd h hslash
  · exact fun h => absurd h hquote

theorem doubleQuoteEnd?_escape (c : Char) (seen : Nat) (rest : List Char) :
    doubleQuoteEnd? seen (escape capital c ++ rest) =
      doubleQuoteEnd? (seen + (escape capital c).length) rest := by
  rcases escape_cases capital c with ⟨-, hc⟩ | ⟨hcontrol, hc⟩ | ⟨⟨hquote, hslash, -⟩, hc⟩
  · simp [hc, doubleQuoteEnd?]
  · have hn : c.toNat < 0x20 := by simpa [isControl] using hcontrol
    obtain ⟨hquote, hslash, -⟩ := hexDigit_ne capital (n := c.toNat / 16) (by omega)
    obtain ⟨hquote', hslash', -⟩ := hexDigit_ne capital (n := c.toNat % 16) (by omega)
    have hzero (seen : Nat) (rest : List Char) :
        doubleQuoteEnd? seen ('0' :: rest) = doubleQuoteEnd? (seen + 1) rest :=
      doubleQuoteEnd?_cons (by decide) (by decide) seen rest
    simp [hc, doubleQuoteEnd?, hzero, doubleQuoteEnd?_cons hquote hslash,
      doubleQuoteEnd?_cons hquote' hslash']
  · simp [hc, doubleQuoteEnd?_cons hquote hslash]

theorem doubleQuoteEnd?_escapeAll (text : List Char) (seen : Nat) (rest : List Char) :
    doubleQuoteEnd? seen (escapeAll capital text ++ '"' :: rest) =
      some (seen + (escapeAll capital text).length) := by
  induction text generalizing seen with
  | nil => simp [escapeAll, doubleQuoteEnd?]
  | cons c text ih =>
    calc doubleQuoteEnd? seen (escapeAll capital (c :: text) ++ '"' :: rest)
        = doubleQuoteEnd? seen (escape capital c ++ (escapeAll capital text ++ '"' :: rest)) := by
          simp [escapeAll]
      _ = some (seen + (escapeAll capital (c :: text)).length) := by
          rw [doubleQuoteEnd?_escape, ih]
          simp [escapeAll, Nat.add_assoc]

/-- Without a line end there is no line that could break a scalar off. -/
theorem brokenLine?_eq_none {need length seen : Nat} {cs : List Char} (h : '\n' ∉ cs.take length) :
    brokenLine? need length seen cs = none := by
  induction cs generalizing length seen with
  | nil => cases length <;> rfl
  | cons c rest ih =>
    cases length with
    | zero => rfl
    | succ length =>
      obtain ⟨hc, hrest⟩ := not_or.1 (mt List.mem_cons.2 h)
      simp [brokenLine?, Ne.symm hc, ih hrest]

theorem quotedLength_quote (need : Nat) (text rest : List Char) :
    quotedLength need (quote capital text ++ rest) = (quote capital text).length := by
  have hbody : (quote capital text ++ rest).drop 1 = escapeAll capital text ++ '"' :: rest := by
    simp [quote]
  have hlength : 1 + (escapeAll capital text).length - 1 = (escapeAll capital text).length :=
    Nat.add_sub_cancel_left ..
  have htake : '\n' ∉ (escapeAll capital text ++ '"' :: rest).take
      (escapeAll capital text).length := by
    rw [List.take_left]
    exact newline_notMem_escapeAll text
  have hhead : (quote capital text ++ rest).head? ≠ some '\'' := by simp [quote]
  simp only [quotedLength, hbody, if_neg hhead, doubleQuoteEnd?_escapeAll, hlength,
    brokenLine?_eq_none htake]
  simp [quote, Nat.add_comm]

end Elevation.Yaml.Scanner
