import Elevation.Text

/-! Decoding undoes encoding: the bytes of a character are read back as that character, whatever
stands behind them. -/

namespace Elevation.Text.Utf8

theorem toNat_byte {mark value : Nat} (h : mark + value < 256) :
    (byte mark value).toNat = mark + value := by
  simp [byte, Nat.mod_eq_of_lt h]

theorem low_byte {value : Nat} (h : value < 64) : low (byte 0x80 value) = value := by
  rw [low, toNat_byte (by omega)]
  omega

theorem isContinuation_byte {value : Nat} (h : value < 64) :
    isContinuation (byte 0x80 value) = true := by
  rw [isContinuation, toNat_byte (by omega)]
  simp only [Bool.and_eq_true, decide_eq_true_eq]
  omega

/-- What a second byte has to keep to, over the six bits of a continuation: behind four of the first
bytes only a part of the continuations may follow. -/
theorem isSecond_byte {mark value second : Nat} (hfirst : mark + value < 256)
    (hsecond : second < 64) (hlong : mark + value = 0xe0 → 0x20 ≤ second)
    (hsurrogate : mark + value = 0xed → second < 0x20)
    (hlonger : mark + value = 0xf0 → 0x10 ≤ second)
    (hlast : mark + value = 0xf4 → second < 0x10) :
    isSecond (byte mark value) (byte 0x80 second) = true := by
  rw [isSecond, toNat_byte hfirst, toNat_byte (by omega), secondRange]
  simp only [Bool.and_eq_true, decide_eq_true_eq]
  split
  · omega
  · split
    · omega
    · split
      · omega
      · split <;> omega

/-! One character, by the number of its bytes. -/

variable {a b c d : UInt8} (rest : List UInt8)

theorem decode_one (h : a.toNat < 0x80) :
    decode (a :: rest) = Char.ofNat a.toNat :: decode rest := by
  rw [decode.eq_def]
  exact if_pos h

theorem decode_two (hleast : 0xc2 ≤ a.toNat) (hmost : a.toNat < 0xe0) (hb : isSecond a b = true) :
    decode (a :: b :: rest) = Char.ofNat ((a.toNat - 0xc0) * 64 + low b) :: decode rest := by
  rw [decode, if_neg (by omega), if_neg (by omega), if_pos hmost, if_pos hb]

theorem decode_three (hleast : 0xe0 ≤ a.toNat) (hmost : a.toNat < 0xf0)
    (hb : isSecond a b = true) (hc : isContinuation c = true) :
    decode (a :: b :: c :: rest) =
      Char.ofNat ((a.toNat - 0xe0) * 4096 + low b * 64 + low c) :: decode rest := by
  rw [decode, if_neg (by omega), if_neg (by omega), if_neg (by omega), if_pos hmost]
  exact (if_pos hb).trans (if_pos hc)

theorem decode_four (hleast : 0xf0 ≤ a.toNat) (hmost : a.toNat < 0xf5)
    (hb : isSecond a b = true) (hc : isContinuation c = true) (hd : isContinuation d = true) :
    decode (a :: b :: c :: d :: rest) =
      Char.ofNat ((a.toNat - 0xf0) * 262144 + low b * 4096 + low c * 64 + low d) ::
        decode rest := by
  rw [decode, if_neg (by omega), if_neg (by omega), if_neg (by omega), if_neg (by omega),
    if_pos hmost]
  exact (if_pos hb).trans ((if_pos hc).trans (if_pos hd))

theorem toNat_bounds (c : Char) : c.toNat < 0xd800 ∨ 0xdfff < c.toNat ∧ c.toNat < 0x110000 :=
  c.valid

theorem decode_encodeChar (c : Char) : decode (encodeChar c ++ rest) = c :: decode rest := by
  have hbounds := toNat_bounds c
  have hc : Char.ofNat c.toNat = c := Char.ofNat_toNat c
  unfold encodeChar
  generalize c.toNat = n at *
  dsimp only
  split
  case isTrue hone =>
    have hfirst : (byte 0 n).toNat = n := (toNat_byte (by omega)).trans (Nat.zero_add n)
    calc decode (byte 0 n :: rest)
        = Char.ofNat (byte 0 n).toNat :: decode rest := decode_one rest (by omega)
      _ = c :: decode rest := by rw [hfirst, hc]
  case isFalse hone =>
    split
    case isTrue htwo =>
      have hfirst : (byte 0xc0 (n / 64)).toNat = 0xc0 + n / 64 := toNat_byte (by omega)
      have hsecond : isSecond (byte 0xc0 (n / 64)) (byte 0x80 (n % 64)) = true :=
        isSecond_byte (by omega) (by omega) (by omega) (by omega) (by omega) (by omega)
      have hlow : low (byte 0x80 (n % 64)) = n % 64 := low_byte (by omega)
      have hn : (0xc0 + n / 64 - 0xc0) * 64 + n % 64 = n := by omega
      refine (decode_two rest (by omega) (by omega) hsecond).trans ?_
      rw [hfirst, hlow, hn, hc]
    case isFalse htwo =>
      have hlow : low (byte 0x80 (n % 64)) = n % 64 := low_byte (by omega)
      have hmiddle : low (byte 0x80 (n / 64 % 64)) = n / 64 % 64 := low_byte (by omega)
      have hlast : isContinuation (byte 0x80 (n % 64)) = true := isContinuation_byte (by omega)
      split
      case isTrue hthree =>
        have hfirst : (byte 0xe0 (n / 4096)).toNat = 0xe0 + n / 4096 := toNat_byte (by omega)
        have hsecond : isSecond (byte 0xe0 (n / 4096)) (byte 0x80 (n / 64 % 64)) = true :=
          isSecond_byte (by omega) (by omega) (by omega) (by omega) (by omega) (by omega)
        have hn : (0xe0 + n / 4096 - 0xe0) * 4096 + n / 64 % 64 * 64 + n % 64 = n := by omega
        refine (decode_three rest (by omega) (by omega) hsecond hlast).trans ?_
        rw [hfirst, hmiddle, hlow, hn, hc]
      case isFalse hthree =>
        have hfirst : (byte 0xf0 (n / 262144)).toNat = 0xf0 + n / 262144 := toNat_byte (by omega)
        have hsecond : isSecond (byte 0xf0 (n / 262144)) (byte 0x80 (n / 4096 % 64)) = true :=
          isSecond_byte (by omega) (by omega) (by omega) (by omega) (by omega) (by omega)
        have hhigh : low (byte 0x80 (n / 4096 % 64)) = n / 4096 % 64 := low_byte (by omega)
        have hthird : isContinuation (byte 0x80 (n / 64 % 64)) = true :=
          isContinuation_byte (by omega)
        have hn : (0xf0 + n / 262144 - 0xf0) * 262144 + n / 4096 % 64 * 4096 + n / 64 % 64 * 64 +
            n % 64 = n := by omega
        refine (decode_four rest (by omega) (by omega) hsecond hthird hlast).trans ?_
        rw [hfirst, hhigh, hmiddle, hlow, hn, hc]

theorem decode_encode (text : List Char) : decode (encode text) = text := by
  induction text with
  | nil => rfl
  | cons c text ih =>
    change decode (encodeChar c ++ encode text) = c :: text
    rw [decode_encodeChar, ih]

end Elevation.Text.Utf8
