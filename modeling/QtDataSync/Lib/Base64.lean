import Mathlib.Algebra.Order.Ring.Nat
import Mathlib.Data.List.Basic
import Mathlib.Tactic.Common

/-!
# Lib.Base64 — bytes as a text of digits with six bits

The encoding of RFC 4648 with padding, and a decoder that ignores every byte that is no digit, with the padding among
them.  What has been encoded is decoded again (`decode_encode`), and consists of ASCII characters (`ascii_encode`).
-/

namespace Base64

def encodeDigit (d : ℕ) : UInt8 :=
  if d < 26 then .ofNat (65 + d)
  else if d < 52 then .ofNat (71 + d)
  else if d < 62 then .ofNat (d - 4)
  else if d = 62 then 43
  else 47

def decodeDigit (ch : UInt8) : Option ℕ :=
  if 65 ≤ ch.toNat ∧ ch.toNat ≤ 90 then some (ch.toNat - 65)
  else if 97 ≤ ch.toNat ∧ ch.toNat ≤ 122 then some (ch.toNat - 71)
  else if 48 ≤ ch.toNat ∧ ch.toNat ≤ 57 then some (ch.toNat + 4)
  else if ch.toNat = 43 then some 62
  else if ch.toNat = 47 then some 63
  else none

def encode : List UInt8 → List UInt8
  | a :: b :: c :: l =>
    encodeDigit (a.toNat / 4) :: encodeDigit (a.toNat % 4 * 16 + b.toNat / 16) ::
      encodeDigit (b.toNat % 16 * 4 + c.toNat / 64) :: encodeDigit (c.toNat % 64) :: encode l
  | [a, b] =>
    [encodeDigit (a.toNat / 4), encodeDigit (a.toNat % 4 * 16 + b.toNat / 16), encodeDigit (b.toNat % 16 * 4), 61]
  | [a] => [encodeDigit (a.toNat / 4), encodeDigit (a.toNat % 4 * 16), 61, 61]
  | [] => []

/-- `buf` holds the last `nbits` bits that do not make a byte yet. -/
def decodeBits (buf nbits : ℕ) : List UInt8 → List UInt8
  | [] => []
  | ch :: l =>
    match decodeDigit ch with
    | none => decodeBits buf nbits l
    | some d =>
      if nbits + 6 ≥ 8 then
        .ofNat ((buf * 64 + d) / 2 ^ (nbits + 6 - 8)) ::
          decodeBits ((buf * 64 + d) % 2 ^ (nbits + 6 - 8)) (nbits + 6 - 8) l
      else decodeBits (buf * 64 + d) (nbits + 6) l

def decode (l : List UInt8) : List UInt8 := decodeBits 0 0 l

theorem decodeDigit_encodeDigit {d : ℕ} (h : d < 64) : decodeDigit (encodeDigit d) = some d := by
  have hall : ∀ d : Fin 64, decodeDigit (encodeDigit d) = some d.val := by decide
  exact hall ⟨d, h⟩

theorem ascii_encodeDigit {d : ℕ} (h : d < 64) : 0 < (encodeDigit d).toNat ∧ (encodeDigit d).toNat < 128 := by
  have hall : ∀ d : Fin 64, 0 < (encodeDigit d).toNat ∧ (encodeDigit d).toNat < 128 := by decide
  exact hall ⟨d, h⟩

/-- A digit that completes a byte. -/
theorem decodeBits_byte {buf nbits d : ℕ} (hd : d < 64) (hbits : 2 ≤ nbits) (byte : UInt8) (l : List UInt8)
    (hbyte : (buf * 64 + d) / 2 ^ (nbits - 2) = byte.toNat) :
    decodeBits buf nbits (encodeDigit d :: l) =
      byte :: decodeBits ((buf * 64 + d) % 2 ^ (nbits - 2)) (nbits - 2) l := by
  have hnbits : nbits + 6 - 8 = nbits - 2 := by omega
  rw [decodeBits, decodeDigit_encodeDigit hd]
  simp only [hnbits, hbyte, UInt8.ofNat_toNat]
  exact if_pos (by omega)

theorem decodeBits_digit {d : ℕ} (hd : d < 64) (l : List UInt8) :
    decodeBits 0 0 (encodeDigit d :: l) = decodeBits d 6 l := by
  rw [decodeBits, decodeDigit_encodeDigit hd]
  simp

theorem decodeBits_padding (buf nbits : ℕ) (l : List UInt8) :
    decodeBits buf nbits (61 :: l) = decodeBits buf nbits l := by
  rw [decodeBits]
  rfl

/-- The first two digits of a group hold its first byte. -/
theorem decodeBits_first {a : UInt8} {low : ℕ} (hlow : low < 16) (l : List UInt8) :
    decodeBits 0 0 (encodeDigit (a.toNat / 4) :: encodeDigit (a.toNat % 4 * 16 + low) :: l) =
      a :: decodeBits low 4 l := by
  have ha := a.toNat_lt
  rw [decodeBits_digit (by omega), decodeBits_byte (by omega) (by decide) a l (by omega)]
  congr 2
  omega

theorem decodeBits_second {b : UInt8} {low : ℕ} (hlow : low < 4) (l : List UInt8) :
    decodeBits (b.toNat / 16) 4 (encodeDigit (b.toNat % 16 * 4 + low) :: l) = b :: decodeBits low 2 l := by
  have hb := b.toNat_lt
  rw [decodeBits_byte (by omega) (by decide) b l (by omega)]
  congr 2
  omega

theorem decodeBits_third {c : UInt8} (l : List UInt8) :
    decodeBits (c.toNat / 64) 2 (encodeDigit (c.toNat % 64) :: l) = c :: decodeBits 0 0 l := by
  have hc := c.toNat_lt
  rw [decodeBits_byte (by omega) (by decide) c l (by omega)]
  congr 2
  omega

/-- **The round trip.** -/
theorem decode_encode (l : List UInt8) : decode (encode l) = l := by
  induction l using encode.induct with
  | case1 a b c l ih =>
    rw [decode, encode, decodeBits_first (by have := b.toNat_lt; omega),
      decodeBits_second (by have := c.toNat_lt; omega), decodeBits_third]
    exact congrArg (a :: b :: c :: ·) ih
  | case2 a b =>
    have hsecond : decodeBits (b.toNat / 16) 4 (encodeDigit (b.toNat % 16 * 4 + 0) :: [61]) = b :: decodeBits 0 2 [61] :=
      decodeBits_second (by decide) [61]
    rw [Nat.add_zero] at hsecond
    rw [decode, encode, decodeBits_first (by have := b.toNat_lt; omega), hsecond, decodeBits_padding]
    rfl
  | case3 a =>
    have hfirst : decodeBits 0 0 (encodeDigit (a.toNat / 4) :: encodeDigit (a.toNat % 4 * 16 + 0) :: [61, 61]) =
        a :: decodeBits 0 4 [61, 61] := decodeBits_first (by decide) [61, 61]
    rw [Nat.add_zero] at hfirst
    rw [decode, encode, hfirst, decodeBits_padding, decodeBits_padding]
    rfl
  | case4 => rfl

theorem ascii_encode (l : List UInt8) : ∀ ch ∈ encode l, 0 < ch.toNat ∧ ch.toNat < 128 := by
  induction l using encode.induct with
  | case1 a b c l ih =>
    have ha := a.toNat_lt
    have hb := b.toNat_lt
    have hc := c.toNat_lt
    rw [encode]
    simp only [List.mem_cons]
    rintro ch (rfl | rfl | rfl | rfl | hch)
    · exact ascii_encodeDigit (by omega)
    · exact ascii_encodeDigit (by omega)
    · exact ascii_encodeDigit (by omega)
    · exact ascii_encodeDigit (by omega)
    · exact ih ch hch
  | case2 a b =>
    have ha := a.toNat_lt
    have hb := b.toNat_lt
    simp only [encode, List.mem_cons, List.not_mem_nil, or_false]
    rintro ch (rfl | rfl | rfl | rfl)
    · exact ascii_encodeDigit (by omega)
    · exact ascii_encodeDigit (by omega)
    · exact ascii_encodeDigit (by omega)
    · decide
  | case3 a =>
    have ha := a.toNat_lt
    simp only [encode, List.mem_cons, List.not_mem_nil, or_false]
    rintro ch (rfl | rfl | rfl | rfl)
    · exact ascii_encodeDigit (by omega)
    · exact ascii_encodeDigit (by omega)
    · decide
    · decide
  | case4 => nofun

end Base64
