import Mathlib

/-!
The `base64url` encoding of a `Buffer`: three bytes become four digits, and what is left of
them two or three. Decoding reads the digits of both alphabets up to a padding character and
skips anything else.
-/

namespace Base64Url

/-- The digit of a value below 64. -/
def digit (n : Nat) : Char :=
  if n < 26 then Char.ofNat (0x41 + n)
  else if n < 52 then Char.ofNat (0x61 + (n - 26))
  else if n < 62 then Char.ofNat (0x30 + (n - 52))
  else if n = 62 then '-' else '_'

def digitValue (c : Char) : Option Nat :=
  if 'A' ≤ c && c ≤ 'Z' then some (c.toNat - 0x41)
  else if 'a' ≤ c && c ≤ 'z' then some (c.toNat - 0x61 + 26)
  else if c.isDigit then some (c.toNat - 0x30 + 52)
  else if c = '-' || c = '+' then some 62
  else if c = '_' || c = '/' then some 63
  else none

/-- The values of the digits of some bytes. -/
def sextets : List UInt8 → List Nat
  | a :: b :: c :: rest =>
      a.toNat / 4 :: (a.toNat % 4 * 16 + b.toNat / 16) :: (b.toNat % 16 * 4 + c.toNat / 64) ::
        c.toNat % 64 :: sextets rest
  | [a, b] => [a.toNat / 4, a.toNat % 4 * 16 + b.toNat / 16, b.toNat % 16 * 4]
  | [a] => [a.toNat / 4, a.toNat % 4 * 16]
  | [] => []

/-- The bytes that digit values spell; a single digit at the end spells none. -/
def bytes : List Nat → List UInt8
  | p :: q :: r :: s :: rest =>
      UInt8.ofNat (p * 4 + q / 16) :: UInt8.ofNat (q % 16 * 16 + r / 4) ::
        UInt8.ofNat (r % 4 * 64 + s) :: bytes rest
  | [p, q, r] => [UInt8.ofNat (p * 4 + q / 16), UInt8.ofNat (q % 16 * 16 + r / 4)]
  | [p, q] => [UInt8.ofNat (p * 4 + q / 16)]
  | [_] | [] => []

/-- `buffer.toString("base64url")`. -/
def encode (buffer : List UInt8) : List Char := (sextets buffer).map digit

/-- `Buffer.from(text, "base64url")`. -/
def decode (text : List Char) : List UInt8 :=
  bytes ((text.takeWhile fun c => c ≠ '=').filterMap digitValue)

theorem digitValue_digit {n : Nat} (below : n < 64) : digitValue (digit n) = some n := by
  interval_cases n <;> decide

theorem digit_ne_pad {n : Nat} (below : n < 64) : digit n ≠ '=' := by
  interval_cases n <;> decide

theorem sextets_lt (buffer : List UInt8) : ∀ n ∈ sextets buffer, n < 64 := by
  induction buffer using sextets.induct with
  | case1 a b c rest ih =>
      have := a.toNat_lt
      have := b.toNat_lt
      have := c.toNat_lt
      simp only [sextets, List.forall_mem_cons]
      exact ⟨by omega, by omega, by omega, by omega, ih⟩
  | case2 a b =>
      have := a.toNat_lt
      have := b.toNat_lt
      simp only [sextets, List.forall_mem_cons]
      exact ⟨by omega, by omega, by omega, nofun⟩
  | case3 a =>
      have := a.toNat_lt
      simp only [sextets, List.forall_mem_cons]
      exact ⟨by omega, by omega, nofun⟩
  | case4 => nofun

theorem ofNat_eq {a : UInt8} {n : Nat} (same : n = a.toNat) : UInt8.ofNat n = a := by
  rw [same, UInt8.ofNat_toNat]

theorem bytes_sextets (buffer : List UInt8) : bytes (sextets buffer) = buffer := by
  induction buffer using sextets.induct with
  | case1 a b c rest ih =>
      have := b.toNat_lt
      have := c.toNat_lt
      simp only [sextets, bytes, ih]
      rw [ofNat_eq (a := a) (by omega), ofNat_eq (a := b) (by omega), ofNat_eq (a := c) (by omega)]
  | case2 a b =>
      have := b.toNat_lt
      simp only [sextets, bytes]
      rw [ofNat_eq (a := a) (by omega), ofNat_eq (a := b) (by omega)]
  | case3 a =>
      simp only [sextets, bytes]
      rw [ofNat_eq (a := a) (by omega)]
  | case4 => rfl

theorem decode_encode (buffer : List UInt8) : decode (encode buffer) = buffer := by
  have below := sextets_lt buffer
  have whole : (encode buffer).takeWhile (fun c => c ≠ '=') = encode buffer := by
    refine List.takeWhile_eq_self_iff.mpr fun c mem => ?_
    obtain ⟨n, inside, rfl⟩ := List.mem_map.mp mem
    simpa using digit_ne_pad (below n inside)
  have values : (encode buffer).filterMap digitValue = sextets buffer := by
    rw [encode, List.filterMap_map]
    calc (sextets buffer).filterMap (digitValue ∘ digit)
        = (sextets buffer).filterMap some :=
          List.filterMap_congr fun n inside => digitValue_digit (below n inside)
      _ = sextets buffer := List.filterMap_some
  rw [decode, whole, values, bytes_sextets]

/-- Digit values that spell whole bytes: what is left of the last digit is zero. -/
def Canonical : List Nat → Prop
  | _ :: _ :: _ :: _ :: rest => Canonical rest
  | [_, _, r] => r % 4 = 0
  | [_, q] => q % 16 = 0
  | [_] => False
  | [] => True

theorem canonical_sextets (buffer : List UInt8) : Canonical (sextets buffer) := by
  induction buffer using sextets.induct with
  | case1 a b c rest ih => exact ih
  | case2 a b => exact Nat.mul_mod_left _ _
  | case3 a => exact Nat.mul_mod_left _ _
  | case4 => trivial

/-- Canonical digit values are those of the bytes that they spell. -/
theorem sextets_bytes {values : List Nat} (below : ∀ n ∈ values, n < 64)
    (canonical : Canonical values) : sextets (bytes values) = values := by
  have byte : ∀ n, n < 256 → (UInt8.ofNat n).toNat = n := fun n small => by
    rw [UInt8.toNat_ofNat']
    exact Nat.mod_eq_of_lt small
  induction values using bytes.induct with
  | case1 p q r s rest ih =>
      simp only [List.forall_mem_cons] at below
      obtain ⟨hp, hq, hr, hs, others⟩ := below
      simp only [bytes, sextets, ih others canonical]
      rw [byte _ (by omega), byte _ (by omega), byte _ (by omega)]
      simp only [List.cons.injEq, and_true]
      omega
  | case2 p q r =>
      simp only [List.forall_mem_cons] at below
      obtain ⟨hp, hq, hr, _⟩ := below
      have left : r % 4 = 0 := canonical
      simp only [bytes, sextets]
      rw [byte _ (by omega), byte _ (by omega)]
      simp only [List.cons.injEq, and_true]
      omega
  | case3 p q =>
      simp only [List.forall_mem_cons] at below
      obtain ⟨hp, hq, _⟩ := below
      have left : q % 16 = 0 := canonical
      simp only [bytes, sextets]
      rw [byte _ (by omega)]
      simp only [List.cons.injEq, and_true]
      omega
  | case4 p => exact absurd canonical id
  | case5 => rfl

/-- Four digits for three bytes. -/
theorem length_encode (buffer : List UInt8) : 3 * (encode buffer).length ≤ 4 * buffer.length + 2 := by
  rw [encode, List.length_map]
  induction buffer using sextets.induct with
  | case1 a b c rest ih =>
      simp only [sextets, List.length_cons]
      omega
  | case2 | case3 | case4 => simp [sextets]

end Base64Url
