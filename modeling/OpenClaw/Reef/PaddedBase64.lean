import OpenClaw.Reef.Encoding

/-!
The padded encoding. Its decoder reads groups of four digits and compares the encoding of what
it read with the text, so only the encodings of bytes are accepted.
-/

namespace OpenClaw.Reef

open JsUnits

variable {value rest : List UInt8} {a b c : UInt8} {text : Text} {written : List UInt8} {room : Nat}

theorem base64_nil : base64 [] = [] := by rw [base64]

theorem base64_single (a : UInt8) :
    base64 [a] = [digitOf base64Alphabet (joinBytes a 0 0 >>> 18),
      digitOf base64Alphabet (joinBytes a 0 0 >>> 12), equalsSign, equalsSign] := by
  rw [base64]
  simp [base64_nil]

theorem base64_pair (a b : UInt8) :
    base64 [a, b] = [digitOf base64Alphabet (joinBytes a b 0 >>> 18),
      digitOf base64Alphabet (joinBytes a b 0 >>> 12), digitOf base64Alphabet (joinBytes a b 0 >>> 6),
      equalsSign] := by
  rw [base64]
  simp [base64_nil]

theorem base64_cons (a b c : UInt8) (rest : List UInt8) :
    base64 (a :: b :: c :: rest) = digitOf base64Alphabet (joinBytes a b c >>> 18) ::
      digitOf base64Alphabet (joinBytes a b c >>> 12) ::
        digitOf base64Alphabet (joinBytes a b c >>> 6) ::
          digitOf base64Alphabet (joinBytes a b c) :: base64 rest := by
  rw [base64]
  simp

theorem digitOf_isBase64Digit (bits : Nat) : isBase64Digit (digitOf base64Alphabet bits) = true := by
  have below : bits % 64 < base64Alphabet.length := Nat.mod_lt _ (by decide)
  rw [isBase64Digit_iff, digitOf, List.getD_eq_getElem _ _ below]
  exact List.getElem_mem below

theorem digitOf_ne_equalsSign (bits : Nat) : digitOf base64Alphabet bits ≠ equalsSign := by
  intro same
  have digit := digitOf_isBase64Digit bits
  rw [same] at digit
  exact absurd digit (by decide)

theorem base64DigitValue_digitOf (bits : Nat) :
    base64DigitValue (digitOf base64Alphabet bits) = bits % 64 := by
  rw [base64DigitValue, if_neg (digitOf_ne_equalsSign bits), base64Alphabet_spec.idxOf_digitOf]

theorem base64DigitValue_equalsSign : base64DigitValue equalsSign = 0 := if_pos rfl

theorem joinDigits {p q r s : Nat} (hq : q < 64) (hr : r < 64) (hs : s < 64) :
    p <<< 18 ||| q <<< 12 ||| r <<< 6 ||| s = p * 262144 + q * 4096 + r * 64 + s := by
  have low : r <<< 6 ||| s = r * 64 + s := by
    rw [← Nat.shiftLeft_add_eq_or_of_lt hs, Nat.shiftLeft_eq]
  have middle : q <<< 12 ||| (r * 64 + s) = q * 4096 + (r * 64 + s) := by
    rw [← Nat.shiftLeft_add_eq_or_of_lt (by omega), Nat.shiftLeft_eq]
  rw [Nat.or_assoc, Nat.or_assoc, low, middle, ← Nat.shiftLeft_add_eq_or_of_lt (by omega),
    Nat.shiftLeft_eq]
  omega

theorem length_base64 (value : List UInt8) : (base64 value).length = (value.length + 2) / 3 * 4 := by
  induction value using Base64Url.sextets.induct with
  | case1 a b c rest ih =>
      rw [base64_cons]
      simp only [List.length_cons, ih]
      omega
  | case2 a b => simp [base64_pair]
  | case3 a => simp [base64_single]
  | case4 => rw [base64_nil]; rfl

theorem matchesBase64_cons {p q r s : UInt16} (digits : [p, q, r, s].all isBase64Digit = true)
    (matched : matchesBase64 text = true) : matchesBase64 (p :: q :: r :: s :: text) = true := by
  cases text with
  | nil => simp only [matchesBase64, digits, Bool.true_or]
  | cons unit text =>
      rw [matchesBase64, digits, matched]
      · rfl
      · simp

theorem matchesBase64_base64 (value : List UInt8) : matchesBase64 (base64 value) = true := by
  induction value using Base64Url.sextets.induct with
  | case1 a b c rest ih =>
      rw [base64_cons]
      exact matchesBase64_cons (by simp [digitOf_isBase64Digit]) ih
  | case2 a b => simp [base64_pair, matchesBase64, digitOf_isBase64Digit]
  | case3 a => simp [base64_single, matchesBase64, digitOf_isBase64Digit]
  | case4 => rw [base64_nil]; rfl

theorem pushInside_written (written : List UInt8) (room byte : Nat) :
    (writtenOutput written (room + 1)).pushInside byte =
      writtenOutput (written ++ [UInt8.ofNat byte]) room := by
  rw [Output.pushInside, if_pos (by simp [writtenOutput]), push_written]

theorem pushInside_full (written : List UInt8) (byte : Nat) :
    (writtenOutput written 0).pushInside byte = writtenOutput written 0 :=
  if_neg (by simp [writtenOutput])

theorem joinDigits_shift {bits : Nat} (below : bits < 2 ^ 24) :
    (bits >>> 18 % 64) <<< 18 ||| (bits >>> 12 % 64) <<< 12 ||| (bits >>> 6 % 64) <<< 6 ||| bits % 64 =
      bits := by
  rw [joinDigits (Nat.mod_lt _ (by decide)) (Nat.mod_lt _ (by decide)) (Nat.mod_lt _ (by decide))]
  simp only [Nat.shiftRight_eq_div_pow]
  omega

/-- A group of four characters is read as the three bytes that its digits join. -/
theorem decodeGroups_cons {p q r s : UInt16} {output : Output} {a b c : UInt8}
    (first : base64DigitValue p = joinBytes a b c >>> 18 % 64)
    (second : base64DigitValue q = joinBytes a b c >>> 12 % 64)
    (third : base64DigitValue r = joinBytes a b c >>> 6 % 64)
    (fourth : base64DigitValue s = joinBytes a b c % 64) :
    decodeGroups (p :: q :: r :: s :: text) output =
      decodeGroups text (((output.pushInside a.toNat).pushInside b.toNat).pushInside c.toNat) := by
  have ha := a.toNat_lt
  have hb := b.toNat_lt
  have hc := c.toNat_lt
  have below : joinBytes a b c < 2 ^ 24 := by
    rw [joinBytes_eq]
    omega
  have firstByte : joinBytes a b c >>> 16 % 256 = a.toNat := by
    rw [joinBytes_eq, Nat.shiftRight_eq_div_pow]
    omega
  have secondByte : joinBytes a b c >>> 8 % 256 = b.toNat := by
    rw [joinBytes_eq, Nat.shiftRight_eq_div_pow]
    omega
  have thirdByte : joinBytes a b c % 256 = c.toNat := by
    rw [joinBytes_eq]
    omega
  rw [decodeGroups, first, second, third, fourth, joinDigits_shift below, firstByte, secondByte,
    thirdByte]

theorem decodeGroups_nil (output : Output) : decodeGroups [] output = output := by
  simp [decodeGroups]

theorem decodeGroups_base64 (value written : List UInt8) :
    decodeGroups (base64 value) (writtenOutput written value.length) =
      writtenOutput (written ++ value) 0 := by
  have zero : (0 : UInt8).toNat = 0 := rfl
  induction value using Base64Url.sextets.induct generalizing written with
  | case1 a b c rest ih =>
      rw [base64_cons, decodeGroups_cons (base64DigitValue_digitOf _) (base64DigitValue_digitOf _)
        (base64DigitValue_digitOf _) (base64DigitValue_digitOf _)]
      simp only [List.length_cons, pushInside_written, UInt8.ofNat_toNat, ih]
      simp only [List.append_assoc, List.cons_append, List.nil_append]
  | case2 a b =>
      have fourth : base64DigitValue equalsSign = joinBytes a b 0 % 64 := by
        rw [base64DigitValue_equalsSign, joinBytes_eq, zero]
        omega
      rw [base64_pair, decodeGroups_cons (base64DigitValue_digitOf _) (base64DigitValue_digitOf _)
        (base64DigitValue_digitOf _) fourth, decodeGroups_nil]
      simp only [List.length_cons, List.length_nil, pushInside_written, pushInside_full,
        UInt8.ofNat_toNat, List.append_assoc, List.cons_append, List.nil_append]
  | case3 a =>
      have third : base64DigitValue equalsSign = joinBytes a 0 0 >>> 6 % 64 := by
        rw [base64DigitValue_equalsSign, joinBytes_eq, zero, Nat.shiftRight_eq_div_pow]
        omega
      have fourth : base64DigitValue equalsSign = joinBytes a 0 0 % 64 := by
        rw [base64DigitValue_equalsSign, joinBytes_eq, zero]
        omega
      rw [base64_single, decodeGroups_cons (base64DigitValue_digitOf _) (base64DigitValue_digitOf _)
        third fourth, decodeGroups_nil]
      simp only [List.length_cons, List.length_nil, pushInside_written, pushInside_full,
        UInt8.ofNat_toNat]
  | case4 => rw [base64_nil, decodeGroups_nil, List.append_nil]; rfl

theorem endsWith_append {front back suffix : Text} (short : suffix.length ≤ back.length) :
    suffix <:+ front ++ back ↔ suffix <:+ back := by
  rw [List.suffix_iff_eq_drop, List.suffix_iff_eq_drop, List.length_append,
    Nat.add_sub_assoc short, List.drop_append, List.drop_eq_nil_of_le (Nat.le_add_right ..),
    List.nil_append, Nat.add_sub_cancel_left]

/-- The padding that the decoder sees. -/
def paddingOf (text : Text) : Nat :=
  if [equalsSign, equalsSign] <:+ text then 2 else if [equalsSign] <:+ text then 1 else 0

theorem paddingOf_of_digit {front : Text} (bits : Nat) :
    paddingOf (front ++ [digitOf base64Alphabet bits]) = 0 := by
  have single : ¬ [equalsSign] <:+ front ++ [digitOf base64Alphabet bits] := by
    intro ends
    have back : [equalsSign] <:+ [digitOf base64Alphabet bits] := (endsWith_append (by simp)).mp ends
    exact digitOf_ne_equalsSign bits (List.cons.inj (back.eq_of_length rfl)).1.symm
  have double : ¬ [equalsSign, equalsSign] <:+ front ++ [digitOf base64Alphabet bits] := fun ends =>
    single ((List.suffix_cons equalsSign [equalsSign]).trans ends)
  rw [paddingOf, if_neg double, if_neg single]

theorem paddingOf_append {front back : Text} (long : 2 ≤ back.length) :
    paddingOf (front ++ back) = paddingOf back := by
  have single : [equalsSign].length ≤ back.length := le_trans (by decide) long
  simp only [paddingOf, endsWith_append (show [equalsSign, equalsSign].length ≤ back.length from long),
    endsWith_append single]

theorem length_sub_paddingOf (value : List UInt8) :
    (base64 value).length / 4 * 3 - paddingOf (base64 value) = value.length := by
  induction value using Base64Url.sextets.induct with
  | case1 a b c rest ih =>
      have last : paddingOf (base64 (a :: b :: c :: rest)) = paddingOf (base64 rest) := by
        rw [base64_cons]
        obtain _ | ⟨d, rest⟩ := rest
        · rw [base64_nil]
          exact @paddingOf_of_digit [_, _, _] _
        · have long : 2 ≤ (base64 (d :: rest)).length := by
            rw [length_base64, List.length_cons]
            omega
          exact @paddingOf_append [_, _, _, _] _ long
      have small : paddingOf (base64 rest) ≤ (base64 rest).length / 4 * 3 := by
        obtain _ | ⟨d, rest⟩ := rest
        · rw [base64_nil]
          decide
        · have two : paddingOf (base64 (d :: rest)) ≤ 2 := by
            unfold paddingOf
            split
            · exact le_rfl
            · split <;> decide
          rw [length_base64, List.length_cons]
          omega
      rw [last, length_base64]
      rw [length_base64] at ih small
      simp only [List.length_cons]
      omega
  | case2 a b =>
      have padding : paddingOf (base64 [a, b]) = 1 := by
        rw [base64_pair]
        have single : [equalsSign] <:+ [digitOf base64Alphabet (joinBytes a b 0 >>> 18),
            digitOf base64Alphabet (joinBytes a b 0 >>> 12),
            digitOf base64Alphabet (joinBytes a b 0 >>> 6), equalsSign] := ⟨[_, _, _], rfl⟩
        have double : ¬ [equalsSign, equalsSign] <:+ [digitOf base64Alphabet (joinBytes a b 0 >>> 18),
            digitOf base64Alphabet (joinBytes a b 0 >>> 12)] ++
            [digitOf base64Alphabet (joinBytes a b 0 >>> 6), equalsSign] := by
          intro ends
          have back := (endsWith_append (by simp)).mp ends
          exact digitOf_ne_equalsSign _ (List.cons.inj (back.eq_of_length rfl)).1.symm
        exact (if_neg double).trans (if_pos single)
      rw [padding, length_base64]
      simp
  | case3 a =>
      have padding : paddingOf (base64 [a]) = 2 := by
        rw [base64_single]
        exact if_pos ⟨[_, _], rfl⟩
      rw [padding, length_base64]
      simp
  | case4 => rw [base64_nil]; rfl

theorem fromBase64_base64 (value : List UInt8) : fromBase64 (base64 value) = .ok value := by
  have groups : (base64 value).length % 4 = 0 := by
    rw [length_base64]
    exact Nat.mul_mod_left _ _
  have read := decodeGroups_base64 value []
  have room := length_sub_paddingOf value
  have refused : ¬ ((base64 value).length % 4 ≠ 0 ∨ (!matchesBase64 (base64 value)) = true) := by
    simp [groups, matchesBase64_base64]
  have output : (decodeGroups (base64 value)
      { bytes := List.replicate ((base64 value).length / 4 * 3 - paddingOf (base64 value)) 0
        offset := 0 }).bytes = value := by
    rw [room]
    refine (congrArg Output.bytes read).trans ?_
    simp [writtenOutput]
  unfold fromBase64
  rw [if_neg refused]
  unfold paddingOf at output
  dsimp only
  rw [output, if_neg (by simp)]

/-- What is accepted is compared with its encoding. -/
theorem base64_fromBase64 (accepted : fromBase64 text = .ok value) : base64 value = text := by
  unfold fromBase64 at accepted
  split at accepted
  case isTrue => cases accepted
  case isFalse =>
    dsimp only at accepted
    generalize (decodeGroups text _).bytes = output at accepted
    split at accepted
    case isTrue => cases accepted
    case isFalse same =>
      cases accepted
      exact not_not.mp same

/-- Both encodings are bijective onto the texts that are accepted, and the bound of the
accumulator is never seen. -/
theorem encodings_bijective :
    (∀ value : List UInt8, fromBase64url (base64url value) = .ok value ∧
      fromBase64 (base64 value) = .ok value) ∧
    (∀ (text : Text) (value : List UInt8), fromBase64url text = .ok value → base64url value = text) ∧
    (∀ (text : Text) (value : List UInt8), fromBase64 text = .ok value → base64 value = text) ∧
    ∀ text : Text, fromBase64url text = fromBase64urlOver id text :=
  ⟨fun value => ⟨fromBase64url_base64url value, fromBase64_base64 value⟩,
    fun _ _ => base64url_fromBase64url, fun _ _ => base64_fromBase64, fromBase64url_eq_unbounded⟩

end OpenClaw.Reef
