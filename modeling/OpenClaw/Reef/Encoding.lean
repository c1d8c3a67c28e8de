import OpenClaw.Lib.Base64Url
import OpenClaw.Lib.Fallible
import OpenClaw.Lib.JsUnits

/-!
The text encodings of bytes. The decoder of `base64url` keeps its bits in a number of 32 bits
that is shifted and never masked; what is shifted out of it is not read again, so the bytes and
the padding check are those of an accumulator without a bound.
-/

namespace OpenClaw.Reef

open JsUnits
open Base64Url (sextets bytes Canonical)

variable {text rest : Text} {n : Nat}

def capitals : Text := (List.range 26).map fun n => (0x41 + n).toUInt16
def letters : Text := (List.range 26).map fun n => (0x61 + n).toUInt16
def digits : Text := (List.range 10).map fun n => (0x30 + n).toUInt16

def alphabet : Text := capitals ++ letters ++ digits ++ [0x2D, 0x5F]
def base64Alphabet : Text := capitals ++ letters ++ digits ++ [0x2B, 0x2F]
def equalsSign : UInt16 := 0x3D

/-- The digit that the low six bits select. -/
def digitOf (alphabet : Text) (bits : Nat) : UInt16 := alphabet.getD (bits % 64) 0

/-- `(a << 16) | (b << 8) | c`. -/
def joinBytes (a b c : UInt8) : Nat := a.toNat <<< 16 ||| b.toNat <<< 8 ||| c.toNat

def base64url : List UInt8 → Text
  | [] => []
  | a :: rest =>
      let bits := joinBytes a (rest.getD 0 0) (rest.getD 1 0)
      digitOf alphabet (bits >>> 18) :: digitOf alphabet (bits >>> 12) ::
        ((if 0 < rest.length then [digitOf alphabet (bits >>> 6)] else []) ++
          (if 1 < rest.length then [digitOf alphabet bits] else []) ++ base64url (rest.drop 2))
termination_by value => value.length
decreasing_by
  rw [List.length_drop, List.length_cons]
  omega

/-- The class `[A-Za-z0-9]`. -/
def isAlphanumeric (unit : UInt16) : Bool :=
  (0x41 ≤ unit.toNat && unit.toNat ≤ 0x5A) || (0x61 ≤ unit.toNat && unit.toNat ≤ 0x7A) ||
    (0x30 ≤ unit.toNat && unit.toNat ≤ 0x39)

/-- The class `[A-Za-z0-9_-]`. -/
def isBase64urlDigit (unit : UInt16) : Bool := isAlphanumeric unit || unit == 0x5F || unit == 0x2D

/-- The class `[A-Za-z0-9+/]`. -/
def isBase64Digit (unit : UInt16) : Bool := isAlphanumeric unit || unit == 0x2B || unit == 0x2F

/-- `output[offset] = byte`, which is lost behind the end of the output. -/
structure Output where
  bytes : List UInt8
  offset : Nat

def Output.push (output : Output) (byte : Nat) : Output :=
  { bytes := output.bytes.set output.offset (UInt8.ofNat byte), offset := output.offset + 1 }

structure Accumulator where
  bits : Nat
  count : Nat
  output : Output

/-- One character: its digit is shifted in, and a byte is shifted out once there are eight bits.
The accumulator keeps what `wrap` leaves of its bits. -/
def Accumulator.step (wrap : Nat → Nat) (state : Accumulator) (character : UInt16) : Accumulator :=
  let digit := alphabet.idxOf character
  let bits := wrap (state.bits <<< 6 ||| digit)
  let count := state.count + 6
  if 8 ≤ count then
    { bits, count := count - 8, output := state.output.push ((bits >>> (count - 8)) % 256) }
  else { bits, count, output := state.output }

/-- The bytes, if no bits are left over. -/
def Accumulator.finish (state : Accumulator) : Except String (List UInt8) :=
  if 0 < state.count ∧ state.bits &&& ((1 <<< state.count) - 1) ≠ 0 then
    .error "invalid base64url padding"
  else .ok state.output.bytes

/-- `fromBase64url` over an accumulator of some width. -/
def fromBase64urlOver (wrap : Nat → Nat) (value : Text) : Except String (List UInt8) :=
  if !value.all isBase64urlDigit ∨ value.length % 4 = 1 then .error "invalid base64url"
  else
    let empty : Output := { bytes := List.replicate (value.length * 6 / 8) 0, offset := 0 }
    (value.foldl (Accumulator.step wrap) { bits := 0, count := 0, output := empty }).finish

/-- Bitwise operations keep 32 bits. -/
def wrap32 (bits : Nat) : Nat := bits % 2 ^ 32

def fromBase64url (value : Text) : Except String (List UInt8) := fromBase64urlOver wrap32 value

def base64 : List UInt8 → Text
  | [] => []
  | a :: rest =>
      let bits := joinBytes a (rest.getD 0 0) (rest.getD 1 0)
      digitOf base64Alphabet (bits >>> 18) :: digitOf base64Alphabet (bits >>> 12) ::
        (if 0 < rest.length then digitOf base64Alphabet (bits >>> 6) else equalsSign) ::
          (if 1 < rest.length then digitOf base64Alphabet bits else equalsSign) ::
            base64 (rest.drop 2)
termination_by value => value.length
decreasing_by
  rw [List.length_drop, List.length_cons]
  omega

/-- The pattern of `fromBase64`: groups of four digits, of which the last may be padded. -/
def matchesBase64 : Text → Bool
  | [] => true
  | [a, b, c, d] =>
      [a, b, c, d].all isBase64Digit || ([a, b].all isBase64Digit && [c, d] == [equalsSign, equalsSign])
        || ([a, b, c].all isBase64Digit && d == equalsSign)
  | a :: b :: c :: d :: rest => [a, b, c, d].all isBase64Digit && matchesBase64 rest
  | _ => false

def base64DigitValue (character : UInt16) : Nat :=
  if character = equalsSign then 0 else base64Alphabet.idxOf character

/-- `if (offset < output.length) output[offset++] = byte`. -/
def Output.pushInside (output : Output) (byte : Nat) : Output :=
  if output.offset < output.bytes.length then output.push byte else output

def decodeGroups : Text → Output → Output
  | a :: b :: c :: d :: rest, output =>
      let bits := base64DigitValue a <<< 18 ||| base64DigitValue b <<< 12 ||| base64DigitValue c <<< 6 |||
        base64DigitValue d
      decodeGroups rest (((output.pushInside ((bits >>> 16) % 256)).pushInside
        ((bits >>> 8) % 256)).pushInside (bits % 256))
  | _, output => output

def fromBase64 (value : Text) : Except String (List UInt8) :=
  if value.length % 4 ≠ 0 ∨ !matchesBase64 value then .error "invalid base64"
  else
    let padding :=
      if [equalsSign, equalsSign] <:+ value then 2 else if [equalsSign] <:+ value then 1 else 0
    let empty : Output := { bytes := List.replicate (value.length / 4 * 3 - padding) 0, offset := 0 }
    let output := (decodeGroups value empty).bytes
    if base64 output ≠ value then .error "non-canonical base64" else .ok output

/-- The values of an alphabet of 64 digits. -/
structure Alphabet (alphabet : Text) : Prop where
  nodup : alphabet.Nodup
  length : alphabet.length = 64

theorem alphabet_spec : Alphabet alphabet := ⟨by decide, rfl⟩

theorem base64Alphabet_spec : Alphabet base64Alphabet := ⟨by decide, rfl⟩

theorem Alphabet.idxOf_digitOf {alphabet : Text} (spec : Alphabet alphabet) (bits : Nat) :
    alphabet.idxOf (digitOf alphabet bits) = bits % 64 := by
  have below : bits % 64 < alphabet.length := by
    rw [spec.length]
    exact Nat.mod_lt _ (by decide)
  rw [digitOf, List.getD_eq_getElem _ _ below]
  exact spec.nodup.idxOf_getElem _ below

theorem digitOf_idxOf {alphabet : Text} (spec : Alphabet alphabet) {unit : UInt16}
    (mem : unit ∈ alphabet) : alphabet.idxOf unit < 64 ∧
      digitOf alphabet (alphabet.idxOf unit) = unit := by
  have below := List.idxOf_lt_length_of_mem mem
  have small : alphabet.idxOf unit < 64 := spec.length ▸ below
  rw [digitOf, Nat.mod_eq_of_lt small, List.getD_eq_getElem _ _ below, List.getElem_idxOf]
  exact ⟨small, rfl⟩

theorem isAlphanumeric_iff {unit : UInt16} :
    isAlphanumeric unit = true ↔ unit ∈ capitals ++ letters ++ digits := by
  constructor
  · intro class_
    have unit_ : unit = unit.toNat.toUInt16 := by simp
    simp only [isAlphanumeric, Bool.or_eq_true, Bool.and_eq_true, decide_eq_true_eq] at class_
    rw [unit_]
    generalize unit.toNat = n at class_
    obtain (⟨low, high⟩ | ⟨low, high⟩) | ⟨low, high⟩ := class_
    all_goals interval_cases n <;> decide
  · revert unit
    have all : ((capitals ++ letters ++ digits).all isAlphanumeric) = true := by decide
    exact fun unit mem => List.all_eq_true.mp all unit mem

theorem isBase64urlDigit_iff {unit : UInt16} : isBase64urlDigit unit = true ↔ unit ∈ alphabet := by
  simp only [isBase64urlDigit, Bool.or_eq_true, isAlphanumeric_iff, beq_iff_eq, alphabet,
    List.mem_append, List.mem_cons, List.not_mem_nil, or_false]
  tauto

theorem isBase64Digit_iff {unit : UInt16} : isBase64Digit unit = true ↔ unit ∈ base64Alphabet := by
  simp only [isBase64Digit, Bool.or_eq_true, isAlphanumeric_iff, beq_iff_eq, base64Alphabet,
    List.mem_append, List.mem_cons, List.not_mem_nil, or_false]
  tauto

end OpenClaw.Reef

/-!
The text encodings are bijective. The digits of encoded bytes are their groups of six bits, and
four digits are read back as three bytes whatever the accumulator held before; a text whose last
digit has bits left over is refused, so the digits of what is decoded are those of the text.
-/

namespace OpenClaw.Reef

open JsUnits
open Base64Url (sextets bytes Canonical)

variable {text : Text} {wrap : Nat → Nat} {values : List Nat} {written : List UInt8} {n k : Nat}

theorem joinBytes_eq (a b c : UInt8) :
    joinBytes a b c = a.toNat * 65536 + b.toNat * 256 + c.toNat := by
  have hb := b.toNat_lt
  have hc := c.toNat_lt
  have low : b.toNat <<< 8 ||| c.toNat = b.toNat * 256 + c.toNat := by
    rw [← Nat.shiftLeft_add_eq_or_of_lt hc, Nat.shiftLeft_eq]
  rw [joinBytes, Nat.or_assoc, low, ← Nat.shiftLeft_add_eq_or_of_lt (by omega), Nat.shiftLeft_eq,
    Nat.add_assoc]

theorem digitOf_mod (alphabet : Text) {bits value : Nat} (same : bits % 64 = value % 64) :
    digitOf alphabet bits = digitOf alphabet value := by
  rw [digitOf, digitOf, same]

/-- The digits of bytes are those of their groups of six bits. -/
theorem base64url_eq (value : List UInt8) :
    base64url value = (sextets value).map (digitOf alphabet) := by
  induction value using Base64Url.sextets.induct with
  | case1 a b c rest ih =>
      have hb := b.toNat_lt
      have hc := c.toNat_lt
      rw [base64url]
      simp only [List.getD_cons_zero, List.getD_cons_succ, List.drop_succ_cons, List.drop_zero, ih,
        joinBytes_eq, List.length_cons, sextets, List.map_cons, Nat.shiftRight_eq_div_pow]
      rw [if_pos (by omega), if_pos (by omega)]
      simp only [List.cons_append, List.nil_append, List.cons.injEq, and_true]
      exact ⟨digitOf_mod _ (by omega), digitOf_mod _ (by omega), digitOf_mod _ (by omega),
        digitOf_mod _ (by omega)⟩
  | case2 a b =>
      have hb := b.toNat_lt
      rw [base64url]
      simp only [List.getD_cons_zero, List.getD_cons_succ, List.getD_nil, List.drop_succ_cons,
        List.drop_nil, base64url, joinBytes_eq, List.length_cons, List.length_nil, sextets,
        List.map_cons, List.map_nil, Nat.shiftRight_eq_div_pow]
      rw [if_pos (by omega), if_neg (by omega)]
      simp only [List.cons_append, List.nil_append, List.cons.injEq, and_true]
      exact ⟨digitOf_mod _ (by simp; omega), digitOf_mod _ (by simp; omega),
        digitOf_mod _ (by simp; omega)⟩
  | case3 a =>
      rw [base64url]
      simp only [List.getD_nil, List.drop_nil, base64url, joinBytes_eq, List.length_nil, sextets,
        List.map_cons, List.map_nil, Nat.shiftRight_eq_div_pow]
      rw [if_neg (by omega), if_neg (by omega)]
      simp only [List.append_nil, List.cons.injEq, and_true]
      exact ⟨digitOf_mod _ (by simp; omega), digitOf_mod _ (by simp; omega)⟩
  | case4 => rw [base64url]; rfl

/-- The output after some bytes, with room for as many. -/
def writtenOutput (written : List UInt8) (room : Nat) : Output :=
  { bytes := written ++ List.replicate room 0, offset := written.length }

theorem push_written (written : List UInt8) (room byte : Nat) :
    (writtenOutput written (room + 1)).push byte = writtenOutput (written ++ [UInt8.ofNat byte]) room := by
  simp [writtenOutput, Output.push, List.replicate_succ, List.set_append_right]

/-- The accumulator keeps all that a byte or the padding check reads. -/
def KeepsLowBits (wrap : Nat → Nat) : Prop := ∀ bits, wrap bits % 2 ^ 14 = bits % 2 ^ 14

theorem step_digit (wrap : Nat → Nat) (bits count : Nat) (output : Output) {value : Nat}
    (below : value < 64) :
    Accumulator.step wrap { bits, count, output } (digitOf alphabet value) =
      if 8 ≤ count + 6 then
        { bits := wrap (bits * 64 + value), count := count + 6 - 8
          output := output.push (wrap (bits * 64 + value) / 2 ^ (count + 6 - 8) % 256) }
      else { bits := wrap (bits * 64 + value), count := count + 6, output } := by
  have joined : bits <<< 6 ||| value = bits * 64 + value := by
    rw [← Nat.shiftLeft_add_eq_or_of_lt below, Nat.shiftLeft_eq]
  rw [Accumulator.step, alphabet_spec.idxOf_digitOf, Nat.mod_eq_of_lt below, joined,
    Nat.shiftRight_eq_div_pow]

/-- Four digits are three bytes, whatever the accumulator holds before. -/
theorem foldl_group (keeps : KeepsLowBits wrap) (bits : Nat) (output : Output) {p q r s : Nat}
    (hp : p < 64) (hq : q < 64) (hr : r < 64) (hs : s < 64) :
    ∃ bits', ([p, q, r, s].map (digitOf alphabet)).foldl (Accumulator.step wrap)
        { bits, count := 0, output } =
      { bits := bits', count := 0
        output := ((output.push (p * 4 + q / 16)).push (q % 16 * 16 + r / 4)).push (r % 4 * 64 + s) } := by
  have first := keeps (bits * 64 + p)
  have second := keeps (wrap (bits * 64 + p) * 64 + q)
  have third := keeps (wrap (wrap (bits * 64 + p) * 64 + q) * 64 + r)
  have fourth := keeps (wrap (wrap (wrap (bits * 64 + p) * 64 + q) * 64 + r) * 64 + s)
  rw [List.map_cons, List.map_cons, List.map_cons, List.map_cons, List.map_nil, List.foldl_cons,
    List.foldl_cons, List.foldl_cons, List.foldl_cons, List.foldl_nil]
  rw [step_digit wrap _ _ _ hp, if_neg (by decide), step_digit wrap _ _ _ hq, if_pos (by decide),
    step_digit wrap _ _ _ hr, if_pos (by decide), step_digit wrap _ _ _ hs, if_pos (by decide)]
  generalize wrap (bits * 64 + p) = b₁ at *
  generalize wrap (b₁ * 64 + q) = b₂ at *
  generalize wrap (b₂ * 64 + r) = b₃ at *
  generalize wrap (b₃ * 64 + s) = b₄ at *
  have firstByte : b₂ / 2 ^ (0 + 6 + 6 - 8) % 256 = p * 4 + q / 16 := by omega
  have secondByte : b₃ / 2 ^ (0 + 6 + 6 - 8 + 6 - 8) % 256 = q % 16 * 16 + r / 4 := by omega
  have thirdByte : b₄ / 2 ^ (0 + 6 + 6 - 8 + 6 - 8 + 6 - 8) % 256 = r % 4 * 64 + s := by omega
  rw [firstByte, secondByte, thirdByte]
  exact ⟨b₄, rfl⟩

/-- What the loop leaves: the bytes that the digits spell, and bits left over unless the digits
are canonical. -/
theorem foldl_digits (keeps : KeepsLowBits wrap) (below : ∀ value ∈ values, value < 64)
    (whole : values.length % 4 ≠ 1) (bits : Nat) (written : List UInt8) :
    let state := (values.map (digitOf alphabet)).foldl (Accumulator.step wrap)
      { bits, count := 0, output := writtenOutput written (values.length * 6 / 8) }
    state.output.bytes = written ++ bytes values ∧
      ((0 < state.count ∧ state.bits &&& ((1 <<< state.count) - 1) ≠ 0) ↔ ¬ Canonical values) := by
  induction values using Base64Url.bytes.induct generalizing bits written with
  | case1 p q r s rest ih =>
      simp only [List.forall_mem_cons] at below
      obtain ⟨hp, hq, hr, hs, others⟩ := below
      have room : (p :: q :: r :: s :: rest).length * 6 / 8 = rest.length * 6 / 8 + 1 + 1 + 1 := by
        simp only [List.length_cons]
        omega
      have split : (p :: q :: r :: s :: rest).map (digitOf alphabet) =
          [p, q, r, s].map (digitOf alphabet) ++ rest.map (digitOf alphabet) := rfl
      obtain ⟨bits', group⟩ := foldl_group keeps bits
        (writtenOutput written (rest.length * 6 / 8 + 1 + 1 + 1)) hp hq hr hs
      rw [room, split, List.foldl_append, group, push_written, push_written, push_written]
      have whole' : rest.length % 4 ≠ 1 := by
        simp only [List.length_cons] at whole
        omega
      obtain ⟨spelled, left⟩ := ih others whole' bits'
        (written ++ [UInt8.ofNat (p * 4 + q / 16)] ++ [UInt8.ofNat (q % 16 * 16 + r / 4)] ++
          [UInt8.ofNat (r % 4 * 64 + s)])
      refine ⟨?_, left⟩
      rw [spelled, bytes]
      simp only [List.append_assoc, List.cons_append, List.nil_append]
  | case2 p q r =>
      simp only [List.forall_mem_cons] at below
      obtain ⟨hp, hq, hr, _⟩ := below
      have first := keeps (bits * 64 + p)
      have second := keeps (wrap (bits * 64 + p) * 64 + q)
      have third := keeps (wrap (wrap (bits * 64 + p) * 64 + q) * 64 + r)
      have room : [p, q, r].length * 6 / 8 = 0 + 1 + 1 := by simp
      rw [room, List.map_cons, List.map_cons, List.map_cons, List.map_nil, List.foldl_cons,
        List.foldl_cons, List.foldl_cons, List.foldl_nil, step_digit wrap _ _ _ hp,
        if_neg (by decide), step_digit wrap _ _ _ hq, if_pos (by decide), step_digit wrap _ _ _ hr,
        if_pos (by decide)]
      generalize wrap (bits * 64 + p) = b₁ at *
      generalize wrap (b₁ * 64 + q) = b₂ at *
      generalize wrap (b₂ * 64 + r) = b₃ at *
      have firstByte : b₂ / 2 ^ (0 + 6 + 6 - 8) % 256 = p * 4 + q / 16 := by omega
      have secondByte : b₃ / 2 ^ (0 + 6 + 6 - 8 + 6 - 8) % 256 = q % 16 * 16 + r / 4 := by omega
      have left : b₃ &&& ((1 <<< (0 + 6 + 6 - 8 + 6 - 8)) - 1) = b₃ % 4 :=
        Nat.and_two_pow_sub_one_eq_mod _ 2
      rw [firstByte, secondByte, push_written, push_written]
      refine ⟨by simp [writtenOutput, bytes], ?_⟩
      dsimp only
      rw [left, Canonical]
      omega
  | case3 p q =>
      simp only [List.forall_mem_cons] at below
      obtain ⟨hp, hq, _⟩ := below
      have first := keeps (bits * 64 + p)
      have second := keeps (wrap (bits * 64 + p) * 64 + q)
      have room : [p, q].length * 6 / 8 = 0 + 1 := by simp
      rw [room, List.map_cons, List.map_cons, List.map_nil, List.foldl_cons, List.foldl_cons,
        List.foldl_nil, step_digit wrap _ _ _ hp, if_neg (by decide), step_digit wrap _ _ _ hq,
        if_pos (by decide)]
      generalize wrap (bits * 64 + p) = b₁ at *
      generalize wrap (b₁ * 64 + q) = b₂ at *
      have firstByte : b₂ / 2 ^ (0 + 6 + 6 - 8) % 256 = p * 4 + q / 16 := by omega
      have left : b₂ &&& ((1 <<< (0 + 6 + 6 - 8)) - 1) = b₂ % 16 := Nat.and_two_pow_sub_one_eq_mod _ 4
      rw [firstByte, push_written]
      refine ⟨by simp [writtenOutput, bytes], ?_⟩
      dsimp only
      rw [left, Canonical]
      omega
  | case4 p => exact absurd rfl whole
  | case5 => simp [writtenOutput, bytes, Canonical]

/-- The digit values of a text over an alphabet. -/
theorem exists_values {alphabet : Text} (spec : Alphabet alphabet) (mem : ∀ unit ∈ text, unit ∈ alphabet) :
    ∃ values : List Nat, (∀ value ∈ values, value < 64) ∧ text = values.map (digitOf alphabet) := by
  refine ⟨text.map alphabet.idxOf, ?_, ?_⟩
  · intro value inside
    obtain ⟨unit, unitMem, rfl⟩ := List.mem_map.mp inside
    exact (digitOf_idxOf spec (mem unit unitMem)).1
  · rw [List.map_map]
    conv_lhs => rw [← List.map_id text]
    exact List.map_congr_left fun unit inside => (digitOf_idxOf spec (mem unit inside)).2.symm

theorem digitOf_mem (value : Nat) : digitOf alphabet value ∈ alphabet := by
  have below : value % 64 < alphabet.length := Nat.mod_lt _ (by decide)
  rw [digitOf, List.getD_eq_getElem _ _ below]
  exact List.getElem_mem below

theorem not_canonical_of_single (one : values.length % 4 = 1) : ¬ Canonical values := by
  induction values using Base64Url.bytes.induct with
  | case1 p q r s rest ih =>
      refine ih ?_
      simp only [List.length_cons] at one
      omega
  | case2 | case3 | case5 => simp at one
  | case4 => exact id

/-- The decoder accepts canonical digits, and gives the bytes that they spell. -/
theorem fromBase64urlOver_ok_iff (keeps : KeepsLowBits wrap)
    (below : ∀ value ∈ values, value < 64) (written : List UInt8) :
    fromBase64urlOver wrap (values.map (digitOf alphabet)) = .ok written ↔
      Canonical values ∧ written = bytes values := by
  have class_ : (values.map (digitOf alphabet)).all isBase64urlDigit = true := by
    refine List.all_eq_true.mpr fun unit mem => ?_
    obtain ⟨value, _, rfl⟩ := List.mem_map.mp mem
    exact isBase64urlDigit_iff.mpr (digitOf_mem value)
  unfold fromBase64urlOver
  rw [List.length_map]
  split
  case isTrue refused =>
    have one : values.length % 4 = 1 := by simpa [class_] using refused
    simp [not_canonical_of_single one]
  case isFalse accepted =>
    have whole : values.length % 4 ≠ 1 := fun one => accepted (.inr one)
    have loop := foldl_digits keeps below whole 0 []
    dsimp only at loop ⊢
    change Accumulator.finish ((values.map (digitOf alphabet)).foldl (Accumulator.step wrap)
      { bits := 0, count := 0, output := writtenOutput [] (values.length * 6 / 8) }) = _ ↔ _
    generalize (values.map (digitOf alphabet)).foldl (Accumulator.step wrap)
      { bits := 0, count := 0, output := writtenOutput [] (values.length * 6 / 8) } = state at loop ⊢
    obtain ⟨spelled, left⟩ := loop
    unfold Accumulator.finish
    split
    case isTrue remains => simp [left.mp remains]
    case isFalse exact_ =>
      have canonical : Canonical values := not_not.mp fun other => exact_ (left.mpr other)
      rw [spelled, List.nil_append, Except.ok.injEq]
      exact ⟨fun same => ⟨canonical, same.symm⟩, fun both => both.2.symm⟩

theorem keepsLowBits_wrap32 : KeepsLowBits wrap32 := fun bits => by
  rw [wrap32]
  omega

theorem keepsLowBits_id : KeepsLowBits id := fun _ => rfl

/-- Decoding reads the digits of bytes back as the bytes. -/
theorem fromBase64url_base64url (value : List UInt8) : fromBase64url (base64url value) = .ok value := by
  rw [base64url_eq]
  refine (fromBase64urlOver_ok_iff keepsLowBits_wrap32 (Base64Url.sextets_lt value) value).mpr ?_
  exact ⟨Base64Url.canonical_sextets value, (Base64Url.bytes_sextets value).symm⟩

/-- The texts over the alphabet are those of digit values; no other text is accepted. -/
theorem values_of_accepted {value : List UInt8} (accepted : fromBase64urlOver wrap text = .ok value) :
    ∃ values : List Nat, (∀ value ∈ values, value < 64) ∧ text = values.map (digitOf alphabet) := by
  unfold fromBase64urlOver at accepted
  split at accepted
  case isTrue => cases accepted
  case isFalse class_ =>
    have digits : text.all isBase64urlDigit = true := by
      by_contra other
      exact class_ (.inl (by simpa using other))
    exact exists_values alphabet_spec fun unit mem =>
      isBase64urlDigit_iff.mp (List.all_eq_true.mp digits unit mem)

theorem base64url_fromBase64url {value : List UInt8} (accepted : fromBase64url text = .ok value) :
    base64url value = text := by
  obtain ⟨values, below, rfl⟩ := values_of_accepted accepted
  obtain ⟨canonical, rfl⟩ := (fromBase64urlOver_ok_iff keepsLowBits_wrap32 below value).mp accepted
  rw [base64url_eq, Base64Url.sextets_bytes below canonical]

theorem finish_cases (state : Accumulator) :
    state.finish = .error "invalid base64url padding" ∨ ∃ value, state.finish = .ok value := by
  unfold Accumulator.finish
  split
  case isTrue => exact .inl rfl
  case isFalse => exact .inr ⟨_, rfl⟩

theorem fromBase64urlOver_ok_iff_unbounded (keeps : KeepsLowBits wrap) (value : List UInt8) :
    fromBase64urlOver wrap text = .ok value ↔ fromBase64urlOver id text = .ok value := by
  constructor
  · intro accepted
    obtain ⟨values, below, rfl⟩ := values_of_accepted accepted
    exact (fromBase64urlOver_ok_iff keepsLowBits_id below value).mpr
      ((fromBase64urlOver_ok_iff keeps below value).mp accepted)
  · intro accepted
    obtain ⟨values, below, rfl⟩ := values_of_accepted accepted
    exact (fromBase64urlOver_ok_iff keeps below value).mpr
      ((fromBase64urlOver_ok_iff keepsLowBits_id below value).mp accepted)

/-- The width of the accumulator changes neither the bytes nor the padding check. -/
theorem fromBase64url_eq_unbounded (text : Text) : fromBase64url text = fromBase64urlOver id text := by
  have same := @fromBase64urlOver_ok_iff_unbounded text _ keepsLowBits_wrap32
  unfold fromBase64url
  unfold fromBase64urlOver at same ⊢
  split
  case isTrue => rfl
  case isFalse class_ =>
    simp only [if_neg class_] at same
    obtain refused | ⟨value, accepted⟩ := finish_cases (text.foldl (Accumulator.step wrap32)
      { bits := 0, count := 0
        output := { bytes := List.replicate (text.length * 6 / 8) 0, offset := 0 } })
    · obtain refused' | ⟨value, accepted⟩ := finish_cases (text.foldl (Accumulator.step id)
        { bits := 0, count := 0
          output := { bytes := List.replicate (text.length * 6 / 8) 0, offset := 0 } })
      · rw [refused, refused']
      · have other := (same value).mpr accepted
        rw [refused] at other
        cases other
    · rw [accepted, (same value).mp accepted]

end OpenClaw.Reef
