import Mathlib.Data.List.Basic
import Mathlib.Data.List.Lex

/-!
The JavaScript string operations used by the modelled code where they differ from
Lean's: trimming removes the ECMAScript white space and line terminators, and the
relational operators compare UTF-16 code units.
-/

namespace JsText

/-- ECMAScript `WhiteSpace` and `LineTerminator` code points. -/
def isWhitespace (c : Char) : Bool :=
  c.toNat ∈ [0x9, 0xA, 0xB, 0xC, 0xD, 0x20, 0xA0, 0x1680, 0x2028, 0x2029, 0x202F, 0x205F,
    0x3000, 0xFEFF] || (0x2000 ≤ c.toNat && c.toNat ≤ 0x200A)

def trimChars (cs : List Char) : List Char :=
  ((cs.dropWhile isWhitespace).reverse.dropWhile isWhitespace).reverse

/-- `String.prototype.trim`. -/
def trim (s : String) : String := String.ofList (trimChars s.toList)

theorem dropWhile_isWhitespace (cs : List Char) : cs.dropWhile isWhitespace = [] ∨
    ∃ c rest, cs.dropWhile isWhitespace = c :: rest ∧ isWhitespace c = false := by
  induction cs with
  | nil => exact .inl rfl
  | cons c rest ih =>
      cases space : isWhitespace c with
      | true => simpa [space] using ih
      | false => exact .inr ⟨c, rest, by simp [space], space⟩

theorem dropWhile_dropWhile (cs : List Char) :
    (cs.dropWhile isWhitespace).dropWhile isWhitespace = cs.dropWhile isWhitespace := by
  rcases dropWhile_isWhitespace cs with blank | ⟨c, rest, body, inner⟩
  · simp [blank]
  · simp [body, inner]

theorem trimChars_trimChars (cs : List Char) : trimChars (trimChars cs) = trimChars cs := by
  unfold trimChars
  rcases dropWhile_isWhitespace cs with blank | ⟨c, rest, body, inner⟩
  · simp [blank]
  -- trimming the end keeps the first character, which is no white space
  have kept : ∃ middle, ((c :: rest).reverse.dropWhile isWhitespace).reverse = c :: middle := by
    rw [List.reverse_cons, List.dropWhile_append]
    split <;> simp [inner]
  obtain ⟨middle, eq⟩ := kept
  have stays : (c :: middle).dropWhile isWhitespace = c :: middle := by simp [inner]
  rw [body, eq, stays, ← eq, List.reverse_reverse, dropWhile_dropWhile]

theorem trim_trim (s : String) : trim (trim s) = trim s := by
  simp only [trim, String.toList_ofList, trimChars_trimChars]

/-- `String.prototype.startsWith` at position zero. -/
def startsWith (s pre : String) : Bool := pre.toList.isPrefixOf s.toList

/-- The UTF-16 code units of one code point. -/
def codeUnits (c : Char) : List Nat :=
  if c.toNat < 0x10000 then [c.toNat]
  else [0xD800 + (c.toNat - 0x10000) / 0x400, 0xDC00 + (c.toNat - 0x10000) % 0x400]

theorem codeUnits_ne_nil (c : Char) : codeUnits c ≠ [] := by
  unfold codeUnits
  split <;> simp

/-- Code points are recovered from the front: a surrogate pair starts with no code point. -/
theorem codeUnits_append_inj {c d : Char} {xs ys : List Nat}
    (same : codeUnits c ++ xs = codeUnits d ++ ys) : c = d ∧ xs = ys := by
  have ofNat : c.toNat = d.toNat → c = d := fun eq => Char.ext (UInt32.toNat_inj.mp eq)
  have valid : ∀ e : Char, e.toNat < 0xD800 ∨ 0xDFFF < e.toNat ∧ e.toNat < 0x110000 :=
    fun e => e.valid
  have validC := valid c
  have validD := valid d
  unfold codeUnits at same
  split at same <;> split at same <;>
    simp only [List.cons_append, List.nil_append, List.cons.injEq] at same
  · exact ⟨ofNat same.1, same.2⟩
  · omega
  · omega
  · exact ⟨ofNat (by omega), same.2.2⟩

def units (s : String) : List Nat := s.toList.flatMap codeUnits

theorem flatMap_codeUnits_injective (xs ys : List Char)
    (same : xs.flatMap codeUnits = ys.flatMap codeUnits) : xs = ys := by
  induction xs generalizing ys with
  | nil =>
      cases ys with
      | nil => rfl
      | cons d ys => exact absurd same.symm (by simp [codeUnits_ne_nil])
  | cons c xs ih =>
      cases ys with
      | nil => exact absurd same (by simp [codeUnits_ne_nil])
      | cons d ys =>
          obtain ⟨rfl, rest⟩ := codeUnits_append_inj same
          rw [ih ys rest]

theorem units_injective : Function.Injective units :=
  fun _ _ same => String.toList_inj.mp (flatMap_codeUnits_injective _ _ same)

/-- `replaceAll(/\s+/g, " ")`: every maximal run of white space becomes one blank. -/
def collapseChars : List Char → List Char
  | [] => []
  | c :: cs =>
      if isWhitespace c then
        if (cs.head?.map isWhitespace).getD false then collapseChars cs else ' ' :: collapseChars cs
      else c :: collapseChars cs

/-- `left < right` on strings. -/
def lt (left right : String) : Bool :=
  decide (left.toList.flatMap codeUnits < right.toList.flatMap codeUnits)

theorem lt_eq_false {left right : String} : lt left right = false ↔ units right ≤ units left := by
  simp [lt, units]

end JsText
