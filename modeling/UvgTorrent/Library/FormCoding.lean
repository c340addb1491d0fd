import UvgTorrent.Library.CString

/-!
# Form decoding

A text in which every percent sign is followed by two hexadecimal digits is
spelled by a list of items, and each item stands for one byte.
-/

namespace FormCoding

open CText

/-- A hexadecimal digit.  Digits below ten have one form. -/
structure HexDigit where
  value : Fin 16
  upper : Bool

def HexDigit.byte (digit : HexDigit) : UInt8 :=
  let digits :=
    if digit.upper then "0123456789ABCDEF" else "0123456789abcdef"
  (text digits).getD digit.value 0

inductive FormItem where
  | kept (byte : UInt8) (noEscape : byte ≠ ch '%') (noPlus : byte ≠ ch '+')
  | plus
  | escape (high low : HexDigit)

/-- How an item is written. -/
def FormItem.spelling : FormItem → List UInt8
  | .kept byte _ _ => [byte]
  | .plus => [ch '+']
  | .escape high low => [ch '%', high.byte, low.byte]

/-- What an item stands for. -/
def FormItem.meaning : FormItem → UInt8
  | .kept byte _ _ => byte
  | .plus => ch ' '
  | .escape high low => UInt8.ofNat (16 * high.value + low.value)

def spell (items : List FormItem) : List UInt8 :=
  items.flatMap FormItem.spelling

def decode (items : List FormItem) : List UInt8 :=
  items.map FormItem.meaning

/-- Each percent sign is followed by two hexadecimal digits. -/
def Escaped (bytes : List UInt8) : Prop :=
  ∀ before rest, bytes = before ++ ch '%' :: rest →
    ∃ (high low : HexDigit) (after : List UInt8),
      rest = high.byte :: low.byte :: after

section Items

variable {bytes rest : List UInt8}

theorem HexDigit.noEscape (digit : HexDigit) : digit.byte ≠ ch '%' := by
  have each : ∀ (value : Fin 16) (upper : Bool),
      HexDigit.byte ⟨value, upper⟩ ≠ ch '%' := by
    decide
  exact each digit.value digit.upper

/-- What follows a part of an escaped text is escaped. -/
theorem Escaped.behind {front : List UInt8}
    (escaped : Escaped (front ++ rest)) : Escaped rest := by
  intro before after split
  apply escaped (front ++ before)
  rw [split, List.append_assoc]

theorem escaped_nil : Escaped [] := by
  intro before rest split
  exact absurd split.symm (List.append_ne_nil_of_right_ne_nil _
    (List.cons_ne_nil _ _))

/-- The first item of an escaped text, and what follows it. -/
theorem Escaped.first {byte : UInt8} (escaped : Escaped (byte :: rest)) :
    ∃ (item : FormItem) (after : List UInt8),
      byte :: rest = item.spelling ++ after := by
  by_cases isEscape : byte = ch '%'
  · rcases escaped [] rest (congrArg (· :: rest) isEscape) with
      ⟨high, low, after, behind⟩
    exact ⟨.escape high low, after, by rw [behind, isEscape]; rfl⟩
  · by_cases isPlus : byte = ch '+'
    · exact ⟨.plus, rest, congrArg (· :: rest) isPlus⟩
    · exact ⟨.kept byte isEscape isPlus, rest, rfl⟩

theorem FormItem.spelling_ne_nil (item : FormItem) : item.spelling ≠ [] := by
  cases item <;> exact List.cons_ne_nil _ _

/-- An escaped text is spelled by items. -/
theorem Escaped.items (escaped : Escaped bytes) :
    ∃ items, bytes = spell items := by
  induction size : bytes.length using Nat.strongRecOn generalizing bytes with
  | ind length inductionHypothesis =>
      cases bytes with
      | nil =>
          exact ⟨[], rfl⟩
      | cons byte rest =>
          rcases escaped.first with ⟨item, after, split⟩
          have nonempty := List.length_pos_iff.mpr item.spelling_ne_nil
          have sizes := congrArg List.length split
          rw [List.length_append, size] at sizes
          rw [split] at escaped
          rcases inductionHypothesis after.length (by omega)
            escaped.behind rfl with ⟨items, further⟩
          exact ⟨item :: items, by rw [split, further]; rfl⟩

theorem escaped_plain {byte : UInt8} (noEscape : byte ≠ ch '%')
    (escaped : Escaped rest) : Escaped (byte :: rest) := by
  intro before after split
  cases before with
  | nil =>
      exact absurd (List.cons.inj split).1 noEscape
  | cons first before =>
      exact escaped before after (List.cons.inj split).2

theorem escaped_escape (high low : HexDigit) (escaped : Escaped rest) :
    Escaped (ch '%' :: high.byte :: low.byte :: rest) := by
  intro before after split
  cases before with
  | nil =>
      exact ⟨high, low, rest, (List.cons.inj split).2.symm⟩
  | cons first before =>
      have further := escaped_plain high.noEscape
        (escaped_plain low.noEscape escaped)
      exact further before after (List.cons.inj split).2

/-- And what items spell is escaped. -/
theorem escaped_spell (items : List FormItem) : Escaped (spell items) := by
  induction items with
  | nil =>
      exact escaped_nil
  | cons item items inductionHypothesis =>
      cases item with
      | kept byte noEscape noPlus =>
          exact escaped_plain noEscape inductionHypothesis
      | plus =>
          exact escaped_plain (by decide) inductionHypothesis
      | escape high low =>
          exact escaped_escape high low inductionHypothesis

end Items

end FormCoding
