import UvgTorrent.Library.CString

/-!
# Internet addresses as text

The dotted decimal text of a 32-bit address, which no two addresses share.
-/

namespace CText

/-- The text of an address, its highest byte first. -/
def dottedQuad (address : Nat) : List UInt8 :=
  decimal (address / 2 ^ 24 % 256) ++ ch '.' ::
    (decimal (address / 2 ^ 16 % 256) ++ ch '.' ::
      (decimal (address / 2 ^ 8 % 256) ++ ch '.' ::
        decimal (address % 256)))

theorem dot_notMem_decimal (value : Nat) : ch '.' ∉ decimal value := by
  intro member
  have digit := decimal_isDigit member
  exact absurd digit (by decide)

theorem nul_notMem_decimal (value : Nat) : 0 ∉ decimal value := by
  intro member
  have digit := decimal_isDigit member
  exact absurd digit (by decide)

theorem dottedQuad_noNul (address : Nat) : 0 ∉ dottedQuad address := by
  have dot : (0 : UInt8) ≠ ch '.' := by decide
  simp only [dottedQuad, List.mem_append, List.mem_cons, not_or]
  exact ⟨nul_notMem_decimal _, dot, nul_notMem_decimal _, dot,
    nul_notMem_decimal _, dot, nul_notMem_decimal _⟩

theorem dottedQuad_length (address : Nat) :
    (dottedQuad address).length ≤ 15 := by
  have short : ∀ value, (decimal (value % 256)).length ≤ 3 := by
    intro value
    rw [decimal_length_le_iff (by decide)]
    have bound := Nat.mod_lt value (by decide : 0 < 256)
    omega
  have first := short (address / 2 ^ 24)
  have second := short (address / 2 ^ 16)
  have third := short (address / 2 ^ 8)
  have fourth := short address
  simp only [dottedQuad, List.length_append, List.length_cons]
  omega

theorem dottedQuad_inj {first second : Nat} (firstBound : first < 2 ^ 32)
    (secondBound : second < 2 ^ 32)
    (same : dottedQuad first = dottedQuad second) : first = second := by
  rcases split_at_separator (dot_notMem_decimal _) (dot_notMem_decimal _)
    same with ⟨highest, afterHighest⟩
  rcases split_at_separator (dot_notMem_decimal _) (dot_notMem_decimal _)
    afterHighest with ⟨higher, afterHigher⟩
  rcases split_at_separator (dot_notMem_decimal _) (dot_notMem_decimal _)
    afterHigher with ⟨lower, lowest⟩
  have one := decimal_inj highest
  have two := decimal_inj higher
  have three := decimal_inj lower
  have four := decimal_inj lowest
  omega

end CText
