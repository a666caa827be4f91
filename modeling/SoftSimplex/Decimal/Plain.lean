import SoftSimplex.Decimal.Shortest

/-!
Numbers as text: positional digits without an exponent, the fewest that read back as the same
number.
-/

namespace SoftSimplex

class Numeral (α : Type) where
  text : α → String

namespace Decimal

/-- A decimal written positionally: whole numbers have no point, others a digit on both sides
of it. -/
def plain (d : Decimal) : String :=
  let ds := Nat.toDigits 10 d.digits
  let shift := (-d.exponent).toNat
  if 0 ≤ d.exponent then String.ofList (ds ++ List.replicate d.exponent.toNat '0')
  else if shift < ds.length then
    String.ofList (ds.take (ds.length - shift) ++ '.' :: ds.drop (ds.length - shift))
  else String.ofList ('0' :: '.' :: (List.replicate (shift - ds.length) '0' ++ ds))

end Decimal

namespace Double

/-- The exponent field that marks infinities and values that are no numbers. -/
def topField : Nat := 2047

/-- The binary number with the given exponent field and fraction: below field 1 the numbers are
spaced as in field 1, and the least number of each later field has closer neighbours below. -/
def binary (field fraction : Nat) : Binary :=
  if field = 0 then ⟨fraction, -1074, false⟩
  else ⟨Nat.pow 2 52 + fraction, Int.ofNat field - 1075, fraction == 0 && 1 < field⟩

/-- The text of a double: a minus sign also before a negative zero, and words for what is no
finite number. -/
def text (x : Float) : String :=
  let bits := x.toBits.toNat
  let sign := if bits / Nat.pow 2 63 = 1 then "-" else ""
  let field := bits / Nat.pow 2 52 % Nat.pow 2 11
  let fraction := bits % Nat.pow 2 52
  if field = topField then if fraction = 0 then sign ++ "inf" else "NaN"
  else if field = 0 && fraction = 0 then sign ++ "0"
  else
    match (binary field fraction).shortest? with
    | some d => sign ++ d.plain
    | none => sign ++ "0"

instance : Numeral Float := ⟨Double.text⟩

end Double

end SoftSimplex
