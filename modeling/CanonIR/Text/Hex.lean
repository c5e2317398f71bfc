/-!
Hexadecimal text of natural numbers: the mark `0x`, then lower-case digits without leading zeros.
-/

namespace CanonIR.Text

/-- The number as `0x` and its lower-case hexadecimal digits; zero is `0x0`. -/
def hex (n : Nat) : String :=
  "0x" ++ String.ofList (Nat.toDigits 16 n)

/-- The value of one hexadecimal digit, of either case. -/
def hexDigit? (c : Char) : Option Nat :=
  if '0' ≤ c ∧ c ≤ '9' then some (c.toNat - '0'.toNat)
  else if 'a' ≤ c ∧ c ≤ 'f' then some (c.toNat - 'a'.toNat + 10)
  else if 'A' ≤ c ∧ c ≤ 'F' then some (c.toNat - 'A'.toNat + 10)
  else none

/-- The number that a list of hexadecimal digits denotes, most significant first. -/
def ofHexDigits? (cs : List Char) : Option Nat :=
  cs.foldlM (fun n c => (hexDigit? c).map (16 * n + ·)) 0

/-- Reads `0x` and at least one hexadecimal digit. -/
def ofHex? (s : String) : Option Nat :=
  match s.toList with
  | '0' :: 'x' :: c :: cs => ofHexDigits? (c :: cs)
  | _ => none

end CanonIR.Text
