/-!
# Fixed-width digits

Words and opcodes appear in messages with a fixed number of digits, padded with zeros.

## Main definitions

* `digits`: a given number of digits in a base of at most sixteen.
* `hexWord`, `binaryOpcode`: the two forms that messages use.

## Main results

* `length_digits`: the number of digits does not depend on the value.
-/

namespace TileCore.Text

/-- The last `width` digits of `n` in `base`, the most significant first, with `a` to `f` above
nine. -/
def digits (base : Nat) : (width : Nat) → (n : Nat) → List Char
  | 0, _ => []
  | width + 1, n => digits base width (n / base) ++ [Nat.digitChar (n % base)]

@[simp] theorem length_digits (base width n : Nat) : (digits base width n).length = width := by
  induction width generalizing n with
  | zero => rfl
  | succ width ih => simp [digits, ih]

/-- A word as `0x` and eight hexadecimal digits. -/
def hexWord (w : BitVec 32) : String := "0x" ++ String.ofList (digits 16 8 w.toNat)

/-- An opcode as `0b` and seven binary digits. -/
def binaryOpcode (n : Nat) : String := "0b" ++ String.ofList (digits 2 7 n)

end TileCore.Text
