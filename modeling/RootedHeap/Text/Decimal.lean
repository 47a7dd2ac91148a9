/-! # Decimal numbers in text

A number is a non-empty run of decimal digits, possibly after a plus sign, that fits into a word.
Digits are read from the left, so the first thing wrong is the one reported.
-/

namespace RootedHeap.Text

/-- Why a text is not a number. -/
inductive NumberError where
  | empty
  | invalidDigit
  | tooLarge
  deriving DecidableEq, Repr

def NumberError.message : NumberError → String
  | empty => "cannot parse integer from empty string"
  | invalidDigit => "invalid digit found in string"
  | tooLarge => "number too large to fit in target type"

/-- Read digits after a number `n`, up to the end. -/
def readDigits (limit : Nat) : Nat → List Char → Except NumberError Nat
  | n, [] => .ok n
  | n, c :: rest =>
    if '0' ≤ c ∧ c ≤ '9' then
      let next := n * 10 + (c.toNat - '0'.toNat)
      if next < limit then readDigits limit next rest else .error .tooLarge
    else .error .invalidDigit

/-- The number below `limit` that a text stands for. -/
def readNumber (limit : Nat) (s : String) : Except NumberError Nat :=
  match s.toList with
  | [] => .error .empty
  | ['+'] => .error .invalidDigit
  | '+' :: digits => readDigits limit 0 digits
  | digits => readDigits limit 0 digits

/-- One more than the largest word of 64 bits. -/
def wordLimit : Nat := 18446744073709551616

end RootedHeap.Text
