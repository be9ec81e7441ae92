import SecurityRules.Number.Binary64

/-!
# Sizes for readers
-/

namespace SecurityRules.ByteSize

/-- The letters of the units above bytes, each 1024 times the one before. -/
def unitLetters : List String := ["K", "M", "G", "T", "P", "E"]

/-- `n` in the first of the units of which it takes less than 1024, or in the last; `bytes` is the size of the
first one. -/
def inUnits (n bytes : Nat) : List String → Bytes
  | [] => []
  | [letter] => amount letter
  | letter :: next :: rest => if n / bytes < 1024 then amount letter else inUnits n (bytes * 1024) (next :: rest)
where
  /-- The size with one decimal place. -/
  amount (letter : String) : Bytes :=
    Number.fixedBits 1 (UInt64.ofNat (Number.Binary64.nearestBits n bytes)) ++ " " ++ letter ++ "iB"

/-- A number of bytes; less than 1024 are given exactly. -/
def render (n : Int) : Bytes :=
  if n < 1024 then Bytes.decimalInt n ++ " B" else inUnits n.toNat 1024 unitLetters

end SecurityRules.ByteSize
