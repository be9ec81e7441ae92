import SecurityRules.Text.Bytes

/-!
# Coloured text on terminals
-/

namespace SecurityRules.Text

/-- A display attribute of a terminal. -/
inductive Attribute where
  | bold | red | green | yellow | blue | cyan
deriving Repr, DecidableEq

/-- The number that turns an attribute on. -/
def Attribute.on : Attribute → Nat
  | bold => 1
  | red => 31
  | green => 32
  | yellow => 33
  | blue => 34
  | cyan => 36

/-- The number that turns an attribute off. -/
def Attribute.off : Attribute → Nat
  | bold => 22
  | _ => 0

/-- The attributes of a piece of text; none if it is plain. -/
abbrev Style := List Attribute

/-- A control sequence that sets attributes. -/
def controlSequence (numbers : List Nat) : Bytes :=
  "\x1b[" ++ Bytes.join ";" (numbers.map Bytes.decimal) ++ "m"

/-- A text in a style, if colours are wanted. -/
def styled (colours : Bool) (style : Style) (s : Bytes) : Bytes :=
  if colours then
    controlSequence (style.map Attribute.on) ++ s ++ controlSequence (style.map Attribute.off)
  else s

end SecurityRules.Text
