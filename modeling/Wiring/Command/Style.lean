/-
**Coloured texts.**

Main definitions:

* `Wiring.Command.Style` — the ways in which a word can stand out on a terminal;
* `Wiring.Command.Style.paint` — a word in a style, or plain where colours are off.
-/

set_option autoImplicit false

namespace Wiring.Command

/-- How a word stands out. -/
inductive Style where
  | redBold
  | red
  | green
  | yellow
  | cyan
  | dimmed
deriving DecidableEq, Inhabited

namespace Style

/-- The number that selects a style. -/
def code : Style → String
  | redBold => "1;31"
  | red => "31"
  | green => "32"
  | yellow => "33"
  | cyan => "36"
  | dimmed => "2"

/-- A text in a style. -/
def paint (color : Bool) (style : Style) (text : String) : String :=
  if color then "\x1b[" ++ style.code ++ "m" ++ text ++ "\x1b[0m" else text

end Style

end Wiring.Command
