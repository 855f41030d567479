/-
**TOML values.**

Main definitions:

* `Wiring.Toml.Value` — what a TOML document holds;
* `Wiring.Toml.Entries` — the keys of a table with their values, each key once.
-/

set_option autoImplicit false

namespace Wiring.Toml

/-- What a TOML document holds.  Floats and dates are kept as they are written. -/
inductive Value where
  | string (text : String)
  | integer (n : Int)
  | float (text : String)
  | boolean (b : Bool)
  | datetime (text : String)
  | array (items : List Value)
  | table (entries : List (String × Value))
deriving Inhabited

/-- The keys of a table with their values. -/
abbrev Entries := List (String × Value)

end Wiring.Toml
