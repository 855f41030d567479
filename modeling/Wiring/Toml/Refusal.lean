/-
**Refusals of TOML documents.**

Main definitions:

* `Wiring.Toml.Refusal` — why a text is not the document that it should be;
* `Wiring.Toml.orMalformed` — a reading that may fail, as one that may be refused.
-/

set_option autoImplicit false

namespace Wiring.Toml

/-- Why a text is not the document that it should be. -/
inductive Refusal where
  /-- It is no document, or not one of the expected form. -/
  | malformed
  /-- A key has too many parts. -/
  | longKey
deriving DecidableEq, Inhabited

/-- What is said of a refused text. -/
def Refusal.text : Refusal → String
  | malformed => "TOML parse error: not a document of the expected form"
  | longKey => "recursion limit\n"

/-- A reading that may fail, as one that may be refused. -/
def orMalformed {α : Type} : Option α → Except Refusal α
  | some a => .ok a
  | none => .error .malformed

end Wiring.Toml
