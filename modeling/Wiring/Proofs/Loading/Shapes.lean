/-
**What a provider takes fits its kind.**

A declaration is checked part by part and then turned into providers.  How many types a provider
takes follows from how it makes its value: a value takes nothing, a field is read from one struct, a
binding turns one type into another, and a struct literal takes one type for each of its fields.

Main definitions:

* `Wiring.Provider.Extracted` — a provider that some declaration stands for;
* `Wiring.Provider.WellFormed` — a provider that takes what its kind calls for.

Main results:

* `Wiring.Package.Shaped.wellFormed` — a provider that fits its kind takes what it calls for;
* `Wiring.Provider.Extracted.wellFormed` — **extracted providers are well formed**.
-/

import Wiring.Proofs.Declarations.Extraction

set_option autoImplicit false

namespace Wiring

namespace Provider

/-- A provider that some declaration stands for. -/
def Extracted (p : Provider) : Prop :=
  ∃ (pkg : Package) (decl : ProviderDecl) (ps : List Provider),
    pkg.extract decl = .ok ps ∧ p ∈ ps

/-- What a provider takes fits the way in which it makes its value. -/
def WellFormed (p : Provider) : Prop :=
  match p.kind with
  | .value => p.inputs = []
  | .fieldRead | .interfaceBinding => ∃ type, p.inputs = [type]
  | .structLiteral => p.fields.length = p.inputs.length
  | .function | .setReference => True

end Provider

/-- A provider that fits its kind takes what the kind calls for. -/
theorem Package.Shaped.wellFormed {pkg : Package} {p : Provider} (h : pkg.Shaped p) : p.WellFormed := by
  unfold Provider.WellFormed
  cases hkind : p.kind with
  | value => exact h.value hkind
  | fieldRead =>
      obtain ⟨structType, -, hinputs, -⟩ := h.fieldRead hkind
      exact ⟨structType, hinputs⟩
  | structLiteral => exact (h.structLiteral hkind).length_eq
  | interfaceBinding => exact h.interfaceBinding hkind
  | function => trivial
  | setReference => trivial

/-- **What an extracted provider takes fits its kind.** -/
theorem Provider.Extracted.wellFormed {p : Provider} (h : p.Extracted) : p.WellFormed := by
  obtain ⟨pkg, decl, ps, hps, hp⟩ := h
  exact ((Package.extract_eq_ok_iff.1 hps).shaped hp).wellFormed

end Wiring
