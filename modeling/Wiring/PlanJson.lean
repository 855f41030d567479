/-
**Plans as JSON.**

Main definitions:

* `Wiring.Provider.toJson`, `Wiring.Binding.toJson`, `Wiring.Plan.toJson` — the JSON form of a plan
  and its parts.  A provider without an expression, or without fields, leaves the key out.
-/

import Wiring.Plan
import Wiring.Text.Json

set_option autoImplicit false

namespace Wiring

/-- The JSON form of a provider. -/
def Provider.toJson (p : Provider) : Json :=
  .obj ([("pkg_path", .str p.pkg), ("name", .str p.name), ("kind", .str p.kind.text),
      ("inputs", .strs p.inputs), ("output", .str p.output)] ++
    p.expr.toList.map (fun e => ("expr", .str e)) ++
    (if p.fields = [] then [] else [("fields", .strs p.fields)]) ++
    [("returns_error", .bool p.fallible), ("has_cleanup", .bool p.cleanup)])

/-- The JSON form of what supplies a type. -/
def Source.toJson : Source → Json
  | input index => .obj [("input", .obj [("index", .num index)])]
  | provider p => .obj [("provider", p.toJson)]

/-- The JSON form of a binding. -/
def Binding.toJson (b : Binding) : Json :=
  .obj [("type_ref", .str b.type), ("source", b.source.toJson)]

/-- The JSON form of a plan. -/
def Plan.toJson (plan : Plan) : Json :=
  .obj [("inputs", .arr (plan.inputs.map Binding.toJson)),
    ("steps", .arr (plan.steps.map Binding.toJson)), ("outputs", .strs plan.outputs)]

end Wiring
