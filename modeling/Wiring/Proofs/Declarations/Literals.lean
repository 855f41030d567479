/-
**The fields that a struct literal sets.**

A declaration selects the fields of a struct by a list of names.  An asterisk selects each field of the struct
once.  Without an asterisk each name is looked up by itself, so that a name that is listed twice is selected
twice.  The literal writes the names in snake case, and there two different names can become the same.

Main results:

* `Wiring.Package.Selects.map_name` — the names of what is selected;
* `Wiring.Emit.exprOf_structLiteral` — a struct literal sets the fields of its provider, in their order;
* `Wiring.Package.structLiteral_sets` — **when a struct literal sets each field once**;
* `Wiring.Package.port_set_twice` — one that sets a field twice.
-/

import Wiring.Proofs.Declarations.Extraction
import Wiring.Proofs.Emit.Ownership

set_option autoImplicit false

namespace Wiring

namespace Package

variable {pkg : Package} {decl : ProviderDecl} {structType : TypeName} {info : TypeInfo}
  {names : List String} {fields : List FieldDecl} {ps : List Provider}

/-- There is at most one struct of a name. -/
theorem DeclaresStruct.unique {other : TypeInfo} (h : pkg.DeclaresStruct structType info)
    (hother : pkg.DeclaresStruct structType other) : other = info :=
  Option.some.inj (hother.1.symm.trans h.1)

/-- A field is found under its name. -/
theorem name_of_field? {f : FieldDecl} {name : String} (h : info.field? name = some f) : f.name = name := by
  simpa using List.find?_some h

/-- The names of what is selected are those that are listed, or all of them if there is an asterisk. -/
theorem Selects.map_name (h : Selects info names fields) :
    fields.map FieldDecl.name = if "*" ∈ names then info.fields.map FieldDecl.name else names := by
  cases h with
  | all hstar => rw [if_pos hstar]
  | each hstar _ hfields =>
      have hsame : List.Forall₂ Eq names (fields.map FieldDecl.name) :=
        List.forall₂_map_right_iff.2 (hfields.imp fun _ _ hname => (name_of_field? hname).symm)
      rw [List.forall₂_eq_eq_eq] at hsame
      rw [if_neg hstar, hsame]

/-- Of a struct whose fields have names of their own, a field is selected twice only if it is listed twice. -/
theorem Selects.nodup_iff (h : Selects info names fields) (hdistinct : (info.fields.map FieldDecl.name).Nodup) :
    (fields.map FieldDecl.name).Nodup ↔ "*" ∈ names ∨ names.Nodup := by
  rw [h.map_name]
  by_cases hstar : "*" ∈ names
  · rw [if_pos hstar]
    exact ⟨fun _ => .inl hstar, fun _ => hdistinct⟩
  · rw [if_neg hstar, or_iff_right hstar]

end Package

/-- A struct literal sets the fields of its provider, in their order and in snake case. -/
theorem Emit.exprOf_structLiteral {p : Provider} (hkind : p.kind = .structLiteral)
    (hlength : p.fields.length = p.inputs.length) (path : String) (locals : Locals) :
    ∃ inits, (exprOf path p locals).1 = .structLiteral (typePath p.output) inits ∧
      inits.map Prod.fst = p.fields.map Text.snakeCase := by
  have hfields : (p.fields.zip p.inputs).map Prod.fst = p.fields := List.map_fst_zip hlength.le
  have huses : ((p.fields.zip p.inputs).map fun e => Text.snakeCase e.1).length =
      (locals.takeAll ((p.fields.zip p.inputs).map Prod.snd)).1.length := by
    rw [Locals.length_takeAll, List.length_map, List.length_map]
  unfold exprOf
  rw [hkind]
  refine ⟨_, rfl, ?_⟩
  rw [List.map_fst_zip huses.le, ← hfields, List.map_map, hfields]
  rfl

namespace Package

open Emit

variable {pkg : Package} {decl : ProviderDecl} {structType : TypeName} {info : TypeInfo} {ps : List Provider}

/-- **When a struct literal sets each field once.**  The declaration stands for one struct literal with the
fields that it selects.  These have names of their own if and only if there is an asterisk or no name is listed
twice.  The code sets each of them once if and only if, beyond that, no two of them agree in snake case. -/
theorem structLiteral_sets (hkind : decl.kind = .struct) (hstruct : decl.structType = some structType)
    (hinfo : pkg.DeclaresStruct structType info) (hdistinct : (info.fields.map FieldDecl.name).Nodup)
    (hps : pkg.extract decl = .ok ps) :
    ∃ p, ps = [p] ∧ p.kind = .structLiteral ∧ p.output = structType ∧
      p.fields = (if "*" ∈ decl.fields then info.fields.map FieldDecl.name else decl.fields) ∧
      (p.fields.Nodup ↔ "*" ∈ decl.fields ∨ decl.fields.Nodup) ∧
      ∀ path locals, ∃ inits, (exprOf path p locals).1 = .structLiteral (typePath structType) inits ∧
        inits.map Prod.fst = p.fields.map Text.snakeCase ∧
        ((inits.map Prod.fst).Nodup ↔ ("*" ∈ decl.fields ∨ decl.fields.Nodup) ∧
          ∀ a ∈ p.fields, ∀ b ∈ p.fields, Text.snakeCase a = Text.snakeCase b → a = b) := by
  have hwell : ∀ p ∈ ps, p.WellFormed := fun p hp =>
    Provider.Extracted.wellFormed ⟨pkg, decl, ps, hps, hp⟩
  cases extract_eq_ok_iff.1 hps with
  | struct _ hstruct' hinfo' hfields =>
      obtain rfl := Option.some.inj (hstruct.symm.trans hstruct')
      obtain rfl := hinfo.unique hinfo'
      have honce := hfields.nodup_iff hdistinct
      refine ⟨_, rfl, rfl, rfl, hfields.map_name, honce, fun path locals => ?_⟩
      obtain ⟨inits, hexpr, hinits⟩ :=
        exprOf_structLiteral rfl (hwell _ List.mem_cons_self) path locals
      refine ⟨inits, hexpr, hinits, ?_⟩
      rw [hinits, ← honce]
      refine ⟨fun h => ?_, fun h => (List.nodup_map_iff_inj_on h.1).2 h.2⟩
      -- What is apart in snake case is apart as it is listed.
      have hnames := h.of_map
      exact ⟨hnames, (List.nodup_map_iff_inj_on hnames).1 h⟩
  | function hkind' => cases hkind.symm.trans hkind'
  | value hkind' => cases hkind.symm.trans hkind'
  | fields hkind' => cases hkind.symm.trans hkind'
  | bind hkind' => cases hkind.symm.trans hkind'

/-- A package with a struct of three fields, two of which agree in snake case. -/
def harbour : Package where
  path := "harbour"
  types := ⟨[("Config", ⟨.struct, [⟨"Port", "int"⟩, ⟨"Host", "string"⟩, ⟨"port", "int"⟩]⟩)]⟩

/-- A struct literal of the fields of these names. -/
def newConfig (fields : List String) : ProviderDecl where
  name := "NewConfig"
  kind := .struct
  structType := some "Config"
  fields := fields

/-- Two fields that differ are set once each. -/
theorem structLiteral_sets_harbour :
    ∃ p, harbour.extract (newConfig ["Port", "Host"]) = .ok [p] ∧ p.fields = ["Port", "Host"] ∧
      ∀ path locals, ∃ inits, (exprOf path p locals).1 = .structLiteral "Config" inits ∧
        (inits.map Prod.fst).Nodup := by
  have hps : harbour.extract (newConfig ["Port", "Host"]) = .ok _ := rfl
  obtain ⟨p, hp, -, -, hfields, -, hexpr⟩ :=
    structLiteral_sets rfl rfl ⟨rfl, rfl⟩ (by decide) hps
  refine ⟨p, hps.trans (congrArg _ hp), hfields, fun path locals => ?_⟩
  obtain ⟨inits, hinits, -, honce⟩ := hexpr path locals
  have htype : typePath "Config" = "Config" := by decide +kernel
  refine ⟨inits, htype ▸ hinits, honce.2 ⟨.inr (by decide), ?_⟩⟩
  rw [hfields]
  decide +kernel

/-- A field that is listed twice is set twice, and so are two fields that agree in snake case. -/
theorem port_set_twice :
    (∃ info, harbour.DeclaresStruct "Config" info ∧ (info.fields.map FieldDecl.name).Nodup) ∧
      ∀ names ∈ [["Port", "Port"], ["Port", "port"]], ∃ p, harbour.extract (newConfig names) = .ok [p] ∧
        p.fields = names ∧ ∀ path locals, ∃ inits, (exprOf path p locals).1 = .structLiteral "Config" inits ∧
          inits.map Prod.fst = ["port", "port"] := by
  have htype : typePath "Config" = "Config" := by decide +kernel
  have hnames : ["Port", "Port"].map Text.snakeCase = ["port", "port"] ∧
      ["Port", "port"].map Text.snakeCase = ["port", "port"] := by decide +kernel
  refine ⟨⟨_, ⟨rfl, rfl⟩, by decide⟩, ?_⟩
  rw [List.forall_mem_cons, List.forall_mem_singleton, ← htype]
  refine ⟨⟨_, rfl, rfl, fun path locals => ?_⟩, _, rfl, rfl, fun path locals => ?_⟩
  · rw [← hnames.1]
    exact exprOf_structLiteral (by rfl) (by rfl) path locals
  · rw [← hnames.2]
    exact exprOf_structLiteral (by rfl) (by rfl) path locals

end Package

end Wiring
