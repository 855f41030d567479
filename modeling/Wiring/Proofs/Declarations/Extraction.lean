/-
**What declarations stand for.**

A declaration stands for the providers that its flavour and its parts call for, or it has a flaw.  Of several
flaws the one that is looked for first counts.  The names that a set or an injector lists stand for the
providers of their declarations, one name after the other, and the references come behind them.  If there is a
name without a declaration, or one whose declaration has a flaw, the first such name says what is wrong, and
nothing comes of the others.

What comes of a declaration fits its kind.  Whoever resolves or prints a provider relies on it: a struct literal
has a field for each of its inputs, a field is read from the one input there is, and nothing but a function can
fail or leave a cleanup behind.

Main definitions:

* `Wiring.Package.Selects`, `Wiring.Package.Misselects` — the fields that a declaration selects, and why it
  selects none;
* `Wiring.Package.Stands`, `Wiring.Package.Flaw` — the providers that a declaration stands for, and why it
  stands for none;
* `Wiring.Package.Shaped` — a provider of a package that fits its kind;
* `Wiring.Package.Lists`, `Wiring.Package.Refuses` — what comes of lists of names, and why nothing does.

Main results:

* `Wiring.Package.extract_eq_ok_iff`, `Wiring.Package.extract_eq_error_iff` — a declaration is extracted as what
  it stands for, or refused for its flaw;
* `Wiring.Package.Stands.shaped` — what a declaration stands for fits its kind;
* `Wiring.Package.extracts_as_listed` — **what sets and injectors are extracted as, and why they are refused**.
-/

import Wiring.Extraction
import Wiring.Proofs.Results

set_option autoImplicit false

namespace Wiring.Package

variable {pkg : Package} {decl : ProviderDecl} {structType : TypeName} {info : TypeInfo}
  {fields : List FieldDecl} {reason : String} {ps : List Provider} {p : Provider} {e : Failure}

/-! ### Parts -/

theorem require_eq_ok_iff {α : Type} {part : Option α} {a : α} :
    pkg.require decl part reason = .ok a ↔ part = some a := by
  cases part with
  | none => exact ⟨nofun, nofun⟩
  | some b => exact ⟨fun h => congrArg some (Except.ok.inj h), fun h => congrArg Except.ok (Option.some.inj h)⟩

theorem require_eq_error_iff {α : Type} {part : Option α} :
    pkg.require decl part reason = .error e ↔ part = none ∧ e = pkg.invalid decl reason := by
  cases part with
  | none => exact ⟨fun h => ⟨rfl, (Except.error.inj h).symm⟩, fun h => congrArg Except.error h.2.symm⟩
  | some b => exact ⟨nofun, nofun⟩

/-! ### Selected fields -/

/-- A struct that the package declares. -/
def DeclaresStruct (pkg : Package) (name : TypeName) (info : TypeInfo) : Prop :=
  pkg.types.get? name = some info ∧ info.kind = .struct

/-- The fields that a list of names selects of a struct. -/
inductive Selects (info : TypeInfo) (names : List String) : List FieldDecl → Prop
  /-- An asterisk selects all fields, whatever else is listed. -/
  | all (hstar : "*" ∈ names) : Selects info names info.fields
  | each {fields : List FieldDecl} (hstar : "*" ∉ names) (hsome : names ≠ [])
      (hfields : List.Forall₂ (fun name f => info.field? name = some f) names fields) :
      Selects info names fields

/-- Why a declaration selects no fields. -/
inductive Misselects (pkg : Package) (decl : ProviderDecl) (structType : TypeName) : String → Prop
  | noStruct (h : ∀ info, ¬ pkg.DeclaresStruct structType info) :
      Misselects pkg decl structType (structType ++ " is not a declared struct")
  | nothing {info : TypeInfo} (hinfo : pkg.DeclaresStruct structType info) (h : decl.fields = []) :
      Misselects pkg decl structType "no fields selected"
  /-- The first name that no field has. -/
  | unknown {info : TypeInfo} {before after : List String} {name : String}
      (hinfo : pkg.DeclaresStruct structType info) (hstar : "*" ∉ decl.fields)
      (hsplit : decl.fields = before ++ name :: after)
      (hbefore : ∀ known ∈ before, ∃ f, info.field? known = some f) (hname : info.field? name = none) :
      Misselects pkg decl structType (structType ++ " has no field " ++ name)

theorem filter_struct_eq_some_iff :
    ((pkg.types.get? structType).filter fun info => info.kind = .struct) = some info ↔
      pkg.DeclaresStruct structType info := by
  rw [Option.filter_eq_some_iff, decide_eq_true_eq]
  rfl

/-- What is selected of a declared struct. -/
theorem selectFields_of_struct (hinfo : pkg.DeclaresStruct structType info) :
    pkg.selectFields decl structType =
      if "*" ∈ decl.fields then .ok info.fields
      else if decl.fields = [] then .error (pkg.invalid decl "no fields selected")
      else decl.fields.mapM fun name =>
        pkg.require decl (info.field? name) (structType ++ " has no field " ++ name) := by
  have hrequire : pkg.require decl
      ((pkg.types.get? structType).filter fun info => info.kind = .struct)
      (structType ++ " is not a declared struct") = .ok info :=
    require_eq_ok_iff.2 (filter_struct_eq_some_iff.2 hinfo)
  unfold selectFields
  rw [hrequire]
  simp only [bind, Except.bind, List.contains_iff_mem]
  split
  · rfl
  · split <;> rfl

theorem selectFields_of_selects (hinfo : pkg.DeclaresStruct structType info)
    (h : Selects info decl.fields fields) : pkg.selectFields decl structType = .ok fields := by
  rw [selectFields_of_struct hinfo]
  cases h with
  | all hstar => rw [if_pos hstar]
  | each hstar hsome hfields =>
      rw [if_neg hstar, if_neg hsome, mapM_eq_ok_iff]
      exact hfields.imp fun _ _ hfield => require_eq_ok_iff.2 hfield

theorem selectFields_of_misselects (h : pkg.Misselects decl structType reason) :
    pkg.selectFields decl structType = .error (pkg.invalid decl reason) := by
  cases h with
  | noStruct h =>
      have hnone : ((pkg.types.get? structType).filter fun info => info.kind = .struct) = none :=
        Option.eq_none_iff_forall_ne_some.2 fun info hinfo => h info (filter_struct_eq_some_iff.1 hinfo)
      unfold selectFields
      rw [require_eq_error_iff.2 ⟨hnone, rfl⟩]
      rfl
  | nothing hinfo h => rw [selectFields_of_struct hinfo, h, if_neg List.not_mem_nil, if_pos rfl]
  | unknown hinfo hstar hsplit hbefore hname =>
      have hsome : decl.fields ≠ [] := by
        rw [hsplit]
        exact List.append_ne_nil_of_right_ne_nil _ (List.cons_ne_nil _ _)
      rw [selectFields_of_struct hinfo, if_neg hstar, if_neg hsome, mapM_eq_error_iff]
      refine ⟨_, _, _, hsplit, fun known hknown => ?_, require_eq_error_iff.2 ⟨hname, rfl⟩⟩
      obtain ⟨f, hf⟩ := hbefore known hknown
      exact ⟨f, require_eq_ok_iff.2 hf⟩

/-- A declaration selects fields of a declared struct, or there is something wrong with it. -/
theorem selects_or_misselects (pkg : Package) (decl : ProviderDecl) (structType : TypeName) :
    (∃ info fields, pkg.DeclaresStruct structType info ∧ Selects info decl.fields fields) ∨
      ∃ reason, pkg.Misselects decl structType reason := by
  by_cases hstruct : ∃ info, pkg.DeclaresStruct structType info
  case neg => exact .inr ⟨_, .noStruct fun info hinfo => hstruct ⟨info, hinfo⟩⟩
  obtain ⟨info, hinfo⟩ := hstruct
  by_cases hstar : "*" ∈ decl.fields
  · exact .inl ⟨info, _, hinfo, .all hstar⟩
  by_cases hsome : decl.fields = []
  · exact .inr ⟨_, .nothing hinfo hsome⟩
  cases hfields : decl.fields.mapM fun name =>
      pkg.require decl (info.field? name) (structType ++ " has no field " ++ name) with
  | ok fields =>
      refine .inl ⟨info, fields, hinfo, .each hstar hsome ?_⟩
      exact (mapM_eq_ok_iff.1 hfields).imp fun _ _ hfield => require_eq_ok_iff.1 hfield
  | error e =>
      obtain ⟨before, name, after, hsplit, hbefore, hname⟩ := mapM_eq_error_iff.1 hfields
      refine .inr ⟨_, .unknown hinfo hstar hsplit (fun known hknown => ?_) (require_eq_error_iff.1 hname).1⟩
      obtain ⟨f, hf⟩ := hbefore known hknown
      exact ⟨f, require_eq_ok_iff.1 hf⟩

/-- What is selected of a struct are fields of it. -/
theorem Selects.subset {names : List String} (h : Selects info names fields) : fields ⊆ info.fields := by
  cases h with
  | all => exact fun _ hf => hf
  | each _ _ hfields =>
      intro f hf
      obtain ⟨name, -, hname⟩ := exists_of_forall₂ hfields hf
      exact List.mem_of_find?_eq_some hname

/-! ### Declarations -/

/-- An interface that the package declares as something else cannot be bound. -/
def Bindable (pkg : Package) (interface : TypeName) : Prop :=
  ∀ info, pkg.types.get? interface = some info → info.kind = .interface

/-- The providers that a declaration stands for. -/
inductive Stands (pkg : Package) (decl : ProviderDecl) : List Provider → Prop
  | function {output : TypeName} (hkind : decl.kind = .function) (houtput : decl.output = some output) :
      Stands pkg decl
        [{ pkg := pkg.path, name := decl.name, inputs := decl.inputs, output
           fallible := decl.fallible, cleanup := decl.cleanup }]
  | value {output : TypeName} {expr : String} (hkind : decl.kind = .value)
      (houtput : decl.output = some output) (hexpr : decl.expr = some expr) (hinputs : decl.inputs = []) :
      Stands pkg decl [{ pkg := pkg.path, name := decl.name, kind := .value, output, expr := some expr }]
  | struct {structType : TypeName} {info : TypeInfo} {fields : List FieldDecl} (hkind : decl.kind = .struct)
      (hstruct : decl.structType = some structType) (hinfo : pkg.DeclaresStruct structType info)
      (hfields : Selects info decl.fields fields) :
      Stands pkg decl
        [{ pkg := pkg.path, name := decl.name, kind := .structLiteral, inputs := fields.map FieldDecl.type
           output := structType, fields := fields.map FieldDecl.name }]
  | fields {structType : TypeName} {info : TypeInfo} {fields : List FieldDecl} (hkind : decl.kind = .fields)
      (hstruct : decl.structType = some structType) (hinfo : pkg.DeclaresStruct structType info)
      (hfields : Selects info decl.fields fields) :
      Stands pkg decl (fields.map (pkg.fieldProvider structType))
  | bind {interface concrete : TypeName} (hkind : decl.kind = .bind)
      (hinterface : decl.interface = some interface) (hconcrete : decl.concrete = some concrete)
      (hbindable : pkg.Bindable interface) :
      Stands pkg decl
        [{ pkg := pkg.path, name := decl.name, kind := .interfaceBinding, inputs := [concrete]
           output := interface }]

/-- Why a declaration stands for nothing. -/
inductive Flaw (pkg : Package) (decl : ProviderDecl) : String → Prop
  | functionOutput (hkind : decl.kind = .function) (h : decl.output = none) :
      Flaw pkg decl "function has no output"
  | valueOutput (hkind : decl.kind = .value) (h : decl.output = none) : Flaw pkg decl "value has no output"
  | valueExpr {output : TypeName} (hkind : decl.kind = .value) (houtput : decl.output = some output)
      (h : decl.expr = none) : Flaw pkg decl "value has no expression"
  | valueInputs {output : TypeName} {expr : String} (hkind : decl.kind = .value)
      (houtput : decl.output = some output) (hexpr : decl.expr = some expr) (h : decl.inputs ≠ []) :
      Flaw pkg decl "value cannot have inputs"
  | structType (hkind : decl.kind = .struct ∨ decl.kind = .fields) (h : decl.structType = none) :
      Flaw pkg decl "missing struct type"
  | selection {structType : TypeName} {reason : String} (hkind : decl.kind = .struct ∨ decl.kind = .fields)
      (hstruct : decl.structType = some structType) (h : pkg.Misselects decl structType reason) :
      Flaw pkg decl reason
  | interface (hkind : decl.kind = .bind) (h : decl.interface = none) : Flaw pkg decl "missing interface"
  | concrete {interface : TypeName} (hkind : decl.kind = .bind) (hinterface : decl.interface = some interface)
      (h : decl.concrete = none) : Flaw pkg decl "missing concrete type"
  | notInterface {interface concrete : TypeName} (hkind : decl.kind = .bind)
      (hinterface : decl.interface = some interface) (hconcrete : decl.concrete = some concrete)
      (h : ¬ pkg.Bindable interface) : Flaw pkg decl (interface ++ " is not an interface")

theorem any_not_interface_iff {interface : TypeName} :
    ((pkg.types.get? interface).any fun info => info.kind ≠ .interface) = true ↔ ¬ pkg.Bindable interface := by
  unfold Bindable
  cases pkg.types.get? interface with
  | none => simp
  | some info => simp

/-- A declaration is extracted as what it stands for. -/
theorem extract_of_stands (h : pkg.Stands decl ps) : pkg.extract decl = .ok ps := by
  unfold extract
  cases h with
  | function hkind houtput =>
      rw [hkind]
      simp only [extractFunction, houtput]
      rfl
  | value hkind houtput hexpr hinputs =>
      rw [hkind]
      simp only [extractValue, houtput, hexpr, hinputs]
      rfl
  | struct hkind hstruct hinfo hfields =>
      rw [hkind]
      simp only [extractStruct, hstruct]
      change (Except.map _ (pkg.selectFields decl _ >>= _)) = _
      rw [selectFields_of_selects hinfo hfields]
      rfl
  | fields hkind hstruct hinfo hfields =>
      rw [hkind]
      simp only [extractFields, hstruct]
      change (pkg.selectFields decl _ >>= _) = _
      rw [selectFields_of_selects hinfo hfields]
      rfl
  | bind hkind hinterface hconcrete hbindable =>
      have hany := fun h => any_not_interface_iff.1 h hbindable
      rw [hkind]
      simp only [extractBinding, hinterface, hconcrete]
      change Except.map _ (if _ then _ else _) = _
      rw [if_neg hany]
      rfl

/-- A declaration is refused for its flaw. -/
theorem extract_of_flaw (h : pkg.Flaw decl reason) : pkg.extract decl = .error (pkg.invalid decl reason) := by
  unfold extract
  cases h with
  | functionOutput hkind h =>
      rw [hkind]
      simp only [extractFunction, h]
      rfl
  | valueOutput hkind h =>
      rw [hkind]
      simp only [extractValue, h]
      rfl
  | valueExpr hkind houtput h =>
      rw [hkind]
      simp only [extractValue, houtput, h]
      rfl
  | valueInputs hkind houtput hexpr h =>
      rw [hkind]
      simp only [extractValue, houtput, hexpr]
      change Except.map _ (if decl.inputs ≠ [] then _ else _) = _
      rw [if_pos h]
      rfl
  | structType hkind h =>
      rcases hkind with hkind | hkind
      · rw [hkind]
        simp only [extractStruct, h]
        rfl
      · rw [hkind]
        simp only [extractFields, h]
        rfl
  | selection hkind hstruct h =>
      rcases hkind with hkind | hkind
      · rw [hkind]
        simp only [extractStruct, hstruct]
        change (Except.map _ (pkg.selectFields decl _ >>= _)) = _
        rw [selectFields_of_misselects h]
        rfl
      · rw [hkind]
        simp only [extractFields, hstruct]
        change (pkg.selectFields decl _ >>= _) = _
        rw [selectFields_of_misselects h]
        rfl
  | interface hkind h =>
      rw [hkind]
      simp only [extractBinding, h]
      rfl
  | concrete hkind hinterface h =>
      rw [hkind]
      simp only [extractBinding, hinterface, h]
      rfl
  | notInterface hkind hinterface hconcrete h =>
      rw [hkind]
      simp only [extractBinding, hinterface, hconcrete]
      change Except.map _ (if _ then _ else _) = _
      rw [if_pos (any_not_interface_iff.2 h)]
      rfl

/-- Every declaration stands for providers or has a flaw. -/
theorem stands_or_flaw (pkg : Package) (decl : ProviderDecl) :
    (∃ ps, pkg.Stands decl ps) ∨ ∃ reason, pkg.Flaw decl reason := by
  cases hkind : decl.kind with
  | function =>
      cases houtput : decl.output with
      | none => exact .inr ⟨_, .functionOutput hkind houtput⟩
      | some output => exact .inl ⟨_, .function hkind houtput⟩
  | value =>
      cases houtput : decl.output with
      | none => exact .inr ⟨_, .valueOutput hkind houtput⟩
      | some output =>
          cases hexpr : decl.expr with
          | none => exact .inr ⟨_, .valueExpr hkind houtput hexpr⟩
          | some expr =>
              by_cases hinputs : decl.inputs = []
              · exact .inl ⟨_, .value hkind houtput hexpr hinputs⟩
              · exact .inr ⟨_, .valueInputs hkind houtput hexpr hinputs⟩
  | struct =>
      cases hstruct : decl.structType with
      | none => exact .inr ⟨_, .structType (.inl hkind) hstruct⟩
      | some structType =>
          rcases pkg.selects_or_misselects decl structType with ⟨info, fields, hinfo, hfields⟩ | ⟨reason, h⟩
          · exact .inl ⟨_, .struct hkind hstruct hinfo hfields⟩
          · exact .inr ⟨_, .selection (.inl hkind) hstruct h⟩
  | fields =>
      cases hstruct : decl.structType with
      | none => exact .inr ⟨_, .structType (.inr hkind) hstruct⟩
      | some structType =>
          rcases pkg.selects_or_misselects decl structType with ⟨info, fields, hinfo, hfields⟩ | ⟨reason, h⟩
          · exact .inl ⟨_, .fields hkind hstruct hinfo hfields⟩
          · exact .inr ⟨_, .selection (.inr hkind) hstruct h⟩
  | bind =>
      cases hinterface : decl.interface with
      | none => exact .inr ⟨_, .interface hkind hinterface⟩
      | some interface =>
          cases hconcrete : decl.concrete with
          | none => exact .inr ⟨_, .concrete hkind hinterface hconcrete⟩
          | some concrete =>
              by_cases hbindable : pkg.Bindable interface
              · exact .inl ⟨_, .bind hkind hinterface hconcrete hbindable⟩
              · exact .inr ⟨_, .notInterface hkind hinterface hconcrete hbindable⟩

theorem extract_eq_ok_iff : pkg.extract decl = .ok ps ↔ pkg.Stands decl ps := by
  refine ⟨fun h => ?_, extract_of_stands⟩
  rcases pkg.stands_or_flaw decl with ⟨qs, hstands⟩ | ⟨reason, hflaw⟩
  · cases h.symm.trans (extract_of_stands hstands)
    exact hstands
  · cases h.symm.trans (extract_of_flaw hflaw)

theorem extract_eq_error_iff :
    pkg.extract decl = .error e ↔ ∃ reason, pkg.Flaw decl reason ∧ e = pkg.invalid decl reason := by
  constructor
  · intro h
    rcases pkg.stands_or_flaw decl with ⟨ps, hstands⟩ | ⟨reason, hflaw⟩
    · cases h.symm.trans (extract_of_stands hstands)
    · cases h.symm.trans (extract_of_flaw hflaw)
      exact ⟨reason, hflaw, rfl⟩
  · rintro ⟨reason, hflaw, rfl⟩
    exact extract_of_flaw hflaw

/-! ### Providers that fit their kind -/

/-- A struct that the package declares has a field of this name and type. -/
def DeclaresField (pkg : Package) (structType : TypeName) (name : String) (type : TypeName) : Prop :=
  ∃ info, pkg.DeclaresStruct structType info ∧ ⟨name, type⟩ ∈ info.fields

/-- A provider of a package that fits its kind. -/
structure Shaped (pkg : Package) (p : Provider) : Prop where
  owner : p.pkg = pkg.path
  /-- A reference is no provider. -/
  kind : p.kind ≠ .setReference
  value : p.kind = .value → p.inputs = []
  expr : (∃ expr, p.expr = some expr) ↔ p.kind = .value
  /-- Each field goes with the input of its type, in the same order. -/
  structLiteral : p.kind = .structLiteral → List.Forall₂ (pkg.DeclaresField p.output) p.fields p.inputs
  fieldRead : p.kind = .fieldRead → ∃ structType name, p.inputs = [structType] ∧ p.fields = [name] ∧
    pkg.DeclaresField structType name p.output
  interfaceBinding : p.kind = .interfaceBinding → ∃ concrete, p.inputs = [concrete]
  effects : p.fallible ∨ p.cleanup → p.kind = .function
  fields : p.fields ≠ [] → p.kind = .structLiteral ∨ p.kind = .fieldRead

/-- The names and the types of selected fields go together. -/
theorem forall₂_declaresField (hinfo : pkg.DeclaresStruct structType info)
    (hfields : Selects info decl.fields fields) :
    List.Forall₂ (pkg.DeclaresField structType) (fields.map FieldDecl.name) (fields.map FieldDecl.type) := by
  rw [List.forall₂_map_left_iff, List.forall₂_map_right_iff, List.forall₂_same]
  exact fun f hf => ⟨info, hinfo, hfields.subset hf⟩

/-- **What a declaration stands for fits its kind.** -/
theorem Stands.shaped (h : pkg.Stands decl ps) (hp : p ∈ ps) : pkg.Shaped p := by
  cases h with
  | function =>
      rw [List.mem_singleton.1 hp]
      constructor <;> simp
  | value =>
      rw [List.mem_singleton.1 hp]
      constructor <;> simp
  | struct hkind hstruct hinfo hfields =>
      rw [List.mem_singleton.1 hp]
      constructor
      case structLiteral => exact fun _ => forall₂_declaresField hinfo hfields
      all_goals simp
  | fields hkind hstruct hinfo hfields =>
      obtain ⟨f, hf, rfl⟩ := List.mem_map.1 hp
      constructor
      case fieldRead => exact fun _ => ⟨_, f.name, rfl, rfl, _, hinfo, hfields.subset hf⟩
      all_goals simp [fieldProvider]
  | bind =>
      rw [List.mem_singleton.1 hp]
      constructor <;> simp

/-! ### Lists of names -/

/-- The providers that a name of the package stands for. -/
def Names (pkg : Package) (name : String) (ps : List Provider) : Prop :=
  ∃ decl, pkg.provider? name = some decl ∧ pkg.Stands decl ps

/-- Why a name stands for nothing. -/
inductive Refuses (pkg : Package) (name : String) : Failure → Prop
  | unknown (h : pkg.provider? name = none) : Refuses pkg name (.unknownProvider name pkg.path)
  | flawed {decl : ProviderDecl} {reason : String} (hdecl : pkg.provider? name = some decl)
      (h : pkg.Flaw decl reason) : Refuses pkg name (.invalidDeclaration pkg.path name reason)

/-- The first name of a list that stands for nothing says what is wrong. -/
def RefusesFirst (pkg : Package) (names : List String) (e : Failure) : Prop :=
  ∃ before name after, names = before ++ name :: after ∧ (∀ known ∈ before, ∃ ps, pkg.Names known ps) ∧
    pkg.Refuses name e

/-- What comes of the providers and the references that are listed. -/
structure Lists (pkg : Package) (providers sets : List String) (items : List SetItem) : Prop where
  /-- The providers of each name come in the order of the names, and the references behind them. -/
  order : ∃ listed, List.Forall₂ pkg.Names providers listed ∧
    items = listed.flatten.map SetItem.provider ++
      sets.map fun reference => .reference (SetId.parse reference pkg.path)
  shaped : ∀ p, .provider p ∈ items → pkg.Shaped p

variable {name : String} {providers sets : List String} {items : List SetItem}

theorem named_eq_ok_iff : pkg.named name = .ok ps ↔ pkg.Names name ps := by
  unfold named Names
  cases pkg.provider? name with
  | none => simp
  | some decl => simp [extract_eq_ok_iff]

theorem named_eq_error_iff : pkg.named name = .error e ↔ pkg.Refuses name e := by
  unfold named
  cases hdecl : pkg.provider? name with
  | none =>
      constructor
      · intro h
        cases h
        exact .unknown hdecl
      · rintro (_ | ⟨hdecl', -⟩)
        · rfl
        · cases hdecl.symm.trans hdecl'
  | some decl =>
      have hname : decl.name = name := by simpa using List.find?_some hdecl
      change pkg.extract decl = .error e ↔ _
      rw [extract_eq_error_iff]
      constructor
      · rintro ⟨reason, hflaw, rfl⟩
        rw [invalid, hname]
        exact .flawed hdecl hflaw
      · rintro (hnone | ⟨hdecl', hflaw⟩)
        · cases hdecl.symm.trans hnone
        · cases hdecl.symm.trans hdecl'
          exact ⟨_, hflaw, by rw [invalid, hname]⟩

theorem items_eq_ok_iff : pkg.items providers sets = .ok items ↔ pkg.Lists providers sets items := by
  constructor
  · intro h
    obtain ⟨listed, hlisted, h⟩ := of_bind_eq_ok h
    cases h
    have hnames : List.Forall₂ pkg.Names providers listed :=
      (mapM_eq_ok_iff.1 hlisted).imp fun _ _ hname => named_eq_ok_iff.1 hname
    refine ⟨⟨listed, hnames, rfl⟩, fun p hp => ?_⟩
    have hmem : p ∈ listed.flatten := by simpa using hp
    obtain ⟨ps, hps, hp⟩ := List.mem_flatten.1 hmem
    obtain ⟨name, -, decl, -, hstands⟩ := exists_of_forall₂ hnames hps
    exact hstands.shaped hp
  · rintro ⟨⟨listed, hnames, rfl⟩, -⟩
    have hlisted : providers.mapM pkg.named = .ok listed :=
      mapM_eq_ok_iff.2 (hnames.imp fun _ _ hname => named_eq_ok_iff.2 hname)
    unfold Package.items
    rw [hlisted]
    rfl

theorem items_eq_error_iff : pkg.items providers sets = .error e ↔ pkg.RefusesFirst providers e := by
  have hlisted : pkg.items providers sets = .error e ↔ providers.mapM pkg.named = .error e :=
    bind_ok_eq_error_iff
  rw [hlisted, mapM_eq_error_iff]
  unfold RefusesFirst
  simp only [named_eq_ok_iff, named_eq_error_iff]

/-! ### Sets and injectors -/

variable {asker : String} {s : ProviderSet} {injector : InjectorDecl} {r : Request}

theorem extractSet_eq_ok_iff : pkg.extractSet name asker = .ok s ↔ ∃ decl, pkg.set? name = some decl ∧
    s.id = ⟨pkg.path, name⟩ ∧ pkg.Lists decl.providers decl.sets s.items := by
  simp only [extractSet_ok_iff, items_eq_ok_iff]

theorem extractSet_eq_error_iff : pkg.extractSet name asker = .error e ↔
    (pkg.set? name = none ∧ e = .unknownSet (SetId.text ⟨pkg.path, name⟩) asker) ∨
      ∃ decl, pkg.set? name = some decl ∧ pkg.RefusesFirst decl.providers e := by
  unfold extractSet
  cases pkg.set? name with
  | none => simp [eq_comm]
  | some decl =>
      simp only [reduceCtorEq, false_and, false_or, Option.some.injEq, exists_eq_left']
      exact bind_ok_eq_error_iff.trans items_eq_error_iff

theorem request_eq_ok_iff : pkg.request injector = .ok r ↔ r.pkg = pkg.path ∧ r.name = injector.name ∧
    r.inputs = injector.inputs ∧ r.outputs = injector.outputs ∧
    pkg.Lists injector.providers injector.sets r.items := by
  rw [request_ok_iff, items_eq_ok_iff]

theorem request_eq_error_iff :
    pkg.request injector = .error e ↔ pkg.RefusesFirst injector.providers e :=
  bind_ok_eq_error_iff.trans items_eq_error_iff

/-- **What sets and injectors are extracted as, and why they are refused.**  Every provider comes from the
package itself and fits its kind. -/
theorem extracts_as_listed (pkg : Package) :
    (∀ name asker,
      (∀ s, pkg.extractSet name asker = .ok s ↔ ∃ decl, pkg.set? name = some decl ∧
        s.id = ⟨pkg.path, name⟩ ∧ pkg.Lists decl.providers decl.sets s.items) ∧
      ∀ e, pkg.extractSet name asker = .error e ↔
        (pkg.set? name = none ∧ e = .unknownSet (SetId.text ⟨pkg.path, name⟩) asker) ∨
          ∃ decl, pkg.set? name = some decl ∧ pkg.RefusesFirst decl.providers e) ∧
    ∀ injector,
      (∀ r, pkg.request injector = .ok r ↔ r.pkg = pkg.path ∧ r.name = injector.name ∧
        r.inputs = injector.inputs ∧ r.outputs = injector.outputs ∧
        pkg.Lists injector.providers injector.sets r.items) ∧
      ∀ e, pkg.request injector = .error e ↔ pkg.RefusesFirst injector.providers e :=
  ⟨fun _ _ => ⟨fun _ => extractSet_eq_ok_iff, fun _ => extractSet_eq_error_iff⟩,
    fun _ => ⟨fun _ => request_eq_ok_iff, fun _ => request_eq_error_iff⟩⟩

/-- A package with a declaration of every flavour, and one with a flaw. -/
def workshop : Package where
  path := "workshop"
  types := ⟨[("Bench", ⟨.struct, [⟨"Top", "Wood"⟩, ⟨"Vise", "Iron"⟩]⟩), ("Tool", ⟨.interface, []⟩)]⟩
  providers :=
    [{ name := "NewSaw", output := some "Saw", fallible := true },
     { name := "NewBench", kind := .struct, structType := some "Bench", fields := ["Vise", "Top"] },
     { name := "BenchParts", kind := .fields, structType := some "Bench", fields := ["*"] },
     { name := "SawTool", kind := .bind, interface := some "Tool", concrete := some "Saw" },
     { name := "Glue", kind := .value, output := some "Glue", expr := some "GLUE" },
     { name := "Mess", kind := .value, inputs := ["Glue"], output := some "Mess", expr := some "MESS" }]
  sets :=
    [{ name := "Tools", providers := ["NewSaw", "NewBench", "BenchParts", "SawTool", "Glue"]
       sets := ["shop/nails.Nails"] },
     { name := "Rest", providers := ["Glue", "Mess", "Lost"] }]

/-- A declaration of fields stands for as many providers as it selects, and the first flaw is the one that is
reported. -/
theorem extracts_as_listed_workshop :
    (∃ s, workshop.extractSet "Tools" "shop.Init" = .ok s ∧
      s.items.map SetItem.kind =
        [.function, .structLiteral, .fieldRead, .fieldRead, .interfaceBinding, .value, .setReference] ∧
      ∀ p, .provider p ∈ s.items → workshop.Shaped p) ∧
    ∃ e, workshop.extractSet "Rest" "shop.Init" = .error e ∧
      e = .invalidDeclaration "workshop" "Mess" "value cannot have inputs" ∧
      workshop.RefusesFirst ["Glue", "Mess", "Lost"] e := by
  obtain ⟨hok, -⟩ := (extracts_as_listed workshop).1 "Tools" "shop.Init"
  obtain ⟨-, herror⟩ := (extracts_as_listed workshop).1 "Rest" "shop.Init"
  refine ⟨?_, _, rfl, by decide +kernel, ?_⟩
  · obtain ⟨_, -, -, hlists⟩ := (hok _).1 rfl
    exact ⟨_, rfl, by decide +kernel, hlists.shaped⟩
  · obtain ⟨hnone, -⟩ | ⟨decl, hdecl, hfirst⟩ := (herror _).1 rfl
    · exact absurd hnone (by decide +kernel)
    · obtain rfl : _ = decl := Option.some.inj hdecl
      exact hfirst

end Wiring.Package
