/-
**Paths.**

A path is a text whose parts are separated by slashes.  Two paths that are written differently may
have the same components: repeated and trailing slashes and inner dots do not count.  Paths are
compared by their components, but are shown, joined and opened by their texts.

Main definitions:

* `Wiring.Path` — a path as it is written;
* `Wiring.Path.components` — what the path means;
* `Wiring.Path.le` — the order by components;
* `Wiring.Path.join`, `Wiring.Path.parent?`, `Wiring.Path.ancestors` — going down and up.
-/

import Wiring.Text.Fields

set_option autoImplicit false

namespace Wiring

/-- A path as it is written. -/
structure Path where
  text : String
deriving DecidableEq, Inhabited

/-- One step of a path, with names that are texts unless it is said otherwise. -/
inductive Component (ν : Type := String) where
  /-- The slash in front. -/
  | root
  /-- A dot in front. -/
  | current
  | parent
  | normal (name : ν)
deriving DecidableEq, Inhabited

/-- The rank of a component and its name; components are ordered by the two together. -/
def Component.key : Component → Nat × String
  | root => (0, "")
  | current => (1, "")
  | parent => (2, "")
  | normal name => (3, name)

/-- Whether one component comes strictly before another. -/
def Component.lt (a b : Component) : Bool :=
  a.key.1 < b.key.1 || (a.key.1 = b.key.1 && a.key.2 < b.key.2)

namespace Path

/-- The texts between the slashes. -/
def segments (p : Path) : List String :=
  Text.fields '/' p.text

/-- Whether the path starts at the root. -/
def isAbsolute (p : Path) : Bool :=
  p.text.toList.head? = some '/'

/-- A segment that stands for no step. -/
def isIdle (segment : String) : Bool :=
  segment = "" || segment = "."

/-- The step that a segment stands for. -/
def stepOf (segment : String) : Component :=
  if segment = ".." then .parent else .normal segment

/-- The component that the front of a path stands for, if it stands for one. -/
def front (p : Path) : List Component :=
  if p.isAbsolute then [.root]
  else if p.segments.head? = some "." then [.current]
  else []

/-- The steps of a path. -/
def components (p : Path) : List Component :=
  p.front ++ (p.segments.filter fun s => !isIdle s).map stepOf

/-- Lexicographic order of lists of components; a list comes after its own beginnings. -/
def componentsLe : List Component → List Component → Bool
  | [], _ => true
  | _ :: _, [] => false
  | a :: as, b :: bs => a.lt b || (a = b && componentsLe as bs)

/-- The order of paths by their components. -/
def le (p q : Path) : Bool :=
  componentsLe p.components q.components

/-- Whether two paths have the same components. -/
def sameAs (p q : Path) : Bool :=
  p.components = q.components

/-- The path written by a list of segments. -/
def ofSegments (segments : List String) : Path :=
  if segments = [""] then ⟨"/"⟩ else ⟨Text.join "/" segments⟩

/-- The path of a location below the root, given by the names on the way. -/
def ofNames (names : List String) : Path :=
  ofSegments ("" :: names)

/-- The path that `rest` has when it is taken from `p`.  An absolute path stands for itself. -/
def join (p rest : Path) : Path :=
  if rest.isAbsolute then rest
  else if p.text = "" || p.text.toList.getLast? = some '/' then ⟨p.text ++ rest.text⟩
  else ⟨p.text ++ "/" ++ rest.text⟩

/-- The segments without the idle ones at the end. -/
def trimIdle (segments : List String) : List String :=
  (segments.reverse.dropWhile isIdle).reverse

/-- The path without its last component.  The root and the empty path have none to take off. -/
def parent? (p : Path) : Option Path :=
  match p.segments with
  | [] => none
  | first :: rest =>
    match trimIdle rest with
    | [] => if first = "" then none else some ⟨""⟩
    | steps => some (ofSegments (first :: trimIdle steps.dropLast))

/-- At most `count` of the paths that lead from `p` upwards. -/
def ancestorsUpTo : Nat → Path → List Path
  | 0, _ => []
  | count + 1, p =>
    p :: match p.parent? with
      | some q => ancestorsUpTo count q
      | none => []

/-- The path itself, its parent, and so on up to the root or the empty path.  Each step up takes a
segment away, so the segments bound their number. -/
def ancestors (p : Path) : List Path :=
  ancestorsUpTo (p.segments.length + 1) p

end Path

end Wiring
