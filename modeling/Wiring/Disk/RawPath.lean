/-
**Paths as the system holds them.**

To the system a path is a row of bytes, of which only the slash and the dot mean anything.  The paths that
are written here are texts, but the folders on a disk may have names that are none.  Such a name is shown
with replacement characters, and several names may then look the same.

Main definitions:

* `Wiring.RawPath`, `Wiring.RawName` — a path and a name as bytes;
* `Wiring.RawName.shown` — a name as it is shown;
* `Wiring.RawPath.components`, `Wiring.RawPath.join`, `Wiring.RawPath.stepsFrom?` — what such a path means,
  and going down from it;
* `Wiring.Path.raw` — a path that is a text, as the system holds it.
-/

import Wiring.Disk.Path
import Wiring.Text.Utf8

set_option autoImplicit false

namespace Wiring

/-- A name as the system holds it. -/
abbrev RawName := List UInt8

namespace RawName

/-- The name as it is shown, with replacement characters for what is no text. -/
def shown (name : RawName) : String :=
  Text.decodeLossy name

/-- The name is a text. -/
def IsText (name : RawName) : Prop :=
  ∃ text, name = Text.encode text

end RawName

/-- A path as the system holds it. -/
structure RawPath where
  bytes : List UInt8
deriving DecidableEq, Inhabited

namespace RawPath

/-- The byte that separates names. -/
def slash : UInt8 := 0x2F

/-- The byte of which the segments without a name consist. -/
def dot : UInt8 := 0x2E

/-- The path that is written by a text. -/
def ofText (text : String) : RawPath :=
  ⟨Text.encode text⟩

/-- The bytes between the slashes. -/
def segments (p : RawPath) : List RawName :=
  Text.cut slash p.bytes

/-- Whether the path starts at the root. -/
def isAbsolute (p : RawPath) : Bool :=
  p.bytes.head? = some slash

/-- A segment that stands for no step. -/
def isIdle (segment : RawName) : Bool :=
  segment = [] || segment = [dot]

/-- The step that a segment stands for. -/
def stepOf (segment : RawName) : Component RawName :=
  if segment = [dot, dot] then .parent else .normal segment

/-- The component that the front of a path stands for, if it stands for one. -/
def front (p : RawPath) : List (Component RawName) :=
  if p.isAbsolute then [.root]
  else if p.segments.head? = some [dot] then [.current]
  else []

/-- The steps of a path. -/
def components (p : RawPath) : List (Component RawName) :=
  p.front ++ (p.segments.filter fun s => !isIdle s).map stepOf

/-- The path of a place below the root, given by the names on the way. -/
def ofNames (names : List RawName) : RawPath :=
  ⟨slash :: [slash].intercalate names⟩

/-- The path that `rest` has when it is taken from `p`.  An absolute path stands for itself. -/
def join (p rest : RawPath) : RawPath :=
  if rest.isAbsolute then rest
  else if p.bytes = [] || p.bytes.getLast? = some slash then ⟨p.bytes ++ rest.bytes⟩
  else ⟨p.bytes ++ slash :: rest.bytes⟩

/-- The components that lead from `base` to `p`, if `p` is `base` or lies below it. -/
def stepsFrom? (base p : RawPath) : Option (List (Component RawName)) :=
  base.components.isPrefixOf? p.components

end RawPath

/-- The path as the system holds it. -/
def Path.raw (p : Path) : RawPath :=
  .ofText p.text

end Wiring
