/-
**Generated files.**

The functions of a package are put into one file, under a header and a banner.

Main definitions:

* `Wiring.Emit.banner` — the line that says that the file is generated;
* `Wiring.Emit.fileText` — the file.
-/

import Wiring.Options
import Wiring.Text.Blank

set_option autoImplicit false

namespace Wiring.Emit

/-- The line that says that a file is generated. -/
def banner : String := "// Code generated by wiregen. DO NOT EDIT."

/-- The header of a file, closed by one line break.  A header without visible text is left out. -/
def headerText : Option String → String
  | none => ""
  | some header => if Text.isAllBlank header then "" else Text.trimEnd header ++ "\n"

/-- The file of a package with the given functions.  It ends in exactly one line break. -/
def fileText (pkg : String) (functions : List String) (options : Options) : String :=
  let top := headerText options.header ++ (if options.banner then banner ++ "\n\n" else "")
  let intro := "//! Injectors for \x60" ++ pkg ++ "\x60.\n"
  let body := Text.join "" (functions.map fun code => "\n" ++ code ++ "\n")
  Text.trimEnd (top ++ intro ++ body) ++ "\n"

end Wiring.Emit
