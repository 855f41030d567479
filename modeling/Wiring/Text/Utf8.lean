/-
**UTF-8.**

Texts as bytes and bytes as texts.  A file is a list of bytes; it is text when the bytes are well
formed UTF-8.  For display, each longest piece of an ill-formed sequence is shown as one
replacement character.

Main definitions:

* `Wiring.Text.encode` — the bytes of a text;
* `Wiring.Text.next` — one step of reading: a character, or a piece that is none, and the rest;
* `Wiring.Text.decode?`, `Wiring.Text.decodeLossy` — the strict and the lenient reader.
-/

set_option autoImplicit false

namespace Wiring.Text

/-- The bytes of a text. -/
def encode (s : String) : List UInt8 :=
  s.toList.flatMap String.utf8EncodeChar

/-- The bytes that may follow a leading byte: the bounds of the second byte and the number of
bytes after it.  A byte that leads no sequence of several bytes has none. -/
def tail? (lead : UInt8) : Option ((UInt8 × UInt8) × Nat) :=
  if 0xC2 ≤ lead ∧ lead ≤ 0xDF then some ((0x80, 0xBF), 0)
  else if lead = 0xE0 then some ((0xA0, 0xBF), 1)
  else if lead = 0xED then some ((0x80, 0x9F), 1)
  else if 0xE1 ≤ lead ∧ lead ≤ 0xEF then some ((0x80, 0xBF), 1)
  else if lead = 0xF0 then some ((0x90, 0xBF), 2)
  else if 0xF1 ≤ lead ∧ lead ≤ 0xF3 then some ((0x80, 0xBF), 2)
  else if lead = 0xF4 then some ((0x80, 0x8F), 2)
  else none

/-- Adds the six payload bits of a continuation byte to a number. -/
def addPayload (n : Nat) (b : UInt8) : Nat :=
  n * 64 + b.toNat % 64

/-- Reads `count` continuation bytes.  On a byte that is none it stops in front of it. -/
def continueChar (n : Nat) : Nat → List UInt8 → Option Char × List UInt8
  | 0, bytes => (some (Char.ofNat n), bytes)
  | _ + 1, [] => (none, [])
  | count + 1, b :: rest =>
    if 0x80 ≤ b ∧ b ≤ 0xBF then continueChar (addPayload n b) count rest
    else (none, b :: rest)

/-- Reads the character that `lead` begins, given the bytes after it.  Without one it skips the
longest piece that could have begun one. -/
def next (lead : UInt8) (bytes : List UInt8) : Option Char × List UInt8 :=
  if lead < 0x80 then (some (Char.ofNat lead.toNat), bytes)
  else match tail? lead, bytes with
  | some ((low, high), more), b :: rest =>
    if low ≤ b ∧ b ≤ high then
      let payload := lead.toNat % (if more = 0 then 32 else if more = 1 then 16 else 8)
      continueChar (addPayload payload b) more rest
    else (none, b :: rest)
  | _, bytes => (none, bytes)

theorem length_continueChar_le (n count : Nat) (bytes : List UInt8) :
    (continueChar n count bytes).2.length ≤ bytes.length := by
  induction bytes generalizing n count with
  | nil => cases count <;> simp [continueChar]
  | cons b rest ih =>
    cases count with
    | zero => simp [continueChar]
    | succ count =>
      simp only [continueChar]
      split
      · exact Nat.le_succ_of_le (ih _ _)
      · exact Nat.le_refl _

theorem length_next_le (lead : UInt8) (bytes : List UInt8) :
    (next lead bytes).2.length ≤ bytes.length := by
  unfold next
  split
  · exact Nat.le_refl _
  · split
    · split
      · exact Nat.le_succ_of_le (length_continueChar_le _ _ _)
      · exact Nat.le_refl _
    · exact Nat.le_refl _

/-- The pieces of a list of bytes: characters, and `none` for each ill-formed piece. -/
def pieces : List UInt8 → List (Option Char)
  | [] => []
  | lead :: bytes => (next lead bytes).1 :: pieces (next lead bytes).2
termination_by bytes => bytes.length
decreasing_by exact Nat.lt_succ_of_le (length_next_le _ _)

/-- The text of a list of bytes, if they are well formed. -/
def decode? (bytes : List UInt8) : Option String :=
  ((pieces bytes).mapM id).map String.ofList

/-- The text of a list of bytes, with a replacement character for each ill-formed piece. -/
def decodeLossy (bytes : List UInt8) : String :=
  String.ofList ((pieces bytes).map fun c => c.getD (Char.ofNat 0xFFFD))

end Wiring.Text
