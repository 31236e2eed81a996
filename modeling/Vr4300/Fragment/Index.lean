import Std.Data.TreeMap.Basic
import Std.Data.TreeSet.Basic
import Vr4300.Address
import Vr4300.Fragment.Basic

/-!
# The index of compiled code

For each cache line, the entries of the fragments that were read from it. Lines are virtual, so a range
is looked up through both unmapped windows, which show the same bytes.

## Contents

* `CodeIndex`: inserting and removing the lines of an entry.
* `CodeIndex.overlapping`: the entries with a line in a range of addresses.
* `CodeIndex.covers`: whether a line lies in a range of addresses.
-/

namespace Vr4300

/-- The entries that were read from each line. No line has an empty set. -/
structure CodeIndex where
  /-- The sets of entries. -/
  lines : Std.TreeMap UInt64 (Std.TreeSet UInt64) := {}

namespace CodeIndex

/-- The entries of a line. -/
def entriesOf (x : CodeIndex) (line : UInt64) : Std.TreeSet UInt64 :=
  x.lines[line]?.getD {}

/-- Adds an entry to a line. -/
def insertLine (x : CodeIndex) (entry line : UInt64) : CodeIndex :=
  ⟨x.lines.insert line ((x.entriesOf line).insert entry)⟩

/-- Adds an entry to its lines. -/
def insert (x : CodeIndex) (entry : UInt64) (lines : List UInt64) : CodeIndex :=
  lines.foldl (·.insertLine entry ·) x

/-- Removes an entry from a line, and the line if that was its last one. -/
def removeLine (x : CodeIndex) (entry line : UInt64) : CodeIndex :=
  let entries := (x.entriesOf line).erase entry
  ⟨if entries.isEmpty then x.lines.erase line else x.lines.insert line entries⟩

/-- Removes an entry from lines. -/
def remove (x : CodeIndex) (entry : UInt64) (lines : List UInt64) : CodeIndex :=
  lines.foldl (·.removeLine entry ·) x

/-- The number of lines. -/
def size (x : CodeIndex) : Nat := x.lines.size

/-- There are no lines. -/
def isEmpty (x : CodeIndex) : Bool := x.lines.isEmpty

/-- The first line of a range of addresses. -/
def firstLine (address : UInt64) : UInt64 := codeLine address

/-- The last line of a range of addresses; an empty range counts as one byte. -/
def lastLine (address len : UInt64) : UInt64 := codeLine (address + (max len 1 - 1))

/-- Collects the entries of `n` lines from `line` on. -/
def collect (x : CodeIndex) (found : Std.TreeSet UInt64) (line : UInt64) :
    Nat → Std.TreeSet UInt64
  | 0 => found
  | n + 1 => collect x ((x.entriesOf line).foldl .insert found) (line + 1) n

/-- Collects the entries in a range of addresses. A range that wraps around has none. -/
def collectRange (x : CodeIndex) (address len : UInt64) (found : Std.TreeSet UInt64) :
    Std.TreeSet UInt64 :=
  let first := firstLine address
  x.collect found first ((lastLine address len).toNat + 1 - first.toNat)

/-- The entries in a range of addresses, seen through both unmapped windows. -/
def overlapping (x : CodeIndex) (address len : UInt64) : Std.TreeSet UInt64 :=
  let found := x.collectRange address len {}
  match Address.unmappedAlias? address with
  | none => found
  | some view => x.collectRange view len found

/-- A line lies in a range of addresses. -/
def within (line address len : UInt64) : Bool :=
  firstLine address ≤ line && line ≤ lastLine address len

/-- A line lies in a range of addresses, seen through both unmapped windows. -/
def covers (line address len : UInt64) : Bool :=
  within line address len ||
    match Address.unmappedAlias? address with
    | none => false
    | some view => within line view len

end CodeIndex

end Vr4300
