import Std.Data.TreeMap.Basic
import Vr4300.Fragment.Basic

/-!
# The store of fragments

A fragment in the store is named by a number that is never given to another one. Fragments remember
their successors by number only, so a link leads nowhere once its target has left the store.

## Contents

* `FragmentStore`: adding, finding and dropping fragments.
* `FragmentStore.link`, `FragmentStore.successor?`.
-/

namespace Vr4300

/-- The fragments that may be run. -/
structure FragmentStore where
  /-- The fragments. -/
  fragments : Std.TreeMap FragmentId Fragment := {}
  /-- The number of the next fragment. -/
  fresh : FragmentId := 0

namespace FragmentStore

/-- The fragment with a number. -/
def get? (s : FragmentStore) (id : FragmentId) : Option Fragment := s.fragments[id]?

/-- The fragment is in the store. -/
def contains (s : FragmentStore) (id : FragmentId) : Bool := s.fragments.contains id

/-- Adds a fragment under a new number. -/
def add (s : FragmentStore) (f : Fragment) : FragmentId × FragmentStore :=
  (s.fresh, { fragments := s.fragments.insert s.fresh f, fresh := s.fresh + 1 })

/-- Drops a fragment. -/
def drop (s : FragmentStore) (id : FragmentId) : FragmentStore :=
  { s with fragments := s.fragments.erase id }

/-- Drops every fragment. -/
def clear (s : FragmentStore) : FragmentStore :=
  { s with fragments := {} }

/-- Counts a run. -/
def countRun (s : FragmentStore) (id : FragmentId) : FragmentStore :=
  { s with fragments := s.fragments.modify id fun f => { f with runs := f.runs + 1 } }

/-- Remembers the fragment that was entered after one that left through an exit. -/
def link (s : FragmentStore) (id : FragmentId) (exit : Nat) (next : FragmentId) : FragmentStore :=
  { s with
    fragments :=
      s.fragments.modify id fun f =>
        { f with successors := f.successors.setIfInBounds exit (some next) } }

/-- The remembered successor at an exit, if it is still in the store. -/
def successor? (s : FragmentStore) (id : FragmentId) (exit : Nat) : Option FragmentId := do
  let f ← s.get? id
  let next ← (f.successors[exit]?).join
  if s.contains next then some next else none

end FragmentStore

end Vr4300
