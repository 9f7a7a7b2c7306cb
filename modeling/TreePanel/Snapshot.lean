import TreePanel.Node

/-!
# Snapshots of parse trees

A snapshot is a tree together with an identity. Two snapshots are the same one only if their
identities are equal; equal trees are not enough. An identity is the pair of whoever made the
snapshot and a serial number, so makers with different numbers never hand out the same identity,
and one maker avoids it by counting.
-/

namespace TreePanel

/-- The identity of a snapshot. -/
structure Snapshot.Id where
  /-- Number of the maker. -/
  maker : Nat
  /-- How many snapshots the maker made before. -/
  serial : Nat
deriving DecidableEq, Repr

/-- A parse tree with an identity. -/
structure Snapshot where
  id : Snapshot.Id
  root : Node

namespace Snapshot

/-- Both are one snapshot. -/
def same (a b : Snapshot) : Bool := a.id == b.id

end Snapshot

end TreePanel
