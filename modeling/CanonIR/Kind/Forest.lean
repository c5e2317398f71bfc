import CanonIR.Kind.Probe

/-!
Forests of classes: ordered trees with a probe at each node, and the two searches in them,
`Forest.find?` for a node and `Forest.parentIn?` for the parent of a node. Probes may repeat; both
searches then select the first node in preorder.
-/

namespace CanonIR

/-- Finitely many trees in a fixed order. -/
inductive Forest where
  | empty
  /-- A tree with its probe and children, and the trees after it. -/
  | tree (probe : Probe) (children rest : Forest)
  deriving DecidableEq

/-- A node of a forest: its probe, and the trees below it. -/
structure ClassNode where
  probe : Probe
  children : Forest
  deriving DecidableEq

namespace Forest

/-- Trees without children, in front of other trees. -/
def leaves (ps : List Probe) (rest : Forest := empty) : Forest :=
  ps.foldr (fun p f => tree p empty f) rest

/-- The number of levels. -/
def height : Forest → Nat
  | empty => 0
  | tree _ children rest => max (children.height + 1) rest.height

/-- The first node in preorder with a probe. -/
def find? (target : Probe) : Forest → Option ClassNode
  | empty => none
  | tree p children rest =>
    if p = target then some ⟨p, children⟩
    else (children.find? target).or (rest.find? target)

/-- The parent of the first node in preorder with a probe, as `label` names it. A tree at the top of
the forest has the parent `above`. -/
def parentIn? {α : Type} (label : Probe → α) (target : Probe) (above : α) : Forest → Option α
  | empty => none
  | tree p children rest =>
    if p = target then some above
    else (children.parentIn? label target (label p)).or (rest.parentIn? label target above)

end Forest

end CanonIR
