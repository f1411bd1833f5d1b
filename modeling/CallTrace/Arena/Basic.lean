import CallTrace.Node.Basic

/-!
The arena: nodes stored by number, with the parent and the source span of each.

A node is added after its children, and adding it makes it their parent. An arena that was read
from a file may refer to nodes that do not exist, and its two tables may differ in length.
-/
namespace CallTrace

/-- Source offsets, from and to. -/
structure Span where
  pos : UInt32
  stop : UInt32
deriving DecidableEq, Repr

/-- What the arena keeps beside a node. -/
structure Info where
  parent : Ref
  span : Span
deriving DecidableEq, Repr

def Info.fresh : Info := ⟨none, ⟨0, 0⟩⟩

structure Arena where
  nodes : Array (Node Index)
  infos : Array Info
deriving DecidableEq, Repr

namespace Arena

def empty : Arena := ⟨#[], #[]⟩

def size (a : Arena) : Nat := a.nodes.size

def node? (a : Arena) (r : Ref) : Option (Node Index) := r.bind fun i => a.nodes[i.val]?

def info? (a : Arena) (r : Ref) : Option Info := r.bind fun i => a.infos[i.val]?

def parent (a : Arena) (r : Ref) : Ref := (a.info? r).bind Info.parent

def span? (a : Arena) (r : Ref) : Option Span := (a.info? r).map Info.span

/-- The children of a node; a missing node has none. -/
def children (a : Arena) (r : Ref) : List Ref :=
  match a.node? r with
  | some n => n.children
  | none => []

def statements? (a : Arena) (r : Ref) : Option (List Ref) := (a.node? r).bind Node.statements?

def identifierText? (a : Arena) (r : Ref) : Option String := (a.node? r).bind Node.text?

/-- The information table with one node made the parent of another. -/
def adopt (parent : Ref) (infos : Array Info) : Ref → Array Info
  | some i => infos.modify i.val fun info => { info with parent := parent }
  | none => infos

/-- Adds a node, which becomes the parent of its children, and gives its reference. -/
def add (a : Arena) (n : Node Index) : Ref × Arena :=
  let r := Ref.ofNat a.nodes.size
  (r, ⟨a.nodes.push n, (n.children.foldl (adopt r) a.infos).push .fresh⟩)

def setSpan (a : Arena) (r : Ref) (span : Span) : Arena :=
  match r with
  | some i => { a with infos := a.infos.modify i.val fun info => { info with span := span } }
  | none => a

end Arena

end CallTrace
