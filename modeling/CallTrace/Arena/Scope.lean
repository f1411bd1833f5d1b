import CallTrace.Arena.Basic

/-!
Scopes. A program opens one, and so does the block that is the body of a function; a plain block
belongs to the scope around it.
-/
namespace CallTrace.Arena

def opensScope (a : Arena) (r : Ref) : Bool :=
  match a.node? r with
  | some (.program _) => true
  | some (.block _) => (a.node? (a.parent r)).any Node.isFunction
  | _ => false

/-- How many ancestors of a node are looked at. -/
def maxAncestors : Nat := 10000

/-- A node and the nodes above it, at most the given number. -/
def upward (a : Arena) : Nat → Ref → List Index
  | 0, _ => []
  | _, none => []
  | n + 1, some i => i :: upward a n (a.parent (some i))

/-- The scopes around a node, innermost first. The node itself does not count. -/
def scopeChain (a : Arena) (r : Ref) : List Index :=
  (a.upward maxAncestors (a.parent r)).filter fun i => a.opensScope (some i)

/-- The first scope among a node and the nodes above it, at most the given number. -/
def firstScope (a : Arena) : Nat → Ref → Ref
  | 0, _ => none
  | _, none => none
  | n + 1, some i => if a.opensScope (some i) then some i else firstScope a n (a.parent (some i))

def innermostScope (a : Arena) (r : Ref) : Ref := a.firstScope maxAncestors (a.parent r)

theorem firstScope_eq_head? (a : Arena) (n : Nat) (r : Ref) :
    a.firstScope n r = ((a.upward n r).filter fun i => a.opensScope (some i)).head? := by
  induction n generalizing r with
  | zero => rfl
  | succ n ih =>
    cases r with
    | none => rfl
    | some i =>
      by_cases h : a.opensScope (some i)
      · simp [firstScope, upward, h]
      · simp [firstScope, upward, h, ih]

theorem innermostScope_eq_head? (a : Arena) (r : Ref) :
    a.innermostScope r = (a.scopeChain r).head? :=
  a.firstScope_eq_head? maxAncestors (a.parent r)

/-- Whether a node lies directly in the given scope. -/
def liesIn (a : Arena) (scope r : Ref) : Bool := scope.isSome && a.innermostScope r == scope

end CallTrace.Arena
