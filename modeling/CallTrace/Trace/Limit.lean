import CallTrace.Binary64

/-!
How much of a long scope body is looked at. Bodies of up to ten statements are taken whole; beyond
that the number of the last statement grows by two for every thousand.
-/
namespace CallTrace

def wholeLast : Nat := 9

def growth : Binary64 := .ofRatio 2 1000

/-- The number of the last statement that is looked at in a body of the given length. -/
def lastLooked (length : Nat) : Nat :=
  let last := length - 1
  if last ≤ wholeLast then last
  else min ((Binary64.ofNat wholeLast).add ((Binary64.ofNat last).mul growth)).roundHalfUp last

end CallTrace
