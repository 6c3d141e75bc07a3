import GamePlugin.Body.Rule

/-!
# Conditions

What must hold for a line to be spoken or a quest to go on. The first twenty bytes are the same in
all games; what follows them is passed over.
-/

namespace GamePlugin

open Field.Reader

/-- A condition. -/
structure Condition where
  /-- Comparison and flags. -/
  operator : UInt8
  /-- What the function's result is compared with. -/
  value : Float32
  function : UInt16
  parameters : UInt32 × UInt32

/-- Reads a condition. -/
def Condition.read : Field.Reader Condition := do
  let operator ← byte
  skip 3
  let value ← single
  let function ← word16
  skip 2
  let first ← word32
  let second ← word32
  skipRest
  return ⟨operator, value, function, (first, second)⟩

end GamePlugin
