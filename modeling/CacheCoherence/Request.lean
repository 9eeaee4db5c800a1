import CacheCoherence.Protocol.Client

/-!
# Requests — what a processor asks of its private cache
-/

namespace CacheCoherence

/-- The two kinds of processor access. -/
inductive Access where
  | read
  | write
deriving DecidableEq, Repr, Inhabited

/-- The name of an access in listings. -/
def Access.name : Access → String
  | .read => "Read"
  | .write => "Write"

/-- The operation of the client table that serves an access. -/
def Access.operation : Access → ProcessorOp
  | .read => .load
  | .write => .store

/-- One access on its way through the hierarchy. -/
structure Request where
  /-- The core that issued it. -/
  core : Nat
  access : Access
  addr : Addr
  /-- The cycle at which it was handed to the private cache. -/
  issuedAt : Nat := 0
deriving DecidableEq, Repr, Inhabited

end CacheCoherence
