import XPathScan.Token.Basic

/-!
# Reusing token records

Tokens that are no longer needed can be handed back, and are handed out again, the last one first.
A record is reset when it comes back, so nothing of its former contents is seen again.
-/

namespace XPathScan

/-- **Token records waiting to be used again.** -/
structure Pool where
  /-- The records that have been handed back, the last one first. -/
  free : List Token := []
  /-- How many records have been made. -/
  allocated : Nat := 0
  deriving DecidableEq, Repr

namespace Pool

/-- The number of records waiting. -/
def available (p : Pool) : Nat := p.free.length

/-- **Take a record**: one that waits, or else a new one. -/
def acquire (p : Pool) : Token × Pool :=
  match p.free with
  | token :: free => (token, { p with free })
  | [] => (Token.blank, { p with allocated := p.allocated + 1 })

/-- **Hand a record back.** It need not have been taken from this pool. -/
def release (p : Pool) (token : Token) : Pool := { p with free := token.reset :: p.free }

end Pool

end XPathScan
