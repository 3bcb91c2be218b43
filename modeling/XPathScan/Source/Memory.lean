import XPathScan.Source.Basic

/-!
# Bytes in memory

The plainest source: the bytes themselves. Every read takes as many as the buffer holds, so only
the last one is short.
-/

namespace XPathScan

/-- **A source over bytes in memory**, given by the bytes not yet handed out. -/
structure Memory where
  /-- The bytes still to come. -/
  rest : List UInt8
  deriving DecidableEq, Repr

/-- The number of bytes not yet handed out. -/
def Memory.remaining (source : Memory) : Nat := source.rest.length

instance : Source Memory where
  read {n} buffer source :=
    let bytes := source.rest.take n
    ({ buffer := writeAt buffer 0 bytes, count := .ok bytes.length }, { rest := source.rest.drop n })
  credit source := source.rest.length
  credit_read_lt {n} buffer source count hn hcount hle := by
    simp only [Except.ok.injEq, List.length_take] at hcount
    simp only [List.length_drop]
    omega

end XPathScan
