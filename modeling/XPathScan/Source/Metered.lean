import XPathScan.Source.Basic

/-!
# Counting reads

A metered source behaves as the source inside it and counts how often it was read.
-/

namespace XPathScan

/-- **A source with a meter on it.** -/
structure Metered (σ : Type) where
  /-- The source that is read. -/
  inner : σ
  /-- How often it has been read. -/
  reads : Nat := 0

instance {σ : Type} [Source σ] : Source (Metered σ) where
  read buffer source :=
    let (delivery, inner) := Source.read buffer source.inner
    (delivery, { inner, reads := source.reads + 1 })
  credit source := Source.credit source.inner
  credit_read_lt buffer source count hn hcount hle :=
    Source.credit_read_lt buffer source.inner count hn hcount hle

end XPathScan
