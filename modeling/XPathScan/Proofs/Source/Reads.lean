import XPathScan.Source.Metered

/-!
# How often a source is read

Reads are counted without looking into the source: a number of them leads from one state of it to
another. Where a source has a meter on it, the meter says the same.

* `XPathScan.Source.Reads` – what a number of reads leaves of a source;
* `XPathScan.Source.Reads.reads_eq` – a meter counts them.
-/

namespace XPathScan

variable {σ : Type} [Source σ] {n : Nat}

/-- **What a number of reads leaves of a source**, all into buffers of the given size. -/
inductive Source.Reads (n : Nat) (source : σ) : Nat → σ → Prop
  /-- The source has not been read. -/
  | zero : Reads n source 0 source
  /-- It has been read once more, with whatever result. -/
  | succ {k : Nat} {source' : σ} (buffer : Vector UInt8 n) :
      Reads n source k source' → Reads n source (k + 1) (Source.read buffer source').2

/-- One more read, by its result. -/
theorem Source.Reads.read {source source' source'' : σ} {k : Nat} {buffer : Vector UInt8 n}
    {d : Delivery n} (h : Source.Reads n source k source')
    (hread : Source.read buffer source' = (d, source'')) :
    Source.Reads n source (k + 1) source'' := by
  have hsucc := h.succ buffer
  rwa [hread] at hsucc

/-- **A meter counts the reads.** -/
theorem Source.Reads.reads_eq {source source' : Metered σ} {k : Nat}
    (h : Source.Reads n source k source') : source'.reads = source.reads + k := by
  induction h with
  | zero => rfl
  | succ buffer _ ih => exact congrArg (· + 1) ih

end XPathScan
