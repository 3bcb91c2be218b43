import XPathScan.Proofs.Source.Failing

/-!
# Suppliers that need not end

A source ends, and that is why what reads it comes to an end. A supplier of bytes need not. Still,
whatever has been done with one has been done with finitely many of its reads, and so far it cannot
be told from a source: the one that brings the same by these reads and fails at the next. So a
supplier is read with a limit on its reads, and what holds whatever the limit is holds of the
supplier as far as it is ever read. What the limit is does not matter before it is reached.

* `XPathScan.Supplier` – reads without a promise that they come to an end;
* `XPathScan.Limited` – a supplier with a limit on its reads, which is a source;
* `XPathScan.Limited.runsWith` – with a higher limit it does the same, up to the lower one.
-/

namespace XPathScan

/-- **A supplier of bytes**, which may fill buffers for ever. -/
structure Supplier (σ : Type) where
  /-- One read: fill a buffer, and go on to the next state. -/
  read : (n : Nat) → Vector UInt8 n → σ → Delivery n × σ

/-- **A supplier with a limit on its reads.** -/
structure Limited {σ : Type} (supplier : Supplier σ) where
  /-- The state of the supplier. -/
  state : σ
  /-- How many reads are left. -/
  left : Nat

variable {σ : Type} {supplier : Supplier σ} {n : Nat}

/-- One read of the supplier, or a failure if the limit has been reached. -/
def Limited.read (buffer : Vector UInt8 n) (source : Limited supplier) :
    Delivery n × Limited supplier :=
  match source.left with
  | 0 => ({ buffer, count := .error .interrupted }, source)
  | left + 1 =>
    ((supplier.read n buffer source.state).1,
      { state := (supplier.read n buffer source.state).2, left })

instance : Source (Limited supplier) where
  read := Limited.read
  credit source := source.left
  credit_read_lt buffer source count _ hcount _ := by
    revert hcount
    unfold Limited.read
    split
    · nofun
    · next left hleft =>
      intro _
      simp [hleft]

/-- **Up to its limit a supplier does what it does with a higher one.** -/
theorem Limited.runsWith (state : σ) (limit more : Nat) :
    Source.RunsWith n .interrupted limit ({ state, left := limit } : Limited supplier)
      ({ state, left := more + limit } : Limited supplier) := by
  induction limit generalizing state with
  | zero => exact fun _ => rfl
  | succ limit ih => exact fun buffer => ⟨rfl, fun _ _ _ => ih (supplier.read n buffer state).2⟩

end XPathScan
