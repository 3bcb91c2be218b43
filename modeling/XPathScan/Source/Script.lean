import XPathScan.Source.Basic

/-!
# Sources that need not be honest

A source is free to claim any count, whatever it wrote. A `XPathScan.Script` writes down what each
read will do: the bytes put into the buffer, and the count claimed for them, which may be larger
than the buffer or smaller than what was written. Each read uses up one step, and when there is
none left a read delivers nothing.
-/

namespace XPathScan

/-- **What one read of a script does.** -/
inductive Script.Step where
  /-- Write as many of the bytes as fit, and claim the given count, or else the true one. -/
  | deliver (bytes : List UInt8) (claim : Option Nat)
  /-- Fail, writing nothing. -/
  | fail (failure : ReadFailure)
  deriving DecidableEq, Repr

/-- **A scripted source**: one step for each read to come. -/
structure Script where
  /-- The reads to come. -/
  steps : List Script.Step
  deriving DecidableEq, Repr

/-- One read of a script, into a buffer of any size. -/
def Script.read {n : Nat} (buffer : Vector UInt8 n) (script : Script) : Delivery n × Script :=
  match script.steps with
  | [] => ({ buffer, count := .ok 0 }, script)
  | .deliver bytes claim :: steps =>
    let bytes := bytes.take n
    ({ buffer := writeAt buffer 0 bytes, count := .ok (claim.getD bytes.length) }, { steps })
  | .fail failure :: steps => ({ buffer, count := .error failure }, { steps })

instance : Source Script where
  read := Script.read
  credit script := script.steps.length
  credit_read_lt buffer script count hn hcount hle := by
    revert hcount
    unfold Script.read
    split
    · intro hcount
      simp only [Except.ok.injEq] at hcount
      omega
    · next h =>
      intro _
      simp [h]
    · next h =>
      intro _
      simp [h]

end XPathScan
