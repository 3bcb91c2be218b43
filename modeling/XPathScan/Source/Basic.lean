/-!
# Byte sources

A source fills a buffer it is handed and says how many bytes it delivered. Three things about it
matter to a reader:

* the buffer is the caller's, so what a source does not write stays as it was – also in a read
  that fails half-way (`XPathScan.Delivery`);
* a count below the buffer's size means that the input has ended;
* a source is finite: it can fill whole buffers only finitely often. `XPathScan.Source.credit`
  bounds how often, and every loop that pulls input ends because of it.

The count is what the source *claims*. Nothing forces it to agree with the bytes written.
-/

namespace XPathScan

/-- **Why a read failed.** -/
inductive ReadFailure where
  /-- What was to be opened is not there. -/
  | notFound
  /-- The read was interrupted before it delivered anything. -/
  | interrupted
  /-- Any other cause, with its own text. -/
  | other (text : String)
  deriving DecidableEq, Repr, Inhabited

/-- The text of a failed read. -/
def ReadFailure.message : ReadFailure → String
  | .notFound => "not found"
  | .interrupted => "operation interrupted"
  | .other text => text

/-- **What one read gives back**: the caller's buffer, as far as it was written, and the number of
bytes delivered or the reason there is none. -/
structure Delivery (n : Nat) where
  /-- The buffer after the read. -/
  buffer : Vector UInt8 n
  /-- The number of bytes delivered, as claimed by the source. -/
  count : Except ReadFailure Nat

/-- `writeAt buffer i bytes` puts `bytes` into `buffer` from index `i` on and drops what does not
fit. -/
def writeAt {n : Nat} (buffer : Vector UInt8 n) (i : Nat) : List UInt8 → Vector UInt8 n
  | [] => buffer
  | b :: bytes => writeAt (buffer.setIfInBounds i b) (i + 1) bytes

/-- **A finite supplier of bytes.** -/
class Source (σ : Type) where
  /-- Fill a buffer as far as the input goes. -/
  read : {n : Nat} → Vector UInt8 n → σ → Delivery n × σ
  /-- A bound on how many whole buffers are still to come. -/
  credit : σ → Nat
  /-- A read that fills its buffer uses up credit. -/
  credit_read_lt : ∀ {n : Nat} (buffer : Vector UInt8 n) (source : σ) (count : Nat), 0 < n →
    (read buffer source).1.count = .ok count → n ≤ count →
      credit (read buffer source).2 < credit source

end XPathScan
