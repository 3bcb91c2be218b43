import XPathScan.Source.Basic

/-!
# What a source has delivered

The bytes of a read that succeeds are as many as the source says, taken from the buffer it has
written into; a read that fails delivers none. A *logged* source behaves as the source inside it and
keeps all bytes that have been delivered, so that what a reader shows can be compared with them.

* `XPathScan.Source.Gives` – what is delivered by at most one read;
* `XPathScan.Source.Gives.delivered_eq` – that much is added to the log.
-/

namespace XPathScan

variable {σ : Type} {n : Nat}

/-- **The bytes of a read**: as many as are claimed, and none if it has failed. -/
def Delivery.bytes (d : Delivery n) : List UInt8 :=
  match d.count with
  | .ok count => d.buffer.toList.take count
  | .error _ => []

/-- **What a source has delivered from one state to another**: nothing, if it was not read, or the
bytes of a read that has succeeded. -/
inductive Source.Gives [Source σ] (source : σ) : List UInt8 → σ → Prop
  /-- The source was not read. -/
  | nothing : Gives source [] source
  /-- The source was read into a buffer of some size. -/
  | bytes {n : Nat} {buffer buffer' : Vector UInt8 n} {count : Nat} {source' : σ} :
      Source.read buffer source = (⟨buffer', .ok count⟩, source') →
      Gives source (buffer'.toList.take count) source'

/-- **A source with a log of what it has delivered.** -/
structure Logged (σ : Type) where
  /-- The source that is read. -/
  inner : σ
  /-- The bytes of its reads, in order. -/
  delivered : List UInt8 := []

instance [Source σ] : Source (Logged σ) where
  read buffer source :=
    let (delivery, inner) := Source.read buffer source.inner
    (delivery, { inner, delivered := source.delivered ++ delivery.bytes })
  credit source := Source.credit source.inner
  credit_read_lt buffer source count hn hcount hle :=
    Source.credit_read_lt buffer source.inner count hn hcount hle

variable [Source σ]

/-- **A read adds its bytes to the log.** -/
theorem delivered_read {buffer : Vector UInt8 n} {source source' : Logged σ} {d : Delivery n}
    (h : Source.read buffer source = (d, source')) :
    source'.delivered = source.delivered ++ d.bytes := by
  obtain ⟨rfl, rfl⟩ := Prod.mk.inj h
  rfl

/-- **The log grows by what is delivered.** -/
theorem Source.Gives.delivered_eq {source source' : Logged σ} {more : List UInt8}
    (h : Source.Gives source more source') : source'.delivered = source.delivered ++ more := by
  cases h with
  | nothing => exact (List.append_nil _).symm
  | bytes hread => exact delivered_read hread

end XPathScan
