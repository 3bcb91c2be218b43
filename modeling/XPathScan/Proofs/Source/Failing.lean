import XPathScan.Proofs.Source.Faithful
import XPathScan.Proofs.Source.Logged
import XPathScan.Source.Script

/-!
# Sources that fail after some reads

A source may do what another one does and then fail. To a reader the two are the same up to the read
that fails, down to the last byte of the buffer.

A source that hands out the beginning of a text and then fails is of that kind. What it has not come
to does not matter: every text with the same beginning is as good
(`XPathScan.Source.FailsAfter.congr`). With each of these texts the source can be *mended*: its
reads are made as before, and if one does not bring what is due, the bytes of the text are put in
its place. So a mended source is faithful whatever is inside, and as long as the source inside does
its work the two deliver the same.

* `XPathScan.Source.RunsWith` – some reads are those of another source, and the one after them
  fails;
* `XPathScan.Source.FailsAfter` – some reads bring the next bytes of a text, and the one after them
  fails;
* `XPathScan.Script.failsAfter` – there is such a source for every text and every number of reads;
* `XPathScan.Mended.faithful` – a mended source hands out its text;
* `XPathScan.Source.FailsAfter.runsWith` – and up to the failure it is what is inside.
-/

namespace XPathScan

variable {σ τ : Type} [Source σ] [Source τ] {n : Nat}

/-- **A source that does what another one does, and then fails.** Read into buffers of the given
size, the two deliver the same that often, or until they do not fill a buffer; the read after these
fails. -/
def Source.RunsWith (n : Nat) (failure : ReadFailure) : Nat → σ → τ → Prop
  | 0, source, _ =>
    ∀ buffer : Vector UInt8 n, (Source.read buffer source).1.count = .error failure
  | j + 1, source, source' =>
    ∀ buffer : Vector UInt8 n, (Source.read buffer source).1 = (Source.read buffer source').1 ∧
      ∀ count, (Source.read buffer source).1.count = .ok count → n ≤ count →
        RunsWith n failure j (Source.read buffer source).2 (Source.read buffer source').2

/-! ### The beginning of a text -/

/-- **A read that brings the next bytes of a text**, as many as its buffer holds or as there are. -/
def Delivery.Brings (d : Delivery n) (bytes : List UInt8) : Prop :=
  d.count.toOption = some (bytes.take n).length ∧ d.bytes = bytes.take n

instance (d : Delivery n) (bytes : List UInt8) : Decidable (d.Brings bytes) :=
  inferInstanceAs (Decidable (_ ∧ _))

/-- What it means that a read brings bytes: it says how many they are, and they stand at the
beginning of the buffer. -/
theorem Delivery.brings_iff {d : Delivery n} {bytes : List UInt8} :
    d.Brings bytes ↔ d.count = .ok (min n bytes.length) ∧
      ∀ i, i < n → i < bytes.length → d.buffer[i]? = bytes[i]? := by
  rw [Brings, Delivery.bytes, List.length_take]
  cases d.count with
  | error failure => simp [Except.toOption]
  | ok count =>
    simp only [Except.toOption, Option.some.injEq, Except.ok.injEq]
    refine and_congr_right ?_
    rintro rfl
    constructor
    · intro hbytes i hi hlen
      have hsame := congrArg (·[i]?) hbytes
      rw [List.getElem?_take_of_lt (by omega), List.getElem?_take_of_lt hi] at hsame
      simpa using hsame
    · intro hwritten
      refine List.ext_getElem? fun i => ?_
      rw [List.getElem?_take, List.getElem?_take]
      by_cases hi : i < min n bytes.length
      · rw [if_pos hi, if_pos (by omega)]
        simpa using hwritten i (by omega) (by omega)
      · rw [if_neg hi]
        by_cases hn : i < n
        · rw [if_pos hn, List.getElem?_eq_none (by omega)]
        · rw [if_neg hn]

/-- **A source that fails after some reads.** Read into buffers of the given size, it brings the
next bytes of a text that often, or to the end of the text; the read after these fails. -/
def Source.FailsAfter (n : Nat) (failure : ReadFailure) : Nat → σ → List UInt8 → Prop
  | 0, source, _ =>
    ∀ buffer : Vector UInt8 n, (Source.read buffer source).1.count = .error failure
  | j + 1, source, bytes =>
    ∀ buffer : Vector UInt8 n, (Source.read buffer source).1.Brings bytes ∧
      (n ≤ bytes.length → FailsAfter n failure j (Source.read buffer source).2 (bytes.drop n))

/-- **What the source has not come to does not matter.** -/
theorem Source.FailsAfter.congr {failure : ReadFailure} {j : Nat} {source : σ}
    {bytes bytes' : List UInt8} (h : Source.FailsAfter n failure j source bytes)
    (hsame : bytes.take (j * n) = bytes'.take (j * n)) :
    Source.FailsAfter n failure j source bytes' := by
  induction j generalizing source bytes bytes' with
  | zero => exact h
  | succ j ih =>
    rw [Nat.add_mul, Nat.one_mul] at hsame
    have hfirst : bytes.take n = bytes'.take n := by
      simpa [List.take_take] using congrArg (List.take n) hsame
    intro buffer
    obtain ⟨hbrings, hrest⟩ := h buffer
    refine ⟨?_, fun hle => ih (hrest ?_) ?_⟩
    · rwa [Delivery.Brings, ← hfirst]
    · have hlen := congrArg List.length hfirst
      rw [List.length_take, List.length_take] at hlen
      omega
    · rw [List.take_drop, List.take_drop, Nat.add_comm n, hsame]

/-- **A script that hands out the beginning of a text** by some reads, and then fails. -/
def Script.cutOff (n : Nat) (failure : ReadFailure) : Nat → List UInt8 → Script
  | 0, _ => { steps := [.fail failure] }
  | j + 1, text =>
    { steps := .deliver (text.take n) none :: (cutOff n failure j (text.drop n)).steps }

/-- **A script that is cut off fails when it should.** -/
theorem Script.failsAfter (n : Nat) (failure : ReadFailure) (j : Nat) (text : List UInt8) :
    Source.FailsAfter n failure j (Script.cutOff n failure j text) text := by
  induction j generalizing text with
  | zero => exact fun buffer => rfl
  | succ j ih =>
    intro buffer
    refine ⟨Delivery.brings_iff.mpr ⟨?_, fun i hi hlen => ?_⟩, fun _ => ih (text.drop n)⟩
    · change Except.ok ((text.take n).take n).length = _
      rw [List.take_take, Nat.min_self, List.length_take]
    · change (writeAt buffer 0 ((text.take n).take n))[i]? = _
      have htake : i < (text.take n).length := by
        rw [List.length_take]
        omega
      have hwritten := getElem?_writeAt buffer 0 (text.take n) htake (by omega)
      rw [Nat.zero_add] at hwritten
      rw [List.take_take, Nat.min_self, hwritten, List.getElem?_take_of_lt hi]

/-! ### Mended sources -/

/-- **A source that is mended with a text.** -/
structure Mended (σ : Type) where
  /-- The source that is read. -/
  inner : σ
  /-- What is still due. -/
  rest : List UInt8

/-- **What a read of a mended source delivers**: what the source inside does, if that is what is
due, and otherwise what is due. -/
def Mended.deliver (buffer : Vector UInt8 n) (source : Mended σ) : Delivery n :=
  let delivery := (Source.read buffer source.inner).1
  if delivery.Brings source.rest then delivery
  else (Source.read buffer ({ rest := source.rest } : Memory)).1

/-- **A mended source brings what is due.** -/
theorem Mended.brings_deliver (buffer : Vector UInt8 n) (source : Mended σ) :
    (source.deliver buffer).Brings source.rest := by
  rw [deliver]
  split
  · next hbrings => exact hbrings
  · rw [Delivery.brings_iff]
    obtain ⟨hcount, hwritten, -⟩ := Memory.faithful source.rest
    refine ⟨?_, hwritten buffer⟩
    change Except.ok (source.rest.take n).length = _
    rw [List.length_take]

instance : Source (Mended σ) where
  read {n} buffer source :=
    (source.deliver buffer,
      { inner := (Source.read buffer source.inner).2, rest := source.rest.drop n })
  credit source := source.rest.length
  credit_read_lt {n} buffer source count hn hcount hle := by
    have hbrings := (Delivery.brings_iff.mp (Mended.brings_deliver buffer source)).1
    obtain rfl : count = min n source.rest.length := by simpa [hbrings] using hcount.symm
    simp only [List.length_drop]
    omega

/-- **A mended source hands out its text**, whatever is inside. -/
theorem Mended.faithful (source : Mended σ) : Source.Faithful source source.rest := by
  -- Every full read leaves fewer bytes, so this is an induction on their number.
  induction hlen : source.rest.length using Nat.strongRecOn generalizing source with
  | ind len ih =>
    refine .intro (fun {n} buffer _ => ?_) (fun {n} buffer => ?_) (fun {n} buffer hn hle => ?_)
    · exact (Delivery.brings_iff.mp (brings_deliver buffer source)).1
    · exact (Delivery.brings_iff.mp (brings_deliver buffer source)).2
    · refine ih _ ?_ (Source.read buffer source).2 rfl
      change (source.rest.drop n).length < len
      rw [List.length_drop]
      omega

/-- As long as the source inside brings what is due, the mended one delivers the same. -/
theorem Mended.read_eq {buffer : Vector UInt8 n} {source : Mended σ}
    (h : (Source.read buffer source.inner).1.Brings source.rest) :
    Source.read buffer source = ((Source.read buffer source.inner).1,
      { inner := (Source.read buffer source.inner).2, rest := source.rest.drop n }) :=
  Prod.ext (if_pos h) rfl

/-- **A source that fails after the beginning of a text runs with the mended one.** -/
theorem Source.FailsAfter.runsWith {failure : ReadFailure} {j : Nat} {source : σ}
    {bytes : List UInt8} (h : Source.FailsAfter n failure j source bytes) :
    Source.RunsWith n failure j source ({ inner := source, rest := bytes } : Mended σ) := by
  induction j generalizing source bytes with
  | zero => exact h
  | succ j ih =>
    intro buffer
    obtain ⟨hbrings, hrest⟩ := h buffer
    have hread : Source.read buffer ({ inner := source, rest := bytes } : Mended σ) = _ :=
      Mended.read_eq hbrings
    rw [hread]
    refine ⟨rfl, fun count hcount hle => ih (hrest ?_)⟩
    obtain rfl : count = min n bytes.length := by
      simpa [(Delivery.brings_iff.mp hbrings).1] using hcount.symm
    omega

end XPathScan
