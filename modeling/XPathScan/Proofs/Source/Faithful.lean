import XPathScan.Source.Memory

/-!
# Sources that hand out a given text

A source is *faithful* to some bytes when every read fills its buffer with the next of them, and
the first read that there are not enough bytes for delivers what is left and says how many that
is. What the source does after that read is open: nobody reads on behind a short count.

* `XPathScan.Source.Faithful` – the source hands out exactly these bytes;
* `XPathScan.Memory.faithful` – bytes in memory are handed out as they are.
-/

namespace XPathScan

variable {σ : Type}

/-- **A source that hands out exactly the given bytes**, whatever buffers it is read into. A read
that can be filled leaves a source that hands out the rest. -/
inductive Source.Faithful [Source σ] : σ → List UInt8 → Prop
  | intro {source : σ} {bytes : List UInt8}
      (count : ∀ {n : Nat} (buffer : Vector UInt8 n), 0 < n →
        (Source.read buffer source).1.count = .ok (min n bytes.length))
      (written : ∀ {n : Nat} (buffer : Vector UInt8 n) (i : Nat), i < n → i < bytes.length →
        (Source.read buffer source).1.buffer[i]? = bytes[i]?)
      (rest : ∀ {n : Nat} (buffer : Vector UInt8 n), 0 < n → n ≤ bytes.length →
        Source.Faithful (Source.read buffer source).2 (bytes.drop n)) :
      Source.Faithful source bytes

/-! ### Bytes in memory -/

/-- Writing into a buffer leaves the places before it alone. -/
theorem getElem?_writeAt_of_lt {n : Nat} (buffer : Vector UInt8 n) (i : Nat) (bytes : List UInt8)
    {j : Nat} (hj : j < i) : (writeAt buffer i bytes)[j]? = buffer[j]? := by
  induction bytes generalizing buffer i with
  | nil => rfl
  | cons b bytes ih =>
    rw [writeAt, ih _ _ (by omega), Vector.getElem?_setIfInBounds_ne (by omega)]

/-- Writing into a buffer puts the bytes where they are told to go. -/
theorem getElem?_writeAt {n : Nat} (buffer : Vector UInt8 n) (i : Nat) (bytes : List UInt8)
    {j : Nat} (hj : j < bytes.length) (hn : i + j < n) :
    (writeAt buffer i bytes)[i + j]? = bytes[j]? := by
  induction bytes generalizing buffer i j with
  | nil => simp at hj
  | cons b bytes ih =>
    cases j with
    | zero =>
      have hkept := getElem?_writeAt_of_lt (buffer.setIfInBounds i b) (i + 1) bytes
        (Nat.lt_succ_self i)
      simpa [writeAt, show i < n by omega] using hkept
    | succ j =>
      have hlt : j < bytes.length := by simpa using hj
      rw [writeAt, show i + (j + 1) = i + 1 + j by omega, ih _ _ hlt (by omega)]
      rfl

/-- **Bytes in memory are handed out as they are.** -/
theorem Memory.faithful (bytes : List UInt8) :
    Source.Faithful ({ rest := bytes } : Memory) bytes := by
  -- Every full read leaves fewer bytes, so this is an induction on their number.
  induction hlen : bytes.length using Nat.strongRecOn generalizing bytes with
  | ind len ih =>
    refine .intro (fun {n} buffer _ => ?_) (fun {n} buffer i hi hbytes => ?_)
      (fun {n} buffer hn hle => ?_)
    · change Except.ok (bytes.take n).length = _
      rw [List.length_take]
    · change (writeAt buffer 0 (bytes.take n))[i]? = _
      have htake : i < (bytes.take n).length := by
        rw [List.length_take]
        omega
      have := getElem?_writeAt buffer 0 (bytes.take n) htake (by omega)
      rw [Nat.zero_add] at this
      rw [this, List.getElem?_take_of_lt hi]
    · change Source.Faithful ({ rest := bytes.drop n } : Memory) _
      exact ih (bytes.drop n).length (by rw [List.length_drop]; omega) _ rfl

end XPathScan
