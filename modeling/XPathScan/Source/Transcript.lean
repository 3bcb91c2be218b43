import XPathScan.Source.Basic

/-!
# Streams that deliver in pieces

A pipe or a socket hands over what it has: a few bytes now, an interruption, a few bytes more. A
`XPathScan.Transcript` is the record of such a stream, one event for each thing it will do, and
nothing after the last. As a source it hides the pieces: a read goes on pulling until the buffer
is full or the stream gives nothing, so that a short count means the end of the input here too
(`XPathScan.Transcript.fill`). Interruptions are retried. Any other failure ends the read, and
the bytes that came before it stay in the buffer.
-/

namespace XPathScan

/-- **One thing a stream does when it is pulled.** -/
inductive Transcript.Event where
  /-- Bytes are ready; none at all is how a stream says that it has ended. -/
  | data (bytes : List UInt8)
  /-- The pull is interrupted, and may be tried again. -/
  | interrupt
  /-- The pull fails. -/
  | failure (text : String)
  deriving DecidableEq, Repr

/-- **The record of a stream**: what it will do, in order. -/
structure Transcript where
  /-- The events to come. -/
  events : List Transcript.Event
  /-- The most bytes that one pull hands over, if there is a limit. -/
  chunk : Option Nat := none
  deriving DecidableEq, Repr

namespace Transcript

/-- A stream of the given bytes in one piece. -/
def ofBytes (bytes : List UInt8) : Transcript := { events := [.data bytes] }

/-- **Opening a file for streaming**: the stream of its contents, if it is there. -/
def ofFile : Option (List UInt8) → Except ReadFailure Transcript
  | some contents => .ok (ofBytes contents)
  | none => .error .notFound

/-- The most bytes a pull into `room` free places can bring. -/
def limit (t : Transcript) (room : Nat) : Nat :=
  match t.chunk with
  | none => room
  | some chunk => min room chunk

/-- **One pull into `room` free places.** It uses up the first event, except that data beyond what
was handed over stay as the first event. -/
def pull (room : Nat) (t : Transcript) : Except ReadFailure (List UInt8) × Transcript :=
  match t.events with
  | [] => (.ok [], t)
  | .interrupt :: events => (.error .interrupted, { t with events })
  | .failure text :: events => (.error (.other text), { t with events })
  | .data bytes :: events =>
    match bytes.drop (t.limit room) with
    | [] => (.ok bytes, { t with events })
    | rest => (.ok (bytes.take (t.limit room)), { t with events := .data rest :: events })

/-- The weight of an event: itself and its bytes. -/
def Event.weight : Event → Nat
  | .data bytes => bytes.length + 1
  | .interrupt => 1
  | .failure _ => 1

/-- The number of events and of bytes still to come. -/
def weight (t : Transcript) : Nat := t.events.foldr (fun e total => e.weight + total) 0

/-- A pull adds no event and no byte. -/
theorem weight_pull_le (room : Nat) (t : Transcript) : (t.pull room).2.weight ≤ t.weight := by
  unfold pull
  split
  · exact Nat.le_refl _
  · next h => simp [weight, h]
  · next h => simp [weight, h]
  · next bytes events h =>
    split
    · simp [weight, h]
    · next rest hrest =>
      have hlen : (bytes.drop (t.limit room)).length ≤ bytes.length := by simp
      simp only [weight, h, List.foldr_cons, Event.weight]
      omega

/-- **A pull that brings bytes, or is interrupted, makes the stream lighter.** -/
theorem weight_pull_lt (room : Nat) (t : Transcript) (h : (t.pull room).1 ≠ .ok []) :
    (t.pull room).2.weight < t.weight := by
  revert h
  unfold pull
  split
  · intro h
    exact absurd rfl h
  · next he =>
    intro _
    simp [weight, he, Event.weight]
  · next he =>
    intro _
    simp [weight, he, Event.weight]
  · next bytes events he =>
    split
    · intro _
      simp only [weight, he, List.foldr_cons, Event.weight]
      omega
    · intro h
      have htake : 0 < (bytes.take (t.limit room)).length := by
        apply List.length_pos_iff.mpr
        intro hnil
        exact h (by simp [hnil])
      simp only [weight, he, List.foldr_cons, Event.weight, List.length_drop]
      rw [List.length_take] at htake
      omega

/-- **Fill a buffer whose first `filled` places are taken**: pull until it is full or the stream
gives nothing, again after an interruption, and no further after any other failure. -/
def fill {n : Nat} (buffer : Vector UInt8 n) (filled : Nat) (t : Transcript) :
    Delivery n × Transcript :=
  if filled < n then
    match h : t.pull (n - filled) with
    | (.ok [], t') => ({ buffer, count := .ok filled }, t')
    | (.ok (b :: bytes), t') =>
      fill (writeAt buffer filled (b :: bytes)) (filled + (bytes.length + 1)) t'
    | (.error .interrupted, t') => fill buffer filled t'
    | (.error failure, t') => ({ buffer, count := .error failure }, t')
  else
    ({ buffer, count := .ok filled }, t)
termination_by t.weight
decreasing_by
  · have hlt := weight_pull_lt (n - filled) t (by simp [h])
    rwa [h] at hlt
  · have hlt := weight_pull_lt (n - filled) t (by simp [h])
    rwa [h] at hlt

/-- Filling a buffer adds no event and no byte. -/
theorem weight_fill_le {n : Nat} (buffer : Vector UInt8 n) (filled : Nat) (t : Transcript) :
    (t.fill buffer filled).2.weight ≤ t.weight := by
  fun_induction fill buffer filled t with
  | case1 buffer filled t hlt t' h =>
    have hle := weight_pull_le (n - filled) t
    rwa [h] at hle
  | case2 buffer filled t hlt b bytes t' h ih =>
    have hle := weight_pull_le (n - filled) t
    rw [h] at hle
    exact Nat.le_trans ih hle
  | case3 buffer filled t hlt t' h ih =>
    have hle := weight_pull_le (n - filled) t
    rw [h] at hle
    exact Nat.le_trans ih hle
  | case4 buffer filled t hlt failure t' hne h =>
    have hle := weight_pull_le (n - filled) t
    rwa [h] at hle
  | case5 => exact Nat.le_refl _

/-- **A fill that reaches further makes the stream lighter.** -/
theorem weight_fill_lt {n : Nat} (buffer : Vector UInt8 n) (filled : Nat) (t : Transcript)
    (count : Nat) (hcount : (t.fill buffer filled).1.count = .ok count) (hlt : filled < count) :
    (t.fill buffer filled).2.weight < t.weight := by
  fun_induction fill buffer filled t with
  | case1 buffer filled t hroom t' h =>
    simp only [Except.ok.injEq] at hcount
    omega
  | case2 buffer filled t hroom b bytes t' h ih =>
    have hpull := weight_pull_lt (n - filled) t (by simp [h])
    rw [h] at hpull
    exact Nat.lt_of_le_of_lt (weight_fill_le _ _ _) hpull
  | case3 buffer filled t hroom t' h ih =>
    have hpull := weight_pull_lt (n - filled) t (by simp [h])
    rw [h] at hpull
    exact Nat.lt_of_le_of_lt (weight_fill_le _ _ _) hpull
  | case4 buffer filled t hroom failure t' hne h => simp at hcount
  | case5 buffer filled t hroom =>
    simp only [Except.ok.injEq] at hcount
    omega

end Transcript

instance : Source Transcript where
  read buffer t := t.fill buffer 0
  credit := Transcript.weight
  credit_read_lt buffer t count hn hcount hle :=
    Transcript.weight_fill_lt buffer 0 t count hcount (Nat.lt_of_lt_of_le hn hle)

end XPathScan
