import Mathlib.Data.List.Forall2
import XPathScan.Proofs.Lexer.Recycling
import XPathScan.Proofs.Source.Faithful
import XPathScan.Source.Transcript

/-!
# Streams are read as if they were in memory

To a lexer a count below the buffer's size is the end of the input, so a piece of a stream, or an
interruption, that came through as a short read would cut the input off without a word. None does.
A stream of some text does with every buffer what the text in memory does: pull by pull it writes
the next bytes behind those it has written, and it stops where the buffer is full or the text ends.

* `XPathScan.Transcript.Streams` – a stream brings a text, in whatever pieces;
* `XPathScan.Transcript.Streams.pull`, `XPathScan.Transcript.Streams.fill` – one pull, and the pulls
  of one read;
* `XPathScan.Transcript.Streams.same` – it does the same as the text in memory;
* `XPathScan.Lexer.streamed_unseen` – and so do lexers over the two.
-/

namespace XPathScan

variable {n : Nat}

/-! ### Writing piece by piece -/

/-- Two pieces are written one behind the other. -/
theorem writeAt_append (buffer : Vector UInt8 n) (i : Nat) (bytes more : List UInt8) :
    writeAt buffer i (bytes ++ more) = writeAt (writeAt buffer i bytes) (i + bytes.length) more := by
  induction bytes generalizing buffer i with
  | nil => rfl
  | cons b bytes ih =>
    rw [List.cons_append, writeAt, writeAt, ih, List.length_cons]
    congr 1
    omega

/-- Writing into a buffer leaves the places behind it alone. -/
theorem getElem?_writeAt_of_le (buffer : Vector UInt8 n) (i : Nat) (bytes : List UInt8) {j : Nat}
    (hj : i + bytes.length ≤ j) : (writeAt buffer i bytes)[j]? = buffer[j]? := by
  induction bytes generalizing buffer i with
  | nil => rfl
  | cons b bytes ih =>
    rw [List.length_cons] at hj
    rw [writeAt, ih _ _ (by omega), Vector.getElem?_setIfInBounds_ne (by omega)]

/-! ### Streams -/

namespace Transcript

/-- **Events that bring a text**: pieces of it that are not empty, and interruptions. -/
inductive Plays : List Event → List UInt8 → Prop
  /-- The stream has ended. -/
  | done : Plays [] []
  /-- An interruption brings nothing. -/
  | interrupt {events : List Event} {text : List UInt8} :
      Plays events text → Plays (.interrupt :: events) text
  /-- A piece of the text. -/
  | data {events : List Event} {bytes text : List UInt8} :
      bytes ≠ [] → Plays events text → Plays (.data bytes :: events) (bytes ++ text)

/-- **A stream that brings a text**, and at least one byte by every pull that brings any. -/
structure Streams (t : Transcript) (text : List UInt8) : Prop where
  /-- The events bring the text. -/
  plays : Plays t.events text
  /-- A pull is not held to nothing at all. -/
  chunk_ne_zero : t.chunk ≠ some 0

/-- **What a pull into some free places comes to** when a text is still to come. -/
inductive Pulled (room : Nat) :
    List UInt8 → Except ReadFailure (List UInt8) × Transcript → Prop
  /-- There is nothing to come. -/
  | done {t : Transcript} : t.Streams [] → Pulled room [] (.ok [], t)
  /-- The pull is interrupted. -/
  | interrupted {text : List UInt8} {t : Transcript} : t.Streams text →
      Pulled room text (.error .interrupted, t)
  /-- The next bytes, as many as fit. -/
  | bytes {b : UInt8} {bytes text : List UInt8} {t : Transcript} : bytes.length < room →
      t.Streams text → Pulled room (b :: bytes ++ text) (.ok (b :: bytes), t)

variable {t : Transcript} {text : List UInt8}

theorem limit_le (t : Transcript) (room : Nat) : t.limit room ≤ room := by
  rw [limit]
  split
  · exact Nat.le_refl room
  · exact Nat.min_le_left ..

theorem Streams.limit_pos (h : t.Streams text) {room : Nat} (hroom : 0 < room) :
    0 < t.limit room := by
  rw [limit]
  split
  · exact hroom
  · next chunk hchunk =>
    have hpos : chunk ≠ 0 := fun hzero => h.chunk_ne_zero (by rw [hchunk, hzero])
    omega

/-- **One pull**, if there is a free place. -/
theorem Streams.pull (h : t.Streams text) {room : Nat} (hroom : 0 < room) :
    Pulled room text (t.pull room) := by
  have hlimit := h.limit_pos hroom
  have hle := t.limit_le room
  obtain ⟨hplays, hchunk⟩ := h
  obtain ⟨events, chunk⟩ := t
  rw [Transcript.pull]
  cases hplays with
  | done => exact .done ⟨.done, hchunk⟩
  | interrupt hevents => exact .interrupted ⟨hevents, hchunk⟩
  | @data events bytes text hne hevents =>
    obtain ⟨b, bytes, rfl⟩ := List.exists_cons_of_ne_nil hne
    simp only
    generalize limit _ room = limit at hlimit hle ⊢
    obtain ⟨m, rfl⟩ := Nat.exists_eq_succ_of_ne_zero (Nat.ne_of_gt hlimit)
    rw [List.take_succ_cons, List.drop_succ_cons]
    split
    · next hdrop =>
      -- The whole piece fits.
      have hlen := List.drop_eq_nil_iff.mp hdrop
      exact .bytes (by omega) ⟨hevents, hchunk⟩
    · next hdrop =>
      have hpiece : b :: bytes ++ text = b :: bytes.take m ++ (bytes.drop m ++ text) := by
        rw [List.cons_append, List.cons_append, ← List.append_assoc, List.take_append_drop]
      have hlen : (bytes.take m).length < room := by
        rw [List.length_take]
        omega
      rw [hpiece]
      exact .bytes hlen ⟨.data hdrop hevents, hchunk⟩

/-- **All the pulls of one read**: behind the places that are taken the buffer has the next bytes of
the text, as many as there is room for. -/
theorem Streams.fill (h : t.Streams text) (buffer : Vector UInt8 n) {filled : Nat}
    (hfilled : filled ≤ n) :
    (t.fill buffer filled).1 =
        { buffer := writeAt buffer filled (text.take (n - filled))
          count := .ok (filled + (text.take (n - filled)).length) } ∧
      (t.fill buffer filled).2.Streams (text.drop (n - filled)) := by
  fun_induction Transcript.fill buffer filled t generalizing text with
  | case1 buffer filled t hlt t' hpull =>
    have hpulled := hpull ▸ h.pull (Nat.sub_pos_of_lt hlt)
    cases hpulled with
    | done hdone => simpa [writeAt] using hdone
  | case2 buffer filled t hlt b bytes t' hpull ih =>
    have hpulled := hpull ▸ h.pull (Nat.sub_pos_of_lt hlt)
    cases hpulled with
    | @bytes _ _ text _ hroom hrest =>
      obtain ⟨hdelivery, hleft⟩ := ih hrest (by omega)
      have hsplit : n - filled = (b :: bytes).length + (n - (filled + (bytes.length + 1))) := by
        rw [List.length_cons]
        omega
      rw [hsplit, List.take_length_add_append, List.drop_length_add_append, writeAt_append,
        List.length_append, List.length_cons, ← Nat.add_assoc filled (bytes.length + 1)]
      exact ⟨hdelivery, hleft⟩
  | case3 buffer filled t hlt t' hpull ih =>
    have hpulled := hpull ▸ h.pull (Nat.sub_pos_of_lt hlt)
    cases hpulled with
    | interrupted hrest => exact ih hrest hfilled
  | case4 buffer filled t hlt failure t' hne hpull =>
    have hpulled := hpull ▸ h.pull (Nat.sub_pos_of_lt hlt)
    cases hpulled with
    | interrupted => exact absurd rfl hne
  | case5 buffer filled t hfull =>
    obtain rfl : filled = n := by omega
    simpa [writeAt] using h

/-- **A stream does the same as its text in memory.** -/
theorem Streams.same (h : t.Streams text) : Source.Same t ({ rest := text } : Memory) := by
  refine Supplier.same_of_step (R := fun (t : Transcript) (source : Memory) =>
    t.Streams source.rest) (fun t source hstreams {n} buffer => ?_) h
  have hfill := hstreams.fill buffer (Nat.zero_le n)
  rw [Nat.zero_add] at hfill
  exact hfill

end Transcript

/-! ### What is left alone -/

/-- **A read that leaves alone what stands behind the bytes it delivers**: it succeeds, and from the
place it counts up to the buffer is as it was. -/
inductive LeavesRest : ((n : Nat) × Vector UInt8 n) → ((n : Nat) × Delivery n) → Prop
  | intro {n count : Nat} {buffer written : Vector UInt8 n} : count ≤ n →
      (∀ i, count ≤ i → written[i]? = buffer[i]?) →
      LeavesRest ⟨n, buffer⟩ ⟨n, { buffer := written, count := .ok count }⟩

/-- Bytes in memory are written where they are counted, and nowhere else. -/
theorem Memory.leavesRest (source : Memory) (buffers : List ((n : Nat) × Vector UInt8 n)) :
    List.Forall₂ LeavesRest buffers ((Source.toSupplier Memory).deliveries source buffers) := by
  induction buffers generalizing source with
  | nil => exact .nil
  | cons buffer buffers ih =>
    refine .cons (.intro ?_ fun i hi => ?_) (ih _)
    · exact List.length_take_le ..
    · exact getElem?_writeAt_of_le _ _ _ (by rwa [Nat.zero_add])

namespace Lexer

/-- **It is not seen that a text comes in pieces.** Whatever buffers a stream of a text is read
into, it delivers what the text in memory delivers, down to the last byte of each buffer, and what
stands behind the bytes delivered is left alone. And whatever the version, the byte classes and the
buffer size are, lexers over the two cannot be told apart. -/
theorem streamed_unseen {t : Transcript} {text : List UInt8} (h : t.Streams text) :
    (∀ buffers,
      (Source.toSupplier Transcript).deliveries t buffers =
        (Source.toSupplier Memory).deliveries { rest := text } buffers ∧
      List.Forall₂ LeavesRest buffers ((Source.toSupplier Transcript).deliveries t buffers)) ∧
    ∀ settings classes,
      Indistinguishable (ofSource t settings classes)
        (ofSource ({ rest := text } : Memory) settings classes) := by
  refine ⟨fun buffers => ?_, unseen_of_same h.same⟩
  have hsame := h.same buffers
  refine ⟨hsame, ?_⟩
  rw [hsame]
  exact Memory.leavesRest _ buffers

/-- Two pieces of a text, with an interruption before each, pulled by two bytes at most. -/
def twoPieces : Transcript where
  events := [.interrupt, .data [0x61], .interrupt, .data [0x62, 0x20, 0x63]]
  chunk := some 2

/-- Read into a buffer of three bytes, one of none and one of two, and by a lexer with a buffer of one
byte. -/
theorem streamed_unseen_twoPieces :
    twoPieces.Streams [0x61, 0x62, 0x20, 0x63] ∧
      (Source.toSupplier Transcript).deliveries twoPieces
          [⟨3, #v[0, 0, 0]⟩, ⟨0, #v[]⟩, ⟨2, #v[1, 1]⟩] =
        (Source.toSupplier Memory).deliveries { rest := [0x61, 0x62, 0x20, 0x63] }
          [⟨3, #v[0, 0, 0]⟩, ⟨0, #v[]⟩, ⟨2, #v[1, 1]⟩] ∧
      Indistinguishable (ofSource twoPieces { bufferSize := 1, version := .xpath20 } .xml)
        (ofSource ({ rest := [0x61, 0x62, 0x20, 0x63] } : Memory)
          { bufferSize := 1, version := .xpath20 } .xml) := by
  have hstreams : twoPieces.Streams ([0x61] ++ ([0x62, 0x20, 0x63] ++ [])) :=
    ⟨.interrupt (.data (by decide) (.interrupt (.data (by decide) .done))), by decide⟩
  obtain ⟨hreads, hlexers⟩ := streamed_unseen hstreams
  exact ⟨hstreams, (hreads _).1, hlexers _ _⟩

end Lexer

end XPathScan
