import XPathScan.Input
import XPathScan.Proofs.Source.Faithful
import XPathScan.Proofs.Window.Shows

/-!
# An input over a faithful source is a text with two cursors

An input keeps its window well if its source hands out the text: the slots always hold the epoch
of the lexeme start and the one after it, and the source is faithful to what comes after these
(`XPathScan.Input.Shows`). The only operation that touches slots or source after the beginning is
`XPathScan.Input.mark`, and only when the start moves on to the next epoch. The slot that it leaves
is then filled with the epoch after that.

* `XPathScan.Input.load_eq` – filling a slot with an epoch that comes next, whether there is
  something to read or not;
* `XPathScan.Input.Shows.mark_eq` – starting a lexeme never fails;
* `XPathScan.Input.reached_refines` – whatever moves are made, the input is the text with a pair of
  cursors, and each move does to the cursors what it should.
-/

namespace XPathScan

variable {σ : Type} {n : Nat} {text : List UInt8}

/-! ### Slots that are filled -/

/-- **A slot that receives the bytes of an epoch holds it**, also if the epoch has none. -/
theorem Slot.holds_receive {epoch : Nat} {buffer : Vector UInt8 n}
    (hbytes : ∀ i, i < n → epoch * n + i < text.length → buffer[i]? = text[epoch * n + i]?) :
    (Slot.receive epoch buffer (min n (text.length - epoch * n))).Holds text epoch := by
  rw [Slot.receive]
  split
  · next hshort =>
    refine ⟨rfl, rfl, fun i hi hlen => ?_⟩
    rw [← hbytes i hi hlen]
    simp only
    rw [Vector.getElem_set_ne _ _ (by omega), Vector.getElem?_eq_getElem hi]
  · next hfull =>
    refine ⟨rfl, ?_, fun i hi hlen => ?_⟩
    · simp only
      omega
    · rw [← hbytes i hi hlen, Vector.getElem?_eq_getElem hi]

namespace Window

/-- **The window with a slot filled**, and with the end of the text found if it lies before the
given edge. -/
def filled (w : Window n) (side : Side) (slot : Slot n) (text : List UInt8) (edge : Nat) :
    Window n :=
  { w.setSlot side slot with stop := if text.length < edge then some text.length else none }

@[simp] theorem filled_pos (w : Window n) (side : Side) (s : Slot n) (edge : Nat) :
    (w.filled side s text edge).pos = w.pos := by
  cases side <;> rfl

/-- **A window whose position has come into the second epoch can start its lexeme there**: the slot
that the start leaves is filled with the epoch that comes next, and the slots change their parts. -/
theorem Shows.startAt_next {w : Window n} (h : w.Shows text)
    (hepoch : w.pos / n = w.start / n + 1) {s : Slot n} (hs : s.Holds text (w.pos / n + 1)) :
    let v : Window n := ({ w with startSide := w.posSide } : Window n).filled w.startSide s text
      ((w.pos / n + 1 + 1) * n)
    Shows { v with start := v.pos } text := by
  have hside : w.posSide = w.startSide.other := by
    rw [h.posSide_eq, sideOf, if_neg (by omega)]
  have hhere : (w.slot w.posSide).Holds text (w.pos / n) := h.holds_here
  obtain ⟨left, right, start, pos, startSide, posSide, stop, hn⟩ := w
  simp only at hside
  subst hside
  cases startSide with
  | left => exact ⟨Nat.le_refl _, h.pos_le, hhere, hs, h.here_epoch, rfl⟩
  | right => exact ⟨Nat.le_refl _, h.pos_le, hhere, hs, h.here_epoch, rfl⟩

end Window

namespace Input

/-- **A well-kept input over a text**: its window is well kept, and its source hands out what
comes behind the edge. -/
structure Shows [Source σ] (i : Input σ n) (text : List UInt8) : Prop where
  /-- The window is well kept. -/
  window : i.window.Shows text
  /-- The source has what is not in the window. -/
  supply : i.window.edge ≤ text.length → Source.Faithful i.source (text.drop i.window.edge)

/-- **Filling a slot with the epoch that comes next.** If the text has ended before the epoch,
nothing is read; otherwise the source, which hands out the text from the epoch on, is read once. -/
theorem load_eq [Source σ] (i : Input σ n) (text : List UInt8) (side : Side) (epoch : Nat)
    (hstop : i.window.stop = if text.length < epoch * n then some text.length else none)
    (hsource : epoch * n ≤ text.length → Source.Faithful i.source (text.drop (epoch * n))) :
    ∃ source slot, load side epoch i = .ok ()
        { source, window := i.window.filled side slot text ((epoch + 1) * n) } ∧
      slot.Holds text epoch ∧
      ((epoch + 1) * n ≤ text.length → Source.Faithful source (text.drop ((epoch + 1) * n))) := by
  have hn := i.window.size_pos
  rw [Nat.add_mul, Nat.one_mul]
  by_cases hlen : text.length < epoch * n
  · -- The end of the text has been seen, and the source is left alone.
    rw [if_pos hlen] at hstop
    refine ⟨i.source, Slot.receive epoch (i.window.slot side).data 0, ?_, ?_, fun hle => ?_⟩
    · rw [load, Window.filled, hstop, if_pos (by omega)]
      cases side <;> simp [Window.setSlot, hstop]
    · have hnone : min n (text.length - epoch * n) = 0 := by omega
      exact hnone ▸ Slot.holds_receive fun i _ hi => by omega
    · omega
  · rw [if_neg hlen] at hstop
    have hleft : (text.drop (epoch * n)).length = text.length - epoch * n := List.length_drop
    obtain ⟨hcount, hwritten, hrest⟩ := hsource (Nat.le_of_not_lt hlen)
    have hcount := hcount (i.window.slot side).data hn
    have hwritten := hwritten (i.window.slot side).data
    have hrest := hrest (i.window.slot side).data hn
    rw [load, hstop]
    simp only
    rcases hread : Source.read (i.window.slot side).data i.source with ⟨⟨buffer, count⟩, source⟩
    rw [hread, hleft] at hcount
    rw [hread] at hwritten hrest
    simp only at hcount hwritten hrest
    subst hcount
    refine ⟨source, Slot.receive epoch buffer (min n (text.length - epoch * n)), ?_,
      Slot.holds_receive fun j hj hlt => ?_, fun hle => ?_⟩
    · -- A short count tells the end of the text, and a full one leaves it open.
      simp only [Window.filled]
      by_cases hshort : text.length < epoch * n + n
      · rw [if_pos (by omega), if_pos hshort]
        congr 4
        omega
      · rw [if_neg (by omega), if_neg hshort]
        cases side <;> simp [Window.setSlot, hstop]
    · rw [hwritten j hj (by omega), List.getElem?_drop]
    · rw [← List.drop_drop]
      exact hrest (by omega)

/-- **A window on a faithful source can be set up**, and is well kept with both cursors at the
beginning. -/
theorem ofSource_eq [Source σ] {source : σ} (hsource : Source.Faithful source text)
    (hn : 0 < n) : ∃ i : Input σ n, ofSource source n = .ok i ∧ i.Shows text ∧
      i.window.start = 0 ∧ i.window.pos = 0 := by
  have hedge : ∀ e, 0 / n + e = e := fun e => by rw [Nat.zero_div, Nat.zero_add]
  obtain ⟨source₁, slot₁, hload₁, hslot₁, hsource₁⟩ :=
    load_eq { source, window := Window.blank n hn } text .left 0 (by simp [Window.blank])
      (by simpa using hsource)
  obtain ⟨source₂, slot₂, hload₂, hslot₂, hsource₂⟩ :=
    load_eq
      { source := source₁, window := (Window.blank n hn).filled .left slot₁ text ((0 + 1) * n) }
      text .right 1 rfl (by simpa using hsource₁)
  have hof : ofSource source n = .ok
      ⟨source₂, ((Window.blank n hn).filled .left slot₁ text ((0 + 1) * n)).filled .right slot₂ text
        ((1 + 1) * n)⟩ := by
    rw [ofSource, dif_pos hn, hload₁]
    simp only
    rw [hload₂]
  refine ⟨_, hof, ⟨⟨Nat.le_refl 0, Nat.zero_le _, ?_, ?_, ?_, ?_⟩, ?_⟩, rfl, rfl⟩
  · change slot₁.Holds text (0 / n)
    rwa [Nat.zero_div]
  · change slot₂.Holds text (0 / n + 1)
    rwa [hedge]
  · change slot₁.epoch = 0 / n
    rw [Nat.zero_div, hslot₁.epoch_eq]
  · change (if text.length < (1 + 1) * n then _ else _) =
      if text.length < (0 / n + 2) * n then _ else _
    rw [hedge]
  · change (0 / n + 2) * n ≤ _ → Source.Faithful source₂ (text.drop ((0 / n + 2) * n))
    rw [hedge]
    exact hsource₂

/-- **Starting a lexeme never fails**, and moves the start to the position. -/
theorem Shows.mark_eq [Source σ] {i : Input σ n} (h : i.Shows text) :
    ∃ i', mark i = .ok () i' ∧ i'.Shows text ∧ i'.window.start = i.window.pos ∧
      i'.window.pos = i.window.pos := by
  have hw := h.window
  unfold mark
  simp only
  by_cases hsame : i.window.pos / n = (i.window.slot i.window.startSide).epoch
  · -- The start stays in its epoch, so that both slots keep their parts.
    have hepoch : i.window.pos / n = i.window.start / n := hsame.trans hw.near.epoch_eq
    refine ⟨i.startLexeme, if_pos hsame, ⟨⟨Nat.le_refl _, hw.pos_le, ?_, ?_, hw.here_epoch, ?_⟩,
      ?_⟩, rfl, rfl⟩
    · exact hepoch.symm ▸ hw.near
    · exact hepoch.symm ▸ hw.far
    · refine hw.stop_eq.trans ?_
      simp only [Window.edge, startLexeme, hepoch]
      rfl
    · simpa only [Window.edge, startLexeme, hepoch] using h.supply
  · -- The start goes on to the next epoch. The slot that it leaves takes the one behind the edge.
    rw [hw.near.epoch_eq] at hsame
    have hepoch : i.window.pos / n = i.window.start / n + 1 := hw.epoch_pos.resolve_left hsame
    have hedge : i.window.edge = (i.window.pos / n + 1) * n := by
      rw [hepoch]
      rfl
    obtain ⟨source, slot, hload, hslot, hsource⟩ :=
      load_eq { i with window := { i.window with startSide := i.window.posSide } } text
        i.window.startSide (i.window.pos / n + 1) (hedge ▸ hw.stop_eq) (hedge ▸ h.supply)
    rw [hw.near.epoch_eq, if_neg hsame, hload]
    refine ⟨_, rfl, ⟨hw.startAt_next hepoch hslot, ?_⟩, ?_, ?_⟩
    · simpa [startLexeme, Window.edge] using hsource
    · simp [startLexeme]
    · simp [startLexeme]

/-! ### Single moves -/

/-- **A move forward of an input**: it succeeds exactly if it fits, and if it fails nothing has
changed. -/
theorem Shows.advance_eq [Source σ] {i : Input σ n} (h : i.Shows text) (count : Nat) :
    advance count i =
      if i.window.Fits text (i.window.pos + count) then
        .ok () { i with window := i.window.movedTo (min (i.window.pos + count) text.length) }
      else .error { bufferSize := n, offset := i.window.start } i := by
  rw [advance, h.window.advance_eq]
  by_cases hfits : i.window.Fits text (i.window.pos + count)
  · rw [if_pos hfits, if_pos hfits]
  · rw [if_neg hfits, if_neg hfits]

/-- **A move back of an input** within its lexeme. -/
theorem Shows.retreat_eq [Source σ] {i : Input σ n} (h : i.Shows text) {count : Nat}
    (hcount : count ≤ i.window.pos - i.window.start) :
    retreat count i = .ok () { i with window := i.window.movedTo (i.window.pos - count) } := by
  rw [retreat, h.window.retreat_eq hcount]

/-- A well-kept input stays so when its position moves. -/
theorem Shows.movedTo [Source σ] {i : Input σ n} (h : i.Shows text) {p : Nat}
    (hstart : i.window.start ≤ p) (hle : p ≤ text.length) (hfits : i.window.Fits text p) :
    Shows { i with window := i.window.movedTo p } text :=
  ⟨h.window.movedTo hstart hle hfits, h.supply⟩

/-! ### Any sequence of moves -/

/-- The state that a call leaves behind, whether it succeeds or fails. -/
def leaves {ε α β : Type} : EStateM.Result ε α β → α
  | .ok _ s => s
  | .error _ s => s

/-- **The inputs that calls lead to** from a given one: moves forward, which may fail, moves back
within the lexeme, and starts of lexemes, in any order. -/
inductive Reached [Source σ] (i₀ : Input σ n) : Input σ n → Prop
  /-- No call has been made. -/
  | refl : Reached i₀ i₀
  /-- A move forward, by any count. -/
  | advance {i : Input σ n} (count : Nat) : Reached i₀ i → Reached i₀ (leaves (advance count i))
  /-- A move back that does not cross the start. -/
  | retreat {i : Input σ n} (count : Nat) : Reached i₀ i →
      count ≤ i.window.pos - i.window.start → Reached i₀ (leaves (retreat count i))
  /-- The start of a lexeme. -/
  | mark {i : Input σ n} : Reached i₀ i → Reached i₀ (leaves (mark i))

/-- **Calls keep an input well kept.** -/
theorem Reached.shows [Source σ] {i₀ i : Input σ n} (h : Reached i₀ i) (h₀ : i₀.Shows text) :
    i.Shows text := by
  induction h with
  | refl => exact h₀
  | @advance i count _ ih =>
    rw [ih.advance_eq]
    split
    · next hfits =>
      have hstart := ih.window.start_le
      have hpos := ih.window.pos_le
      exact ih.movedTo (by omega) (Nat.min_le_right _ _) (hfits.mono (Nat.min_le_left _ _))
    · exact ih
  | @retreat i count _ hcount ih =>
    rw [ih.retreat_eq hcount]
    have hstart := ih.window.start_le
    have hpos := ih.window.pos_le
    exact ih.movedTo (by omega) (by omega) (ih.window.fits_pos.mono (Nat.sub_le _ _))
  | @mark i _ ih =>
    obtain ⟨i', hmark, hshows, -, -⟩ := ih.mark_eq
    rw [hmark]
    exact hshows

/-- **An input that is a text with two cursors**: what can be seen of it is in the text, and its
moves are moves of the cursors. With `b` the epoch of the start, a move forward fails exactly if
both the text and the move reach the end of epoch `b + 1`. -/
structure Refines [Source σ] (i : Input σ n) (text : List UInt8) : Prop where
  /-- The cursors are in order. -/
  start_le : i.window.start ≤ i.window.pos
  /-- The cursors are in the text. -/
  pos_le : i.window.pos ≤ text.length
  /-- One slot holds the epoch of the start. -/
  near : (i.window.slot i.window.startSide).Holds text (i.window.start / n)
  /-- The other slot holds the epoch after it. -/
  far : (i.window.slot i.window.startSide.other).Holds text (i.window.start / n + 1)
  /-- The end is seen exactly at the end of the text. -/
  isAtEnd_iff : i.window.isAtEnd = true ↔ i.window.pos = text.length
  /-- The byte at the position is that of the text, and the sentinel at the end. -/
  current_eq : i.window.current = text[i.window.pos]?.getD sentinel
  /-- The lexeme, put behind any bytes, is the text between the cursors. -/
  lexeme_eq : ∀ out : List UInt8,
    out ++ i.window.lexeme = out ++ (text.drop i.window.start).take (i.window.pos - i.window.start)
  /-- A move forward out of the window fails and changes nothing. -/
  advance_fails : ∀ count : Nat, (i.window.start / n + 2) * n ≤ text.length →
    (i.window.start / n + 2) * n ≤ i.window.pos + count →
      advance count i = .error { bufferSize := n, offset := i.window.start } i
  /-- Any other move forward goes as far as told, but not beyond the end of the text. -/
  advance_moves : ∀ count : Nat, ¬((i.window.start / n + 2) * n ≤ text.length ∧
    (i.window.start / n + 2) * n ≤ i.window.pos + count) →
      ∃ i', advance count i = .ok () i' ∧ i'.window.start = i.window.start ∧
        i'.window.pos = min (i.window.pos + count) text.length
  /-- A move back within the lexeme goes as far as told. -/
  retreat_moves : ∀ count : Nat, count ≤ i.window.pos - i.window.start →
    ∃ i', retreat count i = .ok () i' ∧ i'.window.start = i.window.start ∧
      i'.window.pos = i.window.pos - count
  /-- The start of a lexeme moves the start to the position, and cannot fail. -/
  mark_moves : ∃ i', mark i = .ok () i' ∧ i'.window.start = i.window.pos ∧
    i'.window.pos = i.window.pos

/-- A well-kept input is a text with two cursors. -/
theorem Shows.refines [Source σ] {i : Input σ n} (h : i.Shows text) : i.Refines text where
  start_le := h.window.start_le
  pos_le := h.window.pos_le
  near := h.window.near
  far := h.window.far
  isAtEnd_iff := h.window.isAtEnd_iff
  current_eq := by rw [Window.current, h.window.peek_eq]
  lexeme_eq out := by rw [h.window.lexeme_eq]
  advance_fails count htext hmove := by
    have hfits : ¬i.window.Fits text (i.window.pos + count) :=
      not_or.mpr ⟨Nat.not_lt.mpr htext, Nat.not_lt.mpr hmove⟩
    rw [h.advance_eq, if_neg hfits]
  advance_moves count hin := by
    have hfits : i.window.Fits text (i.window.pos + count) := by
      rw [Window.Fits, Window.edge]
      omega
    rw [h.advance_eq, if_pos hfits]
    exact ⟨_, rfl, rfl, rfl⟩
  retreat_moves count hcount := ⟨_, h.retreat_eq hcount, rfl, rfl⟩
  mark_moves := by
    obtain ⟨i', hmark, -, hstart, hpos⟩ := h.mark_eq
    exact ⟨i', hmark, hstart, hpos⟩

/-- **An input over a faithful source is the text with two cursors, whatever calls are made.** -/
theorem reached_refines [Source σ] {source : σ} (hsource : Source.Faithful source text)
    (hn : 0 < n) : ∃ i₀ : Input σ n, ofSource source n = .ok i₀ ∧ i₀.window.start = 0 ∧
      i₀.window.pos = 0 ∧ ∀ i, Reached i₀ i → i.Refines text := by
  obtain ⟨i₀, hof, hshows, hstart, hpos⟩ := ofSource_eq hsource hn
  exact ⟨i₀, hof, hstart, hpos, fun i hi => (hi.shows hshows).refines⟩

/-- Four bytes through a window of two buffers of two bytes: the text fills the window exactly, so
that its end is not known at first. -/
theorem reached_refines_full_window :
    ∃ i₀ : Input Memory 2, ofSource ({ rest := [0x61, 0, 0x0A, 0x62] } : Memory) 2 = .ok i₀ ∧
      i₀.window.start = 0 ∧ i₀.window.pos = 0 ∧
      ∀ i, Reached i₀ i → i.Refines [0x61, 0, 0x0A, 0x62] :=
  reached_refines (Memory.faithful _) (by decide)

end Input

end XPathScan
