import XPathScan.Window.Search

/-!
# What a well-kept window shows

A window is *well kept* over a text when its two slots hold the epoch of the lexeme start and the
one after it, each with the bytes of the text that belong to it, and when it knows the end of the
text exactly if that lies in these two epochs (`XPathScan.Window.Shows`). Such a window is as good
as the text and two offsets in it:

| in the window | in the text |
|---|---|
| `XPathScan.Window.peek` | the byte at the position |
| `XPathScan.Window.lexeme` | the bytes from the start up to the position |
| `XPathScan.Window.advance` | the position plus a count, not beyond the end of the text |
| `XPathScan.Window.retreat` | the position minus a count |

The one thing that the text does not know is where the window ends. A position *fits* if it lies
before the *edge*, the end of the second epoch, or if the text itself ends before the edge
(`XPathScan.Window.Fits`). A move forward fails exactly if it does not fit.

All moves leave everything but the position as it was, and the position determines in which slot
it is looked up. So a window after any number of moves is `XPathScan.Window.movedTo` of the window
before them.
-/

namespace XPathScan

/-- The other one of two sides. -/
def Side.other : Side → Side
  | .left => .right
  | .right => .left

variable {n : Nat}

/-- **A slot that holds an epoch of a text**: it stands for the epoch, and the bytes of the text in
it are its input. -/
structure Slot.Holds (s : Slot n) (text : List UInt8) (epoch : Nat) : Prop where
  /-- The slot stands for the epoch. -/
  epoch_eq : s.epoch = epoch
  /-- As many bytes are input as the epoch has of the text. -/
  fill_eq : s.fill = min n (text.length - epoch * n)
  /-- They are the bytes of the text. -/
  byte_eq : ∀ (i : Nat) (h : i < n), epoch * n + i < text.length →
    text[epoch * n + i]? = some s.data[i]

/-- A slot that holds an epoch has the bytes of the text between two of its indices. -/
theorem Slot.Holds.bytes_eq {s : Slot n} {text : List UInt8} {epoch : Nat}
    (h : s.Holds text epoch) {i j : Nat} (hj : j ≤ n) (hlen : epoch * n + j ≤ text.length) :
    s.bytes i j = (text.drop (epoch * n + i)).take (j - i) := by
  apply List.ext_getElem?
  intro k
  rw [Slot.bytes]
  simp only [Array.getElem?_toList, Array.getElem?_extract, List.getElem?_take, List.getElem?_drop,
    Vector.size_toArray, Nat.min_eq_left hj]
  by_cases hk : k < j - i
  · rw [if_pos hk, if_pos hk, Nat.add_assoc, h.byte_eq (i + k) (by omega) (by omega)]
    simp [show i + k < n by omega]
  · rw [if_neg hk, if_neg hk]

namespace Window

variable {w : Window n} {text : List UInt8}

/-- **The edge of a window**: the end of the epoch after the one of the lexeme start. -/
def edge (w : Window n) : Nat := (w.start / n + 2) * n

/-- **A well-kept window over a text.** -/
structure Shows (w : Window n) (text : List UInt8) : Prop where
  /-- The position is not before the start. -/
  start_le : w.start ≤ w.pos
  /-- The position is in the text, or at its end. -/
  pos_le : w.pos ≤ text.length
  /-- The slot of the start holds the start's epoch. -/
  near : (w.slot w.startSide).Holds text (w.start / n)
  /-- The other slot holds the next one. -/
  far : (w.slot w.startSide.other).Holds text (w.start / n + 1)
  /-- The position is looked up in the slot of its epoch. -/
  here_epoch : w.here.epoch = w.pos / n
  /-- The end is known exactly if it lies before the edge. -/
  stop_eq : w.stop = if text.length < w.edge then some text.length else none

/-- **A position that fits into a window**: before the edge, unless the text ends before that. -/
def Fits (w : Window n) (text : List UInt8) (p : Nat) : Prop :=
  text.length < w.edge ∨ p < w.edge

instance (w : Window n) (text : List UInt8) (p : Nat) : Decidable (w.Fits text p) :=
  inferInstanceAs (Decidable (_ ∨ _))

/-- The side on which a position of a well-kept window is looked up. -/
def sideOf (w : Window n) (p : Nat) : Side :=
  if p / n = w.start / n then w.startSide else w.startSide.other

/-- **The window with its position somewhere else.** -/
def movedTo (w : Window n) (p : Nat) : Window n := { w with pos := p, posSide := w.sideOf p }

@[simp] theorem movedTo_pos (w : Window n) (p : Nat) : (w.movedTo p).pos = p := rfl

@[simp] theorem movedTo_start (w : Window n) (p : Nat) : (w.movedTo p).start = w.start := rfl

@[simp] theorem movedTo_movedTo (w : Window n) (p q : Nat) :
    (w.movedTo p).movedTo q = w.movedTo q := rfl

@[simp] theorem fits_movedTo (w : Window n) (p q : Nat) :
    (w.movedTo p).Fits text q ↔ w.Fits text q := Iff.rfl

/-- A position before one that fits fits too. -/
theorem Fits.mono {p q : Nat} (h : w.Fits text q) (hle : p ≤ q) : w.Fits text p :=
  h.imp_right (Nat.lt_of_le_of_lt hle)

/-- A position that is in the text and fits lies before the edge. -/
theorem Fits.lt_edge {p : Nat} (h : w.Fits text p) (hle : p ≤ text.length) : p < w.edge :=
  h.elim (Nat.lt_of_le_of_lt hle) id

/-! ### Epochs -/

/-- Before the edge there are no epochs but the two of the window. -/
theorem epoch_cases {p : Nat} (hstart : w.start ≤ p) (hedge : p < w.edge) :
    p / n = w.start / n ∨ p / n = w.start / n + 1 := by
  have hle : w.start / n ≤ p / n := Nat.div_le_div_right hstart
  have hlt : p / n < w.start / n + 2 := (Nat.div_lt_iff_lt_mul w.size_pos).mpr hedge
  omega

/-- An epoch of the window ends at the edge or before. -/
theorem lt_edge_of_epoch {p : Nat} (h : p / n = w.start / n ∨ p / n = w.start / n + 1) :
    p < w.edge :=
  (Nat.div_lt_iff_lt_mul w.size_pos).mp (by omega)

namespace Shows

/-- The slot of a position before the edge holds its epoch. -/
theorem holds_sideOf (h : w.Shows text) {p : Nat} (hstart : w.start ≤ p) (hedge : p < w.edge) :
    (w.slot (w.sideOf p)).Holds text (p / n) := by
  rw [sideOf]
  rcases epoch_cases hstart hedge with he | he
  · rw [if_pos he, he]
    exact h.near
  · rw [if_neg (by omega), he]
    exact h.far

/-- The position's slot is determined by the position. -/
theorem posSide_eq (h : w.Shows text) : w.posSide = w.sideOf w.pos := by
  have hhere : (w.slot w.posSide).epoch = w.pos / n := h.here_epoch
  have hnear := h.near.epoch_eq
  have hfar := h.far.epoch_eq
  rw [sideOf]
  -- The two slots have different epochs, so the epoch of the position tells its slot.
  by_cases hside : w.posSide = w.startSide
  · rw [if_pos (by rw [← hhere, hside, hnear]), hside]
  · have hother : w.posSide = w.startSide.other := by
      revert hside
      cases w.posSide <;> cases w.startSide <;> simp [Side.other]
    rw [if_neg, hother]
    rw [← hhere, hother, hfar]
    omega

/-- The position lies in one of the two epochs. -/
theorem epoch_pos (h : w.Shows text) :
    w.pos / n = w.start / n ∨ w.pos / n = w.start / n + 1 := by
  have hhere : (w.slot w.posSide).epoch = w.pos / n := h.here_epoch
  rw [← hhere, h.posSide_eq]
  rw [sideOf]
  split
  · exact Or.inl h.near.epoch_eq
  · exact Or.inr h.far.epoch_eq

/-- A position that is not in the epoch of the start's slot is in the next one. -/
theorem epoch_next (h : w.Shows text) (hother : w.pos / n ≠ (w.slot w.startSide).epoch) :
    w.pos / n = w.start / n + 1 :=
  h.epoch_pos.resolve_left fun heq => hother (heq.trans h.near.epoch_eq.symm)

/-- **The position lies before the edge.** -/
theorem pos_lt_edge (h : w.Shows text) : w.pos < w.edge := lt_edge_of_epoch h.epoch_pos

/-- The position fits. -/
theorem fits_pos (h : w.Shows text) : w.Fits text w.pos := Or.inr h.pos_lt_edge

/-- Moving to where the position is changes nothing. -/
theorem movedTo_self (h : w.Shows text) : w.movedTo w.pos = w := by
  rw [movedTo, ← h.posSide_eq]

/-- The slot of the position holds its epoch. -/
theorem holds_here (h : w.Shows text) : w.here.Holds text (w.pos / n) := by
  rw [here, h.posSide_eq]
  exact h.holds_sideOf h.start_le h.pos_lt_edge

/-- **A well-kept window stays so when its position moves** to an offset of the text that is not
before the start and fits. -/
theorem movedTo (h : w.Shows text) {p : Nat} (hstart : w.start ≤ p) (hle : p ≤ text.length)
    (hfits : w.Fits text p) : (w.movedTo p).Shows text where
  start_le := hstart
  pos_le := hle
  near := h.near
  far := h.far
  here_epoch := (h.holds_sideOf hstart (hfits.lt_edge hle)).epoch_eq
  stop_eq := h.stop_eq

/-! ### Looking -/

/-- **A well-kept window is at the end exactly if its position is the end of the text.** -/
theorem isAtEnd_iff (h : w.Shows text) : w.isAtEnd = true ↔ w.pos = text.length := by
  have hpos := h.pos_le
  have hedge := h.pos_lt_edge
  rw [isAtEnd, h.stop_eq]
  by_cases hlen : text.length < w.edge
  · rw [if_pos hlen]
    simp only [decide_eq_true_eq]
    omega
  · -- The end has not been seen yet; it is not before the edge, and the position is.
    rw [if_neg hlen]
    simp only [Bool.false_eq_true, false_iff]
    omega

/-- **The byte at the position is that of the text.** -/
theorem peek_eq (h : w.Shows text) : w.peek = text[w.pos]? := by
  rw [peek]
  split
  · next hend => rw [h.isAtEnd_iff.mp hend, List.getElem?_eq_none (Nat.le_refl _)]
  · next hend =>
    have hlt : w.pos < text.length :=
      Nat.lt_of_le_of_ne h.pos_le fun heq => hend (h.isAtEnd_iff.mpr heq)
    have hbyte := h.holds_here.byte_eq (w.pos % n) (Nat.mod_lt _ w.size_pos)
    rw [Nat.div_add_mod'] at hbyte
    exact (hbyte hlt).symm

/-- The byte at the position is the first of the text from there on. -/
theorem peek_eq_head? (h : w.Shows text) : w.peek = (text.drop w.pos).head? := by
  rw [h.peek_eq, List.head?_drop]

end Shows

/-- **The lexeme is the text from the start up to the position.** -/
theorem Shows.lexeme_eq (h : w.Shows text) :
    w.lexeme = (text.drop w.start).take (w.pos - w.start) := by
  have hstart := h.start_le
  have hpos := h.pos_le
  have hstartdiv := Nat.div_add_mod' w.start n
  have hposdiv := Nat.div_add_mod' w.pos n
  have hstartmod := Nat.mod_lt w.start w.size_pos
  have hposmod := Nat.mod_lt w.pos w.size_pos
  rw [lexeme, lexemeLength]
  split
  · next hzero => rw [hzero, List.take_zero]
  · next hne =>
    split
    · next hsame =>
      rw [hsame] at hstartdiv
      have hnear := h.near
      rw [hsame] at hnear
      rw [hnear.bytes_eq (by omega) (by omega), hstartdiv, Nat.add_sub_cancel_left]
    · next hother =>
      -- The lexeme is cut by the end of the first epoch: the rest of one slot, and the other one
      -- up to the position.
      have hepoch : w.pos / n = w.start / n + 1 := h.epoch_pos.resolve_left (Ne.symm hother)
      rw [hepoch, Nat.add_mul, Nat.one_mul] at hposdiv
      have hhere := h.holds_here
      rw [hepoch] at hhere
      rw [h.near.bytes_eq (Nat.le_refl n) (by omega),
        hhere.bytes_eq (by omega) (by rw [Nat.add_mul]; omega), hstartdiv,
        Nat.add_mul, Nat.one_mul, Nat.add_zero]
      have hfirst : w.start + (n - w.start % n) = w.start / n * n + n := by omega
      have hsplit : w.pos - w.start = (n - w.start % n) + (w.pos % n - 0) := by omega
      rw [hsplit, List.take_add, List.drop_drop, hfirst]

/-! ### Moving -/

/-- Where an epoch is found in a well-kept window. -/
theorem Shows.holding?_eq (h : w.Shows text) (epoch : Nat) :
    w.holding? epoch =
      if epoch = w.start / n then some w.startSide
      else if epoch = w.start / n + 1 then some w.startSide.other else none := by
  have hnear := h.near.epoch_eq
  have hfar := h.far.epoch_eq
  rw [holding?]
  cases hside : w.startSide with
  | left =>
    rw [hside] at hnear hfar
    simp only [slot, Side.other] at hnear hfar
    simp only [hnear, hfar, eq_comm, Side.other]
  | right =>
    -- The left slot is looked at first, but here it holds the second of the epochs.
    rw [hside] at hnear hfar
    simp only [slot, Side.other] at hnear hfar
    rw [hnear, hfar]
    grind [Side.other]

/-- **A seek behind the start succeeds exactly before the edge.** -/
theorem Shows.seek_eq (h : w.Shows text) {target : Nat} (hstart : w.start ≤ target) :
    w.seek target =
      if target < w.edge then .ok (w.movedTo target)
      else .error { bufferSize := n, offset := w.start } := by
  have hhere : w.here.epoch = w.pos / n := h.here_epoch
  rw [seek]
  by_cases hedge : target < w.edge
  · rw [if_pos hedge]
    have hcases := epoch_cases hstart hedge
    by_cases hsame : target / n = w.here.epoch
    · rw [if_pos hsame]
      rw [Window.movedTo, sideOf, h.posSide_eq, hsame, hhere]
      rfl
    · rw [if_neg hsame, h.holding?_eq]
      rw [Window.movedTo, sideOf]
      rcases hcases with he | he
      · rw [if_pos he, if_pos he]
      · rw [if_neg (by omega), if_pos he, if_neg (by omega)]
  · have hcases : ¬(target / n = w.start / n ∨ target / n = w.start / n + 1) :=
      fun hc => hedge (lt_edge_of_epoch hc)
    have hpos := h.epoch_pos
    rw [if_neg hedge, if_neg (by omega), h.holding?_eq, if_neg (by omega), if_neg (by omega)]

/-- **A move forward succeeds exactly if it fits**, and goes to the end of the text at most. -/
theorem Shows.advance_eq (h : w.Shows text) (count : Nat) :
    w.advance count =
      if w.Fits text (w.pos + count) then .ok (w.movedTo (min (w.pos + count) text.length))
      else .error { bufferSize := n, offset := w.start } := by
  have hstart := h.start_le
  have hpos := h.pos_le
  rw [advance, forward, h.stop_eq]
  by_cases hlen : text.length < w.edge
  · have hfits : w.Fits text (w.pos + count) := Or.inl hlen
    rw [if_pos hlen, if_pos hfits]
    simp only
    rw [h.seek_eq (by omega), if_pos (by omega)]
  · rw [if_neg hlen]
    simp only
    rw [h.seek_eq (by omega)]
    by_cases hedge : w.pos + count < w.edge
    · have hfits : w.Fits text (w.pos + count) := Or.inr hedge
      rw [if_pos hedge, if_pos hfits, Nat.min_eq_left (by omega)]
    · have hfits : ¬w.Fits text (w.pos + count) := not_or.mpr ⟨hlen, hedge⟩
      rw [if_neg hedge, if_neg hfits]

/-- **A move back within the lexeme succeeds.** -/
theorem Shows.retreat_eq (h : w.Shows text) {count : Nat} (hcount : count ≤ w.pos - w.start) :
    w.retreat count = .ok (w.movedTo (w.pos - count)) := by
  have hstart := h.start_le
  have hpos := h.pos_lt_edge
  have hhere : w.here.epoch = w.pos / n := h.here_epoch
  have hepoch := h.epoch_pos
  have hcases := epoch_cases (w := w) (p := w.pos - count) (by omega) (by omega)
  have hle : (w.pos - count) / n ≤ w.pos / n := Nat.div_le_div_right (Nat.sub_le _ _)
  rw [retreat, if_neg (by omega), hhere]
  rw [Window.movedTo]
  congr 2
  -- The slot changes only if the position goes back from the second epoch to the first.
  by_cases hsame : (w.pos - count) / n = w.pos / n
  · rw [if_pos hsame, h.posSide_eq]
    unfold sideOf
    rw [hsame]
  · rw [if_neg hsame]
    rw [sideOf, if_pos (by omega)]

end Window

end XPathScan
