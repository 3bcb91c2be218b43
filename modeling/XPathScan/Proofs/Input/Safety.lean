import XPathScan.Proofs.Input.Kept
import XPathScan.Source.Script

/-!
# Which calls can break down

An input is used on after a read has failed, with slots that are only half changed. Is there a call
that it cannot answer? A retreat across the start of the lexeme is refused, and that is intended. For
everything else the cursors have to be in order, and a search needs input at the position's index.

After any calls a window is in one of three conditions. It does not know the end of the input
(`XPathScan.Window.Open`): then both slots are full, and a search cannot break down, whatever epochs
they stand for. Or it knows the end and is well kept (`XPathScan.Window.Ended`). The third condition
is what a failed read can lead to (`XPathScan.Window.Crooked`): the position goes back behind a slot
that has been handed on, a lexeme is started there, which fills the very slot that the position is
in, and the read is short. The position is then in a slot that stands for the next epoch, and may be
beyond its input.

* `XPathScan.Input.after_sound` – the cursors are always in order and a retreat is refused exactly if
  it crosses the start; a search breaks down only if a lexeme was started astray, which takes a read
  that has failed;
* `XPathScan.Input.search_breaks_down` – and then it can.
-/

namespace XPathScan

variable {σ : Type} {n : Nat}

namespace Slot

theorem epoch_receive (epoch : Nat) (buffer : Vector UInt8 n) (count : Nat) :
    (receive epoch buffer count).epoch = epoch := by
  rw [receive]
  split <;> rfl

theorem fill_receive (epoch : Nat) (buffer : Vector UInt8 n) (count : Nat) :
    (receive epoch buffer count).fill = min count n := by
  rw [receive]
  split
  · next hlt => exact (Nat.min_eq_left (Nat.le_of_lt hlt)).symm
  · next hge => exact (Nat.min_eq_right (Nat.le_of_not_lt hge)).symm

end Slot

namespace Window

variable {w w' : Window n}

/-! ### Windows that do not know the end -/

/-- **A window that does not know the end of the input.** Its slots are full. The position is in the
slot of its epoch, or in the slot of the start and before the epoch of the other one. -/
structure Open (w : Window n) : Prop where
  /-- The end is not known. -/
  stop_eq : w.stop = none
  /-- The cursors are in order. -/
  start_le : w.start ≤ w.pos
  /-- The slot of the start is full. -/
  near_full : w.near.fill = n
  /-- The other slot is full. -/
  far_full : w.far.fill = n
  /-- The other slot does not stand for an earlier epoch. -/
  epoch_le : w.near.epoch ≤ w.far.epoch
  /-- The position has not gone astray, or it has gone back. -/
  epoch_here : w.isAstray = false ∨ w.posSide = w.startSide ∧ w.pos / n < w.far.epoch

theorem Open.here_full (h : w.Open) : w.here.fill = n := by
  rcases w.here_eq_near_or_far with heq | heq
  · rw [heq, h.near_full]
  · rw [heq, h.far_full]

theorem Open.here_le (h : w.Open) : w.here.epoch ≤ w.far.epoch := by
  rcases w.here_eq_near_or_far with heq | heq
  · exact heq ▸ h.epoch_le
  · exact Nat.le_of_eq (congrArg Slot.epoch heq)

/-- **Moves do not make the end known.** -/
theorem Open.moves (h : w.Open) (hmoves : w.Moves w') : w'.Open := by
  obtain ⟨hslot, hstart, hside, hstop⟩ := hmoves.frame
  have hfull := h.start_le
  have hle := h.here_le
  suffices hplace : w.start ≤ w'.pos ∧
      (w'.isAstray = false ∨ w'.posSide = w.startSide ∧ w'.pos / n < w.far.epoch) by
    obtain ⟨hpos, hhere⟩ := hplace
    refine ⟨hstop.trans h.stop_eq, hstart ▸ hpos, hmoves.near_eq ▸ h.near_full,
      hmoves.far_eq ▸ h.far_full, hmoves.near_eq ▸ hmoves.far_eq ▸ h.epoch_le, ?_⟩
    rw [hside, hmoves.far_eq]
    exact hhere
  rcases hmoves.place h.start_le with ⟨count, hpos, hin, -⟩ | ⟨hge, hback, hin | ⟨hnear, hother⟩⟩ |
    ⟨hsame, hge, hepoch, -⟩
  · rw [forward, h.stop_eq] at hpos
    exact ⟨by rw [hpos]; exact Nat.le_trans hfull (Nat.le_add_right _ _), Or.inl hin⟩
  · refine ⟨hge, Or.inl (isAstray_eq_false.mpr ?_)⟩
    rw [here, hslot, hin.1]
    exact hin.2
  · -- The position goes back out of its slot, to an epoch before that of the slot.
    have hdiv : w'.pos / n ≤ w.pos / n := Nat.div_le_div_right hback
    refine ⟨hge, Or.inr ⟨hnear, ?_⟩⟩
    rcases h.epoch_here with hin | ⟨-, hlt⟩
    · have := isAstray_eq_false.mp hin
      omega
    · omega
  · have hhere : w'.here = w.here := by rw [here, hslot, hsame]; rfl
    refine ⟨Nat.le_trans hfull hge, ?_⟩
    rcases h.epoch_here with hin | ⟨hnear, hlt⟩
    · left
      rw [isAstray_eq_false, hepoch, hhere]
      exact isAstray_eq_false.mp hin
    · exact Or.inr ⟨hsame.trans hnear, hepoch ▸ hlt⟩

/-- A lexeme can be started anywhere. -/
theorem Open.begun (h : w.Open) : w.begun.Open :=
  ⟨h.stop_eq, Nat.le_refl _, h.near_full, h.far_full, h.epoch_le, h.epoch_here⟩

/-- **A full slot in the place that the start has left** does not make the end known. -/
theorem Open.turned (h : w.Open) (hother : w.pos / n ≠ w.near.epoch) {slot : Slot n}
    (hfull : slot.fill = n) (hepoch : slot.epoch = w.pos / n + 1) : (w.turned slot).Open := by
  have hfar : w.posSide = w.startSide.other → w.pos / n = w.far.epoch := by
    intro hside
    rcases h.epoch_here with hin | ⟨hnear, -⟩
    · rw [isAstray_eq_false.mp hin, here, hside]
    · rw [hnear] at hside
      cases hw : w.startSide <;> simp [hw, Side.other] at hside
  have hnear : w.posSide = w.startSide → w.pos / n < w.far.epoch := by
    intro hside
    rcases h.epoch_here with hin | ⟨-, hlt⟩
    · rw [isAstray_eq_false, here, hside] at hin
      exact absurd hin hother
    · exact hlt
  suffices hslots : (w.turned slot).near.fill = n ∧ (w.turned slot).far.fill = n ∧
      (w.turned slot).near.epoch ≤ (w.turned slot).far.epoch ∧
      w.pos / n < (w.turned slot).far.epoch by
    obtain ⟨hnearFull, hfarFull, hle, hlt⟩ := hslots
    refine ⟨by simpa using h.stop_eq, by simpa using h.start_le, hnearFull, hfarFull, hle,
      Or.inr ⟨by simp, by simpa using hlt⟩⟩
  rcases w.posSide_cases with hside | hside
  · obtain ⟨hn', hf'⟩ := w.slots_turned_of_near slot hside
    have := hnear hside
    rw [hn', hf']
    exact ⟨hfull, h.far_full, by omega, by omega⟩
  · obtain ⟨hn', hf'⟩ := w.slots_turned_of_far slot hside
    have := hfar hside
    rw [hn', hf']
    exact ⟨h.far_full, hfull, by omega, by omega⟩

/-! ### Windows that know the end -/

/-- **A window that knows the end of the input and is well kept**, over some text. -/
def Ended (w : Window n) : Prop := ∃ text, w.Shows text ∧ text.length < w.edge

theorem Ended.moves (h : w.Ended) (hmoves : w.Moves w') : w'.Ended := by
  obtain ⟨text, hshows, hlen⟩ := h
  obtain ⟨hshows', hedge⟩ := hshows.moves hmoves
  exact ⟨text, hshows', hedge ▸ hlen⟩

/-- The byte that a window has at an offset, in the slot of the start or in the other one. -/
def spelledAt (w : Window n) (p : Nat) : UInt8 :=
  have h : p % n < n := Nat.mod_lt p w.size_pos
  (if p / n = w.start / n then w.near else w.far).data[p % n]

/-- **A text that a window spells**, with whatever bytes before the window. -/
def spelled (w : Window n) (length : Nat) : List UInt8 := (List.range length).map w.spelledAt

theorem getElem?_spelled (w : Window n) {length p : Nat} (h : p < length) :
    (w.spelled length)[p]? = some (w.spelledAt p) := by
  simp [spelled, h]

/-- The epoch and the index of an offset that is given by them. -/
theorem epoch_index (epoch : Nat) {i : Nat} (hi : i < n) :
    (epoch * n + i) / n = epoch ∧ (epoch * n + i) % n = i := by
  rw [Nat.add_comm, Nat.add_mul_div_right _ _ (Nat.zero_lt_of_lt hi), Nat.add_mul_mod_self_right,
    Nat.div_eq_of_lt hi, Nat.mod_eq_of_lt hi]
  exact ⟨Nat.zero_add _, rfl⟩

theorem spelledAt_eq (w : Window n) (epoch : Nat) {i : Nat} (hi : i < n) :
    w.spelledAt (epoch * n + i) =
      (if epoch = w.start / n then w.near else w.far).data[i] := by
  obtain ⟨hdiv, hmod⟩ := epoch_index epoch hi
  simp only [spelledAt, hdiv, hmod]

/-- **Slots that stand for the right epochs are well kept over a text**: the one that they spell. -/
theorem exists_shows {length : Nat} (hstart : w.start ≤ w.pos) (hpos : w.pos ≤ length)
    (hnear : w.near.epoch = w.start / n) (hfar : w.far.epoch = w.start / n + 1)
    (hnearFill : w.near.fill = min n (length - w.start / n * n))
    (hfarFill : w.far.fill = min n (length - (w.start / n + 1) * n))
    (hhere : w.here.epoch = w.pos / n)
    (hstop : w.stop = if length < w.edge then some length else none) :
    ∃ text, text.length = length ∧ w.Shows text := by
  have hlength : (w.spelled length).length = length := by simp [spelled]
  refine ⟨w.spelled length, hlength, hstart, hlength.symm ▸ hpos, ⟨hnear, ?_, fun i hi hlt => ?_⟩,
    ⟨hfar, ?_, fun i hi hlt => ?_⟩, hhere, ?_⟩
  · rw [hlength]
    exact hnearFill
  · rw [hlength] at hlt
    rw [getElem?_spelled w hlt, spelledAt_eq w _ hi, if_pos rfl]
  · rw [hlength]
    exact hfarFill
  · rw [hlength] at hlt
    rw [getElem?_spelled w hlt, spelledAt_eq w _ hi, if_neg (by omega)]
  · rw [hlength]
    exact hstop

/-- The window with a lexeme started, and with the end of the input found. -/
def closed (w : Window n) (stop : Nat) : Window n := { w.begun with stop := some stop }

/-- The position is before the next epoch. -/
theorem pos_lt_next (w : Window n) : w.pos < (w.pos / n + 1) * n :=
  (Nat.div_lt_iff_lt_mul w.size_pos).mp (Nat.lt_succ_self _)

/-- **A short read for a window that is not astray** lets it know the end, and it is well kept. -/
theorem Open.ended (h : w.Open) (hother : w.pos / n ≠ w.near.epoch) (hin : w.isAstray = false)
    {slot : Slot n} {count : Nat} (hcount : count < n) (hepoch : slot.epoch = w.pos / n + 1)
    (hfill : slot.fill = count) :
    ((w.turned slot).closed ((w.pos / n + 1) * n + count)).Ended := by
  have hhere := isAstray_eq_false.mp hin
  have hside : w.posSide = w.startSide.other := by
    refine w.posSide_cases.resolve_left fun hside => hother ?_
    rw [hhere, here, hside]
  have hfar : w.here = w.far := congrArg w.slot hside
  rw [hfar] at hhere
  have hlt := w.pos_lt_next
  generalize hv : (w.turned slot).closed ((w.pos / n + 1) * n + count) = v
  obtain ⟨hnear', hfar'⟩ := w.slots_turned_of_far slot hside
  have hvnear : v.near = w.far := hv ▸ hnear'
  have hvfar : v.far = slot := hv ▸ hfar'
  have hvstart : v.start = w.pos := hv ▸ w.turned_pos slot
  have hvpos : v.pos = w.pos := hv ▸ w.turned_pos slot
  have hvhere : v.here = v.near := by
    rw [← hv]
    exact congrArg (w.turned slot).slot ((w.turned_posSide slot).trans (w.turned_startSide slot).symm)
  have hvstop : v.stop = some ((w.pos / n + 1) * n + count) := hv ▸ rfl
  have hedge : v.edge = (w.pos / n + 1) * n + n := by
    rw [edge, hvstart, ← Nat.succ_mul]
  rw [Nat.add_mul, Nat.one_mul] at hlt
  obtain ⟨text, hlength, hshows⟩ : ∃ text, text.length = (w.pos / n + 1) * n + count ∧
      v.Shows text := by
    apply exists_shows
    · exact Nat.le_of_eq (hvstart.trans hvpos.symm)
    · rw [hvpos, Nat.add_mul]
      omega
    · rw [hvnear, hvstart, hhere]
    · rw [hvfar, hvstart, hepoch]
    · rw [hvnear, hvstart, h.far_full, Nat.add_mul]
      omega
    · rw [hvfar, hvstart, hfill]
      omega
    · rw [hvhere, hvnear, hvpos, hhere]
    · rw [hvstop, hedge, if_pos (by omega)]
  exact ⟨text, hshows, by omega⟩

/-! ### Windows that have gone wrong -/

/-- **A window that knows the end of the input, but has its position in the wrong slot.** The slot
of the start stands for the epoch in which the input ends, and has no more input than that; it need
not be the position's. -/
structure Crooked (w : Window n) (stop : Nat) : Prop where
  /-- The end is known. -/
  stop_eq : w.stop = some stop
  /-- The cursors are in order. -/
  start_le : w.start ≤ w.pos
  /-- The position is not behind the end. -/
  pos_le : w.pos ≤ stop
  /-- The position is in the slot of the start. -/
  posSide_eq : w.posSide = w.startSide
  /-- That slot stands for the epoch of the end. -/
  epoch_eq : w.near.epoch = stop / n
  /-- It has no input behind the end. -/
  fill_le : w.near.fill ≤ stop % n
  /-- The other slot does not stand for an earlier epoch. -/
  epoch_le : w.near.epoch ≤ w.far.epoch
  /-- The start is in the epoch of the end or in the one before it. -/
  epoch_start : w.near.epoch ≤ w.start / n + 1

/-- **A short read for a window that is astray** leaves it crooked. -/
theorem Open.crooked (h : w.Open) (hin : ¬w.isAstray = false) {slot : Slot n} {count : Nat}
    (hcount : count < n) (hepoch : slot.epoch = w.pos / n + 1) (hfill : slot.fill = count) :
    ((w.turned slot).closed ((w.pos / n + 1) * n + count)).Crooked
      ((w.pos / n + 1) * n + count) := by
  obtain ⟨hside, hbefore⟩ := h.epoch_here.resolve_left hin
  have hlt := w.pos_lt_next
  obtain ⟨hnear', hfar'⟩ := w.slots_turned_of_near slot hside
  obtain ⟨hdiv, hmod⟩ := epoch_index (w.pos / n + 1) hcount
  constructor
  case stop_eq => rfl
  case start_le => exact Nat.le_refl _
  case pos_le =>
    show (w.turned slot).pos ≤ _
    rw [turned_pos]
    omega
  case posSide_eq =>
    show (w.turned slot).posSide = (w.turned slot).startSide
    rw [turned_posSide, turned_startSide]
  case epoch_eq =>
    show (w.turned slot).near.epoch = _
    rw [hnear', hepoch, hdiv]
  case fill_le =>
    refine Nat.le_of_eq ?_
    show (w.turned slot).near.fill = _
    rw [hnear', hfill, hmod]
  case epoch_le =>
    show (w.turned slot).near.epoch ≤ (w.turned slot).far.epoch
    rw [hnear', hfar']
    omega
  case epoch_start =>
    refine Nat.le_of_eq ?_
    show (w.turned slot).near.epoch = (w.turned slot).pos / n + 1
    rw [hnear', hepoch, turned_pos]

variable {stop : Nat}

/-- **Moves keep a window crooked**: it has no slot for an epoch before that of the end. -/
theorem Crooked.moves (h : w.Crooked stop) (hmoves : w.Moves w') : w'.Crooked stop := by
  obtain ⟨hslot, hstart, hside, hstop⟩ := hmoves.frame
  have hle := h.start_le
  have hpos := h.pos_le
  have hhere : w.here = w.near := congrArg w.slot h.posSide_eq
  suffices hplace : w.start ≤ w'.pos ∧ w'.pos ≤ stop ∧ w'.posSide = w.startSide by
    obtain ⟨hge, hend, hnear⟩ := hplace
    exact ⟨hstop.trans h.stop_eq, hstart ▸ hge, hend, hnear.trans hside.symm,
      hmoves.near_eq ▸ h.epoch_eq, hmoves.near_eq ▸ h.fill_le,
      hmoves.near_eq ▸ hmoves.far_eq ▸ h.epoch_le, hmoves.near_eq ▸ hstart ▸ h.epoch_start⟩
  rcases hmoves.place hle with ⟨count, hforward, hin, hor⟩ | ⟨hge, hback, hor⟩ |
    ⟨hsame, hge, hepoch, hlt⟩
  · rw [forward, h.stop_eq] at hforward
    simp only at hforward
    refine ⟨by omega, by omega, ?_⟩
    rcases hor with hsame | hother
    · exact hsame.trans h.posSide_eq
    · -- Forward out of the slot would be an earlier epoch than that of either slot.
      have hdiv : w'.pos / n ≤ stop / n := Nat.div_le_div_right (by omega)
      rw [isAstray_eq_false, here, hslot] at hin
      rw [hhere, h.epoch_eq] at hother
      have hfar := h.epoch_le
      rw [h.epoch_eq] at hfar
      refine (w'.posSide_cases.resolve_right fun hw => ?_).trans hside
      rw [hw, hside] at hin
      have : w'.pos / n = w.far.epoch := hin
      omega
  · refine ⟨hge, by omega, ?_⟩
    rcases hor with ⟨hsame, -⟩ | ⟨hnear, -⟩
    · exact hsame.trans h.posSide_eq
    · exact hnear
  · refine ⟨by omega, ?_, hsame.trans h.posSide_eq⟩
    -- A byte that is found is input of the slot, and so before the end.
    have hdiv := Nat.div_add_mod' w'.pos n
    have hdiv' := Nat.div_add_mod' stop n
    have hmul : w'.pos / n * n ≤ stop / n * n := by
      rw [hepoch]
      exact Nat.mul_le_mul_right n (Nat.div_le_div_right hpos)
    have hfill := h.fill_le
    rw [hhere] at hlt
    omega

/-- A lexeme that starts in the epoch of the end. -/
theorem Crooked.begun (h : w.Crooked stop) (hsame : w.pos / n = w.near.epoch) :
    w.begun.Crooked stop := by
  refine ⟨h.stop_eq, Nat.le_refl _, h.pos_le, h.posSide_eq, h.epoch_eq, h.fill_le, h.epoch_le, ?_⟩
  show w.near.epoch ≤ w.pos / n + 1
  omega

/-- **A lexeme that starts in the epoch before that of the end** empties the slot, but lets it stand
for the same epoch. -/
theorem Crooked.turned (h : w.Crooked stop) (hother : w.pos / n ≠ w.near.epoch) :
    (w.turned (.receive (w.pos / n + 1) w.near.data 0)).begun.Crooked stop := by
  have hle : w.pos / n ≤ stop / n := Nat.div_le_div_right h.pos_le
  have hdiv : w.start / n ≤ w.pos / n := Nat.div_le_div_right h.start_le
  have hstart := h.epoch_start
  have heq := h.epoch_eq
  have hfar := h.epoch_le
  have hepoch := Slot.epoch_receive (w.pos / n + 1) w.near.data 0
  have hfill := Slot.fill_receive (w.pos / n + 1) w.near.data 0
  rw [Nat.zero_min] at hfill
  generalize Slot.receive (w.pos / n + 1) w.near.data 0 = slot at hepoch hfill
  obtain ⟨hnear', hfar'⟩ := w.slots_turned_of_near slot h.posSide_eq
  constructor
  case stop_eq => exact (w.turned_stop slot).trans h.stop_eq
  case start_le => exact Nat.le_refl _
  case pos_le =>
    show (w.turned slot).pos ≤ stop
    rw [turned_pos]
    exact h.pos_le
  case posSide_eq =>
    show (w.turned slot).posSide = (w.turned slot).startSide
    rw [turned_posSide, turned_startSide]
  case epoch_eq =>
    show (w.turned slot).near.epoch = _
    rw [hnear', hepoch]
    omega
  case fill_le =>
    show (w.turned slot).near.fill ≤ _
    rw [hnear', hfill]
    exact Nat.zero_le _
  case epoch_le =>
    show (w.turned slot).near.epoch ≤ (w.turned slot).far.epoch
    rw [hnear', hfar', hepoch]
    omega
  case epoch_start =>
    refine Nat.le_of_eq ?_
    show (w.turned slot).near.epoch = (w.turned slot).pos / n + 1
    rw [hnear', hepoch, turned_pos]

/-! ### All conditions together -/

/-- **A window in which no search breaks down**: it does not know the end, or it is well kept. -/
def Straight (w : Window n) : Prop := w.Open ∨ w.Ended

/-- **A window after any calls.** -/
def Sane (w : Window n) : Prop := w.Straight ∨ ∃ stop, w.Crooked stop

theorem Straight.moves (h : w.Straight) (hmoves : w.Moves w') : w'.Straight :=
  h.imp (·.moves hmoves) (·.moves hmoves)

theorem Sane.moves (h : w.Sane) (hmoves : w.Moves w') : w'.Sane :=
  h.imp (·.moves hmoves) fun ⟨stop, hstop⟩ => ⟨stop, hstop.moves hmoves⟩

/-- **The cursors are in order**, and not behind the end. -/
theorem Sane.order (h : w.Sane) : w.start ≤ w.pos ∧ ∀ stop, w.stop = some stop → w.pos ≤ stop := by
  rcases h with (hopen | ⟨text, hshows, hlen⟩) | ⟨stop, hcrooked⟩
  · refine ⟨hopen.start_le, fun stop hstop => ?_⟩
    simp [hopen.stop_eq] at hstop
  · refine ⟨hshows.start_le, fun stop hstop => ?_⟩
    rw [hshows.stop_eq, if_pos hlen] at hstop
    exact Option.some.inj hstop ▸ hshows.pos_le
  · refine ⟨hcrooked.start_le, fun stop' hstop => ?_⟩
    rw [hcrooked.stop_eq] at hstop
    exact Option.some.inj hstop ▸ hcrooked.pos_le

/-- **In such a window no search breaks down.** -/
theorem Straight.eatUntil_ne_fault (h : w.Straight) (needle : UInt8) (f : Fault) (w' : Window n) :
    w.eatUntil needle ≠ .error (.fault f) w' := by
  intro hfault
  obtain ⟨hstraight, hend, hfill⟩ :=
    (eatUntil_keeps (fun _ _ => Straight.moves) needle h).2 f w' hfault
  rcases hstraight with hopen | ⟨text, hshows, -⟩
  · -- A full slot has input at every index.
    rw [hopen.here_full] at hfill
    exact absurd (Nat.mod_lt w'.pos w'.size_pos) (Nat.not_lt.mpr hfill)
  · have hlt : w'.pos < text.length := by
      refine Nat.lt_of_le_of_ne hshows.pos_le fun heq => ?_
      rw [hshows.isAtEnd_iff.mpr heq] at hend
      cases hend
    exact absurd (hshows.index_lt_fill hlt) (Nat.not_lt.mpr hfill)

end Window

namespace Input

variable [Source σ] {i : Input σ n}

/-- **The start of a lexeme in a window that does not know the end.** -/
theorem sane_mark_of_open (h : i.window.Open) :
    (leaves (mark i)).window.Sane ∧
      (i.window.isAstray = false → (leaves (mark i)).window.Straight) := by
  have hmark := marking_mark i
  generalize mark i = result at hmark
  have hopen : ∀ {w : Window n}, w.Open → w.Sane ∧ (i.window.isAstray = false → w.Straight) :=
    fun hw => ⟨Or.inl (Or.inl hw), fun _ => Or.inl hw⟩
  cases hmark with
  | stays _ => exact hopen h.begun
  | ended _ hstop => simp [h.stop_eq] at hstop
  | filled hother _ _ hcount =>
    refine hopen (h.turned hother ?_ (Slot.epoch_receive _ _ _)).begun
    rw [Slot.fill_receive, Nat.min_eq_right hcount]
  | @short buffer count source hother _ _ hcount =>
    have hepoch := Slot.epoch_receive (i.window.pos / n + 1) buffer count
    have hfill := Slot.fill_receive (i.window.pos / n + 1) buffer count
    rw [Nat.min_eq_left (Nat.le_of_lt hcount)] at hfill
    by_cases hin : i.window.isAstray = false
    · have hended := h.ended hother hin hcount hepoch hfill
      exact ⟨Or.inl (Or.inr hended), fun _ => Or.inr hended⟩
    · have hcrooked := h.crooked hin hcount hepoch hfill
      exact ⟨Or.inr ⟨_, hcrooked⟩, fun hc => absurd hc hin⟩
  | fails hother _ _ => exact hopen (h.turned hother h.near_full rfl)

/-- **The start of a lexeme at the known end of a well-kept window.** -/
theorem ended_mark (h : i.window.Ended) : (leaves (mark i)).window.Ended := by
  obtain ⟨text, hshows, hlen⟩ := h
  have hi : i.Shows text := ⟨hshows, fun hedge => absurd hlen (Nat.not_lt.mpr hedge)⟩
  obtain ⟨i', hmark, hshows', hstart, -⟩ := hi.mark_eq
  rw [hmark]
  refine ⟨text, hshows'.window, Nat.lt_of_lt_of_le hlen ?_⟩
  show i.window.edge ≤ i'.window.edge
  rw [Window.edge, Window.edge, hstart]
  exact Nat.mul_le_mul_right n (Nat.add_le_add_right (Nat.div_le_div_right hshows.start_le) 2)

/-- The start of a lexeme in a crooked window. -/
theorem crooked_mark {stop : Nat} (h : i.window.Crooked stop) :
    (leaves (mark i)).window.Crooked stop := by
  have hmark := marking_mark i
  generalize mark i = result at hmark
  cases hmark with
  | stays hsame => exact h.begun hsame
  | ended hother _ => exact h.turned hother
  | filled _ hnone _ _ => simp [h.stop_eq] at hnone
  | short _ hnone _ _ => simp [h.stop_eq] at hnone
  | fails _ hnone _ => simp [h.stop_eq] at hnone

/-- **Calls keep a window in one of the three conditions.** -/
theorem sane_leave (c : Call) (h : i.window.Sane) : (i.leave c).window.Sane := by
  by_cases hc : c = .mark
  · subst hc
    rcases h with (hopen | hended) | ⟨stop, hcrooked⟩
    · exact (sane_mark_of_open hopen).1
    · exact Or.inl (Or.inr (ended_mark hended))
    · exact Or.inr ⟨stop, crooked_mark hcrooked⟩
  · exact (leave_keeps (fun _ _ => Window.Sane.moves) hc h).1

/-- **Calls keep a window straight** as long as no lexeme is started astray. -/
theorem straight_leave (c : Call) (h : i.window.Straight)
    (hin : c = .mark → i.window.isAstray = false) : (i.leave c).window.Straight := by
  by_cases hc : c = .mark
  · subst hc
    rcases h with hopen | hended
    · exact (sane_mark_of_open hopen).2 (hin rfl)
    · exact Or.inr (ended_mark hended)
  · exact (leave_keeps (fun _ _ => Window.Straight.moves) hc h).1

omit [Source σ] in
/-- A well-kept window is straight. -/
theorem Kept.straight {text : List UInt8} (h : i.Kept text) : i.window.Straight := by
  have hw := h.shows
  rcases Nat.lt_or_ge text.length i.window.edge with hlt | hge
  · exact Or.inr ⟨text, hw, hlt⟩
  · have hedge : i.window.edge = (i.window.start / n + 1) * n + n := by
      rw [Window.edge, ← Nat.succ_mul]
    have hnear : i.window.near.fill = _ := hw.near.fill_eq
    have hfar : i.window.far.fill = _ := hw.far.fill_eq
    rw [Nat.add_mul, Nat.one_mul] at hedge hfar
    refine Or.inl ⟨?_, hw.start_le, by omega, by omega, ?_, Or.inl ?_⟩
    · rw [hw.stop_eq, if_neg (Nat.not_lt.mpr hge)]
    · rw [Window.near, Window.far, hw.near.epoch_eq, hw.far.epoch_eq]
      exact Nat.le_succ _
    · exact Window.isAstray_eq_false.mpr hw.here_epoch.symm

/-- **What an input can always be asked.** The cursors are in order, so that the lexeme has a length
and lies in its slots; a retreat is refused exactly if it crosses the start, and then nothing has
changed; and a search breaks down only if the end of the input is known. -/
structure Sound (i : Input σ n) : Prop where
  /-- The position is not before the start. -/
  start_le : i.window.start ≤ i.window.pos
  /-- The position is not behind the end. -/
  pos_le : ∀ stop, i.window.stop = some stop → i.window.pos ≤ stop
  /-- A lexeme in one epoch does not go beyond its slot. -/
  lexeme_le : i.window.start / n = i.window.pos / n →
    i.window.start % n + i.window.lexemeLength ≤ n
  /-- A retreat across the start is refused, and changes nothing. -/
  retreat_refused : ∀ count, i.window.pos - i.window.start < count →
    retreat count i = .error (.retreatPastStart count i.window.pos i.window.start) i
  /-- Any other retreat is made. -/
  retreat_made : ∀ count, count ≤ i.window.pos - i.window.start → ∃ i', retreat count i = .ok () i'
  /-- A search breaks down only if the end of the input is known. -/
  search_stop : ∀ needle f i', eatUntil needle i = .error (.fault f) i' → i.window.stop ≠ none

omit [Source σ] in
/-- A search of an input breaks down if that of its window does. -/
theorem eatUntil_fault {needle : UInt8} {f : Fault} {i' : Input σ n}
    (h : eatUntil needle i = .error (.fault f) i') :
    i.window.eatUntil needle = .error (.fault f) i'.window := by
  rw [eatUntil] at h
  split at h
  · cases h
  · next hsearch =>
    cases h
    exact hsearch

omit [Source σ] in
/-- **After any calls an input can be asked that.** -/
theorem sound_of_sane (h : i.window.Sane) : i.Sound := by
  obtain ⟨hstart, hpos⟩ := h.order
  constructor
  case start_le => exact hstart
  case pos_le => exact hpos
  case lexeme_le =>
    intro hsame
    have hdiv := Nat.div_add_mod' i.window.start n
    have hdiv' := Nat.div_add_mod' i.window.pos n
    have hmod := Nat.mod_lt i.window.pos i.window.size_pos
    rw [hsame] at hdiv
    rw [Window.lexemeLength]
    omega
  case retreat_refused =>
    intro count hcount
    rw [retreat, Window.retreat, if_pos hcount]
  case retreat_made =>
    intro count hcount
    rw [retreat, Window.retreat, if_neg (Nat.not_lt.mpr hcount)]
    exact ⟨_, rfl⟩
  case search_stop =>
    intro needle f i' hfault hnone
    have hstraight : i.window.Straight := by
      rcases h with hstraight | ⟨stop, hcrooked⟩
      · exact hstraight
      · simp [hcrooked.stop_eq] at hnone
    exact hstraight.eatUntil_ne_fault needle f _ (eatUntil_fault hfault)

/-- **Which calls can break down, over any source.** After any calls, those that have failed
included, the cursors are in order, and a retreat is refused exactly if it crosses the start. If no
lexeme was started astray, no search breaks down; and none is started astray if no start fails. -/
theorem after_sound {source : σ} {i₀ : Input σ n} (h : ofSource source n = .ok i₀)
    (calls : List Call) :
    (i₀.after calls).Sound ∧
    (i₀.MarksWhere (fun i => i.window.isAstray = false) calls →
      ∀ needle f i', eatUntil needle (i₀.after calls) ≠ .error (.fault f) i') ∧
    (i₀.MarksWhere Marks calls → i₀.MarksWhere (fun i => i.window.isAstray = false) calls) := by
  obtain ⟨first, second, -, -, -, hkept, -⟩ := kept_ofSource h
  refine ⟨?_, fun hcalls needle f i' hfault => ?_, fun hcalls => ?_⟩
  · have hsane : (i₀.after calls).window.Sane :=
      keeps_after (Q := fun i => i.window.Sane) (fun _ c => sane_leave c) calls
        (Or.inl hkept.straight)
    exact sound_of_sane hsane
  · have hstraight : (i₀.after calls).window.Straight :=
      hcalls.keeps (Q := fun i => i.window.Straight) (fun _ c => straight_leave c) hkept.straight
    exact hstraight.eatUntil_ne_fault needle f _ (eatUntil_fault hfault)
  · refine hcalls.of_keeps (Q := fun i => ∃ text, i.Kept text) ?_ ?_ ⟨_, hkept⟩
    · rintro i c ⟨text, hi⟩ hc
      obtain ⟨more, -, hi'⟩ := hi.leave hc
      exact ⟨text ++ more, hi'⟩
    · rintro i ⟨text, hi⟩
      exact Window.isAstray_eq_false.mpr hi.shows.here_epoch.symm

/-- After a read that has failed, a move back across the start's slot is safe: no lexeme has been
started astray yet. -/
theorem after_sound_failedMark :
    ∃ i₀ : Input Script 2,
      ofSource { steps := [.deliver [0x61, 0x62] none, .deliver [0x63, 0x64] none,
        .fail .interrupted] } 2 = .ok i₀ ∧
      (i₀.after [.advance 3, .mark, .retreat 2]).Sound ∧
      ∀ needle f i, eatUntil needle (i₀.after [.advance 3, .mark, .retreat 2]) ≠
        .error (.fault f) i := by
  obtain ⟨i₀, hof, hcalls⟩ : ∃ i₀ : Input Script 2,
      ofSource { steps := [.deliver [0x61, 0x62] none, .deliver [0x63, 0x64] none,
        .fail .interrupted] } 2 = .ok i₀ ∧
      i₀.MarksWhere (fun i => i.window.isAstray = false) [.advance 3, .mark, .retreat 2] :=
    ⟨_, rfl, nofun, fun _ => rfl, nofun, trivial⟩
  obtain ⟨hsound, hsearch, -⟩ := after_sound hof [.advance 3, .mark, .retreat 2]
  exact ⟨i₀, hof, hsound, hsearch hcalls⟩

/-- **A search can break down after a read that has failed.** The slot of the first two bytes is
handed on before the read fails, so that the position, when it goes back to them, is looked up in the
other slot. A lexeme that is started there has this slot filled, and the read is short. -/
theorem search_breaks_down :
    ∃ i₀ : Input Script 2,
      ofSource { steps := [.deliver [0x61, 0x62] none, .deliver [0x63, 0x64] none,
        .fail .interrupted] } 2 = .ok i₀ ∧
      ∃ i, eatUntil 0x7A (i₀.after [.advance 3, .mark, .retreat 2, .mark]) =
        .error (.fault (.searchPastFill 1 0)) i := by
  obtain ⟨i₀, hof, hend, hindex, hfill⟩ : ∃ i₀ : Input Script 2,
      ofSource { steps := [.deliver [0x61, 0x62] none, .deliver [0x63, 0x64] none,
        .fail .interrupted] } 2 = .ok i₀ ∧
      (i₀.after [.advance 3, .mark, .retreat 2, .mark]).window.isAtEnd = false ∧
      (i₀.after [.advance 3, .mark, .retreat 2, .mark]).window.pos % 2 = 1 ∧
      (i₀.after [.advance 3, .mark, .retreat 2, .mark]).window.here.fill = 0 :=
    ⟨_, rfl, rfl, rfl, rfl⟩
  refine ⟨i₀, hof, ?_⟩
  generalize i₀.after [.advance 3, .mark, .retreat 2, .mark] = i at hend hindex hfill
  have hsearch : i.window.eatUntil 0x7A = .error (.fault (.searchPastFill 1 0)) i.window := by
    rw [Window.eatUntil, dif_neg (by simp [hend]), dif_pos (by rw [hindex, hfill]; decide), hindex,
      hfill]
  rw [eatUntil, hsearch]
  exact ⟨_, rfl⟩

end Input

end XPathScan
