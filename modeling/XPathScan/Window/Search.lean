import XPathScan.Window.Basic

/-!
# Searching in the window

Two ways to move over many bytes.

* `XPathScan.Window.stepWhile` goes byte by byte, as long as the bytes satisfy a predicate, and takes
  a state along that each of them changes.
* `XPathScan.Window.eatUntil` goes to the next occurrence of a byte, slot by slot: it searches what
  is left of the position's slot and goes on in the next one. The byte itself is not consumed.

A slot that has less input than the position's index, or no further byte while the input has not
ended, leaves nothing to search in. A window that was not well kept can get there; the search then
reports a `XPathScan.Fault`.
-/

namespace XPathScan

/-- **Why a search was broken off.** -/
inductive SearchError where
  /-- The lexeme does not fit into the window. -/
  | overflow (overflow : Overflow)
  /-- The window has nothing to search in. -/
  | fault (fault : Fault)
  deriving DecidableEq, Repr

namespace Window

variable {n : Nat}

/-- **Move forward while the bytes satisfy a predicate**, not beyond the end of the input, and take
each of them as a step of a state. -/
def stepWhile {α : Type} (p : UInt8 → Bool) (step : α → UInt8 → α) (a : α) (w : Window n) :
    EStateM.Result Overflow (Window n) α :=
  match hpeek : w.peek with
  | none => .ok a w
  | some b =>
    if p b then
      match hmove : w.advance 1 with
      | .ok w' =>
        have : w'.room < w.room := room_advance_lt Nat.one_pos (isAtEnd_of_peek hpeek) hmove
        stepWhile p step (step a b) w'
      | .error overflow => .error overflow w
    else .ok a w
termination_by w.room

/-! ### Searching for one byte -/

/-- A move of no byte, before the end of the input, leaves the position where it was. -/
theorem pos_advance_zero {w w' : Window n} (hend : w.isAtEnd = false)
    (h : w.advance 0 = .ok w') : w'.pos = w.pos := by
  obtain ⟨hpos, -⟩ := seek_eq_ok h
  rw [hpos]
  unfold isAtEnd at hend
  unfold forward
  cases hs : w.stop with
  | none => rfl
  | some stop =>
    simp only [hs] at hend
    have : ¬stop ≤ w.pos := by simpa using hend
    simp only
    omega

/-- After a seek the position's slot stands for the position's epoch. -/
theorem epoch_here_seek {w w' : Window n} {target : Nat} (h : w.seek target = .ok w') :
    w'.pos / n = w'.here.epoch := by
  unfold seek at h
  split at h
  · next he =>
    injection h with h
    subst h
    exact he
  · split at h
    · next side hs =>
      injection h with h
      subst h
      unfold holding? at hs
      split at hs
      · next hl =>
        injection hs with hs
        subst hs
        exact hl.symm
      · split at hs
        · next hr =>
          injection hs with hs
          subst hs
          exact hr.symm
        · cases hs
    · cases h

/-- Whether the position's slot stands for another epoch than the position's. -/
def isAstray (w : Window n) : Bool := w.pos / n != w.here.epoch

/-- What a search still has before it: the room ahead, and whether it is in the right slot. -/
def searchOrder (w : Window n) : Nat × Nat := (w.room, w.isAstray.toNat)

/-- **A search that goes on to the next slot comes closer to its end**: it moves forward, or it
gets into the right slot. -/
theorem searchOrder_advance {w w' : Window n} (hend : ¬w.isAtEnd = true)
    (hmoves : ¬(w.here.fill = w.pos % n ∧ w.isAstray = false)) (hfill : ¬w.here.fill < w.pos % n)
    (h : w.advance (w.here.fill - w.pos % n) = .ok w') :
    Prod.Lex (· < ·) (· < ·) w'.searchOrder w.searchOrder := by
  have hend : w.isAtEnd = false := by simpa using hend
  rcases Nat.eq_zero_or_pos (w.here.fill - w.pos % n) with hzero | hpos
  · have hastray : w.isAstray = true := by
      cases hw : w.isAstray
      · exact absurd ⟨by omega, hw⟩ hmoves
      · rfl
    rw [hzero] at h
    have hsame : w'.pos = w.pos := pos_advance_zero hend h
    have hright : w'.isAstray = false := by
      have := epoch_here_seek h
      simpa [isAstray] using this
    obtain ⟨-, -, hl, hr, -, -, hstop⟩ := seek_eq_ok h
    have hroom : w'.room = w.room := by
      unfold room
      rw [hstop, horizon_congr hl hr, hsame]
    unfold searchOrder
    rw [hroom, hastray, hright]
    exact Prod.Lex.right _ (by decide)
  · exact Prod.Lex.left _ _ (room_advance_lt hpos hend h)

/-- **Move forward to the next occurrence of `needle`**, or to the end of the input. The answer is
whether the byte was found. -/
def eatUntil (needle : UInt8) (w : Window n) : EStateM.Result SearchError (Window n) Bool :=
  if hend : w.isAtEnd then .ok false w
  else if hfill : w.here.fill < w.pos % n then
    .error (.fault (.searchPastFill (w.pos % n) w.here.fill)) w
  else
    match w.here.find? needle (w.pos % n) with
    | some i => .ok true { w with pos := w.pos + (i - w.pos % n) }
    | none =>
      if hmoves : w.here.fill = w.pos % n ∧ w.isAstray = false then
        .error (.fault (.searchStalled w.pos)) w
      else
        match hnext : w.advance (w.here.fill - w.pos % n) with
        | .error overflow => .error (.overflow overflow) w
        | .ok w' =>
          have : Prod.Lex (· < ·) (· < ·) w'.searchOrder w.searchOrder :=
            searchOrder_advance hend hmoves hfill hnext
          eatUntil needle w'
termination_by w.searchOrder
decreasing_by assumption

/-- **A search does not add room.** -/
theorem room_eatUntil_le {needle : UInt8} {w w' : Window n} {found : Bool}
    (h : w.eatUntil needle = .ok found w') : w'.room ≤ w.room := by
  fun_induction eatUntil needle w with
  | case1 w hend =>
    cases h
    exact Nat.le_refl _
  | case2 w hend hfill => cases h
  | case3 w hend hfill i hfind =>
    cases h
    unfold room horizon
    simp only
    omega
  | case4 w hend hfill hfind hmoves => cases h
  | case5 w hend hfill hfind hmoves overflow hmove => cases h
  | case6 w hend hfill hfind hmoves v hmove hless ih =>
    have hend : w.isAtEnd = false := by simpa using hend
    refine Nat.le_trans (ih h) ?_
    rcases Nat.eq_zero_or_pos (w.here.fill - w.pos % n) with hzero | hpos
    · rw [hzero] at hmove
      have hsame := pos_advance_zero hend hmove
      obtain ⟨-, -, hl, hr, -, -, hstop⟩ := seek_eq_ok hmove
      refine Nat.le_of_eq ?_
      unfold room
      rw [hstop, horizon_congr hl hr, hsame]
    · exact Nat.le_of_lt (room_advance_lt hpos hend hmove)

end Window

end XPathScan
