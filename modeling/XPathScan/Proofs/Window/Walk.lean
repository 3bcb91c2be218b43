import XPathScan.Proofs.Window.Shows

/-!
# Walking over many bytes of a well-kept window

The two ways to move over many bytes are the same walk in the text: over the longest run of bytes
from the position on that satisfy a predicate. One of them goes byte by byte and the other jumps
from slot to slot, but where they end, and whether they overflow, depends on the run alone.

* `XPathScan.runLength` – the length of the longest run at the beginning of a text;
* `XPathScan.Window.Shows.stepWhile_eq` and `XPathScan.Window.Shows.eatUntil_eq` – the walk ends
  behind the run if that fits, and overflows if it does not.
-/

namespace XPathScan

variable {n : Nat} {text : List UInt8}

/-! ### Runs -/

/-- **The length of the longest run** of bytes with a property at the beginning of a text. -/
def runLength (p : UInt8 → Bool) (t : List UInt8) : Nat := (t.takeWhile p).length

@[simp] theorem runLength_nil (p : UInt8 → Bool) : runLength p [] = 0 := rfl

theorem runLength_cons_of_pos {p : UInt8 → Bool} {b : UInt8} (h : p b = true) (t : List UInt8) :
    runLength p (b :: t) = runLength p t + 1 := by
  simp [runLength, h]

theorem runLength_cons_of_neg {p : UInt8 → Bool} {b : UInt8} (h : ¬p b = true) (t : List UInt8) :
    runLength p (b :: t) = 0 := by
  simp [runLength, h]

theorem runLength_le (p : UInt8 → Bool) (t : List UInt8) : runLength p t ≤ t.length :=
  (List.takeWhile_prefix p).length_le

/-- Behind a run there is no byte with the property. -/
theorem not_of_head?_drop_runLength {p : UInt8 → Bool} {t : List UInt8} {b : UInt8}
    (h : (t.drop (runLength p t)).head? = some b) : ¬p b = true := by
  induction t with
  | nil => cases h
  | cons a t ih =>
    by_cases ha : p a = true
    · rw [runLength_cons_of_pos ha, List.drop_succ_cons] at h
      exact ih h
    · rw [runLength_cons_of_neg ha, List.drop_zero, List.head?_cons] at h
      cases h
      exact ha

/-- The text at an offset of it: the byte there, and what comes after it. -/
theorem drop_eq_cons {p : Nat} {b : UInt8} (h : text[p]? = some b) :
    text.drop p = b :: text.drop (p + 1) := by
  obtain ⟨hlt, rfl⟩ := List.getElem?_eq_some_iff.mp h
  exact List.drop_eq_getElem_cons hlt

/-- **A run goes on behind bytes that have the property.** -/
theorem runLength_drop {q : UInt8 → Bool} {p k : Nat}
    (h : ∀ i, i < k → ∃ b, text[p + i]? = some b ∧ q b = true) :
    runLength q (text.drop p) = k + runLength q (text.drop (p + k)) := by
  induction k generalizing p with
  | zero => simp
  | succ k ih =>
    obtain ⟨b, hb, hq⟩ := h 0 (Nat.succ_pos k)
    rw [Nat.add_zero] at hb
    rw [drop_eq_cons hb, runLength_cons_of_pos hq, ih fun i hi => ?_]
    · rw [show p + 1 + k = p + (k + 1) by omega]
      omega
    · rw [show p + 1 + i = p + (i + 1) by omega]
      exact h (i + 1) (by omega)

/-! ### Searching in a slot -/

/-- What a search in a slot finds is the first occurrence. -/
theorem Slot.find?_eq_some {s : Slot n} {needle : UInt8} {i j : Nat}
    (h : s.find? needle i = some j) :
    ∃ hj : j < n, i ≤ j ∧ j < s.fill ∧ s.data[j] = needle ∧
      ∀ (m : Nat) (hm : m < n), i ≤ m → m < j → s.data[m] ≠ needle := by
  fun_induction Slot.find? s needle i with
  | case1 i hi hn hbyte =>
    cases h
    exact ⟨hn, Nat.le_refl _, hi, hbyte, fun m _ hle hlt => absurd hlt (by omega)⟩
  | case2 i hi hn hbyte ih =>
    obtain ⟨hj, hle, hfill, hfound, hbefore⟩ := ih h
    refine ⟨hj, by omega, hfill, hfound, fun m hm him hmj => ?_⟩
    rcases Nat.eq_or_lt_of_le him with rfl | hlt
    · exact hbyte
    · exact hbefore m hm hlt hmj
  | case3 i hi => cases h

/-- A search in a slot that finds nothing has seen all of the slot's input. -/
theorem Slot.find?_eq_none {s : Slot n} {needle : UInt8} {i : Nat}
    (h : s.find? needle i = none) :
    ∀ (m : Nat) (hm : m < n), i ≤ m → m < s.fill → s.data[m] ≠ needle := by
  fun_induction Slot.find? s needle i with
  | case1 i hi hn hbyte => cases h
  | case2 i hi hn hbyte ih =>
    intro m hm him hmf
    rcases Nat.eq_or_lt_of_le him with rfl | hlt
    · exact hbyte
    · exact ih h m hm hlt hmf
  | case3 i hi =>
    intro m _ him hmf
    omega

namespace Window

variable {w : Window n}

/-! ### One byte at a time -/

/-- Where a byte can be seen, a move by one byte goes there if it fits. -/
theorem Shows.advance_one (h : w.Shows text) {b : UInt8} (hpeek : w.peek = some b) :
    w.advance 1 =
      if w.Fits text (w.pos + 1) then .ok (w.movedTo (w.pos + 1))
      else .error { bufferSize := n, offset := w.start } := by
  rw [h.peek_eq] at hpeek
  have hlt : w.pos < text.length := (List.getElem?_eq_some_iff.mp hpeek).1
  rw [h.advance_eq, Nat.min_eq_left hlt]

/-- A window that has moved by one byte it can see is well kept. -/
theorem Shows.movedTo_succ (h : w.Shows text) {b : UInt8} (hpeek : w.peek = some b)
    (hfits : w.Fits text (w.pos + 1)) : (w.movedTo (w.pos + 1)).Shows text := by
  rw [h.peek_eq] at hpeek
  have hlt : w.pos < text.length := (List.getElem?_eq_some_iff.mp hpeek).1
  have hstart := h.start_le
  exact h.movedTo (by omega) hlt hfits

/-- **Moving while a predicate holds is moving over a run**, and a state that is taken along has made
the steps of its bytes. -/
theorem Shows.stepWhile_eq {α : Type} (h : w.Shows text) (p : UInt8 → Bool) (step : α → UInt8 → α)
    (a : α) :
    (w.Fits text (w.pos + runLength p (text.drop w.pos)) →
      w.stepWhile p step a =
        .ok (((text.drop w.pos).take (runLength p (text.drop w.pos))).foldl step a)
          (w.movedTo (w.pos + runLength p (text.drop w.pos)))) ∧
    (¬w.Fits text (w.pos + runLength p (text.drop w.pos)) →
      ∃ w', w.stepWhile p step a = .error { bufferSize := n, offset := w.start } w') := by
  fun_induction stepWhile p step a w with
  | case1 a w hpeek =>
    rw [h.peek_eq, List.getElem?_eq_none_iff] at hpeek
    rw [List.drop_eq_nil_of_le hpeek, runLength_nil, Nat.add_zero, h.movedTo_self]
    exact ⟨fun _ => rfl, fun hfits => absurd h.fits_pos hfits⟩
  | case2 a w b hpeek hb w' hmove hroom ih =>
    rw [h.advance_one hpeek] at hmove
    split at hmove
    · next hfits =>
      cases hmove
      have ih := ih (h.movedTo_succ hpeek hfits)
      rw [h.peek_eq] at hpeek
      rw [drop_eq_cons hpeek, runLength_cons_of_pos hb, List.take_succ_cons, List.foldl_cons]
      simpa only [movedTo_pos, movedTo_start, movedTo_movedTo, fits_movedTo, Nat.add_assoc,
        Nat.add_comm 1] using ih
    · cases hmove
  | case3 a w b hpeek hb overflow hmove =>
    rw [h.advance_one hpeek] at hmove
    split at hmove
    · cases hmove
    · next hfits =>
      cases hmove
      rw [h.peek_eq] at hpeek
      rw [drop_eq_cons hpeek, runLength_cons_of_pos hb]
      exact ⟨fun hc => absurd (hc.mono (by omega)) hfits, fun _ => ⟨w, rfl⟩⟩
  | case4 a w b hpeek hb =>
    rw [h.peek_eq] at hpeek
    rw [drop_eq_cons hpeek, runLength_cons_of_neg hb, Nat.add_zero, h.movedTo_self]
    exact ⟨fun _ => rfl, fun hfits => absurd h.fits_pos hfits⟩

/-! ### Slot by slot -/

/-- Before the end of the text the slot of the position has input at the position's index. -/
theorem Shows.index_lt_fill (h : w.Shows text) (hlt : w.pos < text.length) :
    w.pos % n < w.here.fill := by
  have hdiv := Nat.div_add_mod' w.pos n
  have hmod := Nat.mod_lt w.pos w.size_pos
  rw [h.holds_here.fill_eq]
  omega

/-- The bytes of the text that are left in the position's slot. -/
theorem Shows.byte_here (h : w.Shows text) {i : Nat} (hn : w.pos % n + i < n)
    (hfill : w.pos % n + i < w.here.fill) :
    text[w.pos + i]? = some (w.here.data[w.pos % n + i]) := by
  have hdiv := Nat.div_add_mod' w.pos n
  rw [h.holds_here.fill_eq] at hfill
  have hbyte := h.holds_here.byte_eq (w.pos % n + i) hn (by omega)
  rwa [← Nat.add_assoc, hdiv] at hbyte

/-- **A search that does not find the byte in the position's slot goes on behind the slot's
input.** -/
theorem Shows.runLength_of_find?_none (h : w.Shows text) {needle : UInt8}
    (hfind : w.here.find? needle (w.pos % n) = none) :
    runLength (· != needle) (text.drop w.pos) = (w.here.fill - w.pos % n) +
      runLength (· != needle) (text.drop (w.pos + (w.here.fill - w.pos % n))) := by
  refine runLength_drop fun i hi => ?_
  have hfill := w.here.fill_le
  have hne := Slot.find?_eq_none hfind (w.pos % n + i) (by omega) (by omega) (by omega)
  exact ⟨_, h.byte_here (by omega) (by omega), by simpa using hne⟩

/-- **A search that finds the byte in the position's slot has come to the end of the run.** -/
theorem Shows.runLength_of_find?_some (h : w.Shows text) {needle : UInt8} {j : Nat}
    (hfind : w.here.find? needle (w.pos % n) = some j) :
    runLength (· != needle) (text.drop w.pos) = j - w.pos % n := by
  obtain ⟨hj, hle, hfill, hfound, hbefore⟩ := Slot.find?_eq_some hfind
  rw [runLength_drop (k := j - w.pos % n) fun i hi => ?_]
  · have hindex : w.pos % n + (j - w.pos % n) = j := by omega
    have hbyte := h.byte_here (i := j - w.pos % n) (by omega) (by omega)
    simp only [hindex, hfound] at hbyte
    rw [drop_eq_cons hbyte, runLength_cons_of_neg (by simp), Nat.add_zero]
  · have hne := hbefore (w.pos % n + i) (by omega) (by omega) (by omega)
    exact ⟨_, h.byte_here (by omega) (by omega), by simpa using hne⟩

/-- A position in the epoch of the window's position fits and is in the same slot. -/
theorem Shows.movedTo_here (h : w.Shows text) {p : Nat} (hepoch : p / n = w.pos / n) :
    w.Fits text p ∧ w.movedTo p = { w with pos := p } := by
  constructor
  · exact Or.inr (lt_edge_of_epoch (hepoch ▸ h.epoch_pos))
  · rw [Window.movedTo, sideOf, h.posSide_eq, hepoch]
    rfl

/-- **Moving to the next occurrence of a byte is moving over the run of other bytes.** -/
theorem Shows.eatUntil_eq (h : w.Shows text) (needle : UInt8) :
    (w.Fits text (w.pos + runLength (· != needle) (text.drop w.pos)) →
      w.eatUntil needle =
        .ok (decide (w.pos + runLength (· != needle) (text.drop w.pos) < text.length))
          (w.movedTo (w.pos + runLength (· != needle) (text.drop w.pos)))) ∧
    (¬w.Fits text (w.pos + runLength (· != needle) (text.drop w.pos)) →
      ∃ w', w.eatUntil needle =
        .error (.overflow { bufferSize := n, offset := w.start }) w') := by
  have hdiv := Nat.div_add_mod' w.pos n
  fun_induction eatUntil needle w with
  | case1 w hend =>
    have hpos := h.isAtEnd_iff.mp hend
    rw [List.drop_eq_nil_of_le (Nat.le_of_eq hpos.symm), runLength_nil, Nat.add_zero,
      h.movedTo_self, hpos]
    exact ⟨fun _ => by simp, fun hfits => absurd (hpos ▸ h.fits_pos) hfits⟩
  | case2 w hend hfill =>
    -- Before the end of the text the slot of the position has input there.
    have hlt := Nat.lt_of_le_of_ne h.pos_le fun heq => hend (h.isAtEnd_iff.mpr heq)
    exact absurd (h.index_lt_fill hlt) (by omega)
  | case3 w hend hfill i hfind =>
    -- The byte is in the slot of the position, and a move inside a slot always fits.
    obtain ⟨hi, hle, hlt, hfound, -⟩ := Slot.find?_eq_some hfind
    have hepoch : (w.pos + (i - w.pos % n)) / n = w.pos / n := by
      rw [Nat.div_eq_iff w.size_pos]
      constructor <;> omega
    obtain ⟨hfits, hmoved⟩ := h.movedTo_here hepoch
    have hend : w.pos + (i - w.pos % n) < text.length := by
      have := h.holds_here.fill_eq
      omega
    rw [h.runLength_of_find?_some hfind, hmoved]
    exact ⟨fun _ => by simp [hend], fun hc => absurd hfits hc⟩
  | case4 w hend hfill hfind hmoves =>
    have hlt := Nat.lt_of_le_of_ne h.pos_le fun heq => hend (h.isAtEnd_iff.mpr heq)
    exact absurd (h.index_lt_fill hlt) (by omega)
  | case5 w hend hfill hfind hmoves overflow hmove =>
    rw [h.advance_eq] at hmove
    split at hmove
    · cases hmove
    · next hfits =>
      cases hmove
      rw [h.runLength_of_find?_none hfind]
      exact ⟨fun hc => absurd (hc.mono (by omega)) hfits, fun _ => ⟨w, rfl⟩⟩
  | case6 w hend hfill hfind hmoves w' hmove hless ih =>
    -- The rest of the slot belongs to the run, which goes on where the next slot begins.
    rw [h.advance_eq] at hmove
    split at hmove
    · next hfits =>
      cases hmove
      have hstart := h.start_le
      have hpos := h.pos_le
      have hin : w.pos + (w.here.fill - w.pos % n) ≤ text.length := by
        have := h.holds_here.fill_eq
        omega
      rw [Nat.min_eq_left hin] at ih
      have ih := ih (h.movedTo (by omega) hin hfits) (Nat.div_add_mod' _ n)
      rw [h.runLength_of_find?_none hfind]
      simp only [Nat.min_eq_left hin]
      simpa only [movedTo_pos, movedTo_start, movedTo_movedTo, fits_movedTo, Nat.add_assoc] using ih
    · cases hmove

end Window

end XPathScan
