import XPathScan.Proofs.Window.Walk
import XPathScan.Scan.Basic

/-!
# Readings: what a scanner does to a plain text

A scanner moves in a window, and whether it gets through depends on where the window ends. What it
is after does not: that is a matter of the bytes ahead alone. A *reading* of these bytes says what
the scanner finds, and how far from the first of them it goes to find it
(`XPathScan.Reading`). The second number is its *reach*. It is mostly where the token ends, but a
scanner that looks at a byte and goes back has a longer reach.

A scanner *obeys* a reading (`XPathScan.Scan.Obeys`) if it does what the reading says wherever the
reach fits into the window, and overflows wherever it does not. So the window has a say only in
whether there is an overflow, never in what is found.

Scanners that obey readings are put together as the scanners are:

* `XPathScan.Scan.Obeys.bind_step` – after moving over some bytes, go on with those behind them;
* `XPathScan.Scan.Obeys.bind_look` – look at the next byte, and decide;
* `XPathScan.Scan.Obeys.map_length` – make something of what was found.
-/

namespace XPathScan

variable {n : Nat} {α β : Type}

/-- **A reading of a text**: how far it goes, and what it finds. -/
structure Reading (α : Type) where
  /-- The greatest distance from the first byte that is gone to. -/
  reach : Nat
  /-- What is found and how many bytes it takes, or how the text is malformed. -/
  found : Except Malformation (α × Nat)

namespace Reading

/-- A value that takes the next `k` bytes. -/
def step (a : α) (k : Nat) : Reading α := { reach := k, found := .ok (a, k) }

/-- A malformation that is found `k` bytes ahead. -/
def broken (m : Malformation) (k : Nat) : Reading α := { reach := k, found := .error m }

/-- A reading that has also gone to a distance of `k`. -/
def stretch (k : Nat) (r : Reading α) : Reading α := { r with reach := max k r.reach }

/-- **A reading of what comes after `k` bytes**, counted from before them. -/
def after (k : Nat) (f : List UInt8 → Reading α) (t : List UInt8) : Reading α where
  reach := k + (f (t.drop k)).reach
  found := (f (t.drop k)).found.map fun (a, l) => (a, k + l)

/-- What was found, made into something else by the value and the bytes it takes. -/
def mapLength (g : α → Nat → β) (r : Reading α) : Reading β where
  reach := r.reach
  found := r.found.map fun (a, k) => (g a k, k)

/-- What is found behind `k` bytes is found `k` bytes further. -/
theorem after_eq_ok {f : List UInt8 → Reading α} {k l : Nat} {t : List UInt8} {a : α} :
    (after k f t).found = .ok (a, l) ↔ ∃ j, (f (t.drop k)).found = .ok (a, j) ∧ k + j = l := by
  rw [after]
  rcases (f (t.drop k)).found with m | ⟨a', j⟩
  · simp [Except.map]
  · simp [Except.map, and_assoc]

/-- A malformation behind `k` bytes is one of the whole text. -/
theorem after_eq_error {f : List UInt8 → Reading α} {k : Nat} {t : List UInt8} {m : Malformation} :
    (after k f t).found = .error m ↔ (f (t.drop k)).found = .error m := by
  rw [after]
  rcases (f (t.drop k)).found with m' | ⟨a, j⟩
  · simp [Except.map]
  · simp [Except.map]

/-- A reading behind some bytes depends only on what it makes of the rest. -/
theorem after_congr {f g : List UInt8 → Reading α} {k : Nat} {t : List UInt8}
    (h : f (t.drop k) = g (t.drop k)) : after k f t = after k g t := by
  rw [after, after, h]

/-- No bytes need not be taken. -/
theorem after_zero (f : List UInt8 → Reading α) (t : List UInt8) : after 0 f t = f t := by
  rw [after, List.drop_zero]
  rcases f t with ⟨reach, m | ⟨a, l⟩⟩
  · simp only [Nat.zero_add, Except.map]
  · simp only [Nat.zero_add, Except.map]

/-- Bytes can be taken in two parts. -/
theorem after_after (j k : Nat) (f : List UInt8 → Reading α) (t : List UInt8) :
    after j (after k f) t = after (j + k) f t := by
  simp only [after, List.drop_drop, Reading.mk.injEq, Nat.add_assoc, true_and]
  rcases (f (t.drop (j + k))).found with m | ⟨a, l⟩
  · rfl
  · simp only [Except.map]

/-- What is made of what was found takes as many bytes. -/
theorem mapLength_eq_ok {r : Reading α} {m : α → Nat → β} {b : β} {k : Nat} :
    (r.mapLength m).found = .ok (b, k) ↔ ∃ a, r.found = .ok (a, k) ∧ m a k = b := by
  rw [mapLength]
  rcases r.found with e | ⟨a', j⟩
  · simp [Except.map]
  · simp only [Except.map, Except.ok.injEq, Prod.mk.injEq]
    constructor
    · rintro ⟨rfl, rfl⟩
      exact ⟨a', ⟨rfl, rfl⟩, rfl⟩
    · rintro ⟨a, ⟨rfl, rfl⟩, rfl⟩
      exact ⟨rfl, rfl⟩

theorem mapLength_step (g : α → Nat → β) (a : α) (k : Nat) :
    (step a k).mapLength g = step (g a k) k := rfl

theorem mapLength_stretch (g : α → Nat → β) (k : Nat) (r : Reading α) :
    (r.stretch k).mapLength g = (r.mapLength g).stretch k := rfl

/-- What is made of what is found behind some bytes is made with those bytes. -/
theorem mapLength_after (g : α → Nat → β) (k : Nat) (f : List UInt8 → Reading α)
    (t : List UInt8) :
    (after k f t).mapLength g = after k (fun u => (f u).mapLength fun a l => g a (k + l)) t := by
  simp only [after, mapLength]
  rcases (f (t.drop k)).found with m | ⟨a, l⟩
  · rfl
  · rfl

/-- Something can be made of what was found in two steps. -/
theorem mapLength_mapLength {γ : Type} (r : Reading α) (g : α → Nat → β) (g' : β → Nat → γ) :
    (r.mapLength g).mapLength g' = r.mapLength fun a k => g' (g a k) k := by
  simp only [mapLength]
  rcases r.found with m | ⟨a, k⟩
  · rfl
  · rfl

/-- Nothing is made of a malformation. -/
theorem mapLength_eq_error {r : Reading α} {g : α → Nat → β} {m : Malformation} :
    (r.mapLength g).found = .error m ↔ r.found = .error m := by
  rw [mapLength]
  rcases r.found with m' | ⟨a, j⟩
  · simp [Except.map]
  · simp [Except.map]

end Reading

/-! ### Windows that face a text -/

/-- **A window on a text, with the bytes on both sides of its position**: those of the lexeme so
far, and those to come. -/
structure Window.Faces (w : Window n) (text past ahead : List UInt8) : Prop where
  /-- The window is well kept. -/
  shows : w.Shows text
  /-- The lexeme so far. -/
  past_eq : w.lexeme = past
  /-- What is to come. -/
  ahead_eq : text.drop w.pos = ahead

namespace Window.Faces

variable {w : Window n} {text past ahead : List UInt8}

/-- The byte at the position is the first of those to come. -/
theorem peek_eq (h : w.Faces text past ahead) : w.peek = ahead.head? := by
  rw [h.shows.peek_eq_head?, h.ahead_eq]

/-- The number of bytes to come. -/
theorem length_ahead (h : w.Faces text past ahead) : w.pos + ahead.length = text.length := by
  have hpos := h.shows.pos_le
  rw [← h.ahead_eq, List.length_drop]
  omega

/-- **Moving over bytes takes them from one side to the other.** -/
theorem movedTo (h : w.Faces text past ahead) {k : Nat} (hk : k ≤ ahead.length)
    (hfits : w.Fits text (w.pos + k)) :
    (w.movedTo (w.pos + k)).Faces text (past ++ ahead.take k) (ahead.drop k) := by
  have hlen := h.length_ahead
  have hstart := h.shows.start_le
  have hmoved := h.shows.movedTo (p := w.pos + k) (by omega) (by omega) hfits
  refine ⟨hmoved, ?_, ?_⟩
  · rw [hmoved.lexeme_eq, ← h.past_eq, h.shows.lexeme_eq, ← h.ahead_eq]
    rw [movedTo_pos, movedTo_start, show w.pos + k - w.start = (w.pos - w.start) + k by omega,
      List.take_add, List.drop_drop, show w.start + (w.pos - w.start) = w.pos by omega]
  · rw [movedTo_pos, ← List.drop_drop, h.ahead_eq]

end Window.Faces

/-! ### Obeying a reading -/

namespace Scan

/-- **What a scanner has to do in a window to obey a reading.** -/
structure Outcome (text ahead : List UInt8) (w : Window n) (r : Reading α)
    (result : EStateM.Result ScanError (Window n) α) : Prop where
  /-- What is found is found, and the position is behind it. -/
  found : w.Fits text (w.pos + r.reach) → ∀ (a : α) (k : Nat), r.found = .ok (a, k) →
    result = .ok a (w.movedTo (w.pos + k)) ∧ k ≤ r.reach ∧ k ≤ ahead.length
  /-- A malformation is reported. -/
  malformed : w.Fits text (w.pos + r.reach) → ∀ m : Malformation, r.found = .error m →
    ∃ w', result = .error (.malformed m) w'
  /-- A reach that does not fit is an overflow. -/
  overflow : ¬w.Fits text (w.pos + r.reach) →
    ∃ w', result = .error (.overflow { bufferSize := n, offset := w.start }) w'

/-- **A scanner that obeys a reading** of the bytes ahead, in every window on any text. -/
def Obeys (m : Scan n α) (past ahead : List UInt8) (r : Reading α) : Prop :=
  ∀ (text : List UInt8) (w : Window n), w.Faces text past ahead → Outcome text ahead w r (m w)

section Outcome

variable {text ahead : List UInt8} {w : Window n} {r : Reading α}
  {result : EStateM.Result ScanError (Window n) α}

/-- An overflow on the way to the reach is what a reading asks for. -/
theorem Outcome.of_overflow {k : Nat} (hk : k ≤ r.reach) (hfits : ¬w.Fits text (w.pos + k))
    (hover : ∃ w', result = .error (.overflow { bufferSize := n, offset := w.start }) w') :
    Outcome text ahead w r result := by
  have hnot : ¬w.Fits text (w.pos + r.reach) := fun hc => hfits (hc.mono (by omega))
  exact ⟨fun hc => absurd hc hnot, fun hc => absurd hc hnot, fun _ => hover⟩

/-- A distance that fits can be added to the reach. -/
theorem Outcome.stretch {k : Nat} (hfits : w.Fits text (w.pos + k))
    (h : Outcome text ahead w r result) : Outcome text ahead w (r.stretch k) result := by
  have hreach : w.Fits text (w.pos + (r.stretch k).reach) ↔ w.Fits text (w.pos + r.reach) := by
    refine ⟨fun hc => hc.mono (by simp only [Reading.stretch]; omega), fun hc => ?_⟩
    simp only [Reading.stretch]
    rcases Nat.le_total k r.reach with hle | hle
    · rwa [Nat.max_eq_right hle]
    · rwa [Nat.max_eq_left hle]
  refine ⟨fun hc a l ha => ?_, fun hc => h.malformed (hreach.mp hc), fun hc => h.overflow ?_⟩
  · obtain ⟨hres, hle, hlen⟩ := h.found (hreach.mp hc) a l ha
    exact ⟨hres, Nat.le_trans hle (Nat.le_max_right _ _), hlen⟩
  · exact fun hc' => hc (hreach.mpr hc')

end Outcome

variable {past ahead : List UInt8}

/-- A scanner obeys a step if it moves where that fits and overflows where it does not. -/
theorem Obeys.of_step {m : Scan n α} {a : α} {k : Nat} (hk : k ≤ ahead.length)
    (h : ∀ (text : List UInt8) (w : Window n), w.Faces text past ahead →
      (w.Fits text (w.pos + k) → m w = .ok a (w.movedTo (w.pos + k))) ∧
      (¬w.Fits text (w.pos + k) →
        ∃ w', m w = .error (.overflow { bufferSize := n, offset := w.start }) w')) :
    Obeys m past ahead (.step a k) := by
  intro text w hw
  obtain ⟨hmove, hover⟩ := h text w hw
  refine ⟨fun hfits a' k' hfound => ?_, fun _ m hm => by simp [Reading.step] at hm, hover⟩
  obtain ⟨rfl, rfl⟩ : a = a' ∧ k = k' := by simpa [Reading.step] using hfound
  exact ⟨hmove hfits, Nat.le_refl _, hk⟩

/-- **After moving over some bytes a scanner goes on with those behind them.** -/
theorem Obeys.bind_step {m : Scan n α} {f : α → Scan n β} {a : α} {k : Nat}
    {g : List UInt8 → Reading β} (hm : Obeys m past ahead (.step a k))
    (hf : Obeys (f a) (past ++ ahead.take k) (ahead.drop k) (g (ahead.drop k))) :
    Obeys (m >>= f) past ahead (.after k g ahead) := by
  intro text w hw
  have hmw := hm text w hw
  -- Either the first move overflows, or it is made and the rest is seen from behind it.
  by_cases hfits : w.Fits text (w.pos + k)
  · obtain ⟨hok, -, hk⟩ := hmw.found hfits a k rfl
    obtain ⟨hfound, hmalformed, hoverflow⟩ := hf text _ (hw.movedTo hk hfits)
    have hbind : (m >>= f) w = f a (w.movedTo (w.pos + k)) := by simp [bind, EStateM.bind, hok]
    rw [hbind]
    simp only [Window.movedTo_pos, Window.movedTo_start, Window.movedTo_movedTo,
      Window.fits_movedTo, Nat.add_assoc] at hfound hmalformed hoverflow
    refine ⟨fun hfit b l hb => ?_, fun hfit e he => ?_, hoverflow⟩
    · simp only [Reading.after] at hb
      rcases hg : (g (ahead.drop k)).found with e | ⟨b', l'⟩
      · simp [hg, Except.map] at hb
      · obtain ⟨rfl, rfl⟩ : b' = b ∧ k + l' = l := by simpa [hg, Except.map] using hb
        obtain ⟨hres, hreach, hlen⟩ := hfound hfit b' l' hg
        rw [List.length_drop] at hlen
        exact ⟨hres, Nat.add_le_add_left hreach k, by omega⟩
    · simp only [Reading.after] at he
      rcases hg : (g (ahead.drop k)).found with e' | ⟨b', l'⟩
      · obtain rfl : e' = e := by simpa [hg, Except.map] using he
        exact hmalformed hfit e' hg
      · simp [hg, Except.map] at he
  · obtain ⟨w', herr⟩ := hmw.overflow hfits
    exact .of_overflow (k := k) (Nat.le_add_right _ _) hfits
      ⟨w', by simp [bind, EStateM.bind, herr]⟩

/-- **A scanner looks ahead, comes back and decides.** -/
theorem Obeys.bind_stretch {m : Scan n α} {f : α → Scan n β} {a : α} {k : Nat} {r : Reading β}
    (hm : Obeys m past ahead ((Reading.step a 0).stretch k)) (hf : Obeys (f a) past ahead r) :
    Obeys (m >>= f) past ahead (r.stretch k) := by
  intro text w hw
  have hmw := hm text w hw
  have hreach : ((Reading.step a 0).stretch k).reach = k := Nat.max_eq_left (Nat.zero_le k)
  -- Where the look fits, the window is as before, and the distance can be added to the reach.
  by_cases hfits : w.Fits text (w.pos + k)
  · obtain ⟨hok, -, -⟩ := hmw.found (hreach.symm ▸ hfits) a 0 rfl
    rw [Nat.add_zero, hw.shows.movedTo_self] at hok
    have hbind : (m >>= f) w = f a w := by simp [bind, EStateM.bind, hok]
    rw [hbind]
    exact (hf text w hw).stretch hfits
  · obtain ⟨w', herr⟩ := hmw.overflow (hreach.symm ▸ hfits)
    exact .of_overflow (k := k) (Nat.le_max_left _ _) hfits ⟨w', by simp [bind, EStateM.bind, herr]⟩

/-- **A scanner looks at the next byte and decides.** -/
theorem Obeys.bind_look {m : Scan n α} {f : α → Scan n β} {a : α} {r : Reading β}
    (hm : Obeys m past ahead (.step a 0)) (hf : Obeys (f a) past ahead r) :
    Obeys (m >>= f) past ahead r := by
  have h := Obeys.bind_stretch (k := 0) hm hf
  rwa [Reading.stretch, Nat.zero_max] at h

/-- **A scanner makes something of what was found.** -/
theorem Obeys.map_length {m : Scan n α} {f : α → Scan n β} {g : α → Nat → β} {r : Reading α}
    (hm : Obeys m past ahead r)
    (hf : ∀ (a : α) (k : Nat) (text : List UInt8) (w : Window n),
      w.Faces text (past ++ ahead.take k) (ahead.drop k) → f a w = .ok (g a k) w) :
    Obeys (m >>= f) past ahead (r.mapLength g) := by
  intro text w hw
  obtain ⟨hfound, hmalformed, hoverflow⟩ := hm text w hw
  refine ⟨fun hfits b k hb => ?_, fun hfits e he => ?_, fun hfits => ?_⟩
  · simp only [Reading.mapLength] at hb
    rcases hr : r.found with e | ⟨a, k'⟩
    · simp [hr, Except.map] at hb
    · obtain ⟨rfl, rfl⟩ : g a k' = b ∧ k' = k := by simpa [hr, Except.map] using hb
      obtain ⟨hok, hreach, hlen⟩ := hfound hfits a k' hr
      have hmoved := hw.movedTo hlen (hfits.mono (Nat.add_le_add_left hreach w.pos))
      exact ⟨by simp [bind, EStateM.bind, hok, hf a k' text _ hmoved], hreach, hlen⟩
  · simp only [Reading.mapLength] at he
    rcases hr : r.found with e' | ⟨a, k'⟩
    · obtain rfl : e' = e := by simpa [hr, Except.map] using he
      obtain ⟨w', herr⟩ := hmalformed hfits e' hr
      exact ⟨w', by simp [bind, EStateM.bind, herr]⟩
    · simp [hr, Except.map] at he
  · obtain ⟨w', herr⟩ := hoverflow hfits
    exact ⟨w', by simp [bind, EStateM.bind, herr]⟩

/-! ### The pieces of scanners -/

theorem obeys_pure (a : α) : Obeys (pure a : Scan n α) past ahead (.step a 0) := by
  refine Obeys.of_step (Nat.zero_le _) fun text w hw => ⟨fun _ => ?_, fun hfits => ?_⟩
  · rw [Nat.add_zero, hw.shows.movedTo_self]
    rfl
  · exact absurd hw.shows.fits_pos hfits

theorem obeys_reject (m : Malformation) :
    Obeys (reject m : Scan n α) past ahead (.broken m 0) := by
  intro text w hw
  refine ⟨fun _ a k hfound => ?_, fun _ m' hm => ?_, fun hfits => ?_⟩
  · simp [Reading.broken] at hfound
  · obtain rfl : m = m' := by simpa [Reading.broken] using hm
    exact ⟨w, rfl⟩
  · exact absurd hw.shows.fits_pos hfits

/-- Looking gives the first of the bytes to come. -/
theorem obeys_peek : Obeys (peek : Scan n _) past ahead (.step ahead.head? 0) := by
  refine Obeys.of_step (Nat.zero_le _) fun text w hw => ⟨fun _ => ?_, fun hfits => ?_⟩
  · rw [Nat.add_zero, hw.shows.movedTo_self, ← hw.peek_eq]
    rfl
  · exact absurd hw.shows.fits_pos hfits

/-- Testing the next byte tests the first of the bytes to come. -/
theorem obeys_sees (p : UInt8 → Bool) :
    Obeys (sees p : Scan n _) past ahead (.step (ahead.head?.any p) 0) :=
  obeys_peek.bind_look (obeys_pure _)

/-- A move by one byte takes one, if there is one. -/
theorem obeys_advance (h : ahead ≠ []) : Obeys (advance : Scan n _) past ahead (.step () 1) := by
  obtain ⟨b, t, rfl⟩ := List.exists_cons_of_ne_nil h
  refine Obeys.of_step (by simp) fun text w hw => ?_
  have hmove := hw.shows.advance_one (b := b) (by rw [hw.peek_eq, List.head?_cons])
  rw [advance, hmove]
  refine ⟨fun hfits => ?_, fun hfits => ⟨w, ?_⟩⟩
  · rw [if_pos hfits]
  · rw [if_neg hfits]

/-- **A move over bytes with a property takes the run of them**, and a state that is taken along makes
their steps. -/
theorem obeys_stepWhile (p : UInt8 → Bool) (step : α → UInt8 → α) (a : α) :
    Obeys (stepWhile p step a : Scan n _) past ahead
      (.step ((ahead.take (runLength p ahead)).foldl step a) (runLength p ahead)) := by
  refine Obeys.of_step (runLength_le p ahead) fun text w hw => ?_
  obtain ⟨hmove, hover⟩ := hw.shows.stepWhile_eq p step a
  rw [hw.ahead_eq] at hmove hover
  rw [stepWhile]
  refine ⟨fun hfits => ?_, fun hfits => ?_⟩
  · rw [hmove hfits]
  · obtain ⟨w', herr⟩ := hover hfits
    exact ⟨w', by rw [herr]⟩

/-- A move over bytes with a property takes the run of them. -/
theorem obeys_eatWhile (p : UInt8 → Bool) :
    Obeys (eatWhile p : Scan n _) past ahead (.step () (runLength p ahead)) :=
  obeys_stepWhile p _ ()

end Scan

end XPathScan
