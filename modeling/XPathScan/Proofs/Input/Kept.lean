import XPathScan.Proofs.Input.Calls
import XPathScan.Proofs.Source.Logged

/-!
# Inputs that stay well kept

A source that is faithful to no text still delivers bytes, and as long as no read fails these are as
good as a text: the window is well kept over what has been delivered so far. It never has more than
the two epochs of the window (`XPathScan.Input.Kept`), so that the end of what has been delivered is
either the end of the input or the edge of the window.

* `XPathScan.Input.Kept.mark` – the start of a lexeme, if it succeeds, keeps an input well kept over
  what has been delivered then;
* `XPathScan.Input.Kept.leave` – and so does every other call;
* `XPathScan.Input.Shows.leave` – over a faithful source no call fails to.
-/

namespace XPathScan

variable {σ : Type} {n : Nat} {text more : List UInt8}

/-! ### Texts that become longer -/

/-- A slot that holds an epoch holds it also if more comes behind the epoch. -/
theorem Slot.Holds.append {s : Slot n} {epoch : Nat} (h : s.Holds text epoch)
    (hnone : text.length < (epoch + 1) * n → more = []) : s.Holds (text ++ more) epoch := by
  rcases Nat.lt_or_ge text.length ((epoch + 1) * n) with hlt | hge
  · rw [hnone hlt, List.append_nil]
    exact h
  · rw [Nat.add_mul, Nat.one_mul] at hge
    refine ⟨h.epoch_eq, ?_, fun i hi _ => ?_⟩
    · rw [h.fill_eq, List.length_append]
      omega
    · rw [List.getElem?_append_left (by omega)]
      exact h.byte_eq i hi (by omega)

/-- A window that is well kept is so also if more comes behind its edge. -/
theorem Window.Shows.append {w : Window n} (h : w.Shows text)
    (hnone : text.length < w.edge → more = []) : w.Shows (text ++ more) := by
  have hedge : (w.start / n + 1) * n ≤ w.edge := Nat.mul_le_mul_right n (Nat.le_succ _)
  have hpos := h.pos_le
  have hlength : (text ++ more).length = text.length + more.length := List.length_append
  refine ⟨h.start_le, by omega, h.near.append fun hlt => hnone (Nat.lt_of_lt_of_le hlt hedge),
    h.far.append hnone, h.here_epoch, ?_⟩
  rw [h.stop_eq]
  by_cases hlt : text.length < w.edge
  · rw [hnone hlt, List.append_nil]
  · rw [if_neg hlt, if_neg (by omega)]

/-- **Moves keep a window well kept**, and its edge where it is. -/
theorem Window.Shows.moves {w w' : Window n} (h : w.Shows text) (hmoves : w.Moves w') :
    w'.Shows text ∧ w'.edge = w.edge := by
  have hstart := h.start_le
  have hpos := h.pos_le
  cases hmoves with
  | @advance _ count hmove =>
    rw [h.advance_eq] at hmove
    split at hmove
    · next hfits =>
      cases hmove
      exact ⟨h.movedTo (by omega) (Nat.min_le_right _ _) (hfits.mono (Nat.min_le_left _ _)), rfl⟩
    · cases hmove
  | @retreat _ count hmove =>
    by_cases hcount : count ≤ w.pos - w.start
    · rw [h.retreat_eq hcount] at hmove
      cases hmove
      exact ⟨h.movedTo (by omega) (by omega) (h.fits_pos.mono (Nat.sub_le _ _)), rfl⟩
    · rw [retreat, if_pos (Nat.lt_of_not_le hcount)] at hmove
      cases hmove
  | @find j hend hle hlt =>
    -- The byte is in the position's slot, and a move inside a slot always fits.
    have hfill := w.here.fill_le
    have hdiv := Nat.div_add_mod' w.pos n
    have hlen := h.holds_here.fill_eq
    have hepoch : (w.pos + (j - w.pos % n)) / n = w.pos / n := by
      rw [Nat.div_eq_iff w.size_pos]
      constructor <;> omega
    obtain ⟨hfits, hmoved⟩ := h.movedTo_here hepoch
    exact ⟨hmoved ▸ h.movedTo (by omega) (by omega) hfits, rfl⟩

namespace Input

variable [Source σ] {i i' : Input σ n}

/-! ### Reading -/

/-- **Filling a slot with the epoch that comes next**, if it succeeds, holds what the source has
delivered. -/
theorem load_ok (text : List UInt8) {side : Side} {epoch : Nat}
    (h : load side epoch i = .ok () i')
    (hstop : i.window.stop = if text.length < epoch * n then some text.length else none)
    (hlen : text.length ≤ epoch * n) :
    ∃ more slot, Source.Gives i.source more i'.source ∧
      i'.window = i.window.filled side slot (text ++ more) ((epoch + 1) * n) ∧
      slot.Holds (text ++ more) epoch ∧ (text ++ more).length ≤ (epoch + 1) * n ∧
      (text.length < epoch * n → more = []) := by
  have hn := i.window.size_pos
  rw [Nat.add_mul, Nat.one_mul]
  rw [load] at h
  simp only at h
  by_cases hshort : text.length < epoch * n
  · -- The input has ended, and nothing comes any more.
    rw [hstop, if_pos hshort] at h
    cases h
    refine ⟨[], Slot.receive epoch (i.window.slot side).data 0, .nothing, ?_, ?_, ?_,
      fun _ => rfl⟩
    · rw [List.append_nil, Window.filled, if_pos (by omega)]
      cases side <;> simp [Window.setSlot, hstop, hshort]
    · rw [List.append_nil]
      have hnone : min n (text.length - epoch * n) = 0 := by omega
      exact hnone ▸ Slot.holds_receive fun j _ hj => by omega
    · rw [List.append_nil]
      omega
  · have heq : text.length = epoch * n := by omega
    rw [hstop, if_neg hshort] at h
    simp only at h
    rcases hread : Source.read (i.window.slot side).data i.source with ⟨⟨buffer, count⟩, source⟩
    rw [hread] at h
    cases count with
    | error failure => cases h
    | ok count =>
      cases h
      have hmore : (buffer.toList.take count).length = min count n := by simp
      have hfull : min n ((text ++ buffer.toList.take count).length - epoch * n) = min count n := by
        rw [List.length_append, hmore]
        omega
      have hslot : (Slot.receive epoch buffer count).Holds (text ++ buffer.toList.take count)
          epoch := by
        have hsame : Slot.receive epoch buffer count = Slot.receive epoch buffer (min count n) := by
          rw [Slot.receive, Slot.receive]
          by_cases hcount : count < n
          · simp [hcount, Nat.min_eq_left (Nat.le_of_lt hcount)]
          · simp [hcount, Nat.min_eq_right (Nat.le_of_not_lt hcount)]
        rw [hsame, ← hfull]
        refine Slot.holds_receive fun j hj hlt => ?_
        rw [List.length_append, hmore] at hlt
        rw [← heq, List.getElem?_append_right (by omega), Nat.add_sub_cancel_left,
          List.getElem?_take_of_lt (by omega)]
        simp
      refine ⟨buffer.toList.take count, _, .bytes hread, ?_, hslot, ?_, fun hlt => absurd hlt hshort⟩
      · rw [Window.filled, List.length_append, hmore, heq]
        by_cases hcount : count < n
        · simp only [hcount, ↓reduceIte]
          rw [if_pos (by omega), Nat.min_eq_left (Nat.le_of_lt hcount)]
        · simp only [hcount, ↓reduceIte]
          rw [if_neg (by omega)]
          cases side <;> simp [Window.setSlot, hstop, hshort]
      · rw [List.length_append, hmore]
        omega

/-- **An input that is well kept over what has been delivered**: all of it is in the window or lies
before it. -/
structure Kept (i : Input σ n) (text : List UInt8) : Prop where
  /-- The window is well kept. -/
  shows : i.window.Shows text
  /-- Nothing has been delivered that lies behind the window. -/
  length_le : text.length ≤ i.window.edge

/-- **An input is well kept from its beginning on.** -/
theorem kept_ofSource {source : σ} (h : ofSource source n = .ok i) :
    ∃ first second source₁, Source.Gives source first source₁ ∧
      Source.Gives source₁ second i.source ∧ i.Kept (first ++ second) ∧
      i.window.start = 0 ∧ i.window.pos = 0 := by
  have hedge : ∀ e, 0 / n + e = e := fun e => by rw [Nat.zero_div, Nat.zero_add]
  obtain ⟨hn, i₁, hload₁, hload₂⟩ := loads_of_ofSource h
  obtain ⟨first, slot₁, hgives₁, hw₁, hslot₁, hlen₁, -⟩ :=
    load_ok [] hload₁ (by simp [Window.blank]) (by simp)
  rw [List.nil_append] at hw₁ hslot₁ hlen₁
  obtain ⟨second, slot₂, hgives₂, hw₂, hslot₂, hlen₂, hnone⟩ :=
    load_ok first hload₂ (by rw [hw₁]; rfl) hlen₁
  have hslot₁' : slot₁.Holds (first ++ second) 0 := hslot₁.append hnone
  rw [hw₁] at hw₂
  refine ⟨first, second, i₁.source, hgives₁, hgives₂, ⟨⟨?_, ?_, ?_, ?_, ?_, ?_⟩, ?_⟩,
    by rw [hw₂]; rfl, by rw [hw₂]; rfl⟩
  all_goals rw [hw₂]
  · exact Nat.le_refl 0
  · exact Nat.zero_le _
  · change slot₁.Holds _ (0 / n)
    rwa [Nat.zero_div]
  · change slot₂.Holds _ (0 / n + 1)
    rwa [hedge]
  · change slot₁.epoch = 0 / n
    rw [Nat.zero_div, hslot₁.epoch_eq]
  · change (if _ < (1 + 1) * n then _ else _) = if _ < (0 / n + 2) * n then _ else _
    rw [hedge]
  · change _ ≤ (0 / n + 2) * n
    rw [hedge]
    exact hlen₂

/-- **The start of a lexeme, if it succeeds, keeps an input well kept** over what has been delivered
then. -/
theorem Kept.mark (h : i.Kept text) (hmark : mark i = .ok () i') :
    ∃ more, Source.Gives i.source more i'.source ∧ i'.Kept (text ++ more) := by
  have hw := h.shows
  unfold Input.mark at hmark
  simp only at hmark
  split at hmark
  · next hsame =>
    -- The start stays in its epoch, so that both slots keep their parts.
    cases hmark
    have hepoch : i.window.pos / n = i.window.start / n := hsame.trans hw.near.epoch_eq
    have hedge : i.startLexeme.window.edge = i.window.edge := by
      rw [Window.edge, Window.edge, startLexeme, hepoch]
    refine ⟨[], .nothing, ?_⟩
    rw [List.append_nil]
    refine ⟨⟨Nat.le_refl _, hw.pos_le, ?_, ?_, hw.here_epoch, ?_⟩, hedge ▸ h.length_le⟩
    · exact hepoch.symm ▸ hw.near
    · exact hepoch.symm ▸ hw.far
    · rw [hedge]
      exact hw.stop_eq
  · next hother =>
    -- The start goes on to the next epoch. The slot that it leaves takes the one behind the edge.
    have hepoch := hw.epoch_next hother
    have hedge : i.window.edge = (i.window.pos / n + 1) * n := by
      rw [hepoch]
      rfl
    split at hmark
    · next i₁ hload =>
      cases hmark
      obtain ⟨more, slot, hgives, hw₁, hslot, hlen, hnone⟩ :=
        load_ok text hload (hedge ▸ hw.stop_eq) (hedge ▸ h.length_le)
      have hshows : i.window.Shows (text ++ more) := hw.append (hedge ▸ hnone)
      refine ⟨more, hgives, ?_, ?_⟩
      · have hstarted := hshows.startAt_next hepoch hslot
        simp only [startLexeme, hw₁]
        exact hstarted
      · simp only [startLexeme, hw₁, Window.edge, Window.filled_pos]
        exact hlen
    · cases hmark

/-- **A call that starts no lexeme keeps a window well kept**, and its edge where it is. -/
theorem shows_leave (h : i.window.Shows text) {c : Call} (hc : c ≠ .mark) :
    (i.leave c).window.Shows text ∧ (i.leave c).window.edge = i.window.edge ∧
      (i.leave c).source = i.source := by
  obtain ⟨⟨hshows, hedge⟩, hsource⟩ :=
    leave_keeps (P := fun w => w.Shows text ∧ w.edge = i.window.edge)
      (fun w w' hw hmoves => (hw.1.moves hmoves).imp_right (·.trans hw.2))
      hc ⟨h, rfl⟩
  exact ⟨hshows, hedge, hsource⟩

/-- **A call keeps an input well kept** over what has been delivered, unless it is the start of a
lexeme and fails. -/
theorem Kept.leave (h : i.Kept text) {c : Call} (hc : c = .mark → i.Marks) :
    ∃ more, Source.Gives i.source more (i.leave c).source ∧ (i.leave c).Kept (text ++ more) := by
  by_cases hmark : c = .mark
  · obtain ⟨i', hi'⟩ := hc hmark
    rw [hmark, Input.leave, hi']
    exact h.mark hi'
  · obtain ⟨hshows, hedge, hsource⟩ := shows_leave h.shows hmark
    refine ⟨[], hsource ▸ .nothing, ?_⟩
    rw [List.append_nil]
    exact ⟨hshows, hedge ▸ h.length_le⟩

/-- **Over a faithful source every call keeps an input well kept.** -/
theorem Shows.leave (h : i.Shows text) (c : Call) : (i.leave c).Shows text := by
  by_cases hmark : c = .mark
  · obtain ⟨i', hi', hshows, -⟩ := h.mark_eq
    rw [hmark, Input.leave, hi']
    exact hshows
  · obtain ⟨hshows, hedge, hsource⟩ := shows_leave h.window hmark
    refine ⟨hshows, ?_⟩
    rw [hedge, hsource]
    exact h.supply

end Input

end XPathScan
