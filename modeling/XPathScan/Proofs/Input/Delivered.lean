import XPathScan.Proofs.Input.Kept
import XPathScan.Source.Script

/-!
# What an input shows and what was delivered

The bytes that an input shows should be those that its source has delivered: the byte at the position
and the bytes of the lexeme can be looked up in the log. As long as no start of a lexeme fails they
are, whatever the source claims.

A read that fails leaves the window cut off from its source (`XPathScan.Window.CutOff`). The slot
that was to be filled stands for the next epoch already, with bytes that nobody has delivered for it,
and the slot of the start is another one, though the start has not moved. What is right then is what
lies in the start's slot: the byte at a position that was delivered and is looked up in its own
epoch, and a lexeme that starts there. A second try to start the lexeme succeeds without a read.

* `XPathScan.Input.after_serves` – what is shown is what was delivered, before a failure everywhere
  and after it on this ground;
* `XPathScan.Input.recycled_bytes` – outside of it older bytes are shown in the place of others.
-/

namespace XPathScan

variable {σ : Type} {n : Nat} {text : List UInt8}

namespace Window

variable {w w' : Window n}

/-! ### Windows that are cut off -/

/-- **A window that a failed read has cut off from its source.** The slot of the start holds the last
epoch that was delivered, and the other slot stands for the one that was not. -/
structure CutOff (w : Window n) (text : List UInt8) : Prop where
  /-- The end is not known. -/
  stop_eq : w.stop = none
  /-- The cursors are in order. -/
  start_le : w.start ≤ w.pos
  /-- The slot of the start holds its epoch. -/
  near : w.near.Holds text w.near.epoch
  /-- The other slot stands for the next epoch. -/
  far_epoch : w.far.epoch = w.near.epoch + 1
  /-- The other slot is full. -/
  far_full : w.far.fill = n
  /-- The text ends between the two. -/
  length_eq : text.length = (w.near.epoch + 1) * n

theorem CutOff.moves (h : w.CutOff text) (hmoves : w.Moves w') : w'.CutOff text := by
  obtain ⟨-, hstart, -, hstop⟩ := hmoves.frame
  have hle := h.start_le
  have hpos : w.start ≤ w'.pos := by
    rcases hmoves.place hle with ⟨count, hpos, -⟩ | ⟨hge, -⟩ | ⟨-, hge, -⟩
    · rw [forward, h.stop_eq] at hpos
      rw [hpos]
      exact Nat.le_trans hle (Nat.le_add_right _ _)
    · exact hge
    · exact Nat.le_trans hle hge
  refine ⟨hstop.trans h.stop_eq, hstart ▸ hpos, ?_, ?_, ?_, ?_⟩
  all_goals simp only [hmoves.near_eq, hmoves.far_eq]
  · exact h.near
  · exact h.far_epoch
  · exact h.far_full
  · exact h.length_eq

theorem CutOff.begun (h : w.CutOff text) : w.begun.CutOff text :=
  ⟨h.stop_eq, Nat.le_refl _, h.near, h.far_epoch, h.far_full, h.length_eq⟩

/-- **A position in the text is in the slot of the start**, if it is in the slot of its epoch. -/
theorem CutOff.here_eq (h : w.CutOff text) (hin : w.isAstray = false) (hlt : w.pos < text.length) :
    w.here = w.near ∧ w.pos / n = w.near.epoch := by
  have hhere := isAstray_eq_false.mp hin
  rcases w.here_eq_near_or_far with heq | heq
  · exact ⟨heq, heq ▸ hhere⟩
  · rw [heq, h.far_epoch] at hhere
    rw [h.length_eq] at hlt
    have := (Nat.div_lt_iff_lt_mul w.size_pos).mpr hlt
    omega

/-- **The byte at such a position is that of the text.** -/
theorem CutOff.current_eq (h : w.CutOff text) (hin : w.isAstray = false)
    (hlt : w.pos < text.length) : text[w.pos]? = some w.current := by
  obtain ⟨hhere, hepoch⟩ := h.here_eq hin hlt
  have hbyte := h.near.byte_eq (w.pos % n) (Nat.mod_lt _ w.size_pos)
  rw [← hepoch, Nat.div_add_mod'] at hbyte
  have hend : w.isAtEnd = false := by rw [isAtEnd, h.stop_eq]
  have hcurrent : w.current = w.byteHere := by simp [current, peek, hend]
  rw [hbyte hlt, hcurrent]
  simp only [byteHere, hhere]

/-- A window that is cut off is well kept over the text and the bytes of the other slot, if its
lexeme starts in the slot of the start. -/
theorem CutOff.shows (h : w.CutOff text) (hin : w.isAstray = false)
    (hstart : w.start / n = w.near.epoch) : w.Shows (text ++ w.far.data.toList) := by
  have hhere := isAstray_eq_false.mp hin
  have hlen : (text ++ w.far.data.toList).length = (w.near.epoch + 1) * n + n := by
    rw [List.length_append, h.length_eq, Vector.length_toList]
  have hedge : w.edge = (w.near.epoch + 1) * n + n := by
    rw [edge, hstart, ← Nat.succ_mul]
  have hpos : w.pos < w.edge := by
    refine lt_edge_of_epoch ?_
    rw [hhere, hstart]
    exact w.here_eq_near_or_far.imp (congrArg Slot.epoch) fun heq =>
      (congrArg Slot.epoch heq).trans h.far_epoch
  refine ⟨h.start_le, by omega, ?_, ⟨?_, ?_, fun i hi _ => ?_⟩, hhere.symm, ?_⟩
  · rw [hstart]
    exact h.near.append fun hlt => absurd h.length_eq (Nat.ne_of_lt hlt)
  · rw [hstart]
    exact h.far_epoch
  · rw [hstart, hlen, Nat.add_sub_cancel_left, Nat.min_self]
    exact h.far_full
  · rw [hstart, ← h.length_eq, List.getElem?_append_right (Nat.le_add_right _ _),
      Nat.add_sub_cancel_left]
    simp [hi]
  · rw [h.stop_eq, hlen, hedge, if_neg (Nat.lt_irrefl _)]

/-- **A lexeme that starts in the slot of the start is that of the text**, up to the end of the
text. -/
theorem CutOff.lexeme_eq (h : w.CutOff text) (hin : w.isAstray = false)
    (hstart : w.start / n = w.near.epoch) (hle : w.pos ≤ text.length) :
    w.lexeme = (text.drop w.start).take (w.pos - w.start) := by
  have hstartLe := h.start_le
  rw [(h.shows hin hstart).lexeme_eq, List.drop_append_of_le_length (by omega),
    List.take_append_of_le_length]
  rw [List.length_drop]
  omega

end Window

namespace Input

variable [Source σ]

/-- **A start of a lexeme that fails cuts the window off.** -/
theorem Kept.cutOff {i i' : Input σ n} {failure : ReadFailure} (h : i.Kept text)
    (hmark : Input.mark i = .error failure i') : i'.window.CutOff text := by
  have hw := h.shows
  have hcase := marking_mark i
  rw [hmark] at hcase
  cases hcase with
  | @fails buffer _ source hother hnone hread =>
    have hepoch := hw.epoch_next hother
    have hside : i.window.posSide = i.window.startSide.other := by
      rw [hw.posSide_eq, Window.sideOf, if_neg (by omega)]
    have hlen : text.length = i.window.edge := by
      have hle := h.length_le
      have hstop := hw.stop_eq
      rw [hnone] at hstop
      by_cases hlt : text.length < i.window.edge
      · simp [hlt] at hstop
      · omega
    obtain ⟨hnear, hfar⟩ := i.window.slots_turned_of_far
      (i.window.near.spoiled (i.window.pos / n + 1) buffer) hside
    have hfarEpoch : i.window.far.epoch = i.window.start / n + 1 := hw.far.epoch_eq
    have hfull : i.window.near.fill = n := by
      have hfill : i.window.near.fill = _ := hw.near.fill_eq
      rw [hlen, Window.edge, ← Nat.sub_mul, Nat.add_sub_cancel_left] at hfill
      omega
    constructor
    case stop_eq => exact (Window.turned_stop _ _).trans hnone
    case start_le => simpa using hw.start_le
    case near =>
      rw [hnear, hfarEpoch]
      exact hw.far
    case far_epoch =>
      rw [hnear, hfar, hfarEpoch, ← hepoch]
      rfl
    case far_full =>
      rw [hfar]
      exact hfull
    case length_eq =>
      rw [hnear, hfarEpoch, hlen]
      rfl

/-! ### What is shown -/

variable {i : Input (Logged σ) n}

/-- **An input that shows what was delivered.** -/
structure Serves (i : Input (Logged σ) n) : Prop where
  /-- Before the end the byte at the position was delivered there. -/
  current_eq : i.window.isAtEnd = false →
    i.source.delivered[i.window.pos]? = some i.window.current
  /-- The bytes of the lexeme were delivered between the cursors. -/
  lexeme_eq : i.window.lexeme =
    (i.source.delivered.drop i.window.start).take (i.window.pos - i.window.start)

/-- **A position on the ground of what was delivered**: it is looked up in its own epoch, and the byte
there was delivered, unless the input has ended. -/
def OnGround (i : Input (Logged σ) n) : Prop :=
  i.window.isAstray = false ∧
    (i.window.isAtEnd = true ∨ i.window.pos < i.source.delivered.length)

/-- **An input that shows what was delivered on its ground.** The lexeme has to start in the epoch
that the start's slot stands for. -/
structure ServesOnGround (i : Input (Logged σ) n) : Prop where
  /-- The byte at a position on the ground was delivered there. -/
  current_eq : i.OnGround → i.window.isAtEnd = false →
    i.source.delivered[i.window.pos]? = some i.window.current
  /-- The bytes of a lexeme on the ground were delivered between the cursors. -/
  lexeme_eq : i.window.isAstray = false → i.window.start / n = i.window.near.epoch →
    i.window.pos ≤ i.source.delivered.length →
    i.window.lexeme =
      (i.source.delivered.drop i.window.start).take (i.window.pos - i.window.start)

omit [Source σ] in
theorem Kept.serves (h : i.Kept i.source.delivered) : i.Serves := by
  refine ⟨fun hend => ?_, h.shows.lexeme_eq⟩
  have hpeek : i.window.peek = some i.window.byteHere := by simp [Window.peek, hend]
  rw [← h.shows.peek_eq, Window.current, hpeek]
  rfl

omit [Source σ] in
theorem servesOnGround_of_cutOff (h : i.window.CutOff i.source.delivered) : i.ServesOnGround := by
  constructor
  · rintro ⟨hin, hground⟩ hend
    exact h.current_eq hin (hground.resolve_left (by simp [hend]))
  · exact h.lexeme_eq

omit [Source σ] in
theorem Serves.onGround (h : i.Serves) : i.ServesOnGround :=
  ⟨fun _ => h.current_eq, fun _ _ _ => h.lexeme_eq⟩

/-! ### Any calls -/

/-- **A call that does not fail to start a lexeme keeps an input well kept** over the log. -/
theorem Kept.leave_delivered (h : i.Kept i.source.delivered) {c : Call} (hc : c = .mark → i.Marks) :
    (i.leave c).Kept (i.leave c).source.delivered := by
  obtain ⟨more, hgives, hkept⟩ := h.leave hc
  rw [hgives.delivered_eq]
  exact hkept

/-- **A start of a lexeme that fails cuts the window off from the log**, which does not grow. -/
theorem Kept.cutOff_delivered {i' : Input (Logged σ) n} {failure : ReadFailure}
    (h : i.Kept i.source.delivered) (hmark : Input.mark i = .error failure i') :
    i'.window.CutOff i'.source.delivered := by
  have hcut := h.cutOff hmark
  have hcase := marking_mark i
  rw [hmark] at hcase
  cases hcase with
  | fails _ _ hread =>
    rw [delivered_read hread, Delivery.bytes, List.append_nil]
    exact hcut

/-- **A window that is cut off stays so** if lexemes are started on the ground: the start stays in
its epoch, and the source is not read. -/
theorem cutOff_leave (h : i.window.CutOff i.source.delivered) {c : Call}
    (hc : c = .mark → i.OnGround) : (i.leave c).window.CutOff (i.leave c).source.delivered := by
  by_cases hmark : c = .mark
  · obtain ⟨hin, hground⟩ := hc hmark
    have hend : i.window.isAtEnd = false := by rw [Window.isAtEnd, h.stop_eq]
    obtain ⟨-, hepoch⟩ := h.here_eq hin (hground.resolve_left (by simp [hend]))
    rw [hmark, Input.leave]
    have hcase := marking_mark i
    generalize mark i = result at hcase
    cases hcase with
    | stays _ => exact h.begun
    | ended hother _ => exact absurd hepoch hother
    | filled hother _ _ _ => exact absurd hepoch hother
    | short hother _ _ _ => exact absurd hepoch hother
    | fails hother _ _ => exact absurd hepoch hother
  · obtain ⟨hcut, hsource⟩ := leave_keeps (P := fun w => w.CutOff i.source.delivered)
      (fun _ _ => Window.CutOff.moves) hmark h
    rw [hsource]
    exact hcut

/-- **A call on an input that is well kept or cut off leaves one that is**, if a lexeme is started on
the ground. -/
theorem kept_or_cutOff_leave (c : Call)
    (h : i.Kept i.source.delivered ∨ i.window.CutOff i.source.delivered)
    (hc : c = .mark → i.OnGround) :
    (i.leave c).Kept (i.leave c).source.delivered ∨
      (i.leave c).window.CutOff (i.leave c).source.delivered := by
  rcases h with hkept | hcut
  · by_cases hmarks : c = .mark → i.Marks
    · exact Or.inl (hkept.leave_delivered hmarks)
    · obtain ⟨rfl, hfails⟩ := Classical.not_imp.mp hmarks
      refine Or.inr ?_
      rw [Input.leave]
      cases hmark : mark i with
      | ok _ i' => exact absurd ⟨i', hmark⟩ hfails
      | error failure i' => exact hkept.cutOff_delivered hmark
  · exact Or.inr (cutOff_leave hcut hc)

/-- **What is shown is what was delivered.** If no start of a lexeme has failed, the byte at the
position and the bytes of the lexeme are those of the log. If some have failed, but lexemes were
started on the ground only, this holds on the ground. -/
theorem after_serves {source : σ} {i₀ : Input (Logged σ) n}
    (h : ofSource ({ inner := source } : Logged σ) n = .ok i₀) (calls : List Call) :
    (i₀.MarksWhere Marks calls → (i₀.after calls).Serves) ∧
    (i₀.MarksWhere OnGround calls → (i₀.after calls).ServesOnGround) := by
  have hkept : i₀.Kept i₀.source.delivered := by
    obtain ⟨first, second, source₁, hfirst, hsecond, hkept, -⟩ := kept_ofSource h
    rw [hsecond.delivered_eq, hfirst.delivered_eq, List.nil_append]
    exact hkept
  constructor
  · intro hcalls
    have hafter := hcalls.keeps (Q := fun i => i.Kept i.source.delivered)
      (fun _ _ hi hc => hi.leave_delivered hc) hkept
    exact hafter.serves
  · intro hcalls
    have hafter := hcalls.keeps
      (Q := fun i => i.Kept i.source.delivered ∨ i.window.CutOff i.source.delivered)
      (fun _ c => kept_or_cutOff_leave c) (Or.inl hkept)
    rcases hafter with hkept' | hcut
    · exact hkept'.serves.onGround
    · exact servesOnGround_of_cutOff hcut

/-- The third read fails, a lexeme is started at the second byte nevertheless, and that byte is
shown. -/
theorem after_serves_failedMark :
    ∃ i₀ : Input (Logged Script) 1,
      ofSource { inner := { steps := [.deliver [0x61] none, .deliver [0x62] none,
        .fail .interrupted] } } 1 = .ok i₀ ∧
      (i₀.after [.advance 1]).Serves ∧
      (i₀.after [.advance 1, .mark, .mark]).ServesOnGround ∧
      (i₀.after [.advance 1, .mark, .mark]).window.current = 0x62 := by
  obtain ⟨i₀, hof, hmarks, hground, hcurrent⟩ : ∃ i₀ : Input (Logged Script) 1,
      ofSource { inner := { steps := [.deliver [0x61] none, .deliver [0x62] none,
        .fail .interrupted] } } 1 = .ok i₀ ∧
      i₀.MarksWhere Marks [.advance 1] ∧
      i₀.MarksWhere OnGround [.advance 1, .mark, .mark] ∧
      (i₀.after [.advance 1, .mark, .mark]).window.current = 0x62 :=
    ⟨_, rfl, ⟨nofun, trivial⟩, ⟨nofun, fun _ => ⟨rfl, Or.inr (by decide)⟩,
      fun _ => ⟨rfl, Or.inr (by decide)⟩, trivial⟩, rfl⟩
  exact ⟨i₀, hof, (after_serves hof _).1 hmarks, (after_serves hof _).2 hground, hcurrent⟩

/-- **Older bytes are shown in the place of others after a read that has failed.** The lexeme from the
first byte to the second is looked up in the slot of the second. And a second try to start it at the
second byte succeeds, so that the position can go on to a third byte, which nobody has delivered:
the first is shown there. -/
theorem recycled_bytes :
    ∃ i₀ : Input (Logged Script) 1,
      ofSource { inner := { steps := [.deliver [0x61] none, .deliver [0x62] none,
        .fail .interrupted] } } 1 = .ok i₀ ∧
      (∃ i : Input (Logged Script) 1, i₀.after [.advance 1, .mark] = i ∧
        i.source.delivered = [0x61, 0x62] ∧ i.window.start = 0 ∧ i.window.pos = 1 ∧
        i.window.lexeme = [0x62]) ∧
      (∃ i : Input (Logged Script) 1, i₀.after [.advance 1, .mark, .mark, .advance 1] = i ∧
        i.source.delivered = [0x61, 0x62] ∧ i.window.isAtEnd = false ∧ i.window.pos = 2 ∧
        i.window.current = 0x61) :=
  ⟨_, rfl, ⟨_, rfl, rfl, rfl, rfl, rfl⟩, ⟨_, rfl, rfl, rfl, rfl, rfl⟩⟩

end Input

end XPathScan
