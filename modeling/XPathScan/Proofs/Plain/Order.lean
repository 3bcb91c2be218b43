import XPathScan.Proofs.Plain.Basic
import XPathScan.Proofs.Reading.Bounds
import XPathScan.Proofs.Trivia.Gap

/-!
# The order of the tokens of a text

A plain lexer only moves forward: what a call sees lies behind what the calls before it have seen
(`XPathScan.Plain.Reaches.offset_le`). With the byte classes of XML and the reserved words of a
version more can be said. A token other than the end takes a byte, so two tokens do not start at
the same offset unless that is the end of the text; blanks and comments stand before it; and a
window for which it is too far away is one that it does not fit into either
(`XPathScan.Plain.Sees.le_length_of_not_fits`).
-/

namespace XPathScan

variable {version : Version} {text : List UInt8}

/-- The bytes of a text in a span. -/
def Span.slice (s : Span) (text : List UInt8) : List UInt8 :=
  (text.drop s.start).take (s.stop - s.start)

/-- A span in a text has as many bytes as lie between its ends. -/
theorem length_slice {i j : Nat} (h : j ≤ text.length) :
    (Span.slice { start := i, stop := j } text).length = j - i := by
  simp only [Span.slice, List.length_take, List.length_drop]
  omega

/-- The bytes of a span, and those behind it. -/
theorem slice_append_drop {i j : Nat} (h : i ≤ j) (text : List UInt8) :
    Span.slice { start := i, stop := j } text ++ text.drop j = text.drop i := by
  have hdrop : text.drop j = (text.drop i).drop (j - i) := by
    rw [List.drop_drop, Nat.add_sub_cancel' h]
  rw [hdrop]
  exact List.take_append_drop _ _

/-- A part of a shallow text is shallow. -/
theorem Shallow.slice (h : Shallow text) (s : Span) : Shallow (s.slice text) := by
  have hdrop := h.of_suffix (List.drop_suffix s.start text)
  rw [← List.take_append_drop (s.stop - s.start) (text.drop s.start)] at hdrop
  exact hdrop.of_append

namespace Plain

variable {s : Plain} {p q r : Point} {t : Token} {i j : Nat}

/-! ### Moving forward -/

/-- **Calls move forward, and stay in the text.** -/
theorem Reaches.offset_le (h : s.Reaches p i q) (hp : p.offset ≤ s.text.length) :
    p.offset ≤ q.offset ∧ q.offset ≤ s.text.length := by
  induction h with
  | zero => exact ⟨Nat.le_refl _, hp⟩
  | succ hfound _ ih =>
    have hsees := sees_of_found hp hfound
    have hq := hsees.offset_eq
    have hstart := hsees.le_start
    have hstop := hsees.start_le
    have := ih (hq ▸ hsees.stop_le)
    omega

/-- The calls that are left after some of them lead on from where those lead. -/
theorem Reaches.of_le (h : s.Reaches p i q) (h' : s.Reaches p j r) (hle : i ≤ j) :
    s.Reaches q (j - i) r := by
  induction h generalizing j with
  | zero => exact h'
  | succ hfound _ ih =>
    cases h' with
    | zero => omega
    | succ hfound' hrest =>
      obtain ⟨rfl, rfl⟩ : _ ∧ _ := by simpa [hfound] using hfound'
      rw [Nat.add_sub_add_right]
      exact ih hrest (Nat.le_of_succ_le_succ hle)

/-- The last of some calls. -/
theorem Reaches.last (h : s.Reaches p (i + 1) r) :
    ∃ q t, s.Reaches p i q ∧ (s.look q).found = .ok (t, r) := by
  induction i generalizing p with
  | zero =>
    rcases h with _ | ⟨hfound, _ | _⟩
    exact ⟨p, _, .zero, hfound⟩
  | succ i ih =>
    rcases h with _ | ⟨hfound, hrest⟩
    obtain ⟨q, t, hreach, hlast⟩ := ih hrest
    exact ⟨q, t, .succ hfound hreach, hlast⟩

/-- A token that a call gives lies ahead of the point that the calls before it lead to. -/
theorem reaches_of_answer (h : s.answer p i = .ok t) :
    ∃ q r, s.Reaches p i q ∧ (s.look q).found = .ok (t, r) := by
  induction i generalizing p with
  | zero =>
    rcases hfound : (s.look p).found with e | ⟨t', r⟩
    · simp [answer, hfound, Except.map] at h
    · obtain rfl : t' = t := by simpa [answer, hfound, Except.map] using h
      exact ⟨p, r, .zero, hfound⟩
  | succ i ih =>
    rcases hfound : (s.look p).found with e | ⟨t', q⟩
    · simp [answer, hfound] at h
    · rw [answer, hfound] at h
      obtain ⟨q', r, hreach, hlast⟩ := ih h
      exact ⟨q', r, .succ hfound hreach, hlast⟩

/-- **The end is that of the text, and any other token takes a byte**, if what is read of a text
that is not empty takes a byte and is not the end. -/
theorem Sees.isEof_iff_of_takes (h : s.Sees p t q)
    (htakes : s.text.drop t.span.start ≠ [] →
      0 < t.span.stop - t.span.start ∧ t.kind ≠ .eof) :
    (t.isEof = true → t.span.start = s.text.length ∧ t.span.stop = s.text.length) ∧
      (t.isEof = false → t.span.start < t.span.stop) := by
  have hread := h.read
  have hstart := h.start_le
  have hstop := h.stop_le
  -- The end of the input is read where nothing is left, and only there.
  by_cases hnil : s.text.drop t.span.start = []
  · have hlen := List.drop_eq_nil_iff.mp hnil
    refine ⟨fun _ => by omega, fun heof => ?_⟩
    simp only [hnil, Reading.token, Reading.step, Except.ok.injEq, Prod.mk.injEq] at hread
    simp [Token.isEof, ← hread.1] at heof
  · obtain ⟨hpos, hkind⟩ := htakes hnil
    refine ⟨fun heof => absurd ?_ hkind, fun _ => by omega⟩
    simpa [Token.isEof] using heof

/-- **What stands before a token that is seen** has been stepped over. -/
theorem Sees.exists_crossed {classes : ByteClass}
    (h : (Plain.of text classes version).Sees p t q) :
    ∃ parts, Crossed classes version
      (Span.slice { start := p.offset, stop := t.span.start } text) parts := by
  obtain ⟨trivia, hgap⟩ := h.gap
  have hcrossed := Trivia.exists_crossed_take_extent classes version .none (text.drop p.offset)
  rwa [show Trivia.extent classes version .none (text.drop p.offset) = _ from hgap] at hcrossed

/-! ### XML names and the words of a version -/

/-- **A token other than the end takes a byte, and the end is that of the text.** -/
theorem Sees.isEof_iff {p q : Point} {t : Token}
    (h : (Plain.of text .xml version).Sees p t q) :
    (t.isEof = true → t.span.start = text.length ∧ t.span.stop = text.length) ∧
      (t.isEof = false → t.span.start < t.span.stop) := by
  refine h.isEof_iff_of_takes fun hnil => ?_
  obtain ⟨hpos, hkind, -⟩ := Reading.gives_token version hnil h.read
  exact ⟨hpos, hkind⟩

/-- One has to look at most one byte further than a token that is seen. -/
theorem Sees.reach_le (h : (Plain.of text .xml version).Sees p t q) :
    ((Plain.of text .xml version).look p).reach ≤ t.lexeme.length + 1 := by
  have hread := h.read
  have hstop : t.span.stop ≤ text.length := h.stop_le
  have hlexeme : t.lexeme = (text.drop t.span.start).take (t.span.stop - t.span.start) :=
    h.lexeme_eq
  have hlen : t.lexeme.length = t.span.stop - t.span.start := by
    rw [hlexeme, List.length_take, List.length_drop]
    omega
  rw [h.reach_eq, hlen]
  by_cases hnil : text.drop t.span.start = []
  · simp [hnil, Reading.token, Reading.step]
  · exact (Reading.gives_token version hnil hread).2.2

/-- **A token that a window is too small for is at least as long as a buffer.** -/
theorem Sees.le_length_of_not_fits {n : Nat}
    (h : (Plain.of text .xml version).Sees p t q) (hn : 0 < n)
    (hfits : ¬((Plain.of text .xml version).look p).Fits n text) :
    n ≤ t.lexeme.length := by
  have hreach := h.reach_le
  have hfar := mt (fun hle => Forecast.fits_of_reach_le hn hle text) hfits
  omega

end Plain

end XPathScan
