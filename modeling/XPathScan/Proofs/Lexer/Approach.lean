import XPathScan.Proofs.Lexer.Positions
import XPathScan.Proofs.Plain.Leads

/-!
# The next token by the text from its start on

Where the next token of a lexer starts is settled by the blanks and comments before it: a lexer
*approaches* an offset (`XPathScan.Lexer.Approaches`) if nothing else lies between its position and
that offset. What the call then gives is the reading of the text from there on, unless the window is
too small. The token has its lexeme and its span from the text, and an error its exact position.

* `XPathScan.Lexer.exists_exact` – over a faithful source a lexer is at an exact point of the text,
  whatever calls have been made;
* `XPathScan.Lexer.Exact.gives_of_read` – a token that is read at the offset is given;
* `XPathScan.Lexer.Exact.rejects_of_read` – a malformation that is read there is reported.
-/

namespace XPathScan.Lexer

variable {σ : Type} [Source σ] {n : Nat} {text : List UInt8} {classes : ByteClass}
  {version : Version} {l : Lexer σ n} {p : Nat}

/-- **A lexer whose next token starts at an offset**, if a token starts there: calls are still
answered, and what lies before the offset is stepped over. Any gap is, if no comment in it is nested
2³² deep (`XPathScan.IsGap.exists_crossed`). -/
structure Approaches (text : List UInt8) (classes : ByteClass) (version : Version) (l : Lexer σ n)
    (p : Nat) : Prop where
  /-- No call has failed. -/
  phase_ne : l.phase ≠ .failed
  /-- The offset is not behind the lexer. -/
  position_le : l.position.offset ≤ p
  /-- It is in the text. -/
  le_length : p ≤ text.length
  /-- Blanks and what is taken for comments lie before it. -/
  crossed : ∃ parts,
    Crossed classes version (Span.slice { start := l.position.offset, stop := p } text) parts

/-- **The next token has the given bytes**, which start at the offset, and the given kind. -/
def GivesAt (l : Lexer σ n) (p : Nat) (kind : Kind) (lexeme : List UInt8) : Prop :=
  ∃ t l', l.next = .ok t l' ∧ t.kind = kind ∧ t.lexeme = lexeme ∧
    t.span = { start := p, stop := p + lexeme.length }

/-- **The next call reports a malformation** at the offset. -/
def RejectsAt (text : List UInt8) (l : Lexer σ n) (p : Nat) (m : Malformation) : Prop :=
  ∃ l', l.next = .error (.malformed m (positionAt text p)) l'

/-- A call that gives a token reports nothing. -/
theorem GivesAt.not_rejectsAt {kind : Kind} {lexeme : List UInt8} (h : l.GivesAt p kind lexeme)
    (m : Malformation) : ¬l.RejectsAt text p m := by
  rintro ⟨l'', herror⟩
  obtain ⟨t, l', hok, -⟩ := h
  simp [hok] at herror

/-- **Over a faithful source a lexer is at an exact point of the text**, or has failed, whatever
calls have been made. -/
theorem exists_exact {source : σ} (hsource : Source.Faithful source text) (hn : 0 < n)
    (version : Version) (classes : ByteClass) :
    ∃ l₀ : Lexer σ n, ofSource source { bufferSize := n, version } classes = .ok l₀ ∧
      ∀ calls, (l₀.after calls).Exact text classes version := by
  obtain ⟨l₀, hof, hfollows, -⟩ := follows_ofSource hsource hn version classes
  have hexact : l₀.Exact text classes version := Or.inr ⟨{}, hfollows, Point.exact_start text⟩
  exact ⟨l₀, hof, fun calls =>
    keeps_after (fun _ => Exact.next) (fun _ t h => h.release t) calls hexact⟩

/-- **A lexer at the beginning of a text approaches it**, and a window that holds the text and more
is large enough. -/
theorem approaches_start {source : σ} (hsource : Source.Faithful source text) (hn : 0 < n)
    (hof : ofSource source { bufferSize := n, version } classes = .ok l)
    (hlen : text.length < 2 * n) :
    l.Approaches text classes version 0 ∧ ¬Overflows (l.answer 0) := by
  obtain ⟨l₀, hof₀, hfollows, hactive⟩ := follows_ofSource hsource hn version classes
  obtain rfl : l₀ = l := Except.ok.inj (hof₀.symm.trans hof)
  have hphase : l₀.phase ≠ .failed := by simp [hactive]
  have hoffset : l₀.position.offset = 0 := hfollows.stands.start_eq
  refine ⟨⟨hphase, Nat.le_of_eq hoffset, Nat.zero_le _, ?_⟩,
    hfollows.not_overflows_of_length_lt hphase hlen 0⟩
  rw [hoffset]
  exact ⟨[], .nil⟩

/-- A window that the next call does not overflow is large enough for what lies ahead. -/
theorem Follows.fits_of_not_overflows {s : Plain} {q : Point} (h : l.Follows s q)
    (hphase : l.phase ≠ .failed) (hsmall : ¬Overflows (l.answer 0)) :
    (s.look q).Fits n s.text := by
  refine Classical.byContradiction fun hfits => ?_
  obtain ⟨l', hnext⟩ := h.next_overflow hphase hfits
  exact hsmall ⟨_, by rw [answer, hnext]⟩

/-- **What lies ahead of a lexer that approaches an offset** is the reading of the text there. -/
theorem Exact.look_of_approaches (h : l.Exact text classes version)
    (hto : l.Approaches text classes version p) (hfree : GapFree classes version (text.drop p)) :
    ∃ q start trivia, l.Follows (.of text classes version) q ∧
      start.offset = p ∧ start.position = positionAt text p ∧
      ((Plain.of text classes version).look q).found =
        (Plain.of text classes version).readToken start trivia
          (Reading.token (.ofVersion version) classes (text.drop p)).found := by
  obtain ⟨q, hfollows, hq⟩ := h.resolve_left hto.phase_ne
  have hoffset : l.position.offset = q.offset := hfollows.stands.start_eq
  have hle : q.offset ≤ p := hoffset ▸ hto.position_le
  have hlength := length_slice (i := q.offset) hto.le_length
  obtain ⟨parts, hparts⟩ := hto.crossed
  rw [hoffset] at hparts
  have hfound := Plain.look_of_crossed hparts (p := q) (slice_append_drop hle text).symm hfree
  rw [hlength] at hfound
  have hstart : q.offset + (p - q.offset) = p := Nat.add_sub_cancel' hle
  have hexact := hq.pastGap (k := p - q.offset) (by rw [hstart]; exact hto.le_length)
  refine ⟨q, _, gapFlags parts, hfollows, hstart, ?_, hfound⟩
  rw [hexact.position_eq]
  exact congrArg (positionAt text) hstart

/-- **A token that is read at the offset is given.** -/
theorem Exact.gives_of_read (h : l.Exact text classes version)
    (hto : l.Approaches text classes version p)
    (hsmall : ¬Overflows (l.answer 0)) (hfree : GapFree classes version (text.drop p)) {kind : Kind}
    {lexeme rest : List UInt8} (htext : text.drop p = lexeme ++ rest)
    (hread : (Reading.token (.ofVersion version) classes (text.drop p)).found =
      .ok (kind, lexeme.length)) : l.GivesAt p kind lexeme := by
  obtain ⟨q, start, trivia, hfollows, hoffset, -, hfound⟩ := h.look_of_approaches hto hfree
  rw [hread] at hfound
  have hfits := hfollows.fits_of_not_overflows hto.phase_ne hsmall
  obtain ⟨l', hnext, -⟩ := hfollows.next_token hto.phase_ne hfits hfound
  refine ⟨_, l', hnext, rfl, ?_, ?_⟩
  · show (text.drop start.offset).take lexeme.length = lexeme
    rw [hoffset, htext, List.take_left]
  · simp only [Plain.tokenAt, hoffset]

/-- **A malformation that is read at the offset is reported.** -/
theorem Exact.rejects_of_read (h : l.Exact text classes version)
    (hto : l.Approaches text classes version p)
    (hsmall : ¬Overflows (l.answer 0)) (hfree : GapFree classes version (text.drop p))
    {m : Malformation}
    (hread : (Reading.token (.ofVersion version) classes (text.drop p)).found = .error m) :
    l.RejectsAt text p m := by
  obtain ⟨q, start, trivia, hfollows, -, hposition, hfound⟩ := h.look_of_approaches hto hfree
  rw [hread, Plain.readToken, hposition] at hfound
  exact hfollows.next_error hto.phase_ne
    (hfollows.fits_of_not_overflows hto.phase_ne hsmall) hfound

end XPathScan.Lexer
