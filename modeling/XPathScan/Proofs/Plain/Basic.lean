import XPathScan.Lexer
import XPathScan.Proofs.Reading.Token
import XPathScan.Proofs.Trivia.Walk

/-!
# Lexing a plain text

What a lexer has to find, without window, buffers and source: a *plain* lexer has the whole text
before it and a point in it. It looks ahead over blanks and comments and at the token behind them
(`XPathScan.Plain.look`). What it sees is a token and the point behind it, or an error, together
with where that starts and how far from there one has to look. The last two do not matter to the
plain lexer itself. They say which windows will do (`XPathScan.Forecast.Fits`).

* `XPathScan.Plain.answer` – what the calls of a plain lexer give, one after the other;
* `XPathScan.Plain.Emits` – the tokens up to the end of the text, if all goes well;
* `XPathScan.Plain.sees_of_found` – a token that is seen lies ahead, and in the text.
-/

namespace XPathScan

/-- **A plain lexer**: a text, and how it is to be read. -/
structure Plain where
  /-- The whole text. -/
  text : List UInt8
  /-- The byte classes. -/
  classes : ByteClass
  /-- The language. -/
  dialect : Dialect

/-- A plain lexer for a version of the language. -/
abbrev Plain.of (text : List UInt8) (classes : ByteClass) (version : Version) : Plain :=
  { text, classes, dialect := .ofVersion version }

/-- **What lies ahead of a point.** -/
structure Forecast where
  /-- Where the token starts, or the comment that is not closed. -/
  start : Point
  /-- How far from there one has to look. -/
  reach : Nat
  /-- The token and the point behind it, or an error. -/
  found : Except LexError (Token × Point)

/-- **A window of two buffers that is large enough**: it holds what one has to look at, or else the
whole rest of the text and the knowledge that it ends there. -/
def Forecast.Fits (f : Forecast) (n : Nat) (text : List UInt8) : Prop :=
  text.length < (f.start.offset / n + 2) * n ∨
    f.start.offset + f.reach < (f.start.offset / n + 2) * n

/-- **A reach of one buffer always fits**: the token may start at the end of one buffer, but then
the other one is still to come. -/
theorem Forecast.fits_of_reach_le {f : Forecast} {n : Nat} (hn : 0 < n) (h : f.reach ≤ n)
    (text : List UInt8) : f.Fits n text := by
  have hlt : f.start.offset < (f.start.offset / n + 1) * n :=
    (Nat.div_lt_iff_lt_mul hn).mp (Nat.lt_succ_self _)
  refine Or.inr ?_
  rw [show f.start.offset / n + 2 = f.start.offset / n + 1 + 1 from rfl,
    Nat.succ_mul (f.start.offset / n + 1)]
  omega

/-- A window that has all of the text and more is large enough for anything. -/
theorem Forecast.fits_of_length_lt {n : Nat} {text : List UInt8} (h : text.length < 2 * n)
    (f : Forecast) : f.Fits n text :=
  Or.inl (Nat.lt_of_lt_of_le h (Nat.mul_le_mul_right n (Nat.le_add_left 2 _)))

/-- The flags of a token that starts at a point, behind trivia with the given flags. -/
def Point.tokenFlags (p : Point) (trivia : Flags) : Flags :=
  let lineStart := if p.place.lineHasToken then Flags.none else .lineStart
  let apart := Flags.spaceBefore ||| .newlineBefore ||| .commentBefore
  let adjacent := if 0 < p.offset && !trivia.meets apart then Flags.adjacent else .none
  trivia ||| lineStart ||| adjacent

namespace Plain

/-- The token of the given kind and length at a point, behind trivia with the given flags. -/
def tokenAt (s : Plain) (start : Point) (trivia : Flags) (kind : Kind) (length : Nat) : Token where
  kind
  lexeme := (s.text.drop start.offset).take length
  span := { start := start.offset, stop := start.offset + length }
  line := start.place.line
  column := start.place.column
  flags := start.tokenFlags trivia

/-- What is found of a token by the reading of the text from its start on. -/
def readToken (s : Plain) (start : Point) (trivia : Flags) :
    Except Malformation (Kind × Nat) → Except LexError (Token × Point)
  | .error m => .error (.malformed m start.position)
  | .ok (kind, length) =>
    .ok (s.tokenAt start trivia kind length, start.pastToken s.text length)

/-- A token that is found has been read. -/
theorem readToken_eq_ok {s : Plain} {start q : Point} {trivia : Flags} {t : Token}
    {r : Except Malformation (Kind × Nat)} (h : s.readToken start trivia r = .ok (t, q)) :
    ∃ kind length, r = .ok (kind, length) ∧ t = s.tokenAt start trivia kind length ∧
      q = start.pastToken s.text length := by
  rcases r with m | ⟨kind, length⟩
  · cases h
  · obtain ⟨rfl, rfl⟩ := Prod.mk.inj (Except.ok.inj h)
    exact ⟨kind, length, rfl, rfl, rfl⟩

/-- An error that is found is one of reading. -/
theorem readToken_eq_error {s : Plain} {start : Point} {trivia : Flags} {e : LexError}
    {r : Except Malformation (Kind × Nat)} (h : s.readToken start trivia r = .error e) :
    ∃ m, r = .error m ∧ e = .malformed m start.position := by
  rcases r with m | ⟨kind, length⟩
  · exact ⟨m, rfl, (Except.error.inj h).symm⟩
  · cases h

/-- **Look ahead from a point**, over blanks and comments and at the token behind them. -/
def look (s : Plain) (p : Point) : Forecast :=
  match Trivia.extent s.classes s.dialect.version .none (s.text.drop p.offset) with
  | .error k =>
    let start := p.pastGap s.text k
    { start, reach := 0, found := .error (.malformed .unterminatedComment start.position) }
  | .ok (trivia, k) =>
    let start := p.pastGap s.text k
    let reading := Reading.token s.dialect s.classes (s.text.drop start.offset)
    { start, reach := reading.reach, found := s.readToken start trivia reading.found }

/-- **What the calls of a plain lexer give**, counted from a point on. After an error there is
nothing but the report of it. -/
def answer (s : Plain) (p : Point) : Nat → Except LexError Token
  | 0 => (s.look p).found.map (·.1)
  | i + 1 =>
    match (s.look p).found with
    | .error _ => .error .poisoned
    | .ok (_, q) => s.answer q i

/-- **The tokens from a point on up to the end of the text**, and the token that marks the end. -/
inductive Emits (s : Plain) : Point → List Token → Token → Prop
  /-- The next token is the end. -/
  | eof {p q : Point} {e : Token} : (s.look p).found = .ok (e, q) → e.isEof = true → Emits s p [] e
  /-- The next token comes before the others. -/
  | token {p q : Point} {t e : Token} {ts : List Token} : (s.look p).found = .ok (t, q) →
      t.isEof = false → Emits s q ts e → Emits s p (t :: ts) e

/-- **The point that a number of tokens leads to.** -/
inductive Reaches (s : Plain) : Point → Nat → Point → Prop
  /-- No token leads nowhere. -/
  | zero {p : Point} : Reaches s p 0 p
  /-- A token leads to the point behind it, and the others on from there. -/
  | succ {p q r : Point} {t : Token} {i : Nat} : (s.look p).found = .ok (t, q) →
      Reaches s q i r → Reaches s p (i + 1) r

/-- **What a call gives is what lies ahead of the point that the calls before it lead to.** -/
theorem Reaches.answer_eq {s : Plain} {p q : Point} {i : Nat} (h : s.Reaches p i q) :
    s.answer p i = (s.look q).found.map (·.1) := by
  induction h with
  | zero => rfl
  | succ hfound _ ih =>
    rw [answer, hfound]
    exact ih

end Plain

/-! ### What is seen lies ahead and in the text -/

/-- **Every text can be looked at through a window** that is large enough. -/
theorem exists_standsAt (text : List UInt8) :
    ∃ c : Cursor Memory (text.length + 1), c.StandsAt text {} := by
  obtain ⟨i, -, hshows, hstart, hpos⟩ :=
    Input.ofSource_eq (Memory.faithful text) (Nat.succ_pos text.length)
  exact ⟨{ input := i }, hshows, hstart, hpos, rfl⟩

/-- Blanks and comments at the beginning of a text are in it. -/
theorem Trivia.extent_le {classes : ByteClass} {version : Version} {flags trivia : Flags} {k : Nat}
    {t : List UInt8} (h : extent classes version flags t = .ok (trivia, k)) : k ≤ t.length := by
  obtain ⟨c, hc⟩ := exists_standsAt t
  obtain ⟨c', -, hc'⟩ := (passes_skip hc classes version flags).passed trivia k h
  simpa using hc'.offset_le

/-- A cursor that stands at a point faces the text from there on. -/
theorem Cursor.StandsAt.faces {σ : Type} [Source σ] {n : Nat} {c : Cursor σ n} {text : List UInt8}
    {point : Point} (h : c.StandsAt text point) :
    c.input.window.Faces text [] (text.drop point.offset) := by
  refine ⟨h.shows.window, ?_, ?_⟩
  · rw [h.shows.window.lexeme_eq, h.start_eq, h.pos_eq, Nat.sub_self, List.take_zero]
  · rw [h.pos_eq]

/-- A token at the beginning of a text is in it, and in what one has to look at. -/
theorem Reading.token_le {d : Dialect} {c : ByteClass} {t : List UInt8} {kind : Kind} {k : Nat}
    (h : (token d c t).found = .ok (kind, k)) : k ≤ (token d c t).reach ∧ k ≤ t.length := by
  obtain ⟨cursor, hcursor⟩ := exists_standsAt t
  have hobeys := Scan.obeys_token d c t _ hcursor.faces
  have hedge : t.length < cursor.input.window.edge := by
    rw [Window.edge, hcursor.start_eq, Nat.zero_div]
    omega
  exact (hobeys.found (Or.inl hedge) kind k h).2

namespace Plain

variable {s : Plain} {p : Point}

/-- **What lies ahead of a point, if it is a token.** -/
structure Sees (s : Plain) (p : Point) (token : Token) (q : Point) : Prop where
  /-- The token does not start before the point. -/
  le_start : p.offset ≤ token.span.start
  /-- The forecast says where it starts. -/
  start_eq : (s.look p).start.offset = token.span.start
  /-- What stands before it is stepped over. -/
  gap : ∃ trivia, Trivia.extent s.classes s.dialect.version .none (s.text.drop p.offset) =
    .ok (trivia, token.span.start - p.offset)
  /-- It is read off the text from its start on. -/
  read : (Reading.token s.dialect s.classes (s.text.drop token.span.start)).found =
    .ok (token.kind, token.span.stop - token.span.start)
  /-- The forecast says how far one has to look for it. -/
  reach_eq : (s.look p).reach =
    (Reading.token s.dialect s.classes (s.text.drop token.span.start)).reach
  /-- Its ends are in order. -/
  start_le : token.span.start ≤ token.span.stop
  /-- It lies in the text. -/
  stop_le : token.span.stop ≤ s.text.length
  /-- It lies in what one has to look at. -/
  stop_le_reach : token.span.stop ≤ token.span.start + (s.look p).reach
  /-- Its lexeme is the text between its ends. -/
  lexeme_eq : token.lexeme =
    (s.text.drop token.span.start).take (token.span.stop - token.span.start)
  /-- The point behind it is where it ends. -/
  offset_eq : q.offset = token.span.stop

/-- A comment that is not closed is all that is seen. -/
theorem look_of_unclosed {k : Nat}
    (h : Trivia.extent s.classes s.dialect.version .none (s.text.drop p.offset) = .error k) :
    s.look p =
      { start := p.pastGap s.text k
        reach := 0
        found := .error (.malformed .unterminatedComment (p.pastGap s.text k).position) } := by
  rw [look, h]

/-- Behind blanks and comments the text is read. -/
theorem look_of_extent {trivia : Flags} {k : Nat}
    (h : Trivia.extent s.classes s.dialect.version .none (s.text.drop p.offset) = .ok (trivia, k)) :
    s.look p =
      { start := p.pastGap s.text k
        reach := (Reading.token s.dialect s.classes (s.text.drop (p.offset + k))).reach
        found := s.readToken (p.pastGap s.text k) trivia
          (Reading.token s.dialect s.classes (s.text.drop (p.offset + k))).found } := by
  rw [look, h]
  rfl

/-- **An error that is seen is a malformation**, and is reported where it starts. -/
theorem malformed_of_found {e : LexError} (h : (s.look p).found = .error e) :
    ∃ m, e = .malformed m (s.look p).start.position := by
  rcases hextent : Trivia.extent s.classes s.dialect.version .none (s.text.drop p.offset)
    with k | ⟨trivia, k⟩
  · rw [look_of_unclosed hextent] at h ⊢
    exact ⟨_, (Except.error.inj h).symm⟩
  · rw [look_of_extent hextent] at h ⊢
    obtain ⟨m, -, rfl⟩ := readToken_eq_error h
    exact ⟨m, rfl⟩

/-- **A token that is seen has been read behind a gap.** -/
theorem found_inv {token : Token} {q : Point} (h : (s.look p).found = .ok (token, q)) :
    ∃ trivia k kind len,
      Trivia.extent s.classes s.dialect.version .none (s.text.drop p.offset) = .ok (trivia, k) ∧
      (Reading.token s.dialect s.classes (s.text.drop (p.offset + k))).found = .ok (kind, len) ∧
      token = s.tokenAt (p.pastGap s.text k) trivia kind len ∧
      q = (p.pastGap s.text k).pastToken s.text len := by
  rcases hextent : Trivia.extent s.classes s.dialect.version .none (s.text.drop p.offset)
    with k | ⟨trivia, k⟩
  · rw [look_of_unclosed hextent] at h
    cases h
  · rw [look_of_extent hextent] at h
    obtain ⟨kind, len, hread, htoken, hq⟩ := readToken_eq_ok h
    exact ⟨trivia, k, kind, len, rfl, hread, htoken, hq⟩

/-- **A token that is seen lies ahead and in the text.** -/
theorem sees_of_found (hp : p.offset ≤ s.text.length) {token : Token} {q : Point}
    (h : (s.look p).found = .ok (token, q)) : s.Sees p token q := by
  obtain ⟨trivia, k, kind, len, hextent, hread, rfl, rfl⟩ := found_inv h
  have hlook := look_of_extent hextent
  -- Neither the gap nor the token goes beyond the end of the text.
  have hk := Trivia.extent_le hextent
  obtain ⟨hreach, hlen⟩ := Reading.token_le hread
  rw [List.length_drop] at hk hlen
  have hgap : p.offset + k - p.offset = k := Nat.add_sub_cancel_left _ _
  have hspan : p.offset + k + len - (p.offset + k) = len := Nat.add_sub_cancel_left _ _
  constructor
  case le_start => exact Nat.le_add_right _ _
  case start_eq => rw [hlook]; rfl
  case gap => exact ⟨trivia, by simpa only [tokenAt, Point.pastGap_offset, hgap] using hextent⟩
  case read => simpa only [tokenAt, Point.pastGap_offset, hspan] using hread
  case reach_eq => rw [hlook]; rfl
  case start_le => exact Nat.le_add_right _ _
  case stop_le =>
    show p.offset + k + len ≤ s.text.length
    omega
  case stop_le_reach =>
    rw [hlook]
    exact Nat.add_le_add_left hreach _
  case lexeme_eq => simp only [tokenAt, Point.pastGap_offset, hspan]
  case offset_eq => rfl

end Plain

end XPathScan
