import XPathScan.Proofs.Lexer.Calls
import XPathScan.Proofs.Plain.Order
import XPathScan.Proofs.Scan.Verdict
import XPathScan.Proofs.Trivia.Gap

/-!
# Lines and columns

A lexer keeps count of lines and columns as it goes: byte by byte over blanks and comments, and over
the lexeme of a token at once. What it should come to can be read off the text. The line of an offset
is one more than the number of line feeds before it, and the column is counted from the offset behind
the last of them (`XPathScan.positionAt`).

Both ways to go forward change line and column as one byte after the other does, so a point that is
exact leads to points that are exact (`XPathScan.Point.Exact`). The position of an error is that of
the point where the gap ends: the lexeme that cannot be read starts there, or the outermost comment
that is not closed (`XPathScan.Offends`).

* `XPathScan.Place.past_eq_foldl` – bytes at once lead where one byte after the other does;
* `XPathScan.Plain.exact_of_found` – a token that is seen starts and ends at exact points;
* `XPathScan.Plain.offends_of_found` – an error that is seen is reported where it starts;
* `XPathScan.Lexer.after_positioned` – the same of every answer of a lexer over a faithful source.
-/

namespace XPathScan

variable {text : List UInt8}

/-! ### Positions in a text -/

/-- **The line of an offset**: one more than the number of line feeds before it. -/
def lineAt (text : List UInt8) (p : Nat) : Nat := 1 + (text.take p).count Ascii.lineFeed

/-- The offset behind the last line feed before an offset, and the beginning of the text if there is
none: of the bytes before the offset, those up to the last line feed are left. -/
def lineStart (text : List UInt8) (p : Nat) : Nat :=
  ((text.take p).reverse.dropWhile (· != Ascii.lineFeed)).length

/-- **The column of an offset**, counted from one behind the last line feed. -/
def columnAt (text : List UInt8) (p : Nat) : Nat := p - lineStart text p + 1

/-- **The position of an offset.** -/
def positionAt (text : List UInt8) (p : Nat) : Position where
  offset := p
  line := lineAt text p
  column := columnAt text p

/-- One more byte before an offset. -/
theorem take_succ_eq {p : Nat} {b : UInt8} (h : text[p]? = some b) :
    text.take (p + 1) = text.take p ++ [b] := by
  rw [List.take_add_one, h]
  rfl

theorem lineAt_succ {p : Nat} {b : UInt8} (h : text[p]? = some b) :
    lineAt text (p + 1) = if b = Ascii.lineFeed then lineAt text p + 1 else lineAt text p := by
  rw [lineAt, lineAt, take_succ_eq h, List.count_append]
  split
  · next hb => simp [hb, Nat.add_assoc]
  · next hb => simp [hb]

theorem lineStart_le (text : List UInt8) (p : Nat) : lineStart text p ≤ p := by
  have hsuffix := (List.dropWhile_suffix (· != Ascii.lineFeed) (l := (text.take p).reverse)).length_le
  have htake : (text.take p).length ≤ p := List.length_take_le _ _
  rw [List.length_reverse] at hsuffix
  exact Nat.le_trans hsuffix htake

theorem lineStart_succ {p : Nat} {b : UInt8} (h : text[p]? = some b) :
    lineStart text (p + 1) = if b = Ascii.lineFeed then p + 1 else lineStart text p := by
  have hlt : p < text.length := (List.getElem?_eq_some_iff.mp h).1
  rw [lineStart, lineStart, take_succ_eq h, List.reverse_append, List.reverse_singleton,
    List.singleton_append]
  split
  · next hb =>
    rw [List.dropWhile_cons_of_neg (by simp [hb])]
    simp
    omega
  · next hb => rw [List.dropWhile_cons_of_pos (by simpa using hb)]

theorem columnAt_succ {p : Nat} {b : UInt8} (h : text[p]? = some b) :
    columnAt text (p + 1) = if b = Ascii.lineFeed then 1 else columnAt text p + 1 := by
  have hle := lineStart_le text p
  rw [columnAt, columnAt, lineStart_succ h]
  split
  · rw [Nat.sub_self]
  · omega

/-! ### Bytes at once -/

theorem lastIndexOf?_cons (b a : UInt8) (bytes : List UInt8) :
    lastIndexOf? b (a :: bytes) =
      ((lastIndexOf? b bytes).map (· + 1)).or (if a = b then some 0 else none) := by
  rw [lastIndexOf?, lastIndexOf?, List.reverse_cons, List.findIdx?_append]
  cases hfind : bytes.reverse.findIdx? (· == b) with
  | some i =>
    have hi : i < bytes.length := by
      simpa using (List.findIdx?_eq_some_iff_getElem.mp hfind).1
    simp only [Option.some_or, Option.map_some, List.length_cons, Option.some.injEq]
    omega
  | none =>
    by_cases hab : a = b
    · simp [hab, List.findIdx?_cons]
    · simp [hab, List.findIdx?_cons]

theorem count_of_lastIndexOf? {b : UInt8} {bytes : List UInt8} (h : lastIndexOf? b bytes = none) :
    bytes.count b = 0 := by
  rw [lastIndexOf?, Option.map_eq_none_iff, List.findIdx?_eq_none_iff] at h
  rw [List.count_eq_zero]
  intro hb
  simpa using h b (List.mem_reverse.mpr hb)

/-- **All bytes at once lead where the first and then the others do.** -/
theorem Place.past_cons (place : Place) (b : UInt8) (bytes : List UInt8) :
    place.past (b :: bytes) = (place.next b).past bytes := by
  rw [past, past, lastIndexOf?_cons]
  by_cases hb : b = Ascii.lineFeed
  · rw [Place.next, if_pos hb, if_pos hb]
    cases hlast : lastIndexOf? Ascii.lineFeed bytes with
    | some last =>
      simp only [Option.map_some, Option.some_or, List.length_cons, hb, List.count_cons_self,
        Nat.add_sub_add_right, Nat.add_assoc, Nat.add_comm 1]
    | none =>
      simp only [Option.map_none, Option.none_or, List.length_cons, hb, List.count_cons_self,
        count_of_lastIndexOf? hlast, Nat.sub_zero, Nat.zero_add, Nat.add_comm 1]
  · rw [Place.next, if_neg hb, if_neg hb]
    cases hlast : lastIndexOf? Ascii.lineFeed bytes with
    | some last =>
      simp only [Option.map_some, Option.some_or, List.length_cons, List.count_cons_of_ne hb,
        Nat.add_sub_add_right]
    | none =>
      simp only [Option.map_none, Option.or_none, List.length_cons, Nat.add_assoc, Nat.add_comm 1]

/-- **Going over bytes at once is going over one after the other.** -/
theorem Place.past_eq_foldl (place : Place) (bytes : List UInt8) :
    place.past bytes = bytes.foldl Place.next place := by
  induction bytes generalizing place with
  | nil => rfl
  | cons b bytes ih => rw [past_cons, ih, List.foldl_cons]

/-! ### Exact points -/

/-- A place with the line and the column of an offset. -/
def Place.IsAt (place : Place) (text : List UInt8) (p : Nat) : Prop :=
  place.line = lineAt text p ∧ place.column = columnAt text p

/-- **One byte further a place is that of the next offset.** -/
theorem Place.IsAt.next {place : Place} {p : Nat} {b : UInt8} (h : place.IsAt text p)
    (hb : text[p]? = some b) : (place.next b).IsAt text (p + 1) := by
  obtain ⟨hline, hcolumn⟩ := h
  rw [IsAt, lineAt_succ hb, columnAt_succ hb, Place.next]
  split
  · exact ⟨congrArg (· + 1) hline, rfl⟩
  · exact ⟨hline, congrArg (· + 1) hcolumn⟩

/-- **Some bytes further a place is that of the offset behind them**, if each byte changes line and
column as it should. -/
theorem Place.IsAt.foldl {step : Place → UInt8 → Place}
    (hstep : ∀ place b, (step place b).line = (place.next b).line ∧
      (step place b).column = (place.next b).column)
    {place : Place} {p k : Nat} (h : place.IsAt text p) (hk : p + k ≤ text.length) :
    (((text.drop p).take k).foldl step place).IsAt text (p + k) := by
  induction k generalizing place p with
  | zero => exact h
  | succ k ih =>
    have hlt : p < text.length := by omega
    have hb : text[p]? = some text[p] := List.getElem?_eq_getElem hlt
    obtain ⟨hline, hcolumn⟩ := hstep place text[p]
    obtain ⟨hline', hcolumn'⟩ := h.next hb
    rw [drop_eq_cons hb, List.take_succ_cons, List.foldl_cons, show p + (k + 1) = p + 1 + k by omega]
    exact ih ⟨hline.trans hline', hcolumn.trans hcolumn'⟩ (by omega)

/-- **A point with the line and the column of its offset.** -/
def Point.Exact (p : Point) (text : List UInt8) : Prop := p.place.IsAt text p.offset

theorem Point.Exact.position_eq {p : Point} (h : p.Exact text) :
    p.position = positionAt text p.offset := by
  rw [position, positionAt, h.1, h.2]

/-- The beginning is exact. -/
theorem Point.exact_start (text : List UInt8) : ({} : Point).Exact text := by
  constructor
  · simp [lineAt]
  · simp [columnAt]

/-- **Behind a gap a point is exact.** -/
theorem Point.Exact.pastGap {p : Point} (h : p.Exact text) {k : Nat}
    (hk : p.offset + k ≤ text.length) : (p.pastGap text k).Exact text := by
  refine Place.IsAt.foldl (fun place b => ?_) h hk
  rw [Place.pastTrivia]
  split <;> exact ⟨rfl, rfl⟩

/-- **Behind a token a point is exact.** -/
theorem Point.Exact.pastToken {p : Point} (h : p.Exact text) {k : Nat}
    (hk : p.offset + k ≤ text.length) : (p.pastToken text k).Exact text := by
  show (p.place.past _).IsAt text (p.offset + k)
  rw [Place.past_eq_foldl]
  exact Place.IsAt.foldl (fun _ _ => ⟨rfl, rfl⟩) h hk

/-! ### What cannot be read -/

/-- **A malformation at an offset**, seen from another one: a gap lies between them, and behind it
there is no gap any more. It is a comment that is not closed exactly if one opens there. -/
structure Offends (text : List UInt8) (classes : ByteClass) (version : Version) (start p : Nat)
    (m : Malformation) : Prop where
  /-- The offset is not before the other one. -/
  start_le : start ≤ p
  /-- Something is there. -/
  lt_length : p < text.length
  /-- Blanks and comments lie between them, below 2³² levels of comments. -/
  gap : Shallow (Span.slice { start, stop := p } text) →
    IsGap classes version (Span.slice { start, stop := p } text)
  /-- What is there is not a blank. -/
  not_blank : ∀ b, text[p]? = some b → classes.isSpace b = false
  /-- The report of a comment is given exactly where one opens. -/
  comment_iff : m = .unterminatedComment ↔ OpensComment classes version (text.drop p)
  /-- That comment has no end. -/
  unclosed : m = .unterminatedComment → ∀ c, IsComment c → ¬c <+: text.drop p

/-- **No reading of a token gives the report of a comment.** -/
theorem Reading.token_ne_unterminatedComment {version : Version} {classes : ByteClass}
    {t : List UInt8} {m : Malformation}
    (h : (token (.ofVersion version) classes t).found = .error m) : m ≠ .unterminatedComment := by
  obtain ⟨cursor, hcursor⟩ := exists_standsAt t
  have hobeys := Scan.obeys_token (.ofVersion version) classes t _ hcursor.faces
  have hedge : t.length < cursor.input.window.edge := by
    rw [Window.edge, hcursor.start_eq, Nat.zero_div]
    omega
  obtain ⟨w, hscan⟩ := hobeys.malformed (Or.inl hedge) m h
  rintro rfl
  exact (Scan.says_token version classes).error _ _ _ hscan rfl

namespace Plain

variable {classes : ByteClass} {version : Version} {p q : Point} {t : Token}

/-- **A token that is seen starts and ends at exact points.** -/
theorem exact_of_found {s : Plain} (hp : p.Exact s.text) (hle : p.offset ≤ s.text.length)
    (h : (s.look p).found = .ok (t, q)) :
    t.position = positionAt s.text t.span.start ∧ q.position = positionAt s.text t.span.stop ∧
      q.Exact s.text := by
  have hsees := sees_of_found hle h
  obtain ⟨trivia, k, kind, len, -, -, rfl, rfl⟩ := found_inv h
  have hstop : p.offset + k + len ≤ s.text.length := hsees.stop_le
  have hstart := hp.pastGap (k := k) (by omega)
  have hend := hstart.pastToken (k := len) hstop
  exact ⟨hstart.position_eq, hend.position_eq, hend⟩

/-- **An error that is seen is reported where it starts**, and with its exact position. -/
theorem offends_of_found (hp : p.Exact text) {e : LexError}
    (h : ((Plain.of text classes version).look p).found = .error e) :
    ∃ m offset, e = .malformed m (positionAt text offset) ∧
      Offends text classes version p.offset offset m := by
  obtain ⟨parts, hgap⟩ :=
    Trivia.exists_crossed_take_extent classes version .none (text.drop p.offset)
  rcases hextent : Trivia.extent classes version .none (text.drop p.offset) with k | ⟨trivia, k⟩
  · -- The walk over the gap has come to a comment that is not closed.
    rw [hextent] at hgap
    rw [look_of_unclosed hextent] at h
    obtain rfl := Except.error.inj h
    obtain ⟨hopens, hunclosed⟩ := Trivia.unclosed_of_extent hextent
    rw [List.drop_drop] at hopens hunclosed
    obtain ⟨hversion, hspace, rest, hrest⟩ := hopens
    have hlen := congrArg List.length hrest
    simp only [List.length_append, List.length_cons, List.length_drop] at hlen
    have hbyte : text[p.offset + k]? = some Ascii.leftParen := by
      rw [← List.head?_drop, ← hrest]
      rfl
    refine ⟨.unterminatedComment, p.offset + k, ?_, Nat.le_add_right _ _, by omega, ?_, ?_, ?_, ?_⟩
    · rw [(hp.pastGap (k := k) (by omega)).position_eq]
      rfl
    · rw [Span.slice, Nat.add_sub_cancel_left]
      exact hgap.isGap
    · intro b hb
      obtain rfl : Ascii.leftParen = b := Option.some.inj (hbyte.symm.trans hb)
      exact hspace
    · exact ⟨fun _ => ⟨hversion, hspace, rest, hrest⟩, fun _ => rfl⟩
    · exact fun _ => hunclosed
  · -- The walk has come to its end, and what stands there cannot be read.
    rw [hextent] at hgap
    rw [look_of_extent hextent] at h
    obtain ⟨m, hread, rfl⟩ := readToken_eq_error h
    obtain ⟨hblank, hopens⟩ := Trivia.gapFree_of_extent hextent
    rw [List.drop_drop] at hblank hopens
    have hlt : p.offset + k < text.length := by
      refine Nat.lt_of_not_le fun hge => ?_
      simp [List.drop_eq_nil_of_le hge, Reading.token, Reading.step] at hread
    have hne := Reading.token_ne_unterminatedComment hread
    refine ⟨m, p.offset + k, ?_, Nat.le_add_right _ _, hlt, ?_, ?_, ?_, ?_⟩
    · rw [(hp.pastGap (k := k) (by omega)).position_eq]
      rfl
    · rw [Span.slice, Nat.add_sub_cancel_left]
      exact hgap.isGap
    · exact fun b hb => hblank b (by rw [List.head?_drop, hb])
    · exact ⟨fun hm => absurd hm hne, fun h => absurd h hopens⟩
    · exact fun hm => absurd hm hne

end Plain

namespace Lexer

variable {σ : Type} [Source σ] {n : Nat} {classes : ByteClass} {version : Version}

/-- A token that is handed back changes nothing about where the lexer is. -/
theorem Follows.release {l : Lexer σ n} {s : Plain} {p : Point} (h : l.Follows s p) (t : Token) :
    (l.release t).Follows s p := by
  refine ⟨h.stands, h.classes_eq, h.dialect_eq, ?_⟩
  rintro u (_ | ⟨_, hu⟩)
  · rfl
  · exact h.clean u hu

/-- A call that gives anything but the report of an earlier error finds a lexer that has not
failed. -/
theorem phase_ne_failed {l : Lexer σ n} (h : l.next ≠ .error .poisoned l) : l.phase ≠ .failed :=
  fun hfailed => h (next_of_failed hfailed)

/-- An error that is given lies ahead, or the window is too small. -/
theorem Follows.next_error_inv {l l' : Lexer σ n} {s : Plain} {p : Point} (h : l.Follows s p)
    (hphase : l.phase ≠ .failed) {e : LexError} (hnext : l.next = .error e l') :
    (s.look p).found = .error e ∨ ∃ o, e = .configuration (.overflow o) := by
  by_cases hfits : (s.look p).Fits n s.text
  · rcases hfound : (s.look p).found with e' | ⟨t, q⟩
    · obtain ⟨l₁, herr⟩ := h.next_error hphase hfits hfound
      obtain ⟨rfl, -⟩ : e = e' ∧ l' = l₁ := by simpa [hnext] using herr
      exact Or.inl rfl
    · obtain ⟨l₁, hok, -⟩ := h.next_token hphase hfits hfound
      simp [hnext] at hok
  · obtain ⟨l₁, herr⟩ := h.next_overflow hphase hfits
    obtain ⟨rfl, -⟩ : e = _ ∧ l' = l₁ := by simpa [hnext] using herr
    exact Or.inr ⟨_, rfl⟩

/-- **A lexer that is at an exact point of a text**, or has failed. -/
def Exact (text : List UInt8) (classes : ByteClass) (version : Version) (l : Lexer σ n) : Prop :=
  l.phase = .failed ∨ ∃ p, l.Follows (.of text classes version) p ∧ p.Exact text

variable {l : Lexer σ n}

/-- **The next token leaves a lexer at an exact point**, if it was at one. -/
theorem Exact.next (h : l.Exact text classes version) :
    (Input.leaves l.next).Exact text classes version := by
  cases hnext : l.next with
  | error e l' => exact Or.inl (phase_of_next_error hnext)
  | ok t l' =>
    have hphase := phase_ne_failed (l := l) (by simp [hnext])
    obtain ⟨p, hfollows, hp⟩ := h.resolve_left hphase
    obtain ⟨q, hfound, -, hfollows', -⟩ := hfollows.next_inv hphase hnext
    exact Or.inr ⟨q, hfollows', (Plain.exact_of_found hp hfollows.stands.offset_le hfound).2.2⟩

theorem Exact.release (h : l.Exact text classes version) (t : Token) :
    (l.release t).Exact text classes version :=
  h.imp_right fun ⟨p, hfollows, hp⟩ => ⟨p, hfollows.release t, hp⟩

/-- **A lexer whose answers have exact positions.** -/
structure Positioned (text : List UInt8) (classes : ByteClass) (version : Version)
    (l : Lexer σ n) : Prop where
  /-- A token, the end included, has the position of its start, and the lexer is left with the
  position of its end. -/
  token : ∀ t l', l.Answers (.ok t) l' →
    t.position = positionAt text t.span.start ∧ l'.position = positionAt text t.span.stop
  /-- A malformation is reported where it starts, with its exact position. -/
  malformed : ∀ m p l', l.Answers (.error (.malformed m p)) l' →
    p = positionAt text p.offset ∧ Offends text classes version l.position.offset p.offset m

/-- **A lexer at an exact point gives answers with exact positions.** -/
theorem Exact.positioned (h : l.Exact text classes version) : l.Positioned text classes version := by
  constructor
  · intro t l' hanswers
    have hnext := hanswers.next_ok
    have hphase := phase_ne_failed (l := l) (by simp [hnext])
    obtain ⟨p, hfollows, hp⟩ := h.resolve_left hphase
    obtain ⟨q, hfound, -, hfollows', -⟩ := hfollows.next_inv hphase hnext
    obtain ⟨hstart, hstop, -⟩ := Plain.exact_of_found hp hfollows.stands.offset_le hfound
    exact ⟨hstart, hfollows'.stands.position_eq.trans hstop⟩
  · intro m r l' hanswers
    have hnext := hanswers.next_error
    have hphase := phase_ne_failed (l := l) (by simp [hnext])
    obtain ⟨p, hfollows, hp⟩ := h.resolve_left hphase
    have hoffset : l.position.offset = p.offset := hfollows.stands.start_eq
    rcases hfollows.next_error_inv hphase hnext with hfound | ⟨o, ho⟩
    · obtain ⟨m', offset, he, hoffends⟩ := Plain.offends_of_found hp hfound
      obtain ⟨rfl, rfl⟩ := LexError.malformed.inj he
      exact ⟨rfl, hoffset ▸ hoffends⟩
    · cases ho

/-- **Over a faithful source every answer has its exact position**, whatever calls have been made
before. -/
theorem after_positioned {source : σ} (hsource : Source.Faithful source text) (hn : 0 < n)
    (version : Version) (classes : ByteClass) :
    ∃ l₀ : Lexer σ n, ofSource source { bufferSize := n, version } classes = .ok l₀ ∧
      ∀ calls, (l₀.after calls).Positioned text classes version := by
  obtain ⟨l₀, hof, hfollows, -⟩ := follows_ofSource hsource hn version classes
  refine ⟨l₀, hof, fun calls => ?_⟩
  have hexact : l₀.Exact text classes version := Or.inr ⟨{}, hfollows, Point.exact_start text⟩
  have hafter : (l₀.after calls).Exact text classes version :=
    keeps_after (fun _ => Exact.next) (fun _ t h => h.release t) calls hexact
  exact hafter.positioned

/-- A literal and a comment with line feeds in them, and a dollar sign without a name, through buffers
of two bytes. -/
theorem after_positioned_literalThenDollar :
    ∃ l₀ : Lexer Memory 2,
      ofSource { rest := [0x27, 0x0A, 0x27, 0x28, 0x3A, 0x0A, 0x3A, 0x29, 0x24] }
        { bufferSize := 2, version := .xpath31 } .xml = .ok l₀ ∧
      ∀ calls, (l₀.after calls).Positioned
        [0x27, 0x0A, 0x27, 0x28, 0x3A, 0x0A, 0x3A, 0x29, 0x24] .xml .xpath31 :=
  after_positioned (Memory.faithful _) (by decide) .xpath31 .xml

end Lexer

end XPathScan
