import XPathScan.Proofs.Input
import XPathScan.Proofs.Trivia.Depth
import XPathScan.Proofs.Trivia.Steps
import XPathScan.Proofs.Window.Walk

/-!
# Stepping over blanks and comments in a text

Between two tokens every byte starts a lexeme of its own. So the position is never more than one
byte away from the start, every move fits into any window, and neither blanks nor comments can
overflow. What they come to is a matter of the text alone:

* `XPathScan.Trivia.extent` – the length of all blanks and comments at the beginning of a text, or
  where a comment starts that is not closed;
* `XPathScan.Trivia.passes_skip` – a cursor that steps over blanks and comments comes out
  behind them, whatever its window.
-/

namespace XPathScan

variable {σ : Type} {n : Nat} {text : List UInt8}

/-! ### Points of a text -/

/-- **A point of a text**: an offset, and the place that the bytes before it lead to. -/
structure Point where
  /-- The number of bytes before it. -/
  offset : Nat := 0
  /-- Its line and column. -/
  place : Place := {}
  deriving DecidableEq

namespace Point

/-- A point without what is on its line. -/
def position (p : Point) : Position :=
  { offset := p.offset, line := p.place.line, column := p.place.column }

/-- **The point behind some bytes that belong to no token.** -/
def pastGap (p : Point) (text : List UInt8) (k : Nat) : Point where
  offset := p.offset + k
  place := ((text.drop p.offset).take k).foldl Place.pastTrivia p.place

/-- **The point behind a token.** -/
def pastToken (p : Point) (text : List UInt8) (k : Nat) : Point where
  offset := p.offset + k
  place := p.place.pastToken ((text.drop p.offset).take k)

@[simp] theorem pastGap_offset (p : Point) (k : Nat) :
    (p.pastGap text k).offset = p.offset + k := rfl

/-- Bytes can be stepped over in two parts. -/
theorem pastGap_pastGap (p : Point) (j k : Nat) :
    (p.pastGap text j).pastGap text k = p.pastGap text (j + k) := by
  simp only [pastGap, List.take_add, List.foldl_append, List.drop_drop, Nat.add_assoc]

/-- The bytes behind the first one. -/
theorem drop_pastGap_one {p : Point} {b : UInt8} {t : List UInt8}
    (ht : text.drop p.offset = b :: t) : text.drop (p.pastGap text 1).offset = t := by
  rw [pastGap_offset, ← List.drop_drop, ht, List.drop_succ_cons, List.drop_zero]

end Point

namespace Cursor

/-- **A cursor that stands at a point of a text**, with nothing in its lexeme yet. -/
structure StandsAt [Source σ] (c : Cursor σ n) (text : List UInt8) (point : Point) : Prop where
  /-- The input is well kept. -/
  shows : c.input.Shows text
  /-- The lexeme starts at the point. -/
  start_eq : c.input.window.start = point.offset
  /-- The position is there too. -/
  pos_eq : c.input.window.pos = point.offset
  /-- The place is that of the point. -/
  place_eq : c.place = point.place

namespace StandsAt

variable [Source σ] {c : Cursor σ n} {point : Point}

theorem offset_le (h : c.StandsAt text point) : point.offset ≤ text.length :=
  h.pos_eq ▸ h.shows.window.pos_le

theorem position_eq (h : c.StandsAt text point) : c.position = point.position := by
  rw [position, Point.position, h.start_eq, h.place_eq]

/-- The next byte is the first of the text from the point on. -/
theorem peek_eq (h : c.StandsAt text point) : c.peek = (text.drop point.offset).head? := by
  rw [peek, h.shows.window.peek_eq_head?, h.pos_eq]

/-- The next byte, where there is one. -/
theorem peek_eq_some (h : c.StandsAt text point) {b : UInt8} {t : List UInt8}
    (ht : text.drop point.offset = b :: t) : c.peek = some b := by
  rw [h.peek_eq, ht, List.head?_cons]

/-- At the end of the text there is no byte. -/
theorem peek_eq_none (h : c.StandsAt text point) (ht : text.drop point.offset = []) :
    c.peek = none := by
  rw [h.peek_eq, ht, List.head?_nil]

/-- **One byte behind the start fits into any window.** -/
theorem fits_succ (h : c.StandsAt text point) :
    c.input.window.Fits text (c.input.window.pos + 1) := by
  have hn := c.input.window.size_pos
  have hlt : point.offset < (point.offset / n + 1) * n :=
    (Nat.div_lt_iff_lt_mul hn).mp (Nat.lt_succ_self _)
  refine Or.inr ?_
  rw [Window.edge]
  rw [h.start_eq, h.pos_eq, show point.offset / n + 2 = point.offset / n + 1 + 1 from rfl,
    Nat.succ_mul (point.offset / n + 1)]
  omega

/-- A move to the next byte. -/
theorem advance_eq (h : c.StandsAt text point) {b : UInt8} {t : List UInt8}
    (ht : text.drop point.offset = b :: t) :
    c.input.window.advance 1 = .ok (c.input.window.movedTo (point.offset + 1)) := by
  rw [h.shows.window.advance_one (h.peek_eq_some ht), if_pos h.fits_succ, h.pos_eq]

/-- A cursor with a byte before it can move over it. -/
theorem movedTo (h : c.StandsAt text point) {b : UInt8} {t : List UInt8}
    (ht : text.drop point.offset = b :: t) :
    Input.Shows { c.input with window := c.input.window.movedTo (point.offset + 1) } text := by
  have hlen := congrArg List.length ht
  rw [List.length_drop, List.length_cons] at hlen
  refine h.shows.movedTo (Nat.le_trans (Nat.le_of_eq h.start_eq) (Nat.le_succ _)) (by omega) ?_
  exact h.pos_eq ▸ h.fits_succ

/-- **Stepping over a byte never fails.** -/
theorem skipByte_eq (h : c.StandsAt text point) {b : UInt8} {t : List UInt8}
    (ht : text.drop point.offset = b :: t) :
    ∃ c', c.skipByte = .ok () c' ∧ c'.StandsAt text (point.pastGap text 1) := by
  obtain ⟨input, hmark, hshows, hstart, hpos⟩ := (h.movedTo ht).mark_eq
  have hcurrent : c.input.window.current = b := by
    rw [Window.current, show c.input.window.peek = some b from h.peek_eq_some ht]
    rfl
  refine ⟨{ input, place := c.place.pastTrivia b }, ?_, hshows, hstart, hpos, ?_⟩
  · rw [skipByte, h.advance_eq ht]
    simp only
    rw [hmark, hcurrent]
  · show c.place.pastTrivia b = _
    rw [h.place_eq, Point.pastGap, ht]
    rfl

/-- **Stepping over two bytes**, with a look at the second one. -/
theorem skipTwo_eq (h : c.StandsAt text point) {b b' : UInt8} {t : List UInt8}
    (ht : text.drop point.offset = b :: b' :: t) :
    ∃ c₁ c₂, c.skipByte = .ok () c₁ ∧ c₁.peek = some b' ∧ c₁.skipByte = .ok () c₂ ∧
      c₂.StandsAt text (point.pastGap text 2) ∧
      text.drop (point.pastGap text 2).offset = t := by
  have ht₁ := Point.drop_pastGap_one ht
  have ht₂ := Point.drop_pastGap_one ht₁
  obtain ⟨c₁, hfirst, h₁⟩ := h.skipByte_eq ht
  obtain ⟨c₂, hsecond, h₂⟩ := h₁.skipByte_eq ht₁
  rw [Point.pastGap_pastGap] at h₂ ht₂
  exact ⟨c₁, c₂, hfirst, h₁.peek_eq_some ht₁, hsecond, h₂, ht₂⟩

end StandsAt

end Cursor

/-! ### Comments -/

namespace Trivia

variable [Source σ] {c : Cursor σ n} {point : Point}

/-- At the end of the text a comment is not closed. -/
theorem commentRest_of_end (hpeek : c.peek = none) (start : Position) {depth : UInt32}
    (hdepth : depth ≠ 0) :
    commentRest start depth c = .error (.malformed .unterminatedComment start) c := by
  rw [commentRest_eq, if_neg hdepth, hpeek]

/-- A byte inside a comment is stepped over, alone or with the byte behind it. -/
theorem commentRest_of_byte {c₁ : Cursor σ n} {b : UInt8} (hpeek : c.peek = some b)
    (hbyte : c.skipByte = .ok () c₁) (start : Position) {depth : UInt32} (hdepth : depth ≠ 0) :
    commentRest start depth c =
      if b = Ascii.leftParen ∧ c₁.peek = some Ascii.colon then
        match c₁.skipByte with
        | .error e c₂ => .error e c₂
        | .ok _ c₂ => commentRest start (depth + 1) c₂
      else if b = Ascii.colon ∧ c₁.peek = some Ascii.rightParen then
        match c₁.skipByte with
        | .error e c₂ => .error e c₂
        | .ok _ c₂ => commentRest start (depth - 1) c₂
      else commentRest start depth c₁ := by
  rw [commentRest_eq, if_neg hdepth, hpeek]
  cases hsecond : c₁.skipByte <;> simp only [hbyte, hsecond]

/-- **What has to become of a walk over the inside of a comment** that has the given length: it
ends behind the comment, and it fails if there is no length. -/
structure Closes (text : List UInt8) (point : Point) (start : Position) (length : Option Nat)
    (result : EStateM.Result LexError (Cursor σ n) Unit) : Prop where
  /-- A comment that is closed has been stepped over. -/
  closed : ∀ k, length = some k →
    ∃ c', result = .ok () c' ∧ c'.StandsAt text (point.pastGap text k)
  /-- A comment that is not closed is reported where it starts. -/
  unclosed : length = none →
    ∃ c', result = .error (.malformed .unterminatedComment start) c'

theorem closes_none {start : Position} :
    Closes text point start none (.error (.malformed .unterminatedComment start) c) :=
  ⟨fun _ hk => (nomatch hk), fun _ => ⟨c, rfl⟩⟩

/-- Bytes that have been stepped over belong to the comment. -/
theorem Closes.of_pastGap {start : Position} {length : Option Nat} {j : Nat}
    {result : EStateM.Result LexError (Cursor σ n) Unit}
    (h : Closes text (point.pastGap text j) start length result) :
    Closes text point start (length.map (· + j)) result := by
  constructor
  · intro k hk
    obtain ⟨l, hl, rfl⟩ := Option.map_eq_some_iff.mp hk
    rw [Nat.add_comm, ← Point.pastGap_pastGap]
    exact h.closed l hl
  · intro hk
    exact h.unclosed (Option.map_eq_none_iff.mp hk)

/-- **Stepping over a comment from inside it** comes out behind its end, and fails only if it has
none. -/
theorem closes_commentRest (h : c.StandsAt text point) (start : Position) (depth : UInt32) :
    Closes text point start (countedLength depth (text.drop point.offset))
      (commentRest start depth c) := by
  generalize ht : text.drop point.offset = t
  -- The recursion of the length is that of the walk, one or two bytes at a time.
  induction depth, t using countedLength.induct generalizing c point with
  | case1 t =>
    rw [commentRest, if_pos rfl, countedLength_zero]
    exact ⟨fun k hk => ⟨c, rfl, by cases hk; exact h⟩, fun hk => by cases hk⟩
  | case2 depth hdepth =>
    rw [commentRest_of_end (h.peek_eq_none ht) start hdepth, countedLength, if_neg hdepth]
    exact closes_none
  | case3 depth hdepth b =>
    -- A single byte closes nothing, whatever it is.
    obtain ⟨c₁, hbyte, h₁⟩ := h.skipByte_eq ht
    have hend := h₁.peek_eq_none (Point.drop_pastGap_one ht)
    rw [commentRest_of_byte (h.peek_eq_some ht) hbyte start hdepth, hend, if_neg (by simp),
      if_neg (by simp), commentRest_of_end hend start hdepth, countedLength, if_neg hdepth]
    exact closes_none
  | case4 depth hdepth b b' t hopen ih =>
    obtain ⟨c₁, c₂, hfirst, hpeek, hsecond, h₂, ht₂⟩ := h.skipTwo_eq ht
    rw [commentRest_of_byte (h.peek_eq_some ht) hfirst start hdepth, hpeek,
      if_pos (by simpa using hopen), hsecond, countedLength, if_neg hdepth, if_pos hopen]
    exact (ih h₂ ht₂).of_pastGap
  | case5 depth hdepth b b' t hopen hclose ih =>
    obtain ⟨c₁, c₂, hfirst, hpeek, hsecond, h₂, ht₂⟩ := h.skipTwo_eq ht
    rw [commentRest_of_byte (h.peek_eq_some ht) hfirst start hdepth, hpeek,
      if_neg (by simpa using hopen), if_pos (by simpa using hclose), hsecond, countedLength,
      if_neg hdepth, if_neg hopen, if_pos hclose]
    exact (ih h₂ ht₂).of_pastGap
  | case6 depth hdepth b b' t hopen hclose ih =>
    -- The second byte is looked at only: it may open or close with the third one.
    obtain ⟨c₁, hbyte, h₁⟩ := h.skipByte_eq ht
    have hpeek := h₁.peek_eq_some (Point.drop_pastGap_one ht)
    rw [commentRest_of_byte (h.peek_eq_some ht) hbyte start hdepth, hpeek,
      if_neg (by simpa using hopen), if_neg (by simpa using hclose), countedLength,
      if_neg hdepth, if_neg hopen, if_neg hclose]
    exact (ih h₁ (Point.drop_pastGap_one ht)).of_pastGap

/-- Stepping over a comment whose two first bytes are ahead. -/
theorem closes_comment (h : c.StandsAt text point) {b b' : UInt8} {t : List UInt8}
    (ht : text.drop point.offset = b :: b' :: t) :
    Closes text point point.position ((countedLength 1 t).map (· + 2)) (comment c) := by
  obtain ⟨c₁, c₂, hfirst, -, hsecond, h₂, ht₂⟩ := h.skipTwo_eq ht
  have hrest := closes_commentRest h₂ point.position 1
  rw [ht₂] at hrest
  rw [comment, hfirst]
  simp only
  rw [hsecond, h.position_eq]
  exact hrest.of_pastGap

/-- **Looking whether a comment opens** looks at the second byte, and changes nothing. -/
theorem opensComment_eq (h : c.StandsAt text point) {b : UInt8} {t : List UInt8}
    (ht : text.drop point.offset = b :: t) :
    opensComment c = .ok (t.head? == some Ascii.colon) c := by
  have hmoved := (h.movedTo ht).window
  have hpeek : (c.input.window.movedTo (point.offset + 1)).peek = t.head? := by
    rw [hmoved.peek_eq_head?, Window.movedTo_pos, ← List.drop_drop, ht, List.drop_succ_cons,
      List.drop_zero]
  have hback : (c.input.window.movedTo (point.offset + 1)).retreat 1 = .ok c.input.window := by
    rw [hmoved.retreat_eq (by simp [h.start_eq])]
    simp only [Window.movedTo_pos, Window.movedTo_movedTo, Nat.add_sub_cancel]
    rw [← h.pos_eq, h.shows.window.movedTo_self]
  rw [opensComment, h.advance_eq ht]
  simp only
  rw [hback, hpeek]

/-! ### Trivia -/

/-- What comes behind `k` bytes, counted from before them. -/
def shift (k : Nat) : Except Nat (Flags × Nat) → Except Nat (Flags × Nat)
  | .ok (flags, l) => .ok (flags, l + k)
  | .error l => .error (l + k)

/-- **The blanks and comments at the beginning of a text**: their flags, added to the given ones,
and their length; or else where a comment starts that is not closed. -/
def extent (classes : ByteClass) (version : Version) (flags : Flags) :
    List UInt8 → Except Nat (Flags × Nat)
  | [] => .ok (flags, 0)
  | b :: t =>
    if classes.isSpace b then shift 1 (extent classes version (flags ||| blankFlag b) t)
    else if b = Ascii.leftParen ∧ version.supports .comments ∧ t.head? = some Ascii.colon then
      match countedLength 1 t.tail with
      | none => .error 0
      | some k =>
        shift (k + 2) (extent classes version (flags ||| .commentBefore) (t.tail.drop k))
    else .ok (flags, 0)
termination_by t => t.length
decreasing_by
  · simp
  · simp only [List.length_drop, List.length_tail, List.length_cons]
    omega

section Unfolding

variable {classes : ByteClass} {version : Version} {b : UInt8} (flags : Flags)

theorem skip_of_end (hpeek : c.peek = none) : skip classes version flags c = .ok flags c := by
  rw [skip_eq, hpeek]

theorem skip_of_blank {c₁ : Cursor σ n} (hpeek : c.peek = some b)
    (hspace : classes.isSpace b = true) (hbyte : c.skipByte = .ok () c₁) :
    skip classes version flags c = skip classes version (flags ||| blankFlag b) c₁ := by
  rw [skip_eq, hpeek]
  simp only [hspace, hbyte, ↓reduceIte]

theorem skip_of_comment (h : c.StandsAt text point) {t : List UInt8}
    (ht : text.drop point.offset = b :: Ascii.colon :: t) (hspace : ¬classes.isSpace b = true)
    (hparen : b = Ascii.leftParen ∧ version.supports .comments) :
    skip classes version flags c =
      match comment c with
      | .error e c' => .error e c'
      | .ok _ c' => skip classes version (flags ||| .commentBefore) c' := by
  have hopens : opensComment c = .ok true c := opensComment_eq h ht
  rw [skip_eq, h.peek_eq_some ht]
  cases hcomment : comment c <;> simp only [if_neg hspace, if_pos hparen, hopens, hcomment]

theorem skip_of_token (h : c.StandsAt text point) {t : List UInt8}
    (ht : text.drop point.offset = b :: t) (hspace : ¬classes.isSpace b = true)
    (hopen : ¬(b = Ascii.leftParen ∧ version.supports .comments ∧ t.head? = some Ascii.colon)) :
    skip classes version flags c = .ok flags c := by
  rw [skip_eq, h.peek_eq_some ht]
  simp only [if_neg hspace]
  split
  · next hparen =>
    have hfalse : opensComment c = .ok false c := by
      rw [opensComment_eq h ht,
        beq_eq_false_iff_ne.mpr fun hc => hopen ⟨hparen.1, hparen.2, hc⟩]
    rw [hfalse]
  · rfl

end Unfolding

/-- **What has to become of a walk over blanks and comments** of the given extent. -/
structure Passes (text : List UInt8) (point : Point) (e : Except Nat (Flags × Nat))
    (result : EStateM.Result LexError (Cursor σ n) Flags) : Prop where
  /-- What has an end has been stepped over. -/
  passed : ∀ flags k, e = .ok (flags, k) →
    ∃ c', result = .ok flags c' ∧ c'.StandsAt text (point.pastGap text k)
  /-- A comment that is not closed is reported where it starts. -/
  unclosed : ∀ k, e = .error k → ∃ c',
    result = .error (.malformed .unterminatedComment (point.pastGap text k).position) c'

/-- Bytes that have been stepped over belong to the trivia. -/
theorem Passes.of_pastGap {e : Except Nat (Flags × Nat)} {j : Nat}
    {result : EStateM.Result LexError (Cursor σ n) Flags}
    (h : Passes text (point.pastGap text j) e result) : Passes text point (shift j e) result := by
  rcases e with l | ⟨flags, l⟩
  · refine ⟨fun _ _ hk => (nomatch hk), fun k hk => ?_⟩
    obtain rfl : l + j = k := Except.error.inj hk
    rw [Nat.add_comm, ← Point.pastGap_pastGap]
    exact h.unclosed l rfl
  · refine ⟨fun flags' k hk => ?_, fun k hk => by cases hk⟩
    obtain ⟨rfl, rfl⟩ : flags = flags' ∧ l + j = k := by simpa [shift] using hk
    rw [Nat.add_comm, ← Point.pastGap_pastGap]
    exact h.passed flags l rfl

/-- Where no trivia are ahead the walk stays where it is. -/
theorem passes_none (h : c.StandsAt text point) (flags : Flags) :
    Passes text point (.ok (flags, 0)) (.ok flags c) := by
  refine ⟨fun flags' k hk => ?_, fun k hk => by cases hk⟩
  obtain ⟨rfl, rfl⟩ : flags = flags' ∧ 0 = k := by simpa using hk
  exact ⟨c, rfl, h⟩

/-- **Stepping over blanks and comments** is the same in every window. -/
theorem passes_skip (h : c.StandsAt text point) (classes : ByteClass) (version : Version)
    (flags : Flags) :
    Passes text point (extent classes version flags (text.drop point.offset))
      (skip classes version flags c) := by
  generalize ht : text.drop point.offset = t
  -- The recursion of the extent is that of the walk: a blank, or a whole comment, at a time.
  induction flags, t using extent.induct classes version generalizing c point with
  | case1 flags =>
    rw [skip_of_end flags (h.peek_eq_none ht), extent]
    exact passes_none h flags
  | case2 flags b t hspace ih =>
    obtain ⟨c₁, hbyte, h₁⟩ := h.skipByte_eq ht
    rw [skip_of_blank flags (h.peek_eq_some ht) hspace hbyte, extent, if_pos hspace]
    exact (ih h₁ (Point.drop_pastGap_one ht)).of_pastGap
  | case3 flags b t hspace hopen hlen =>
    obtain ⟨t, rfl⟩ : ∃ u, t = Ascii.colon :: u := List.head?_eq_some_iff.mp hopen.2.2
    rw [List.tail_cons] at hlen
    obtain ⟨c₁, hcomment⟩ := (closes_comment h ht).unclosed (by rw [hlen]; rfl)
    rw [skip_of_comment flags h ht hspace ⟨hopen.1, hopen.2.1⟩, hcomment, extent, if_neg hspace,
      if_pos hopen, List.tail_cons, hlen]
    exact ⟨fun _ _ hk => (nomatch hk), fun k hk => ⟨c₁, by cases hk; rfl⟩⟩
  | case4 flags b t hspace hopen k hlen ih =>
    obtain ⟨t, rfl⟩ : ∃ u, t = Ascii.colon :: u := List.head?_eq_some_iff.mp hopen.2.2
    rw [List.tail_cons] at hlen
    obtain ⟨c₁, hcomment, h₁⟩ := (closes_comment h ht).closed (k + 2) (by rw [hlen]; rfl)
    have ht₁ : text.drop (point.pastGap text (k + 2)).offset = t.drop k := by
      rw [Point.pastGap_offset, ← List.drop_drop, ht]
      rfl
    rw [skip_of_comment flags h ht hspace ⟨hopen.1, hopen.2.1⟩, hcomment, extent, if_neg hspace,
      if_pos hopen, List.tail_cons, hlen]
    exact (ih h₁ ht₁).of_pastGap
  | case5 flags b t hspace hopen =>
    rw [skip_of_token flags h ht hspace hopen, extent, if_neg hspace, if_neg hopen]
    exact passes_none h flags

end Trivia

end XPathScan
