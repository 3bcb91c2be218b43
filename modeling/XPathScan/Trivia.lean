import XPathScan.ByteClass
import XPathScan.Cursor
import XPathScan.Token.Flags
import XPathScan.Version

/-!
# Blanks and comments

Between two tokens stand any number of blanks and, in versions that have them, comments. They are
stepped over byte by byte, each byte starting a new lexeme, so they never fill the window however
long they are. What they were is kept as flags.

A comment goes from `(:` to the matching `:)`; comments nest. Two bytes that open or close a
comment are taken together, so that the colon of `(:)` does not close what it opens. A comment
that is not closed is an error at the place where the outermost one starts. How many comments are
open is counted with 32 bits, and the count starts again at zero when they are not enough.
-/

namespace XPathScan.Trivia

variable {σ : Type} {n : Nat}

/-- Whether a comment opens at the position: a parenthesis is there, and a colon behind it. The
position moves to the second byte and back. -/
def opensComment (c : Cursor σ n) : EStateM.Result LexError (Cursor σ n) Bool :=
  match c.input.window.advance 1 with
  | .error o => .error (.configuration (.overflow o)) c
  | .ok ahead =>
    let opens := ahead.peek == some Ascii.colon
    match ahead.retreat 1 with
    | .error f => .error (.fault f) { c with input := { c.input with window := ahead } }
    | .ok back => .ok opens { c with input := { c.input with window := back } }

/-- **Step over the inside of a comment and over its end**, from a given depth. -/
def commentRest [Source σ] (start : Position) (depth : UInt32) (c : Cursor σ n) :
    EStateM.Result LexError (Cursor σ n) Unit :=
  if depth = 0 then .ok () c
  else
    match hpeek : c.peek with
    | none => .error (.malformed .unterminatedComment start) c
    | some b =>
      match hbyte : c.skipByte with
      | .error e c₁ => .error e c₁
      | .ok _ c₁ =>
        have hfirst : c₁.input.Shorter c.input := Cursor.shorter_skipByte hpeek hbyte
        if b = Ascii.leftParen ∧ c₁.peek = some Ascii.colon then
          match hsecond : c₁.skipByte with
          | .error e c₂ => .error e c₂
          | .ok _ c₂ =>
            have := ((Cursor.noLonger_skipByte hsecond).trans_shorter hfirst).lex
            commentRest start (depth + 1) c₂
        else if b = Ascii.colon ∧ c₁.peek = some Ascii.rightParen then
          match hsecond : c₁.skipByte with
          | .error e c₂ => .error e c₂
          | .ok _ c₂ =>
            have := ((Cursor.noLonger_skipByte hsecond).trans_shorter hfirst).lex
            commentRest start (depth - 1) c₂
        else
          have := hfirst.lex
          commentRest start depth c₁
termination_by c.input.pending
decreasing_by all_goals assumption

/-- **Step over a comment.** -/
def comment [Source σ] (c : Cursor σ n) : EStateM.Result LexError (Cursor σ n) Unit :=
  match c.skipByte with
  | .error e c₁ => .error e c₁
  | .ok _ c₁ =>
    match c₁.skipByte with
    | .error e c₂ => .error e c₂
    | .ok _ c₂ => commentRest c.position 1 c₂

/-! ### Comments leave less to come -/

/-- Looking for a comment changes nothing about what is still to come, if there is a byte at the
position. -/
theorem noLonger_opensComment [Source σ] {c c' : Cursor σ n} {b : UInt8} {opens : Bool}
    (hpeek : c.peek = some b) (h : opensComment c = .ok opens c') :
    c'.input.NoLonger c.input ∧ c'.peek.isSome := by
  unfold opensComment at h
  split at h
  · cases h
  · next ahead hmove =>
    obtain ⟨hpos, -, hl, hr, hstart, -, hstop⟩ := Window.seek_eq_ok hmove
    simp only at h
    split at h
    · cases h
    · next back hback =>
      cases h
      have hend := Window.isAtEnd_of_peek hpeek
      unfold Window.retreat at hback
      split at hback
      · cases hback
      · cases hback
        have hsame : ahead.pos - 1 = c.input.window.pos := by
          rw [hpos]
          unfold Window.isAtEnd at hend
          unfold Window.forward
          cases hs : c.input.window.stop with
          | none =>
            simp only
            omega
          | some stop =>
            simp only [hs] at hend
            have : ¬stop ≤ c.input.window.pos := by simpa using hend
            simp only
            omega
        refine ⟨Or.inr ⟨?_, ?_⟩, ?_⟩
        · simp only [Input.reserve, hstop]
        · simp only [Window.room, Window.horizon, hstop, hl, hr, hsame]
          omega
        · unfold Cursor.peek Window.peek
          rw [show Window.isAtEnd _ = c.input.window.isAtEnd by
            simp only [Window.isAtEnd, hstop, hsame], hend]
          rfl

/-- The inside of a comment does not add to what is still to come. -/
theorem noLonger_commentRest [Source σ] {start : Position} {depth : UInt32} {c c' : Cursor σ n}
    (h : commentRest start depth c = .ok () c') : c'.input.NoLonger c.input := by
  fun_induction commentRest start depth c with
  | case1 c =>
    cases h
    exact Or.inr ⟨rfl, Nat.le_refl _⟩
  | case2 => cases h
  | case3 => cases h
  | case4 => cases h
  | case5 depth c hdepth b hpeek _ c₁ hbyte hfirst hpair _ c₂ hsecond hless ih =>
    exact (ih h).trans ((Cursor.noLonger_skipByte hsecond).trans hfirst.noLonger)
  | case6 => cases h
  | case7 depth c hdepth b hpeek _ c₁ hbyte hfirst hopen hclose _ c₂ hsecond hless ih =>
    exact (ih h).trans ((Cursor.noLonger_skipByte hsecond).trans hfirst.noLonger)
  | case8 depth c hdepth b hpeek _ c₁ hbyte hfirst hopen hclose hless ih =>
    exact (ih h).trans hfirst.noLonger

/-- **A comment leaves less to come**, if there is a byte at the position. -/
theorem shorter_comment [Source σ] {c c' : Cursor σ n} (hpeek : c.peek.isSome)
    (h : comment c = .ok () c') : c'.input.Shorter c.input := by
  obtain ⟨b, hb⟩ := Option.isSome_iff_exists.mp hpeek
  unfold comment at h
  split at h
  · cases h
  · next c₁ hfirst =>
    split at h
    · cases h
    · next c₂ hsecond =>
      exact ((noLonger_commentRest h).trans (Cursor.noLonger_skipByte hsecond)).trans_shorter
        (Cursor.shorter_skipByte hb hfirst)

/-! ### Trivia -/

/-- The flag of a blank. -/
def blankFlag (b : UInt8) : Flags :=
  if b = Ascii.lineFeed ∨ b = Ascii.carriageReturn then .newlineBefore else .spaceBefore

/-- **Step over blanks and comments**, adding their flags to the given ones. -/
def skip [Source σ] (classes : ByteClass) (version : Version) (flags : Flags) (c : Cursor σ n) :
    EStateM.Result LexError (Cursor σ n) Flags :=
  match hpeek : c.peek with
  | none => .ok flags c
  | some b =>
    if classes.isSpace b then
      match hbyte : c.skipByte with
      | .error e c₁ => .error e c₁
      | .ok _ c₁ =>
        have := (Cursor.shorter_skipByte hpeek hbyte).lex
        skip classes version (flags ||| blankFlag b) c₁
    else if b = Ascii.leftParen ∧ version.supports .comments then
      match hopens : opensComment c with
      | .error e c₁ => .error e c₁
      | .ok false c₁ => .ok flags c₁
      | .ok true c₁ =>
        match hcomment : comment c₁ with
        | .error e c₂ => .error e c₂
        | .ok _ c₂ =>
          have hlook := noLonger_opensComment hpeek hopens
          have := ((shorter_comment hlook.2 hcomment).trans_noLonger hlook.1).lex
          skip classes version (flags ||| .commentBefore) c₂
    else .ok flags c
termination_by c.input.pending
decreasing_by all_goals assumption

end XPathScan.Trivia
