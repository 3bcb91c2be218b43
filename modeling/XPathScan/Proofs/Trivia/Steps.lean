import XPathScan.Trivia

/-!
# The loops over blanks and comments, step by step

The two loops carry with them the reason why they end. What they do is said here without it, as one
equation for each, and that is all a proof about them has to open. Where a loop is in the middle of
its work is said by the steps it has made: `XPathScan.Trivia.Skips` leads from where the walk over
blanks and comments began to where it is now, with the flags it has gathered.

* `XPathScan.Trivia.commentRest_eq` – one step inside a comment;
* `XPathScan.Trivia.skip_eq` – one step between two tokens;
* `XPathScan.Trivia.Skips.skip_eq` – what a walk comes to is what its rest comes to.
-/

namespace XPathScan.Trivia

variable {σ : Type} {n : Nat} [Source σ]

/-- **One step inside a comment**: two bytes that open or close one, or else one byte. -/
theorem commentRest_eq (start : Position) (depth : UInt32) (c : Cursor σ n) :
    commentRest start depth c =
      if depth = 0 then .ok () c
      else
        match c.peek with
        | none => .error (.malformed .unterminatedComment start) c
        | some b =>
          match c.skipByte with
          | .error e c₁ => .error e c₁
          | .ok _ c₁ =>
            if b = Ascii.leftParen ∧ c₁.peek = some Ascii.colon then
              match c₁.skipByte with
              | .error e c₂ => .error e c₂
              | .ok _ c₂ => commentRest start (depth + 1) c₂
            else if b = Ascii.colon ∧ c₁.peek = some Ascii.rightParen then
              match c₁.skipByte with
              | .error e c₂ => .error e c₂
              | .ok _ c₂ => commentRest start (depth - 1) c₂
            else commentRest start depth c₁ := by
  rw [commentRest]
  congr 1
  split
  · next hpeek => simp only [hpeek]
  · next b hpeek =>
    simp only [hpeek]
    split
    · next hbyte => simp only [hbyte]
    · next hbyte =>
      simp only [hbyte]
      congr 1
      · split <;> next hsecond => simp only [hsecond]
      · congr 1
        split <;> next hsecond => simp only [hsecond]

/-- **One step between two tokens**: a blank, or a whole comment. -/
theorem skip_eq (classes : ByteClass) (version : Version) (flags : Flags) (c : Cursor σ n) :
    skip classes version flags c =
      match c.peek with
      | none => .ok flags c
      | some b =>
        if classes.isSpace b then
          match c.skipByte with
          | .error e c₁ => .error e c₁
          | .ok _ c₁ => skip classes version (flags ||| blankFlag b) c₁
        else if b = Ascii.leftParen ∧ version.supports .comments then
          match opensComment c with
          | .error e c₁ => .error e c₁
          | .ok false c₁ => .ok flags c₁
          | .ok true c₁ =>
            match comment c₁ with
            | .error e c₂ => .error e c₂
            | .ok _ c₂ => skip classes version (flags ||| .commentBefore) c₂
        else .ok flags c := by
  rw [skip]
  split
  · next hpeek => simp only [hpeek]
  · next b hpeek =>
    simp only [hpeek]
    congr 1
    · split <;> next hbyte => simp only [hbyte]
    · congr 1
      split
      · next hopens => simp only [hopens]
      · next hopens => simp only [hopens]
      · next hopens =>
        simp only [hopens]
        split <;> next hcomment => simp only [hcomment]

/-! ### A walk that is under way -/

/-- **Where a walk over blanks and comments is on its way**: the cursor it has come to, with the
flags it has gathered. -/
inductive Skips (classes : ByteClass) (version : Version) (flags : Flags) (c : Cursor σ n) :
    Flags → Cursor σ n → Prop
  /-- It has not begun. -/
  | start : Skips classes version flags c flags c
  /-- It has stepped over one more blank. -/
  | blank {flags' : Flags} {c' c₁ : Cursor σ n} {b : UInt8} :
      Skips classes version flags c flags' c' → c'.peek = some b → classes.isSpace b = true →
      c'.skipByte = .ok () c₁ → Skips classes version flags c (flags' ||| blankFlag b) c₁
  /-- It has stepped over one more comment. -/
  | comment {flags' : Flags} {c' c₁ c₂ : Cursor σ n} :
      Skips classes version flags c flags' c' → c'.peek = some Ascii.leftParen →
      classes.isSpace Ascii.leftParen = false → version.supports .comments = true →
      opensComment c' = .ok true c₁ → Trivia.comment c₁ = .ok () c₂ →
      Skips classes version flags c (flags' ||| .commentBefore) c₂

/-- **What a walk comes to is what its rest comes to.** -/
theorem Skips.skip_eq {classes : ByteClass} {version : Version} {flags flags' : Flags}
    {c c' : Cursor σ n} (h : Skips classes version flags c flags' c') :
    skip classes version flags c = skip classes version flags' c' := by
  induction h with
  | start => rfl
  | blank _ hpeek hspace hbyte ih =>
    rw [ih, Trivia.skip_eq, hpeek]
    simp only [hspace, hbyte, ↓reduceIte]
  | comment _ hpeek hspace hversion hopens hcomment ih =>
    rw [ih, Trivia.skip_eq, hpeek]
    simp only [hspace, hversion, hopens, hcomment, and_self, Bool.false_eq_true, ↓reduceIte]

end XPathScan.Trivia
