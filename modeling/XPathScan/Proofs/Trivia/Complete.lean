import XPathScan.Proofs.Trivia.Language

/-!
# Comments are stepped over

The other direction of the language of comments: whatever belongs to it is stepped over, to its end
and not beyond. The walk takes a comment item by item. In a run it finds no pair that opens or
closes, and at the end of the run none either, whatever stands there; a comment inside takes the
walk one level down and up again (`XPathScan.commentLength_inside`). So a comment that a text begins
with is as long as the walk finds it (`XPathScan.IsComment.commentLength_eq`).
-/

namespace XPathScan

variable {depth k : Nat} {b b' : UInt8} {r t u : List UInt8}

/-- A byte that makes no pair with the next one is stepped over alone. -/
theorem commentLength_cons (hopen : ¬(b = Ascii.leftParen ∧ b' = Ascii.colon))
    (hclose : ¬(b = Ascii.colon ∧ b' = Ascii.rightParen))
    (h : commentLength (depth + 1) (b' :: t) = some k) :
    commentLength (depth + 1) (b :: b' :: t) = some (k + 1) := by
  rw [commentLength, if_neg hopen, if_neg hclose, h]
  rfl

/-- The two bytes that open a comment lead one level down. -/
theorem commentLength_open (h : commentLength (depth + 2) t = some k) :
    commentLength (depth + 1) (Ascii.leftParen :: Ascii.colon :: t) = some (k + 2) := by
  rw [commentLength, if_pos ⟨rfl, rfl⟩, h]
  rfl

/-- The two bytes that close a comment lead one level up. -/
theorem commentLength_close (h : commentLength depth t = some k) :
    commentLength (depth + 1) (Ascii.colon :: Ascii.rightParen :: t) = some (k + 2) := by
  rw [commentLength, if_neg (by decide), if_pos ⟨rfl, rfl⟩, h]
  rfl

/-- Two bytes that stand side by side in a run make no pair. -/
theorem IsRun.not_pair (h : IsRun (b :: b' :: r)) :
    ¬(b = Ascii.leftParen ∧ b' = Ascii.colon) ∧ ¬(b = Ascii.colon ∧ b' = Ascii.rightParen) := by
  obtain ⟨-, hopen, hclose⟩ := h
  constructor
  · rintro ⟨rfl, rfl⟩
    exact hopen ⟨[], r, rfl⟩
  · rintro ⟨rfl, rfl⟩
    exact hclose ⟨[], r, rfl⟩

/-- A run without its first byte is a run, if anything is left. -/
theorem IsRun.tail (h : IsRun (b :: b' :: r)) : IsRun (b' :: r) := by
  obtain ⟨-, hopen, hclose⟩ := h
  exact ⟨List.cons_ne_nil _ _, fun hin => hopen (hin.trans (List.suffix_cons b _).isInfix),
    fun hin => hclose (hin.trans (List.suffix_cons b _).isInfix)⟩

/-- **A run is stepped over byte by byte**, up to a byte that makes no pair with the last one. -/
theorem commentLength_run (hr : IsRun r)
    (hopen : ¬(r.getLast? = some Ascii.leftParen ∧ b = Ascii.colon))
    (hclose : ¬(r.getLast? = some Ascii.colon ∧ b = Ascii.rightParen))
    (h : commentLength (depth + 1) (b :: t) = some k) :
    commentLength (depth + 1) (r ++ b :: t) = some (k + r.length) := by
  induction r with
  | nil => exact absurd rfl hr.1
  | cons a r ih =>
    cases r with
    | nil => exact commentLength_cons (by simpa using hopen) (by simpa using hclose) h
    | cons a' r =>
      obtain ⟨hnopen, hnclose⟩ := hr.not_pair
      rw [List.getLast?_cons_cons] at hopen hclose
      exact commentLength_cons hnopen hnclose (ih hr.tail hopen hclose)

/-- **The inside of a comment and its end are stepped over**, and the walk is one level up. -/
theorem commentLength_inside (ht : IsInside t) (h : commentLength depth u = some k) :
    commentLength (depth + 1) (t ++ Ascii.colon :: Ascii.rightParen :: u) =
      some (k + t.length + 2) := by
  induction ht generalizing depth u k with
  | nil => exact commentLength_close h
  | @run r hr hlast =>
    rw [commentLength_run hr (by simp [hlast]) (by simp [Ascii.colon, Ascii.rightParen])
      (commentLength_close h), Nat.add_right_comm]
  | @comment t u' _ _ iht ihu =>
    -- The comment inside is opened and closed, and what comes after it is inside again.
    have hopened := commentLength_open (iht (ihu h))
    simp only [List.cons_append, List.append_assoc, List.length_cons, List.length_append]
    rw [hopened]
    congr 1
    omega
  | @runComment r t u' hr _ _ iht ihu =>
    have hopened := commentLength_run hr (by simp [Ascii.leftParen, Ascii.colon])
      (by simp [Ascii.leftParen, Ascii.rightParen]) (commentLength_open (iht (ihu h)))
    simp only [List.cons_append, List.append_assoc, List.length_cons, List.length_append]
    rw [hopened]
    congr 1
    omega

/-- **A comment at the beginning of a text is as long as the walk finds it.** -/
theorem IsComment.commentLength_eq (h : IsComment u)
    (hu : u <+: Ascii.leftParen :: Ascii.colon :: t) :
    ∃ k, commentLength 1 t = some k ∧ u.length = k + 2 := by
  obtain ⟨inside, hinside, rfl⟩ := h
  obtain ⟨rest, hrest⟩ := hu
  obtain rfl : inside ++ Ascii.colon :: Ascii.rightParen :: rest = t := by simpa using hrest
  have hclosed : commentLength 0 rest = some 0 := by rw [commentLength]
  refine ⟨_, commentLength_inside hinside hclosed, ?_⟩
  simp only [List.cons_append, List.length_cons, List.length_append, List.length_nil]
  omega

end XPathScan
