import XPathScan.Proofs.Trivia.Walk

/-!
# The language of blanks and comments

What may stand between two tokens, said without the walk that steps over it. A comment is made of
the two bytes that open it, some items, and the two bytes that close it. An item is a comment, or a
run of bytes in which nothing opens or closes. Two runs do not stand side by side, since together
they would be one; and a run before the end does not end in a parenthesis, since with the colon of
the end it would open another comment.

* `XPathScan.IsComment` – the comments;
* `XPathScan.IsTrivia` – any number of blanks and, from version 2.0 on, comments;
* `XPathScan.isComment_take` – what closes a comment makes it one of these;
* `XPathScan.Trivia.not_startsTrivia_drop_extent` – nothing of this form is left behind a walk over
  blanks and comments.
-/

namespace XPathScan

/-- **A run of bytes in which no comment opens or closes.** -/
def IsRun (t : List UInt8) : Prop :=
  t ≠ [] ∧ ¬[Ascii.leftParen, Ascii.colon] <:+: t ∧ ¬[Ascii.colon, Ascii.rightParen] <:+: t

/-- **The inside of a comment.** A run is either the last item, or a comment comes after it. -/
inductive IsInside : List UInt8 → Prop
  /-- There may be nothing inside. -/
  | nil : IsInside []
  /-- A run as the last item. -/
  | run {r : List UInt8} : IsRun r → r.getLast? ≠ some Ascii.leftParen → IsInside r
  /-- A comment, and what comes after it. -/
  | comment {t u : List UInt8} : IsInside t → IsInside u →
      IsInside (Ascii.leftParen :: Ascii.colon :: t ++ Ascii.colon :: Ascii.rightParen :: u)
  /-- A run, a comment, and what comes after it. -/
  | runComment {r t u : List UInt8} : IsRun r → IsInside t → IsInside u →
      IsInside (r ++ (Ascii.leftParen :: Ascii.colon :: t ++ Ascii.colon :: Ascii.rightParen :: u))

/-- **A comment.** -/
def IsComment (t : List UInt8) : Prop :=
  ∃ inside, IsInside inside ∧
    t = Ascii.leftParen :: Ascii.colon :: inside ++ [Ascii.colon, Ascii.rightParen]

/-- **What may stand between two tokens** of a version: blanks and, from version 2.0 on,
comments. -/
inductive IsTrivia (version : Version) : List UInt8 → Prop
  /-- There may be nothing. -/
  | nil : IsTrivia version []
  /-- A blank. -/
  | blank {b : UInt8} {t : List UInt8} :
      b ∈ [Ascii.space, Ascii.tab, Ascii.carriageReturn, Ascii.lineFeed] →
      IsTrivia version t → IsTrivia version (b :: t)
  /-- A comment. -/
  | comment {c t : List UInt8} : .xpath20 ≤ version → IsComment c →
      IsTrivia version t → IsTrivia version (c ++ t)

/-- **A text that starts with something that may stand between two tokens.** -/
def StartsTrivia (version : Version) (t : List UInt8) : Prop :=
  (∃ b ∈ [Ascii.space, Ascii.tab, Ascii.carriageReturn, Ascii.lineFeed], t.head? = some b) ∨
    .xpath20 ≤ version ∧ [Ascii.leftParen, Ascii.colon] <+: t

/-! ### Comments -/

/-- A byte before a run that makes no pair with its first byte makes the run longer. -/
theorem IsRun.cons {b : UInt8} {r : List UInt8} (h : IsRun r)
    (hopen : ¬(b = Ascii.leftParen ∧ r.head? = some Ascii.colon))
    (hclose : ¬(b = Ascii.colon ∧ r.head? = some Ascii.rightParen)) : IsRun (b :: r) := by
  obtain ⟨hne, hnopen, hnclose⟩ := h
  obtain ⟨a, r, rfl⟩ := List.exists_cons_of_ne_nil hne
  refine ⟨List.cons_ne_nil _ _, fun hin => ?_, fun hin => ?_⟩
  · rcases List.infix_cons_iff.mp hin with hpre | hin
    · obtain ⟨hb, ha⟩ : Ascii.leftParen = b ∧ Ascii.colon = a := by
        simpa [List.cons_prefix_cons] using hpre
      exact hopen ⟨hb.symm, by rw [List.head?_cons, ha]⟩
    · exact hnopen hin
  · rcases List.infix_cons_iff.mp hin with hpre | hin
    · obtain ⟨hb, ha⟩ : Ascii.colon = b ∧ Ascii.rightParen = a := by
        simpa [List.cons_prefix_cons] using hpre
      exact hclose ⟨hb.symm, by rw [List.head?_cons, ha]⟩
    · exact hnclose hin

/-- One byte is a run. -/
theorem isRun_singleton (b : UInt8) : IsRun [b] := by
  refine ⟨List.cons_ne_nil _ _, fun hin => ?_, fun hin => ?_⟩
  · simpa using hin.length_le
  · simpa using hin.length_le

/-- **A byte that makes no pair with what comes after it belongs to the inside of a comment.** -/
theorem IsInside.cons {b : UInt8} {t : List UInt8} (h : IsInside t)
    (hopen : ¬(b = Ascii.leftParen ∧
      (t ++ [Ascii.colon, Ascii.rightParen]).head? = some Ascii.colon))
    (hclose : ¬(b = Ascii.colon ∧
      (t ++ [Ascii.colon, Ascii.rightParen]).head? = some Ascii.rightParen)) :
    IsInside (b :: t) := by
  cases h with
  | nil =>
    refine .run (isRun_singleton b) fun hlast => ?_
    simp only [List.getLast?_singleton, Option.some.injEq] at hlast
    exact hopen ⟨hlast, rfl⟩
  | run hrun hlast =>
    obtain ⟨a, r, rfl⟩ := List.exists_cons_of_ne_nil hrun.1
    refine .run (hrun.cons hopen hclose) ?_
    rwa [List.getLast?_cons_cons]
  | comment ht hu => exact .runComment (isRun_singleton b) ht hu
  | @runComment r t u hrun ht hu =>
    obtain ⟨a, r, rfl⟩ := List.exists_cons_of_ne_nil hrun.1
    exact .runComment (hrun.cons hopen hclose) ht hu

/-- **The rest of nested comments**: for each of them the rest of its inside, and its end. -/
inductive IsCommentRest : Nat → List UInt8 → Prop
  /-- All comments are closed. -/
  | zero : IsCommentRest 0 []
  /-- The innermost comment is closed, and the others after it. -/
  | succ {depth : Nat} {t u : List UInt8} : IsInside t → IsCommentRest depth u →
      IsCommentRest (depth + 1) (t ++ Ascii.colon :: Ascii.rightParen :: u)

/-- **What is stepped over from inside a comment closes it**, and all comments opened on the way. -/
theorem isCommentRest_take {depth k : Nat} {t : List UInt8} (h : commentLength depth t = some k) :
    IsCommentRest depth (t.take k) := by
  induction depth, t using commentLength.induct generalizing k with
  | case1 t =>
    obtain rfl : 0 = k := by simpa [commentLength] using h
    exact .zero
  | case2 depth => simp [commentLength] at h
  | case3 depth b => simp [commentLength] at h
  | case4 depth b b' t hopen ih =>
    rw [commentLength, if_pos hopen] at h
    obtain ⟨l, hl, rfl⟩ := Option.map_eq_some_iff.mp h
    -- The comment that opens here is closed first, and what comes then is still inside.
    generalize hrest : t.take l = rest
    have hclosed := ih hl
    rw [hrest] at hclosed
    rcases hclosed with _ | ⟨hfirst, _ | ⟨hinside, hothers⟩⟩
    rw [List.take_succ_cons, List.take_succ_cons, hrest, hopen.1, hopen.2]
    simpa using IsCommentRest.succ (.comment hfirst hinside) hothers
  | case5 depth b b' t hopen hclose ih =>
    rw [commentLength, if_neg hopen, if_pos hclose] at h
    obtain ⟨l, hl, rfl⟩ := Option.map_eq_some_iff.mp h
    rw [List.take_succ_cons, List.take_succ_cons, hclose.1, hclose.2]
    exact .succ .nil (ih hl)
  | case6 depth b b' t hopen hclose ih =>
    rw [commentLength, if_neg hopen, if_neg hclose] at h
    obtain ⟨l, hl, rfl⟩ := Option.map_eq_some_iff.mp h
    -- The byte belongs to the run that comes after it, or makes a run of its own.
    generalize hrest : (b' :: t).take l = rest
    have hclosed := ih hl
    rw [hrest] at hclosed
    rcases hclosed with _ | @⟨_, inside, others, hinside, hothers⟩
    have hhead : (inside ++ [Ascii.colon, Ascii.rightParen]).head? = some b' := by
      have hsame := congrArg List.head? hrest
      cases l with
      | zero => simp at hrest
      | succ l => cases inside <;> simpa [eq_comm] using hsame
    rw [List.take_succ_cons, hrest, ← List.cons_append]
    refine .succ (hinside.cons ?_ ?_) hothers
    · rw [hhead]
      simpa using hopen
    · rw [hhead]
      simpa using hclose

/-- A comment that has a length is one. -/
theorem isComment_take {k : Nat} {t : List UInt8} (h : commentLength 1 t = some k) :
    IsComment (Ascii.leftParen :: Ascii.colon :: t.take k) := by
  generalize hrest : t.take k = rest
  have hclosed := isCommentRest_take h
  rw [hrest] at hclosed
  rcases hclosed with _ | ⟨hinside, _ | _⟩
  exact ⟨_, hinside, rfl⟩

/-! ### Blanks and comments -/

namespace Trivia

/-- What is found behind some bytes is found, that many bytes further. -/
theorem shift_eq_ok {j k : Nat} {flags : Flags} {e : Except Nat (Flags × Nat)}
    (h : shift j e = .ok (flags, k)) : ∃ l, e = .ok (flags, l) ∧ l + j = k := by
  rcases e with l | ⟨flags', l⟩
  · cases h
  · obtain ⟨rfl, hk⟩ : flags' = flags ∧ l + j = k := by simpa [shift] using h
    exact ⟨l, rfl, hk⟩

/-- **Behind blanks and comments that are stepped over, none are left.** -/
theorem extent_drop_extent {classes : ByteClass} {version : Version} {flags flags' : Flags}
    {k : Nat} {t : List UInt8} (h : extent classes version flags t = .ok (flags', k)) :
    extent classes version flags' (t.drop k) = .ok (flags', 0) := by
  induction flags, t using extent.induct classes version generalizing k with
  | case1 flags =>
    obtain ⟨rfl, rfl⟩ : flags = flags' ∧ 0 = k := by simpa [extent] using h
    exact h
  | case2 flags b t hspace ih =>
    rw [extent, if_pos hspace] at h
    obtain ⟨l, hl, rfl⟩ := shift_eq_ok h
    exact ih hl
  | case3 flags b t hspace hopen hlen =>
    rw [extent, if_neg hspace, if_pos hopen, hlen] at h
    cases h
  | case4 flags b t hspace hopen j hlen ih =>
    rw [extent, if_neg hspace, if_pos hopen, hlen] at h
    obtain ⟨l, hl, rfl⟩ := shift_eq_ok h
    obtain ⟨t, rfl⟩ := List.head?_eq_some_iff.mp hopen.2.2
    rw [show l + (j + 2) = j + l + 2 by omega, List.drop_succ_cons, List.drop_succ_cons,
      ← List.drop_drop]
    exact ih hl
  | case5 flags b t hspace hopen =>
    obtain ⟨rfl, rfl⟩ : flags = flags' ∧ 0 = k := by
      simpa [extent, if_neg hspace, if_neg hopen] using h
    exact h

/-- Where nothing is stepped over, the next byte is no blank and opens no comment. -/
theorem not_opens_of_extent {classes : ByteClass} {version : Version} {flags flags' : Flags}
    {b : UInt8} {t : List UInt8} (h : extent classes version flags (b :: t) = .ok (flags', 0)) :
    classes.isSpace b = false ∧ ¬(b = Ascii.leftParen ∧ version.supports .comments ∧
      t.head? = some Ascii.colon) := by
  rw [extent] at h
  split at h
  · obtain ⟨l, -, hl⟩ := shift_eq_ok h
    omega
  · next hspace =>
    refine ⟨by simpa using hspace, fun hopen => ?_⟩
    rw [if_pos hopen] at h
    split at h
    · cases h
    · obtain ⟨l, -, hl⟩ := shift_eq_ok h
      omega

/-- **Blanks and comments are stepped over to their end**: what comes then is something else. -/
theorem not_startsTrivia_drop_extent {version : Version} {flags flags' : Flags} {k : Nat}
    {t : List UInt8} (h : extent .xml version flags t = .ok (flags', k)) :
    ¬StartsTrivia version (t.drop k) := by
  have hstop := extent_drop_extent h
  generalize t.drop k = rest at hstop
  rintro (⟨b, hmem, hhead⟩ | ⟨hversion, rest, rfl⟩)
  · obtain ⟨rest, rfl⟩ := List.head?_eq_some_iff.mp hhead
    have hspace : ByteClass.xml.isSpace b = true := by simpa [ByteClass.xml, or_assoc] using hmem
    exact Bool.false_ne_true ((not_opens_of_extent hstop).1.symm.trans hspace)
  · exact (not_opens_of_extent hstop).2 ⟨rfl, decide_eq_true hversion, rfl⟩

end Trivia

end XPathScan
