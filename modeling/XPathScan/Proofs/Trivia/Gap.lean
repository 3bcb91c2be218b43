import XPathScan.Proofs.Trivia.Complete

/-!
# Gaps for any byte classes

What stands between two tokens depends on what counts as a blank. With any byte classes a gap is
made of blanks and comments; but if a parenthesis is a blank, it opens no comment. The walk over a
gap ends at something that is neither, or at a comment that is never closed.

The walk counts how many comments are open. What it steps over is made of blanks and of what it
takes for comments (`XPathScan.Crossed`), and in a shallow text these are the comments and no
others (`XPathScan.splits_iff_crossed`).

* `XPathScan.Trivia.exists_crossed_take_extent` – what the walk has stepped over, wherever it ends;
* `XPathScan.Trivia.extent_of_crossed` – that before a text without a gap this is stepped over, and
  its flags are those of its parts;
* `XPathScan.Trivia.unclosed_of_extent` – where the walk fails a comment opens, and none ends;
* `XPathScan.Trivia.gapFree_of_extent` – where it ends there is no gap any more;
* `XPathScan.Trivia.extent_opens` – with 2³² comments open the walk ends, and none of them does.
-/

namespace XPathScan

/-- **What may stand between two tokens**, for some byte classes and a version. -/
inductive IsGap (classes : ByteClass) (version : Version) : List UInt8 → Prop
  /-- There may be nothing. -/
  | nil : IsGap classes version []
  /-- A blank. -/
  | blank {b : UInt8} {t : List UInt8} : classes.isSpace b = true →
      IsGap classes version t → IsGap classes version (b :: t)
  /-- A comment. -/
  | comment {c t : List UInt8} : .xpath20 ≤ version → classes.isSpace Ascii.leftParen = false →
      IsComment c → IsGap classes version t → IsGap classes version (c ++ t)

/-- **A part of a gap.** -/
inductive GapPart where
  /-- A blank outside comments. -/
  | blank (b : UInt8)
  /-- A whole comment. -/
  | comment (bytes : List UInt8)
  deriving DecidableEq

/-- The flag that a part of a gap leaves. -/
def GapPart.flag : GapPart → Flags
  | .blank b => Trivia.blankFlag b
  | .comment _ => .commentBefore

/-- **The flags of a gap**: those of its parts. -/
def gapFlags (parts : List GapPart) : Flags := parts.foldl (fun f part => f ||| part.flag) .none

/-- **A gap and its parts**, in their order. -/
inductive Splits (classes : ByteClass) (version : Version) : List UInt8 → List GapPart → Prop
  /-- There may be nothing. -/
  | nil : Splits classes version [] []
  /-- A blank. -/
  | blank {b : UInt8} {t : List UInt8} {parts : List GapPart} : classes.isSpace b = true →
      Splits classes version t parts → Splits classes version (b :: t) (.blank b :: parts)
  /-- A comment. -/
  | comment {c t : List UInt8} {parts : List GapPart} : .xpath20 ≤ version →
      classes.isSpace Ascii.leftParen = false → IsComment c →
      Splits classes version t parts → Splits classes version (c ++ t) (.comment c :: parts)

/-- **Every gap has parts.** -/
theorem IsGap.exists_splits {classes : ByteClass} {version : Version} {g : List UInt8}
    (h : IsGap classes version g) : ∃ parts, Splits classes version g parts := by
  induction h with
  | nil => exact ⟨[], .nil⟩
  | blank hb _ ih =>
    obtain ⟨parts, hparts⟩ := ih
    exact ⟨_, .blank hb hparts⟩
  | comment hversion hspace hc _ ih =>
    obtain ⟨parts, hparts⟩ := ih
    exact ⟨_, .comment hversion hspace hc hparts⟩

/-- What has parts is a gap. -/
theorem Splits.isGap {classes : ByteClass} {version : Version} {g : List UInt8}
    {parts : List GapPart} (h : Splits classes version g parts) : IsGap classes version g := by
  induction h with
  | nil => exact .nil
  | blank hb _ ih => exact .blank hb ih
  | comment hversion hspace hc _ ih => exact .comment hversion hspace hc ih

/-! ### Comments as they are counted -/

/-- **What is taken for a comment**: two bytes that open one, and all bytes up to where the counter
is at zero again. -/
def IsCounted (c : List UInt8) : Prop :=
  ∃ t, countedLength 1 t = some t.length ∧ c = Ascii.leftParen :: Ascii.colon :: t

/-- **What is stepped over between two tokens**, part by part: blanks, and what is taken for a
comment. -/
inductive Crossed (classes : ByteClass) (version : Version) : List UInt8 → List GapPart → Prop
  /-- There may be nothing. -/
  | nil : Crossed classes version [] []
  /-- A blank. -/
  | blank {b : UInt8} {t : List UInt8} {parts : List GapPart} : classes.isSpace b = true →
      Crossed classes version t parts → Crossed classes version (b :: t) (.blank b :: parts)
  /-- What is taken for a comment. -/
  | comment {c t : List UInt8} {parts : List GapPart} : .xpath20 ≤ version →
      classes.isSpace Ascii.leftParen = false → IsCounted c →
      Crossed classes version t parts → Crossed classes version (c ++ t) (.comment c :: parts)

/-- **Below 2³² levels the comments are what is taken for them.** -/
theorem isComment_iff_isCounted {c : List UInt8} (hshallow : Shallow c) :
    IsComment c ↔ IsCounted c := by
  constructor
  · intro h
    obtain ⟨t, rfl⟩ : ∃ t, c = Ascii.leftParen :: Ascii.colon :: t := by
      obtain ⟨inside, -, rfl⟩ := h
      exact ⟨_, rfl⟩
    obtain ⟨k, hk, hlen⟩ := h.commentLength_eq List.prefix_rfl
    obtain rfl : t.length = k := by simpa using hlen
    exact ⟨t, hshallow.countedLength_eq.trans hk, rfl⟩
  · rintro ⟨t, ht, rfl⟩
    rw [hshallow.countedLength_eq] at ht
    have hcomment := isComment_take ht
    rwa [List.take_length] at hcomment

/-- **The gaps of a shallow text are what is stepped over**, with the same parts. -/
theorem splits_iff_crossed {classes : ByteClass} {version : Version} {g : List UInt8}
    {parts : List GapPart} (hshallow : Shallow g) :
    Splits classes version g parts ↔ Crossed classes version g parts := by
  constructor
  · intro h
    induction h with
    | nil => exact .nil
    | blank hb _ ih => exact .blank hb (ih (hshallow.of_suffix (List.suffix_cons _ _)))
    | comment hversion hspace hc _ ih =>
      exact .comment hversion hspace ((isComment_iff_isCounted hshallow.of_append).mp hc)
        (ih (hshallow.of_suffix (List.suffix_append _ _)))
  · intro h
    induction h with
    | nil => exact .nil
    | blank hb _ ih => exact .blank hb (ih (hshallow.of_suffix (List.suffix_cons _ _)))
    | comment hversion hspace hc _ ih =>
      exact .comment hversion hspace ((isComment_iff_isCounted hshallow.of_append).mpr hc)
        (ih (hshallow.of_suffix (List.suffix_append _ _)))

/-- What is stepped over in a shallow text is a gap. -/
theorem Crossed.isGap {classes : ByteClass} {version : Version} {g : List UInt8}
    {parts : List GapPart} (h : Crossed classes version g parts) (hshallow : Shallow g) :
    IsGap classes version g :=
  ((splits_iff_crossed hshallow).mpr h).isGap

/-- A gap of a shallow text is stepped over. -/
theorem IsGap.exists_crossed {classes : ByteClass} {version : Version} {g : List UInt8}
    (h : IsGap classes version g) (hshallow : Shallow g) :
    ∃ parts, Crossed classes version g parts := by
  obtain ⟨parts, hparts⟩ := h.exists_splits
  exact ⟨parts, (splits_iff_crossed hshallow).mp hparts⟩

/-! ### Where there is no gap -/

/-- **A text that starts with the beginning of a comment**, whether it is closed or not. -/
def OpensComment (classes : ByteClass) (version : Version) (t : List UInt8) : Prop :=
  .xpath20 ≤ version ∧ classes.isSpace Ascii.leftParen = false ∧
    [Ascii.leftParen, Ascii.colon] <+: t

/-- **A text with no gap at its beginning**, not even one that is not closed. -/
structure GapFree (classes : ByteClass) (version : Version) (t : List UInt8) : Prop where
  /-- The first byte is not a blank. -/
  not_blank : ∀ b, t.head? = some b → classes.isSpace b = false
  /-- No comment opens there. -/
  not_opens : ¬OpensComment classes version t

/-- With the blanks of XML, what may stand between two tokens is a gap. -/
theorem IsTrivia.isGap {version : Version} {g : List UInt8} (h : IsTrivia version g) :
    IsGap .xml version g := by
  induction h with
  | nil => exact .nil
  | blank hb _ ih => exact .blank (by simpa [ByteClass.xml, or_assoc] using hb) ih
  | comment hversion hc _ ih => exact .comment hversion (by decide) hc ih

/-- With the blanks of XML, a gap is what may stand between two tokens. -/
theorem IsGap.isTrivia {version : Version} {g : List UInt8} (h : IsGap .xml version g) :
    IsTrivia version g := by
  induction h with
  | nil => exact .nil
  | blank hb _ ih => exact .blank (by simpa [ByteClass.xml, or_assoc] using hb) ih
  | comment hversion _ hc _ ih => exact .comment hversion hc ih

/-- With the blanks of XML, a text that starts with nothing of the kind has no gap. -/
theorem gapFree_xml {version : Version} {t : List UInt8} (h : ¬StartsTrivia version t) :
    GapFree .xml version t where
  not_blank b hb := by
    refine Bool.eq_false_iff.mpr fun hspace => h (Or.inl ⟨b, ?_, hb⟩)
    simpa [ByteClass.xml, or_assoc] using hspace
  not_opens := fun ⟨hversion, _, hpair⟩ => h (Or.inr ⟨hversion, hpair⟩)

/-- A text that starts with neither a blank nor a parenthesis has no gap. -/
theorem gapFree_cons {classes : ByteClass} {version : Version} {b : UInt8}
    (hspace : classes.isSpace b = false) (hb : b ≠ Ascii.leftParen) (t : List UInt8) :
    GapFree classes version (b :: t) where
  not_blank b' hb' := by
    obtain rfl : b = b' := by simpa using hb'
    exact hspace
  not_opens := fun ⟨_, _, hpair⟩ => hb (List.cons_prefix_cons.mp hpair).1.symm

namespace Trivia

variable {classes : ByteClass} {version : Version} {flags flags' : Flags} {k : Nat}
  {t : List UInt8}

/-- How far a walk over blanks and comments has come, also if it fails. -/
def reached : Except Nat (Flags × Nat) → Nat
  | .ok (_, k) => k
  | .error k => k

theorem reached_shift (j : Nat) (e : Except Nat (Flags × Nat)) :
    reached (shift j e) = reached e + j := by
  rcases e with l | ⟨flags, l⟩ <;> rfl

/-- A walk that fails behind some bytes fails, that many bytes further. -/
theorem shift_eq_error {j : Nat} {e : Except Nat (Flags × Nat)} (h : shift j e = .error k) :
    ∃ l, e = .error l ∧ l + j = k := by
  rcases e with l | ⟨flags, l⟩
  · exact ⟨l, rfl, Except.error.inj h⟩
  · cases h

/-- **What has been stepped over**, part by part. -/
theorem exists_crossed_take_extent (classes : ByteClass) (version : Version) (flags : Flags)
    (t : List UInt8) :
    ∃ parts, Crossed classes version (t.take (reached (extent classes version flags t))) parts := by
  induction flags, t using extent.induct classes version with
  | case1 flags =>
    rw [List.take_nil]
    exact ⟨[], .nil⟩
  | case2 flags b t hspace ih =>
    obtain ⟨parts, hparts⟩ := ih
    rw [extent, if_pos hspace, reached_shift]
    exact ⟨_, .blank hspace hparts⟩
  | case3 flags b t hspace hopen hlen =>
    rw [extent, if_neg hspace, if_pos hopen, hlen]
    exact ⟨[], .nil⟩
  | case4 flags b t hspace hopen j hlen ih =>
    obtain ⟨parts, hparts⟩ := ih
    rw [extent, if_neg hspace, if_pos hopen, hlen]
    obtain ⟨rfl, hversion, hcolon⟩ := hopen
    obtain ⟨t, rfl⟩ := List.head?_eq_some_iff.mp hcolon
    simp only [reached_shift]
    rw [← Nat.add_assoc, Nat.add_comm _ j, List.take_succ_cons, List.take_succ_cons, List.take_add]
    exact ⟨_, .comment (of_decide_eq_true hversion) (by simpa using hspace)
      ⟨t.take j, countedLength_take hlen, rfl⟩ hparts⟩
  | case5 flags b t hspace hopen =>
    rw [extent, if_neg hspace, if_neg hopen]
    exact ⟨[], .nil⟩

/-- A comment that has no length is not closed by any bytes. -/
theorem not_isComment_of_commentLength (h : commentLength 1 t = none) {c : List UInt8}
    (hc : IsComment c) : ¬c <+: Ascii.leftParen :: Ascii.colon :: t := by
  intro hbegins
  obtain ⟨k, hk, -⟩ := hc.commentLength_eq hbegins
  rw [h] at hk
  cases hk

/-- **Where the walk fails a comment opens**, and none that starts there ends. -/
theorem unclosed_of_extent (h : extent classes version flags t = .error k) :
    OpensComment classes version (t.drop k) ∧ ∀ c, IsComment c → ¬c <+: t.drop k := by
  induction flags, t using extent.induct classes version generalizing k with
  | case1 flags => simp [extent] at h
  | case2 flags b t hspace ih =>
    rw [extent, if_pos hspace] at h
    obtain ⟨l, hl, rfl⟩ := shift_eq_error h
    exact ih hl
  | case3 flags b t hspace hopen hlen =>
    rw [extent, if_neg hspace, if_pos hopen, hlen] at h
    obtain rfl := Except.error.inj h
    obtain ⟨rfl, hversion, hcolon⟩ := hopen
    obtain ⟨t, rfl⟩ := List.head?_eq_some_iff.mp hcolon
    refine ⟨⟨of_decide_eq_true hversion, by simpa using hspace, t, rfl⟩, fun c hc => ?_⟩
    exact not_isComment_of_commentLength (commentLength_eq_none hlen) hc
  | case4 flags b t hspace hopen j hlen ih =>
    rw [extent, if_neg hspace, if_pos hopen, hlen] at h
    obtain ⟨l, hl, rfl⟩ := shift_eq_error h
    obtain ⟨t, rfl⟩ := List.head?_eq_some_iff.mp hopen.2.2
    rw [show l + (j + 2) = j + l + 2 by omega, List.drop_succ_cons, List.drop_succ_cons,
      ← List.drop_drop]
    exact ih hl
  | case5 flags b t hspace hopen => simp [extent, if_neg hspace, if_neg hopen] at h

/-- **Where the walk ends there is no gap any more.** -/
theorem gapFree_of_extent (h : extent classes version flags t = .ok (flags', k)) :
    GapFree classes version (t.drop k) := by
  have hstop := extent_drop_extent h
  generalize t.drop k = rest at hstop
  constructor
  · intro b hb
    obtain ⟨rest, rfl⟩ := List.head?_eq_some_iff.mp hb
    exact (not_opens_of_extent hstop).1
  · rintro ⟨hversion, -, rest, rfl⟩
    exact (not_opens_of_extent hstop).2 ⟨rfl, decide_eq_true hversion, rfl⟩

/-- Where there is no gap nothing is stepped over. -/
theorem extent_of_gapFree (h : GapFree classes version t) :
    extent classes version flags t = .ok (flags, 0) := by
  cases t with
  | nil => rw [extent]
  | cons b t =>
    have hspace : ¬classes.isSpace b = true := by simp [h.not_blank b rfl]
    have hopen : ¬(b = Ascii.leftParen ∧ version.supports .comments ∧
        t.head? = some Ascii.colon) := by
      rintro ⟨rfl, hversion, hcolon⟩
      obtain ⟨t, rfl⟩ := List.head?_eq_some_iff.mp hcolon
      exact h.not_opens ⟨of_decide_eq_true hversion, h.not_blank _ rfl, t, rfl⟩
    rw [extent, if_neg hspace, if_neg hopen]

/-- **What is stepped over anywhere is stepped over**, if there is no gap behind it, and leaves the
flags of its parts. -/
theorem extent_of_crossed {g : List UInt8} {parts : List GapPart}
    (h : Crossed classes version g parts) (ht : GapFree classes version t) (flags : Flags) :
    extent classes version flags (g ++ t) =
      .ok (parts.foldl (fun f part => f ||| part.flag) flags, g.length) := by
  induction h generalizing flags with
  | nil => exact extent_of_gapFree ht
  | @blank b g parts hb _ ih =>
    rw [List.cons_append, extent, if_pos hb, ih (flags ||| blankFlag b)]
    rfl
  | @comment c g parts hversion hspace hc _ ih =>
    obtain ⟨rest, hrest, rfl⟩ := hc
    -- The counter comes to zero where it does without the bytes behind.
    have hlen : countedLength 1 (rest ++ (g ++ t)) = some rest.length := by
      simpa using countedLength_take_append hrest (g ++ t)
    simp only [List.cons_append, List.append_assoc]
    rw [extent, if_neg (by simp [hspace]), if_pos ⟨rfl, decide_eq_true hversion, rfl⟩,
      List.tail_cons, hlen]
    simp only
    rw [List.drop_left, ih (flags ||| .commentBefore), shift]
    simp only [List.length_cons, List.length_append, List.foldl_cons, GapPart.flag]
    congr 2
    omega

/-! ### Where the counter stops -/

/-- **With 2³² comments open the walk ends**, although none of them is closed. -/
theorem extent_opens (hversion : .xpath20 ≤ version)
    (hspace : classes.isSpace Ascii.leftParen = false) (flags : Flags) :
    extent classes version flags (opens UInt32.size) =
        .ok (flags ||| .commentBefore, 2 * UInt32.size) ∧
      ∀ c, IsComment c → ¬c <+: opens UInt32.size := by
  obtain ⟨k, hk⟩ : ∃ k, UInt32.size = k + 1 := ⟨UInt32.size - 1, rfl⟩
  have hcounted : countedLength 1 (opens k) = some (2 * k) :=
    countedLength_opens (by omega)
  rw [hk, opens]
  refine ⟨?_, fun c hc => not_isComment_of_commentLength (commentLength_opens 0 k) hc⟩
  rw [extent, if_neg (by simp [hspace]), if_pos ⟨rfl, decide_eq_true hversion, rfl⟩,
    List.tail_cons, hcounted]
  simp only
  rw [List.drop_eq_nil_of_le (Nat.le_of_eq (length_opens k)), extent, shift, Nat.zero_add,
    Nat.mul_succ]

end Trivia

end XPathScan
