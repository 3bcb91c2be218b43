import XPathScan.Proofs.Lexer.Calls
import XPathScan.Proofs.Lexer.Positions
import XPathScan.Proofs.Plain.Leads

/-!
# Flags describe the gap before a token

A token comes with flags for what stands between it and the token before it. Three of them are
gathered on the way over that gap and say what its parts are: blanks, line breaks, comments. Two are
settled at the end of the way. A token is adjacent if there was no gap, unless it starts the text;
and it is the first on its line if no token has come before it since the last line feed of a gap.

The last flag is the only one for which the lexer has to remember something from call to call. It
remembers whether there has been a token on the line, and forgets it at a line feed outside tokens,
be it in a comment or not. Behind a token it always remembers that one. So what it knows is no more
than whether this is the first token at all (`XPathScan.Lexer.HasGiven.follows`), and a line feed in
a lexeme does not matter.

* `XPathScan.GapFlags` – what the flags of a token have to say about a gap;
* `XPathScan.Plain.gapFlags_of_found` – that they do, for what lies ahead of a point;
* `XPathScan.Lexer.HasGiven` – the lexer after some tokens, in whatever way they were asked for;
* `XPathScan.Lexer.hasGiven_gapFlags` – that the flags of every token over a faithful source are
  right.
-/

namespace XPathScan

/-! ### Sets by their flags -/

namespace Flags

/-- **The set with the flags for which there is a reason.** -/
def select (space newline comment lineStart adjacent : Bool) : Flags :=
  (if space then spaceBefore else none) ||| (if newline then newlineBefore else none) |||
    (if comment then commentBefore else none) ||| (if lineStart then Flags.lineStart else none) |||
    (if adjacent then Flags.adjacent else none)

variable (s n c l a : Bool)

@[simp] theorem contains_spaceBefore : (select s n c l a).contains .spaceBefore = s := by
  decide +revert

@[simp] theorem contains_newlineBefore : (select s n c l a).contains .newlineBefore = n := by
  decide +revert

@[simp] theorem contains_commentBefore : (select s n c l a).contains .commentBefore = c := by
  decide +revert

@[simp] theorem contains_lineStart : (select s n c l a).contains .lineStart = l := by
  decide +revert

@[simp] theorem contains_adjacent : (select s n c l a).contains .adjacent = a := by
  decide +revert

@[simp] theorem unnamed_select : (select s n c l a).unnamed = 0 := by
  decide +revert

end Flags

/-! ### The flags of a gap -/

/-- The bytes that break a line. -/
def breaksLine (b : UInt8) : Bool := b = Ascii.lineFeed ∨ b = Ascii.carriageReturn

namespace GapPart

/-- A blank with a property. -/
def isBlank (p : UInt8 → Bool) : GapPart → Bool
  | .blank b => p b
  | .comment _ => false

/-- A comment. -/
def isComment : GapPart → Bool
  | .blank _ => false
  | .comment _ => true

/-- A blank that is no line break. -/
abbrev isSpace : GapPart → Bool := isBlank fun b => !breaksLine b

/-- A line break. -/
abbrev isBreak : GapPart → Bool := isBlank breaksLine

/-- **A part adds its own flag to a set.** -/
theorem select_or_flag (part : GapPart) (s n c : Bool) :
    (Flags.select s n c false false ||| part.flag) =
      Flags.select (s || part.isSpace) (n || part.isBreak) (c || part.isComment) false false := by
  cases part with
  | comment bytes =>
    simp only [flag, isBlank, isComment]
    decide +revert
  | blank b =>
    have hflag : Trivia.blankFlag b = if breaksLine b then .newlineBefore else .spaceBefore := by
      simp only [Trivia.blankFlag, breaksLine, decide_eq_true_eq]
    simp only [flag, isBlank, isComment, hflag]
    generalize breaksLine b = breaks
    clear hflag b
    decide +revert

end GapPart

/-- **The flags of a gap say what its parts are.** -/
theorem gapFlags_eq (parts : List GapPart) :
    gapFlags parts = Flags.select (parts.any GapPart.isSpace) (parts.any GapPart.isBreak)
      (parts.any GapPart.isComment) false false := by
  -- The walk has come from somewhere, with flags for what lies behind it.
  have hwalk : ∀ s n c : Bool,
      parts.foldl (fun f part => f ||| part.flag) (Flags.select s n c false false) =
        Flags.select (s || parts.any GapPart.isSpace) (n || parts.any GapPart.isBreak)
          (c || parts.any GapPart.isComment) false false := by
    induction parts with
    | nil => simp
    | cons part parts ih =>
      intro s n c
      rw [List.foldl_cons, part.select_or_flag, ih]
      simp only [List.any_cons, Bool.or_assoc]
  exact (hwalk false false false).trans (by simp only [Bool.false_or])

/-- **The flags of a token** behind a gap. -/
theorem Point.tokenFlags_select (p : Point) (s n c : Bool) :
    p.tokenFlags (Flags.select s n c false false) =
      Flags.select s n c (!p.place.lineHasToken)
        (decide (0 < p.offset) && !(s || n || c)) := by
  rw [tokenFlags]
  generalize p.place.lineHasToken = known
  generalize decide (0 < p.offset) = inside
  decide +revert

/-- **A gap makes a lexer forget the tokens of a line** exactly if there is a line feed in it. -/
theorem Place.lineHasToken_foldl (place : Place) (bytes : List UInt8) :
    (bytes.foldl pastTrivia place).lineHasToken = true ↔
      place.lineHasToken = true ∧ Ascii.lineFeed ∉ bytes := by
  induction bytes generalizing place with
  | nil => simp
  | cons b bytes ih =>
    rw [List.foldl_cons, ih, List.mem_cons, pastTrivia, next]
    split
    · next hb => simp [hb]
    · next hb => simp [Ne.symm hb]

/-! ### What the flags say -/

/-- **A gap that is empty has no parts.** -/
theorem Crossed.nil_iff {classes : ByteClass} {version : Version} {g : List UInt8}
    {parts : List GapPart} (h : Crossed classes version g parts) : parts = [] ↔ g = [] := by
  cases h with
  | nil => simp
  | blank => simp
  | comment _ _ hc =>
    obtain ⟨inside, -, rfl⟩ := hc
    simp

/-- **What the flags of a token have to say** about the gap before it and its parts, and about
whether there has been a token before. -/
structure GapFlags (g : List UInt8) (parts : List GapPart) (first : Prop) (t : Token) : Prop where
  /-- Some blank outside comments is no line break. -/
  space : t.flags.contains .spaceBefore = true ↔
    ∃ b, .blank b ∈ parts ∧ b ≠ Ascii.lineFeed ∧ b ≠ Ascii.carriageReturn
  /-- Some blank outside comments is a line break. -/
  newline : t.flags.contains .newlineBefore = true ↔
    ∃ b, .blank b ∈ parts ∧ (b = Ascii.lineFeed ∨ b = Ascii.carriageReturn)
  /-- There is a comment. -/
  comment : t.flags.contains .commentBefore = true ↔ ∃ c, .comment c ∈ parts
  /-- There is no gap, and the token does not start the text. -/
  adjacent : t.flags.contains .adjacent = true ↔ g = [] ∧ t.span.start ≠ 0
  /-- There is no token before, or else a line feed in between, in a comment or not. -/
  lineStart : t.flags.contains .lineStart = true ↔ first ∨ Ascii.lineFeed ∈ g
  /-- There is nothing else. -/
  unnamed : t.flags.unnamed = 0

section Parts

variable {parts : List GapPart}

theorem any_isBlank_iff (p : UInt8 → Bool) :
    parts.any (GapPart.isBlank p) = true ↔ ∃ b, .blank b ∈ parts ∧ p b = true := by
  rw [List.any_eq_true]
  constructor
  · rintro ⟨b | c, hmem, hb⟩
    · exact ⟨b, hmem, hb⟩
    · cases hb
  · rintro ⟨b, hmem, hb⟩
    exact ⟨_, hmem, hb⟩

theorem any_isComment_iff :
    parts.any GapPart.isComment = true ↔ ∃ c, .comment c ∈ parts := by
  rw [List.any_eq_true]
  constructor
  · rintro ⟨b | c, hmem, hcomment⟩
    · cases hcomment
    · exact ⟨c, hmem⟩
  · rintro ⟨c, hmem⟩
    exact ⟨_, hmem, rfl⟩

/-- Every part of a gap leaves one of the three flags. -/
theorem no_flag_iff : (!(parts.any GapPart.isSpace || parts.any GapPart.isBreak ||
    parts.any GapPart.isComment)) = true ↔ parts = [] := by
  cases parts with
  | nil => simp
  | cons part parts =>
    refine iff_of_false ?_ (List.cons_ne_nil _ _)
    rcases part with b | c
    · cases hb : breaksLine b <;> simp [GapPart.isBlank, hb]
    · simp [GapPart.isComment]

end Parts

namespace Plain

variable {classes : ByteClass} {version : Version} {text : List UInt8} {p q : Point} {t : Token}

/-- Where a token is seen there is no gap any more. -/
theorem Sees.gapFree (h : (Plain.of text classes version).Sees p t q) :
    GapFree classes version (text.drop t.span.start) := by
  obtain ⟨trivia, hextent⟩ := h.gap
  have hfree := Trivia.gapFree_of_extent hextent
  rwa [List.drop_drop, Nat.add_sub_cancel' h.le_start] at hfree

/-- **The flags of a token that is seen** come from the parts of the gap before it, and from what is
known where it starts. -/
theorem Sees.flags_eq (hsees : (Plain.of text classes version).Sees p t q) {parts : List GapPart}
    (hparts : Crossed classes version (Span.slice { start := p.offset, stop := t.span.start } text)
      parts) (h : ((Plain.of text classes version).look p).found = .ok (t, q)) :
    t.flags = Flags.select (parts.any GapPart.isSpace) (parts.any GapPart.isBreak)
      (parts.any GapPart.isComment)
      (!(p.pastGap text (t.span.start - p.offset)).place.lineHasToken)
      (decide (0 < t.span.start) && !(parts.any GapPart.isSpace || parts.any GapPart.isBreak ||
        parts.any GapPart.isComment)) := by
  have hle := hsees.le_start
  have hlength : (Span.slice { start := p.offset, stop := t.span.start } text).length =
      t.span.start - p.offset := length_slice (Nat.le_trans hsees.start_le hsees.stop_le)
  rw [look_of_crossed hparts (slice_append_drop hle text).symm hsees.gapFree, hlength] at h
  obtain ⟨kind, k, -, htoken, -⟩ := readToken_eq_ok h
  have hoffset : (p.pastGap text (t.span.start - p.offset)).offset = t.span.start :=
    Nat.add_sub_cancel' hle
  have hflags : t.flags =
      (p.pastGap text (t.span.start - p.offset)).tokenFlags (gapFlags parts) :=
    congrArg Token.flags htoken
  rw [hflags, gapFlags_eq, Point.tokenFlags_select, hoffset]

/-- **The flags of a token that lies ahead are right**, however the gap before it is divided into
parts, if the lexer knows of a token on the line exactly if this is not the first one. -/
theorem gapFlags_of_found {first : Prop} (hp : p.offset ≤ text.length)
    (hfirst : p.place.lineHasToken = true ↔ ¬first)
    (h : ((Plain.of text classes version).look p).found = .ok (t, q)) {parts : List GapPart}
    (hparts : Crossed classes version (Span.slice { start := p.offset, stop := t.span.start } text)
      parts) :
    GapFlags (Span.slice { start := p.offset, stop := t.span.start } text) parts first t := by
  have hflags := (sees_of_found hp h).flags_eq hparts h
  have hline := p.place.lineHasToken_foldl
    (Span.slice { start := p.offset, stop := t.span.start } text)
  constructor
  case space =>
    rw [hflags, Flags.contains_spaceBefore, any_isBlank_iff]
    simp only [breaksLine, Bool.not_eq_true', decide_eq_false_iff_not, not_or, ne_eq]
  case newline =>
    rw [hflags, Flags.contains_newlineBefore, any_isBlank_iff]
    simp only [breaksLine, decide_eq_true_eq]
  case comment => rw [hflags, Flags.contains_commentBefore, any_isComment_iff]
  case adjacent =>
    rw [hflags, Flags.contains_adjacent, Bool.and_eq_true, no_flag_iff, hparts.nil_iff,
      decide_eq_true_eq, Nat.pos_iff_ne_zero, and_comm]
  case lineStart =>
    rw [hflags, Flags.contains_lineStart, Bool.not_eq_true', ← Bool.not_eq_true]
    refine (not_congr hline).trans ?_
    rw [hfirst, ← not_or, Classical.not_not]
  case unnamed => rw [hflags, Flags.unnamed_select]

/-- Behind a token there has been one on the line, whatever its bytes are. -/
theorem lineHasToken_of_found {s : Plain} (h : (s.look p).found = .ok (t, q)) :
    q.place.lineHasToken = true := by
  obtain ⟨_, _, _, _, -, -, -, rfl⟩ := found_inv h
  rfl

end Plain

/-! ### Tokens that a lexer has given -/

/-- Where the last of some tokens ends, or else the beginning of the text. -/
def endOfLast (ts : List Token) : Nat := (ts.getLast?.map (·.span.stop)).getD 0

theorem endOfLast_concat (ts : List Token) (t : Token) : endOfLast (ts ++ [t]) = t.span.stop := by
  simp [endOfLast]

namespace Lexer

variable {σ : Type} [Source σ] {n : Nat} {text : List UInt8} {classes : ByteClass}
  {version : Version} {l₀ l : Lexer σ n}

/-- **A lexer that has given some tokens**, in their order, since it was in another state. They may
have been asked for in either way, and any tokens may have been handed back in between. A call that
says that there is no token any more has been given the one that marks the end, and has handed it
back. -/
inductive HasGiven (l₀ : Lexer σ n) : List Token → Lexer σ n → Prop
  /-- No token has been given. -/
  | nil : HasGiven l₀ [] l₀
  /-- One more has been given. -/
  | token {ts : List Token} {t : Token} {l l' : Lexer σ n} : HasGiven l₀ ts l →
      l.Answers (.ok t) l' → HasGiven l₀ (ts ++ [t]) l'
  /-- One has been handed back. -/
  | release {ts : List Token} {l : Lexer σ n} : HasGiven l₀ ts l → (t : Token) →
      HasGiven l₀ ts (l.release t)

/-- **A lexer that has given some tokens is at the end of the last one**, and all it knows of its
line is whether there has been one. -/
theorem HasGiven.follows {s : Plain} {ts : List Token} (h : l₀.HasGiven ts l)
    (hl₀ : l₀.Follows s {}) (hphase : l₀.phase ≠ .failed) :
    l.phase ≠ .failed ∧ ∃ p, l.Follows s p ∧ p.offset = endOfLast ts ∧
      (p.place.lineHasToken = true ↔ ¬ts = []) := by
  induction h with
  | nil => exact ⟨hphase, {}, hl₀, rfl, by simp⟩
  | @token ts t l l' _ hanswers ih =>
    obtain ⟨hactive, p, hfollows, -⟩ := ih
    obtain ⟨q, hfound, -, hfollows', hphase'⟩ := hfollows.next_inv hactive hanswers.next_ok
    refine ⟨?_, q, hfollows', ?_, ?_⟩
    · rw [hphase']
      split
      · simp
      · exact hactive
    · rw [endOfLast_concat, (Plain.sees_of_found hfollows.stands.offset_le hfound).offset_eq]
    · exact iff_of_true (Plain.lineHasToken_of_found hfound) (by simp)
  | release _ t ih =>
    obtain ⟨hactive, p, hfollows, hp⟩ := ih
    exact ⟨hactive, p, hfollows.release t, hp⟩

/-- **Over a faithful source the flags of every token describe the gap before it**, whatever the
byte classes and the size of the buffers are, as long as no comment in it is nested 2³² deep. -/
theorem hasGiven_gapFlags {source : σ} (hsource : Source.Faithful source text) (hn : 0 < n)
    (version : Version) (classes : ByteClass) :
    ∃ l₀ : Lexer σ n, ofSource source { bufferSize := n, version } classes = .ok l₀ ∧
      ∀ ts l t l', l₀.HasGiven ts l → l.Answers (.ok t) l' →
        endOfLast ts ≤ t.span.start ∧
        (Shallow (Span.slice { start := endOfLast ts, stop := t.span.start } text) →
          (∃ parts, Splits classes version
            (Span.slice { start := endOfLast ts, stop := t.span.start } text) parts) ∧
          ∀ parts, Splits classes version
            (Span.slice { start := endOfLast ts, stop := t.span.start } text) parts →
            GapFlags (Span.slice { start := endOfLast ts, stop := t.span.start } text) parts
              (ts = []) t) := by
  obtain ⟨l₀, hof, hl₀, hphase⟩ := follows_ofSource hsource hn version classes
  refine ⟨l₀, hof, fun ts l t l' hgiven hanswers => ?_⟩
  obtain ⟨hactive, p, hfollows, hoffset, hfirst⟩ := hgiven.follows hl₀ (by simp [hphase])
  obtain ⟨q, hfound, -⟩ := hfollows.next_inv hactive hanswers.next_ok
  have hp := hfollows.stands.offset_le
  have hsees := Plain.sees_of_found hp hfound
  rw [← hoffset]
  refine ⟨hsees.le_start, fun hshallow => ⟨?_, fun parts hparts => ?_⟩⟩
  · obtain ⟨parts, hparts⟩ := hsees.exists_crossed
    exact ⟨parts, (splits_iff_crossed hshallow).mpr hparts⟩
  · exact Plain.gapFlags_of_found hp hfirst hfound ((splits_iff_crossed hshallow).mp hparts)

/-- Two plus signs with a comment and a carriage return between them. The only line feed is in the
comment. -/
def plusesApart : List UInt8 := [0x2B, 0x28, 0x3A, 0x0A, 0x3A, 0x29, 0x0D, 0x2B]

/-- The second plus sign, through buffers of one byte. -/
theorem hasGiven_gapFlags_plusesApart :
    ∃ (l₀ l l' : Lexer Memory 1) (t u : Token),
      ofSource ({ rest := plusesApart } : Memory) { bufferSize := 1, version := .xpath20 } .xml =
        .ok l₀ ∧
      l₀.HasGiven [t] l ∧ l.Answers (.ok u) l' ∧
      u.flags.contains .lineStart = true ∧ u.flags.contains .newlineBefore = true ∧
      u.flags.contains .commentBefore = true ∧ ¬u.flags.contains .spaceBefore = true ∧
      ¬u.flags.contains .adjacent = true := by
  have hsource := Memory.faithful plusesApart
  obtain ⟨l₀, hof, hflags⟩ := hasGiven_gapFlags hsource (n := 1) (by decide) .xpath20 .xml
  obtain ⟨l₀', hof', hl₀, hphase⟩ := follows_ofSource hsource (n := 1) (by decide) .xpath20 .xml
  obtain rfl : l₀ = l₀' := Except.ok.inj (hof.symm.trans hof')
  have hinside : IsInside [0x0A] := .run (isRun_singleton _) (by decide)
  have hparts : Splits .xml .xpath20 [0x28, 0x3A, 0x0A, 0x3A, 0x29, 0x0D]
      [.comment [0x28, 0x3A, 0x0A, 0x3A, 0x29], .blank 0x0D] :=
    .comment (by decide) rfl ⟨_, hinside, rfl⟩ (.blank rfl .nil)
  have hshallow : Shallow [0x28, 0x3A, 0x0A, 0x3A, 0x29, 0x0D] := .of_length_lt (by decide)
  have hplus : ∀ t, GapFree .xml .xpath20 (Ascii.plus :: t) := gapFree_cons rfl (by decide)
  -- Both calls look at no more than one byte, which fits into any window.
  have hfirst := Plain.look_of_extent (s := .of plusesApart .xml .xpath20) (p := {})
    (Trivia.extent_of_gapFree (hplus _))
  obtain ⟨l, hnext, hl, hactive⟩ := hl₀.next_token (by simp [hphase])
    (Forecast.fits_of_reach_le (by decide) (by rw [hfirst]; decide) _)
    (congrArg Forecast.found hfirst)
  have hsecond := Plain.look_of_extent (s := .of plusesApart .xml .xpath20)
    (p := (Point.pastGap {} plusesApart 0).pastToken plusesApart 1)
    (Trivia.extent_of_crossed ((splits_iff_crossed hshallow).mp hparts) (hplus []) .none)
  obtain ⟨l', hnext', -⟩ := hl.next_token (by rw [hactive, hphase]; decide)
    (Forecast.fits_of_reach_le (by decide) (by rw [hsecond]; decide) _)
    (congrArg Forecast.found hsecond)
  have hgiven := HasGiven.nil.token (.token hnext)
  obtain ⟨-, hdescribes⟩ := hflags _ _ _ _ hgiven (.token hnext')
  obtain ⟨hspace, hnewline, hcomment, hadjacent, hline, -⟩ := (hdescribes hshallow).2 _ hparts
  refine ⟨l₀, l, l', _, _, hof, hgiven, .token hnext', ?_, ?_, ?_, ?_, ?_⟩
  · exact hline.mpr (Or.inr (by decide))
  · exact hnewline.mpr ⟨0x0D, by decide, Or.inr rfl⟩
  · exact hcomment.mpr ⟨_, List.mem_cons_self⟩
  · exact mt hspace.mp (by simp)
  · exact mt hadjacent.mp fun hnil => List.cons_ne_nil _ _ hnil.1

end Lexer

end XPathScan
