import XPathScan.Proofs.Lexer.Totality
import XPathScan.Proofs.Plain.Leads
import XPathScan.Proofs.Reading.Versions

/-!
# From the tokens of version 3.0 to those of version 3.1

Blanks and comments are the same in the two versions, and so are tokens, but for two bars and the
new words. The plain lexers of the two go through a text side by side: from the same point they find
the same error, or the same token but for its kind, or else there are two bars, which are two steps
for the one and a single step for the other (`XPathScan.Plain.Step`). In every case they meet again
behind what was found. So the tokens of version 3.1 can be made from those of version 3.0 without
the text: bars that stand side by side are joined in pairs, from the left to the right, and names
that are new words are recast.

A bar has the kind that the word `union` has, so it takes the lexeme to tell that a token is a bar;
and whether it stands right behind another one is a matter of the two spans.

* `XPathScan.Outline` – what is compared: kind, lexeme and span;
* `XPathScan.joinBars` – two bars side by side, made into one token;
* `XPathScan.Plain.step_versions` – one step of both plain lexers;
* `XPathScan.Lexer.tokenize_xpath31` – the tokens of a whole text.
-/

namespace XPathScan

/-! ### Outlines -/

/-- **What a token is and where it stands**, without what stands before it. -/
structure Outline where
  /-- The kind of the token. -/
  kind : Kind
  /-- The bytes of the token. -/
  lexeme : List UInt8
  /-- The offsets of the bytes. -/
  span : Span
  deriving DecidableEq, Repr

/-- The outline of a token. -/
def Token.outline (t : Token) : Outline := { kind := t.kind, lexeme := t.lexeme, span := t.span }

namespace Outline

/-- A bar on its own. -/
def IsBar (o : Outline) : Prop := o.kind = .symbol .union ∧ o.lexeme = [Ascii.pipe]

/-- **Two bars of which the second stands right behind the first.** -/
def AreBars (o o' : Outline) : Prop := o.IsBar ∧ o'.IsBar ∧ o'.span.start = o.span.stop

instance (o o' : Outline) : Decidable (o.AreBars o') :=
  inferInstanceAs (Decidable ((_ ∧ _) ∧ (_ ∧ _) ∧ _))

/-- Two bars, as one token. -/
def join (o o' : Outline) : Outline where
  kind := .symbol .concat
  lexeme := [Ascii.pipe, Ascii.pipe]
  span := { start := o.span.start, stop := o'.span.stop }

/-- The outline with its kind as version 3.1 has it. -/
def recast (o : Outline) : Outline := { o with kind := o.kind.recast o.lexeme }

end Outline

/-- **Join bars in pairs**, from the left to the right. -/
def joinBars : List Outline → List Outline
  | o :: o' :: rest =>
    if o.AreBars o' then o.join o' :: joinBars rest else o :: joinBars (o' :: rest)
  | rest => rest

theorem joinBars_of_areBars {o o' : Outline} (h : o.AreBars o') (rest : List Outline) :
    joinBars (o :: o' :: rest) = o.join o' :: joinBars rest := by
  rw [joinBars, if_pos h]

theorem joinBars_of_not_areBars {o : Outline} {rest : List Outline}
    (h : ∀ o', rest.head? = some o' → ¬o.AreBars o') :
    joinBars (o :: rest) = o :: joinBars rest := by
  cases rest with
  | nil => rfl
  | cons o' rest => rw [joinBars, if_neg (h o' rfl)]

/-- Of three bars side by side the first two are joined. -/
example :
    joinBars [⟨.symbol .union, [0x7C], ⟨0, 1⟩⟩, ⟨.symbol .union, [0x7C], ⟨1, 2⟩⟩,
        ⟨.symbol .union, [0x7C], ⟨2, 3⟩⟩] =
      [⟨.symbol .concat, [0x7C, 0x7C], ⟨0, 2⟩⟩, ⟨.symbol .union, [0x7C], ⟨2, 3⟩⟩] := by
  decide

/-- **What version 3.1 makes of the outlines of version 3.0.** -/
def updated (outlines : List Outline) : List Outline := (joinBars outlines).map Outline.recast

theorem updated_of_areBars {o o' : Outline} (h : o.AreBars o') (rest : List Outline) :
    updated (o :: o' :: rest) = o.join o' :: updated rest := by
  have hjoin : (o.join o').recast = o.join o' :=
    congrArg (fun kind => Outline.mk kind _ _) (if_neg (by simp [Outline.join]))
  rw [updated, joinBars_of_areBars h, List.map_cons, hjoin, updated]

theorem updated_of_not_areBars {o : Outline} {rest : List Outline}
    (h : ∀ o', rest.head? = some o' → ¬o.AreBars o') :
    updated (o :: rest) = o.recast :: updated rest := by
  rw [updated, joinBars_of_not_areBars h, List.map_cons, updated]

/-- A token with its kind as version 3.1 has it. -/
def Token.recast (t : Token) : Token := { t with kind := t.kind.recast t.lexeme }

/-- The end stays the end, and nothing else becomes it. -/
theorem Token.isEof_recast (t : Token) : t.recast.isEof = t.isEof := by
  rw [isEof, isEof, recast, Kind.recast]
  split
  · next hname =>
    rcases hname.1 with hkind | hkind
    · rw [hkind]
      rfl
    · rw [hkind]
      rfl
  · rfl

/-! ### One step -/

/-- Blanks and comments are the same in versions that both have comments, or none. -/
theorem Trivia.extent_congr {version version' : Version}
    (h : version.supports .comments = version'.supports .comments) (classes : ByteClass)
    (flags : Flags) (t : List UInt8) :
    extent classes version flags t = extent classes version' flags t := by
  fun_induction extent classes version flags t with
  | case1 flags => rw [extent]
  | case2 flags b t hspace ih => rw [extent, if_pos hspace, ih]
  | case3 flags b t hspace hopen hnone =>
    rw [h] at hopen
    rw [extent, if_neg hspace, if_pos hopen, hnone]
  | case4 flags b t hspace hopen k hclose ih =>
    rw [h] at hopen
    rw [extent, if_neg hspace, if_pos hopen, hclose]
    exact congrArg _ ih
  | case5 flags b t hspace hopen =>
    rw [h] at hopen
    rw [extent, if_neg hspace, if_neg hopen]

namespace Plain

variable {text : List UInt8} {p : Point}

/-- **One step of the plain lexers of both versions from a point on.** -/
inductive Step (text : List UInt8) (p : Point) : Prop
  /-- Both find the same error. -/
  | error {e : LexError} : ((Plain.of text .xml .xpath30).look p).found = .error e →
      ((Plain.of text .xml .xpath31).look p).found = .error e → Step text p
  /-- Both find the same token, but for its kind, and there are no two bars. -/
  | token {t : Token} {q : Point} :
      ((Plain.of text .xml .xpath30).look p).found = .ok (t, q) →
      ((Plain.of text .xml .xpath31).look p).found = .ok (t.recast, q) →
      ¬[Ascii.pipe, Ascii.pipe] <+: text.drop t.span.start → Step text p
  /-- There are two bars, and the two versions meet behind them. -/
  | bars {t t' joined : Token} {q r : Point} :
      ((Plain.of text .xml .xpath30).look p).found = .ok (t, q) →
      ((Plain.of text .xml .xpath30).look q).found = .ok (t', r) →
      ((Plain.of text .xml .xpath31).look p).found = .ok (joined, r) →
      t.outline.AreBars t'.outline → joined.outline = t.outline.join t'.outline → Step text p

/-- What is found behind blanks and comments. -/
theorem found_of_extent {version : Version} {trivia : Flags} {k : Nat}
    (h : Trivia.extent .xml version .none (text.drop p.offset) = .ok (trivia, k)) :
    ((Plain.of text .xml version).look p).found =
      (Plain.of text .xml version).readToken (p.pastGap text k) trivia
        (Reading.token (.ofVersion version) .xml (text.drop (p.offset + k))).found :=
  congrArg Forecast.found (look_of_extent (s := .of text .xml version) h)

/-- The place behind two bars can be reached in two steps. -/
theorem pastToken_pastToken {t : List UInt8}
    (h : text.drop p.offset = Ascii.pipe :: Ascii.pipe :: t) :
    (p.pastToken text 1).pastToken text 1 = p.pastToken text 2 := by
  have hnext : text.drop (p.offset + 1) = Ascii.pipe :: t := by
    rw [← List.drop_drop, h, List.drop_one, List.tail_cons]
  simp only [Point.pastToken, h, hnext]
  rfl

/-- **Two bars are two steps in version 3.0 and one step in version 3.1.** -/
theorem step_of_twoBars {trivia : Flags} {k : Nat} {t : List UInt8}
    (h : Trivia.extent .xml .xpath30 .none (text.drop p.offset) = .ok (trivia, k))
    (h' : Trivia.extent .xml .xpath31 .none (text.drop p.offset) = .ok (trivia, k))
    (hbars : text.drop (p.offset + k) = Ascii.pipe :: Ascii.pipe :: t) : Step text p := by
  obtain ⟨hjoined, hfirst, hlast⟩ := Reading.token_twoBars t
  have hsecond : text.drop (p.offset + k + 1) = Ascii.pipe :: t := by
    rw [← List.drop_drop, hbars, List.drop_one, List.tail_cons]
  have hmeet := pastToken_pastToken (p := p.pastGap text k) hbars
  have hfound := found_of_extent h
  have hfound' := found_of_extent h'
  rw [hbars, hfirst] at hfound
  rw [hbars, hjoined, readToken, ← hmeet] at hfound'
  -- Nothing stands between the two bars.
  have hextent : Trivia.extent .xml .xpath30 .none
      (text.drop ((p.pastGap text k).pastToken text 1).offset) = .ok (.none, 0) := by
    show Trivia.extent .xml .xpath30 .none (text.drop (p.offset + k + 1)) = _
    rw [hsecond, Trivia.extent, if_neg (by decide), if_neg fun hopen => absurd hopen.1 (by decide)]
  have hnext := found_of_extent hextent
  have hread : text.drop (((p.pastGap text k).pastToken text 1).offset + 0) = Ascii.pipe :: t :=
    hsecond
  rw [hread, hlast] at hnext
  refine .bars hfound hnext hfound' ?_ ?_
  · refine ⟨⟨rfl, ?_⟩, ⟨rfl, ?_⟩, rfl⟩
    · show (text.drop (p.offset + k)).take 1 = _
      rw [hbars]
      rfl
    · show (text.drop (p.offset + k + 1)).take 1 = _
      rw [hsecond]
      rfl
  · show Outline.mk (.symbol .concat) ((text.drop (p.offset + k)).take 2) _ = _
    rw [hbars]
    rfl

/-- **The two versions take the same step**, or there are two bars. -/
theorem step_versions (text : List UInt8) (p : Point) : Step text p := by
  have hsame : Trivia.extent .xml .xpath31 .none (text.drop p.offset) =
      Trivia.extent .xml .xpath30 .none (text.drop p.offset) := by
    apply Trivia.extent_congr
    rfl
  rcases hextent : Trivia.extent .xml .xpath30 .none (text.drop p.offset) with k | ⟨trivia, k⟩
  · have hfound := look_of_unclosed (s := .of text .xml .xpath30) hextent
    have hfound' := look_of_unclosed (s := .of text .xml .xpath31) (hsame.trans hextent)
    exact .error (congrArg Forecast.found hfound) (congrArg Forecast.found hfound')
  · by_cases hbars : [Ascii.pipe, Ascii.pipe] <+: text.drop (p.offset + k)
    · obtain ⟨t, ht⟩ := hbars
      exact step_of_twoBars hextent (hsame.trans hextent) ht.symm
    · have hfound := found_of_extent hextent
      have hfound' := found_of_extent (hsame.trans hextent)
      rw [Reading.token_recast hbars] at hfound'
      rcases hread : (Reading.token (.ofVersion .xpath30) .xml (text.drop (p.offset + k))).found
        with m | ⟨kind, length⟩
      · rw [hread] at hfound hfound'
        exact .error hfound hfound'
      · rw [hread] at hfound hfound'
        exact .token hfound hfound' hbars

/-! ### All steps -/

/-- Bars are not the end, neither apart nor joined. -/
theorem isEof_of_areBars {t t' joined : Token} (h : t.outline.AreBars t'.outline)
    (hjoined : joined.outline = t.outline.join t'.outline) :
    t.isEof = false ∧ t'.isEof = false ∧ joined.isEof = false := by
  have hkind : t.kind = .symbol .union := h.1.1
  have hkind' : t'.kind = .symbol .union := h.2.1.1
  have hmore : joined.kind = .symbol .concat := congrArg Outline.kind hjoined
  rw [Token.isEof, Token.isEof, Token.isEof, hkind, hkind', hmore]
  exact ⟨rfl, rfl, rfl⟩

/-- **A bar that is not followed by another one is not joined**, whatever comes behind it. -/
theorem not_areBars {t : Token} {q : Point} {ts : List Token}
    (hp : p.offset ≤ text.length)
    (hfound : ((Plain.of text .xml .xpath30).look p).found = .ok (t, q))
    (hbars : ¬[Ascii.pipe, Ascii.pipe] <+: text.drop t.span.start)
    (hrest : (Plain.of text .xml .xpath30).Collects q (.ok ts)) :
    ∀ o, (ts.map Token.outline).head? = some o → ¬t.outline.AreBars o := by
  rintro o ho ⟨⟨-, hlexeme⟩, ⟨-, hlexeme'⟩, hspan⟩
  obtain ⟨t', ts, rfl, rfl⟩ : ∃ t' ts', ts = t' :: ts' ∧ t'.outline = o := by
    cases ts with
    | nil => cases ho
    | cons t' ts => exact ⟨t', ts, rfl, Option.some.inj ho⟩
  have hsees := sees_of_found hp hfound
  obtain ⟨q', hfound'⟩ := hrest.found_of_cons
  have hq : q.offset ≤ text.length := by
    rw [hsees.offset_eq]
    exact hsees.stop_le
  have hsees' := sees_of_found hq hfound'
  -- The text from the first bar on is the one bar, the other and what comes behind it.
  refine hbars ⟨text.drop t'.span.stop, ?_⟩
  have hfirst : t.lexeme ++ text.drop t.span.stop = text.drop t.span.start :=
    hsees.lexeme_append_drop
  have hsecond : t'.lexeme ++ text.drop t'.span.stop = text.drop t'.span.start :=
    hsees'.lexeme_append_drop
  rw [← hfirst, show t.lexeme = [Ascii.pipe] from hlexeme,
    show t.span.stop = t'.span.start from hspan.symm, ← hsecond,
    show t'.lexeme = [Ascii.pipe] from hlexeme']
  rfl

/-- **What version 3.0 comes to, and version 3.1 beside it**: the same error, or tokens of which the
outlines are updated. -/
inductive Updates : Except LexError (List Token) → Except LexError (List Token) → Prop
  /-- Both fail. -/
  | error (e : LexError) : Updates (.error e) (.error e)
  /-- Both succeed. -/
  | ok {ts ts' : List Token} : ts'.map Token.outline = updated (ts.map Token.outline) →
      Updates (.ok ts) (.ok ts')

/-- **Side by side the plain lexers of the two versions come to the end**, or to the same error. -/
theorem updates_versions (hp : p.offset ≤ text.length) {r r' : Except LexError (List Token)}
    (h : (Plain.of text .xml .xpath30).Collects p r)
    (h' : (Plain.of text .xml .xpath31).Collects p r') : Updates r r' := by
  -- Each step leaves fewer bytes, and two bars are a step of two bytes.
  induction hleft : text.length - p.offset using Nat.strongRecOn generalizing p r r' with
  | ind left ih =>
    cases step_versions text p with
    | error hfound hfound' =>
      rw [h.eq_of_error hfound, h'.eq_of_error hfound']
      exact .error _
    | @token t q hfound hfound' hbars =>
      have heof' := t.isEof_recast
      cases heof : t.isEof with
      | true =>
        rw [h.eq_of_eof hfound heof, h'.eq_of_eof hfound' (heof'.trans heof)]
        exact .ok rfl
      | false =>
        obtain ⟨hlt, hq⟩ := (sees_of_found hp hfound).offset_lt heof
        obtain ⟨r, hrest, rfl⟩ := h.of_token hfound heof
        obtain ⟨r', hrest', rfl⟩ := h'.of_token hfound' (heof'.trans heof)
        cases ih (text.length - q.offset) (by omega) hq hrest hrest' rfl with
        | error e => exact .error e
        | ok htail =>
          refine .ok ?_
          rw [List.map_cons, List.map_cons, htail,
            updated_of_not_areBars (not_areBars hp hfound hbars hrest)]
          rfl
    | @bars t t' joined q q' hfound hnext hfound' hareBars hjoined =>
      obtain ⟨heof, heof', hmore⟩ := isEof_of_areBars hareBars hjoined
      obtain ⟨hlt, hq⟩ := (sees_of_found hp hfound).offset_lt heof
      obtain ⟨hlt', hq'⟩ := (sees_of_found hq hnext).offset_lt heof'
      obtain ⟨r, hsecond, rfl⟩ := h.of_token hfound heof
      obtain ⟨r, hrest, rfl⟩ := hsecond.of_token hnext heof'
      obtain ⟨r', hrest', rfl⟩ := h'.of_token hfound' hmore
      cases ih (text.length - q'.offset) (by omega) hq' hrest hrest' rfl with
      | error e => exact .error e
      | ok htail =>
        refine .ok ?_
        rw [List.map_cons, List.map_cons, List.map_cons, htail, updated_of_areBars hareBars, hjoined]

end Plain

/-- **Version 3.1 differs from version 3.0 by two bars and the new words only.** A text that has an
error in the one version has the same error at the same place in the other. Otherwise the tokens are
the same, but for bars that stand side by side, which are joined in pairs from the left to the right,
and for names that are new words, which are those of functions. -/
theorem Lexer.tokenize_xpath31 (text : List UInt8) :
    (tokenize text .xpath31).map (·.map Token.outline) =
      (tokenize text .xpath30).map fun ts =>
        (joinBars (ts.map Token.outline)).map Outline.recast := by
  have hupdates : Plain.Updates (tokenize text .xpath30) (tokenize text .xpath31) :=
    Plain.updates_versions (p := {}) (Nat.zero_le text.length)
      (Lexer.collects_tokenize text .xpath30) (Lexer.collects_tokenize text .xpath31)
  generalize tokenize text .xpath30 = r, tokenize text .xpath31 = r' at hupdates
  cases hupdates with
  | error e => rfl
  | ok houtlines => exact congrArg Except.ok houtlines

end XPathScan
