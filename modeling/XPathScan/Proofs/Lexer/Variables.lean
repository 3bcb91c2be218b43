import XPathScan.Proofs.Lexer.Names

/-!
# Variables and braced names are recognised by their grammar

Two tokens are made around a name. A braced name has a URI before it, between braces and behind the
letter of braced names; anything but a brace may stand in the URI, and what comes behind it has to
start as a name does. A variable is a dollar sign with a name behind it, of whatever form. It is
nothing but that name: it has the same bytes behind the dollar sign, and if the name cannot be read
the error is the same, though it is reported where the dollar sign stands.

What a name is read as is said first, for all three forms of names (`XPathScan.ScansName`). It
depends on the version and the text alone. Every text that starts as a name does is read as one
thing and no other, so there is something for the variable to agree with.

* `XPathScan.Reading.anyName_of_isBraced` and `XPathScan.Reading.anyName_of_not_isBraced` – a braced
  name is read exactly where there is one;
* `XPathScan.exists_scansName` and `XPathScan.ScansName.eq` – a name is read as one thing;
* `XPathScan.Lexer.ReadsBraced` and `XPathScan.Lexer.ReadsVariable` – what has to become of the two
  tokens;
* `XPathScan.Lexer.after_readsVariable` – that this is so for a lexer over a faithful source,
  whatever calls have been made before.
-/

namespace XPathScan

variable {version : Version} {t u r : List UInt8}

/-! ### The grammar -/

/-- **A text that starts with a braced name**: a URI between braces without a brace in it, and
behind it a text that starts as a name does. -/
structure IsBraced (t u r : List UInt8) : Prop where
  /-- The parts of the text. -/
  text_eq : t = Ascii.upperQ :: Ascii.leftBrace :: (u ++ Ascii.rightBrace :: r)
  /-- No brace opens in the URI. -/
  leftBrace_not_mem : Ascii.leftBrace ∉ u
  /-- No brace closes in it. -/
  rightBrace_not_mem : Ascii.rightBrace ∉ u
  /-- A name follows. -/
  startsName : r.head?.any ByteClass.xml.startsName = true

/-- **The braced name with a URI**, and with the run of name bytes of the text behind it. -/
def bracedLexeme (u r : List UInt8) : List UInt8 :=
  Ascii.upperQ :: Ascii.leftBrace :: (u ++ Ascii.rightBrace :: nameRun r)

/-- **What a name is read as**: its bytes, or an error. -/
inductive ScansName (version : Version) (t : List UInt8) :
    Except Malformation (List UInt8) → Prop
  /-- One run, in version 1.0 and where no colon joins another one to it. -/
  | plain : StartsName version t → version = .xpath10 ∨ ¬ColonName (pastRun t) →
      ScansName version t (.ok (nameRun t))
  /-- Two runs that a colon joins. -/
  | qualified : StartsName version t → .xpath20 ≤ version → ColonName (pastRun t) →
      ¬ColonName (pastLocalRun t) → ScansName version t (.ok (qualifiedName t))
  /-- Three runs that colons join are an error. -/
  | tooMany : StartsName version t → .xpath20 ≤ version → ColonName (pastRun t) →
      ColonName (pastLocalRun t) → ScansName version t (.error .multipleColonsInName)
  /-- A braced name. -/
  | braced {u r : List UInt8} : .xpath30 ≤ version → IsBraced t u r →
      ScansName version t (.ok (bracedLexeme u r))
  /-- The beginning of a braced name without the rest of it is an error. -/
  | malformed : .xpath30 ≤ version → [Ascii.upperQ, Ascii.leftBrace] <+: t →
      (¬∃ u r, IsBraced t u r) → ScansName version t (.error .malformedUriQualifiedName)

/-- There is nothing between the first version and the second. -/
theorem Version.eq_xpath10_or (version : Version) :
    version = .xpath10 ∨ .xpath20 ≤ version := by
  cases version with
  | xpath10 => exact Or.inl rfl
  | xpath20 => exact Or.inr (by decide)
  | xpath30 => exact Or.inr (by decide)
  | xpath31 => exact Or.inr (by decide)

/-- **A text that starts as a name does is read as something.** -/
theorem exists_scansName (version : Version) (h : t.head?.any ByteClass.xml.startsName = true) :
    ∃ result, ScansName version t result := by
  by_cases hbraced : .xpath30 ≤ version ∧ [Ascii.upperQ, Ascii.leftBrace] <+: t
  · obtain ⟨hversion, hpair⟩ := hbraced
    by_cases hname : ∃ u r, IsBraced t u r
    · obtain ⟨u, r, hname⟩ := hname
      exact ⟨_, .braced hversion hname⟩
    · exact ⟨_, .malformed hversion hpair hname⟩
  · have hstarts : StartsName version t := ⟨h, hbraced⟩
    rcases version.eq_xpath10_or with hversion | hversion
    · exact ⟨_, .plain hstarts (Or.inl hversion)⟩
    by_cases hcolon : ColonName (pastRun t)
    · by_cases hend : ColonName (pastLocalRun t)
      · exact ⟨_, .tooMany hstarts hversion hcolon hend⟩
      · exact ⟨_, .qualified hstarts hversion hcolon hend⟩
    · exact ⟨_, .plain hstarts (Or.inr hcolon)⟩

/-- The whole braced name, and what comes behind it. -/
theorem IsBraced.bracedLexeme_append (h : IsBraced t u r) : bracedLexeme u r ++ pastRun r = t := by
  rw [h.text_eq, bracedLexeme]
  simp only [List.cons_append, List.append_assoc, nameRun_append_pastRun]

/-! ### What is read of a braced name -/

namespace Reading

/-- The bytes of a URI are a run that ends at a brace. -/
theorem runLength_isUriByte (h : IsBraced t u r) :
    runLength Scan.isUriByte (u ++ Ascii.rightBrace :: r) = u.length := by
  have huri : ∀ a ∈ u, Scan.isUriByte a = true := by
    intro a ha
    have hleft : a ≠ Ascii.leftBrace := fun heq => h.leftBrace_not_mem (heq ▸ ha)
    have hright : a ≠ Ascii.rightBrace := fun heq => h.rightBrace_not_mem (heq ▸ ha)
    simp [Scan.isUriByte, hleft, hright]
  rw [runLength, List.takeWhile_append_of_pos huri, List.takeWhile_cons_of_neg (by decide),
    List.append_nil]

/-- Where the version has braced names, the two first bytes of one decide. -/
theorem anyName_of_begins (hversion : .xpath30 ≤ version) (u : List UInt8) :
    anyName (.ofVersion version) .xml (Ascii.upperQ :: Ascii.leftBrace :: u) =
      after 1 (bracedName .xml) (Ascii.upperQ :: Ascii.leftBrace :: u) := by
  have hsupports : (Dialect.ofVersion version).supports .bracedUriLiterals = true :=
    decide_eq_true hversion
  rw [anyName_cons hsupports, List.head?_cons, if_pos rfl]

/-- **A braced name is read to its end.** -/
theorem anyName_of_isBraced (hversion : .xpath30 ≤ version) (h : IsBraced t u r) :
    (anyName (.ofVersion version) .xml t).found = .ok (.braced, (bracedLexeme u r).length) := by
  have hrun := runLength_isUriByte h
  have hlength : (bracedLexeme u r).length = 1 + (1 + (u.length + (1 + (nameRun r).length))) := by
    simp only [bracedLexeme, List.length_cons, List.length_append]
    omega
  rw [hlength, h.text_eq, anyName_of_begins hversion]
  refine after_eq_ok.mpr ⟨_, ?_, rfl⟩
  refine after_eq_ok.mpr ⟨_, ?_, rfl⟩
  -- What is left is the URI, the brace behind it, and the name.
  simp only [List.drop_succ_cons, List.drop_zero]
  rw [hrun]
  refine after_eq_ok.mpr ⟨_, ?_, rfl⟩
  rw [List.drop_left, List.head?_cons, if_pos rfl]
  refine after_eq_ok.mpr ⟨_, ?_, rfl⟩
  rw [List.drop_succ_cons, List.drop_zero, if_pos h.startsName]
  exact after_eq_ok.mpr ⟨0, rfl, rfl⟩

/-- **Where there is no braced name, the beginning of one is reported.** -/
theorem anyName_of_not_isBraced (hversion : .xpath30 ≤ version)
    (hpair : [Ascii.upperQ, Ascii.leftBrace] <+: t) (h : ¬∃ u r, IsBraced t u r) :
    (anyName (.ofVersion version) .xml t).found = .error .malformedUriQualifiedName := by
  obtain ⟨w, rfl⟩ := hpair
  have hparts : w.takeWhile Scan.isUriByte ++ w.drop (runLength Scan.isUriByte w) = w :=
    List.prefix_iff_eq_append.mp (List.takeWhile_prefix _)
  refine (congrArg found (anyName_of_begins hversion w)).trans ?_
  refine after_eq_error.mpr (after_eq_error.mpr (after_eq_error.mpr ?_))
  simp only [List.drop_succ_cons, List.drop_zero]
  split
  · next hclose =>
    obtain ⟨r, hr⟩ := List.head?_eq_some_iff.mp hclose
    refine after_eq_error.mpr ?_
    rw [hr, List.drop_succ_cons, List.drop_zero, if_neg]
    · rfl
    · -- A name behind the brace would make a braced name of it all.
      intro hstarts
      have huri : ∀ b ∈ w.takeWhile Scan.isUriByte, Scan.isUriByte b = true :=
        List.all_eq_true.mp List.all_takeWhile
      refine h ⟨w.takeWhile Scan.isUriByte, r, ?_, ?_, ?_, hstarts⟩
      · rw [← hr, hparts]
        rfl
      · intro hmem
        exact absurd (huri _ hmem) (by decide)
      · intro hmem
        exact absurd (huri _ hmem) (by decide)
  · rfl

end Reading

/-! ### What is read of a name of any form -/

namespace ScansName

variable {result result' : Except Malformation (List UInt8)} {m : Malformation}

/-- What is read as a name starts as one. -/
theorem startsName (h : ScansName version t result) :
    t.head?.any ByteClass.xml.startsName = true := by
  cases h with
  | plain hstarts => exact hstarts.startsName
  | qualified hstarts => exact hstarts.startsName
  | tooMany hstarts => exact hstarts.startsName
  | braced _ hbraced =>
    rw [hbraced.text_eq]
    rfl
  | malformed _ hpair =>
    obtain ⟨w, rfl⟩ := hpair
    rfl

/-- **The bytes of a name are read.** -/
theorem anyName_ok (h : ScansName version t (.ok u)) :
    u <+: t ∧
      ∃ form, (Reading.anyName (.ofVersion version) .xml t).found = .ok (form, u.length) := by
  cases h with
  | plain hstarts hone =>
    rw [Reading.anyName_of_startsName hstarts]
    refine ⟨⟨_, nameRun_append_pastRun t⟩, .plain, Reading.name_plain ?_⟩
    exact hone.imp_left fun hversion => by rw [hversion]; rfl
  | qualified hstarts hversion hcolon hend =>
    rw [Reading.anyName_of_startsName hstarts]
    exact ⟨⟨_, qualifiedName_append_pastLocalRun hcolon⟩, .qualified,
      Reading.name_qualified (decide_eq_true hversion) hcolon hend⟩
  | braced hversion hbraced =>
    exact ⟨⟨_, hbraced.bracedLexeme_append⟩, .braced, Reading.anyName_of_isBraced hversion hbraced⟩

/-- **The error of a name is read.** -/
theorem anyName_error (h : ScansName version t (.error m)) :
    (Reading.anyName (.ofVersion version) .xml t).found = .error m := by
  cases h with
  | tooMany hstarts hversion hcolon hend =>
    rw [Reading.anyName_of_startsName hstarts]
    exact Reading.name_tooMany (decide_eq_true hversion) hcolon hend
  | malformed hversion hpair hnone => exact Reading.anyName_of_not_isBraced hversion hpair hnone

/-- **A name is read as one thing only.** -/
theorem eq (h : ScansName version t result) (h' : ScansName version t result') :
    result = result' := by
  rcases result with m | u <;> rcases result' with m' | u'
  · have hsame := h.anyName_error.symm.trans h'.anyName_error
    rw [Except.error.inj hsame]
  · obtain ⟨-, form, hok⟩ := h'.anyName_ok
    cases h.anyName_error.symm.trans hok
  · obtain ⟨-, form, hok⟩ := h.anyName_ok
    cases h'.anyName_error.symm.trans hok
  · -- Two beginnings of one text that are equally long are the same.
    obtain ⟨hu, form, hok⟩ := h.anyName_ok
    obtain ⟨hu', form', hok'⟩ := h'.anyName_ok
    obtain ⟨-, hlength⟩ := Prod.mk.inj (Except.ok.inj (hok.symm.trans hok'))
    rw [List.prefix_iff_eq_take.mp hu, List.prefix_iff_eq_take.mp hu', hlength]

end ScansName

/-- **Behind a dollar sign a name is read**, where the version has variables. -/
theorem Reading.token_dollar (hversion : .xpath20 ≤ version) (t : List UInt8) :
    token (.ofVersion version) .xml (Ascii.dollar :: t) =
      variableToken (.ofVersion version) .xml (Ascii.dollar :: t) := by
  have hsupports : (Dialect.ofVersion version).supports .variableReferences = true :=
    decide_eq_true hversion
  rw [token, tokenAt, if_neg (by decide), if_neg (by decide), if_pos ⟨rfl, hsupports⟩]

/-! ### Names and variables on the way of a lexer -/

namespace Lexer

variable {σ : Type} [Source σ] {n : Nat} {text : List UInt8} {l : Lexer σ n} {p : Nat}

/-- **The next call has a result** at the offset: a token of the given kind with the given bytes, or
a malformation. -/
def ResultAt (text : List UInt8) (l : Lexer σ n) (p : Nat) (kind : Kind) :
    Except Malformation (List UInt8) → Prop
  | .ok lexeme => l.GivesAt p kind lexeme
  | .error m => l.RejectsAt text p m

/-- **What has to become of the beginning of a braced name** at an offset. -/
structure ReadsBraced (text : List UInt8) (l : Lexer σ n) (p : Nat) : Prop where
  /-- A braced name is given, with the whole run of name bytes behind its URI. -/
  braced : ∀ u r, IsBraced (text.drop p) u r →
    l.GivesAt p .uriQualifiedName (bracedLexeme u r)
  /-- If there is none, there is an error where it should start. -/
  malformed : (¬∃ u r, IsBraced (text.drop p) u r) →
    l.RejectsAt text p .malformedUriQualifiedName

/-- **What has to become of a dollar sign** at an offset, with the given text behind it. -/
structure ReadsVariable (text : List UInt8) (version : Version) (l : Lexer σ n) (p : Nat)
    (t : List UInt8) : Prop where
  /-- If no name follows, there is an error at the dollar sign. -/
  invalid : t.head?.any ByteClass.xml.startsName = false →
    l.RejectsAt text p .invalidVariableName
  /-- If one follows, the variable is what the name is read as, behind the dollar sign. -/
  name : t.head?.any ByteClass.xml.startsName = true →
    ∃ result, ScansName version t result ∧
      l.ResultAt text p .variableReference (result.map (Ascii.dollar :: ·))

/-- **A name at a point of the text is what it is read as.** -/
theorem Exact.resultAt (h : l.Exact text .xml version) (hto : l.Approaches text .xml version p)
    (hsmall : ¬Overflows (l.answer 0)) {result : Except Malformation (List UInt8)}
    (hname : ScansName version (text.drop p) result) : ∃ kind, l.ResultAt text p kind result := by
  have hfree := gapFree_xml (not_startsTrivia_of_startsName version hname.startsName)
  have hread := Reading.token_eq_nameToken version hname.startsName
  rcases result with m | u
  · refine ⟨.eof, h.rejects_of_read hto hsmall hfree ?_⟩
    rw [hread]
    exact Reading.mapLength_eq_error.mpr hname.anyName_error
  · obtain ⟨⟨rest, hrest⟩, form, hfound⟩ := hname.anyName_ok
    refine ⟨form.kind (.ofVersion version) ((text.drop p).take u.length),
      h.gives_of_read hto hsmall hfree hrest.symm ?_⟩
    rw [hread]
    exact Reading.mapLength_eq_ok.mpr ⟨form, hfound, rfl⟩

/-- **The beginning of a braced name at a point of the text is read by the grammar.** -/
theorem Exact.readsBraced (h : l.Exact text .xml version) (hto : l.Approaches text .xml version p)
    (hsmall : ¬Overflows (l.answer 0)) (hversion : .xpath30 ≤ version)
    (hpair : [Ascii.upperQ, Ascii.leftBrace] <+: text.drop p) : l.ReadsBraced text p := by
  have hstarts : (text.drop p).head?.any ByteClass.xml.startsName = true := by
    obtain ⟨w, hw⟩ := hpair
    rw [← hw]
    rfl
  have hfree := gapFree_xml (not_startsTrivia_of_startsName version hstarts)
  have hread := Reading.token_eq_nameToken version hstarts
  constructor
  · intro u r hbraced
    refine h.gives_of_read hto hsmall hfree hbraced.bracedLexeme_append.symm ?_
    rw [hread]
    exact Reading.mapLength_eq_ok.mpr ⟨.braced, Reading.anyName_of_isBraced hversion hbraced, rfl⟩
  · intro hnone
    refine h.rejects_of_read hto hsmall hfree ?_
    rw [hread]
    exact Reading.mapLength_eq_error.mpr (Reading.anyName_of_not_isBraced hversion hpair hnone)

/-- **A dollar sign at a point of the text is read with the name behind it.** -/
theorem Exact.readsVariable (h : l.Exact text .xml version) (hto : l.Approaches text .xml version p)
    (hsmall : ¬Overflows (l.answer 0)) (hversion : .xpath20 ≤ version)
    (htext : text.drop p = Ascii.dollar :: t) : l.ReadsVariable text version p t := by
  have hfree : GapFree .xml version (text.drop p) := htext ▸ gapFree_cons rfl (by decide) t
  have hread := Reading.token_dollar hversion t
  rw [← htext] at hread
  constructor
  · intro hinvalid
    refine h.rejects_of_read hto hsmall hfree ?_
    rw [hread, htext]
    refine Reading.after_eq_error.mpr ?_
    rw [List.drop_succ_cons, List.drop_zero, if_neg (Bool.eq_false_iff.mp hinvalid)]
    rfl
  · intro hstarts
    obtain ⟨result, hname⟩ := exists_scansName version hstarts
    refine ⟨result, hname, ?_⟩
    rcases result with m | u
    · refine h.rejects_of_read hto hsmall hfree ?_
      rw [hread, htext]
      refine Reading.after_eq_error.mpr ?_
      rw [List.drop_succ_cons, List.drop_zero, if_pos hstarts]
      exact Reading.mapLength_eq_error.mpr hname.anyName_error
    · obtain ⟨⟨rest, hrest⟩, form, hfound⟩ := hname.anyName_ok
      have hparts : text.drop p = (Ascii.dollar :: u) ++ rest := by
        rw [htext, ← hrest]
        rfl
      refine h.gives_of_read hto hsmall hfree hparts ?_
      rw [hread, htext]
      refine Reading.after_eq_ok.mpr ⟨u.length, ?_, Nat.add_comm 1 u.length⟩
      rw [List.drop_succ_cons, List.drop_zero, if_pos hstarts]
      exact Reading.mapLength_eq_ok.mpr ⟨form, hfound, rfl⟩

/-- **Over a faithful source variables and braced names are recognised by their grammar**, whatever
calls have been made before and however small the buffers are, if the window does not overflow. The
name of a variable is read as it is where it stands by itself. -/
theorem after_readsVariable {source : σ} (hsource : Source.Faithful source text) (hn : 0 < n)
    (version : Version) :
    ∃ l₀ : Lexer σ n, ofSource source { bufferSize := n, version } .xml = .ok l₀ ∧
      ∀ calls p, (l₀.after calls).Approaches text .xml version p →
        ¬Overflows ((l₀.after calls).answer 0) →
        (∀ result, ScansName version (text.drop p) result →
          ∃ kind, (l₀.after calls).ResultAt text p kind result) ∧
        (.xpath30 ≤ version → [Ascii.upperQ, Ascii.leftBrace] <+: text.drop p →
          (l₀.after calls).ReadsBraced text p) ∧
        (.xpath20 ≤ version → ∀ t, text.drop p = Ascii.dollar :: t →
          (l₀.after calls).ReadsVariable text version p t) := by
  obtain ⟨l₀, hof, hexact⟩ := exists_exact hsource hn version .xml
  refine ⟨l₀, hof, fun calls p hto hsmall => ⟨fun result hname => ?_, ?_, ?_⟩⟩
  · exact (hexact calls).resultAt hto hsmall hname
  · exact fun hversion hpair => (hexact calls).readsBraced hto hsmall hversion hpair
  · exact fun hversion t htext => (hexact calls).readsVariable hto hsmall hversion htext

/-- A variable with a braced name, through buffers of five bytes: there is a quote in the URI, and a
reserved word behind it. -/
theorem after_readsVariable_bracedWord :
    ∃ l₀ : Lexer Memory 5,
      ofSource { rest := [0x24, 0x51, 0x7B, 0x22, 0x7D, 0x6F, 0x72] }
        { bufferSize := 5, version := .xpath30 } .xml = .ok l₀ ∧
      l₀.GivesAt 0 .variableReference [0x24, 0x51, 0x7B, 0x22, 0x7D, 0x6F, 0x72] := by
  have hsource := Memory.faithful [0x24, 0x51, 0x7B, 0x22, 0x7D, 0x6F, 0x72]
  obtain ⟨l₀, hof, hreads⟩ := after_readsVariable hsource (n := 5) (by decide) .xpath30
  obtain ⟨hto, hsmall⟩ := approaches_start hsource (by decide) hof (by decide)
  obtain ⟨-, -, hvariable⟩ := hreads [] 0 hto hsmall
  have hbraced : IsBraced [0x51, 0x7B, 0x22, 0x7D, 0x6F, 0x72] [0x22] [0x6F, 0x72] :=
    ⟨rfl, by decide, by decide, rfl⟩
  obtain ⟨result, hname, hresult⟩ := (hvariable (by decide) _ rfl).name rfl
  obtain rfl := hname.eq (.braced (by decide) hbraced)
  exact ⟨l₀, hof, hresult⟩

end Lexer

end XPathScan
