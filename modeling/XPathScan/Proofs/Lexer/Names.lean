import XPathScan.Proofs.Lexer.Approach
import XPathScan.Proofs.Lexicon.Words

/-!
# Names are recognised by their grammar

A name is the longest run of name bytes and, from version 2.0 on, a second such run if a colon joins
them. A colon joins only if the first byte of a name comes behind it, so an axis separator or an
assignment is left for the next token. If a second colon would join a third run, there is no token
but an error where the name starts. The kind is that of the whole lexeme in the table of reserved
words, and depends on the colon only if the table does not have the lexeme.

The scanner finds this with a window that may be left behind by each of its looks past the name, and
asks a trie. That the table and not the trie is what decides is `XPathScan.Dialect.nameKind_eq`.

* `XPathScan.StartsName` – where a name is scanned that is not a braced one;
* `XPathScan.Lexer.ReadsName` – what has to become of such a name;
* `XPathScan.Lexer.after_readsName` – that this is so for a lexer over a faithful source, whatever
  calls have been made before.
-/

namespace XPathScan

variable {version : Version} {b : UInt8} {t : List UInt8}

/-! ### The grammar of names -/

/-- The run of name bytes at the beginning of a text. -/
def nameRun (t : List UInt8) : List UInt8 := t.takeWhile ByteClass.xml.continuesName

/-- What comes behind that run. -/
def pastRun (t : List UInt8) : List UInt8 := t.dropWhile ByteClass.xml.continuesName

/-- The run behind the byte that ends the first one: the local part of a qualified name. -/
def localRun (t : List UInt8) : List UInt8 := nameRun ((pastRun t).drop 1)

/-- What comes behind the second run. -/
def pastLocalRun (t : List UInt8) : List UInt8 := pastRun ((pastRun t).drop 1)

/-- **The qualified name** at the beginning of a text, if there is one. -/
def qualifiedName (t : List UInt8) : List UInt8 := nameRun t ++ Ascii.colon :: localRun t

/-- **A colon and the first byte of a name**, at the beginning of a text. -/
def ColonName (t : List UInt8) : Prop :=
  ∃ b rest, t = Ascii.colon :: b :: rest ∧ ByteClass.xml.startsName b = true

/-- **A text that starts with a name**, and not with a braced one where the version has those. -/
structure StartsName (version : Version) (t : List UInt8) : Prop where
  /-- The first byte is that of a name. -/
  startsName : t.head?.any ByteClass.xml.startsName = true
  /-- It is not the beginning of a braced name. -/
  not_braced : ¬(.xpath30 ≤ version ∧ [Ascii.upperQ, Ascii.leftBrace] <+: t)

/-- **The kind of a name by the table of reserved words**, and if it does not have the name, by
whether there is a colon in it. -/
def tableKind (version : Version) (name : List UInt8) : Kind :=
  ((Lexicon.entries version).lookup name).getD
    (if Ascii.colon ∈ name then .qName else .identifier)

/-- **The kind of a name is that of the table.** -/
theorem Dialect.nameKind_eq (version : Version) (qualified : Bool) {name : List UInt8}
    (h : qualified = true ↔ Ascii.colon ∈ name) :
    (ofVersion version).nameKind name qualified = tableKind version name := by
  rw [nameKind, tableKind, ofVersion]
  simp only [Lexicon.lookup_trie, ← h]
  cases (Lexicon.entries version).lookup name <;> rfl

/-! ### What is read of a name -/

/-- The first of two parts of a text. -/
theorem take_length_of_append {u v : List UInt8} (h : u ++ v = t) : t.take u.length = u := by
  rw [← h, List.take_left]

theorem nameRun_append_pastRun (t : List UInt8) : nameRun t ++ pastRun t = t :=
  List.takeWhile_append_dropWhile

/-- A qualified name, and what comes behind it. -/
theorem qualifiedName_append_pastLocalRun (h : ColonName (pastRun t)) :
    qualifiedName t ++ pastLocalRun t = t := by
  obtain ⟨b, rest, hpast, -⟩ := h
  have hlocal := nameRun_append_pastRun ((pastRun t).drop 1)
  have hfirst := nameRun_append_pastRun t
  rw [hpast] at hlocal hfirst
  rw [qualifiedName, localRun, pastLocalRun, hpast, List.append_assoc, List.cons_append, hlocal]
  exact hfirst

theorem colon_mem_qualifiedName (t : List UInt8) : Ascii.colon ∈ qualifiedName t := by
  simp [qualifiedName]

/-- No byte of a run is a colon. -/
theorem colon_not_mem_nameRun (t : List UInt8) : Ascii.colon ∉ nameRun t := by
  intro hmem
  have hcontinues := List.all_eq_true.mp List.all_takeWhile _ hmem
  exact absurd hcontinues (by decide)

namespace Reading

/-- A colon joins if it and the first byte of a name come next. -/
theorem joins_eq_true_iff : joins .xml t = true ↔ ColonName t := by
  rw [joins_iff]
  constructor
  · rintro ⟨hcolon, b, hb, hname⟩
    obtain ⟨t, rfl⟩ := List.head?_eq_some_iff.mp hcolon
    rw [List.getElem?_cons_succ, ← List.head?_eq_getElem?] at hb
    obtain ⟨rest, rfl⟩ := List.head?_eq_some_iff.mp hb
    exact ⟨b, rest, rfl, hname⟩
  · rintro ⟨b, rest, rfl, hname⟩
    exact ⟨rfl, b, rfl, hname⟩

/-- A reading behind a run of name bytes. -/
theorem after_nameRun {α : Type} (f : List UInt8 → Reading α) (t : List UInt8) :
    (after (runLength ByteClass.xml.continuesName t) f t).found =
      (f (pastRun t)).found.map fun (a, k) => (a, (nameRun t).length + k) := by
  have hdrop : t.drop (runLength ByteClass.xml.continuesName t) = pastRun t := by
    have hparts := congrArg (List.drop (nameRun t).length) (nameRun_append_pastRun t)
    rw [List.drop_left] at hparts
    exact hparts.symm
  rw [after, hdrop]
  rfl

variable {d : Dialect}

/-- **One run is a plain name**, if no colon joins another run to it. -/
theorem name_plain (h : d.supports .qualifiedNames = false ∨ ¬ColonName (pastRun t)) :
    (name d .xml t).found = .ok (.plain, (nameRun t).length) := by
  rw [name, after_nameRun]
  rcases h with hq | hcolon
  · simp [hq, step, Except.map]
  · rw [← joins_eq_true_iff] at hcolon
    simp only [hcolon]
    split <;> simp [step, stretch, Except.map]

/-- Behind two runs that a colon joins the reading is that of the end of a name. -/
theorem name_of_colonName (hq : d.supports .qualifiedNames = true)
    (hcolon : ColonName (pastRun t)) :
    (name d .xml t).found = (nameEnd .xml (pastLocalRun t)).found.map fun (form, k) =>
      (form, (qualifiedName t).length + k) := by
  rw [← joins_eq_true_iff] at hcolon
  rw [name, after_nameRun]
  simp only [hq, hcolon, if_true]
  rw [after]
  simp only [after_nameRun, pastLocalRun]
  rcases (nameEnd .xml (pastRun ((pastRun t).drop 1))).found with m | ⟨form, k⟩
  · rfl
  · simp only [Except.map, qualifiedName, localRun, List.length_append, List.length_cons,
      Except.ok.injEq, Prod.mk.injEq, true_and]
    omega

/-- **Two runs that a colon joins are a qualified name**, if no other colon joins a third one. -/
theorem name_qualified (hq : d.supports .qualifiedNames = true) (hcolon : ColonName (pastRun t))
    (hend : ¬ColonName (pastLocalRun t)) :
    (name d .xml t).found = .ok (.qualified, (qualifiedName t).length) := by
  rw [← joins_eq_true_iff] at hend
  rw [name_of_colonName hq hcolon, nameEnd, if_neg hend]
  rfl

/-- **Three runs that colons join are no name.** -/
theorem name_tooMany (hq : d.supports .qualifiedNames = true) (hcolon : ColonName (pastRun t))
    (hend : ColonName (pastLocalRun t)) :
    (name d .xml t).found = .error .multipleColonsInName := by
  rw [← joins_eq_true_iff] at hend
  rw [name_of_colonName hq hcolon, nameEnd, if_pos hend]
  rfl

/-- With XML names the first byte of a name starts nothing else. -/
theorem nameFirst_xml (version : Version) (hb : ByteClass.xml.startsName b = true) :
    NameFirst (.ofVersion version) .xml b := by
  have hne : ∀ c, ByteClass.xml.startsName c = false → b ≠ c := by
    rintro c hc rfl
    simp [hb] at hc
  refine ⟨?_, ?_, ?_, ?_, hb⟩
  · simp (disch := decide) only [List.mem_cons, List.not_mem_nil, hne, or_self, not_false_eq_true]
  · rintro ⟨rfl, -⟩
    cases hb
  · simp (disch := decide) only [operatorRule?, hne, if_false]
  · refine Bool.eq_false_iff.mpr fun hdigit => ?_
    simp only [ByteClass.xml, Ascii.isLetter, Ascii.isDigit, Ascii.underscore, Bool.or_eq_true,
      Bool.and_eq_true, decide_eq_true_eq, beq_iff_eq, UInt8.le_iff_toNat_le, ← UInt8.toNat_inj,
      UInt8.reduceToNat] at hb hdigit
    omega

/-- **A text that starts with a name, and not with a braced one, has a plain or qualified one.** -/
theorem anyName_of_startsName (h : StartsName version t) :
    (anyName (.ofVersion version) .xml t).found = (name (.ofVersion version) .xml t).found := by
  rw [anyName]
  split
  · next hq =>
    rw [Bool.and_eq_true, decide_eq_true_eq] at hq
    obtain ⟨hhead, hversion⟩ := hq
    obtain ⟨t, rfl⟩ := List.head?_eq_some_iff.mp hhead
    rw [if_neg]
    · rfl
    · -- A brace behind the letter would make it a braced name.
      intro hbrace
      rw [List.getElem?_cons_succ, ← List.head?_eq_getElem?] at hbrace
      obtain ⟨rest, rfl⟩ := List.head?_eq_some_iff.mp hbrace
      exact h.not_braced ⟨of_decide_eq_true hversion, rest, rfl⟩
  · rfl

/-- With XML names a text that starts as a name does is read as a name of some form. -/
theorem token_eq_nameToken (version : Version)
    (h : t.head?.any ByteClass.xml.startsName = true) :
    token (.ofVersion version) .xml t = nameToken (.ofVersion version) .xml t := by
  obtain ⟨b, t, rfl⟩ := List.exists_cons_of_ne_nil (Scan.ne_nil_of_any h)
  rw [token, (nameFirst_xml version h).tokenAt_eq]

/-- **A text that starts with a name is read as one.** -/
theorem token_of_startsName (h : StartsName version t) :
    (token (.ofVersion version) .xml t).found =
      (name (.ofVersion version) .xml t).found.map fun (form, k) =>
        (form.kind (.ofVersion version) (t.take k), k) := by
  rw [token_eq_nameToken version h.startsName, nameToken, mapLength, anyName_of_startsName h]

end Reading

/-- A text that starts as a name does starts with no blank and no comment. -/
theorem not_startsTrivia_of_startsName (version : Version)
    (h : t.head?.any ByteClass.xml.startsName = true) : ¬StartsTrivia version t := by
  obtain ⟨b, t, rfl⟩ := List.exists_cons_of_ne_nil (Scan.ne_nil_of_any h)
  refine not_startsTrivia_cons (fun hmem => ?_) t
  have hstarts : ByteClass.xml.startsName b = true := h
  rw [inert_startsName.eq_false hmem] at hstarts
  cases hstarts

/-! ### Names on the way of a lexer -/

namespace Lexer

variable {σ : Type} [Source σ] {n : Nat} {text : List UInt8} {l : Lexer σ n} {p : Nat}

/-- **What has to become of a name** that starts at an offset. -/
structure ReadsName (text : List UInt8) (version : Version) (l : Lexer σ n) (p : Nat) : Prop where
  /-- One run is the name, in version 1.0 and where no colon joins another one to it. -/
  plain : version = .xpath10 ∨ ¬ColonName (pastRun (text.drop p)) →
    l.GivesAt p (tableKind version (nameRun (text.drop p))) (nameRun (text.drop p))
  /-- Two runs are the name if a colon joins them, and none joins a third one. -/
  qualified : .xpath20 ≤ version → ColonName (pastRun (text.drop p)) →
    ¬ColonName (pastLocalRun (text.drop p)) →
    l.GivesAt p (tableKind version (qualifiedName (text.drop p))) (qualifiedName (text.drop p))
  /-- Three runs are an error where the first one starts. -/
  tooMany : .xpath20 ≤ version → ColonName (pastRun (text.drop p)) →
    ColonName (pastLocalRun (text.drop p)) → l.RejectsAt text p .multipleColonsInName

/-- **A name at a point of the text is read by its grammar.** -/
theorem Exact.readsName (h : l.Exact text .xml version) (hto : l.Approaches text .xml version p)
    (hsmall : ¬Overflows (l.answer 0)) (hname : StartsName version (text.drop p)) :
    l.ReadsName text version p := by
  have hfree := gapFree_xml (not_startsTrivia_of_startsName version hname.startsName)
  have hread := Reading.token_of_startsName hname
  have hsupports : .xpath20 ≤ version →
      (Dialect.ofVersion version).supports .qualifiedNames = true := decide_eq_true
  constructor
  case plain =>
    intro hone
    have hplain := Reading.name_plain (d := .ofVersion version)
      (hone.imp_left fun hversion => by rw [hversion]; rfl)
    have hkind := Dialect.nameKind_eq version false
      (iff_of_false nofun (colon_not_mem_nameRun (text.drop p)))
    refine h.gives_of_read hto hsmall hfree (nameRun_append_pastRun (text.drop p)).symm ?_
    rw [hread, hplain]
    simp only [Except.map, NameForm.kind, take_length_of_append (nameRun_append_pastRun _), hkind]
  case qualified =>
    intro hversion hcolon hend
    have hqualified := Reading.name_qualified (hsupports hversion) hcolon hend
    have hkind := Dialect.nameKind_eq version true
      (iff_of_true rfl (colon_mem_qualifiedName (text.drop p)))
    have hparts := qualifiedName_append_pastLocalRun hcolon
    refine h.gives_of_read hto hsmall hfree hparts.symm ?_
    rw [hread, hqualified]
    simp only [Except.map, NameForm.kind, take_length_of_append hparts, hkind]
  case tooMany =>
    intro hversion hcolon hend
    refine h.rejects_of_read hto hsmall hfree ?_
    rw [hread, Reading.name_tooMany (hsupports hversion) hcolon hend]
    rfl

/-- **Over a faithful source names are recognised by their grammar and classified by the table**,
whatever calls have been made before and however small the buffers are, if the window does not
overflow. -/
theorem after_readsName {source : σ} (hsource : Source.Faithful source text) (hn : 0 < n)
    (version : Version) :
    ∃ l₀ : Lexer σ n, ofSource source { bufferSize := n, version } .xml = .ok l₀ ∧
      ∀ calls p, (l₀.after calls).Approaches text .xml version p →
        StartsName version (text.drop p) → ¬Overflows ((l₀.after calls).answer 0) →
        (l₀.after calls).ReadsName text version p := by
  obtain ⟨l₀, hof, hexact⟩ := exists_exact hsource hn version .xml
  exact ⟨l₀, hof, fun calls p hto hname hsmall => (hexact calls).readsName hto hsmall hname⟩

/-- An axis and its separator, through buffers of four bytes: the first colon is followed by another
one and joins nothing. -/
theorem after_readsName_axis :
    ∃ l₀ : Lexer Memory 4,
      ofSource { rest := [0x73, 0x65, 0x6C, 0x66, 0x3A, 0x3A, 0x61] }
        { bufferSize := 4, version := .xpath20 } .xml = .ok l₀ ∧
      l₀.GivesAt 0 .axisName [0x73, 0x65, 0x6C, 0x66] := by
  have hsource := Memory.faithful [0x73, 0x65, 0x6C, 0x66, 0x3A, 0x3A, 0x61]
  obtain ⟨l₀, hof, hreads⟩ := after_readsName hsource (n := 4) (by decide) .xpath20
  obtain ⟨hto, hsmall⟩ := approaches_start hsource (by decide) hof (by decide)
  have hname : StartsName .xpath20 [0x73, 0x65, 0x6C, 0x66, 0x3A, 0x3A, 0x61] :=
    ⟨by decide, by decide⟩
  have hcolon : ¬ColonName [0x3A, 0x3A, 0x61] := by
    rintro ⟨b, rest, ⟨⟩, hb⟩
    cases hb
  have hkind : tableKind .xpath20 [0x73, 0x65, 0x6C, 0x66] = .axisName := by decide +kernel
  exact ⟨l₀, hof, hkind ▸ (hreads [] 0 hto hname hsmall).plain (Or.inr hcolon)⟩

end Lexer

end XPathScan
