import XPathScan.Proofs.Lexer.Names
import XPathScan.Proofs.Lexer.Safety

/-!
# Kinds and lexemes agree

A kind says how its tokens are spelled: a reserved word by the word, a symbol by what it is called
in a diagnostic. The scanner does not ask for that. It takes symbols by their first byte and a
second one, as its own table has them, and gives a name the kind that it finds for the bytes. That
both agree is settled once for each entry of the tables (`XPathScan.operatorRule_spells`,
`XPathScan.Lexicon.reservedWord?_of_mem`), and from there it goes on to all tokens: a symbol takes
the bytes of its entry, and a name is looked up by all the bytes it takes.

Nothing of this depends on where the bytes come from. The bytes of a token lie in the window, and as
long as a lexer works its window shows some text, whatever the source claims
(`XPathScan.Lexer.Steady`).

With XML names more can be said, since the first byte of a name starts nothing else. A token with
the bytes of a reserved word is that word, and a token of a kind of names starts as a name does.

* `XPathScan.Kind.Spells` – the lexemes that a kind allows;
* `XPathScan.Reading.tokenAt_spells` – what is read of a token agrees with the bytes it takes;
* `XPathScan.Reading.kind_of_word` and `XPathScan.Reading.startsName_of_isName` – more of XML names;
* `XPathScan.Lexer.answers_spelling` – all of it for the tokens of a lexer over any source.
-/

namespace XPathScan

open Lexicon (wordBytes)

/-! ### Spellings -/

/-- **A lexeme that a kind allows.** -/
structure Kind.Spells (kind : Kind) (lexeme : List UInt8) : Prop where
  /-- A reserved word has its own spelling. -/
  reserved : ∀ word, kind.reservedWord? = some word → kind ≠ .symbol .union →
    lexeme = wordBytes word
  /-- The symbol that is also a word has two. -/
  union : kind = .symbol .union → lexeme = wordBytes "|" ∨ lexeme = wordBytes "union"
  /-- Any other symbol is spelled as it is described. -/
  symbol : ∀ s, kind = .symbol s → s ≠ .union → lexeme = wordBytes kind.description

/-- A kind with a spelling of its own. -/
def Kind.isSpelled : Kind → Bool
  | .keyword _ | .symbol _ => true
  | _ => false

/-- **A kind that says nothing about the bytes of a token**: it has no spelling, and is not one of
names. -/
def Kind.Loose (kind : Kind) : Prop := kind.isSpelled = false ∧ kind.isName = false

namespace Kind

/-- Only one symbol is also a word. -/
theorem eq_union_of_reservedWord? {s : Symbol} {word : String}
    (h : (symbol s).reservedWord? = some word) : s = .union := by
  rw [reservedWord?.eq_def] at h
  split at h <;> simp_all

theorem spells_symbol (s : Symbol) : (symbol s).Spells (wordBytes s.text) where
  reserved word hword hne := absurd (congrArg symbol (eq_union_of_reservedWord? hword)) hne
  union hunion := by
    obtain rfl := symbol.inj hunion
    exact Or.inl rfl
  symbol _ _ _ := rfl

/-- A reserved word has the spelling of its kind. -/
theorem spells_reservedWord {kind : Kind} {word : String} (h : kind.reservedWord? = some word) :
    kind.Spells (wordBytes word) where
  reserved word' hword' _ := by rw [Option.some.inj (h.symm.trans hword')]
  union hunion := by
    subst hunion
    obtain rfl := Option.some.inj h
    exact Or.inr rfl
  symbol s hs hne := by
    subst hs
    exact absurd (eq_union_of_reservedWord? h) hne

/-- A kind without a spelling allows every lexeme. -/
theorem spells_of_not_isSpelled {kind : Kind} (h : kind.isSpelled = false) (lexeme : List UInt8) :
    kind.Spells lexeme where
  reserved word hword _ := by
    rw [reservedWord?.eq_def] at hword
    split at hword <;> simp_all [isSpelled]
  union hunion := by simp [hunion, isSpelled] at h
  symbol s hs _ := by simp [hs, isSpelled] at h

end Kind

/-- **Every symbol in the table is spelled by its bytes.** -/
theorem operatorRule_spells (d : Dialect) (b : UInt8) : ∀ rule ∈ operatorRule? d b,
    wordBytes rule.alone.text = [b] ∧
      ∀ pair ∈ rule.pairs, wordBytes pair.2.text = [b, pair.1] := by
  rw [operatorRule?]
  repeat' refine Reading.forall_mem_ite (fun hb => ?_) fun _ => ?_
  all_goals simp only [Option.mem_def, Option.some.injEq, forall_eq', reduceCtorEq, false_implies,
    implies_true]
  -- Two of the symbols go on with a second byte in some versions only.
  all_goals try split
  all_goals subst b
  all_goals decide

namespace Lexicon

variable {version : Version} {entry : String × Kind}

/-- **The layers spell every reserved word as its kind does**, unless it names an axis or a function:
these have two kinds between them, without a spelling. -/
theorem reservedWord?_of_mem (h : entry ∈ words version) :
    entry.2 = .axisName ∨ entry.2 = .functionName ∨ entry.2.reservedWord? = some entry.1 :=
  forall_mem_words (P := fun entry => entry.2 = .axisName ∨ entry.2 = .functionName ∨
    entry.2.reservedWord? = some entry.1) (by decide +kernel) version entry h

/-- **Every reserved word is allowed by its kind.** -/
theorem spells_of_mem (h : entry ∈ words version) : entry.2.Spells (wordBytes entry.1) := by
  rcases reservedWord?_of_mem h with hkind | hkind | hword
  · rw [hkind]
    exact Kind.spells_of_not_isSpelled rfl _
  · rw [hkind]
    exact Kind.spells_of_not_isSpelled rfl _
  · exact Kind.spells_reservedWord hword

/-- **Every reserved word starts as an XML name does**, and not as a braced one. -/
theorem exists_head_of_mem (h : entry ∈ words version) :
    ∃ b ∈ (wordBytes entry.1).head?, ByteClass.xml.startsName b = true ∧ b ≠ Ascii.upperQ := by
  have htable := forall_mem_words (P := fun entry => (wordBytes entry.1).head?.any fun b =>
    ByteClass.xml.startsName b && b != Ascii.upperQ) (by decide +kernel) version
  obtain ⟨b, hb, hhead⟩ := (Option.any_eq_true _ _).mp (htable entry h)
  rw [Bool.and_eq_true, bne_iff_ne] at hhead
  exact ⟨b, hb, hhead⟩

/-- A word is in the trie with its kind. -/
theorem lookup_wordBytes (h : entry ∈ words version) :
    (trie version).lookup (wordBytes entry.1) = some entry.2 :=
  lookup_trie_iff.mpr (List.mem_map.mpr ⟨entry, h, rfl⟩)

/-- What is found in the trie is the kind of a word. -/
theorem exists_mem_of_lookup {name : List UInt8} {kind : Kind}
    (h : (trie version).lookup name = some kind) :
    ∃ entry ∈ words version, wordBytes entry.1 = name ∧ entry.2 = kind := by
  obtain ⟨entry, hentry, hpair⟩ := List.mem_map.mp (lookup_trie_iff.mp h)
  exact ⟨entry, hentry, congrArg Prod.fst hpair, congrArg Prod.snd hpair⟩

end Lexicon

/-- **A name is allowed by its kind**, whatever its form. -/
theorem NameForm.spells_kind (version : Version) (name : List UInt8) (form : NameForm) :
    (form.kind (.ofVersion version) name).Spells name := by
  have hname : ∀ qualified, ((Dialect.ofVersion version).nameKind name qualified).Spells name := by
    intro qualified
    rw [Dialect.nameKind, Dialect.ofVersion]
    simp only
    cases hlookup : (Lexicon.trie version).lookup name with
    | some kind =>
      obtain ⟨entry, hentry, rfl, rfl⟩ := Lexicon.exists_mem_of_lookup hlookup
      exact Lexicon.spells_of_mem hentry
    | none =>
      simp only
      split
      · exact Kind.spells_of_not_isSpelled rfl _
      · exact Kind.spells_of_not_isSpelled rfl _
  cases form with
  | plain => exact hname false
  | qualified => exact hname true
  | braced => exact Kind.spells_of_not_isSpelled rfl _

/-! ### What is read -/

namespace Reading

variable {version : Version} {b : UInt8} {t : List UInt8} {kind : Kind} {k : Nat}

/-- **What is read behind some bytes is a symbol spelled by them and the bytes taken**, unless its
kind says nothing about that. -/
def Completes (past t : List UInt8) (r : Reading Kind) : Prop :=
  ∀ kind k, r.found = .ok (kind, k) →
    kind.Loose ∨ ∃ s, kind = .symbol s ∧ wordBytes s.text = past ++ t.take k

variable {past : List UInt8}

theorem completes_broken (m : Malformation) : Completes past t (broken m 0) := nofun

theorem completes_of_loose {r : Reading Kind} (h : r.Gives Kind.Loose) : Completes past t r :=
  fun kind k hfound => Or.inl (h kind k hfound).1

/-- The bytes so far are all of the symbol. -/
theorem completes_step {s : Symbol} (h : wordBytes s.text = past) :
    Completes past t (step (.symbol s) 0) := by
  intro kind k hfound
  obtain ⟨rfl, rfl⟩ := Prod.mk.inj (Except.ok.inj hfound)
  exact Or.inr ⟨s, rfl, by rw [h, List.take_zero, List.append_nil]⟩

/-- One more byte belongs to it. -/
theorem completes_after {f : List UInt8 → Reading Kind} (h : Completes (past ++ [b]) t (f t)) :
    Completes past (b :: t) (after 1 f (b :: t)) := by
  intro kind k hfound
  obtain ⟨j, hj, rfl⟩ := after_eq_ok.mp hfound
  refine (h kind j hj).imp_right fun ⟨s, hkind, hs⟩ => ⟨s, hkind, ?_⟩
  rw [hs, Nat.add_comm, List.take_succ_cons, List.append_assoc, List.singleton_append]

/-- One more byte is the last one of it. -/
theorem completes_pair {s : Symbol} (hhead : t.head? = some b)
    (h : wordBytes s.text = past ++ [b]) :
    Completes past t (after 1 (fun _ => step (.symbol s) 0) t) := by
  obtain ⟨t, rfl⟩ := List.head?_eq_some_iff.mp hhead
  exact completes_after (completes_step h)

section Symbols

variable (d : Dialect) (c : ByteClass) (t : List UInt8)

theorem completes_point : Completes [] (Ascii.dot :: t) (point d c (Ascii.dot :: t)) := by
  refine completes_after ?_
  split
  · exact completes_of_loose (gives_after (gives_exponent d c _ ⟨rfl, rfl⟩ ⟨rfl, rfl⟩))
  split
  · next hdot => exact completes_pair hdot rfl
  · exact completes_step rfl

theorem completes_bang : Completes [] (Ascii.bang :: t) (bang d (Ascii.bang :: t)) := by
  refine completes_after ?_
  split
  · next hequals => exact completes_pair hequals rfl
  split
  · exact completes_step rfl
  · exact completes_broken _

theorem completes_question :
    Completes [] (Ascii.question :: t) (question d c (Ascii.question :: t)) := by
  refine completes_after ?_
  split
  · exact completes_step rfl
  split
  · exact completes_step rfl
  · exact completes_broken _

/-- **A symbol of the table is spelled by its bytes**, one or two. -/
theorem completes_operator {rule : OperatorRule} (h : operatorRule? d b = some rule) :
    Completes [] (b :: t) (operator rule (b :: t)) := by
  obtain ⟨halone, hpairs⟩ := operatorRule_spells d b rule h
  refine completes_after ?_
  split
  · next s hs =>
    obtain ⟨b', hhead, hlookup⟩ := Option.bind_eq_some_iff.mp hs
    obtain ⟨before, behind, hmem, -⟩ := List.lookup_eq_some_iff.mp hlookup
    exact completes_pair hhead (hpairs (b', s) (by simp [hmem]))
  · exact completes_step halone

end Symbols

/-- **What is read of a token agrees with the bytes it takes**, and if its kind is one of names it
starts as a name does. -/
theorem tokenAt_spells (c : ByteClass)
    (h : (tokenAt (.ofVersion version) c b (b :: t)).found = .ok (kind, k)) :
    kind.Spells ((b :: t).take k) ∧ (kind.isName = true → c.startsName b = true) := by
  have hloose : kind.Loose → kind.Spells ((b :: t).take k) ∧
      (kind.isName = true → c.startsName b = true) := fun hkind =>
    ⟨Kind.spells_of_not_isSpelled hkind.1 _, by simp [hkind.2]⟩
  have hcompletes : ∀ {r : Reading Kind}, Completes [] (b :: t) r → r.found = .ok (kind, k) →
      kind.Spells ((b :: t).take k) ∧ (kind.isName = true → c.startsName b = true) := by
    intro r hr hfound
    rcases hr kind k hfound with hkind | ⟨s, rfl, hs⟩
    · exact hloose hkind
    · rw [List.nil_append] at hs
      exact ⟨hs ▸ Kind.spells_symbol s, nofun⟩
  rw [tokenAt] at h
  split at h
  · obtain rfl := (gives_literal _ _ _ kind k h).1
    exact hloose ⟨rfl, rfl⟩
  split at h
  · next hb => exact hcompletes (hb ▸ completes_point _ c t) h
  split at h
  · obtain rfl := (gives_variableToken _ c _ kind k h).1
    exact hloose ⟨rfl, rfl⟩
  split at h
  · next hb => exact hcompletes (hb ▸ completes_bang _ t) h
  split at h
  · next hb => exact hcompletes (hb ▸ completes_question _ c t) h
  split at h
  · next rule hrule => exact hcompletes (completes_operator _ t hrule) h
  split at h
  · exact hloose (gives_number _ c _ (P := Kind.Loose) ⟨rfl, rfl⟩ ⟨rfl, rfl⟩ ⟨rfl, rfl⟩ kind k h).1
  split at h
  · next hname =>
    obtain ⟨form, -, rfl⟩ := mapLength_eq_ok.mp h
    exact ⟨NameForm.spells_kind version _ form, fun _ => hname⟩
  · cases h

/-- **The lexeme of a token is one that its kind allows.** -/
theorem token_spells (c : ByteClass)
    (h : (token (.ofVersion version) c t).found = .ok (kind, k)) : kind.Spells (t.take k) := by
  cases t with
  | nil =>
    obtain ⟨rfl, rfl⟩ := Prod.mk.inj (Except.ok.inj h)
    exact Kind.spells_of_not_isSpelled rfl _
  | cons b t => exact (tokenAt_spells c h).1

/-! ### XML names -/

/-- **A braced name starts with its letter.** -/
theorem head?_of_braced {d : Dialect} {c : ByteClass}
    (h : (anyName d c t).found = .ok (.braced, k)) : t.head? = some Ascii.upperQ := by
  rw [anyName] at h
  split at h
  · next hq =>
    rw [Bool.and_eq_true, decide_eq_true_eq] at hq
    exact hq.1
  · exact absurd rfl (gives_name d c t .braced k h).1

/-- **A token with the bytes of a reserved word has its kind.** -/
theorem kind_of_word (h : (token (.ofVersion version) .xml t).found = .ok (kind, k))
    {entry : String × Kind} (hentry : entry ∈ Lexicon.words version)
    (hword : t.take k = wordBytes entry.1) : kind = entry.2 := by
  obtain ⟨b, hb, hstarts, hne⟩ := Lexicon.exists_head_of_mem hentry
  have hlookup := Lexicon.lookup_wordBytes hentry
  rw [← hword] at hb hlookup
  have hhead : t.head? = some b := by
    rw [List.head?_take] at hb
    split at hb
    · cases hb
    · exact hb
  rw [token_eq_nameToken version (by rw [hhead]; exact hstarts)] at h
  obtain ⟨form, hform, rfl⟩ := mapLength_eq_ok.mp h
  cases form with
  | plain => simp only [NameForm.kind, Dialect.nameKind, Dialect.ofVersion, hlookup]
  | qualified => simp only [NameForm.kind, Dialect.nameKind, Dialect.ofVersion, hlookup]
  | braced =>
    -- No word starts with the letter of braced names.
    exact absurd (Option.some.inj (hhead.symm.trans (head?_of_braced hform))) hne

/-- **A token of a kind of names starts as a name does.** -/
theorem startsName_of_isName (h : (token (.ofVersion version) .xml t).found = .ok (kind, k))
    (hname : kind.isName = true) : (t.take k).head?.any ByteClass.xml.startsName = true := by
  cases t with
  | nil =>
    obtain ⟨rfl, rfl⟩ := Prod.mk.inj (Except.ok.inj h)
    cases hname
  | cons b t =>
    have hpos := (gives_token version (List.cons_ne_nil b t) h).1
    rw [List.head?_take, if_neg (Nat.ne_of_gt hpos)]
    exact (tokenAt_spells .xml h).2 hname

end Reading

/-! ### The tokens of a lexer -/

namespace Lexer

variable {σ : Type} [Source σ] {n : Nat} {l l' : Lexer σ n} {t : Token}

/-- **A token that a working lexer gives is read off the text in its window.** -/
theorem Steady.read_of_next {source : σ} (h : l.Steady source) (hnext : l.next = .ok t l') :
    ∃ ahead k, (Reading.token l.dialect l.classes ahead).found = .ok (t.kind, k) ∧
      t.lexeme = ahead.take k := by
  obtain ⟨-, l₁, hscan, -⟩ := next_eq_ok hnext
  obtain ⟨trivia, c, kind, w, input, hskip, htoken, -, rfl, -⟩ := scan_inv hscan
  have hc := (Trivia.steadily_skip h.input l.classes l.dialect.version .none).of_ok hskip
  obtain ⟨text, -, hfaces⟩ := hc.faces (Trivia.settled_skip hskip h.ready.settled)
  rcases Scan.token_cases hfaces l.dialect l.classes with
    ⟨kind', k, hscan', hk, hfits, hread⟩ | ⟨e, w', hscan', -⟩
  · obtain ⟨rfl, rfl⟩ : kind = kind' ∧ w = c.input.window.movedTo (c.input.window.pos + k) := by
      simpa [htoken] using hscan'
    refine ⟨_, k, hread, ?_⟩
    rw [fillIn, (lexeme_acquire h.ready.clean).1, (hfaces.movedTo hk hfits).past_eq]
    rfl
  · simp [htoken] at hscan'

omit [Source σ] in
/-- **A lexer with the byte classes and the language it was set up with.** -/
def Speaks (classes : ByteClass) (version : Version) (l : Lexer σ n) : Prop :=
  l.classes = classes ∧ l.dialect = .ofVersion version

section Speaks

variable {classes : ByteClass} {version : Version}

theorem Speaks.scan (h : l.Speaks classes version) :
    (Input.leaves l.scan).Speaks classes version := by
  rw [Lexer.scan]
  split
  · exact h
  · split
    · exact h
    · simp only
      split
      · exact h
      · exact h

/-- **No call changes them.** -/
theorem Speaks.next (h : l.Speaks classes version) :
    (Input.leaves l.next).Speaks classes version := by
  have hscan := h.scan
  rw [Lexer.next]
  split
  · exact h
  · split
    · next e l₁ herror =>
      rw [herror] at hscan
      exact hscan
    · next u l₁ htoken =>
      rw [htoken] at hscan
      simp only [Input.leaves]
      split
      · exact hscan
      · exact hscan

omit [Source σ] in
theorem Speaks.release (h : l.Speaks classes version) (t : Token) :
    (l.release t).Speaks classes version := h

theorem speaks_ofSource {source : σ} {settings : Settings} {l₀ : Lexer σ settings.bufferSize}
    (h : ofSource source settings classes = .ok l₀) : l₀.Speaks classes settings.version := by
  rw [ofSource] at h
  split at h
  · cases h
  · split at h
    · cases h
    · cases h
      exact ⟨rfl, rfl⟩

end Speaks

/-- **What the kind and the lexeme of a token have to do with each other** in a version, with the
byte classes of XML. -/
structure SpellsName (version : Version) (t : Token) : Prop where
  /-- The bytes of a reserved word are that word. -/
  word : ∀ entry ∈ Lexicon.words version, t.lexeme = wordBytes entry.1 → t.kind = entry.2
  /-- A kind of names has lexemes that start as names do. -/
  startsName : t.kind.isName = true → t.lexeme.head?.any ByteClass.xml.startsName = true

/-- **The kind and the lexeme of every token agree**, over any source at all, whatever the byte
classes and the size of the buffers are, and whatever calls have been made before. -/
theorem answers_spelling {source : σ} {settings : Settings} {classes : ByteClass}
    {l₀ : Lexer σ settings.bufferSize} (hof : ofSource source settings classes = .ok l₀)
    (calls : List Call) {t : Token} {l' : Lexer σ settings.bufferSize}
    (h : (l₀.after calls).Answers (.ok t) l') :
    t.kind.Spells t.lexeme ∧ (classes = .xml → SpellsName settings.version t) := by
  obtain ⟨hsound, hclasses, hdialect⟩ : (l₀.after calls).Sound source ∧
      (l₀.after calls).Speaks classes settings.version :=
    keeps_after (P := fun l => l.Sound source ∧ l.Speaks classes settings.version)
      (fun _ hl => ⟨hl.1.next, hl.2.next⟩) (fun _ t hl => ⟨hl.1.release t, hl.2.release t⟩) calls
      ⟨sound_ofSource hof, speaks_ofSource hof⟩
  have hnext := h.next_ok
  have hphase := (next_eq_ok hnext).1
  obtain ⟨ahead, k, hread, hlexeme⟩ := (hsound.steady hphase).read_of_next hnext
  rw [hclasses, hdialect] at hread
  rw [hlexeme]
  refine ⟨Reading.token_spells classes hread, ?_⟩
  rintro rfl
  refine ⟨fun entry hentry hword => ?_, fun hname => ?_⟩
  · exact Reading.kind_of_word hread hentry (hlexeme.symm.trans hword)
  · rw [hlexeme]
    exact Reading.startsName_of_isName hread hname

/-- The word that is also a symbol, through buffers of three bytes. -/
theorem answers_spelling_union :
    ∃ (l₀ l' : Lexer Memory 3) (t : Token),
      ofSource ({ rest := wordBytes "union" } : Memory)
        { bufferSize := 3, version := .xpath20 } .xml = .ok l₀ ∧
      l₀.Answers (.ok t) l' ∧ t.lexeme = wordBytes "union" ∧ t.kind = .symbol .union := by
  have hsource := Memory.faithful (wordBytes "union")
  obtain ⟨l₀, hof, hexact⟩ := exists_exact hsource (n := 3) (by decide) .xpath20 .xml
  obtain ⟨hto, hsmall⟩ := approaches_start hsource (by decide) hof (by decide)
  have hname : StartsName .xpath20 (wordBytes "union") := ⟨by decide, by decide⟩
  have hcolon : ¬ColonName (pastRun (wordBytes "union")) := by
    rintro ⟨b, rest, hpast, -⟩
    cases hpast
  obtain ⟨t, l', hnext, -, hlexeme, -⟩ :=
    ((hexact []).readsName hto hsmall hname).plain (Or.inr hcolon)
  replace hlexeme : t.lexeme = wordBytes "union" := hlexeme
  have hword := ((answers_spelling hof [] (.token hnext)).2 rfl).word ("union", .symbol .union)
  exact ⟨l₀, l', t, hof, .token hnext, hlexeme, hword (by decide +kernel) hlexeme⟩

end Lexer

end XPathScan
