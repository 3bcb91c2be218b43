import XPathScan.Proofs.Lexicon
import XPathScan.Proofs.Reading.Token

/-!
# How far the readings of tokens go

A scanner that looks at a byte and goes back has reached further than its token. It has not
reached *much* further: whatever a reading finds, its reach is at most one byte behind
(`XPathScan.Reading.Gives`). That is the worst case of a name with a colon after it which does not
belong to it. A malformation, in contrast, may be found at any distance.

The other thing that is said here of all readings at once is what they find: a token of a text that
is not empty takes at least one byte (`XPathScan.Reading.Takes`) and is not the end of the input. It
is a lookup only if it starts with a question mark, and a string literal only if it starts with a
quote.

* `XPathScan.Reading.gives_token` – the first three of them, for the token at the beginning of a
  text;
* `XPathScan.Reading.head?_of_lookup` and `XPathScan.Reading.head?_of_stringLiteral` – the last
  two.
-/

namespace XPathScan.Reading

variable {α β : Type} {P : α → Prop} {r : Reading α} {t : List UInt8}

/-! ### Readings that stop close to what they find -/

/-- **A reading finds values of some sort only, and stops at most one byte behind what it
finds.** -/
def Gives (P : α → Prop) (r : Reading α) : Prop :=
  ∀ (a : α) (k : Nat), r.found = .ok (a, k) → P a ∧ r.reach ≤ k + 1

theorem gives_step {a : α} (h : P a) (k : Nat) : (step a k).Gives P := by
  rintro a' k' hfound
  obtain ⟨rfl, rfl⟩ : a = a' ∧ k = k' := by simpa [step] using hfound
  exact ⟨h, Nat.le_succ k⟩

theorem gives_broken (m : Malformation) (k : Nat) : (broken m k : Reading α).Gives P := by
  rintro a' k' hfound
  simp [broken] at hfound

/-- A look at the next byte does not go too far. -/
theorem Gives.stretch (h : r.Gives P) {j : Nat} (hj : j ≤ 1) : (r.stretch j).Gives P := by
  rintro a k hfound
  obtain ⟨ha, hreach⟩ := h a k hfound
  refine ⟨ha, ?_⟩
  show max j r.reach ≤ k + 1
  omega

/-- **Bytes that come before what is read do not matter.** -/
theorem gives_after {k : Nat} {f : List UInt8 → Reading α} (h : (f (t.drop k)).Gives P) :
    (after k f t).Gives P := by
  rintro a l hfound
  obtain ⟨j, hj, rfl⟩ := after_eq_ok.mp hfound
  obtain ⟨ha, hreach⟩ := h a j hj
  refine ⟨ha, ?_⟩
  show k + (f (t.drop k)).reach ≤ k + j + 1
  omega

theorem Gives.mono {Q : α → Prop} (h : r.Gives P) (hPQ : ∀ a, P a → Q a) : r.Gives Q := by
  rintro a k hfound
  obtain ⟨ha, hreach⟩ := h a k hfound
  exact ⟨hPQ a ha, hreach⟩

theorem Gives.mapLength {Q : β → Prop} {g : α → Nat → β} (h : r.Gives P)
    (hg : ∀ a k, P a → Q (g a k)) : (r.mapLength g).Gives Q := by
  rintro b k hfound
  obtain ⟨a, hr, rfl⟩ := mapLength_eq_ok.mp hfound
  obtain ⟨ha, hreach⟩ := h a k hr
  exact ⟨hg a k ha, hreach⟩

/-! ### Readings that take something -/

/-- **What a reading finds takes at least one byte.** -/
def Takes (r : Reading α) : Prop := ∀ (a : α) (k : Nat), r.found = .ok (a, k) → 0 < k

theorem takes_broken (m : Malformation) (k : Nat) : (broken m k : Reading α).Takes := by
  rintro a' k' hfound
  simp [broken] at hfound

/-- A reading that starts by taking a byte takes one. -/
theorem takes_after {k : Nat} (hk : 0 < k) (f : List UInt8 → Reading α) : (after k f t).Takes := by
  rintro a l hfound
  obtain ⟨j, -, rfl⟩ := after_eq_ok.mp hfound
  omega

theorem Takes.mapLength {g : α → Nat → β} (h : r.Takes) : (r.mapLength g).Takes := by
  rintro b k hfound
  obtain ⟨a, hr, -⟩ := mapLength_eq_ok.mp hfound
  exact h a k hr

/-- A run that the first byte belongs to is not empty. -/
theorem runLength_pos {p : UInt8 → Bool} {b : UInt8} (hb : p b = true) :
    0 < runLength p (b :: t) := by
  rw [runLength_cons_of_pos hb]
  exact Nat.succ_pos _

/-! ### Names -/

section Names

variable (d : Dialect) (c : ByteClass) (t : List UInt8)

theorem colonReach_le : colonReach t ≤ 1 := by
  rw [colonReach]
  split <;> omega

theorem gives_name : (name d c t).Gives (· ≠ .braced) := by
  refine gives_after ?_
  split
  · -- The only reach behind the end of a name is that of the byte after a colon.
    split
    · refine gives_after (gives_after ?_)
      rw [nameEnd]
      split
      · exact gives_broken _ _
      · exact (gives_step (by decide) 0).stretch (colonReach_le _)
    · exact (gives_step (by decide) 0).stretch (colonReach_le _)
  · exact gives_step (by decide) 0

theorem gives_bracedName : (bracedName c t).Gives fun _ => True := by
  refine gives_after (gives_after ?_)
  split
  · refine gives_after ?_
    split
    · exact gives_after (gives_step trivial 0)
    · exact gives_broken _ _
  · exact gives_broken _ _

theorem gives_anyName : (anyName d c t).Gives fun _ => True := by
  have hname := (gives_name d c t).mono fun _ _ => trivial
  rw [anyName]
  split
  · split
    · exact gives_after (gives_bracedName c _)
    · exact hname.stretch (Nat.le_refl 1)
  · exact hname

/-- The kind of a name is ordinary, whatever its form. -/
theorem gives_nameToken (version : Version) :
    (nameToken (.ofVersion version) c t).Gives Kind.Ordinary := by
  refine (gives_anyName _ c t).mapLength fun form k _ => ?_
  cases form with
  | plain => exact Dialect.nameKind_ordinary version _ _
  | qualified => exact Dialect.nameKind_ordinary version _ _
  | braced => simp [NameForm.kind, Kind.Ordinary]

theorem gives_variableToken : (variableToken d c t).Gives (· = .variableReference) := by
  refine gives_after ?_
  split
  · exact (gives_anyName d c _).mapLength fun _ _ _ => rfl
  · exact gives_broken _ _

end Names

/-! ### Numbers, symbols and literals -/

/-- What holds of both sides of a choice holds of what is chosen. -/
theorem forall_mem_ite {c : Prop} [Decidable c] {x y : Option α}
    (hx : c → ∀ a ∈ x, P a) (hy : ¬c → ∀ a ∈ y, P a) : ∀ a ∈ (if c then x else y), P a := by
  split
  · next hc => exact hx hc
  · next hc => exact hy hc

/-- **The second bytes of symbols.** -/
def secondBytes : List UInt8 :=
  [Ascii.slash, Ascii.equals, Ascii.less, Ascii.greater, Ascii.colon, Ascii.pipe]

/-- **What the table of symbols holds**: no lookup, and few second bytes. -/
theorem operatorRule_mem (d : Dialect) (b : UInt8) : ∀ rule ∈ operatorRule? d b,
    rule.alone ≠ .lookup ∧ ∀ pair ∈ rule.pairs, pair.1 ∈ secondBytes ∧ pair.2 ≠ .lookup := by
  rw [operatorRule?]
  repeat' refine forall_mem_ite (fun _ => ?_) fun _ => ?_
  all_goals simp only [Option.mem_def, Option.some.injEq, forall_eq', reduceCtorEq, false_implies,
    implies_true]
  -- Two of the symbols go on with a second byte in some versions only.
  all_goals try split
  all_goals decide

section Others

variable (d : Dialect) (c : ByteClass) (t : List UInt8)

theorem gives_exponentDigits : (exponentDigits c t).Gives (· = .doubleLiteral) := by
  rw [exponentDigits]
  split
  · exact gives_after (gives_step (by rfl) 0)
  · exact gives_broken _ _

/-- With an exponent a number is a double. -/
theorem gives_exponent {kind : Kind} {P : Kind → Prop} (h : P kind) (hdouble : P .doubleLiteral) :
    (exponent d c kind t).Gives P := by
  have hdigits : ∀ t, (exponentDigits c t).Gives P := fun t =>
    (gives_exponentDigits c t).mono fun _ hkind => hkind ▸ hdouble
  rw [exponent]
  split
  · refine gives_after ?_
    split
    · exact gives_after (hdigits _)
    · exact hdigits _
  · exact gives_step h 0

/-- There are three kinds of numbers. -/
theorem gives_number {P : Kind → Prop} (hinteger : P .integerLiteral) (hdecimal : P .decimalLiteral)
    (hdouble : P .doubleLiteral) : (number d c t).Gives P := by
  refine gives_after ?_
  split
  · exact gives_after (gives_after (gives_exponent d c _ hdecimal hdouble))
  · exact gives_exponent d c _ hinteger hdouble

theorem gives_point : (point d c t).Gives Kind.Ordinary := by
  refine gives_after ?_
  split
  · exact gives_after (gives_exponent d c _ (by decide) (by decide))
  · split
    · exact gives_after (gives_step (by decide) 0)
    · exact gives_step (by decide) 0

theorem gives_operator {b : UInt8} {rule : OperatorRule} (h : operatorRule? d b = some rule) :
    (operator rule t).Gives Kind.Ordinary := by
  obtain ⟨halone, hpairs⟩ := operatorRule_mem d b rule h
  refine gives_after ?_
  split
  · next paired hpaired =>
    obtain ⟨b', -, hlookup⟩ := Option.bind_eq_some_iff.mp hpaired
    obtain ⟨before, behind, hmem, -⟩ := List.lookup_eq_some_iff.mp hlookup
    have hne := (hpairs (b', paired) (by simp [hmem])).2
    exact gives_after (gives_step ⟨by simp, by simpa using hne, by simp⟩ 0)
  · exact gives_step ⟨by simp, by simpa using halone, by simp⟩ 0

theorem gives_bang : (bang d t).Gives Kind.Ordinary := by
  refine gives_after ?_
  split
  · exact gives_after (gives_step (by decide) 0)
  · split
    · exact gives_step (by decide) 0
    · exact gives_broken _ _

theorem gives_question :
    (question d c t).Gives fun kind => kind ≠ .eof ∧ kind ≠ .stringLiteral := by
  refine gives_after ?_
  split
  · exact gives_step (by simp) 0
  · split
    · exact gives_step (by simp) 0
    · exact gives_broken _ _

theorem gives_literal (quote : UInt8) : (literal d quote t).Gives (· = .stringLiteral) := by
  have hrest : (literalRest quote (d.supports .escapedQuotes) (t.drop 1)).Gives fun _ => True := by
    rw [literalRest]
    split
    · exact gives_step trivial _
    · exact gives_broken _ _
  exact gives_after (hrest.mapLength fun _ _ _ => rfl)

end Others

/-! ### Tokens -/

/-- **A kind that a token can have by its first byte**: a lookup starts with a question mark, and a
string literal with a quote. -/
structure FirstByte (b : UInt8) (kind : Kind) : Prop where
  /-- It is not the kind of the end of the input. -/
  ne_eof : kind ≠ .eof
  /-- A lookup starts with a question mark. -/
  lookup : kind = .symbol .lookup → b = Ascii.question
  /-- A string literal starts with a quote. -/
  stringLiteral : kind = .stringLiteral → b = Ascii.quote ∨ b = Ascii.apostrophe

/-- A reading by the first byte finds a token of such a kind. -/
theorem gives_tokenAt (version : Version) (c : ByteClass) (b : UInt8) (t : List UInt8) :
    (tokenAt (.ofVersion version) c b t).Gives (FirstByte b) := by
  have hordinary : ∀ {r : Reading Kind}, r.Gives Kind.Ordinary → r.Gives (FirstByte b) :=
    fun h => h.mono fun kind hkind =>
      ⟨hkind.1, fun h => absurd h hkind.2.1, fun h => absurd h hkind.2.2⟩
  rw [tokenAt]
  split
  · next hquote =>
    refine (gives_literal _ t b).mono ?_
    rintro kind rfl
    exact ⟨by simp, by simp, fun _ => hquote⟩
  split
  · exact hordinary (gives_point _ c t)
  split
  · refine hordinary ((gives_variableToken _ c t).mono ?_)
    rintro kind rfl
    decide
  split
  · exact hordinary (gives_bang _ t)
  split
  · next hb =>
    exact (gives_question _ c t).mono fun kind hkind =>
      ⟨hkind.1, fun _ => hb, fun h => absurd h hkind.2⟩
  split
  · next rule hrule => exact hordinary (gives_operator _ t hrule)
  · split
    · exact hordinary (gives_number _ c t (by decide) (by decide) (by decide))
    split
    · exact hordinary (gives_nameToken c t version)
    · exact gives_broken _ _

/-- A name takes the run of bytes that continue one. -/
theorem takes_anyName (d : Dialect) {c : ByteClass} (h : 0 < runLength c.continuesName t) :
    (anyName d c t).Takes := by
  have hname : (name d c t).Takes := takes_after h _
  rw [anyName]
  split
  · split
    · exact takes_after Nat.one_pos _
    · exact hname
  · exact hname

/-- **A byte with which a name starts, and nothing else**: no other token has it as its first
byte. -/
structure NameFirst (d : Dialect) (c : ByteClass) (b : UInt8) : Prop where
  /-- It starts no literal and no symbol of its own. -/
  not_mem : b ∉ [Ascii.quote, Ascii.apostrophe, Ascii.dot, Ascii.bang, Ascii.question]
  /-- It starts no variable. -/
  not_variable : ¬(b = Ascii.dollar ∧ d.supports .variableReferences = true)
  /-- It is not in the table of symbols. -/
  not_operator : operatorRule? d b = none
  /-- It starts no number. -/
  not_digit : c.isDigit b = false
  /-- It starts a name. -/
  startsName : c.startsName b = true

/-- A token that starts with the first byte of a name is read as a name. -/
theorem NameFirst.tokenAt_eq {d : Dialect} {c : ByteClass} {b : UInt8} (h : NameFirst d c b) :
    tokenAt d c b = nameToken d c := by
  funext t
  obtain ⟨hmem, hvariable, hoperator, hdigit, hname⟩ := h
  simp only [List.mem_cons, List.not_mem_nil, or_false, not_or] at hmem
  simp [tokenAt, hmem, hvariable, hoperator, hdigit, hname]

theorem takes_tokenAt {d : Dialect} {c : ByteClass} {b : UInt8}
    (hb : NameFirst d c b → c.continuesName b = true) (t : List UInt8) :
    (tokenAt d c b (b :: t)).Takes := by
  -- Every other token than a number or a name starts by moving over its first byte.
  rw [tokenAt]
  split
  · exact takes_after Nat.one_pos _
  split
  · exact takes_after Nat.one_pos _
  split
  · exact takes_after Nat.one_pos _
  split
  · exact takes_after Nat.one_pos _
  split
  · exact takes_after Nat.one_pos _
  split
  · exact takes_after Nat.one_pos _
  · next hquote hdot hvariable hbang hquestion _ hoperator =>
    split
    · next hdigit => exact takes_after (runLength_pos hdigit) _
    · next hdigit =>
      split
      · next hname =>
        have hmem : b ∉ [Ascii.quote, Ascii.apostrophe, Ascii.dot, Ascii.bang, Ascii.question] := by
          simp [not_or.mp hquote, hdot, hbang, hquestion]
        have hrun := runLength_pos (t := t)
          (hb ⟨hmem, hvariable, hoperator, by simpa using hdigit, hname⟩)
        exact (takes_anyName d hrun).mapLength
      · exact takes_broken _ _

/-- A byte that starts an XML name may also continue one. -/
theorem continuesName_xml (b : UInt8) (h : ByteClass.xml.startsName b = true) :
    ByteClass.xml.continuesName b = true := by
  show (ByteClass.xml.startsName b || _ || _ || _) = true
  rw [h, Bool.true_or, Bool.true_or, Bool.true_or]

/-- **The token at the beginning of a text that is not empty** takes a byte, is not the end of the
input, and is found without going further than one byte behind it. If the text starts with a name,
the name has to go on with its first byte. -/
theorem gives_token_of_continues (version : Version) {c : ByteClass} {kind : Kind} {k : Nat}
    (ht : t ≠ []) (hc : ∀ b, t.head? = some b → NameFirst (.ofVersion version) c b →
      c.continuesName b = true)
    (h : (token (.ofVersion version) c t).found = .ok (kind, k)) :
    0 < k ∧ kind ≠ .eof ∧ (token (.ofVersion version) c t).reach ≤ k + 1 := by
  obtain ⟨b, t, rfl⟩ := List.exists_cons_of_ne_nil ht
  obtain ⟨hkind, hreach⟩ := gives_tokenAt version c b (b :: t) kind k h
  exact ⟨takes_tokenAt (hc b rfl) t kind k h, hkind.ne_eof, hreach⟩

/-- The same with XML names, which always go on with their first byte. -/
theorem gives_token (version : Version) {kind : Kind} {k : Nat} (ht : t ≠ [])
    (h : (token (.ofVersion version) .xml t).found = .ok (kind, k)) :
    0 < k ∧ kind ≠ .eof ∧ (token (.ofVersion version) .xml t).reach ≤ k + 1 :=
  gives_token_of_continues version ht (fun b _ hb => continuesName_xml b hb.startsName) h

/-- **A lookup starts with a question mark.** -/
theorem head?_of_lookup (version : Version) {k : Nat}
    (h : (token (.ofVersion version) .xml t).found = .ok (.symbol .lookup, k)) :
    t.head? = some Ascii.question := by
  cases t with
  | nil => simp [token, step] at h
  | cons b t =>
    obtain ⟨hkind, -⟩ := gives_tokenAt version .xml b (b :: t) _ k h
    rw [List.head?_cons, hkind.lookup rfl]

/-- **A string literal starts with a quote.** -/
theorem head?_of_stringLiteral (version : Version) (c : ByteClass) {k : Nat}
    (h : (token (.ofVersion version) c t).found = .ok (.stringLiteral, k)) :
    t.head? = some Ascii.quote ∨ t.head? = some Ascii.apostrophe := by
  cases t with
  | nil => simp [token, step] at h
  | cons b t =>
    obtain ⟨hkind, -⟩ := gives_tokenAt version c b (b :: t) _ k h
    simpa using hkind.stringLiteral rfl

end XPathScan.Reading
