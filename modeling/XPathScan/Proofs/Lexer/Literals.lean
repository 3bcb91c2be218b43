import XPathScan.Proofs.Lexer.Approach

/-!
# String literals are recognised exactly

Between two quotes of one sort a literal has its content, in which from version 2.0 on each quote of
that sort is doubled (`XPathScan.doubled`). The scanner does not know where the content ends: it
looks for a quote, and then whether another one comes behind it. So quotes are paired from the left,
and the literal ends at the first that is left over. Doubling is what makes this right: for every
content there is one way to write it, every literal is written so, and from what is written the
content can be had back.

* `XPathScan.literalLength_eq_some_iff` – a literal ends behind a doubled content and nowhere else;
* `XPathScan.Lexer.ReadsLiteral` – what has to become of a quote;
* `XPathScan.Lexer.GivesQuoted` – what every literal that is given has to be;
* `XPathScan.Lexer.after_readsLiteral` – that this is so for a lexer over a faithful source,
  whatever calls have been made before.
-/

namespace XPathScan

variable {q b : UInt8} {c r t : List UInt8} {escapes : Bool}

/-! ### Doubling -/

/-- The bytes that literals stand between. -/
def quotes : List UInt8 := [Ascii.quote, Ascii.apostrophe]

/-- **A text with each quote of one sort doubled.** -/
def doubled (q : UInt8) (c : List UInt8) : List UInt8 :=
  c.flatMap fun b => if b = q then [q, q] else [b]

/-- **A literal with the given content.** -/
def quoted (q : UInt8) (c : List UInt8) : List UInt8 := q :: (doubled q c ++ [q])

@[simp] theorem doubled_nil : doubled q [] = [] := rfl

@[simp] theorem doubled_cons_quote : doubled q (q :: c) = q :: q :: doubled q c := by
  simp [doubled]

theorem doubled_cons_of_ne (hb : b ≠ q) : doubled q (b :: c) = b :: doubled q c := by
  simp [doubled, hb]

/-- A text without the quote is its own doubling. -/
theorem doubled_of_not_mem (h : q ∉ c) : doubled q c = c := by
  induction c with
  | nil => rfl
  | cons b c ih =>
    rw [doubled_cons_of_ne (List.ne_of_not_mem_cons h).symm, ih (List.not_mem_of_not_mem_cons h)]

/-- A doubling starts with the first byte of what is doubled. -/
theorem head?_doubled : (doubled q c).head? = c.head? := by
  cases c with
  | nil => rfl
  | cons b c =>
    by_cases hb : b = q
    · subst hb
      simp
    · simp [doubled_cons_of_ne hb]

/-- **What is doubled can be had back.** -/
theorem doubled_inj {c' : List UInt8} (h : doubled q c = doubled q c') : c = c' := by
  induction c generalizing c' with
  | nil =>
    have hhead := head?_doubled (q := q) (c := c')
    rw [← h] at hhead
    exact (List.head?_eq_none_iff.mp hhead.symm).symm
  | cons b c ih =>
    have hhead := head?_doubled (q := q) (c := c')
    rw [← h, head?_doubled, List.head?_cons] at hhead
    obtain ⟨c', rfl⟩ := List.head?_eq_some_iff.mp hhead.symm
    by_cases hb : b = q
    · subst hb
      simp only [doubled_cons_quote, List.cons.injEq, true_and] at h
      rw [ih h]
    · simp only [doubled_cons_of_ne hb, List.cons.injEq, true_and] at h
      rw [ih h]

/-- **A literal has one quote and one content.** -/
theorem quoted_inj {q' : UInt8} {c' : List UInt8} (h : quoted q c = quoted q' c') :
    q = q' ∧ c = c' := by
  obtain ⟨rfl, hrest⟩ := List.cons.inj h
  exact ⟨rfl, doubled_inj (List.append_cancel_right hrest)⟩

/-! ### The end of a literal -/

/-- **A text behind an opening quote, with the literal closed**: the content with its quotes
doubled, the closing quote, and a rest that does not make a pair with it. Where quotes are not
escaped the content has none, and anything may come behind. -/
structure Closes (q : UInt8) (escapes : Bool) (c r t : List UInt8) : Prop where
  /-- The parts of the text. -/
  text_eq : t = doubled q c ++ q :: r
  /-- Without escapes a quote in the content would end it. -/
  not_mem : escapes = false → q ∉ c
  /-- With escapes a quote behind the last one would make it one of a pair. -/
  head?_ne : escapes = true → r.head? ≠ some q

/-- The whole literal, and what comes behind it. -/
theorem Closes.cons_eq (h : Closes q escapes c r t) : q :: t = quoted q c ++ r := by
  simp [quoted, h.text_eq]

/-- One byte more of the content: a pair of quotes. -/
theorem Closes.pair (h : Closes q true c r t) : Closes q true (q :: c) r (q :: q :: t) where
  text_eq := by rw [h.text_eq, doubled_cons_quote, List.cons_append, List.cons_append]
  not_mem := nofun
  head?_ne := h.head?_ne

/-- One byte more of the content: something else. -/
theorem Closes.cons (h : Closes q escapes c r t) (hb : b ≠ q) :
    Closes q escapes (b :: c) r (b :: t) where
  text_eq := by rw [h.text_eq, doubled_cons_of_ne hb, List.cons_append]
  not_mem he := List.not_mem_cons_of_ne_of_not_mem (Ne.symm hb) (h.not_mem he)
  head?_ne := h.head?_ne

/-- **A literal that is closed has its length.** -/
theorem Closes.literalLength_eq (h : Closes q escapes c r t) :
    literalLength q escapes t = some ((doubled q c).length + 1) := by
  obtain ⟨rfl, hnot, hne⟩ := h
  induction c with
  | nil =>
    rw [doubled_nil, List.nil_append, literalLength_cons_quote, if_neg fun h => hne h.1 h.2]
    rfl
  | cons b c ih =>
    have hih := ih fun he => List.not_mem_of_not_mem_cons (hnot he)
    by_cases hb : b = q
    · -- A quote in the content is one of a pair, and quotes are escaped.
      subst hb
      have he : escapes = true := eq_true_of_ne_false fun he => hnot he List.mem_cons_self
      rw [doubled_cons_quote, List.cons_append, List.cons_append, literalLength_cons_quote,
        if_pos ⟨he, rfl⟩, List.tail_cons, hih]
      rfl
    · rw [doubled_cons_of_ne hb, List.cons_append, literalLength_cons_of_ne hb, hih]
      rfl

/-- **A literal that has a length is closed.** -/
theorem exists_closes {k : Nat} (h : literalLength q escapes t = some k) :
    ∃ c r, Closes q escapes c r t := by
  -- By the recursion of the length: a pair of quotes takes two bytes at once.
  fun_induction literalLength q escapes t generalizing k with
  | case1 => cases h
  | case2 => exact ⟨[], [], rfl, fun _ => List.not_mem_nil, fun _ => nofun⟩
  | case3 => cases h
  | case4 b t hpair ih =>
    obtain ⟨rfl, rfl⟩ := hpair
    obtain ⟨j, hj, -⟩ := Option.map_eq_some_iff.mp h
    obtain ⟨c, r, hcloses⟩ := ih hj
    exact ⟨b :: c, r, hcloses.pair⟩
  | case5 b t hpair =>
    exact ⟨[], b :: t, rfl, fun _ => List.not_mem_nil, fun he hhead =>
      hpair ⟨he, Option.some.inj hhead⟩⟩
  | case6 b b' t hb ih =>
    obtain ⟨j, hj, -⟩ := Option.map_eq_some_iff.mp h
    obtain ⟨c, r, hcloses⟩ := ih hj
    exact ⟨b :: c, r, hcloses.cons hb⟩

/-- **A literal ends behind a doubled content and nowhere else.** -/
theorem literalLength_eq_some_iff {k : Nat} : literalLength q escapes t = some k ↔
    ∃ c r, Closes q escapes c r t ∧ k = (doubled q c).length + 1 := by
  constructor
  · intro h
    obtain ⟨c, r, hcloses⟩ := exists_closes h
    exact ⟨c, r, hcloses, Option.some.inj (h.symm.trans hcloses.literalLength_eq)⟩
  · rintro ⟨c, r, hcloses, rfl⟩
    exact hcloses.literalLength_eq

/-- With escapes the content may be anything. -/
theorem closes_true_iff : Closes q true c r t ↔ t = doubled q c ++ q :: r ∧ r.head? ≠ some q :=
  ⟨fun h => ⟨h.text_eq, h.head?_ne rfl⟩, fun ⟨htext, hne⟩ => ⟨htext, nofun, fun _ => hne⟩⟩

/-- Without escapes the content is what stands before the first quote. -/
theorem closes_false_iff : Closes q false c r t ↔ q ∉ c ∧ t = c ++ q :: r := by
  constructor
  · rintro ⟨rfl, hnot, -⟩
    exact ⟨hnot rfl, by rw [doubled_of_not_mem (hnot rfl)]⟩
  · rintro ⟨hnot, rfl⟩
    exact ⟨by rw [doubled_of_not_mem hnot], fun _ => hnot, nofun⟩

/-- Without escapes a literal is closed if there is a quote. -/
theorem exists_closes_false_iff : (∃ c r, Closes q false c r t) ↔ q ∈ t := by
  simp only [closes_false_iff]
  constructor
  · rintro ⟨c, r, -, rfl⟩
    exact List.mem_append_right c List.mem_cons_self
  · intro hmem
    obtain ⟨c, r, rfl, hnot⟩ := List.eq_append_cons_of_mem hmem
    exact ⟨c, r, hnot, rfl⟩

/-! ### What is read of a literal -/

namespace Reading

variable {version : Version} {classes : ByteClass}

/-- **At a quote a literal is read**, up to its length. -/
theorem token_of_quote (hq : q ∈ quotes) (t : List UInt8) :
    (token (.ofVersion version) classes (q :: t)).found =
      match literalLength q (decide (.xpath20 ≤ version)) t with
      | some k => .ok (.stringLiteral, 1 + k)
      | none => .error .unterminatedLiteral := by
  have hquote : q = Ascii.quote ∨ q = Ascii.apostrophe := by simpa [quotes] using hq
  have hescapes : (Dialect.ofVersion version).supports .escapedQuotes =
      decide (.xpath20 ≤ version) := rfl
  rw [token, tokenAt, if_pos hquote, literal, hescapes]
  simp only [after, List.drop_succ_cons, List.drop_zero, mapLength, literalRest]
  cases literalLength q (decide (.xpath20 ≤ version)) t <;> rfl

/-- **A literal that is closed is read to its end.** -/
theorem token_of_closes (hq : q ∈ quotes)
    (h : Closes q (decide (.xpath20 ≤ version)) c r t) :
    (token (.ofVersion version) classes (q :: t)).found =
      .ok (.stringLiteral, (quoted q c).length) := by
  rw [token_of_quote hq, literalLength_eq_some_iff.mpr ⟨c, r, h, rfl⟩]
  simp only [quoted, List.length_cons, List.length_append, List.length_nil, Except.ok.injEq,
    Prod.mk.injEq, true_and]
  omega

/-- **A literal that is not closed is reported.** -/
theorem token_of_not_closes (hq : q ∈ quotes)
    (h : ¬∃ c r, Closes q (decide (.xpath20 ≤ version)) c r t) :
    (token (.ofVersion version) classes (q :: t)).found = .error .unterminatedLiteral := by
  have hnone : literalLength q (decide (.xpath20 ≤ version)) t = none := by
    refine Option.eq_none_iff_forall_not_mem.mpr fun k hk => ?_
    obtain ⟨c, r, hcloses, -⟩ := literalLength_eq_some_iff.mp hk
    exact h ⟨c, r, hcloses⟩
  rw [token_of_quote hq, hnone]

/-- **A string literal that is read is a closed one.** -/
theorem closes_of_stringLiteral {u : List UInt8} {k : Nat}
    (h : (token (.ofVersion version) classes u).found = .ok (.stringLiteral, k)) :
    ∃ q ∈ quotes, ∃ c r t, Closes q (decide (.xpath20 ≤ version)) c r t ∧ u = quoted q c ++ r ∧
      k = (quoted q c).length := by
  obtain ⟨q, hq, t, rfl⟩ : ∃ q ∈ quotes, ∃ t, u = q :: t := by
    rcases head?_of_stringLiteral version classes h with hhead | hhead
    · exact ⟨_, List.mem_cons_self, List.head?_eq_some_iff.mp hhead⟩
    · exact ⟨_, List.mem_cons_of_mem _ List.mem_cons_self, List.head?_eq_some_iff.mp hhead⟩
  by_cases hcloses : ∃ c r, Closes q (decide (.xpath20 ≤ version)) c r t
  · obtain ⟨c, r, hcloses⟩ := hcloses
    rw [token_of_closes hq hcloses] at h
    obtain rfl : (quoted q c).length = k := by simpa using h
    exact ⟨q, hq, c, r, t, hcloses, hcloses.cons_eq, rfl⟩
  · rw [token_of_not_closes hq hcloses] at h
    cases h

end Reading

/-! ### Literals on the way of a lexer -/

namespace Lexer

variable {σ : Type} [Source σ] {n : Nat} {text : List UInt8} {classes : ByteClass}
  {version : Version} {l : Lexer σ n} {p : Nat}

/-- **What has to become of a quote** at an offset, with the given text behind it. -/
structure ReadsLiteral (text : List UInt8) (version : Version) (l : Lexer σ n) (p : Nat)
    (q : UInt8) (t : List UInt8) : Prop where
  /-- From version 2.0 on any content is read back, if no other quote comes behind the literal. -/
  escaped : .xpath20 ≤ version → ∀ c r, t = doubled q c ++ q :: r → r.head? ≠ some q →
    l.GivesAt p .stringLiteral (quoted q c)
  /-- If the text does not start with such a literal, there is an error at the quote. -/
  escaped_open : .xpath20 ≤ version →
    ((¬∃ c r, t = doubled q c ++ q :: r ∧ r.head? ≠ some q) ↔
      l.RejectsAt text p .unterminatedLiteral)
  /-- In version 1.0 the literal ends at the first quote. -/
  plain : version = .xpath10 → ∀ c r, q ∉ c → t = c ++ q :: r →
    l.GivesAt p .stringLiteral (q :: (c ++ [q]))
  /-- If there is none, there is an error. -/
  plain_open : version = .xpath10 → (q ∉ t ↔ l.RejectsAt text p .unterminatedLiteral)

/-- **What every literal that is given has to be.** -/
structure GivesQuoted (version : Version) (l : Lexer σ n) : Prop where
  /-- From version 2.0 on it has exactly one quote and one content. -/
  escaped : .xpath20 ≤ version → ∀ t l', l.next = .ok t l' → t.kind = .stringLiteral →
    ∃ q ∈ quotes, ∃ c, t.lexeme = quoted q c ∧
      ∀ q' c', t.lexeme = quoted q' c' → q' = q ∧ c' = c
  /-- In version 1.0 its quote is not in its content. -/
  plain : version = .xpath10 → ∀ t l', l.next = .ok t l' → t.kind = .stringLiteral →
    ∃ q ∈ quotes, ∃ c, q ∉ c ∧ t.lexeme = q :: (c ++ [q])

/-- **A quote at a point of the text is read as a literal.** -/
theorem Exact.readsLiteral (h : l.Exact text classes version)
    (hto : l.Approaches text classes version p) (hsmall : ¬Overflows (l.answer 0))
    (hq : q ∈ quotes) (hspace : classes.isSpace q = false) (htext : text.drop p = q :: t) :
    l.ReadsLiteral text version p q t := by
  have hparen : q ≠ Ascii.leftParen := by
    rintro rfl
    exact absurd hq (by decide)
  have hfree : GapFree classes version (text.drop p) := htext ▸ gapFree_cons hspace hparen t
  have hgives : ∀ c r, Closes q (decide (.xpath20 ≤ version)) c r t →
      l.GivesAt p .stringLiteral (quoted q c) := fun c r hcloses =>
    h.gives_of_read hto hsmall hfree (htext.trans hcloses.cons_eq)
      (htext ▸ Reading.token_of_closes hq hcloses)
  have hopen : (¬∃ c r, Closes q (decide (.xpath20 ≤ version)) c r t) ↔
      l.RejectsAt text p .unterminatedLiteral := by
    constructor
    · intro hnone
      exact h.rejects_of_read hto hsmall hfree (htext ▸ Reading.token_of_not_closes hq hnone)
    · rintro hrejects ⟨c, r, hcloses⟩
      exact (hgives c r hcloses).not_rejectsAt _ hrejects
  constructor
  case escaped =>
    intro hversion c r ht hr
    rw [decide_eq_true hversion] at hgives
    exact hgives c r (closes_true_iff.mpr ⟨ht, hr⟩)
  case escaped_open =>
    intro hversion
    rw [decide_eq_true hversion] at hopen
    simpa only [closes_true_iff] using hopen
  case plain =>
    rintro rfl c r hnot ht
    have hgiven := hgives c r (closes_false_iff.mpr ⟨hnot, ht⟩)
    rwa [quoted, doubled_of_not_mem hnot] at hgiven
  case plain_open =>
    rintro rfl
    exact (not_congr exists_closes_false_iff).symm.trans hopen

/-- A literal that is given is a closed one. -/
theorem Exact.closes_of_next (h : l.Exact text classes version) {t : Token} {l' : Lexer σ n}
    (hnext : l.next = .ok t l') (hkind : t.kind = .stringLiteral) :
    ∃ q ∈ quotes, ∃ c r u, Closes q (decide (.xpath20 ≤ version)) c r u ∧
      t.lexeme = quoted q c := by
  have hphase := phase_ne_failed (l := l) (by simp [hnext])
  obtain ⟨s, hfollows, -⟩ := h.resolve_left hphase
  obtain ⟨s', hfound, -⟩ := hfollows.next_inv hphase hnext
  have hsees := Plain.sees_of_found hfollows.stands.offset_le hfound
  have hread := hsees.read
  rw [hkind] at hread
  obtain ⟨q, hq, c, r, u, hcloses, htext, hlength⟩ := Reading.closes_of_stringLiteral hread
  refine ⟨q, hq, c, r, u, hcloses, ?_⟩
  rw [hsees.lexeme_eq, htext, hlength, List.take_left]

/-- **Every literal that is given is well formed.** -/
theorem Exact.givesQuoted (h : l.Exact text classes version) : l.GivesQuoted version := by
  constructor
  · intro _ t l' hnext hkind
    obtain ⟨q, hq, c, r, u, -, hlexeme⟩ := h.closes_of_next hnext hkind
    exact ⟨q, hq, c, hlexeme, fun q' c' hlexeme' => quoted_inj (hlexeme'.symm.trans hlexeme)⟩
  · rintro rfl t l' hnext hkind
    obtain ⟨q, hq, c, r, u, hcloses, hlexeme⟩ := h.closes_of_next hnext hkind
    have hnot := hcloses.not_mem rfl
    rw [quoted, doubled_of_not_mem hnot] at hlexeme
    exact ⟨q, hq, c, hnot, hlexeme⟩

/-- **Over a faithful source string literals are recognised exactly**, whatever calls have been made
before. Each literal that is given is well formed, however small the buffers are and whatever the
classes; and each quote that is not among the blanks is read as it has to be, if the window does not
overflow. -/
theorem after_readsLiteral {source : σ} (hsource : Source.Faithful source text) (hn : 0 < n)
    (version : Version) (classes : ByteClass) :
    ∃ l₀ : Lexer σ n, ofSource source { bufferSize := n, version } classes = .ok l₀ ∧
      ∀ calls, (l₀.after calls).GivesQuoted version ∧
        ∀ p q t, (l₀.after calls).Approaches text classes version p → q ∈ quotes →
          classes.isSpace q = false → text.drop p = q :: t →
          ¬Overflows ((l₀.after calls).answer 0) →
          (l₀.after calls).ReadsLiteral text version p q t := by
  obtain ⟨l₀, hof, hexact⟩ := exists_exact hsource hn version classes
  refine ⟨l₀, hof, fun calls => ⟨(hexact calls).givesQuoted, ?_⟩⟩
  intro p q t hto hq hspace htext hsmall
  exact (hexact calls).readsLiteral hto hsmall hq hspace htext

/-- A literal with an apostrophe in it, through buffers of four bytes: the pair of apostrophes lies
across the end of the first buffer. -/
theorem after_readsLiteral_apostrophe :
    ∃ l₀ : Lexer Memory 4,
      ofSource { rest := [0x27, 0x69, 0x74, 0x27, 0x27, 0x73, 0x27] }
        { bufferSize := 4, version := .xpath20 } .xml = .ok l₀ ∧
      l₀.GivesAt 0 .stringLiteral (quoted 0x27 [0x69, 0x74, 0x27, 0x73]) := by
  have hsource := Memory.faithful [0x27, 0x69, 0x74, 0x27, 0x27, 0x73, 0x27]
  obtain ⟨l₀, hof, hreads⟩ := after_readsLiteral hsource (n := 4) (by decide) .xpath20 .xml
  obtain ⟨hto, hsmall⟩ := approaches_start hsource (by decide) hof (by decide)
  have hliteral := (hreads []).2 0 0x27 [0x69, 0x74, 0x27, 0x27, 0x73, 0x27] hto (by decide)
    (by decide) rfl hsmall
  exact ⟨l₀, hof, hliteral.escaped (by decide) [0x69, 0x74, 0x27, 0x73] [] rfl (by decide)⟩

end Lexer

end XPathScan
