import XPathScan.Proofs.Lexicon.Words
import XPathScan.Proofs.Reading.Bounds

/-!
# What version 3.1 reads in another way than version 3.0

The two versions differ in one feature, the operator `||`, and in the words that the later one has
brought. A token is therefore read alike in both, with two exceptions: two bars are two tokens in
the one version and a single token in the other, and a name that is one of the new words is that of
a function. No such word is reserved in the earlier version, so there it is a name like any other;
and whether it is reserved or not does not change where a name ends.

* `XPathScan.Lexicon.lookup_xpath31` – the reserved words of the two versions;
* `XPathScan.Kind.recast` – what becomes of the kind of a token;
* `XPathScan.Reading.token_twoBars` and `XPathScan.Reading.token_recast` – two bars, and everything
  else.
-/

namespace XPathScan

/-! ### Words -/

namespace Lexicon

/-- **The words that version 3.1 has brought**, by their bytes. -/
def newWords : List (List UInt8) := functions31.map wordBytes

variable {name : List UInt8}

/-- The reserved words of version 3.1 are those of version 3.0 and the new ones. -/
theorem words_xpath31 : words .xpath31 = words .xpath30 ++ allOf .functionName functions31 := by
  have hlayers : layers.filter (·.since ≤ .xpath31) = layers.filter (·.since ≤ .xpath30) ++
      [{ since := .xpath31, words := allOf .functionName functions31 }] := by rfl
  rw [words, words, hlayers, List.flatMap_append, List.flatMap_singleton]

/-- The new words with their kind, as they stand in the table. -/
theorem entries_xpath31 :
    entries .xpath31 = entries .xpath30 ++ newWords.map (·, Kind.functionName) := by
  rw [entries, entries, words_xpath31, List.map_append, allOf, newWords, List.map_map, List.map_map]
  rfl

/-- Words that all have one kind are found with it. -/
theorem lookup_kind (keys : List (List UInt8)) (kind : Kind) (name : List UInt8) :
    (keys.map (·, kind)).lookup name = if name ∈ keys then some kind else none := by
  induction keys with
  | nil => rfl
  | cons key keys ih =>
    rw [List.map_cons, List.lookup_cons, ih]
    by_cases hname : name = key
    · simp [hname]
    · simp [hname, beq_false_of_ne hname]

/-- **A new word is no word of version 3.0.** -/
theorem lookup_xpath30_of_mem (h : name ∈ newWords) : (trie .xpath30).lookup name = none := by
  have hnodup := nodup_entries .xpath31
  rw [entries_xpath31, List.map_append, List.nodup_append] at hnodup
  refine Option.eq_none_iff_forall_ne_some.mpr fun kind hkind => ?_
  have holder : name ∈ (entries .xpath30).map (·.1) :=
    List.mem_map_of_mem (lookup_trie_iff.mp hkind)
  exact hnodup.2.2 name holder name (by simpa using h) rfl

/-- **In version 3.1 a new word is that of a function**, and every other one is what it was. -/
theorem lookup_xpath31 (name : List UInt8) :
    (trie .xpath31).lookup name =
      if name ∈ newWords then some .functionName else (trie .xpath30).lookup name := by
  have htable : (trie .xpath31).lookup name =
      ((trie .xpath30).lookup name).or (if name ∈ newWords then some .functionName else none) := by
    rw [lookup_trie, lookup_trie, entries_xpath31, List.lookup_append, lookup_kind]
  rw [htable]
  split
  · next hname => rw [lookup_xpath30_of_mem hname, Option.none_or]
  · rw [Option.or_none]

end Lexicon

/-! ### Kinds -/

/-- **What version 3.1 makes of the kind of a token**: that of a function, if it is a name and one
of the new words. -/
def Kind.recast (kind : Kind) (lexeme : List UInt8) : Kind :=
  if (kind = .identifier ∨ kind = .qName) ∧ lexeme ∈ Lexicon.newWords then .functionName else kind

theorem Kind.recast_of_not_mem (kind : Kind) {lexeme : List UInt8}
    (h : lexeme ∉ Lexicon.newWords) : kind.recast lexeme = kind :=
  if_neg fun hnew => h hnew.2

theorem Dialect.nameKind_recast (name : List UInt8) (qualified : Bool) :
    (ofVersion .xpath31).nameKind name qualified =
      ((ofVersion .xpath30).nameKind name qualified).recast name := by
  rw [nameKind, nameKind, ofVersion, ofVersion]
  simp only [Lexicon.lookup_xpath31]
  by_cases hname : name ∈ Lexicon.newWords
  · rw [if_pos hname, Lexicon.lookup_xpath30_of_mem hname]
    cases qualified <;> simp [Kind.recast, hname]
  · rw [if_neg hname, Kind.recast_of_not_mem _ hname]

namespace Reading

/-- A reading with its kind as version 3.1 has it. -/
def recastIn (t : List UInt8) : Kind × Nat → Kind × Nat
  | (kind, k) => (kind.recast (t.take k), k)

variable {b : UInt8} {t : List UInt8}

/-- **A name is read alike**, and its kind is recast. -/
theorem nameToken_recast (c : ByteClass) (t : List UInt8) :
    (nameToken (.ofVersion .xpath31) c t).found =
      (nameToken (.ofVersion .xpath30) c t).found.map (recastIn t) := by
  have hsame : anyName (.ofVersion .xpath31) c t = anyName (.ofVersion .xpath30) c t := rfl
  rw [nameToken, nameToken, mapLength, mapLength, hsame]
  rcases (anyName (.ofVersion .xpath30) c t).found with m | ⟨form, k⟩
  · rfl
  · cases form with
    | plain => simp only [Except.map, NameForm.kind, Dialect.nameKind_recast, recastIn]
    | qualified => simp only [Except.map, NameForm.kind, Dialect.nameKind_recast, recastIn]
    | braced => simp [Except.map, NameForm.kind, recastIn, Kind.recast]

/-! ### Other tokens -/

/-- The symbols have the same rules, if they do not start with a bar. -/
theorem operatorRule?_xpath31 (hb : b ≠ Ascii.pipe) :
    operatorRule? (.ofVersion .xpath31) b = operatorRule? (.ofVersion .xpath30) b := by
  simp only [operatorRule?, if_neg hb]
  rfl

/-- A new word starts as names do, and nothing else. -/
theorem nameFirst_of_mem {word : List UInt8} (h : word ∈ Lexicon.newWords) :
    ∃ b t, word = b :: t ∧ NameFirst (.ofVersion .xpath30) .xml b := by
  have hhead : ∀ word ∈ Lexicon.newWords,
      word.head?.any (· ∈ [(0x61 : UInt8), 0x6A, 0x6D, 0x70, 0x73, 0x78]) := by decide +kernel
  have hb := hhead word h
  cases word with
  | nil => cases hb
  | cons b t =>
    refine ⟨b, t, rfl, ?_⟩
    simp only [List.head?_cons, Option.any_some, decide_eq_true_eq, List.mem_cons,
      List.not_mem_nil, or_false] at hb
    rcases hb with rfl | rfl | rfl | rfl | rfl | rfl <;>
      exact ⟨by decide, by decide, rfl, rfl, rfl⟩

/-- The same names have no other first bytes in version 3.1. -/
theorem NameFirst.xpath31 (h : NameFirst (.ofVersion .xpath30) .xml b) :
    NameFirst (.ofVersion .xpath31) .xml b where
  not_mem := h.not_mem
  not_variable := h.not_variable
  not_operator := by
    rw [operatorRule?_xpath31]
    · exact h.not_operator
    · rintro rfl
      cases h.not_operator
  not_digit := h.not_digit
  startsName := h.startsName

/-- **What is no name and does not start with two bars is read alike.** -/
theorem tokenAt_xpath31 (hname : ¬NameFirst (.ofVersion .xpath30) .xml b)
    (hbars : ¬(b = Ascii.pipe ∧ t.head? = some Ascii.pipe)) :
    tokenAt (.ofVersion .xpath31) .xml b (b :: t) = tokenAt (.ofVersion .xpath30) .xml b (b :: t) := by
  by_cases hb : b = Ascii.pipe
  · subst hb
    cases t with
    | nil => rfl
    | cons c t =>
      have hc : c ≠ Ascii.pipe := by simpa using hbars
      have hlookup : [(Ascii.pipe, Symbol.concat)].lookup c = none := by
        simp [List.lookup_cons, beq_false_of_ne hc]
      show operator { alone := .union, pairs := [(Ascii.pipe, .concat)] } (Ascii.pipe :: c :: t) =
        operator { alone := .union } (Ascii.pipe :: c :: t)
      simp [operator, after, hlookup]
  · have hvariable : (Dialect.ofVersion .xpath31).supports .variableReferences =
        (Dialect.ofVersion .xpath30).supports .variableReferences := rfl
    rw [tokenAt, tokenAt, operatorRule?_xpath31 hb, hvariable]
    split
    · rfl
    split
    · rfl
    split
    · rfl
    split
    · rfl
    split
    · rfl
    split
    · rfl
    · next hquote hdot hdollar hbang hquestion _ hoperator =>
      split
      · rfl
      · next hdigit =>
        split
        · next hstart =>
          have hmem : b ∉ [Ascii.quote, Ascii.apostrophe, Ascii.dot, Ascii.bang, Ascii.question] := by
            simp [not_or.mp hquote, hdot, hbang, hquestion]
          exact absurd ⟨hmem, hdollar, hoperator, by simpa using hdigit, hstart⟩ hname
        · rfl

/-- **Two bars** are read as one token in version 3.1, and one by one in version 3.0. -/
theorem token_twoBars (t : List UInt8) :
    (token (.ofVersion .xpath31) .xml (Ascii.pipe :: Ascii.pipe :: t)).found =
        .ok (.symbol .concat, 2) ∧
      (token (.ofVersion .xpath30) .xml (Ascii.pipe :: Ascii.pipe :: t)).found =
        .ok (.symbol .union, 1) ∧
      (token (.ofVersion .xpath30) .xml (Ascii.pipe :: t)).found = .ok (.symbol .union, 1) := by
  refine ⟨rfl, rfl, ?_⟩
  cases t <;> rfl

/-- **Every other token is read alike**, and its kind is recast. -/
theorem token_recast (hbars : ¬[Ascii.pipe, Ascii.pipe] <+: t) :
    (token (.ofVersion .xpath31) .xml t).found =
      (token (.ofVersion .xpath30) .xml t).found.map (recastIn t) := by
  cases t with
  | nil => simp [token, step, Except.map, recastIn, Kind.recast]
  | cons b t =>
    by_cases hname : NameFirst (.ofVersion .xpath30) .xml b
    · rw [token, token, hname.tokenAt_eq, hname.xpath31.tokenAt_eq]
      exact nameToken_recast .xml (b :: t)
    · have hread : ¬(b = Ascii.pipe ∧ t.head? = some Ascii.pipe) := by
        rintro ⟨rfl, hhead⟩
        obtain ⟨t', rfl⟩ := List.head?_eq_some_iff.mp hhead
        exact hbars ⟨t', rfl⟩
      have hnew : ∀ k, (b :: t).take k ∉ Lexicon.newWords := by
        intro k hmem
        obtain ⟨b', t', hcons, hfirst⟩ := nameFirst_of_mem hmem
        cases k with
        | zero => cases hcons
        | succ k =>
          rw [List.take_succ_cons] at hcons
          exact hname ((List.cons.inj hcons).1 ▸ hfirst)
      rw [token, token, tokenAt_xpath31 hname hread]
      rcases (tokenAt (.ofVersion .xpath30) .xml b (b :: t)).found with m | ⟨kind, k⟩
      · rfl
      · rw [Except.map, recastIn, Kind.recast_of_not_mem kind (hnew k)]

end Reading

end XPathScan
