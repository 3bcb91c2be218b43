import XPathScan.Proofs.Lexer.LongestMatch

/-!
# Tokens that are printed can be read again

The bytes of the tokens of a text, with a space between any two tokens, are a text again. It has
the same tokens. A space ends every token where the text ended it, since it goes on with none; and
it is no key, so that a token before a space is of the kind that it has alone. The only tokens that
are of another kind alone are lookups: they are ordinary question marks when they are read again.

* `XPathScan.Leads.before_space` – a token that leads a text leads a space as well;
* `XPathScan.Spells.printed` – what the printed tokens spell;
* `XPathScan.Lexer.tokenize_printed` – the tokens of the printed text.
-/

namespace XPathScan

variable {version : Version} {text g u t rest : List UInt8} {kind : Kind}
  {cs : List (Kind × List UInt8)}

/-- Nothing is looked up before a space. -/
theorem Reading.kindBefore_space (d : Dialect) (u : List UInt8) (kind : Kind) (t : List UInt8) :
    kindBefore d u kind (Ascii.space :: t) = kindBefore d u kind [] := by
  have hkey : Scan.startsKey .xml Ascii.space = false := rfl
  simp [kindBefore, questionKind, hkey]

/-- **A token that leads a text leads a space**, and is then of the kind that it has alone. -/
theorem Leads.before_space (h : Leads version g kind u rest) (t : List UInt8) :
    Leads version [] kind.alone u (Ascii.space :: t) := by
  have hends : EndsLike rest (Ascii.space :: t) := .of_mem_separators (by decide) t
  have hkept := h.exchange ⟨[], .nil⟩ hends
  rwa [Reading.kindBefore_space, h.kindBefore_nil] at hkept

/-- A token that leads a text leads nothing but itself. -/
theorem Leads.before_nil (h : Leads version g kind u rest) : Leads version [] kind.alone u [] :=
  Lexer.readsAs_iff.mp h.longest.1

/-- A space before a text does not change what it spells. -/
theorem Spells.space (h : Spells version t cs) : Spells version (Ascii.space :: t) cs := by
  cases h with
  | nil hg =>
    obtain ⟨parts, hparts⟩ := hg
    exact .nil ⟨_, .blank (by decide) hparts⟩
  | cons hleads hrest =>
    obtain ⟨parts, hparts⟩ := hleads.crossed
    exact .cons { hleads with crossed := ⟨_, .blank (by decide) hparts⟩ } hrest

/-- **What is printed spells what it was printed from**, each token with the kind that it has
alone. -/
theorem Spells.printed (h : Spells version t cs) :
    Spells version ([Ascii.space].intercalate (cs.map (·.2)))
      (cs.map fun c => (c.1.alone, c.2)) := by
  induction h with
  | nil _ => exact .nil ⟨[], .nil⟩
  | @cons g u rest kind cs hleads _ ih =>
    cases cs with
    | nil => simpa using Spells.cons hleads.before_nil (.nil ⟨[], .nil⟩)
    | cons c cs =>
      -- The space behind the token is the gap before the next one.
      have hprinted := Spells.cons (hleads.before_space _) ih.space
      simpa [List.intercalate_cons_cons] using hprinted

namespace Lexer

variable {ts : List Token}

/-- **Printing the tokens of a text and reading them again changes nothing** but the kind of
lookups. The printed text has as many tokens, with the same bytes and with the kinds that they have
alone. -/
theorem tokenize_printed (h : tokenize text version = .ok ts) :
    ∃ ts', tokenize ([Ascii.space].intercalate (ts.map (·.lexeme))) version = .ok ts' ∧
      ts'.length = ts.length ∧ ts'.map (·.lexeme) = ts.map (·.lexeme) ∧
      ts'.map (·.kind) = ts.map (·.kind.alone) := by
  have hspells := (tokenize_iff_spells.mp ⟨ts, h, rfl⟩).printed
  obtain ⟨ts', htokens, hcontents⟩ := tokenize_iff_spells.mpr hspells
  simp only [List.map_map] at htokens hcontents
  refine ⟨ts', htokens, ?_, ?_, ?_⟩
  · simpa using congrArg List.length hcontents
  · simpa [Function.comp_def, Token.content] using congrArg (List.map Prod.snd) hcontents
  · simpa [Function.comp_def, Token.content] using congrArg (List.map Prod.fst) hcontents

/-- A lookup before a parenthesis, and a number that ends in a point. -/
def lookupParenPoint : List UInt8 := [0x3F, 0x28, 0x31, 0x2E]

/-- The lookup is a question mark when it is read again, and the other two tokens are as before. -/
theorem tokenize_printed_lookupParenPoint :
    ∃ ts ts', tokenize lookupParenPoint .xpath31 = .ok ts ∧
      ts.map (·.kind) = [.symbol .lookup, .symbol .leftParen, .decimalLiteral] ∧
      tokenize [0x3F, 0x20, 0x28, 0x20, 0x31, 0x2E] .xpath31 = .ok ts' ∧
      ts'.map (·.kind) = [.symbol .questionMark, .symbol .leftParen, .decimalLiteral] := by
  have hlookup : Leads .xpath31 [] (.symbol .lookup) [0x3F] [0x28, 0x31, 0x2E] :=
    ⟨⟨[], .nil⟩, by decide, not_startsTrivia_cons (by decide) _, rfl⟩
  have hparen : Leads .xpath31 [] (.symbol .leftParen) [0x28] [0x31, 0x2E] := by
    refine ⟨⟨[], .nil⟩, by decide, ?_, rfl⟩
    rintro (⟨b, hb, hhead⟩ | ⟨-, hpair⟩)
    · obtain rfl : 0x28 = b := by simpa using hhead
      exact absurd hb (by decide)
    · exact absurd hpair (by decide)
  have hnumber : Leads .xpath31 [] .decimalLiteral [0x31, 0x2E] [] :=
    ⟨⟨[], .nil⟩, by decide, not_startsTrivia_cons (by decide) _, rfl⟩
  have hspells : Spells .xpath31 lookupParenPoint
      [(.symbol .lookup, [0x3F]), (.symbol .leftParen, [0x28]), (.decimalLiteral, [0x31, 0x2E])] :=
    .cons hlookup (.cons hparen (.cons hnumber (.nil ⟨[], .nil⟩)))
  obtain ⟨ts, htokens, hcontents⟩ := tokenize_iff_spells.mpr hspells
  have hkinds : ts.map (·.kind) = [.symbol .lookup, .symbol .leftParen, .decimalLiteral] := by
    simpa [Function.comp_def, Token.content] using congrArg (List.map Prod.fst) hcontents
  have hlexemes : ts.map (·.lexeme) = [[0x3F], [0x28], [0x31, 0x2E]] := by
    simpa [Function.comp_def, Token.content] using congrArg (List.map Prod.snd) hcontents
  obtain ⟨ts', htokens', -, -, hkinds'⟩ := tokenize_printed htokens
  rw [hlexemes] at htokens'
  refine ⟨ts, ts', htokens, hkinds, htokens', ?_⟩
  have halone : ts.map (·.kind.alone) = (ts.map (·.kind)).map Kind.alone := by simp
  rw [hkinds', halone, hkinds]
  rfl

end Lexer

end XPathScan
