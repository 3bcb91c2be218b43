import XPathScan.Proofs.Lexer.Overflow
import XPathScan.Proofs.Plain.Leads

/-!
# What a text spells

The content of a token is its kind and its bytes, without the place where it stands. What the
tokens of a text have as contents can be said of the text alone, without points, windows and
limits: it is a sequence of blanks and comments and of tokens, each of which leads what is left
(`XPathScan.Spells`). A text has tokens if it is such a sequence, and then they have these
contents.

* `XPathScan.Lexer.tokenize_eq_ok_of_emits` – the tokens that the plain lexer gives are those of the
  text;
* `XPathScan.Lexer.tokenize_iff_spells` – the contents of the tokens of a text.
-/

namespace XPathScan

/-- **What a token says**, wherever it stands: its kind and its bytes. -/
def Token.content (t : Token) : Kind × List UInt8 := (t.kind, t.lexeme)

/-- **The contents of the tokens of a text.** -/
inductive Spells (version : Version) : List UInt8 → List (Kind × List UInt8) → Prop
  /-- Blanks and comments alone spell nothing. -/
  | nil {g : List UInt8} : (∃ parts, Crossed .xml version g parts) → Spells version g []
  /-- A token that leads the text, and what the rest spells. -/
  | cons {g u rest : List UInt8} {kind : Kind} {cs : List (Kind × List UInt8)} :
      Leads version g kind u rest → Spells version rest cs →
      Spells version (g ++ (u ++ rest)) ((kind, u) :: cs)

variable {version : Version} {text t : List UInt8} {cs : List (Kind × List UInt8)}

/-- A text has at least as many bytes as tokens. -/
theorem Spells.length_le (h : Spells version t cs) : cs.length ≤ t.length := by
  induction h with
  | nil => exact Nat.zero_le _
  | cons hleads _ ih =>
    have := List.length_pos_iff.mpr hleads.ne_nil
    simp only [List.length_append, List.length_cons]
    omega

/-- What spells something starts with a token that leads it. -/
theorem Spells.cons_inv {kind : Kind} {u : List UInt8} (h : Spells version t ((kind, u) :: cs)) :
    ∃ g rest, t = g ++ (u ++ rest) ∧ Leads version g kind u rest ∧ Spells version rest cs := by
  rcases h with _ | ⟨hleads, hrest⟩
  exact ⟨_, _, rfl, hleads, hrest⟩

namespace Plain

variable {p : Point} {ts : List Token} {e : Token}

/-- **The plain lexer gives tokens with the contents that the text ahead spells.** -/
theorem Emits.spells (h : (Plain.of text .xml version).Emits p ts e) (hp : p.offset ≤ text.length) :
    Spells version (text.drop p.offset) (ts.map (·.content)) := by
  induction h with
  | @eof p q e hfound heof =>
    have hsees := sees_of_found hp hfound
    have hcrossed := hsees.exists_crossed
    rw [(hsees.isEof_iff.1 heof).1, Span.slice, ← List.length_drop, List.take_length] at hcrossed
    exact .nil hcrossed
  | @token p q t e ts hfound heof _ ih =>
    have hsees := sees_of_found hp hfound
    obtain ⟨htext, hleads⟩ := hsees.leads heof
    have hrest := ih hsees.offset_le
    rw [hsees.offset_eq] at hrest
    rw [htext]
    exact .cons hleads hrest

/-- Blanks and comments up to the end of the text are stepped over, and the end is seen. -/
theorem exists_look_of_crossed (h : ∃ parts, Crossed .xml version (text.drop p.offset) parts) :
    ∃ e q, ((Plain.of text .xml version).look p).found = .ok (e, q) ∧ e.isEof = true := by
  obtain ⟨trivia, hlook⟩ := exists_look_eq h
  have hfound := hlook (List.append_nil _).symm (by simp [StartsTrivia])
  exact ⟨_, _, hfound, rfl⟩

end Plain

/-- **The contents that the text ahead spells are those of the tokens of the plain lexer.** -/
theorem Spells.emits (h : Spells version t cs) {p : Point} (ht : text.drop p.offset = t) :
    ∃ ts e, (Plain.of text .xml version).Emits p ts e ∧ ts.map (·.content) = cs := by
  induction h generalizing p with
  | nil hg =>
    obtain ⟨e, q, hfound, heof⟩ := Plain.exists_look_of_crossed (ht ▸ hg)
    exact ⟨[], e, .eof hfound heof, rfl⟩
  | @cons g u rest kind cs hleads _ ih =>
    obtain ⟨t, q, hfound, heof, rfl, rfl, -, hq⟩ := Plain.exists_look_of_leads hleads ht
    have hrest : text.drop q.offset = rest := by
      rw [hq, ← List.drop_drop, ← List.drop_drop, ht, List.drop_left, List.drop_left]
    obtain ⟨ts, e, hemits, rfl⟩ := ih hrest
    exact ⟨t :: ts, e, .token hfound heof hemits, rfl⟩

namespace Lexer

variable {ts : List Token} {e : Token}

/-- **The tokens that the plain lexer gives up to the end are those of the text.** -/
theorem tokenize_eq_ok_of_emits (h : (Plain.of text .xml version).Emits {} ts e) :
    tokenize text version = .ok ts := by
  have hample : text.length < ampleBufferSize text := by
    rw [ampleBufferSize]
    omega
  obtain ⟨l, hof, hl, hphase⟩ :=
    follows_ofSource (Memory.faithful text) (Nat.zero_lt_of_lt hample) version .xml
  have hemits : l.Emits ts e :=
    .of_plain h (fun q t r _ _ _ => Forecast.fits_of_length_lt (by show text.length < _; omega) _)
      hl (by simp [hphase])
  have hlen : ts.length ≤ text.length := by
    simpa using (h.spells (Nat.zero_le _)).length_le
  rw [tokenize, hof]
  exact hemits.tokens_eq hphase (Nat.lt_succ_of_le hlen)

/-- **A text has tokens with given contents if it spells them.** -/
theorem tokenize_iff_spells :
    (∃ ts, tokenize text version = .ok ts ∧ ts.map (·.content) = cs) ↔ Spells version text cs := by
  constructor
  · rintro ⟨ts, htokens, rfl⟩
    obtain ⟨e, hemits⟩ := emits_of_tokenize htokens
    exact hemits.spells (Nat.zero_le _)
  · intro h
    obtain ⟨ts, e, hemits, hcontents⟩ := h.emits (p := {}) rfl
    exact ⟨ts, tokenize_eq_ok_of_emits hemits, hcontents⟩

end Lexer

end XPathScan
