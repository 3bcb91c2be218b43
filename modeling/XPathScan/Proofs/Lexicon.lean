import XPathScan.Dialect
import XPathScan.Proofs.Lexicon.Trie

/-!
# What the reserved words can be

A trie gives back only values that were put into it (`XPathScan.Trie.mem_of_lookup_ofList`). So what
holds of every entry of the layers of reserved words holds of the kind of every name. The kind that
marks the end of the input is not among them, which is why the end can be told from a token by the
kind alone; nor are those of a lookup and of a string literal
(`XPathScan.Dialect.nameKind_ordinary`).
-/

namespace XPathScan

/-- **A trie gives back only values that were put into it.** -/
theorem Trie.mem_of_lookup_ofList {α : Type} {words : List (List UInt8 × α)} {word : List UInt8}
    {value : α} (h : (ofList words).lookup word = some value) : value ∈ words.map (·.2) := by
  rw [lookup_ofList, List.lookup_eq_some_iff] at h
  obtain ⟨before, behind, hwords, -⟩ := h
  have hmem : (word, value) ∈ words.reverse := by simp [hwords]
  exact List.mem_map.mpr ⟨_, List.mem_reverse.mp hmem, rfl⟩

/-- **A kind that does not depend on what comes behind the token**, and is neither that of the end of
the input nor that of a string literal. -/
def Kind.Ordinary (kind : Kind) : Prop :=
  kind ≠ .eof ∧ kind ≠ .symbol .lookup ∧ kind ≠ .stringLiteral

instance (kind : Kind) : Decidable kind.Ordinary :=
  inferInstanceAs (Decidable (kind ≠ .eof ∧ kind ≠ .symbol .lookup ∧ kind ≠ .stringLiteral))

/-- **What holds of the entries of all layers holds of the words of a version.** -/
theorem Lexicon.forall_mem_words {P : String × Kind → Prop}
    (hlayers : ∀ layer ∈ layers, ∀ entry ∈ layer.words, P entry) (version : Version) :
    ∀ entry ∈ words version, P entry := by
  intro entry h
  obtain ⟨layer, hlayer, hentry⟩ := List.mem_flatMap.mp h
  exact hlayers layer (List.mem_filter.mp hlayer).1 entry hentry

/-- The kind of every reserved word is ordinary. -/
theorem Lexicon.kind_ordinary (version : Version) :
    ∀ entry ∈ words version, entry.2.Ordinary :=
  forall_mem_words (by decide +kernel) version

/-- The kind of every word of a version's trie is ordinary. -/
theorem Lexicon.lookup_ordinary {version : Version} {name : List UInt8} {kind : Kind}
    (h : (trie version).lookup name = some kind) : kind.Ordinary := by
  rw [trie] at h
  obtain ⟨entry, hentry, rfl⟩ := List.mem_map.mp (Trie.mem_of_lookup_ofList h)
  obtain ⟨word, hword, rfl⟩ := List.mem_map.mp hentry
  exact kind_ordinary version word hword

/-- **The kind of a whole name**: its own if it is reserved, and else by whether it is qualified. -/
def Dialect.nameKind (d : Dialect) (name : List UInt8) (qualified : Bool) : Kind :=
  match d.words.lookup name with
  | some kind => kind
  | none => if qualified then .qName else .identifier

/-- A walk along a whole name finds its kind. -/
theorem Dialect.kindAt_walk (d : Dialect) (name : List UInt8) (qualified : Bool) :
    d.kindAt (d.words.walk name) qualified = d.nameKind name qualified := rfl

/-- **No name has the kind of the end of the input, of a lookup or of a string literal.** -/
theorem Dialect.nameKind_ordinary (version : Version) (name : List UInt8) (qualified : Bool) :
    ((ofVersion version).nameKind name qualified).Ordinary := by
  rw [nameKind, ofVersion]
  simp only
  cases hlookup : (Lexicon.trie version).lookup name with
  | some kind => exact Lexicon.lookup_ordinary hlookup
  | none => cases qualified <;> decide

end XPathScan
