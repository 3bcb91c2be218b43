import Mathlib.Data.List.Flatten
import Mathlib.Data.List.Nodup
import XPathScan.Lexicon.Layers
import XPathScan.Proofs.Lexicon.Trie

/-!
# The table of reserved words

The trie of a version is made from a table, and in a table of which two entries had the same word
the later one would count. There are no such entries, not even in different layers
(`XPathScan.Lexicon.nodup_entries`). So the trie says of a word what the table says of it, in
whatever order the table is read (`XPathScan.Lexicon.lookup_trie`).
-/

namespace XPathScan.Lexicon

/-- **The reserved words of a version by their bytes**, with their kinds. -/
def entries (version : Version) : List (List UInt8 × Kind) :=
  (words version).map (Prod.map wordBytes id)

/-- The trie of a version has the entries of its table. -/
theorem trie_eq (version : Version) : trie version = Trie.ofList (entries version) := rfl

/-- Bytes as one number, since numbers are compared more quickly. -/
def number (bytes : List UInt8) : Nat := bytes.foldl (fun c b => 256 * c + b.toNat) 1

/-- **No word comes twice in the layers.** -/
theorem pairwise_layers : (layers.flatMap (·.words)).Pairwise fun entry entry' =>
    wordBytes entry.1 ≠ wordBytes entry'.1 := by
  have hnumbers : (layers.flatMap (·.words)).Pairwise fun entry entry' =>
      number (wordBytes entry.1) ≠ number (wordBytes entry'.1) := by decide +kernel
  exact hnumbers.imp fun hne hsame => hne (congrArg number hsame)

/-- **No word comes twice in the table of a version.** -/
theorem nodup_entries (version : Version) : ((entries version).map (·.1)).Nodup := by
  have hsublist : (words version).Sublist (layers.flatMap (·.words)) :=
    List.filter_sublist.flatMap _
  rw [entries, List.map_map, List.Nodup, List.pairwise_map]
  exact pairwise_layers.sublist hsublist

/-- In a table without repetitions a word is looked up by its entry. -/
theorem lookup_eq_some_iff_mem {table : List (List UInt8 × Kind)}
    (hnodup : (table.map (·.1)).Nodup) {name : List UInt8} {kind : Kind} :
    table.lookup name = some kind ↔ (name, kind) ∈ table := by
  rw [List.lookup_eq_some_iff]
  constructor
  · rintro ⟨before, behind, rfl, -⟩
    simp
  · intro hmem
    obtain ⟨before, behind, rfl⟩ := List.append_of_mem hmem
    refine ⟨before, behind, rfl, fun entry hentry => bne_iff_ne.mpr ?_⟩
    rw [List.map_append, List.nodup_append] at hnodup
    exact (hnodup.2.2 entry.1 (List.mem_map_of_mem hentry) name (by simp)).symm

/-- **The trie of a version gives a word the kind of its entry.** -/
theorem lookup_trie_iff {version : Version} {name : List UInt8} {kind : Kind} :
    (trie version).lookup name = some kind ↔ (name, kind) ∈ entries version := by
  have hnodup : ((entries version).reverse.map (·.1)).Nodup := by
    rw [List.map_reverse, List.nodup_reverse]
    exact nodup_entries version
  rw [trie_eq, Trie.lookup_ofList, lookup_eq_some_iff_mem hnodup, List.mem_reverse]

/-- **A word is looked up in the trie as in the table.** -/
theorem lookup_trie (version : Version) (name : List UInt8) :
    (trie version).lookup name = (entries version).lookup name := by
  refine Option.ext fun kind => ?_
  rw [lookup_trie_iff, lookup_eq_some_iff_mem (nodup_entries version)]

end XPathScan.Lexicon
