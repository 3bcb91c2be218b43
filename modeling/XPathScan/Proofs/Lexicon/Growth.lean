import Mathlib.Data.Nat.Bitwise
import XPathScan.Dialect
import XPathScan.Proofs.Lexicon.Words

/-!
# Later versions only add words and features

A word is reserved in a version if a layer lists it that the version or an earlier one has brought.
The trie knows nothing of layers: it is made by insertions one after the other, and a word that came
twice would have the kind of its last insertion, so that a later layer could take a word away from
an earlier one. Since no word comes twice, what the trie says is what the layers say
(`XPathScan.Lexicon.lookup_trie_iff_lists`), in whatever version, and from version to version only
the range of the layers grows. Features too are there from one version on.

* `XPathScan.Lexicon.Layer.Lists` – a layer has a word, given by the bytes of its text;
* `XPathScan.Version.testBit_featureBits` – the features of a version as binary digits;
* `XPathScan.Dialect.ofVersion_additive` – words and features of earlier versions are kept.
-/

namespace XPathScan

variable {v v' : Version} {name : List UInt8} {kind : Kind}

/-- **Versions are in order as their ranks are.** -/
instance : Preorder Version := Function.Injective.preorder Version.rank .rfl .rfl

/-! ### Words -/

namespace Lexicon

/-- **A layer lists a word with a kind**, the word being given by the bytes of its text. -/
def Layer.Lists (layer : Layer) (name : List UInt8) (kind : Kind) : Prop :=
  ∃ word, (word, kind) ∈ layer.words ∧ word.toUTF8.data.toList = name

/-- The bytes of a reserved word are those of its text. -/
theorem wordBytes_eq :
    ∀ layer ∈ layers, ∀ entry ∈ layer.words, wordBytes entry.1 = entry.1.toUTF8.data.toList := by
  decide +kernel

/-- **The table of a version has the words of its layers.** -/
theorem mem_entries_iff :
    (name, kind) ∈ entries v ↔ ∃ layer ∈ layers, layer.since ≤ v ∧ layer.Lists name kind := by
  simp only [entries, words, List.mem_map, List.mem_flatMap, List.mem_filter, decide_eq_true_eq]
  constructor
  · rintro ⟨⟨word, _⟩, ⟨layer, ⟨hlayer, hsince⟩, hword⟩, hentry⟩
    obtain ⟨rfl, rfl⟩ := Prod.mk.inj hentry
    exact ⟨layer, hlayer, hsince, word, hword, (wordBytes_eq layer hlayer _ hword).symm⟩
  · rintro ⟨layer, hlayer, hsince, word, hword, rfl⟩
    refine ⟨(word, kind), ⟨layer, ⟨hlayer, hsince⟩, hword⟩, ?_⟩
    rw [Prod.map_apply, wordBytes_eq layer hlayer _ hword, id]

/-- **The trie of a version says what its layers say.** -/
theorem lookup_trie_iff_lists :
    (trie v).lookup name = some kind ↔
      ∃ layer ∈ layers, layer.since ≤ v ∧ layer.Lists name kind := by
  rw [lookup_trie_iff, mem_entries_iff]

/-- **A word keeps its kind in later versions.** -/
theorem lookup_trie_of_le (h : v ≤ v') (hlookup : (trie v).lookup name = some kind) :
    (trie v').lookup name = some kind := by
  obtain ⟨layer, hlayer, hsince, hlists⟩ := lookup_trie_iff_lists.mp hlookup
  exact lookup_trie_iff_lists.mpr ⟨layer, hlayer, le_trans hsince h, hlists⟩

end Lexicon

/-! ### Features -/

namespace Version

/-- **A feature stays in later versions.** -/
theorem supports_of_le (h : v ≤ v') {f : Feature} (hf : v.supports f = true) :
    v'.supports f = true := by
  rw [supports, decide_eq_true_eq] at hf ⊢
  exact le_trans hf h

/-- The list of the features of a later version has those of an earlier one. -/
theorem features_subset (h : v ≤ v') : v.features ⊆ v'.features := by
  intro f hf
  rw [features, List.mem_filter] at hf ⊢
  exact ⟨hf.1, supports_of_le h hf.2⟩

/-- A number that is made of binary digits has them. -/
theorem testBit_foldr {α : Type} (p : α → Bool) (items : List α) (i : Nat) :
    (items.foldr (fun a bits => 2 * bits + (p a).toNat) 0).testBit i = items[i]?.any p := by
  induction items generalizing i with
  | nil => simp
  | cons a items ih =>
    cases i with
    | zero => cases ha : p a <;> simp [ha]
    | succ i =>
      rw [List.foldr_cons, Nat.testBit_succ, List.getElem?_cons_succ, ← ih]
      congr 1
      cases p a with
      | false => simp
      | true => simp only [Bool.toNat_true]; omega

/-- **The binary digits of a version are its features**, in their order. -/
theorem testBit_featureBits (v : Version) (i : Nat) :
    v.featureBits.testBit i = Feature.all[i]?.any v.supports :=
  testBit_foldr v.supports Feature.all i

/-- **The number of a later version has the digits of an earlier one.** -/
theorem featureBits_land (h : v ≤ v') : v.featureBits &&& v'.featureBits = v.featureBits := by
  refine Nat.eq_of_testBit_eq fun i => ?_
  rw [Nat.testBit_land, testBit_featureBits, testBit_featureBits]
  cases Feature.all[i]? with
  | none => rfl
  | some f =>
    cases hf : v.supports f with
    | false => simp [hf]
    | true => simp [hf, supports_of_le h hf]

end Version

/-! ### Versions -/

namespace Dialect

theorem words_ofVersion (v : Version) : (ofVersion v).words = Lexicon.trie v := by
  rw [ofVersion]

theorem supports_ofVersion (v : Version) (f : Feature) :
    (ofVersion v).supports f = v.supports f := rfl

/-- **Later versions only add.** A word of a version has the same kind in every later one; a word
has a kind in a version exactly if a layer that the version or an earlier one has brought lists it
so, and no later layer can change that; and every feature of a version is one of every later one,
whether it is asked for, listed or given as a binary digit. -/
theorem ofVersion_additive (h : v ≤ v') :
    (∀ name kind, (ofVersion v).words.lookup name = some kind →
      (ofVersion v').words.lookup name = some kind) ∧
    (∀ name kind, (ofVersion v).words.lookup name = some kind ↔
      ∃ layer ∈ Lexicon.layers, layer.since ≤ v ∧ layer.Lists name kind) ∧
    (∀ f, (ofVersion v).supports f = true → (ofVersion v').supports f = true) ∧
    v.features ⊆ v'.features ∧ v.featureBits &&& v'.featureBits = v.featureBits := by
  simp only [words_ofVersion, supports_ofVersion]
  exact ⟨fun _ _ => Lexicon.lookup_trie_of_le h, fun _ _ => Lexicon.lookup_trie_iff_lists,
    fun _ => Version.supports_of_le h, Version.features_subset h, Version.featureBits_land h⟩

/-- Such are XPath 2.0 and 3.1: `union` is an operator in both, and both have comments. -/
theorem ofVersion_additive_union :
    Version.xpath20 ≤ .xpath31 ∧
    (∃ layer ∈ Lexicon.layers, layer.since ≤ .xpath20 ∧
      layer.Lists "union".toUTF8.data.toList (.symbol .union)) ∧
    (ofVersion .xpath31).words.lookup "union".toUTF8.data.toList = some (.symbol .union) ∧
    (ofVersion .xpath20).supports .comments = true ∧
    (ofVersion .xpath31).supports .comments = true := by
  have hle : Version.xpath20 ≤ .xpath31 := by decide
  obtain ⟨hkeeps, hlists, hsupports, -⟩ := ofVersion_additive hle
  have hunion : ∃ layer ∈ Lexicon.layers, layer.since ≤ .xpath20 ∧
      layer.Lists "union".toUTF8.data.toList (.symbol .union) :=
    ⟨_, List.mem_of_getElem? (i := 2) rfl, by decide, "union", by decide +kernel, rfl⟩
  have hcomments : (ofVersion .xpath20).supports .comments = true := by decide
  exact ⟨hle, hunion, hkeeps _ _ ((hlists _ _).mpr hunion), hcomments, hsupports _ hcomments⟩

end Dialect

end XPathScan
