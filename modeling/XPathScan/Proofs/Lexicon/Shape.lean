import Mathlib.Data.Finset.Card
import Mathlib.Data.List.Infix
import XPathScan.Proofs.Lexicon.Trie

/-!
# What a trie looks like after some insertions

The labels of the nodes are the beginnings of the words that have been inserted, each of them once.
That is all there is to know about the shape of a trie. A walk lives as long as its bytes are such a
beginning; there is one node for each of them; and a node has a value if its label is one of the
words. The numbers of the nodes do depend on the order of the insertions, but nothing that can be
asked without them does.

* `XPathScan.Trie.Labelled.size_eq` – the words of a trie are the labels that have a value;
* `XPathScan.Trie.ofList_finiteMap` – a trie is the finite map that its insertions make;
* `XPathScan.Trie.Shaped` – the walks and the nodes of a trie, by the words that were inserted;
* `XPathScan.Trie.ofList_shape` – a trie has that shape, and insertions of different words may
  change places.
-/

namespace XPathScan.Trie

variable {α : Type} {t : Trie α} {labels : List (List UInt8)} {words words' : List (List UInt8 × α)}
  {name w : List UInt8}

/-! ### Words and their beginnings -/

/-- **The words of some insertions**, each of them once. -/
def keys (words : List (List UInt8 × α)) : Finset (List UInt8) := (words.map (·.1)).toFinset

/-- **The beginnings of the words of some insertions**, each of them once and the empty one left
out. -/
def beginnings (words : List (List UInt8 × α)) : Finset (List UInt8) :=
  (words.flatMap (·.1.inits)).toFinset.erase []

theorem mem_keys : w ∈ keys words ↔ ∃ entry ∈ words, entry.1 = w := by
  rw [keys, List.mem_toFinset, List.mem_map]

theorem mem_beginnings :
    name ∈ beginnings words ↔ name ≠ [] ∧ ∃ entry ∈ words, name <+: entry.1 := by
  simp only [beginnings, Finset.mem_erase, List.mem_toFinset, List.mem_flatMap, List.mem_inits]

/-! ### Nodes and words by the labels -/

namespace Labelled

/-- **A walk is dead where there is no label.** -/
theorem walk_eq_none_iff (h : t.Labelled labels) : t.walk name = none ↔ name ∉ labels := by
  rw [Option.eq_none_iff_forall_ne_some]
  constructor
  · intro hdead hmem
    obtain ⟨k, hk⟩ := List.getElem?_of_mem hmem
    exact hdead k (h.walk_eq_some_iff.mpr hk)
  · intro hmem k hk
    exact hmem (List.mem_of_getElem? (h.walk_eq_some_iff.mp hk))

/-- The values of the labels are those of the nodes, one by one. -/
theorem map_lookup (h : t.Labelled labels) :
    labels.map t.lookup = t.nodes.toList.map (·.value) := by
  refine List.ext_getElem (by simpa using h.length_eq) fun i hi _ => ?_
  rw [List.length_map] at hi
  have hlabel : labels[i]? = some labels[i] := List.getElem?_eq_getElem hi
  have hnode := h.lt_size hlabel
  rw [List.getElem_map, List.getElem_map, lookup, h.walk_eq_some_iff.mpr hlabel, terminal?,
    Option.bind_some, value?, Array.getElem?_eq_getElem hnode]
  rfl

/-- **The number of words is that of the labels with a value.** -/
theorem size_eq (h : t.Labelled labels) :
    t.size = (labels.toFinset.filter fun w => (t.lookup w).isSome).card := by
  have hcount : t.size = labels.countP fun w => (t.lookup w).isSome := by
    rw [h.counted, ← Array.countP_toList]
    calc t.nodes.toList.countP (·.value.isSome)
      _ = (t.nodes.toList.map (·.value)).countP (·.isSome) := by rw [List.countP_map]; rfl
      _ = (labels.map t.lookup).countP (·.isSome) := by rw [h.map_lookup]
      _ = labels.countP fun w => (t.lookup w).isSome := by rw [List.countP_map]; rfl
  rw [hcount, List.countP_eq_length_filter, ← List.toFinset_filter,
    List.toFinset_card_of_nodup (h.nodup.filter _)]

end Labelled

/-! ### A trie as a finite map -/

/-- A word has no value if it was never inserted. -/
theorem lookup_ofList_eq_none_iff :
    (ofList words).lookup w = none ↔ ∀ entry ∈ words, entry.1 ≠ w := by
  rw [lookup_ofList, List.lookup_eq_none_iff]
  simp only [List.mem_reverse, bne_iff_ne]
  exact forall₂_congr fun entry _ => ne_comm

/-- A word has a value if it was inserted. -/
theorem isSome_lookup_ofList : ((ofList words).lookup w).isSome ↔ w ∈ keys words := by
  rw [Option.isSome_iff_ne_none, ne_eq, lookup_ofList_eq_none_iff, mem_keys]
  push Not
  rfl

/-- **There are as many words as different ones were inserted.** -/
theorem size_ofList (words : List (List UInt8 × α)) : (ofList words).size = (keys words).card := by
  obtain ⟨labels, hlabels, -⟩ := exists_labelled_ofList words
  rw [hlabels.size_eq]
  refine congrArg Finset.card (Finset.ext fun w => ?_)
  rw [Finset.mem_filter, isSome_lookup_ofList, List.mem_toFinset, and_iff_right_iff_imp]
  intro hw
  obtain ⟨v, hv⟩ := Option.isSome_iff_exists.mp (isSome_lookup_ofList.mpr hw)
  obtain ⟨k, hk, -⟩ := hlabels.lookup_eq_some_iff.mp hv
  exact List.mem_of_getElem? hk

/-- **A trie is the finite map that its insertions make.** A word has the value of its last
insertion, and none if it was never inserted, whatever other words begin with it or are beginnings
of it; and the words are counted once, however often they were inserted. -/
theorem ofList_finiteMap (words : List (List UInt8 × α)) :
    (∀ w v, (ofList words).lookup w = some v ↔
      ∃ before behind, words = before ++ (w, v) :: behind ∧ ∀ entry ∈ behind, entry.1 ≠ w) ∧
    (∀ w, (ofList words).lookup w = none ↔ ∀ entry ∈ words, entry.1 ≠ w) ∧
    (ofList words).size = (keys words).card ∧
    ((ofList words).isEmpty = true ↔ (keys words).card = 0) := by
  refine ⟨fun w v => ?_, fun w => ?_, size_ofList words, ?_⟩
  · rw [lookup_ofList, List.lookup_eq_some_iff]
    -- What comes before the entry in the reversed list comes behind it.
    constructor
    · rintro ⟨behind, before, hwords, hbehind⟩
      refine ⟨before.reverse, behind.reverse, ?_, fun entry hentry => ?_⟩
      · rw [← List.reverse_reverse words, hwords]
        simp
      · exact (bne_iff_ne.mp (hbehind entry (List.mem_reverse.mp hentry))).symm
    · rintro ⟨before, behind, rfl, hbehind⟩
      refine ⟨behind.reverse, before.reverse, by simp, fun entry hentry => ?_⟩
      exact bne_iff_ne.mpr (hbehind entry (List.mem_reverse.mp hentry)).symm
  · exact lookup_ofList_eq_none_iff
  · rw [isEmpty, beq_iff_eq, size_ofList]

/-- The empty word, and a word twice. -/
example :
    (ofList [([], 1), ([0x61, 0x62], 2), ([0x61, 0x62], 3)]).lookup [0x61, 0x62] = some 3 := by
  decide

/-! ### The shape of a trie -/

/-- **The walks and the nodes of a trie** by the words that were inserted. -/
structure Shaped (t : Trie α) (words : List (List UInt8 × α)) : Prop where
  /-- A walk dies when its bytes are the beginning of no word. -/
  dead_iff : ∀ name, t.walk name = none ↔ name ≠ [] ∧ ∀ entry ∈ words, ¬name <+: entry.1
  /-- Walks over different bytes end in different nodes. -/
  apart : ∀ name name' k, t.walk name = some k → t.walk name' = some k → name = name'
  /-- The nodes in which walks end are those of the trie, and each of them has its one walk. -/
  reached : ∀ k, k < t.nodeCount ↔ ∃! name, t.walk name = some k
  /-- There is a node for the root and one for each beginning of a word. -/
  nodeCount_eq : t.nodeCount = 1 + (beginnings words).card

/-- **Insertions that change places with those of other words only**: each word has the same
values in the same order. -/
def Reordered (words words' : List (List UInt8 × α)) : Prop :=
  ∀ w, words.filter (·.1 == w) = words'.filter (·.1 == w)

namespace Reordered

/-- If no word comes twice, insertions may come in any order. -/
theorem of_perm (h : words.Perm words') (hnodup : (words.map (·.1)).Nodup) :
    Reordered words words' := by
  intro w
  have hlength : (words.filter (·.1 == w)).length ≤ 1 := by
    rw [← List.countP_eq_length_filter]
    have hcount := List.nodup_iff_count_le_one.mp hnodup w
    rwa [List.count, List.countP_map] at hcount
  have hperm := h.filter (·.1 == w)
  generalize words.filter (·.1 == w) = own at hlength hperm ⊢
  match own with
  | [] => exact hperm.nil_eq
  | [entry] => exact List.singleton_perm.mp hperm
  | _ :: _ :: _ => simp at hlength

/-- Such insertions have the same entries. -/
theorem mem_iff (h : Reordered words words') {entry : List UInt8 × α} :
    entry ∈ words ↔ entry ∈ words' := by
  have hsame : entry ∈ words.filter (·.1 == entry.1) ↔ entry ∈ words'.filter (·.1 == entry.1) := by
    rw [h entry.1]
  simpa using hsame

end Reordered

/-- A word is looked up among its own entries. -/
theorem lookup_filter (words : List (List UInt8 × α)) (w : List UInt8) :
    (words.filter (·.1 == w)).lookup w = words.lookup w := by
  induction words with
  | nil => rfl
  | cons entry words ih =>
    by_cases hw : entry.1 = w
    · rw [List.filter_cons_of_pos (by simpa using hw), List.lookup_cons, List.lookup_cons, ih]
    · rw [List.filter_cons_of_neg (by simpa using hw), ih, List.lookup_cons,
        beq_false_of_ne (Ne.symm hw)]

/-- The shape of a trie is that of its labels. -/
theorem shaped_ofList (words : List (List UInt8 × α)) : (ofList words).Shaped words := by
  obtain ⟨labels, hlabels, hmem⟩ := exists_labelled_ofList words
  constructor
  case dead_iff =>
    intro name
    rw [hlabels.walk_eq_none_iff, hmem]
    simp
  case apart =>
    intro name name' k hk hk'
    rw [hlabels.walk_eq_some_iff] at hk hk'
    exact Option.some.inj (hk.symm.trans hk')
  case reached =>
    intro k
    simp only [hlabels.walk_eq_some_iff]
    constructor
    · intro hk
      have hlt : k < labels.length := hlabels.length_eq.symm ▸ hk
      refine ⟨labels[k], List.getElem?_eq_getElem hlt, fun name hname => ?_⟩
      exact Option.some.inj (hname.symm.trans (List.getElem?_eq_getElem hlt))
    · rintro ⟨name, hname, -⟩
      exact hlabels.lt_size hname
  case nodeCount_eq =>
    have hlabelsEq : labels.toFinset = Insert.insert [] (beginnings words) := by
      ext name
      rw [List.mem_toFinset, hmem, Finset.mem_insert, mem_beginnings]
      tauto
    have hroot : [] ∉ beginnings words := fun h => (mem_beginnings.mp h).1 rfl
    rw [nodeCount, ← hlabels.length_eq, ← List.toFinset_card_of_nodup hlabels.nodup, hlabelsEq,
      Finset.card_insert_of_notMem hroot, Nat.add_comm]

/-- **A trie has one node for each beginning of its words**, and its walks go along them. So it
does not matter in which order different words were inserted. -/
theorem ofList_shape (words : List (List UInt8 × α)) :
    (ofList words).Shaped words ∧ ∀ words', Reordered words words' →
      (ofList words').nodeCount = (ofList words).nodeCount ∧
      (ofList words').size = (ofList words).size ∧
      (∀ w, (ofList words').lookup w = (ofList words).lookup w) ∧
      ∀ name, (ofList words').walk name = none ↔ (ofList words).walk name = none := by
  have hshaped := shaped_ofList words
  refine ⟨hshaped, fun words' h => ?_⟩
  have hshaped' := shaped_ofList words'
  have hkeys : keys words' = keys words := by
    ext w
    simp only [mem_keys, h.mem_iff]
  have hbeginnings : beginnings words' = beginnings words := by
    ext name
    simp only [mem_beginnings, h.mem_iff]
  refine ⟨?_, ?_, fun w => ?_, fun name => ?_⟩
  · rw [hshaped.nodeCount_eq, hshaped'.nodeCount_eq, hbeginnings]
  · rw [size_ofList, size_ofList, hkeys]
  · rw [lookup_ofList, lookup_ofList, ← lookup_filter words.reverse, ← lookup_filter words'.reverse,
      List.filter_reverse, List.filter_reverse, h w]
  · simp only [hshaped.dead_iff, hshaped'.dead_iff, h.mem_iff]

/-- Two words in either order: the root and three beginnings, whose numbers are not the same. -/
theorem ofList_shape_eitherOrder :
    Reordered [([0x61, 0x62], 1), ([0x62], 2)] [([0x62], 2), ([0x61, 0x62], 1)] ∧
      (ofList [([0x62], 2), ([0x61, 0x62], 1)]).nodeCount =
        (ofList [([0x61, 0x62], 1), ([0x62], 2)]).nodeCount ∧
      (ofList [([0x62], 2), ([0x61, 0x62], 1)]).walk [0x62] ≠
        (ofList [([0x61, 0x62], 1), ([0x62], 2)]).walk [0x62] := by
  have hreordered : Reordered [([0x61, 0x62], 1), ([0x62], 2)] [([0x62], 2), ([0x61, 0x62], 1)] :=
    .of_perm (.swap _ _ _) (by decide)
  exact ⟨hreordered, ((ofList_shape _).2 _ hreordered).1, by decide⟩

end XPathScan.Trie
