import Mathlib.Data.List.Induction
import XPathScan.Lexicon.Trie

/-!
# A trie is a finite map

The nodes of a trie stand for the bytes that lead to them. A trie is *labelled* when there is a list
of byte strings, one for each node in the order of their numbers and no two of them the same, such
that an edge leads from a node to the one whose label has the byte of the edge at its end. Where a
walk ends can then be read off the labels (`XPathScan.Trie.Labelled.walk_eq_some_iff`), and an
insertion does nothing to the labels there are but to add others. So it changes the value of one
word, and no other: also if the two begin alike, or one is the beginning of the other. The counter
of words goes up exactly if a node gets a value that had none, so it is always the number of nodes
that have one.

* `XPathScan.Trie.Labelled` – the labels of the nodes;
* `XPathScan.Trie.Labelled.grow`, `XPathScan.Trie.Labelled.insertAt` – a new node, and a word, which
  makes some;
* `XPathScan.Trie.Labelled.lookup_insert` – one insertion as an update of a map;
* `XPathScan.Trie.lookup_ofList` – of the values of a word the last one counts.
-/

namespace XPathScan.Trie

variable {α : Type} {t : Trie α} {node : Nat} {b : UInt8}

/-! ### Single nodes -/

/-- A node that has a value is one of the trie's. -/
theorem lt_size_of_value? {v : α} (h : t.value? node = some v) : node < t.nodes.size := by
  obtain ⟨x, hx, -⟩ := Option.bind_eq_some_iff.mp h
  exact (Array.getElem?_eq_some_iff.mp hx).1

/-- The nodes after one has been given a child. -/
theorem nodes_grow (t : Trie α) (node : Nat) (b : UInt8) (i : Nat) :
    (t.grow node b).nodes[i]? =
      if i = t.nodes.size then some {}
      else if node = i then
        t.nodes[i]?.map fun x => { x with children := (b, t.nodes.size) :: x.children }
      else t.nodes[i]? := by
  simp only [grow, Array.getElem?_push, Array.size_modify, Array.getElem?_modify]

/-- A new child adds one edge, to the last node. -/
theorem child?_grow (hnode : node < t.nodes.size) (hnone : t.child? node b = none) {i k : Nat}
    {c : UInt8} : (t.grow node b).child? i c = some k ↔
      (i = node ∧ c = b ∧ k = t.nodes.size) ∨ t.child? i c = some k := by
  rw [child?, nodes_grow]
  by_cases hlast : i = t.nodes.size
  · have hout : t.child? i c = none := by
      rw [child?, Array.getElem?_eq_none (Nat.le_of_eq hlast.symm)]
      rfl
    have hne : i ≠ node := by omega
    rw [if_pos hlast, hout]
    simp [hne]
  · rw [if_neg hlast]
    by_cases hi : node = i
    · subst hi
      rw [child?, Array.getElem?_eq_getElem hnode] at hnone ⊢
      by_cases hc : c = b
      · subst hc
        have hlookup : t.nodes[node].children.lookup c = none := hnone
        simp [hlookup, eq_comm]
      · simp [hc, List.lookup_cons, beq_false_of_ne hc]
    · rw [if_neg hi, child?]
      simp [Ne.symm hi]

/-- A new child has no value. -/
theorem value?_grow (t : Trie α) (node : Nat) (b : UInt8) (i : Nat) :
    (t.grow node b).value? i = t.value? i := by
  rw [value?, value?, nodes_grow]
  split
  · next hlast => rw [Array.getElem?_eq_none (Nat.le_of_eq hlast.symm)]; rfl
  · split
    · cases t.nodes[i]? <;> rfl
    · rfl

/-- **One element that is changed** changes how many elements have a property by that one. -/
theorem countP_modify {β : Type} (p : β → Bool) {xs : Array β} (hnode : node < xs.size)
    (f : β → β) :
    (xs.modify node f).countP p + (if p xs[node] then 1 else 0) =
      xs.countP p + if p (f xs[node]) then 1 else 0 := by
  have hset : xs.modify node f = xs.set node (f xs[node]) hnode := by
    simp [Array.modify, Array.modifyM, hnode]
  have hle : (if p xs[node] then 1 else 0) ≤ xs.countP p := by
    split
    · next hp => exact Array.countP_pos_iff.mpr ⟨_, Array.getElem_mem hnode, hp⟩
    · exact Nat.zero_le _
  rw [hset, Array.countP_set]
  omega

/-! ### Labels -/

/-- The elements of a list with one more at its end. -/
theorem getElem?_concat_eq_some_iff {β : Type} {l : List β} {x y : β} {i : Nat} :
    (l ++ [x])[i]? = some y ↔ l[i]? = some y ∨ i = l.length ∧ y = x := by
  rcases Nat.lt_trichotomy i l.length with hlt | rfl | hgt
  · rw [List.getElem?_append_left hlt]
    simp [Nat.ne_of_lt hlt]
  · rw [List.getElem?_concat_length, List.getElem?_eq_none (Nat.le_refl _)]
    simp [eq_comm]
  · rw [List.getElem?_eq_none (by simpa using Nat.succ_le_of_lt hgt),
      List.getElem?_eq_none (Nat.le_of_lt hgt)]
    simp [Nat.ne_of_gt hgt]

/-- **The labels of the nodes**, in the order of their numbers, in a trie that has counted its
words. -/
structure Labelled (t : Trie α) (labels : List (List UInt8)) : Prop where
  /-- Every node has a label. -/
  length_eq : labels.length = t.nodes.size
  /-- No two nodes have the same. -/
  nodup : labels.Nodup
  /-- No bytes lead to the root. -/
  root_eq : labels[root]? = some []
  /-- What comes before the last byte of a label is a label. -/
  closed : ∀ name c, name ++ [c] ∈ labels → name ∈ labels
  /-- An edge leads to the node that has its byte at the end of the label. -/
  child?_iff : ∀ i c k, t.child? i c = some k ↔
    ∃ name, labels[i]? = some name ∧ labels[k]? = some (name ++ [c])
  /-- The counter is the number of nodes that have a value. -/
  counted : t.size = t.nodes.countP (·.value.isSome)

variable {labels : List (List UInt8)} {name word : List UInt8} {v : α}

theorem labelled_empty : (empty : Trie α).Labelled [[]] where
  length_eq := rfl
  nodup := by simp
  root_eq := rfl
  closed name c h := by simp at h
  child?_iff i c k := by
    have hnone : (empty : Trie α).child? i c = none := by
      cases i with
      | zero => rfl
      | succ i => rfl
    rw [hnone]
    refine ⟨nofun, ?_⟩
    rintro ⟨name, -, hk⟩
    have hmem := List.mem_of_getElem? hk
    simp at hmem
  counted := rfl

theorem walk_append (t : Trie α) (bytes : List UInt8) (c : UInt8) :
    t.walk (bytes ++ [c]) = (t.walk bytes).bind (t.child? · c) := by
  rw [walk, List.foldl_append]
  rfl

namespace Labelled

/-- A node with a label is one of the trie's. -/
theorem lt_size (h : t.Labelled labels) {i : Nat} (hi : labels[i]? = some name) :
    i < t.nodes.size := by
  rw [← h.length_eq]
  exact (List.getElem?_eq_some_iff.mp hi).1

/-- No two nodes have the same label. -/
theorem inj (h : t.Labelled labels) {i k : Nat} (hi : labels[i]? = some name)
    (hk : labels[k]? = some name) : i = k := by
  obtain ⟨hlt, -⟩ := List.getElem?_eq_some_iff.mp hi
  exact (List.getElem?_inj hlt h.nodup).mp (hi.trans hk.symm)

/-- **The beginning of a label is a label.** -/
theorem mem_of_prefix (h : t.Labelled labels) (hword : word ∈ labels) (hname : name <+: word) :
    name ∈ labels := by
  obtain ⟨u, rfl⟩ := hname
  induction u using List.reverseRecOn with
  | nil => rwa [List.append_nil] at hword
  | append_singleton u c ih =>
    rw [← List.append_assoc] at hword
    exact ih (h.closed _ c hword)

/-- **A walk ends at the node that has its bytes as the label.** -/
theorem walk_eq_some_iff (h : t.Labelled labels) {bytes : List UInt8} {k : Nat} :
    t.walk bytes = some k ↔ labels[k]? = some bytes := by
  induction bytes using List.reverseRecOn generalizing k with
  | nil =>
    refine ⟨fun hwalk => ?_, fun hk => congrArg some (h.inj h.root_eq hk)⟩
    obtain rfl : root = k := Option.some.inj hwalk
    exact h.root_eq
  | append_singleton bytes c ih =>
    rw [walk_append, Option.bind_eq_some_iff]
    constructor
    · rintro ⟨i, hi, hchild⟩
      obtain ⟨name, hname, hk⟩ := (h.child?_iff i c k).mp hchild
      rw [ih, hname] at hi
      rwa [Option.some.inj hi] at hk
    · intro hk
      obtain ⟨i, hi⟩ := List.getElem?_of_mem (h.closed bytes c (List.mem_of_getElem? hk))
      exact ⟨i, ih.mpr hi, (h.child?_iff i c k).mpr ⟨bytes, hi, hk⟩⟩

/-- **A word has the value of the node that has it as the label.** -/
theorem lookup_eq_some_iff (h : t.Labelled labels) :
    t.lookup word = some v ↔ ∃ k, labels[k]? = some word ∧ t.value? k = some v := by
  rw [lookup, terminal?, Option.bind_eq_some_iff]
  simp only [h.walk_eq_some_iff]

/-- **A new child gets the label of its parent, with one more byte.** -/
theorem grow (h : t.Labelled labels) (hname : labels[node]? = some name)
    (hnone : t.child? node b = none) : (t.grow node b).Labelled (labels ++ [name ++ [b]]) := by
  have hnode := h.lt_size hname
  have hfresh : name ++ [b] ∉ labels := by
    intro hmem
    obtain ⟨k, hk⟩ := List.getElem?_of_mem hmem
    have hchild := (h.child?_iff node b k).mpr ⟨name, hname, hk⟩
    rw [hnone] at hchild
    cases hchild
  constructor
  case length_eq => simp [Trie.grow, h.length_eq]
  case nodup =>
    refine List.nodup_append.mpr ⟨h.nodup, by simp, ?_⟩
    rintro l hl l' hl' rfl
    exact hfresh (List.mem_singleton.mp hl' ▸ hl)
  case root_eq =>
    rw [List.getElem?_append_left (List.getElem?_eq_some_iff.mp h.root_eq).1]
    exact h.root_eq
  case closed =>
    intro name' c hmem
    refine List.mem_append_left _ ?_
    rcases List.mem_append.mp hmem with hold | hnew
    · exact h.closed name' c hold
    · obtain ⟨rfl, -⟩ := List.append_inj' (List.mem_singleton.mp hnew) rfl
      exact List.mem_of_getElem? hname
  case child?_iff =>
    intro i c k
    simp only [child?_grow hnode hnone, h.child?_iff, getElem?_concat_eq_some_iff, ← h.length_eq]
    constructor
    · rintro (⟨rfl, rfl, rfl⟩ | ⟨name', hi, hk⟩)
      · exact ⟨name, Or.inl hname, Or.inr ⟨rfl, rfl⟩⟩
      · exact ⟨name', Or.inl hi, Or.inl hk⟩
    · -- The new label is the end of one edge, and no edge starts at it.
      rintro ⟨name', hi | ⟨-, rfl⟩, hk | ⟨rfl, hlast⟩⟩
      · exact Or.inr ⟨name', hi, hk⟩
      · obtain ⟨rfl, hc⟩ := List.append_inj' hlast rfl
        exact Or.inl ⟨h.inj hi hname, List.singleton_inj.mp hc, rfl⟩
      · exact absurd (h.closed _ c (List.mem_of_getElem? hk)) hfresh
      · simp at hlast
  case counted =>
    have hsame := countP_modify (fun x : Node α => x.value.isSome) hnode fun x =>
      { x with children := (b, t.nodes.size) :: x.children }
    simp only [Trie.grow, Array.countP_push, h.counted]
    simpa using (Nat.add_right_cancel hsame).symm

/-- **A new value changes no edge**, and the word is counted if it had none. -/
theorem setValue (h : t.Labelled labels) (hnode : node < t.nodes.size) (v : α) :
    (t.setValue node v).Labelled labels := by
  refine ⟨by simp [Trie.setValue, h.length_eq], h.nodup, h.root_eq, h.closed, fun i c k => ?_, ?_⟩
  · rw [← h.child?_iff, child?, child?, Trie.setValue, Array.getElem?_modify]
    split
    · cases t.nodes[i]? <;> rfl
    · rfl
  · have hmore := countP_modify (fun x : Node α => x.value.isSome) hnode fun x =>
      { x with value := some v }
    have hvalue : t.value? node = t.nodes[node].value := by
      rw [value?, Array.getElem?_eq_getElem hnode, Option.bind_some]
    simp only [Trie.setValue, hvalue, h.counted]
    cases hold : t.nodes[node].value with
    | none => simpa [hold] using hmore.symm
    | some _ => simpa [hold] using hmore.symm

/-- **An insertion keeps the labels there are and adds others**, which are on the way to the word,
and it gives the node of the word its value and leaves all other values as they are. -/
theorem insertAt (h : t.Labelled labels) (hname : labels[node]? = some name) (v : α)
    (word : List UInt8) :
    ∃ more k, (t.insertAt node v word).Labelled (labels ++ more) ∧
      (labels ++ more)[k]? = some (name ++ word) ∧
      (∀ label ∈ more, ∃ u, u <+: word ∧ label = name ++ u) ∧
      ∀ i, (t.insertAt node v word).value? i = if i = k then some v else t.value? i := by
  induction word generalizing t labels node name with
  | nil =>
    rw [List.append_nil]
    refine ⟨[], node, ?_, ?_, nofun, fun i => ?_⟩
    · rw [List.append_nil]
      exact h.setValue (h.lt_size hname) v
    · rw [List.append_nil]
      exact hname
    · have hnode := h.lt_size hname
      rw [value?, value?, Trie.insertAt, Trie.setValue, Array.getElem?_modify]
      by_cases hi : i = node
      · subst hi
        simp [hnode]
      · simp [hi, Ne.symm hi]
  | cons c word ih =>
    -- A label on the way from the child is one on the way from the node, with one more byte.
    have hway : ∀ {label}, (∃ u, u <+: word ∧ label = name ++ [c] ++ u) →
        ∃ u, u <+: c :: word ∧ label = name ++ u := by
      rintro label ⟨u, hu, rfl⟩
      exact ⟨c :: u, List.cons_prefix_cons.mpr ⟨rfl, hu⟩, by simp⟩
    rw [Trie.insertAt]
    cases hchild : t.child? node c with
    | some child =>
      obtain ⟨name', hname', hchild'⟩ := (h.child?_iff node c child).mp hchild
      obtain rfl : name = name' := Option.some.inj (hname.symm.trans hname')
      obtain ⟨more, k, hlabelled, hk, hmore, hvalue⟩ := ih h hchild'
      exact ⟨more, k, hlabelled, by simpa using hk, fun label hl => hway (hmore label hl), hvalue⟩
    | none =>
      have hgrown := h.grow hname hchild
      have hlast : (labels ++ [name ++ [c]])[t.nodes.size]? = some (name ++ [c]) := by
        rw [← h.length_eq, List.getElem?_concat_length]
      obtain ⟨more, k, hlabelled, hk, hmore, hvalue⟩ := ih hgrown hlast
      refine ⟨[name ++ [c]] ++ more, k, ?_, ?_, fun label hl => hway ?_, fun i => ?_⟩
      · simpa using hlabelled
      · simpa using hk
      · rcases List.mem_append.mp hl with hnew | hl
        · exact ⟨[], List.nil_prefix, by simpa using hnew⟩
        · exact hmore label hl
      · simp only
        rw [hvalue, value?_grow]

/-- **An insertion gives a word its value and changes no other word's.** -/
theorem lookup_insert (h : t.Labelled labels) (word : List UInt8) (v : α) (w : List UInt8) :
    (t.insert word v).lookup w = if w = word then some v else t.lookup w := by
  obtain ⟨more, k, hlabelled, hk, -, hvalue⟩ := h.insertAt h.root_eq v word
  rw [List.nil_append] at hk
  refine Option.ext fun v' => ?_
  rw [insert, hlabelled.lookup_eq_some_iff]
  simp only [hvalue]
  by_cases hw : w = word
  · subst hw
    rw [if_pos rfl]
    constructor
    · rintro ⟨i, hi, hv⟩
      rwa [if_pos (hlabelled.inj hi hk)] at hv
    · intro hv
      exact ⟨k, hk, by rw [if_pos rfl, hv]⟩
  · rw [if_neg hw, h.lookup_eq_some_iff]
    have hne : ∀ i, (labels ++ more)[i]? = some w → i ≠ k := by
      rintro i hi rfl
      exact hw (Option.some.inj (hi.symm.trans hk))
    constructor
    · rintro ⟨i, hi, hv⟩
      rw [if_neg (hne i hi)] at hv
      -- A node with a value was there before, and so was its label.
      rw [List.getElem?_append_left (h.length_eq ▸ lt_size_of_value? hv)] at hi
      exact ⟨i, hi, hv⟩
    · rintro ⟨i, hi, hv⟩
      have hi' : (labels ++ more)[i]? = some w := by
        rw [List.getElem?_append_left (List.getElem?_eq_some_iff.mp hi).1]
        exact hi
      exact ⟨i, hi', by rw [if_neg (hne i hi'), hv]⟩

end Labelled

/-! ### All insertions -/

theorem ofList_append (words : List (List UInt8 × α)) (word : List UInt8) (v : α) :
    ofList (words ++ [(word, v)]) = (ofList words).insert word v := by
  rw [ofList, List.foldl_append]
  rfl

/-- **The nodes of a trie that has been made from words have labels**, which are the beginnings of
the words. -/
theorem exists_labelled_ofList (words : List (List UInt8 × α)) :
    ∃ labels, (ofList words).Labelled labels ∧
      ∀ name, name ∈ labels ↔ name = [] ∨ ∃ entry ∈ words, name <+: entry.1 := by
  induction words using List.reverseRecOn with
  | nil => exact ⟨_, labelled_empty, by simp⟩
  | append_singleton words entry ih =>
    obtain ⟨labels, hlabels, hmem⟩ := ih
    obtain ⟨more, k, hlabelled, hk, hmore, -⟩ :=
      hlabels.insertAt hlabels.root_eq entry.2 entry.1
    rw [ofList_append]
    refine ⟨_, hlabelled, fun name => ?_⟩
    simp only [List.mem_append, List.mem_singleton, or_and_right, exists_or, exists_eq_left,
      ← or_assoc, ← hmem]
    constructor
    · rintro (hold | hnew)
      · exact Or.inl hold
      · obtain ⟨u, hu, rfl⟩ := hmore name hnew
        exact Or.inr hu
    · rintro (hold | hentry)
      · exact Or.inl hold
      · exact List.mem_append.mp (hlabelled.mem_of_prefix (List.mem_of_getElem? hk) hentry)

/-- **A trie that has been made from words gives a word the last of its values.** -/
theorem lookup_ofList (words : List (List UInt8 × α)) (w : List UInt8) :
    (ofList words).lookup w = words.reverse.lookup w := by
  induction words using List.reverseRecOn with
  | nil =>
    refine Option.eq_none_iff_forall_ne_some.mpr fun v hv => ?_
    obtain ⟨k, -, hk⟩ := labelled_empty.lookup_eq_some_iff.mp hv
    cases k with
    | zero => cases hk
    | succ k => cases hk
  | append_singleton words entry ih =>
    obtain ⟨labels, hlabels, -⟩ := exists_labelled_ofList words
    rw [ofList_append, hlabels.lookup_insert, ih, List.reverse_append, List.reverse_singleton,
      List.singleton_append, List.lookup_cons]
    by_cases hw : w = entry.1
    · simp [hw]
    · simp [hw, beq_false_of_ne hw]

end XPathScan.Trie
