/-!
# Tries

A trie maps byte strings to values. Its nodes are numbered in the order in which they were made,
the root being node `0`; a node has a value if a word ends there, and edges to its children, one
for each byte. The number of words is kept beside the nodes: it goes up when a word is inserted that
had no value before.

* `XPathScan.Trie.insert` – the word gets the value, also if it had another one;
* `XPathScan.Trie.lookup` – the value of exactly this word;
* `XPathScan.Trie.step` – one byte of a walk. A walk that finds no edge is dead and stays dead.
-/

namespace XPathScan

/-- **A node of a trie.** -/
structure Trie.Node (α : Type) where
  /-- The value of the word that ends here. -/
  value : Option α := none
  /-- The children, by the byte that leads to them. -/
  children : List (UInt8 × Nat) := []
  deriving Repr

/-- **A trie**, given by its nodes in the order of their numbers and by the number of its words. -/
structure Trie (α : Type) where
  /-- The nodes, the root first. -/
  nodes : Array (Trie.Node α)
  /-- The number of words. -/
  size : Nat
  deriving Repr

namespace Trie

variable {α : Type}

/-- The trie without words: a root and nothing else. -/
def empty : Trie α := { nodes := #[{}], size := 0 }

/-- The number of the root. -/
def root : Nat := 0

/-- The child that a byte leads to. -/
def child? (t : Trie α) (node : Nat) (b : UInt8) : Option Nat :=
  t.nodes[node]?.bind (·.children.lookup b)

/-- The value of the word that ends at a node, if there is such a node and such a word. -/
def value? (t : Trie α) (node : Nat) : Option α :=
  t.nodes[node]?.bind (·.value)

/-- The number of nodes. -/
def nodeCount (t : Trie α) : Nat := t.nodes.size

/-- A trie without words. -/
def isEmpty (t : Trie α) : Bool := t.size == 0

/-! ### Insertion -/

/-- Give a node a new child, which is the last node of the trie. -/
def grow (t : Trie α) (node : Nat) (b : UInt8) : Trie α :=
  let child := t.nodes.size
  { t with nodes := (t.nodes.modify node fun x =>
      { x with children := (b, child) :: x.children }).push {} }

/-- Give the word that ends at a node its value. It is one more if it had none. -/
def setValue (t : Trie α) (node : Nat) (value : α) : Trie α where
  nodes := t.nodes.modify node fun x => { x with value := some value }
  size := if (t.value? node).isNone then t.size + 1 else t.size

/-- Give a word that starts at a node its value, making nodes where there are none. -/
def insertAt (t : Trie α) (node : Nat) (value : α) : List UInt8 → Trie α
  | [] => t.setValue node value
  | b :: word =>
    match t.child? node b with
    | some child => t.insertAt child value word
    | none =>
      let child := t.nodes.size
      (t.grow node b).insertAt child value word

/-- **Give a word its value.** -/
def insert (t : Trie α) (word : List UInt8) (value : α) : Trie α := t.insertAt root value word

/-- The trie of some words; of two values for one word the later counts. -/
def ofList (words : List (List UInt8 × α)) : Trie α :=
  words.foldl (fun t (word, value) => t.insert word value) empty

/-! ### Walks -/

/-- **One byte of a walk**: from a node to its child, or to nowhere. -/
def step (t : Trie α) (node : Option Nat) (b : UInt8) : Option Nat := node.bind (t.child? · b)

/-- Where a walk from the root along some bytes ends, unless it dies. -/
def walk (t : Trie α) (bytes : List UInt8) : Option Nat := bytes.foldl t.step (some root)

/-- The value of the word that a walk has come to the end of, if it lives. -/
def terminal? (t : Trie α) (node : Option Nat) : Option α := node.bind t.value?

/-- **The value of a word.** -/
def lookup (t : Trie α) (word : List UInt8) : Option α := t.terminal? (t.walk word)

end Trie

end XPathScan
