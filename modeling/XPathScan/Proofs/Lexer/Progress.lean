import XPathScan.Proofs.Lexer.Run
import XPathScan.Proofs.Plain.Order

/-!
# When a lexer comes to an end

The byte classes of a lexer can be any four predicates, and the first byte of a name is tested twice
over: whether it starts a name, which makes the lexer look for one, and whether it continues a name,
which makes it part of the name. If the two do not go together, the name that is found has no bytes,
and the lexer finds it again and again.

That is the only way for a lexer to get stuck. If each byte with which names and nothing else start
also continues them (`XPathScan.ByteClass.MovesOn`), every token but the end has a byte, so there
are no more tokens than bytes; and if there is a byte for which it fails, the text of that byte
alone has tokens without end.

* `XPathScan.Lexer.Progresses` – what it means that a lexer comes to an end;
* `XPathScan.Lexer.Follows.progresses` – it does with byte classes that move on;
* `XPathScan.Lexer.Follows.stalls` – and does not with others;
* `XPathScan.Lexer.progresses_iff` – both together.
-/

namespace XPathScan

variable {version : Version} {classes : ByteClass} {text : List UInt8}

/-- **Byte classes with which a lexer moves on**: the first byte of a name also continues it,
unless something else is found there. -/
def ByteClass.MovesOn (c : ByteClass) (version : Version) : Prop :=
  ∀ b, c.isSpace b = false → Reading.NameFirst (.ofVersion version) c b → c.continuesName b = true

/-! ### Moving on -/

namespace Plain

variable {p q : Point} {t : Token}

/-- **A token other than the end has a byte**, and the point behind it is further on. -/
theorem Sees.moves (hc : classes.MovesOn version) (h : (Plain.of text classes version).Sees p t q)
    (heof : t.isEof = false) : t.lexeme ≠ [] ∧ p.offset < q.offset := by
  obtain ⟨trivia, hgap⟩ := h.gap
  have hbehind := Trivia.extent_drop_extent hgap
  rw [List.drop_drop, Nat.add_sub_cancel' h.le_start] at hbehind
  have hfirst : ∀ b, (text.drop t.span.start).head? = some b →
      Reading.NameFirst (.ofVersion version) classes b → classes.continuesName b = true := by
    intro b hb
    obtain ⟨rest, hrest⟩ := List.head?_eq_some_iff.mp hb
    exact hc b (Trivia.not_opens_of_extent (hrest ▸ hbehind)).1
  have hlt := (h.isEof_iff_of_takes fun hnil => by
    obtain ⟨hpos, hkind, -⟩ := Reading.gives_token_of_continues version hnil hfirst h.read
    exact ⟨hpos, hkind⟩).2 heof
  have hlen : t.lexeme.length = t.span.stop - t.span.start := by
    rw [h.lexeme_eq]
    exact length_slice h.stop_le
  have hstart := h.le_start
  rw [h.offset_eq]
  exact ⟨List.ne_nil_of_length_pos (by omega), by omega⟩

end Plain

namespace Lexer

variable {σ : Type} [Source σ] {n : Nat} {l : Lexer σ n} {p : Point}

/-- **What an iteration over a lexer gives**, one item after the other, as long as there are any. -/
def item (l : Lexer σ n) : Nat → Option (Except LexError Token)
  | 0 => l.next?.1
  | i + 1 => l.next?.2.item i

/-- **A lexer that comes to an end** of a text. -/
structure Progresses (text : List UInt8) (l : Lexer σ n) : Prop where
  /-- Every token but the end has a byte. -/
  lexeme_ne_nil : ∀ i t, l.answer i = .ok t → t.isEof = false → t.lexeme ≠ []
  /-- There is an error or the end among the first calls, of which there is one more than bytes. -/
  answer_ends : ∃ i ≤ text.length,
    (∃ e, l.answer i = .error e) ∨ ∃ t, l.answer i = .ok t ∧ t.isEof = true
  /-- An iteration has items up to some number and none from there on. -/
  item_ends : ∃ m ≤ text.length + 1, ∀ i, l.item i = none ↔ m ≤ i

/-- An iteration that is over stays so. -/
theorem item_of_phase_ne (h : l.phase ≠ .active) (i : Nat) : l.item i = none := by
  have hnext : l.next? = (none, l) := by rw [next?, if_neg h]
  induction i with
  | zero => rw [item, hnext]
  | succ i ih => rw [item, hnext, ih]

/-- An item comes before those of the lexer that is left. -/
theorem item_none_iff_succ {l' : Lexer σ n} {x : Except LexError Token} {m : Nat}
    (h : l.next? = (some x, l')) (hrest : ∀ i, l'.item i = none ↔ m ≤ i) (i : Nat) :
    l.item i = none ↔ m + 1 ≤ i := by
  cases i with
  | zero => simp [item, h]
  | succ i => rw [item, h, hrest, Nat.add_le_add_iff_right]

/-- **One call of a lexer that moves on** fails, gives the end, or gives a token and moves on. -/
theorem Follows.next_cases (hc : classes.MovesOn version)
    (h : l.Follows (.of text classes version) p) (hphase : l.phase = .active) :
    (∃ e l', l.next = .error e l' ∧ l'.phase = .failed) ∨
    (∃ t l', l.next = .ok t l' ∧ t.isEof = true ∧ l'.phase = .exhausted) ∨
    ∃ t l' q, l.next = .ok t l' ∧ t.isEof = false ∧ l'.phase = .active ∧
      l'.Follows (.of text classes version) q ∧ p.offset < q.offset := by
  cases hnext : l.next with
  | error e l' => exact Or.inl ⟨e, l', rfl, phase_of_next_error hnext⟩
  | ok t l' =>
    obtain ⟨q, hfound, -, hfollows, hphase'⟩ := h.next_inv (by simp [hphase]) hnext
    have hsees := Plain.sees_of_found h.stands.offset_le hfound
    cases heof : t.isEof with
    | true => exact Or.inr (Or.inl ⟨t, l', rfl, heof, by rw [hphase', if_pos heof]⟩)
    | false =>
      have hactive : l'.phase = .active := by
        rw [hphase', heof]
        exact hphase
      exact Or.inr (Or.inr ⟨t, l', q, rfl, heof, hactive, hfollows, (hsees.moves hc heof).2⟩)

/-- **There is an error or the end among the calls that are left.** -/
theorem Follows.answer_ends (hc : classes.MovesOn version)
    (h : l.Follows (.of text classes version) p) (hphase : l.phase = .active) :
    ∃ i ≤ text.length - p.offset,
      (∃ e, l.answer i = .error e) ∨ ∃ t, l.answer i = .ok t ∧ t.isEof = true := by
  -- Each call that gives something else leaves fewer bytes.
  induction hleft : text.length - p.offset using Nat.strongRecOn generalizing l p with
  | ind left ih =>
    rcases h.next_cases hc hphase with ⟨e, l', hnext, -⟩ | ⟨t, l', hnext, heof, -⟩ |
      ⟨t, l', q, hnext, heof, hphase', hfollows, hlt⟩
    · exact ⟨0, Nat.zero_le _, Or.inl ⟨e, by rw [answer, hnext]⟩⟩
    · exact ⟨0, Nat.zero_le _, Or.inr ⟨t, by rw [answer, hnext], heof⟩⟩
    · have hq : q.offset ≤ text.length := hfollows.stands.offset_le
      obtain ⟨i, hi, hend⟩ := ih _ (by omega) hfollows hphase' rfl
      have hsucc : l.answer (i + 1) = l'.answer i := by
        rw [answer, hnext]
        rfl
      exact ⟨i + 1, by omega, hsucc ▸ hend⟩

/-- **There are at most as many items left as bytes, and an error.** -/
theorem Follows.item_ends (hc : classes.MovesOn version)
    (h : l.Follows (.of text classes version) p) (hphase : l.phase = .active) :
    ∃ m ≤ text.length - p.offset + 1, ∀ i, l.item i = none ↔ m ≤ i := by
  induction hleft : text.length - p.offset using Nat.strongRecOn generalizing l p with
  | ind left ih =>
    rcases h.next_cases hc hphase with ⟨e, l', hnext, hfailed⟩ | ⟨t, l', hnext, heof, hdone⟩ |
      ⟨t, l', q, hnext, heof, hphase', hfollows, hlt⟩
    · have hitem : l.next? = (some (.error e), l') := by rw [next?, if_pos hphase, hnext]
      have hrest : ∀ i, l'.item i = none ↔ 0 ≤ i := by
        simp [item_of_phase_ne (l := l') (by simp [hfailed])]
      exact ⟨1, by omega, item_none_iff_succ hitem hrest⟩
    · have hitem : l.next? = (none, l'.release t) := by
        rw [next?, if_pos hphase, hnext]
        exact if_pos heof
      have hrest : ∀ i, (l'.release t).item i = none :=
        item_of_phase_ne (by simp [Lexer.release, hdone])
      refine ⟨0, Nat.zero_le _, fun i => ?_⟩
      cases i with
      | zero => simp [item, hitem]
      | succ i => simp [item, hitem, hrest]
    · have hitem : l.next? = (some (.ok t), l') := by
        rw [next?, if_pos hphase, hnext]
        simp [heof]
      have hq : q.offset ≤ text.length := hfollows.stands.offset_le
      obtain ⟨m, hm, hrest⟩ := ih _ (by omega) hfollows hphase' rfl
      exact ⟨m + 1, by omega, item_none_iff_succ hitem hrest⟩

/-- **A lexer comes to an end with byte classes that move on.** -/
theorem Follows.progresses (hc : classes.MovesOn version)
    (h : l.Follows (.of text classes version) {}) (hphase : l.phase = .active) :
    Progresses text l where
  lexeme_ne_nil i t ht heof := by
    obtain ⟨q, r, hreach, -, hfound⟩ := h.answer_inv (by simp [hphase]) ht
    have hsees := Plain.sees_of_found (hreach.offset_le (Nat.zero_le _)).2 hfound
    exact (hsees.moves hc heof).1
  answer_ends := h.answer_ends hc hphase
  item_ends := h.item_ends hc hphase

end Lexer

/-! ### Getting stuck -/

namespace Reading

variable {d : Dialect} {c : ByteClass} {b : UInt8}

/-- **A name that does not go on with its first byte has none.** -/
theorem nameToken_singleton (hstuck : c.continuesName b = false) :
    (nameToken d c [b]).found = .ok (NameForm.plain.kind d [], 0) := by
  have hrun : runLength c.continuesName [b] = 0 := runLength_cons_of_neg (by simp [hstuck]) []
  have hname : (name d c [b]).found = .ok (.plain, 0) := by
    have hjoins : joins c [b] = false := by simp [joins]
    simp only [name, hrun, after, List.drop_zero, hjoins]
    split
    · rfl
    · rfl
  have hany : (anyName d c [b]).found = .ok (.plain, 0) := by
    rw [anyName]
    split
    · exact hname
    · exact hname
  exact mapLength_eq_ok.mpr ⟨.plain, hany, rfl⟩

end Reading

namespace Plain

variable {p : Point} {b : UInt8}

/-- **Where a name has no bytes it is seen**, and the point behind it is the same. -/
theorem exists_look_of_stuck (hspace : classes.isSpace b = false)
    (hb : Reading.NameFirst (.ofVersion version) classes b)
    (hstuck : classes.continuesName b = false) (hp : p.offset = 0) :
    ∃ t q, ((Plain.of [b] classes version).look p).found = .ok (t, q) ∧ t.isEof = false ∧
      t.lexeme = [] ∧ q.offset = 0 := by
  have hextent : Trivia.extent classes version .none ([b].drop p.offset) = .ok (.none, 0) := by
    rw [hp, List.drop_zero, Trivia.extent, if_neg (by simp [hspace]), if_neg (by simp)]
  have hread : (Reading.token (.ofVersion version) classes ([b].drop (p.offset + 0))).found =
      .ok (NameForm.plain.kind (.ofVersion version) [], 0) := by
    rw [hp, List.drop_zero, Reading.token, hb.tokenAt_eq, Reading.nameToken_singleton hstuck]
  have hkind : NameForm.plain.kind (.ofVersion version) [] ≠ .eof :=
    (Dialect.nameKind_ordinary version [] false).1
  have hfound := congrArg Forecast.found
    (look_of_extent (s := .of [b] classes version) (p := p) hextent)
  rw [hread] at hfound
  refine ⟨_, _, hfound, by simpa [Token.isEof, tokenAt] using hkind, ?_, hp⟩
  rw [tokenAt, List.take_zero]

/-- **A name without bytes is seen again and again.** -/
theorem answer_of_stuck (hspace : classes.isSpace b = false)
    (hb : Reading.NameFirst (.ofVersion version) classes b)
    (hstuck : classes.continuesName b = false) (hp : p.offset = 0) (i : Nat) :
    ∃ t, (Plain.of [b] classes version).answer p i = .ok t ∧ t.isEof = false ∧ t.lexeme = [] := by
  induction i generalizing p with
  | zero =>
    obtain ⟨t, q, hfound, heof, hlexeme, -⟩ := exists_look_of_stuck hspace hb hstuck hp
    exact ⟨t, by rw [answer, hfound]; rfl, heof, hlexeme⟩
  | succ i ih =>
    obtain ⟨t, q, hfound, -, -, hq⟩ := exists_look_of_stuck hspace hb hstuck hp
    rw [answer, hfound]
    exact ih hq

end Plain

namespace Lexer

variable {σ : Type} [Source σ] {n : Nat} {l : Lexer σ n} {b : UInt8}

/-- **A lexer gets stuck at a name without bytes**, whatever the size of its buffers. -/
theorem Follows.stalls (h : l.Follows (.of [b] classes version) {}) (hphase : l.phase = .active)
    (hspace : classes.isSpace b = false) (hb : Reading.NameFirst (.ofVersion version) classes b)
    (hstuck : classes.continuesName b = false) (i : Nat) :
    ∃ t, l.answer i = .ok t ∧ t.isEof = false ∧ t.lexeme = [] := by
  have hn := l.cursor.input.window.size_pos
  rw [h.answer_eq_of_length_lt (by simp [hphase]) (by show 1 < 2 * n; omega)]
  exact Plain.answer_of_stuck hspace hb hstuck rfl i

/-- **A lexer comes to an end, over every text and source and with buffers of every size, exactly if
its byte classes move on.** -/
theorem progresses_iff (version : Version) (classes : ByteClass) :
    (∀ (σ : Type) [Source σ] (source : σ) (text : List UInt8) (n : Nat),
      Source.Faithful source text → 0 < n →
        ∃ l : Lexer σ n, ofSource source { bufferSize := n, version } classes = .ok l ∧
          Progresses text l) ↔
      classes.MovesOn version := by
  constructor
  · intro hall b hspace hb
    obtain ⟨l, hof, hprogress⟩ :=
      hall Memory { rest := [b] } [b] 1 (Memory.faithful [b]) Nat.one_pos
    obtain ⟨l₀, hof₀, hl, hphase⟩ :=
      follows_ofSource (Memory.faithful [b]) (n := 1) (by decide) version classes
    obtain rfl : l = l₀ := Except.ok.inj (hof.symm.trans hof₀)
    rw [← Bool.not_eq_false]
    intro hstuck
    obtain ⟨t, ht, heof, hlexeme⟩ := hl.stalls hphase hspace hb hstuck 0
    exact hprogress.lexeme_ne_nil 0 t ht heof hlexeme
  · intro hc σ _ source text n hsource hn
    obtain ⟨l, hof, hl, hphase⟩ := follows_ofSource hsource hn version classes
    exact ⟨l, hof, hl.progresses hc hphase⟩

/-- Byte classes for which a letter starts a name and nothing continues one. -/
def letterOnly : ByteClass where
  isSpace _ := false
  startsName b := b == 0x61
  continuesName _ := false
  isDigit _ := false

/-- **Not every lexer comes to an end**: in a text of one letter, one that takes the letter to start
a name and not to continue it gives tokens without bytes for ever. -/
theorem not_progresses_letterOnly :
    ∃ l : Lexer Memory 1,
      ofSource ({ rest := [0x61] } : Memory) { bufferSize := 1, version := .xpath31 } letterOnly =
        .ok l ∧
      (∀ i, ∃ t, l.answer i = .ok t ∧ t.isEof = false ∧ t.lexeme = []) ∧ ¬Progresses [0x61] l := by
  obtain ⟨l, hof, hl, hphase⟩ :=
    follows_ofSource (Memory.faithful [0x61]) (n := 1) (by decide) .xpath31 letterOnly
  have hfirst : Reading.NameFirst (.ofVersion .xpath31) letterOnly 0x61 :=
    ⟨by decide, by decide, by decide, rfl, rfl⟩
  have hstalls := hl.stalls hphase rfl hfirst rfl
  refine ⟨l, hof, hstalls, fun hprogress => ?_⟩
  obtain ⟨t, ht, heof, hlexeme⟩ := hstalls 0
  exact hprogress.lexeme_ne_nil 0 t ht heof hlexeme

end Lexer

end XPathScan
