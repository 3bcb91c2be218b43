import XPathScan.Proofs.Lexer.Views
import XPathScan.Proofs.Token.Pool
import XPathScan.Source.Memory
import XPathScan.Source.Metered

/-!
# Recycled tokens are not seen in later ones

The lexeme of a token is appended to what its record has, so a record that comes back with anything
in it would be seen in a token that is given later. None does: whatever token is handed back, also
one that the lexer has never given, its record is blank when it waits in the pool, and it waits
there until it is taken. A lexer with a full pool therefore answers as one without a pool does, and
two sequences of calls that ask for the same get the same, wherever tokens are handed back in
between.

* `XPathScan.Lexer.replies` – what calls give back;
* `XPathScan.Lexer.Recycled` – two lexers that differ in their records at most, all of them blank;
* `XPathScan.Lexer.Recycled.replies_eq` – they cannot be told apart by asking;
* `XPathScan.Lexer.unseen_of_same` – nor can two lexers over sources that do the same;
* `XPathScan.Lexer.recycling_unseen` – all of it for lexers as they are set up.
-/

namespace XPathScan.Lexer

variable {σ τ : Type} {n : Nat}

/-! ### What can be seen of calls -/

/-- The calls that ask for something. -/
def Call.isRequest : Call → Bool
  | .next | .iterate => true
  | .release _ => false

/-- **The calls among some that ask for something**, in their order. -/
def requests (calls : List Call) : List Call := calls.filter Call.isRequest

/-- **What a call that asks for something gives back.** -/
inductive Reply where
  /-- The next token, or an error. -/
  | token (answer : Except LexError Token)
  /-- The next token before the end, or an error, or nothing. -/
  | item (item : Option (Except LexError Token))

variable [Source σ] [Source τ]

/-- What a call gives back. -/
def reply? (l : Lexer σ n) : Call → Option Reply
  | .next => some (.token (l.answer 0))
  | .iterate => some (.item l.next?.1)
  | .release _ => none

/-- **What some calls give back**, one after the other. -/
def replies (l : Lexer σ n) : List Call → List Reply
  | [] => []
  | c :: calls => (l.reply? c).toList ++ (l.leave c).replies calls

/-- **Two attempts to set up a lexer that cannot be told apart**: both fail alike; or both succeed,
and calls on the two that ask for the same are given the same. Where tokens are handed back, and
which, does not matter. -/
inductive Indistinguishable :
    Except LexError (Lexer σ n) → Except LexError (Lexer τ n) → Prop
  /-- Both fail. -/
  | error (e : LexError) : Indistinguishable (.error e) (.error e)
  /-- Both succeed. -/
  | ok {l : Lexer σ n} {l' : Lexer τ n}
      (replies_eq : ∀ calls calls', requests calls = requests calls' →
        l.replies calls = l'.replies calls') :
      Indistinguishable (.ok l) (.ok l')

/-! ### The records do not matter -/

variable {l l' : Lexer σ n}

omit [Source σ] in
/-- **Two lexers that differ in their records at most**, all of them blank. -/
def Recycled (l l' : Lexer σ n) : Prop :=
  l.pool.Blank ∧ ∃ pool, pool.Blank ∧ l' = { l with pool }

/-- **What has to become of the same call on both**: the same, and again they differ in their
records at most. -/
inductive Coincide {α : Type} :
    EStateM.Result LexError (Lexer σ n) α → EStateM.Result LexError (Lexer σ n) α → Prop
  /-- Both succeed. -/
  | ok {a : α} {l l' : Lexer σ n} : l.Recycled l' → Coincide (.ok a l) (.ok a l')
  /-- Both fail. -/
  | error {e : LexError} {l l' : Lexer σ n} : l.Recycled l' → Coincide (.error e l) (.error e l')

namespace Recycled

omit [Source σ] in
theorem refl (h : l.pool.Blank) : l.Recycled l := ⟨h, l.pool, h, rfl⟩

omit [Source σ] in
theorem release_left (h : l.Recycled l') (token : Token) : (l.release token).Recycled l' := by
  rcases h with ⟨hblank, pool, hpool, rfl⟩
  exact ⟨hblank.release token, pool, hpool, rfl⟩

omit [Source σ] in
theorem release_right (h : l.Recycled l') (token : Token) : l.Recycled (l'.release token) := by
  rcases h with ⟨hblank, pool, hpool, rfl⟩
  exact ⟨hblank, pool.release token, hpool.release token, rfl⟩

omit [Source σ] in
/-- Another phase, on both sides. -/
theorem withPhase (h : l.Recycled l') (phase : Phase) :
    Recycled { l with phase } { l' with phase } := by
  rcases h with ⟨hblank, pool, hpool, rfl⟩
  exact ⟨hblank, pool, hpool, rfl⟩

omit [Source σ] in
theorem phase_eq (h : l.Recycled l') : l'.phase = l.phase := by
  rcases h with ⟨-, pool, -, rfl⟩
  rfl

/-- **A scan takes the same from a blank record as from any other blank one.** -/
theorem scan (h : l.Recycled l') : Coincide l.scan l'.scan := by
  rcases h with ⟨hblank, pool, hpool, rfl⟩
  rw [Lexer.scan, Lexer.scan]
  simp only
  cases Trivia.skip l.classes l.dialect.version .none l.cursor with
  | error e c => exact .error ⟨hblank, pool, hpool, rfl⟩
  | ok trivia c =>
    simp only
    cases Scan.token l.dialect l.classes c.input.window with
    | error e w => exact .error ⟨hblank, pool, hpool, rfl⟩
    | ok kind w =>
      obtain ⟨hrecord, hleft⟩ := hblank.acquire
      obtain ⟨hrecord', hleft'⟩ := hpool.acquire
      simp only [hrecord, hrecord']
      cases Input.mark { c.input with window := w } with
      | error failure input => exact .error ⟨hleft, _, hleft', rfl⟩
      | ok _ input => exact .ok ⟨hleft, _, hleft', rfl⟩

/-- **The next token.** -/
theorem next (h : l.Recycled l') : Coincide l.next l'.next := by
  have hscan := h.scan
  rw [Lexer.next, Lexer.next, h.phase_eq]
  split
  · exact .error h
  · generalize l.scan = result, l'.scan = result' at hscan
    cases hscan with
    | error hleft => exact .error (hleft.withPhase .failed)
    | ok hleft =>
      refine .ok ?_
      split
      · exact hleft.withPhase .exhausted
      · exact hleft

/-- The next token before the end. -/
theorem next? (h : l.Recycled l') : l'.next?.1 = l.next?.1 ∧ l.next?.2.Recycled l'.next?.2 := by
  have hnext := h.next
  rw [Lexer.next?, Lexer.next?, h.phase_eq]
  split
  · generalize l.next = result, l'.next = result' at hnext
    cases hnext with
    | error hleft => exact ⟨rfl, hleft⟩
    | @ok t l₁ l₁' hleft =>
      simp only
      split
      · exact ⟨rfl, (hleft.release_left t).release_right t⟩
      · exact ⟨rfl, hleft⟩
  · exact ⟨rfl, h⟩

/-- **A call that asks for something** is given the same on both sides. -/
theorem request (h : l.Recycled l') {c : Call} (hc : c.isRequest = true) :
    l'.reply? c = l.reply? c ∧ (l.leave c).Recycled (l'.leave c) := by
  cases c with
  | next =>
    have hnext := h.next
    rw [reply?, reply?, answer, answer, leave, leave]
    generalize l.next = result, l'.next = result' at hnext
    cases hnext with
    | error hleft => exact ⟨rfl, hleft⟩
    | ok hleft => exact ⟨rfl, hleft⟩
  | iterate =>
    obtain ⟨hitem, hleft⟩ := h.next?
    exact ⟨congrArg (fun item => some (Reply.item item)) hitem, hleft⟩
  | release token => cases hc

/-- **All calls are given what those that ask for something are given alone.** -/
theorem replies_requests (h : l.Recycled l') (calls : List Call) :
    l.replies calls = l'.replies (requests calls) := by
  induction calls generalizing l l' with
  | nil => rfl
  | cons c calls ih =>
    cases hc : c.isRequest with
    | true =>
      obtain ⟨hreply, hleft⟩ := h.request hc
      rw [requests, List.filter_cons_of_pos hc, replies, replies, hreply]
      exact congrArg _ (ih hleft)
    | false =>
      cases c with
      | next => cases hc
      | iterate => cases hc
      | release token => exact ih (h.release_left token)

/-- **Calls that ask for the same are given the same.** -/
theorem replies_eq (h : l.Recycled l') {calls calls' : List Call}
    (hrequests : requests calls = requests calls') : l.replies calls = l'.replies calls' := by
  have hself : l'.Recycled l' := by
    rcases h with ⟨-, pool, hpool, rfl⟩
    exact refl hpool
  calc l.replies calls = l'.replies (requests calls) := h.replies_requests calls
    _ = l'.replies (requests calls') := by rw [hrequests]
    _ = l'.replies calls' := (hself.replies_requests calls').symm

end Recycled

/-! ### Lexers as they are set up -/

/-- The pool of a new lexer is empty. -/
theorem blank_ofSource {source : σ} {settings : Settings} {classes : ByteClass}
    {l : Lexer σ settings.bufferSize} (h : ofSource source settings classes = .ok l) :
    l.pool.Blank := by
  rw [ofSource] at h
  split at h
  · cases h
  · split at h
    · cases h
    · cases h
      exact Pool.blank_empty

/-- A lexer over a view gives back what the lexer over the whole gives back. -/
theorem replies_map {f : σ → τ} (hf : Source.View f) (l : Lexer σ n) (calls : List Call) :
    (l.map f).replies calls = l.replies calls := by
  induction calls generalizing l with
  | nil => rfl
  | cons c calls ih =>
    have hreply : (l.map f).reply? c = l.reply? c := by
      cases c with
      | next =>
        rw [reply?, reply?, answer, answer, next_map hf]
        cases l.next <;> rfl
      | iterate => rw [reply?, reply?, next?_map hf]
      | release token => rfl
    rw [replies, replies, hreply, leave_map hf, ih]

/-- **Lexers over sources that do the same cannot be told apart**, also if other tokens are handed
back to them. -/
theorem unseen_of_same {source : σ} {source' : τ} (h : Source.Same source source')
    (settings : Settings) (classes : ByteClass) :
    Indistinguishable (ofSource source settings classes) (ofSource source' settings classes) := by
  -- Both are views of the lexer over the two sources side by side.
  let pair : Paired σ τ := { fst := source, snd := source', same := h }
  rw [show source = pair.fst from rfl, show source' = pair.snd from rfl,
    ofSource_map Paired.view_fst, ofSource_map Paired.view_snd]
  cases hof : ofSource pair settings classes with
  | error e => exact .error e
  | ok l =>
    refine .ok fun calls calls' hrequests => ?_
    rw [replies_map Paired.view_fst, replies_map Paired.view_snd]
    exact (Recycled.refl (blank_ofSource hof)).replies_eq hrequests

/-- **Every record that ever waits is blank.** -/
theorem blank_after {source : σ} {settings : Settings} {classes : ByteClass}
    {l : Lexer σ settings.bufferSize} (h : ofSource source settings classes = .ok l)
    (calls : List Call) : (l.after calls).pool.Blank := by
  refine keeps_after (P := fun l => l.pool.Blank) (fun l hl => ?_)
    (fun l token hl => hl.release token) calls (blank_ofSource h)
  have hnext := (Recycled.refl hl).next
  generalize l.next = result at hnext
  cases hnext with
  | ok hleft => exact hleft.1
  | error hleft => exact hleft.1

/-- **Recycling goes unseen** with given settings and byte classes, over two sources. -/
structure RecyclesUnseen (source : σ) (source' : τ) (settings : Settings) (classes : ByteClass) :
    Prop where
  /-- Lexers over the two cannot be told apart. -/
  indistinguishable :
    Indistinguishable (ofSource source settings classes) (ofSource source' settings classes)
  /-- Every record that ever waits is blank, over the one source -/
  blank : ∀ l, ofSource source settings classes = .ok l → ∀ calls, (l.after calls).pool.Blank
  /-- and over the other. -/
  blank' : ∀ l, ofSource source' settings classes = .ok l → ∀ calls, (l.after calls).pool.Blank

theorem recyclesUnseen_of_same {source : σ} {source' : τ} (h : Source.Same source source')
    (settings : Settings) (classes : ByteClass) :
    RecyclesUnseen source source' settings classes where
  indistinguishable := unseen_of_same h settings classes
  blank _ hof := blank_after hof
  blank' _ hof := blank_after hof

/-- **Recycling tokens is not seen in the tokens**: over any two sources that do the same, calls
that ask for the same are given the same, whatever tokens are handed back in between, and every
record that waits is blank. So it is over suppliers that need not end, whatever the limit on their
reads. -/
theorem recycling_unseen {ρ υ : Type} (settings : Settings) (classes : ByteClass) :
    (∀ (source : σ) (source' : τ), Source.Same source source' →
      RecyclesUnseen source source' settings classes) ∧
    ∀ (supplier : Supplier ρ) (supplier' : Supplier υ) (state : ρ) (state' : υ),
      supplier.Same supplier' state state' → ∀ limit,
        RecyclesUnseen ({ state, left := limit } : Limited supplier)
          ({ state := state', left := limit } : Limited supplier') settings classes :=
  ⟨fun _ _ h => recyclesUnseen_of_same h settings classes,
    fun _ _ _ _ h limit => recyclesUnseen_of_same (Limited.same h limit) settings classes⟩

/-- A token that no lexer gives. -/
def foreignToken : Token where
  kind := .identifier
  lexeme := [0x78, 0x79]
  span := { start := 7, stop := 3 }
  line := 0
  flags := .adjacent

/-- A supplier that goes on with blanks for ever. -/
def blanks : Supplier Unit where
  read n _ _ := ({ buffer := Vector.replicate n Ascii.space, count := .ok n }, ())

/-- Two names, with a meter on the source and without, where such a token is handed back before each
of them on one side; and blanks for ever. -/
theorem recycling_unseen_foreignToken :
    (∃ (l : Lexer (Metered Memory) 2) (l' : Lexer Memory 2),
      ofSource ({ inner := { rest := [0x61, 0x20, 0x62] } } : Metered Memory)
        { bufferSize := 2, version := .xpath31 } .xml = .ok l ∧
      ofSource ({ rest := [0x61, 0x20, 0x62] } : Memory)
        { bufferSize := 2, version := .xpath31 } .xml = .ok l' ∧
      l.replies [.next, .iterate] =
        l'.replies [.release foreignToken, .next, .release foreignToken, .iterate] ∧
      (l'.after [.release foreignToken, .next, .release foreignToken]).pool.Blank) ∧
    ∀ limit, RecyclesUnseen ({ state := (), left := limit } : Limited blanks)
      ({ state := (), left := limit } : Limited blanks)
      { bufferSize := 2, version := .xpath31 } .xml := by
  have hmeter : Source.View (Metered.inner : Metered Memory → Memory) := ⟨fun _ _ => rfl⟩
  obtain ⟨hsource, hsupplier⟩ := recycling_unseen (σ := Metered Memory) (τ := Memory) (ρ := Unit)
    (υ := Unit) { bufferSize := 2, version := .xpath31 } .xml
  refine ⟨?_, fun limit => hsupplier blanks blanks () () (fun _ => rfl) limit⟩
  have hunseen := hsource { inner := { rest := [0x61, 0x20, 0x62] } } _ (hmeter.same _)
  refine ⟨_, _, rfl, rfl, ?_, hunseen.blank' _ rfl _⟩
  cases hunseen.indistinguishable with
  | ok hreplies => exact hreplies _ _ rfl

end XPathScan.Lexer
