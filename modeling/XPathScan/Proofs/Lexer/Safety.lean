import XPathScan.Proofs.Lexer.LifeCycle
import XPathScan.Proofs.Source.Limited
import XPathScan.Proofs.Source.Reads
import XPathScan.Source.Script

/-!
# A lexer never breaks down

A window has moves that it cannot make (`XPathScan.Fault`): back over the start of the lexeme, and a
search where the position's slot has no input or does not lead on. An input can be brought to ask
for them, by calls that go on after a failed read. A lexer never asks, whatever its source claims
and however its calls are mixed: it goes back only over a byte that it has just stepped over, and it
stops at the first read that fails, so that as long as it works its window is well kept over the
bytes that have been delivered.

Nor does it work for ever. A source ends, that is, it fills only finitely many buffers, and all
calls together read it at most once more than that and step over no more bytes than these reads
bring. A supplier that never ends is taken with a limit on its reads, and since that may be any
number no call over it breaks down either, whether the call comes to its end or not.

* `XPathScan.Input.Steady` – the input is well kept, and its reads are accounted for;
* `XPathScan.Trivia.steadily_skip` and `XPathScan.Lexer.Steady.scan` – one walk and one scan keep it
  so, and if they fail that is not a fault;
* `XPathScan.Lexer.safe_ofSource` – what holds of a lexer after any calls.
-/

namespace XPathScan

variable {σ : Type} [Source σ] {n : Nat}

/-! ### Inputs between two reads -/

/-- **A source that has been read at most once more than it can fill a buffer.** -/
def Source.Bounded (n : Nat) (source source' : σ) : Prop :=
  ∃ k ≤ Source.credit source + 1, Source.Reads n source k source'

namespace Input

variable {source : σ} {i i' : Input σ n} {k : Nat}

/-- **An input that has come from a source by some reads.** -/
structure Spent (source : σ) (i : Input σ n) (k : Nat) : Prop where
  /-- The reads have led to what is left of the source. -/
  reads : Source.Reads n source k i.source
  /-- They are not too many. -/
  le_credit : k ≤ Source.credit source + 1
  /-- As long as the end is not known each of them has used up credit. -/
  running : i.window.stop = none → k + Source.credit i.source ≤ Source.credit source
  /-- The end lies in what has been read. -/
  ended : ∀ stop, i.window.stop = some stop → stop ≤ k * n

/-- **An input that works**: it is well kept over what has been delivered, and has not read its
source too often. -/
structure Steady (source : σ) (i : Input σ n) : Prop where
  /-- The window is well kept. -/
  kept : ∃ text, i.Kept text
  /-- The reads are accounted for. As long as the end is not known they have filled the window up to
  its edge. -/
  spent : ∃ k, i.Spent source k ∧ (i.window.stop = none → i.window.edge = k * n)

theorem Spent.bounded (h : i.Spent source k) : Source.Bounded n source i.source :=
  ⟨k, h.le_credit, h.reads⟩

/-- What does not touch the source and the end of the input changes nothing about the reads. -/
theorem Spent.of_stop_eq (h : i.Spent source k) {w : Window n} (hstop : w.stop = i.window.stop) :
    Spent source { i with window := w } k := by
  refine ⟨h.reads, h.le_credit, fun hnone => h.running ?_, fun stop hsome => h.ended stop ?_⟩
  · exact hstop.symm.trans hnone
  · exact hstop.symm.trans hsome

/-- **A slot that is filled with the epoch that comes next** accounts for its read, if there is one;
and a read that fails was not one too many. -/
theorem Spent.load (h : i.Spent source k) (side : Side) {epoch : Nat}
    (hepoch : i.window.stop = none → epoch = k) :
    match Input.load side epoch i with
    | .ok _ i' => ∃ k', i'.Spent source k' ∧
        (i'.window.stop = none → i.window.stop = none ∧ k' = k + 1)
    | .error _ i' => Source.Bounded n source i'.source := by
  rw [Input.load]
  simp only
  cases hstop : i.window.stop with
  | some stop =>
    obtain ⟨-, hkeeps⟩ :=
      setSlot_eq i.window side (Slot.receive epoch (i.window.slot side).data 0)
    refine ⟨k, h.of_stop_eq hkeeps, fun hnone => ?_⟩
    simp [hkeeps, hstop] at hnone
  | none =>
    obtain rfl := hepoch hstop
    have hcredit := h.running hstop
    have hless := Source.credit_read_lt (i.window.slot side).data i.source
    rcases hread : Source.read (i.window.slot side).data i.source with ⟨⟨buffer, count⟩, source'⟩
    rw [hread] at hless
    cases count with
    | error failure => exact ⟨epoch + 1, by omega, h.reads.read hread⟩
    | ok count =>
      obtain ⟨-, hkeeps⟩ := setSlot_eq i.window side (Slot.receive epoch buffer count)
      refine ⟨epoch + 1, ⟨h.reads.read hread, by omega, fun hnone => ?_, fun stop hsome => ?_⟩,
        fun _ => ⟨rfl, rfl⟩⟩
      · -- The end is still not known, so the buffer was filled.
        by_cases hcount : count < n
        · simp [hcount] at hnone
        · have hfull : Source.credit source' < Source.credit i.source :=
            hless count i.window.size_pos rfl (Nat.le_of_not_lt hcount)
          show epoch + 1 + Source.credit source' ≤ _
          omega
      · by_cases hcount : count < n
        · obtain rfl : epoch * n + count = stop := by simpa [hcount] using hsome
          rw [Nat.add_mul, Nat.one_mul]
          omega
        · simp [hcount, hkeeps, hstop] at hsome

/-- **An input works from its beginning on.** -/
theorem steady_ofSource (h : ofSource source n = .ok i) : i.Steady source := by
  obtain ⟨first, second, source₁, -, -, hkept, hstart, hpos⟩ := kept_ofSource h
  refine ⟨⟨_, hkept⟩, ?_⟩
  rw [ofSource] at h
  split at h
  · next hn =>
    have hblank : Spent source ({ source, window := Window.blank n hn } : Input σ n) 0 :=
      ⟨.zero, Nat.zero_le _, fun _ => Nat.le_of_eq (Nat.zero_add _), fun _ hsome => by cases hsome⟩
    have hfirst := hblank.load .left fun _ => rfl
    split at h
    · cases h
    · next i₁ hload₁ =>
      rw [hload₁] at hfirst
      obtain ⟨k, hspent, hone⟩ := hfirst
      have hsecond := hspent.load .right fun hnone => (hone hnone).2.symm
      split at h
      · cases h
      · next i₂ hload₂ =>
        cases h
        rw [hload₂] at hsecond
        obtain ⟨k', hspent', htwo⟩ := hsecond
        refine ⟨k', hspent', fun hnone => ?_⟩
        obtain ⟨hnone₁, rfl⟩ := htwo hnone
        rw [(hone hnone₁).2, Window.edge, hstart, Nat.zero_div]
  · cases h

/-- What has been read of a working input is not too much. -/
theorem Steady.bounded (h : i.Steady source) : Source.Bounded n source i.source :=
  let ⟨_, hspent, _⟩ := h.spent
  hspent.bounded

/-- **Where the cursors of a working input are**: in order, and not beyond what can be read. -/
theorem Steady.cursors (h : i.Steady source) :
    i.window.start ≤ i.window.pos ∧ i.window.pos ≤ (Source.credit source + 1) * n := by
  obtain ⟨text, hkept⟩ := h.kept
  obtain ⟨k, hspent, hedge⟩ := h.spent
  refine ⟨hkept.shows.start_le, ?_⟩
  have hpos : i.window.pos ≤ k * n := by
    refine Nat.le_trans hkept.shows.pos_le ?_
    cases hstop : i.window.stop with
    | none => exact hedge hstop ▸ hkept.length_le
    | some stop =>
      have hend := hkept.shows.stop_eq
      rw [hstop] at hend
      split at hend
      · cases hend
        exact hspent.ended _ hstop
      · cases hend
  exact Nat.le_trans hpos (Nat.mul_le_mul_right n hspent.le_credit)

/-- **The lexeme of a working input has all its bytes.** -/
theorem Steady.length_lexeme (h : i.Steady source) :
    i.window.lexeme.length = i.window.pos - i.window.start := by
  obtain ⟨text, hkept⟩ := h.kept
  have hpos := hkept.shows.pos_le
  rw [hkept.shows.lexeme_eq, List.length_take, List.length_drop]
  omega

/-- **A window over the same bytes keeps an input working**, if nothing but its position is another
one. -/
theorem Steady.of_shows (h : i.Steady source) {text : List UInt8} (hkept : i.Kept text)
    {w : Window n} (hshows : w.Shows text) (hstart : w.start = i.window.start)
    (hstop : w.stop = i.window.stop) : Steady source { i with window := w } := by
  obtain ⟨k, hspent, hedge⟩ := h.spent
  have hsame : w.edge = i.window.edge := by rw [Window.edge, Window.edge, hstart]
  refine ⟨⟨text, hshows, hsame ▸ hkept.length_le⟩, k, hspent.of_stop_eq hstop, fun hnone => ?_⟩
  exact hsame.trans (hedge (hstop.symm.trans hnone))

/-- **A move keeps an input working.** -/
theorem Steady.moves (h : i.Steady source) {w : Window n} (hmoves : i.window.Moves w) :
    Steady source { i with window := w } := by
  obtain ⟨text, hkept⟩ := h.kept
  obtain ⟨-, hstart, -, hstop⟩ := hmoves.frame
  exact h.of_shows hkept (hkept.shows.moves hmoves).1 hstart hstop

/-- **The start of a lexeme reads the epoch behind the edge**, if it goes on to another epoch. -/
theorem Steady.load (h : i.Steady source)
    (hother : i.window.pos / n ≠ (i.window.slot i.window.startSide).epoch) :
    match Input.load i.window.startSide (i.window.pos / n + 1)
      { i with window := { i.window with startSide := i.window.posSide } } with
    | .ok _ i' => ∃ k, i'.Spent source k ∧ (i'.window.stop = none → k = i.window.pos / n + 2)
    | .error _ i' => Source.Bounded n source i'.source := by
  obtain ⟨text, hkept⟩ := h.kept
  obtain ⟨k, hspent, hedge⟩ := h.spent
  have hepoch := hkept.shows.epoch_next hother
  have hnext : i.window.stop = none → i.window.pos / n + 1 = k := by
    intro hnone
    refine Nat.eq_of_mul_eq_mul_right i.window.size_pos (Eq.trans ?_ (hedge hnone))
    rw [Window.edge, hepoch]
  have hturned : Spent source
      { i with window := { i.window with startSide := i.window.posSide } } k :=
    hspent.of_stop_eq rfl
  have hload := hturned.load i.window.startSide hnext
  split at hload
  · obtain ⟨k', hspent', hnone'⟩ := hload
    exact ⟨k', hspent', fun hnone => by
      obtain ⟨hnone₀, rfl⟩ := hnone' hnone
      rw [← hnext hnone₀]⟩
  · exact hload

/-- **A lexeme that is started leaves an input working.** -/
theorem Steady.mark_ok (h : i.Steady source) (hmark : Input.mark i = .ok () i') :
    i'.Steady source := by
  obtain ⟨text, hkept⟩ := h.kept
  obtain ⟨more, -, hkept'⟩ := hkept.mark hmark
  obtain ⟨-, hstart⟩ := window_mark hmark
  refine ⟨⟨_, hkept'⟩, ?_⟩
  rw [Window.edge, hstart]
  unfold Input.mark at hmark
  simp only at hmark
  split at hmark
  · next hsame =>
    cases hmark
    obtain ⟨k, hspent, hedge⟩ := h.spent
    refine ⟨k, hspent.of_stop_eq rfl, fun hnone => ?_⟩
    rw [← hedge hnone, Window.edge, hsame, hkept.shows.near.epoch_eq]
  · next hother =>
    have hload := h.load hother
    split at hmark
    · next i₁ hok =>
      cases hmark
      rw [hok] at hload
      obtain ⟨k, hspent, hedge⟩ := hload
      exact ⟨k, hspent.of_stop_eq rfl, fun hnone => by rw [hedge hnone]⟩
    · cases hmark

/-- A lexeme that cannot be started has not read the source too often. -/
theorem Steady.mark_error (h : i.Steady source) {failure : ReadFailure}
    (hmark : Input.mark i = .error failure i') : Source.Bounded n source i'.source := by
  unfold Input.mark at hmark
  simp only at hmark
  split at hmark
  · cases hmark
  · next hother =>
    have hload := h.load hother
    split at hmark
    · cases hmark
    · next hfails =>
      cases hmark
      rwa [hfails] at hload

end Input

/-! ### Parts of a call -/

/-- **What has to become of a part of a call**: if it succeeds, the input works; if it fails, that
is not a fault, and the source has not been read too often. -/
def Steadily {S α : Type} (source : σ) (input : S → Input σ n) :
    EStateM.Result LexError S α → Prop
  | .ok _ s => (input s).Steady source
  | .error e s => (∀ f, e ≠ .fault f) ∧ Source.Bounded n source (input s).source

section Steadily

variable {S α : Type} {source : σ} {input : S → Input σ n}
  {result : EStateM.Result LexError S α}

theorem Steadily.of_ok (h : Steadily source input result) {a : α} {s : S} (hok : result = .ok a s) :
    (input s).Steady source := by
  rwa [hok] at h

theorem Steadily.of_error (h : Steadily source input result) {e : LexError} {s : S}
    (herror : result = .error e s) :
    (∀ f, e ≠ .fault f) ∧ Source.Bounded n source (input s).source := by
  rwa [herror] at h

end Steadily

variable {source : σ} {c : Cursor σ n}

/-- Stepping over a byte. -/
theorem Cursor.steadily_skipByte (h : c.input.Steady source) :
    Steadily source Cursor.input c.skipByte := by
  rw [skipByte]
  split
  · exact ⟨by simp, h.bounded⟩
  · next w hmove =>
    have hmoved := h.moves (.advance hmove)
    simp only
    split
    · next hmark => exact hmoved.mark_ok hmark
    · next hmark => exact ⟨by simp, hmoved.mark_error hmark⟩

namespace Trivia

/-- Stepping over the inside of a comment. -/
theorem steadily_commentRest (h : c.input.Steady source) (start : Position) (depth : UInt32) :
    Steadily source Cursor.input (commentRest start depth c) := by
  fun_induction commentRest start depth c with
  | case1 c => exact h
  | case2 => exact ⟨by simp, h.bounded⟩
  | case3 depth c hdepth b hpeek e c₁ hbyte => exact (Cursor.steadily_skipByte h).of_error hbyte
  | case4 depth c hdepth b hpeek _ c₁ hbyte hless hpair e c₂ hsecond =>
    have h₁ := (Cursor.steadily_skipByte h).of_ok hbyte
    exact (Cursor.steadily_skipByte h₁).of_error hsecond
  | case5 depth c hdepth b hpeek _ c₁ hbyte hfirst hpair _ c₂ hsecond hless ih =>
    have h₁ := (Cursor.steadily_skipByte h).of_ok hbyte
    exact ih ((Cursor.steadily_skipByte h₁).of_ok hsecond)
  | case6 depth c hdepth b hpeek _ c₁ hbyte hless hopen hclose e c₂ hsecond =>
    have h₁ := (Cursor.steadily_skipByte h).of_ok hbyte
    exact (Cursor.steadily_skipByte h₁).of_error hsecond
  | case7 depth c hdepth b hpeek _ c₁ hbyte hfirst hopen hclose _ c₂ hsecond hless ih =>
    have h₁ := (Cursor.steadily_skipByte h).of_ok hbyte
    exact ih ((Cursor.steadily_skipByte h₁).of_ok hsecond)
  | case8 depth c hdepth b hpeek _ c₁ hbyte hfirst hopen hclose hless ih =>
    exact ih ((Cursor.steadily_skipByte h).of_ok hbyte)

/-- Stepping over a comment. -/
theorem steadily_comment (h : c.input.Steady source) :
    Steadily source Cursor.input (comment c) := by
  rw [comment]
  split
  · next hbyte => exact (Cursor.steadily_skipByte h).of_error hbyte
  · next c₁ hbyte =>
    have h₁ := (Cursor.steadily_skipByte h).of_ok hbyte
    split
    · next hsecond => exact (Cursor.steadily_skipByte h₁).of_error hsecond
    · next c₂ hsecond =>
      exact steadily_commentRest ((Cursor.steadily_skipByte h₁).of_ok hsecond) _ _

/-- **Looking whether a comment opens** goes back over the byte that it has gone forward over, and
not over the start of the lexeme. -/
theorem steadily_opensComment {b : UInt8} (h : c.input.Steady source) (hpeek : c.peek = some b) :
    Steadily source Cursor.input (opensComment c) := by
  have hend := Window.isAtEnd_of_peek hpeek
  rw [opensComment]
  split
  · exact ⟨by simp, h.bounded⟩
  · next ahead hmove =>
    have hahead := h.moves (.advance hmove)
    simp only
    split
    · next f hback =>
      have hpos := Window.pos_advance_one hend hmove
      obtain ⟨-, -, -, -, hstart, -⟩ := Window.seek_eq_ok hmove
      have hle := h.cursors.1
      rw [Window.retreat, if_neg (by omega)] at hback
      cases hback
    · next back hback => exact hahead.moves (.retreat hback)

/-- **Stepping over blanks and comments.** -/
theorem steadily_skip (h : c.input.Steady source) (classes : ByteClass) (version : Version)
    (flags : Flags) : Steadily source Cursor.input (skip classes version flags c) := by
  fun_induction skip classes version flags c with
  | case1 flags c hpeek => exact h
  | case2 flags c b hpeek hspace e c₁ hbyte => exact (Cursor.steadily_skipByte h).of_error hbyte
  | case3 flags c b hpeek hspace _ c₁ hbyte hless ih =>
    exact ih ((Cursor.steadily_skipByte h).of_ok hbyte)
  | case4 flags c b hpeek hspace hopen e c₁ hopens =>
    exact (steadily_opensComment h hpeek).of_error hopens
  | case5 flags c b hpeek hspace hopen c₁ hopens =>
    exact (steadily_opensComment h hpeek).of_ok hopens
  | case6 flags c b hpeek hspace hopen c₁ hopens e c₂ hcomment =>
    have h₁ := (steadily_opensComment h hpeek).of_ok hopens
    exact (steadily_comment h₁).of_error hcomment
  | case7 flags c b hpeek hspace hopen c₁ hopens _ c₂ hcomment hlook hless ih =>
    have h₁ := (steadily_opensComment h hpeek).of_ok hopens
    exact ih ((steadily_comment h₁).of_ok hcomment)
  | case8 flags c b hpeek hspace hopen => exact h

end Trivia

section Token

variable {i : Input σ n} {d : Dialect} {classes : ByteClass}

/-- An input that works, with an empty lexeme, faces what has been delivered. -/
theorem Input.Steady.faces (h : i.Steady source) (hsettled : i.window.pos = i.window.start) :
    ∃ text, i.Kept text ∧ i.window.Faces text [] (text.drop i.window.pos) := by
  obtain ⟨text, hkept⟩ := h.kept
  have hnone : i.window.lexeme = [] := by
    rw [Window.lexeme, Window.lexemeLength, if_pos (Nat.sub_eq_zero_of_le (Nat.le_of_eq hsettled))]
  exact ⟨text, hkept, hkept.shows, hnone, rfl⟩

/-- **Scanning a token** in a window with an empty lexeme moves the position forward, or fails
because the text is malformed or the window too small. There is no other way for it to fail. -/
theorem Scan.steady_token (h : i.Steady source) (hsettled : i.window.pos = i.window.start)
    (d : Dialect) (classes : ByteClass) :
    match Scan.token d classes i.window with
    | .ok _ w => Input.Steady source { i with window := w }
    | .error e _ => ∀ f, e ≠ .fault f := by
  obtain ⟨text, hkept, hfaces⟩ := h.faces hsettled
  rcases Scan.token_cases hfaces d classes with
    ⟨kind, k, hscan, hk, hfits, -⟩ | ⟨e, w, hscan, hfault⟩
  · have hlen := hfaces.length_ahead
    have hshows := hkept.shows.movedTo (p := i.window.pos + k) (by omega) (by omega) hfits
    rw [hscan]
    exact h.of_shows hkept hshows rfl rfl
  · rw [hscan]
    exact hfault

/-- Scanning a token does not find out where the input ends. -/
theorem Scan.stop_token (h : i.Steady source) (hsettled : i.window.pos = i.window.start)
    {kind : Kind} {w : Window n} (hscan : Scan.token d classes i.window = .ok kind w) :
    w.stop = i.window.stop := by
  obtain ⟨text, -, hfaces⟩ := h.faces hsettled
  rcases Scan.token_cases hfaces d classes with ⟨kind', k, hscan', -⟩ | ⟨e, w', hscan', -⟩
  · obtain ⟨-, rfl⟩ : kind = kind' ∧ w = i.window.movedTo (i.window.pos + k) := by
      simpa [hscan] using hscan'
    rfl
  · simp [hscan] at hscan'

end Token

/-! ### Calls -/

namespace Lexer

variable {l l' : Lexer σ n} {t : Token}

/-- **A lexer that works**: it is between two tokens, and so does its input. -/
structure Steady (source : σ) (l : Lexer σ n) : Prop where
  /-- The lexer is between two tokens. -/
  ready : l.Ready
  /-- The input works. -/
  input : l.cursor.input.Steady source

/-- **One scan.** -/
theorem Steady.scan (h : l.Steady source) :
    Steadily source (fun l' : Lexer σ n => l'.cursor.input) l.scan := by
  have hskips := Trivia.steadily_skip h.input l.classes l.dialect.version .none
  rw [Lexer.scan]
  split
  · next hskip => exact hskips.of_error hskip
  · next trivia c hskip =>
    have hc := hskips.of_ok hskip
    have hsettled := Trivia.settled_skip hskip h.ready.settled
    have htoken := Scan.steady_token hc hsettled l.dialect l.classes
    split
    · next e w hscan =>
      rw [hscan] at htoken
      refine ⟨fun f hf => ?_, hc.bounded⟩
      cases e with
      | overflow => cases hf
      | malformed => cases hf
      | fault f' => exact htoken f' rfl
    · next kind w hscan =>
      rw [hscan] at htoken
      simp only
      split
      · next hmark => exact ⟨by simp, htoken.mark_error hmark⟩
      · next hmark => exact htoken.mark_ok hmark

/-- **A window in which a call has scanned a token**, up to its position. Its lexeme is cut out
then, whether the next one can be started or not. -/
def Scans (l : Lexer σ n) (w : Window n) : Prop :=
  l.phase ≠ .failed ∧ ∃ trivia c kind,
    Trivia.skip l.classes l.dialect.version .none l.cursor = .ok trivia c ∧
    Scan.token l.dialect l.classes c.input.window = .ok kind w

/-- **The lexeme of a scan has all bytes between its ends.** -/
theorem Steady.lexeme_of_scans (h : l.Steady source) {w : Window n} (hscans : l.Scans w) :
    w.start ≤ w.pos ∧ w.lexeme.length = w.pos - w.start := by
  obtain ⟨-, trivia, c, kind, hskip, htoken⟩ := hscans
  have hc := (Trivia.steadily_skip h.input l.classes l.dialect.version .none).of_ok hskip
  have hsettled := Trivia.settled_skip hskip h.ready.settled
  have hsteady := Scan.steady_token hc hsettled l.dialect l.classes
  rw [htoken] at hsteady
  exact ⟨hsteady.cursors.1, hsteady.length_lexeme⟩

/-- **What a call gives comes from a scan** of a lexer that has not failed. -/
theorem next_eq_ok (h : l.next = .ok t l') :
    l.phase ≠ .failed ∧ ∃ l₁, l.scan = .ok t l₁ ∧
      l' = if t.isEof then { l₁ with phase := .exhausted } else l₁ := by
  rw [next] at h
  split at h
  · cases h
  · next hphase =>
    split at h
    · cases h
    · next l₁ hscan =>
      cases h
      exact ⟨hphase, l₁, hscan, rfl⟩

/-- **An error of a call comes from a scan**, or reports an earlier one. -/
theorem next_eq_error {e : LexError} (h : l.next = .error e l') :
    e = .poisoned ∧ l' = l ∨
      l.phase ≠ .failed ∧ ∃ l₁, l.scan = .error e l₁ ∧ l' = { l₁ with phase := .failed } := by
  rw [next] at h
  split at h
  · cases h
    exact Or.inl ⟨rfl, rfl⟩
  · next hphase =>
    split at h
    · next l₁ hscan =>
      cases h
      exact Or.inr ⟨hphase, l₁, hscan, rfl⟩
    · cases h

/-- An error that a call gives, in either way, comes instead of the next token. -/
theorem next_of_outcome_failed {call : Call} {e : LexError} (h : l.outcome call = .failed e) :
    ∃ l', l.next = .error e l' := by
  cases call with
  | next =>
    rw [outcome] at h
    split at h
    · split at h <;> cases h
    · next hnext =>
      cases h
      exact ⟨_, hnext⟩
  | iterate =>
    rw [outcome] at h
    split at h
    · cases h
    · cases h
    · next e' hitem =>
      cases h
      have hanswers : l.Answers (.error e) l.next?.2 := .item (Prod.ext hitem rfl)
      exact ⟨_, hanswers.next_error⟩
  | release t => cases h

/-- **A lexer that works, or has failed** without reading its source too often. -/
def Sound (source : σ) (l : Lexer σ n) : Prop :=
  l.Steady source ∨ l.phase = .failed ∧ Source.Bounded n source l.source

theorem Sound.steady (h : l.Sound source) (hphase : l.phase ≠ .failed) : l.Steady source :=
  h.resolve_right fun hfailed => hphase hfailed.1

theorem Sound.bounded (h : l.Sound source) : Source.Bounded n source l.source := by
  rcases h with hsteady | ⟨-, hbounded⟩
  · exact hsteady.input.bounded
  · exact hbounded

/-- **The next token leaves a lexer working**, unless there is an error instead. -/
theorem Sound.next (h : l.Sound source) : (Input.leaves l.next).Sound source := by
  cases hnext : l.next with
  | ok t l' =>
    obtain ⟨hphase, l₁, hscan, rfl⟩ := next_eq_ok hnext
    have hready := (h.steady hphase).ready.scan hscan
    have hinput := (h.steady hphase).scan.of_ok hscan
    refine Or.inl ?_
    simp only [Input.leaves]
    split
    · exact ⟨⟨hready.settled, hready.clean, hready.dialect_eq⟩, hinput⟩
    · exact ⟨hready, hinput⟩
  | error e l' =>
    refine Or.inr ⟨phase_of_next_error hnext, ?_⟩
    rcases next_eq_error hnext with ⟨-, rfl⟩ | ⟨hphase, l₁, hscan, rfl⟩
    · exact h.bounded
    · exact ((h.steady hphase).scan.of_error hscan).2

theorem Sound.release (h : l.Sound source) (t : Token) : (l.release t).Sound source :=
  h.imp_left fun hsteady => ⟨hsteady.ready.release t, hsteady.input⟩

/-- **No call for a token comes to a fault.** -/
theorem Sound.next_ne_fault (h : l.Sound source) (f : Fault) (l' : Lexer σ n) :
    l.next ≠ .error (.fault f) l' := by
  intro hnext
  rcases next_eq_error hnext with ⟨hpoisoned, -⟩ | ⟨hphase, l₁, hscan, -⟩
  · cases hpoisoned
  · exact ((h.steady hphase).scan.of_error hscan).1 f rfl

/-- **A lexer that cannot break down.** Nothing that is asked of it between two calls does, since
its position, its source and its records can be looked at as they are. -/
structure Safe (source : σ) (l : Lexer σ n) : Prop where
  /-- No call asks the window for a move that it cannot make. -/
  no_fault : ∀ call f, l.outcome call ≠ .failed (.fault f)
  /-- A lexeme is cut out of the slots within their bounds: its ends are in order, and it has all
  bytes between them. -/
  lexeme : ∀ w, l.Scans w → w.start ≤ w.pos ∧ w.lexeme.length = w.pos - w.start
  /-- As long as no call has failed the cursors are in order, and not beyond what the source can
  bring. -/
  cursors : l.phase ≠ .failed → l.cursor.input.window.start ≤ l.cursor.input.window.pos ∧
    l.cursor.input.window.pos ≤ (Source.credit source + 1) * n
  /-- All calls together have read the source at most once more than it can fill a buffer. -/
  reads : ∃ k ≤ Source.credit source + 1, Source.Reads n source k l.source

theorem Sound.safe (h : l.Sound source) : l.Safe source := by
  constructor
  case no_fault =>
    intro call f hfailed
    obtain ⟨l', hnext⟩ := next_of_outcome_failed hfailed
    exact h.next_ne_fault f l' hnext
  case lexeme => exact fun w hscans => (h.steady hscans.1).lexeme_of_scans hscans
  case cursors => exact fun hphase => (h.steady hphase).input.cursors
  case reads => exact h.bounded

/-- A lexer that has been set up works. -/
theorem sound_ofSource {settings : Settings} {classes : ByteClass}
    {l₀ : Lexer σ settings.bufferSize} (h : ofSource source settings classes = .ok l₀) :
    l₀.Sound source := by
  refine Or.inl ⟨(running_ofSource h).ready, ?_⟩
  rw [ofSource] at h
  split at h
  · cases h
  · split at h
    · cases h
    · next hinput =>
      cases h
      exact Input.steady_ofSource hinput

/-- **Whatever calls are made on a lexer that works**, they leave it safe. -/
theorem Sound.safe_after (h : l.Sound source) (calls : List Call) :
    (l.after calls).Safe source := by
  have hafter : (l.after calls).Sound source :=
    keeps_after (fun _ => Sound.next) (fun _ t hl => hl.release t) calls h
  exact hafter.safe

/-- **No lexer ever breaks down**, over any source at all, with any byte classes and buffers, and
whatever calls are made on it; nor over a supplier that need not end, whatever the limit on its
reads. -/
theorem safe_ofSource {τ : Type} (settings : Settings) (classes : ByteClass) :
    (∀ (source : σ) (l₀ : Lexer σ settings.bufferSize),
      ofSource source settings classes = .ok l₀ → ∀ calls, (l₀.after calls).Safe source) ∧
    ∀ (supplier : Supplier τ) (state : τ) (limit : Nat)
      (l₀ : Lexer (Limited supplier) settings.bufferSize),
      ofSource { state, left := limit } settings classes = .ok l₀ →
        ∀ calls, (l₀.after calls).Safe { state, left := limit } :=
  ⟨fun _ _ hof => (sound_ofSource hof).safe_after,
    fun _ _ _ _ hof => (sound_ofSource hof).safe_after⟩

/-- A source that claims more bytes than it writes, then fewer, and then fails, with a meter on it,
and a parenthesis at the end of what it has written. -/
def dishonest : Metered Script :=
  { inner := { steps := [.deliver [0x28] (some 9), .deliver [0x27, 0x28] (some 2),
      .deliver [0x3A, 0x3A] (some 1), .fail .interrupted] } }

/-- A supplier that goes on with parentheses for ever, and claims one more each time than it has
written. -/
def endless : Supplier Unit where
  read n _ _ := ({ buffer := Vector.replicate n Ascii.leftParen, count := .ok (n + 1) }, ())

/-- Whatever calls are made over these two, none breaks down, and the first one is read five times
at most. -/
theorem safe_ofSource_dishonest :
    (∃ l₀ : Lexer (Metered Script) 2,
      ofSource dishonest { bufferSize := 2, version := .xpath31 } .xml = .ok l₀ ∧
      ∀ calls, (l₀.after calls).Safe dishonest ∧ (l₀.after calls).source.reads ≤ 5) ∧
    ∀ limit, ∃ l₀ : Lexer (Limited endless) 2,
      ofSource { state := (), left := limit + 2 } { bufferSize := 2, version := .xpath31 } .xml =
        .ok l₀ ∧
      ∀ calls, (l₀.after calls).Safe { state := (), left := limit + 2 } := by
  obtain ⟨hsource, hsupplier⟩ := safe_ofSource (σ := Metered Script) (τ := Unit)
    { bufferSize := 2, version := .xpath31 } .xml
  refine ⟨?_, fun limit => ?_⟩
  · obtain ⟨l₀, hof⟩ : ∃ l₀ : Lexer (Metered Script) 2,
        ofSource dishonest { bufferSize := 2, version := .xpath31 } .xml = .ok l₀ := ⟨_, rfl⟩
    refine ⟨l₀, hof, fun calls => ?_⟩
    have hsafe := hsource dishonest l₀ hof calls
    obtain ⟨k, hk, hreads⟩ := hsafe.reads
    refine ⟨hsafe, ?_⟩
    rw [hreads.reads_eq, dishonest, Nat.zero_add]
    exact hk
  · exact ⟨_, rfl, hsupplier endless () (limit + 2) _ rfl⟩

end Lexer

end XPathScan
