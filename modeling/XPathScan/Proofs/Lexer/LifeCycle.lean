import XPathScan.Proofs.Input.Kept
import XPathScan.Proofs.Lexer.Calls
import XPathScan.Proofs.Scan.Verdict

/-!
# The life of a lexer

A lexer is called until it meets the end of its input or an error, and may be called on after that.
What happens then does not depend on the source, which may fail or claim any counts, nor on how the
calls are mixed. At the end the lexer scans again with every call, and finds the end again in the
same place: the window knows where the input ends, so nothing is read, and the lexeme is empty
because a lexeme is started behind every token. After an error nothing is scanned.

* `XPathScan.Lexer.AtEnd.next` – a lexer at the end stays there;
* `XPathScan.Lexer.Ready.next_eof` – the first token of kind `eof` comes where the input ends;
* `XPathScan.Lexer.Running.lifeCycle` – what calls give before and after the first end or error.
-/

namespace XPathScan

variable {σ : Type} {n : Nat} [Source σ]

/-! ### Between tokens the lexeme is empty -/

/-- **A cursor with nothing in its lexeme.** -/
def Cursor.Settled (c : Cursor σ n) : Prop := c.input.window.pos = c.input.window.start

/-- Behind a byte that belongs to no token a lexeme starts. -/
theorem Cursor.settled_skipByte {c c' : Cursor σ n} (h : c.skipByte = .ok () c') : c'.Settled := by
  rw [skipByte] at h
  split at h
  · cases h
  · simp only at h
    split at h
    · next hmark =>
      cases h
      obtain ⟨hpos, hstart⟩ := Input.window_mark hmark
      exact hpos.trans hstart.symm
    · cases h

omit [Source σ] in
/-- **Before the end of the input a move of one byte leads to the next one.** -/
theorem Window.pos_advance_one {w w' : Window n} (hend : w.isAtEnd = false)
    (h : w.advance 1 = .ok w') : w'.pos = w.pos + 1 := by
  obtain ⟨hpos, -⟩ := Window.seek_eq_ok h
  rw [hpos, Window.forward]
  rw [Window.isAtEnd] at hend
  cases hstop : w.stop with
  | none => rfl
  | some stop =>
    simp only [hstop, decide_eq_false_iff_not] at hend
    simp only
    omega

namespace Trivia

theorem settled_commentRest {start : Position} {depth : UInt32} {c c' : Cursor σ n}
    (h : commentRest start depth c = .ok () c') (hc : c.Settled) : c'.Settled := by
  fun_induction commentRest start depth c with
  | case1 c =>
    cases h
    exact hc
  | case2 => cases h
  | case3 => cases h
  | case4 => cases h
  | case5 depth c hdepth b hpeek _ c₁ hbyte hfirst hpair _ c₂ hsecond hless ih =>
    exact ih h (Cursor.settled_skipByte hsecond)
  | case6 => cases h
  | case7 depth c hdepth b hpeek _ c₁ hbyte hfirst hopen hclose _ c₂ hsecond hless ih =>
    exact ih h (Cursor.settled_skipByte hsecond)
  | case8 depth c hdepth b hpeek _ c₁ hbyte hfirst hopen hclose hless ih =>
    exact ih h (Cursor.settled_skipByte hbyte)

theorem settled_comment {c c' : Cursor σ n} (h : comment c = .ok () c') : c'.Settled := by
  rw [comment] at h
  split at h
  · cases h
  · split at h
    · cases h
    · next hsecond => exact settled_commentRest h (Cursor.settled_skipByte hsecond)

omit [Source σ] in
/-- Looking whether a comment opens goes one byte forward and back again. -/
theorem settled_opensComment {c c' : Cursor σ n} {b : UInt8} {opens : Bool}
    (hpeek : c.peek = some b) (h : opensComment c = .ok opens c') (hc : c.Settled) :
    c'.Settled := by
  have hend := Window.isAtEnd_of_peek hpeek
  rw [opensComment] at h
  split at h
  · cases h
  · next ahead hmove =>
    obtain ⟨-, -, -, -, hstart, -⟩ := Window.seek_eq_ok hmove
    have hahead := Window.pos_advance_one hend hmove
    simp only at h
    split at h
    · cases h
    · next back hback =>
      cases h
      rw [Window.retreat] at hback
      split at hback
      · cases hback
      · cases hback
        show ahead.pos - 1 = ahead.start
        rw [hahead, hstart, Nat.add_sub_cancel]
        exact hc

/-- **Stepping over blanks and comments leaves the lexeme empty.** -/
theorem settled_skip {classes : ByteClass} {version : Version} {flags trivia : Flags}
    {c c' : Cursor σ n} (h : skip classes version flags c = .ok trivia c') (hc : c.Settled) :
    c'.Settled := by
  fun_induction skip classes version flags c with
  | case1 flags c hpeek =>
    cases h
    exact hc
  | case2 => cases h
  | case3 flags c b hpeek hspace _ c₁ hbyte hless ih => exact ih h (Cursor.settled_skipByte hbyte)
  | case4 => cases h
  | case5 flags c b hpeek hspace hopen c₁ hopens =>
    cases h
    exact settled_opensComment hpeek hopens hc
  | case6 => cases h
  | case7 flags c b hpeek hspace hopen c₁ hopens _ c₂ hcomment hlook hless ih =>
    exact ih h (settled_comment hcomment)
  | case8 flags c b hpeek hspace hopen =>
    cases h
    exact hc

end Trivia

/-! ### The end of the input -/

/-- **A token that marks a point as the end of the input.** -/
structure Token.MarksEnd (t : Token) (p : Position) : Prop where
  /-- The token is the end. -/
  isEof : t.isEof = true
  /-- It has no bytes. -/
  lexeme_eq : t.lexeme = []
  /-- Its span is empty, and at the point. -/
  span_eq : t.span = { start := p.offset, stop := p.offset }
  /-- Its line is that of the point. -/
  line_eq : t.line = p.line
  /-- Its column is that of the point. -/
  column_eq : t.column = p.column

namespace Lexer

variable {l l' : Lexer σ n} {t : Token} {p : Position}

/-- **A lexer between two tokens**: its lexeme is empty, and so are the records that wait to be used
again. -/
structure Ready (l : Lexer σ n) : Prop where
  /-- Nothing is in the lexeme. -/
  settled : l.cursor.Settled
  /-- No record has a lexeme in it. -/
  clean : ∀ t ∈ l.pool.free, t.lexeme = []
  /-- The language is that of a version. -/
  dialect_eq : ∃ version, l.dialect = .ofVersion version

/-- **A lexer at the end of its input**, which is at a given point. -/
structure AtEnd (l : Lexer σ n) (p : Position) : Prop where
  /-- The lexer is between two tokens. -/
  ready : l.Ready
  /-- The window is at the end of the input. -/
  isAtEnd : l.cursor.input.window.isAtEnd = true
  /-- The end is at the point. -/
  position_eq : l.position = p
  /-- The end has been met. -/
  phase_eq : l.phase = .exhausted

/-- **A scan that succeeds** steps over trivia, scans a token, and starts a lexeme behind it. -/
theorem scan_inv (h : l.scan = .ok t l') :
    ∃ trivia c kind w input,
      Trivia.skip l.classes l.dialect.version .none l.cursor = .ok trivia c ∧
      Scan.token l.dialect l.classes c.input.window = .ok kind w ∧
      Input.mark { c.input with window := w } = .ok () input ∧
      t = fillIn l.pool.acquire.1 kind c.position (tokenFlags trivia c) w ∧
      l' = { l with cursor := { input, place := c.place.pastToken t.lexeme }
                    pool := l.pool.acquire.2 } := by
  rw [scan] at h
  split at h
  · cases h
  · next trivia c hskip =>
    split at h
    · cases h
    · next kind w hscan =>
      simp only at h
      split at h
      · cases h
      · next input hmark =>
        cases h
        exact ⟨trivia, c, kind, w, input, hskip, hscan, hmark, rfl, rfl⟩

/-- **Behind a token the lexer is ready for the next one.** -/
theorem Ready.scan (h : l.Ready) (hscan : l.scan = .ok t l') : l'.Ready := by
  obtain ⟨trivia, c, kind, w, input, -, -, hmark, -, rfl⟩ := scan_inv hscan
  obtain ⟨hpos, hstart⟩ := Input.window_mark hmark
  exact ⟨hpos.trans hstart.symm, (lexeme_acquire h.clean).2, h.dialect_eq⟩

omit [Source σ] in
theorem Ready.release (h : l.Ready) (t : Token) : (l.release t).Ready := by
  refine ⟨h.settled, ?_, h.dialect_eq⟩
  rintro u (_ | ⟨_, hu⟩)
  · rfl
  · exact h.clean u hu

/-- **Where the trivia lead to the end of the input, the end is found**, without a read, and the
lexer stays where it is. -/
theorem Ready.scan_of_isAtEnd (h : l.Ready) {trivia : Flags} {c : Cursor σ n}
    (hskip : Trivia.skip l.classes l.dialect.version .none l.cursor = .ok trivia c)
    (hend : c.input.window.isAtEnd = true) :
    ∃ t l', l.scan = .ok t l' ∧ t.MarksEnd c.position ∧ l'.position = c.position ∧
      l'.cursor.input.window.isAtEnd = true ∧ l'.source = c.input.source := by
  have hsettled := Trivia.settled_skip hskip h.settled
  obtain ⟨stop, hstop⟩ : ∃ stop, c.input.window.stop = some stop := by
    cases hstop : c.input.window.stop with
    | none => simp [Window.isAtEnd, hstop] at hend
    | some stop => exact ⟨stop, rfl⟩
  obtain ⟨input, hmark, hsource, hstop'⟩ := Input.mark_of_stop (i := c.input) hstop
  obtain ⟨hpos, hstart⟩ := Input.window_mark hmark
  have hscan := scan_of_token hskip (Scan.token_of_isAtEnd hend) hmark
  have hlexeme : (fillIn l.pool.acquire.1 .eof c.position (tokenFlags trivia c)
      c.input.window).lexeme = [] := by
    have hnone : c.input.window.lexeme = [] := by
      rw [Window.lexeme, Window.lexemeLength, if_pos (Nat.sub_eq_zero_of_le (Nat.le_of_eq hsettled))]
    rw [fillIn, (lexeme_acquire h.clean).1, hnone]
    rfl
  simp only [hlexeme] at hscan
  refine ⟨_, _, hscan, ⟨rfl, hlexeme, ?_, rfl, rfl⟩, ?_, ?_, hsource⟩
  · show Span.mk c.input.window.start c.input.window.pos = Span.mk _ c.input.window.start
    rw [hsettled]
    rfl
  · -- No bytes lie between the two points, so line and column are the same.
    show Position.mk input.window.start _ _ = Position.mk c.input.window.start _ _
    rw [hstart, hsettled]
    rfl
  · show input.window.isAtEnd = true
    rw [Window.isAtEnd] at hend ⊢
    rw [hstop', hpos]
    rwa [hstop] at hend

/-- **The first token of kind `eof` comes where the input ends**, and then the lexer is there. -/
theorem Ready.next_eof (h : l.Ready) (hnext : l.next = .ok t l') (heof : t.isEof = true) :
    ∃ p, t.MarksEnd p ∧ l'.AtEnd p := by
  rw [next] at hnext
  split at hnext
  · cases hnext
  · split at hnext
    · cases hnext
    · next l₁ hscan =>
      obtain ⟨rfl, hl⟩ := EStateM.Result.ok.inj hnext
      rw [if_pos heof] at hl
      obtain ⟨trivia, c, kind, w, input, hskip, htoken, -, rfl, -⟩ := scan_inv hscan
      -- Only the end of the input gives a token of that kind.
      obtain rfl : kind = .eof := by simpa [Token.isEof, fillIn] using heof
      obtain ⟨version, hversion⟩ := h.dialect_eq
      rw [hversion] at htoken
      obtain ⟨hend, -⟩ := Scan.token_eq_eof htoken
      obtain ⟨t, l₂, hscan', hmarks, hposition, hend', -⟩ := h.scan_of_isAtEnd hskip hend
      obtain ⟨rfl, rfl⟩ : _ ∧ l₁ = l₂ := by simpa [hscan] using hscan'
      have hready := h.scan hscan
      exact ⟨c.position, hmarks, hl ▸ ⟨⟨hready.settled, hready.clean, hready.dialect_eq⟩, hend',
        hposition, rfl⟩⟩

/-- **A lexer at the end finds the end again**, in the same place and without a read. -/
theorem AtEnd.next (h : l.AtEnd p) :
    ∃ t l', l.next = .ok t l' ∧ t.MarksEnd p ∧ l'.AtEnd p ∧ l'.source = l.source := by
  have hskip : Trivia.skip l.classes l.dialect.version .none l.cursor = .ok .none l.cursor :=
    Trivia.skip_of_end .none (Window.peek_eq_none_iff.mpr h.isAtEnd)
  obtain ⟨t, l', hscan, hmarks, hposition, hend, hsource⟩ := h.ready.scan_of_isAtEnd hskip h.isAtEnd
  have hready := h.ready.scan hscan
  rw [show l.cursor.position = p from h.position_eq] at hmarks hposition
  refine ⟨t, { l' with phase := .exhausted }, ?_, hmarks, ⟨⟨hready.settled, hready.clean,
    hready.dialect_eq⟩, hend, hposition, rfl⟩, hsource⟩
  rw [Lexer.next, if_neg (by simp [h.phase_eq]), hscan]
  simp only
  rw [if_pos hmarks.isEof]

omit [Source σ] in
theorem AtEnd.release (h : l.AtEnd p) (t : Token) : (l.release t).AtEnd p :=
  ⟨h.ready.release t, h.isAtEnd, h.position_eq, h.phase_eq⟩

/-! ### Before the first end or error -/

/-- What an iteration makes of an answer: the end is no item. -/
def itemOf : EStateM.Result LexError (Lexer σ n) Token → Option (Except LexError Token)
  | .ok t _ => if t.isEof then none else some (.ok t)
  | .error e _ => some (.error e)

/-- **In an active lexer an iteration asks for the next token.** -/
theorem next?_of_active (h : l.phase = .active) : l.next?.1 = itemOf l.next := by
  rw [next?, if_pos h]
  cases l.next with
  | ok t l' =>
    simp only [itemOf]
    split <;> rfl
  | error e l' => rfl

/-- A lexer that is not active gives no items, and an iteration leaves it as it is. -/
theorem next?_of_not_active (h : l.phase ≠ .active) : l.next? = (none, l) := if_neg h

/-- **A lexer before the first end or error.** -/
structure Running (l : Lexer σ n) : Prop where
  /-- The lexer is between two tokens. -/
  ready : l.Ready
  /-- Neither the end nor an error has been met. -/
  phase_eq : l.phase = .active

/-- A token before the end leaves the lexer running. -/
theorem Running.next (h : l.Running) (hnext : l.next = .ok t l') (heof : t.isEof = false) :
    l'.Running := by
  refine ⟨?_, (phase_next hnext heof).trans h.phase_eq⟩
  rw [Lexer.next, if_neg (by simp [h.phase_eq])] at hnext
  split at hnext
  · cases hnext
  · next l₁ hscan =>
    obtain ⟨rfl, rfl⟩ := EStateM.Result.ok.inj hnext
    rw [heof]
    exact h.ready.scan hscan

/-- **What a call can do to an active lexer**, by what it says. -/
inductive Step (l : Lexer σ n) : Outcome → Lexer σ n → Prop
  /-- A token is given. -/
  | token {t : Token} {l' : Lexer σ n} : l.next = .ok t l' → t.isEof = false → Step l .more l'
  /-- A token is handed back. -/
  | release (t : Token) : Step l .more (l.release t)
  /-- The end is given. -/
  | eof {t : Token} {l' : Lexer σ n} : l.next = .ok t l' → t.isEof = true → Step l .done l'
  /-- The end is met, and its token handed back at once. -/
  | eofReleased {t : Token} {l' : Lexer σ n} : l.next = .ok t l' → t.isEof = true →
      Step l .done (l'.release t)
  /-- An error is given. -/
  | error {e : LexError} {l' : Lexer σ n} : l.next = .error e l' → Step l (.failed e) l'

/-- **A call on an active lexer does one of these.** -/
theorem step_leave (h : l.phase = .active) (c : Call) : l.Step (l.outcome c) (l.leave c) := by
  cases c with
  | next =>
    rw [outcome, leave]
    cases hnext : l.next with
    | ok t l' =>
      cases heof : t.isEof with
      | true =>
        simp only [heof, ↓reduceIte]
        exact .eof hnext heof
      | false =>
        simp only [heof]
        exact .token hnext heof
    | error e l' => exact .error hnext
  | iterate =>
    rw [outcome, next?_of_active h, leave, next?, if_pos h]
    cases hnext : l.next with
    | ok t l' =>
      cases heof : t.isEof with
      | true =>
        simp only [itemOf, heof, ↓reduceIte]
        exact .eofReleased hnext heof
      | false =>
        simp only [itemOf, heof]
        exact .token hnext heof
    | error e l' => exact .error hnext
  | release t => exact .release t

/-- **As long as there is more to come the lexer is running.** -/
theorem Running.leave_more (h : l.Running) {c : Call} (hmore : l.outcome c = .more) :
    (l.leave c).Running := by
  have hstep := step_leave h.phase_eq c
  rw [hmore] at hstep
  generalize l.leave c = m at hstep
  cases hstep with
  | token hnext heof => exact h.next hnext heof
  | release t => exact ⟨h.ready.release t, h.phase_eq⟩

/-- **When the end has come the lexer is there**, whichever call has met it. -/
theorem Running.leave_done (h : l.Running) {c : Call} (hdone : l.outcome c = .done) :
    ∃ p, (∃ e l', l.next = .ok e l' ∧ e.MarksEnd p) ∧ (l.leave c).AtEnd p := by
  have hstep := step_leave h.phase_eq c
  rw [hdone] at hstep
  generalize l.leave c = m at hstep
  cases hstep with
  | eof hnext heof =>
    obtain ⟨p, hmarks, hatEnd⟩ := h.ready.next_eof hnext heof
    exact ⟨p, ⟨_, _, hnext, hmarks⟩, hatEnd⟩
  | eofReleased hnext heof =>
    obtain ⟨p, hmarks, hatEnd⟩ := h.ready.next_eof hnext heof
    exact ⟨p, ⟨_, _, hnext, hmarks⟩, hatEnd.release _⟩

/-- A call that fails leaves a lexer that has failed. -/
theorem Running.leave_failed (h : l.Running) {c : Call} {e : LexError}
    (hfailed : l.outcome c = .failed e) : (l.leave c).phase = .failed := by
  have hstep := step_leave h.phase_eq c
  rw [hfailed] at hstep
  generalize l.leave c = m at hstep
  cases hstep with
  | error hnext => exact phase_of_next_error hnext

/-- A lexer is running from its beginning on. -/
theorem running_ofSource {source : σ} {settings : Settings} {classes : ByteClass}
    {l₀ : Lexer σ settings.bufferSize} (h : ofSource source settings classes = .ok l₀) :
    l₀.Running := by
  rw [ofSource] at h
  split at h
  · cases h
  · split at h
    · cases h
    · next input hinput =>
      cases h
      refine ⟨⟨?_, fun t ht => absurd ht (by simp), settings.version, rfl⟩, rfl⟩
      obtain ⟨_, _, _, -, -, -, hstart, hpos⟩ := Input.kept_ofSource hinput
      exact hpos.trans hstart.symm

/-! ### After the first end or error -/

/-- **A lexer that has met the end**: every call for a token gives the end, at the same point, and
an iteration gives nothing. The source is the given one: it has not been read since. -/
structure Rests (l : Lexer σ n) (p : Position) (source : σ) : Prop where
  /-- The next token is the end, at the point. -/
  next_eq : ∃ t l', l.next = .ok t l' ∧ t.MarksEnd p
  /-- There is no next item. -/
  next?_eq : l.next?.1 = none
  /-- The source has not been read. -/
  source_eq : l.source = source

/-- **A lexer that has failed**: every call for a token says so, and an iteration gives nothing. The
source and the position are the given ones. -/
structure Poisoned (l : Lexer σ n) (p : Position) (source : σ) : Prop where
  /-- There is no next token. -/
  next_eq : l.next = .error .poisoned l
  /-- There is no next item. -/
  next?_eq : l.next?.1 = none
  /-- The source has not been read. -/
  source_eq : l.source = source
  /-- The lexer has not moved. -/
  position_eq : l.position = p

/-- **Calls leave a lexer at the end.** -/
theorem AtEnd.after (h : l.AtEnd p) (calls : List Call) :
    (l.after calls).AtEnd p ∧ (l.after calls).source = l.source := by
  refine keeps_after (P := fun m => m.AtEnd p ∧ m.source = l.source) ?_ ?_ calls ⟨h, rfl⟩
  · rintro m ⟨hm, hsource⟩
    obtain ⟨t, l', hnext, -, hl', hsource'⟩ := hm.next
    rw [hnext]
    exact ⟨hl', hsource'.trans hsource⟩
  · rintro m t ⟨hm, hsource⟩
    exact ⟨hm.release t, hsource⟩

theorem AtEnd.rests (h : l.AtEnd p) : l.Rests p l.source := by
  obtain ⟨t, l', hnext, hmarks, -⟩ := h.next
  exact ⟨⟨t, l', hnext, hmarks⟩, by rw [next?_of_not_active (by simp [h.phase_eq])], rfl⟩

/-- **Calls leave a lexer that has failed as it is**, but for the records handed back. -/
theorem cursor_after_of_failed (h : l.phase = .failed) (calls : List Call) :
    (l.after calls).phase = .failed ∧ (l.after calls).cursor = l.cursor := by
  refine keeps_after (P := fun m => m.phase = .failed ∧ m.cursor = l.cursor) ?_ ?_ calls ⟨h, rfl⟩
  · rintro m ⟨hm, hcursor⟩
    rw [next_of_failed hm]
    exact ⟨hm, hcursor⟩
  · rintro m t hm
    exact hm

theorem poisoned_of_failed (h : l.phase = .failed) : l.Poisoned l.position l.source :=
  ⟨next_of_failed h, by rw [next?_of_not_active (by simp [h])], rfl, rfl⟩

/-! ### Errors -/

/-- At the end there are no errors. -/
theorem AtEnd.errors_eq (h : l.AtEnd p) (calls : List Call) : l.errors calls = [] := by
  induction calls generalizing l with
  | nil => rfl
  | cons c calls ih =>
    have hleave : (l.leave c).errors calls = [] := ih (h.after [c]).1
    obtain ⟨t, l', hnext, hmarks, -⟩ := h.next
    rw [errors]
    cases c with
    | next => simpa [outcome, hnext, hmarks.isEof] using hleave
    | iterate => simpa [outcome, next?_of_not_active (l := l) (by simp [h.phase_eq])] using hleave
    | release t => exact hleave

/-- After an error there is nothing but the report of it. -/
theorem errors_of_failed (h : l.phase = .failed) (calls : List Call) :
    ∀ e ∈ l.errors calls, e = .poisoned := by
  induction calls generalizing l with
  | nil => exact fun e he => (nomatch he)
  | cons c calls ih =>
    have hleave : ∀ e ∈ (l.leave c).errors calls, e = .poisoned :=
      ih (cursor_after_of_failed h [c]).1
    rw [errors]
    cases c with
    | next =>
      simp only [outcome, next_of_failed h, List.mem_cons]
      rintro e (rfl | he)
      · rfl
      · exact hleave e he
    | iterate => simpa [outcome, next?_of_not_active (l := l) (by simp [h])] using hleave
    | release t => exact hleave

/-- **At most one error is more than the report of an earlier one.** -/
theorem Running.errors_le (h : l.Running) (calls : List Call) :
    ((l.errors calls).filter (· ≠ .poisoned)).length ≤ 1 := by
  induction calls generalizing l with
  | nil => exact Nat.zero_le 1
  | cons c calls ih =>
    rw [errors]
    cases hout : l.outcome c with
    | more => exact ih (h.leave_more hout)
    | done =>
      obtain ⟨p, -, hatEnd⟩ := h.leave_done hout
      simp [hatEnd.errors_eq calls]
    | failed e =>
      -- What comes after the first error is dropped by the filter.
      have hrest : ((l.leave c).errors calls).filter (· ≠ .poisoned) = [] := by
        rw [List.filter_eq_nil_iff]
        intro e' he'
        simp [errors_of_failed (h.leave_failed hout) calls e' he']
      simp only [List.filter_cons, hrest]
      split <;> simp

/-- **The life of a lexer**, whatever calls are made on it. -/
structure LifeCycle (l₀ : Lexer σ n) : Prop where
  /-- Before the first end or error an iteration gives what a call for the next token would give,
  except that the end is no item. -/
  running : ∀ calls, l₀.Runs calls → (l₀.after calls).next?.1 = itemOf (l₀.after calls).next
  /-- From the first end on there is nothing but the end, always the same and without a read; and
  there are no errors. -/
  ended : ∀ calls c, l₀.Runs calls → (l₀.after calls).outcome c = .done →
    ∃ p, (∃ e l, (l₀.after calls).next = .ok e l ∧ e.MarksEnd p) ∧
      ∀ later, (l₀.after (calls ++ c :: later)).Rests p ((l₀.after calls).leave c).source ∧
        ((l₀.after calls).leave c).errors later = []
  /-- From the first error on there is nothing but the report of it, without a read, and the lexer
  does not move. -/
  failed : ∀ calls c e, l₀.Runs calls → (l₀.after calls).outcome c = .failed e →
    ∀ later, (l₀.after (calls ++ c :: later)).Poisoned ((l₀.after calls).leave c).position
      ((l₀.after calls).leave c).source
  /-- At most one error is more than the report of an earlier one. -/
  errors_le : ∀ calls, ((l₀.errors calls).filter (· ≠ .poisoned)).length ≤ 1

/-- **A running lexer lives like that**, over any source at all. Since this holds of metered sources
too, that a source is the same as before means that it has not been read. -/
theorem Running.lifeCycle {l₀ : Lexer σ n} (hrunning : l₀.Running) : l₀.LifeCycle := by
  have hruns : ∀ calls, l₀.Runs calls → (l₀.after calls).Running := fun calls hcalls =>
    hcalls.keeps (fun l c hl hmore => hl.leave_more hmore) hrunning
  constructor
  case running => exact fun calls hcalls => next?_of_active (hruns calls hcalls).phase_eq
  case ended =>
    intro calls c hcalls hdone
    obtain ⟨p, hend, hatEnd⟩ := (hruns calls hcalls).leave_done hdone
    refine ⟨p, hend, fun later => ⟨?_, hatEnd.errors_eq later⟩⟩
    obtain ⟨hlater, hsource⟩ := hatEnd.after later
    rw [after_append, ← hsource]
    exact hlater.rests
  case failed =>
    intro calls c e hcalls hfailed later
    obtain ⟨hlater, hcursor⟩ := cursor_after_of_failed ((hruns calls hcalls).leave_failed hfailed) later
    have hpoisoned := poisoned_of_failed hlater
    rw [Lexer.position, Lexer.source, hcursor] at hpoisoned
    rw [after_append]
    exact hpoisoned
  case errors_le => exact hrunning.errors_le

end Lexer

end XPathScan
