import XPathScan.Proofs.Input.Fed
import XPathScan.Proofs.Lexer.Calls
import XPathScan.Proofs.Source.Same
import XPathScan.Proofs.Trivia.Steps

/-!
# Lexers over a view of a source

A lexer has to do with its source where a slot is filled, and nowhere else. So whatever it does over
a view of a source (`XPathScan.Source.View`) is the view of what it does over the source: the same
values and the same errors, and of the state it leaves only the source is another one. Every part of
a call says so in the same way, as an equation, and each follows from those of the parts it is made
of; the loops over blanks and comments follow their own recursion.

* `XPathScan.Lexer.map` – a lexer over a function of its source;
* `XPathScan.Lexer.ofSource_map`, `XPathScan.Lexer.next_map`, `XPathScan.Lexer.next?_map` – setting
  up a lexer and calling it go along with views.
-/

namespace XPathScan

variable {σ τ : Type} {n : Nat}

/-- A function applied to the state that a call leaves behind, whether it succeeds or fails. -/
def mapState {S S' ε α : Type} (g : S → S') : EStateM.Result ε S α → EStateM.Result ε S' α
  | .ok a s => .ok a (g s)
  | .error e s => .error e (g s)

@[simp]
theorem leaves_mapState {S S' ε α : Type} (g : S → S') (r : EStateM.Result ε S α) :
    Input.leaves (mapState g r) = g (Input.leaves r) := by
  cases r <;> rfl

/-- An input over a function of its source. -/
def Input.map (f : σ → τ) (i : Input σ n) : Input τ n where
  source := f i.source
  window := i.window

/-- A cursor over a function of its source. -/
def Cursor.map (f : σ → τ) (c : Cursor σ n) : Cursor τ n where
  input := c.input.map f
  place := c.place

/-- A lexer over a function of its source. -/
def Lexer.map (f : σ → τ) (l : Lexer σ n) : Lexer τ n where
  cursor := l.cursor.map f
  classes := l.classes
  dialect := l.dialect
  pool := l.pool
  phase := l.phase

@[simp]
theorem Cursor.peek_map (f : σ → τ) (c : Cursor σ n) : (c.map f).peek = c.peek := rfl

variable [Source σ] [Source τ] {f : σ → τ} (hf : Source.View f)

include hf

/-! ### Reads -/

namespace Input

/-- **Filling a slot.** -/
theorem load_map (side : Side) (epoch : Nat) (i : Input σ n) :
    load side epoch (i.map f) = mapState (map f) (load side epoch i) := by
  rw [load, load]
  cases hstop : i.window.stop with
  | some stop => simp only [map, hstop, mapState]
  | none =>
    have hread := hf.read_eq (i.window.slot side).data i.source
    simp only [map, hstop, hread]
    rcases Source.read (i.window.slot side).data i.source with ⟨⟨buffer, count⟩, source⟩
    cases count <;> rfl

/-- **Starting a lexeme.** -/
theorem mark_map (i : Input σ n) : mark (i.map f) = mapState (map f) (mark i) := by
  by_cases hsame : i.window.pos / n = (i.window.slot i.window.startSide).epoch
  · have hmark : mark i = .ok () i.startLexeme := if_pos hsame
    have hmark' : mark (i.map f) = .ok () (i.map f).startLexeme := if_pos hsame
    rw [hmark, hmark']
    rfl
  · have hload := load_map hf i.window.startSide (i.window.pos / n + 1)
      { i with window := { i.window with startSide := i.window.posSide } }
    generalize hi : load i.window.startSide (i.window.pos / n + 1)
      { i with window := { i.window with startSide := i.window.posSide } } = result at hload
    cases result with
    | ok _ i' =>
      rw [mark_of_load hsame hi, mark_of_load (i := i.map f) hsame hload]
      rfl
    | error failure i' =>
      rw [mark_of_load_error hsame hi, mark_of_load_error (i := i.map f) hsame hload]
      rfl

/-- A window on the first two epochs. -/
theorem ofSource_map (source : σ) (n : Nat) :
    ofSource (f source) n = (ofSource source n).map (map f) := by
  rw [ofSource, ofSource]
  split
  · next hn =>
    have hfirst := load_map hf .left 0 ({ source, window := Window.blank n hn } : Input σ n)
    simp only [map] at hfirst
    rw [hfirst]
    cases load .left 0 ({ source, window := Window.blank n hn } : Input σ n) with
    | error failure i => rfl
    | ok _ i =>
      simp only [mapState, load_map hf .right 1 i]
      cases load .right 1 i <;> rfl
  · rfl

end Input

/-! ### Blanks and comments -/

/-- Stepping over a byte. -/
theorem Cursor.skipByte_map (c : Cursor σ n) :
    (c.map f).skipByte = mapState (map f) c.skipByte := by
  rw [skipByte, skipByte, show (c.map f).input.window = c.input.window from rfl]
  cases c.input.window.advance 1 with
  | error o => rfl
  | ok w =>
    have hmark := Input.mark_map hf { c.input with window := w }
    simp only [Input.map] at hmark
    simp only [map, Input.map, hmark]
    cases Input.mark { c.input with window := w } <;> rfl

namespace Trivia

/-- Stepping over the inside of a comment. -/
theorem commentRest_map (start : Position) (depth : UInt32) (c : Cursor σ n) :
    commentRest start depth (c.map f) = mapState (Cursor.map f) (commentRest start depth c) := by
  fun_induction commentRest start depth c with
  | case1 c =>
    rw [commentRest_eq, if_pos rfl]
    rfl
  | case2 depth c hdepth hpeek =>
    rw [commentRest_eq]
    simp only [if_neg hdepth, Cursor.peek_map, hpeek, mapState]
  | case3 depth c hdepth b hpeek e c₁ hbyte =>
    rw [commentRest_eq]
    simp only [if_neg hdepth, Cursor.peek_map, hpeek, Cursor.skipByte_map hf, hbyte, mapState]
  | case4 depth c hdepth b hpeek _ c₁ hbyte hless hpair e c₂ hsecond =>
    rw [commentRest_eq]
    simp only [if_neg hdepth, Cursor.peek_map, hpeek, Cursor.skipByte_map hf, hbyte, hsecond,
      if_pos hpair, mapState]
  | case5 depth c hdepth b hpeek _ c₁ hbyte hfirst hpair _ c₂ hsecond hless ih =>
    rw [commentRest_eq]
    simp only [if_neg hdepth, Cursor.peek_map, hpeek, Cursor.skipByte_map hf, hbyte, hsecond,
      if_pos hpair, mapState, ih]
  | case6 depth c hdepth b hpeek _ c₁ hbyte hless hopen hclose e c₂ hsecond =>
    rw [commentRest_eq]
    simp only [if_neg hdepth, Cursor.peek_map, hpeek, Cursor.skipByte_map hf, hbyte, hsecond,
      if_neg hopen, if_pos hclose, mapState]
  | case7 depth c hdepth b hpeek _ c₁ hbyte hfirst hopen hclose _ c₂ hsecond hless ih =>
    rw [commentRest_eq]
    simp only [if_neg hdepth, Cursor.peek_map, hpeek, Cursor.skipByte_map hf, hbyte, hsecond,
      if_neg hopen, if_pos hclose, mapState, ih]
  | case8 depth c hdepth b hpeek _ c₁ hbyte hfirst hopen hclose hless ih =>
    rw [commentRest_eq]
    simp only [if_neg hdepth, Cursor.peek_map, hpeek, Cursor.skipByte_map hf, hbyte,
      if_neg hopen, if_neg hclose, mapState, ih]

/-- Stepping over a comment. -/
theorem comment_map (c : Cursor σ n) :
    comment (c.map f) = mapState (Cursor.map f) (comment c) := by
  rw [comment, comment, Cursor.skipByte_map hf]
  cases c.skipByte with
  | error e c₁ => rfl
  | ok _ c₁ =>
    simp only [mapState, Cursor.skipByte_map hf]
    cases c₁.skipByte with
    | error e c₂ => rfl
    | ok _ c₂ => exact commentRest_map hf c.position 1 c₂

omit [Source σ] [Source τ] hf in
/-- Looking whether a comment opens moves in the window only. -/
theorem opensComment_map (f : σ → τ) (c : Cursor σ n) :
    opensComment (c.map f) = mapState (Cursor.map f) (opensComment c) := by
  rw [opensComment, opensComment, show (c.map f).input.window = c.input.window from rfl]
  cases c.input.window.advance 1 with
  | error o => rfl
  | ok ahead =>
    simp only
    cases ahead.retreat 1 <;> rfl

/-- **Stepping over blanks and comments.** -/
theorem skip_map (classes : ByteClass) (version : Version) (flags : Flags) (c : Cursor σ n) :
    skip classes version flags (c.map f) =
      mapState (Cursor.map f) (skip classes version flags c) := by
  fun_induction skip classes version flags c with
  | case1 flags c hpeek =>
    rw [skip_eq, Cursor.peek_map, hpeek]
    rfl
  | case2 flags c b hpeek hspace e c₁ hbyte =>
    rw [skip_eq]
    simp only [Cursor.peek_map, hpeek, if_pos hspace, Cursor.skipByte_map hf, hbyte, mapState]
  | case3 flags c b hpeek hspace _ c₁ hbyte hless ih =>
    rw [skip_eq]
    simp only [Cursor.peek_map, hpeek, if_pos hspace, Cursor.skipByte_map hf, hbyte, mapState, ih]
  | case4 flags c b hpeek hspace hopen e c₁ hopens =>
    rw [skip_eq]
    simp only [Cursor.peek_map, hpeek, if_neg hspace, if_pos hopen, opensComment_map, hopens,
      mapState]
  | case5 flags c b hpeek hspace hopen c₁ hopens =>
    rw [skip_eq]
    simp only [Cursor.peek_map, hpeek, if_neg hspace, if_pos hopen, opensComment_map, hopens,
      mapState]
  | case6 flags c b hpeek hspace hopen c₁ hopens e c₂ hcomment =>
    rw [skip_eq]
    simp only [Cursor.peek_map, hpeek, if_neg hspace, if_pos hopen, opensComment_map, hopens,
      comment_map hf, hcomment, mapState]
  | case7 flags c b hpeek hspace hopen c₁ hopens _ c₂ hcomment hlook hless ih =>
    rw [skip_eq]
    simp only [Cursor.peek_map, hpeek, if_neg hspace, if_pos hopen, opensComment_map, hopens,
      comment_map hf, hcomment, mapState, ih]
  | case8 flags c b hpeek hspace hopen =>
    rw [skip_eq]
    simp only [Cursor.peek_map, hpeek, if_neg hspace, if_neg hopen, mapState]

end Trivia

/-! ### Calls -/

namespace Lexer

/-- **Setting up a lexer.** -/
theorem ofSource_map (source : σ) (settings : Settings) (classes : ByteClass) :
    ofSource (f source) settings classes = (ofSource source settings classes).map (map f) := by
  rw [ofSource, ofSource]
  cases settings.validate with
  | error e => rfl
  | ok _ =>
    simp only
    rw [Input.ofSource_map hf]
    cases Input.ofSource source settings.bufferSize <;> rfl

/-- One scan. -/
theorem scan_map (l : Lexer σ n) : (l.map f).scan = mapState (map f) l.scan := by
  have hskip : Trivia.skip (l.map f).classes (l.map f).dialect.version .none (l.map f).cursor =
      mapState (Cursor.map f) (Trivia.skip l.classes l.dialect.version .none l.cursor) :=
    Trivia.skip_map hf _ _ _ _
  rw [scan, scan, hskip]
  cases Trivia.skip l.classes l.dialect.version .none l.cursor with
  | error e c => rfl
  | ok trivia c =>
    simp only [mapState, map, Cursor.map, Input.map]
    -- The token is scanned in the window, which is the same.
    cases Scan.token l.dialect l.classes c.input.window with
    | error e w => rfl
    | ok kind w =>
      have hmark := Input.mark_map hf { c.input with window := w }
      simp only [Input.map] at hmark
      simp only [hmark]
      cases Input.mark { c.input with window := w } <;> rfl

/-- **The next token.** -/
theorem next_map (l : Lexer σ n) : (l.map f).next = mapState (map f) l.next := by
  rw [next, next, scan_map hf, show (l.map f).phase = l.phase from rfl]
  split
  · rfl
  · cases l.scan with
    | error e l' => rfl
    | ok t l' =>
      simp only [mapState]
      split <;> rfl

/-- **The next token before the end.** -/
theorem next?_map (l : Lexer σ n) : (l.map f).next? = (l.next?.1, l.next?.2.map f) := by
  rw [next?, next?, next_map hf, show (l.map f).phase = l.phase from rfl]
  split
  · cases l.next with
    | error e l' => rfl
    | ok t l' =>
      simp only [mapState]
      split <;> rfl
  · rfl

/-- Any call leaves the view of what it leaves. -/
theorem leave_map (l : Lexer σ n) (c : Call) : (l.map f).leave c = (l.leave c).map f := by
  cases c with
  | next => rw [leave, leave, next_map hf, leaves_mapState]
  | iterate => rw [leave, leave, next?_map hf]
  | release t => rfl

end Lexer

end XPathScan
