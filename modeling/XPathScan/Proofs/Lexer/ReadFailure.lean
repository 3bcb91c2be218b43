import Mathlib.Data.Nat.Find
import XPathScan.Proofs.Input.Fed
import XPathScan.Proofs.Lexer.Safety

/-!
# A failed read does not spoil tokens

A lexer reads ahead, at places that have nothing to do with tokens: in the middle of blanks or of a
comment, or behind a token that has been scanned already. Wherever a read fails, the call gives the
failure, and what was given before is what an undisturbed lexer gives.

A lexer over a source that is going to fail is run beside one over another source with which it runs
(`XPathScan.Source.RunsWith`). As long as no read fails the two are the same but for the source.
Each part of a call keeps it so, or comes to the read that fails and passes the failure on
(`XPathScan.Alike`); the one place where the two can part is the start of a lexeme
(`XPathScan.Input.Fed.mark`). Where the failing source brings the beginning of a text, the other one
is the same source mended with any text that begins so, and it answers as any source of that text
does.

* `XPathScan.Trivia.alike_skip` and `XPathScan.Lexer.alike_next` – one walk and one call;
* `XPathScan.Lexer.Beside.agreesUntilFailure` – all calls, up to the one that comes to the failure;
* `XPathScan.Lexer.Follows.answer_eq_answer` – two lexers with buffers of one size over one text;
* `XPathScan.Lexer.answers_until_failure` – the answers over a source that fails.
-/

namespace XPathScan

variable {σ τ : Type} [Source σ] [Source τ] {n : Nat} {source : σ} {failure : ReadFailure}
  {j k : Nat} {other : τ}

/-! ### The same over another source -/

/-- A cursor with another source. -/
def Cursor.withSource (c : Cursor σ n) (other : τ) : Cursor τ n where
  input := c.input.withSource other
  place := c.place

/-- A lexer with another source. -/
def Lexer.withSource (l : Lexer σ n) (other : τ) : Lexer τ n where
  cursor := l.cursor.withSource other
  classes := l.classes
  dialect := l.dialect
  pool := l.pool
  phase := l.phase

/-! ### Parts of a call -/

variable {c : Cursor σ n}

section SkipByte

variable {w : Window n} {input : Input σ n} (hmove : c.input.window.advance 1 = .ok w)

include hmove

theorem Cursor.skipByte_of_mark (hmark : Input.mark { c.input with window := w } = .ok () input) :
    c.skipByte = .ok () { input, place := c.place.pastTrivia c.input.window.current } := by
  rw [skipByte, hmove]
  simp only [hmark]

theorem Cursor.skipByte_of_mark_error
    (hmark : Input.mark { c.input with window := w } = .error failure input) :
    c.skipByte = .error (.read failure)
      { input, place := c.place.pastTrivia c.input.window.current } := by
  rw [skipByte, hmove]
  simp only [hmark]

end SkipByte

/-- Stepping over a byte. -/
theorem Cursor.alike_skipByte (h : c.input.Fed source failure j k other) :
    Alike source failure j Cursor.input Cursor.withSource (.read failure) c.skipByte
      (c.withSource other).skipByte := by
  cases hmove : c.input.window.advance 1 with
  | error o =>
    have hskip : c.skipByte = .error (.configuration (.overflow o)) c := by rw [skipByte, hmove]
    have hskip' : (c.withSource other).skipByte =
        .error (.configuration (.overflow o)) (c.withSource other) := by
      rw [skipByte, show (c.withSource other).input.window.advance 1 = .error o from hmove]
    rw [hskip, hskip']
    exact .error h.le_limit h.reads
  | ok w =>
    obtain ⟨-, -, -, -, -, -, hstop⟩ := Window.seek_eq_ok hmove
    have hmarks := (h.of_stop_eq hstop).mark
    generalize hmark : Input.mark { c.input with window := w } = result at hmarks
    generalize hmark' : Input.mark (Input.withSource { c.input with window := w } other) =
      result' at hmarks
    cases hmarks with
    | ok hfed =>
      rw [skipByte_of_mark hmove hmark, skipByte_of_mark (c := c.withSource other) hmove hmark']
      exact .ok hfed
    | error hle hreads =>
      rw [skipByte_of_mark_error hmove hmark,
        skipByte_of_mark_error (c := c.withSource other) hmove hmark']
      exact .error hle hreads
    | lost hreads =>
      rw [skipByte_of_mark_error hmove hmark]
      exact .lost hreads

namespace Trivia

omit [Source σ] in
/-- One step inside a comment on the other side, behind its first byte. -/
theorem commentRest_withSource {c₁ : Cursor σ n} {other₁ : τ} {b : UInt8} {depth : UInt32}
    (hdepth : depth ≠ 0) (hpeek : c.peek = some b)
    (hbyte : (c.withSource other).skipByte = .ok () (c₁.withSource other₁)) (start : Position) :
    commentRest start depth (c.withSource other) =
      if b = Ascii.leftParen ∧ c₁.peek = some Ascii.colon then
        match (c₁.withSource other₁).skipByte with
        | .error e c₂ => .error e c₂
        | .ok _ c₂ => commentRest start (depth + 1) c₂
      else if b = Ascii.colon ∧ c₁.peek = some Ascii.rightParen then
        match (c₁.withSource other₁).skipByte with
        | .error e c₂ => .error e c₂
        | .ok _ c₂ => commentRest start (depth - 1) c₂
      else commentRest start depth (c₁.withSource other₁) := by
  have hpeek' : (c.withSource other).peek = some b := hpeek
  rw [commentRest_eq]
  simp only [if_neg hdepth, hpeek', hbyte]
  cases (c₁.withSource other₁).skipByte <;> rfl

/-- Stepping over the inside of a comment. -/
theorem alike_commentRest (h : c.input.Fed source failure j k other) (start : Position)
    (depth : UInt32) :
    Alike source failure j Cursor.input Cursor.withSource (.read failure)
      (commentRest start depth c) (commentRest start depth (c.withSource other)) := by
  fun_induction commentRest start depth c generalizing other k with
  | case1 c =>
    rw [commentRest_eq, if_pos rfl]
    exact .ok h
  | case2 depth c hdepth hpeek =>
    have hpeek' : (c.withSource other).peek = none := hpeek
    rw [commentRest_eq, if_neg hdepth, hpeek']
    exact .error h.le_limit h.reads
  | case3 depth c hdepth b hpeek e c₁ hbyte =>
    have hpeek' : (c.withSource other).peek = some b := hpeek
    refine (hbyte ▸ Cursor.alike_skipByte h).of_error fun e' c' herror => ?_
    rw [commentRest_eq]
    simp only [if_neg hdepth, hpeek', herror]
  | case4 depth c hdepth b hpeek _ c₁ hbyte hless hpair e c₂ hsecond =>
    obtain ⟨other₁, k₁, hbyte', h₁⟩ := (hbyte ▸ Cursor.alike_skipByte h).of_ok
    refine (hsecond ▸ Cursor.alike_skipByte h₁).of_error fun e' c' herror => ?_
    rw [commentRest_withSource hdepth hpeek hbyte', if_pos hpair, herror]
  | case5 depth c hdepth b hpeek _ c₁ hbyte hfirst hpair _ c₂ hsecond hless ih =>
    obtain ⟨other₁, k₁, hbyte', h₁⟩ := (hbyte ▸ Cursor.alike_skipByte h).of_ok
    obtain ⟨other₂, k₂, hsecond', h₂⟩ := (hsecond ▸ Cursor.alike_skipByte h₁).of_ok
    rw [commentRest_withSource hdepth hpeek hbyte', if_pos hpair, hsecond']
    exact ih h₂
  | case6 depth c hdepth b hpeek _ c₁ hbyte hless hopen hclose e c₂ hsecond =>
    obtain ⟨other₁, k₁, hbyte', h₁⟩ := (hbyte ▸ Cursor.alike_skipByte h).of_ok
    refine (hsecond ▸ Cursor.alike_skipByte h₁).of_error fun e' c' herror => ?_
    rw [commentRest_withSource hdepth hpeek hbyte', if_neg hopen, if_pos hclose, herror]
  | case7 depth c hdepth b hpeek _ c₁ hbyte hfirst hopen hclose _ c₂ hsecond hless ih =>
    obtain ⟨other₁, k₁, hbyte', h₁⟩ := (hbyte ▸ Cursor.alike_skipByte h).of_ok
    obtain ⟨other₂, k₂, hsecond', h₂⟩ := (hsecond ▸ Cursor.alike_skipByte h₁).of_ok
    rw [commentRest_withSource hdepth hpeek hbyte', if_neg hopen, if_pos hclose, hsecond']
    exact ih h₂
  | case8 depth c hdepth b hpeek _ c₁ hbyte hfirst hopen hclose hless ih =>
    obtain ⟨other₁, k₁, hbyte', h₁⟩ := (hbyte ▸ Cursor.alike_skipByte h).of_ok
    rw [commentRest_withSource hdepth hpeek hbyte', if_neg hopen, if_neg hclose]
    exact ih h₁

/-- Stepping over a comment. -/
theorem alike_comment (h : c.input.Fed source failure j k other) :
    Alike source failure j Cursor.input Cursor.withSource (.read failure) (comment c)
      (comment (c.withSource other)) := by
  rw [comment]
  split
  · next hbyte =>
    refine (hbyte ▸ Cursor.alike_skipByte h).of_error fun e' c' herror => ?_
    rw [comment, herror]
  · next c₁ hbyte =>
    obtain ⟨other₁, k₁, hbyte', h₁⟩ := (hbyte ▸ Cursor.alike_skipByte h).of_ok
    split
    · next hsecond =>
      refine (hsecond ▸ Cursor.alike_skipByte h₁).of_error fun e' c' herror => ?_
      rw [comment]
      simp only [hbyte', herror]
    · next c₂ hsecond =>
      obtain ⟨other₂, k₂, hsecond', h₂⟩ := (hsecond ▸ Cursor.alike_skipByte h₁).of_ok
      rw [comment]
      simp only [hbyte', hsecond']
      exact alike_commentRest h₂ c.position 1

/-- Looking whether a comment opens moves in the window only. -/
theorem alike_opensComment (h : c.input.Fed source failure j k other) :
    Alike source failure j Cursor.input Cursor.withSource (.read failure) (opensComment c)
      (opensComment (c.withSource other)) := by
  cases hmove : c.input.window.advance 1 with
  | error o =>
    have hmove' : (c.withSource other).input.window.advance 1 = .error o := hmove
    rw [opensComment, opensComment, hmove, hmove']
    exact .error h.le_limit h.reads
  | ok ahead =>
    have hmove' : (c.withSource other).input.window.advance 1 = .ok ahead := hmove
    obtain ⟨-, -, -, -, -, -, hstop⟩ := Window.seek_eq_ok hmove
    rw [opensComment, opensComment, hmove, hmove']
    simp only
    cases hback : ahead.retreat 1 with
    | error f => exact .error h.le_limit h.reads
    | ok back =>
      obtain ⟨-, -, -, hstop'⟩ := (Window.Moves.retreat hback).frame
      exact .ok (h.of_stop_eq (hstop'.trans hstop))

/-- **Stepping over blanks and comments.** -/
theorem alike_skip (h : c.input.Fed source failure j k other) (classes : ByteClass)
    (version : Version) (flags : Flags) :
    Alike source failure j Cursor.input Cursor.withSource (.read failure)
      (skip classes version flags c) (skip classes version flags (c.withSource other)) := by
  fun_induction skip classes version flags c generalizing other k with
  | case1 flags c hpeek =>
    have hpeek' : (c.withSource other).peek = none := hpeek
    rw [skip_eq, hpeek']
    exact .ok h
  | case2 flags c b hpeek hspace e c₁ hbyte =>
    have hpeek' : (c.withSource other).peek = some b := hpeek
    refine (hbyte ▸ Cursor.alike_skipByte h).of_error fun e' c' herror => ?_
    rw [skip_eq, hpeek']
    simp only [if_pos hspace, herror]
  | case3 flags c b hpeek hspace _ c₁ hbyte hless ih =>
    have hpeek' : (c.withSource other).peek = some b := hpeek
    obtain ⟨other₁, k₁, hbyte', h₁⟩ := (hbyte ▸ Cursor.alike_skipByte h).of_ok
    rw [skip_eq classes version flags (c.withSource other), hpeek']
    simp only [if_pos hspace, hbyte']
    exact ih h₁
  | case4 flags c b hpeek hspace hopen e c₁ hopens =>
    have hpeek' : (c.withSource other).peek = some b := hpeek
    refine (hopens ▸ alike_opensComment h).of_error fun e' c' herror => ?_
    rw [skip_eq, hpeek']
    simp only [if_neg hspace, if_pos hopen, herror]
  | case5 flags c b hpeek hspace hopen c₁ hopens =>
    have hpeek' : (c.withSource other).peek = some b := hpeek
    obtain ⟨other₁, k₁, hopens', h₁⟩ := (hopens ▸ alike_opensComment h).of_ok
    rw [skip_eq, hpeek']
    simp only [if_neg hspace, if_pos hopen, hopens']
    exact .ok h₁
  | case6 flags c b hpeek hspace hopen c₁ hopens e c₂ hcomment =>
    have hpeek' : (c.withSource other).peek = some b := hpeek
    obtain ⟨other₁, k₁, hopens', h₁⟩ := (hopens ▸ alike_opensComment h).of_ok
    refine (hcomment ▸ alike_comment h₁).of_error fun e' c' herror => ?_
    rw [skip_eq, hpeek']
    simp only [if_neg hspace, if_pos hopen, hopens', herror]
  | case7 flags c b hpeek hspace hopen c₁ hopens _ c₂ hcomment hlook hless ih =>
    have hpeek' : (c.withSource other).peek = some b := hpeek
    obtain ⟨other₁, k₁, hopens', h₁⟩ := (hopens ▸ alike_opensComment h).of_ok
    obtain ⟨other₂, k₂, hcomment', h₂⟩ := (hcomment ▸ alike_comment h₁).of_ok
    rw [skip_eq classes version flags (c.withSource other), hpeek']
    simp only [if_neg hspace, if_pos hopen, hopens', hcomment']
    exact ih h₂
  | case8 flags c b hpeek hspace hopen =>
    have hpeek' : (c.withSource other).peek = some b := hpeek
    rw [skip_eq, hpeek']
    simp only [if_neg hspace, if_neg hopen]
    exact .ok h

end Trivia

namespace Lexer

variable {l : Lexer σ n}

section Unfolding

variable {c : Cursor σ n} {trivia : Flags}
  (hskip : Trivia.skip l.classes l.dialect.version .none l.cursor = .ok trivia c)

include hskip

theorem scan_of_token_error {e : ScanError} {w : Window n}
    (hscan : Scan.token l.dialect l.classes c.input.window = .error e w) :
    l.scan = .error (ofScanError c.position e)
      { l with cursor := { c with input := { c.input with window := w } } } := by
  rw [scan, hskip]
  simp only [hscan]

theorem scan_of_mark_error {kind : Kind} {w : Window n} {input : Input σ n}
    (hscan : Scan.token l.dialect l.classes c.input.window = .ok kind w)
    (hmark : Input.mark { c.input with window := w } = .error failure input) :
    ∃ l', l.scan = .error (.read failure) l' ∧ l'.cursor.input = input := by
  rw [scan, hskip]
  simp only [hscan, hmark]
  exact ⟨_, rfl, rfl⟩

end Unfolding

section Scan

variable (h : l.cursor.input.Fed source failure j k other)

include h

/-- **One scan.** -/
theorem alike_scan (hsteady : l.Steady source) :
    Alike source failure j (fun l : Lexer σ n => l.cursor.input) Lexer.withSource (.read failure)
      l.scan (l.withSource other).scan := by
  have hskips := Trivia.alike_skip h l.classes l.dialect.version .none
  cases hskip : Trivia.skip l.classes l.dialect.version .none l.cursor with
  | error e c =>
    rw [scan_of_unclosed hskip]
    rw [hskip] at hskips
    generalize hskip' : Trivia.skip l.classes l.dialect.version .none (l.cursor.withSource other) =
      result at hskips
    cases hskips with
    | error hle hreads =>
      rw [scan_of_unclosed (l := l.withSource other) hskip']
      exact .error hle hreads
    | lost hreads => exact .lost hreads
  | ok trivia c =>
    rw [hskip] at hskips
    obtain ⟨other₁, k₁, hskip', hfed⟩ := hskips.of_ok
    have hc := (Trivia.steadily_skip hsteady.input _ _ _).of_ok hskip
    have hsettled := Trivia.settled_skip hskip hsteady.ready.settled
    -- The token is scanned in the same window, and nothing is read for it.
    cases hscan : Scan.token l.dialect l.classes c.input.window with
    | error e w =>
      rw [scan_of_token_error hskip hscan,
        scan_of_token_error (l := l.withSource other) hskip' hscan]
      exact .error hfed.le_limit hfed.reads
    | ok kind w =>
      have hmarks := (hfed.of_stop_eq (Scan.stop_token hc hsettled hscan)).mark
      generalize hmark : Input.mark { c.input with window := w } = result at hmarks
      generalize hmark' : Input.mark (Input.withSource { c.input with window := w } other₁) =
        result' at hmarks
      cases hmarks with
      | ok hfed' =>
        rw [scan_of_token hskip hscan hmark,
          scan_of_token (l := l.withSource other) hskip' hscan hmark']
        exact .ok hfed'
      | error hle hreads =>
        obtain ⟨l₁, hl, rfl⟩ := scan_of_mark_error hskip hscan hmark
        obtain ⟨l₁', hl', -⟩ := scan_of_mark_error (l := l.withSource other) hskip' hscan hmark'
        rw [hl, hl']
        exact .error hle hreads
      | lost hreads =>
        obtain ⟨l₁, hl, rfl⟩ := scan_of_mark_error hskip hscan hmark
        rw [hl]
        exact .lost hreads

/-- **One call.** -/
theorem alike_next (hsound : l.Sound source) :
    Alike source failure j (fun l : Lexer σ n => l.cursor.input) Lexer.withSource (.read failure)
      l.next (l.withSource other).next := by
  by_cases hphase : l.phase = .failed
  · rw [next_of_failed hphase, next_of_failed (l := l.withSource other) hphase]
    exact .error h.le_limit h.reads
  · have hphase' : (l.withSource other).phase ≠ .failed := hphase
    have hscans := alike_scan h (hsound.steady hphase)
    rw [next, next, if_neg hphase, if_neg hphase']
    generalize l.scan = result, (l.withSource other).scan = result' at hscans
    cases hscans with
    | @ok t l₁ other₁ k₁ hfed =>
      cases heof : t.isEof with
      | true =>
        simp only [heof, ↓reduceIte]
        exact .ok hfed
      | false =>
        simp only [heof]
        exact .ok hfed
    | error hle hreads => exact .error hle hreads
    | lost hreads => exact .lost hreads

end Scan

/-! ### All calls -/

/-- **Two lexers side by side**: the same but for the source; or both have failed. So many reads
have been made at most, and none of them was the one that fails. -/
def Beside (source : σ) (failure : ReadFailure) (j : Nat) (l : Lexer σ n) (l' : Lexer τ n) : Prop :=
  (∃ other k, l.cursor.input.Fed source failure j k other ∧ l' = l.withSource other ∧
      l.Sound source) ∨
    l.phase = .failed ∧ l'.phase = .failed ∧ ∃ k ≤ j, Source.Reads n source k l.source

/-- **What has to become of one call on each of two lexers side by side.** -/
structure StaysBeside (source : σ) (failure : ReadFailure) (j : Nat) (l : Lexer σ n)
    (l' : Lexer τ n) : Prop where
  /-- They answer alike. -/
  answer_eq : l.answer 0 = l'.answer 0
  /-- They are side by side again. -/
  beside : (Input.leaves l.next).Beside source failure j (Input.leaves l'.next)

/-- **What becomes of a call that comes to the failing read.** -/
structure Loses (source : σ) (failure : ReadFailure) (j : Nat) (l : Lexer σ n) : Prop where
  /-- It gives the failure. -/
  answer_eq : l.answer 0 = .error (.read failure)
  /-- The read was made, and is the last one. -/
  reads : Source.Reads n source (j + 1) (Input.leaves l.next).source

section Beside

variable {l' : Lexer τ n}

/-- **One call keeps two lexers side by side**, or loses the one over the failing source. -/
theorem Beside.next (h : l.Beside source failure j l') :
    l.StaysBeside source failure j l' ∨ l.Loses source failure j := by
  rcases h with ⟨other, k, hfed, rfl, hsound⟩ | ⟨hphase, hphase', hreads⟩
  · have hnext := alike_next hfed hsound
    have hleft := hsound.next
    generalize hl : l.next = result at hnext hleft
    generalize hl' : (l.withSource other).next = result' at hnext
    cases hnext with
    | @ok t l₁ other₁ k₁ hfed₁ =>
      refine Or.inl ⟨by rw [answer, answer, hl, hl'], Or.inl ?_⟩
      rw [hl, hl']
      exact ⟨other₁, k₁, hfed₁, rfl, hleft⟩
    | @error e l₁ l₁' k₁ hle hreads =>
      refine Or.inl ⟨by rw [answer, answer, hl, hl'], Or.inr ?_⟩
      rw [hl, hl']
      exact ⟨phase_of_next_error hl, phase_of_next_error hl', k₁, hle, hreads⟩
    | @lost l₁ _ hreads =>
      refine Or.inr ⟨by rw [answer, hl], ?_⟩
      rw [hl]
      exact hreads
  · refine Or.inl ⟨?_, Or.inr ?_⟩
    · rw [answer_of_failed hphase, answer_of_failed hphase']
    · rw [next_of_failed hphase, next_of_failed hphase']
      exact ⟨hphase, hphase', hreads⟩

theorem Beside.reads (h : l.Beside source failure j l') :
    ∃ k ≤ j, Source.Reads n source k l.source := by
  rcases h with ⟨other, k, hfed, -⟩ | ⟨-, -, hreads⟩
  · exact ⟨k, hfed.le_limit, hfed.reads⟩
  · exact hreads

/-- The answer to a call is the first one of the lexer after the calls before it. -/
theorem answer_eq_answer_after (l : Lexer σ n) (i : Nat) :
    l.answer i = (l.after (List.replicate i .next)).answer 0 := by
  induction i generalizing l with
  | zero => rfl
  | succ i ih => exact ih (Input.leaves l.next)

theorem after_replicate_succ (l : Lexer σ n) (i : Nat) :
    l.after (List.replicate (i + 1) .next) =
      Input.leaves (l.after (List.replicate i .next)).next := by
  rw [List.replicate_succ', after_append]
  rfl

/-- **As long as no call is lost two lexers stay side by side.** -/
theorem Beside.after (h : l.Beside source failure j l') {i : Nat}
    (hlost : ∀ m < i, ¬(l.after (List.replicate m .next)).Loses source failure j) :
    (l.after (List.replicate i .next)).Beside source failure j
      (l'.after (List.replicate i .next)) := by
  induction i with
  | zero => exact h
  | succ i ih =>
    have hbeside := ih fun m hm => hlost m (Nat.lt_succ_of_lt hm)
    rw [after_replicate_succ, after_replicate_succ]
    exact (hbeside.next.resolve_right (hlost i (Nat.lt_succ_self i))).beside

/-- **The first calls answer as those of another lexer do**, and no read has failed for them. -/
structure AgreesUpTo (source : σ) (j : Nat) (l : Lexer σ n) (l' : Lexer τ n) (m : Nat) : Prop where
  /-- Each of the calls gives the same. -/
  answer_eq : ∀ i < m, l.answer i = l'.answer i
  /-- So many reads have been made for them at most. -/
  reads : ∃ k ≤ j, Source.Reads n source k (l.after (List.replicate m .next)).source

/-- **A call that gives the failure of a read**, and with it the last news. -/
structure FailsAt (source : σ) (failure : ReadFailure) (j : Nat) (l : Lexer σ n) (m : Nat) :
    Prop where
  /-- The call gives the failure. -/
  answer_eq : l.answer m = .error (.read failure)
  /-- It has come to the read that fails, and made no other after it. -/
  reads : Source.Reads n source (j + 1) (l.after (List.replicate (m + 1) .next)).source
  /-- The calls after it report that there was an error. -/
  poisoned : ∀ i > m, l.answer i = .error .poisoned

/-- A call that is lost is the one that gives the failure. -/
theorem FailsAt.of_loses {m : Nat}
    (h : (l.after (List.replicate m .next)).Loses source failure j) :
    l.FailsAt source failure j m := by
  have hanswer : l.answer m = .error (.read failure) :=
    (answer_eq_answer_after l m).trans h.answer_eq
  refine ⟨hanswer, ?_, fun i hi => answer_of_error hanswer hi⟩
  rw [after_replicate_succ]
  exact h.reads

/-- **Up to the call that is lost the answers are those of the lexer beside.** -/
theorem Beside.agreesUpTo (h : l.Beside source failure j l') {m : Nat}
    (hlost : ∀ i < m, ¬(l.after (List.replicate i .next)).Loses source failure j) :
    l.AgreesUpTo source j l' m := by
  refine ⟨fun i hi => ?_, (h.after hlost).reads⟩
  have hbeside := h.after fun i' hi' => hlost i' (Nat.lt_trans hi' hi)
  rw [answer_eq_answer_after l, answer_eq_answer_after l']
  exact (hbeside.next.resolve_right (hlost i hi)).answer_eq

/-- **What becomes of a lexer over a source that fails**, measured by another one: it answers alike
for ever, and never comes to the read that fails; or it does so up to some call, which gives the
failure. -/
def AgreesUntilFailure (source : σ) (failure : ReadFailure) (j : Nat) (l : Lexer σ n)
    (l' : Lexer τ n) : Prop :=
  (∀ m, l.AgreesUpTo source j l' m) ∨
    ∃ m, l.AgreesUpTo source j l' m ∧ l.FailsAt source failure j m

theorem AgreesUntilFailure.congr {υ : Type} [Source υ] {l'' : Lexer υ n}
    (h : l.AgreesUntilFailure source failure j l') (hsame : ∀ i, l'.answer i = l''.answer i) :
    l.AgreesUntilFailure source failure j l'' := by
  have hagrees : ∀ m, l.AgreesUpTo source j l' m → l.AgreesUpTo source j l'' m := fun m hm =>
    ⟨fun i hi => (hm.answer_eq i hi).trans (hsame i), hm.reads⟩
  rcases h with hever | ⟨m, hm, hfails⟩
  · exact Or.inl fun m => hagrees m (hever m)
  · exact Or.inr ⟨m, hagrees m hm, hfails⟩

/-- **Two lexers side by side agree until the read that fails.** -/
theorem Beside.agreesUntilFailure (h : l.Beside source failure j l') :
    l.AgreesUntilFailure source failure j l' := by
  by_cases hloses : ∃ m, (l.after (List.replicate m .next)).Loses source failure j
  · -- The first call that is lost is the one in question.
    classical
    exact Or.inr ⟨Nat.find hloses, h.agreesUpTo fun i hi => Nat.find_min hloses hi,
      .of_loses (Nat.find_spec hloses)⟩
  · exact Or.inl fun m => h.agreesUpTo fun i _ hlost => hloses ⟨i, hlost⟩

end Beside

/-! ### Setting up -/

/-- A lexer is set up by the two reads that fill its window. -/
theorem ofSource_of_load (hn : 0 < n) {i₁ i₂ : Input σ n}
    (hfirst : Input.load .left 0 ({ source, window := Window.blank n hn } : Input σ n) = .ok () i₁)
    (hsecond : Input.load .right 1 i₁ = .ok () i₂) (version : Version) (classes : ByteClass) :
    ofSource source { bufferSize := n, version } classes =
      .ok { cursor := { input := i₂ }, classes, dialect := .ofVersion version } := by
  have hvalid : Settings.validate { bufferSize := n, version } = .ok () :=
    if_neg (Nat.ne_of_gt hn)
  rw [ofSource, hvalid]
  simp only [Input.ofSource, dif_pos hn, hfirst, hsecond]

/-- Both reads have succeeded if a lexer has been set up. -/
theorem load_of_ofSource {version : Version} {classes : ByteClass}
    (h : ofSource source { bufferSize := n, version } classes = .ok l) :
    ∃ hn i₁ i₂,
      Input.load .left 0 ({ source, window := Window.blank n hn } : Input σ n) = .ok () i₁ ∧
      Input.load .right 1 i₁ = .ok () i₂ := by
  rw [ofSource] at h
  split at h
  · cases h
  · split at h
    · cases h
    · next i hinput =>
      obtain ⟨hn, i₁, hfirst, hsecond⟩ := Input.loads_of_ofSource hinput
      exact ⟨hn, i₁, i, hfirst, hsecond⟩

/-- **A lexer over a source that runs with another one** for two reads or more is set up beside the
one over the other source. -/
theorem beside_ofSource {l' : Lexer τ n} (hruns : Source.RunsWith n failure j source other)
    (hj : 2 ≤ j) {version : Version} {classes : ByteClass}
    (hof' : ofSource other { bufferSize := n, version } classes = .ok l') :
    ∃ l : Lexer σ n, ofSource source { bufferSize := n, version } classes = .ok l ∧
      l.Beside source failure j l' := by
  obtain ⟨hn, i₁', i₂', hfirst', hsecond'⟩ := load_of_ofSource hof'
  have hblank : Input.Fed source failure j 0
      ({ source, window := Window.blank n hn } : Input σ n) other :=
    ⟨.zero, Nat.zero_le j, fun _ => hruns⟩
  rcases hblank.load .left 0 with
    ⟨i₁, other₁, k₁, hfirst, hsame, hfed₁, hk₁⟩ | ⟨e, _, _, -, herror, -⟩ | ⟨hnone, -⟩
  · obtain rfl : i₁' = i₁.withSource other₁ := by simpa using hfirst'.symm.trans hsame
    rcases hfed₁.load .right 1 with
      ⟨i₂, other₂, k₂, hsecond, hsame₂, hfed₂, -⟩ | ⟨e, _, _, -, herror, -⟩ | ⟨hnone, -⟩
    · have hof := ofSource_of_load hn hfirst hsecond version classes
      have hsame' := ofSource_of_load hn hfirst' hsame₂ version classes
      refine ⟨_, hof, Or.inl ⟨other₂, k₂, hfed₂, ?_, sound_ofSource hof⟩⟩
      exact Except.ok.inj (hof'.symm.trans hsame')
    · simp [hsecond'] at herror
    · omega
  · cases hfirst'.symm.trans herror
  · omega

/-! ### The same text -/

/-- **What has to become of one call on each of two lexers at the same point of a text**: both give
the same token and come to the same point, or both fail alike. -/
inductive Together {τ : Type} [Source τ] (s : Plain) :
    EStateM.Result LexError (Lexer σ n) Token → EStateM.Result LexError (Lexer τ n) Token → Prop
  /-- Both give a token. -/
  | token {t : Token} {q : Point} {l : Lexer σ n} {l' : Lexer τ n} : l.Follows s q →
      l.phase ≠ .failed → l'.Follows s q → l'.phase ≠ .failed → Together s (.ok t l) (.ok t l')
  /-- Both fail. -/
  | error {e : LexError} {l : Lexer σ n} {l' : Lexer τ n} : Together s (.error e l) (.error e l')

section Together

variable {τ : Type} [Source τ] {l' : Lexer τ n} {s : Plain} {p : Point}

/-- **One call on each of two lexers with buffers of one size**, at the same point of a text. -/
theorem Follows.together_next (h : l.Follows s p) (hphase : l.phase ≠ .failed) (h' : l'.Follows s p)
    (hphase' : l'.phase ≠ .failed) : Together s l.next l'.next := by
  by_cases hfits : (s.look p).Fits n s.text
  · rcases hfound : (s.look p).found with e | ⟨t, q⟩
    · obtain ⟨l₁, hl⟩ := h.next_error hphase hfits hfound
      obtain ⟨l₁', hl'⟩ := h'.next_error hphase' hfits hfound
      rw [hl, hl']
      exact .error
    · obtain ⟨l₁, hl, hfollows, hl₁⟩ := h.next_token hphase hfits hfound
      obtain ⟨l₁', hl', hfollows', hl₁'⟩ := h'.next_token hphase' hfits hfound
      rw [hl, hl']
      refine .token hfollows ?_ hfollows' ?_
      · rw [hl₁]
        split
        · nofun
        · exact hphase
      · rw [hl₁']
        split
        · nofun
        · exact hphase'
  · obtain ⟨l₁, hl⟩ := h.next_overflow hphase hfits
    obtain ⟨l₁', hl'⟩ := h'.next_overflow hphase' hfits
    rw [hl, hl']
    exact .error

/-- **Two lexers with buffers of one size at the same point of a text** give the same answers,
overflows included. -/
theorem Follows.answer_eq_answer (h : l.Follows s p) (hphase : l.phase ≠ .failed)
    (h' : l'.Follows s p) (hphase' : l'.phase ≠ .failed) (i : Nat) :
    l.answer i = l'.answer i := by
  induction i generalizing l l' p with
  | zero =>
    have hnext := h.together_next hphase h' hphase'
    rw [answer, answer]
    generalize l.next = result, l'.next = result' at hnext
    cases hnext with
    | token => rfl
    | error => rfl
  | succ i ih =>
    have hnext := h.together_next hphase h' hphase'
    rw [answer, answer]
    generalize hl : l.next = result, hl' : l'.next = result' at hnext
    cases hnext with
    | token h₁ hphase₁ h₁' hphase₁' => exact ih h₁ hphase₁ h₁' hphase₁'
    | error =>
      have hfailed := answer_of_failed (phase_of_next_error hl) i
      have hfailed' := answer_of_failed (phase_of_next_error hl') i
      exact hfailed.trans hfailed'.symm

end Together

/-- **A failed read does not spoil tokens.** Let a source bring the beginning of a text by its first
reads, two or more, and fail at the next one. Then a lexer over it answers as one with buffers of
that size over any text with the same beginning, from a source that does not fail: for ever, if it
never comes to the read that fails; and otherwise up to some call, which gives the failure. -/
theorem answers_until_failure {source' : τ} {text text' : List UInt8} (hj : 2 ≤ j) (hn : 0 < n)
    (hsource : Source.FailsAfter n failure j source text) (hsource' : Source.Faithful source' text')
    (hsame : text.take (j * n) = text'.take (j * n)) (version : Version) (classes : ByteClass) :
    ∃ (l : Lexer σ n) (l' : Lexer τ n),
      ofSource source { bufferSize := n, version } classes = .ok l ∧
      ofSource source' { bufferSize := n, version } classes = .ok l' ∧
      l.AgreesUntilFailure source failure j l' := by
  -- The mended lexer reads the other text to its end, so it and the other lexer answer alike.
  obtain ⟨l₁, hof₁, hfollows₁, hphase₁⟩ :=
    follows_ofSource (Mended.faithful { inner := source, rest := text' }) hn version classes
  obtain ⟨l', hof', hfollows', hphase'⟩ := follows_ofSource hsource' hn version classes
  have hanswer : ∀ i, l₁.answer i = l'.answer i :=
    hfollows₁.answer_eq_answer (by simp [hphase₁]) hfollows' (by simp [hphase'])
  obtain ⟨l, hof, hbeside⟩ := beside_ofSource (hsource.congr hsame).runsWith hj hof₁
  exact ⟨l, l', hof, hof', hbeside.agreesUntilFailure.congr hanswer⟩

/-- Two names, by two reads of two bytes each, beside a text that has a third one. -/
theorem answers_until_failure_thirdName :
    ∃ (l : Lexer Script 2) (l' : Lexer Memory 2),
      ofSource (Script.cutOff 2 .interrupted 2 [0x61, 0x20, 0x62, 0x20])
        { bufferSize := 2, version := .xpath31 } .xml = .ok l ∧
      ofSource ({ rest := [0x61, 0x20, 0x62, 0x20, 0x63] } : Memory)
        { bufferSize := 2, version := .xpath31 } .xml = .ok l' ∧
      l.AgreesUntilFailure (Script.cutOff 2 .interrupted 2 [0x61, 0x20, 0x62, 0x20]) .interrupted 2
        l' :=
  answers_until_failure (by decide) (by decide)
    (Script.failsAfter 2 .interrupted 2 [0x61, 0x20, 0x62, 0x20])
    (Memory.faithful [0x61, 0x20, 0x62, 0x20, 0x63]) (by decide) .xpath31 .xml

end Lexer

end XPathScan
