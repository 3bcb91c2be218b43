import XPathScan.Proofs.Input.Kept
import XPathScan.Proofs.Lexer.Overflow
import XPathScan.Proofs.Lexer.Positions

/-!
# The tokens of a whole input are always found

For an input in memory the window is made so large that the end of the input is known from the first
read on. Nothing is read after that, no move can leave the window, and every token takes a byte; so
the list of all tokens comes to an end, and the only errors are those of the text.

What it means to collect the tokens of a lexer is said without a limit on the calls
(`XPathScan.Lexer.Collects`): an iteration is made until it gives nothing or an error. That there is
a result at all says that it ends.

* `XPathScan.Plain.Collects`, `XPathScan.Plain.exists_collects` – a plain lexer always comes to a
  result;
* `XPathScan.Plain.Collects.verdict` – which is all the tokens up to the end, or an error of the
  text;
* `XPathScan.Lexer.collects_of_plain` – a lexer with a window that holds the text comes to the same;
* `XPathScan.Input.advance_after` – and no move forward ever fails in such a window;
* `XPathScan.Lexer.tokenize_total` – so the tokens of a whole input are always found.
-/

namespace XPathScan

variable {σ : Type} [Source σ] {n : Nat} {text : List UInt8} {version : Version}

/-! ### Plain lexers -/

namespace Plain

variable {s : Plain} {p : Point} {r : Except LexError (List Token)}

/-- **What a plain lexer comes to from a point on**: the tokens before the end, or the first
error. -/
inductive Collects (s : Plain) : Point → Except LexError (List Token) → Prop
  /-- The end lies ahead. -/
  | done {p q : Point} {e : Token} : (s.look p).found = .ok (e, q) → e.isEof = true →
      Collects s p (.ok [])
  /-- An error lies ahead. -/
  | error {p : Point} {e : LexError} : (s.look p).found = .error e → Collects s p (.error e)
  /-- A token lies ahead, and comes before the others. -/
  | token {p q : Point} {t : Token} {r : Except LexError (List Token)} :
      (s.look p).found = .ok (t, q) → t.isEof = false → Collects s q r →
      Collects s p (r.map (t :: ·))

/-- A token before the end leaves fewer bytes. -/
theorem Sees.offset_lt {t : Token} {q : Point} (h : (Plain.of text .xml version).Sees p t q)
    (heof : t.isEof = false) : p.offset < q.offset ∧ q.offset ≤ text.length := by
  rw [h.offset_eq]
  exact ⟨Nat.lt_of_le_of_lt h.le_start (h.isEof_iff.2 heof), h.stop_le⟩

/-- **A plain lexer always comes to a result**, since every token takes a byte. -/
theorem exists_collects (version : Version) (hp : p.offset ≤ text.length) :
    ∃ r, (Plain.of text .xml version).Collects p r := by
  induction hleft : text.length - p.offset using Nat.strongRecOn generalizing p with
  | ind left ih =>
    rcases hfound : ((Plain.of text .xml version).look p).found with e | ⟨t, q⟩
    · exact ⟨_, .error hfound⟩
    · have hsees := sees_of_found hp hfound
      cases heof : t.isEof with
      | true => exact ⟨_, .done hfound heof⟩
      | false =>
        obtain ⟨hlt, hq⟩ := hsees.offset_lt heof
        obtain ⟨r, hr⟩ := ih (text.length - q.offset) (by omega) hq rfl
        exact ⟨_, .token hfound heof hr⟩

/-! What is collected from a point on depends on what is found there. -/

/-- An error that is found is what a plain lexer comes to. -/
theorem Collects.eq_of_error (h : s.Collects p r) {e : LexError}
    (hfound : (s.look p).found = .error e) : r = .error e := by
  cases h with
  | done hdone _ => simp [hfound] at hdone
  | error herror =>
    rw [hfound] at herror
    exact congrArg _ (Except.error.inj herror).symm
  | token htoken _ _ => simp [hfound] at htoken

/-- Where the end is found there is nothing to collect. -/
theorem Collects.eq_of_eof (h : s.Collects p r) {t : Token} {q : Point}
    (hfound : (s.look p).found = .ok (t, q)) (heof : t.isEof = true) : r = .ok [] := by
  cases h with
  | done _ _ => rfl
  | error herror => simp [hfound] at herror
  | token htoken hmore _ =>
    obtain ⟨rfl, -⟩ := Prod.mk.inj (Except.ok.inj (hfound.symm.trans htoken))
    rw [heof] at hmore
    cases hmore

/-- Any other token that is found comes before what is collected behind it. -/
theorem Collects.of_token (h : s.Collects p r) {t : Token} {q : Point}
    (hfound : (s.look p).found = .ok (t, q)) (heof : t.isEof = false) :
    ∃ r', s.Collects q r' ∧ r = r'.map (t :: ·) := by
  cases h with
  | done hdone hend =>
    obtain ⟨rfl, -⟩ := Prod.mk.inj (Except.ok.inj (hfound.symm.trans hdone))
    rw [heof] at hend
    cases hend
  | error herror => simp [hfound] at herror
  | token htoken _ hrest =>
    obtain ⟨rfl, rfl⟩ := Prod.mk.inj (Except.ok.inj (hfound.symm.trans htoken))
    exact ⟨_, hrest, rfl⟩

/-- The first token that is collected is the one that is found. -/
theorem Collects.found_of_cons {t : Token} {ts : List Token} (h : s.Collects p (.ok (t :: ts))) :
    ∃ q, (s.look p).found = .ok (t, q) := by
  generalize hr : Except.ok (t :: ts) = r at h
  cases h with
  | done _ _ => cases hr
  | error _ => cases hr
  | @token _ q t' r' hfound _ _ =>
    rcases r' with e | ts'
    · cases hr
    · obtain ⟨rfl, -⟩ := List.cons.inj (Except.ok.inj hr)
      exact ⟨q, hfound⟩

/-- **A result is the tokens up to the end, or an error of the text.** -/
theorem Collects.verdict (h : s.Collects p r) :
    (∃ ts e, r = .ok ts ∧ s.Emits p ts e) ∨ ∃ m q, r = .error (.malformed m q) := by
  induction h with
  | done hfound heof => exact Or.inl ⟨[], _, rfl, .eof hfound heof⟩
  | error hfound =>
    obtain ⟨m, rfl⟩ := malformed_of_found hfound
    exact Or.inr ⟨m, _, rfl⟩
  | token hfound heof _ ih =>
    rcases ih with ⟨ts, e, rfl, hemits⟩ | ⟨m, q, rfl⟩
    · exact Or.inl ⟨_, e, rfl, .token hfound heof hemits⟩
    · exact Or.inr ⟨m, q, rfl⟩

end Plain

/-! ### A window that holds the text -/

namespace Input

section Whole

variable {i : Input σ n} (hlen : text.length < 2 * n)

include hlen

omit [Source σ] in
/-- Everything fits into such a window. -/
theorem fits_of_length_lt (w : Window n) (p : Nat) : w.Fits text p :=
  Or.inl (Nat.lt_of_lt_of_le hlen (Nat.mul_le_mul_right n (Nat.le_add_left 2 _)))

/-- The source does not matter any more. -/
theorem shows_of_window (h : i.window.Shows text) : i.Shows text :=
  ⟨h, fun hle => absurd ((fits_of_length_lt hlen i.window _).lt_edge (Nat.le_refl _))
    (Nat.not_lt_of_le hle)⟩

/-- **Whatever calls are made, the window stays well kept.** -/
theorem shows_after (h : i.window.Shows text) (calls : List Call) :
    (i.after calls).window.Shows text := by
  refine keeps_after (Q := fun i : Input σ n => i.window.Shows text) (fun i c hi => ?_) calls h
  by_cases hc : c = .mark
  · obtain ⟨i', hmark, hi', -⟩ := (shows_of_window hlen hi).mark_eq
    rw [hc, leave, hmark]
    exact hi'.window
  · exact (leave_keeps (P := fun w => w.Shows text) (fun _ _ hw hmoves => (hw.moves hmoves).1) hc
      hi).1

/-- **No move forward ever fails.** -/
theorem advance_after (h : i.window.Shows text) (calls : List Call) (count : Nat) :
    ∃ i', advance count (i.after calls) = .ok () i' := by
  have hafter := shows_of_window hlen (shows_after hlen h calls)
  rw [hafter.advance_eq, if_pos (fits_of_length_lt hlen _ _)]
  exact ⟨_, rfl⟩

end Whole

end Input

namespace Lexer

variable {l : Lexer σ n} {s : Plain} {p : Point} {r : Except LexError (List Token)}

/-- **What it means to collect the tokens of a lexer**: to iterate until there is nothing any more
or an error. -/
inductive Collects : Lexer σ n → Except LexError (List Token) → Prop
  /-- There is nothing any more. -/
  | done {l : Lexer σ n} : l.next?.1 = none → Collects l (.ok [])
  /-- There is an error. -/
  | error {l : Lexer σ n} {e : LexError} : l.next?.1 = some (.error e) → Collects l (.error e)
  /-- There is a token, which comes before the others. -/
  | token {l : Lexer σ n} {t : Token} {r : Except LexError (List Token)} :
      l.next?.1 = some (.ok t) → Collects l.next?.2 r → Collects l (r.map (t :: ·))

/-- **A window that holds the text and more collects what the plain lexer comes to**, and lists it if
the limit on the calls is greater than the number of bytes that are left. -/
theorem collects_of_plain (h : (Plain.of text .xml version).Collects p r)
    (hl : l.Follows (.of text .xml version) p) (hphase : l.phase = .active)
    (hlen : text.length < 2 * n) :
    l.Collects r ∧ ∀ limit > text.length - p.offset, l.tokens limit = r := by
  induction h generalizing l with
  | @done p q e hfound heof =>
    obtain ⟨l', hnext, -⟩ :=
      hl.next_token (by simp [hphase]) (Forecast.fits_of_length_lt hlen _) hfound
    have hitem : l.next? = (none, l'.release e) := by
      rw [next?, if_pos hphase, hnext]
      exact if_pos heof
    refine ⟨.done (by rw [hitem]), fun limit hlimit => ?_⟩
    obtain ⟨limit, rfl⟩ := Nat.exists_eq_succ_of_ne_zero (Nat.ne_zero_of_lt hlimit)
    rw [tokens, hitem]
  | @error p e hfound =>
    obtain ⟨l', hnext⟩ :=
      hl.next_error (by simp [hphase]) (Forecast.fits_of_length_lt hlen _) hfound
    have hitem : l.next? = (some (.error e), l') := by rw [next?, if_pos hphase, hnext]
    refine ⟨.error (by rw [hitem]), fun limit hlimit => ?_⟩
    obtain ⟨limit, rfl⟩ := Nat.exists_eq_succ_of_ne_zero (Nat.ne_zero_of_lt hlimit)
    rw [tokens, hitem]
  | @token p q t r hfound heof _ ih =>
    obtain ⟨l', hnext, hl', hphase'⟩ :=
      hl.next_token (by simp [hphase]) (Forecast.fits_of_length_lt hlen _) hfound
    rw [heof] at hphase'
    have hitem : l.next? = (some (.ok t), l') := by
      rw [next?, if_pos hphase, hnext]
      simp [heof]
    obtain ⟨hcollects, htokens⟩ := ih hl' (hphase'.trans hphase)
    obtain ⟨hlt, hq⟩ := (Plain.sees_of_found hl.stands.offset_le hfound).offset_lt heof
    refine ⟨.token (by rw [hitem]) (by rw [hitem]; exact hcollects), fun limit hlimit => ?_⟩
    obtain ⟨limit, rfl⟩ := Nat.exists_eq_succ_of_ne_zero (Nat.ne_zero_of_lt hlimit)
    rw [tokens, hitem]
    simp only
    rw [htokens limit (by omega)]

/-- **The tokens of a whole input are what the plain lexer comes to.** -/
theorem collects_tokenize (text : List UInt8) (version : Version) :
    (Plain.of text .xml version).Collects {} (tokenize text version) := by
  have hample : text.length + 2 ≤ ampleBufferSize text := Nat.le_max_right _ _
  obtain ⟨l, hof, hl, hphase⟩ :=
    follows_ofSource (n := ampleBufferSize text) (Memory.faithful text) (by omega) version .xml
  obtain ⟨r, hr⟩ := Plain.exists_collects (p := {}) version (Nat.zero_le text.length)
  obtain ⟨-, htokens⟩ := collects_of_plain hr hl hphase (by omega)
  have hr' : tokenize text version = r := by
    rw [tokenize, hof]
    exact htokens _ (Nat.lt_succ_self _)
  rw [hr']
  exact hr

/-- **The tokens of a whole input are always found.** A lexer can be set up for any text, and its
tokens can be collected: that comes to an end, with all the tokens before the end of the text or an
error of the text. The limit on the calls cuts nothing off. And as long as the lexer has not failed,
no move forward fails, whatever other moves and reads come before it. -/
theorem tokenize_total (text : List UInt8) (version : Version) :
    ∃ l : Lexer Memory (ampleBufferSize text),
      ofSource ({ rest := text } : Memory) { bufferSize := ampleBufferSize text, version } .xml =
        .ok l ∧
      l.Collects (tokenize text version) ∧
      ((∃ ts e, tokenize text version = .ok ts ∧ l.Emits ts e) ∨
        ∃ m p, tokenize text version = .error (.malformed m p)) ∧
      (∀ limit > text.length, l.tokens limit = tokenize text version) ∧
      ∀ calls, (l.after calls).phase ≠ .failed → ∀ moves count, ∃ i,
        Input.advance count ((l.after calls).cursor.input.after moves) = .ok () i := by
  have hample : text.length + 2 ≤ ampleBufferSize text := Nat.le_max_right _ _
  have hlen : text.length < 2 * ampleBufferSize text := by omega
  obtain ⟨l, hof, hl, hphase⟩ :=
    follows_ofSource (n := ampleBufferSize text) (Memory.faithful text) (by omega) version .xml
  have hplain := collects_tokenize text version
  obtain ⟨hcollects, htokens⟩ := collects_of_plain hplain hl hphase hlen
  refine ⟨l, hof, hcollects, ?_, htokens, fun calls hactive => ?_⟩
  · refine hplain.verdict.imp_left ?_
    rintro ⟨ts, e, hts, hemits⟩
    exact ⟨ts, e, hts, .of_plain hemits (fun _ _ _ _ _ _ => Forecast.fits_of_length_lt hlen _) hl
      (by simp [hphase])⟩
  · have hexact : (l.after calls).Exact text .xml version :=
      keeps_after (fun _ => Exact.next) (fun _ t h => h.release t) calls
        (Or.inr ⟨{}, hl, Point.exact_start text⟩)
    obtain ⟨p, hfollows, -⟩ := hexact.resolve_left hactive
    exact Input.advance_after hlen hfollows.stands.shows.window

end Lexer

end XPathScan
