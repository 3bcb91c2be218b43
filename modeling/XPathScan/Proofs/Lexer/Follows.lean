import XPathScan.Proofs.Plain.Basic

/-!
# A lexer over a faithful source follows a plain lexer

A lexer whose source hands out a text does what the plain lexer does, call by call, as long as its
window is large enough. Where it is not, the call overflows, and reports the size of the buffers
and the place where the token starts. There is no third case.

* `XPathScan.Lexer.Follows` – the lexer and the plain lexer are at the same point;
* `XPathScan.Lexer.Follows.meets_scan` – one scan gives what lies ahead, or overflows;
* `XPathScan.Lexer.Follows.next_token`, `XPathScan.Lexer.Follows.next_error` and
  `XPathScan.Lexer.Follows.next_overflow` – the same of one call.
-/

namespace XPathScan

variable {σ : Type} {n : Nat}

namespace Lexer

/-- **A lexer that is at a point of a text**, and reads it as a plain lexer does. Records that wait
to be used again have to be empty. -/
structure Follows [Source σ] (l : Lexer σ n) (s : Plain) (p : Point) : Prop where
  /-- The lexer is at the point. -/
  stands : l.cursor.StandsAt s.text p
  /-- The byte classes are the same. -/
  classes_eq : l.classes = s.classes
  /-- The language is the same. -/
  dialect_eq : l.dialect = s.dialect
  /-- No record has a lexeme in it. -/
  clean : ∀ t ∈ l.pool.free, t.lexeme = []

/-- **A lexer over a faithful source starts at the beginning of the text.** -/
theorem follows_ofSource [Source σ] {source : σ} {text : List UInt8}
    (hsource : Source.Faithful source text) (hn : 0 < n) (version : Version)
    (classes : ByteClass) :
    ∃ l : Lexer σ n, ofSource source { bufferSize := n, version } classes = .ok l ∧
      l.Follows (.of text classes version) {} ∧ l.phase = .active := by
  obtain ⟨input, hinput, hshows, hstart, hpos⟩ := Input.ofSource_eq hsource hn
  have hvalid : Settings.validate { bufferSize := n, version } = .ok () :=
    if_neg (Nat.ne_of_gt hn)
  refine ⟨{ cursor := { input }, classes, dialect := .ofVersion version }, ?_, ?_, rfl⟩
  · rw [ofSource, hvalid]
    simp only
    rw [hinput]
  · exact ⟨⟨hshows, hstart, hpos, rfl⟩, rfl, rfl, fun t ht => by cases ht⟩

/-- A record that is taken from clean ones has no lexeme, and leaves clean ones. -/
theorem lexeme_acquire {pool : Pool} (h : ∀ t ∈ pool.free, t.lexeme = []) :
    pool.acquire.1.lexeme = [] ∧ ∀ t ∈ pool.acquire.2.free, t.lexeme = [] := by
  rw [Pool.acquire]
  split
  · next token free hfree =>
    rw [hfree] at h
    exact ⟨h token (List.mem_cons_self ..), fun t ht => h t (List.mem_cons_of_mem _ ht)⟩
  · next hfree => exact ⟨rfl, h⟩

/-- The flags of a token are those of the point where it starts. -/
theorem tokenFlags_eq [Source σ] {c : Cursor σ n} {text : List UInt8} {p : Point}
    (h : c.StandsAt text p) (trivia : Flags) : tokenFlags trivia c = p.tokenFlags trivia := by
  rw [tokenFlags, Point.tokenFlags, h.place_eq, h.position_eq]
  rfl

/-! ### One call -/

/-- **What has to become of a scan** by what lies ahead: it gives the token, or the error, or
overflows where the window is too small. -/
structure Meets [Source σ] (s : Plain) (f : Forecast)
    (result : EStateM.Result LexError (Lexer σ n) Token) : Prop where
  /-- A token is given, and the lexer is behind it. -/
  token : f.Fits n s.text → ∀ t q, f.found = .ok (t, q) → ∃ l', result = .ok t l' ∧ l'.Follows s q
  /-- An error is reported. -/
  error : f.Fits n s.text → ∀ e, f.found = .error e → ∃ l', result = .error e l'
  /-- What is too far away is an overflow. -/
  overflow : ¬f.Fits n s.text → ∃ l', result =
    .error (.configuration (.overflow { bufferSize := n, offset := f.start.offset })) l'

variable [Source σ] {l : Lexer σ n} {s : Plain} {p : Point}

/-- What a lexer puts into a clean record is the token of the text. -/
theorem fillIn_eq {c : Cursor σ n} {record : Token} (h : c.StandsAt s.text p)
    (hrecord : record.lexeme = []) {k : Nat} (hk : k ≤ (s.text.drop p.offset).length)
    (hfits : c.input.window.Fits s.text (c.input.window.pos + k)) (trivia : Flags) (kind : Kind) :
    fillIn record kind c.position (tokenFlags trivia c)
      (c.input.window.movedTo (c.input.window.pos + k)) = s.tokenAt p trivia kind k := by
  have hlexeme := (h.faces.movedTo hk hfits).past_eq
  rw [fillIn, Plain.tokenAt]
  rw [hrecord, hlexeme, tokenFlags_eq h, h.position_eq, Window.movedTo_pos, h.pos_eq]
  rfl

/-- Behind a token the lexer starts over. -/
theorem Follows.behind {c : Cursor σ n} (h : c.StandsAt s.text p) (hclasses : l.classes = s.classes)
    (hdialect : l.dialect = s.dialect) {pool : Pool} (hpool : ∀ t ∈ pool.free, t.lexeme = [])
    {k : Nat} (hk : k ≤ (s.text.drop p.offset).length)
    (hfits : c.input.window.Fits s.text (c.input.window.pos + k)) :
    ∃ input, Input.mark
        { c.input with window := c.input.window.movedTo (c.input.window.pos + k) } = .ok () input ∧
      Follows { l with
        cursor := { input, place := c.place.pastToken ((s.text.drop p.offset).take k) }, pool } s
        (p.pastToken s.text k) := by
  have hlen := h.faces.length_ahead
  have hstart := h.shows.window.start_le
  have hmoved : Input.Shows
      { c.input with window := c.input.window.movedTo (c.input.window.pos + k) } s.text :=
    h.shows.movedTo (by omega) (by omega) hfits
  obtain ⟨input, hmark, hshows, hstart', hpos'⟩ := hmoved.mark_eq
  rw [Window.movedTo_pos, h.pos_eq] at hstart' hpos'
  refine ⟨input, hmark, ⟨hshows, hstart', hpos', ?_⟩, hclasses, hdialect, hpool⟩
  show c.place.pastToken _ = p.place.pastToken _
  rw [h.place_eq]

section Unfolding

variable {c : Cursor σ n} {trivia : Flags}

theorem scan_of_unclosed {e : LexError}
    (hskip : Trivia.skip l.classes l.dialect.version .none l.cursor = .error e c) :
    l.scan = .error e { l with cursor := c } := by
  rw [scan, hskip]

theorem scan_of_error {e : ScanError} {w : Window n}
    (hskip : Trivia.skip l.classes l.dialect.version .none l.cursor = .ok trivia c)
    (hscan : Scan.token l.dialect l.classes c.input.window = .error e w) :
    ∃ l', l.scan = .error (ofScanError c.position e) l' := by
  rw [scan, hskip]
  simp only [hscan]
  exact ⟨_, rfl⟩

theorem scan_of_token {kind : Kind} {w : Window n} {input : Input σ n}
    (hskip : Trivia.skip l.classes l.dialect.version .none l.cursor = .ok trivia c)
    (hscan : Scan.token l.dialect l.classes c.input.window = .ok kind w)
    (hmark : Input.mark { c.input with window := w } = .ok () input) :
    let token := fillIn l.pool.acquire.1 kind c.position (tokenFlags trivia c) w
    l.scan = .ok token
      { l with cursor := { input, place := c.place.pastToken token.lexeme }
               pool := l.pool.acquire.2 } := by
  rw [scan, hskip]
  simp only [hscan, hmark]

end Unfolding

/-- A comment that is not closed is found without an overflow. -/
theorem Follows.meets_scan_of_unclosed (h : l.Follows s p) {k : Nat}
    (hextent : Trivia.extent s.classes s.dialect.version .none (s.text.drop p.offset) = .error k) :
    Meets s (s.look p) l.scan := by
  have hn := l.cursor.input.window.size_pos
  have hlook := Plain.look_of_unclosed hextent
  have hfits : (s.look p).Fits n s.text :=
    Forecast.fits_of_reach_le hn (by rw [hlook]; exact Nat.zero_le n) _
  rw [← h.classes_eq, ← h.dialect_eq] at hextent
  obtain ⟨c, hskip⟩ :=
    (Trivia.passes_skip h.stands l.classes l.dialect.version .none).unclosed k hextent
  rw [hlook] at hfits ⊢
  -- The walk over trivia never overflows, and no other scan is made.
  refine ⟨fun _ t q hfound => ?_, fun _ e hfound => ?_, fun hout => absurd hfits hout⟩
  · cases hfound
  · cases hfound
    exact ⟨_, scan_of_unclosed hskip⟩

/-- **Behind blanks and comments the text is read in the window**, which is the only place where it
can be too small. -/
theorem Follows.meets_scan_of_extent (h : l.Follows s p) {trivia : Flags} {k : Nat}
    (hextent : Trivia.extent s.classes s.dialect.version .none (s.text.drop p.offset) =
      .ok (trivia, k)) : Meets s (s.look p) l.scan := by
  obtain ⟨hrecord, hpool⟩ := lexeme_acquire h.clean
  rw [Plain.look_of_extent hextent]
  rw [← h.classes_eq, ← h.dialect_eq] at hextent ⊢
  obtain ⟨c, hskip, hc⟩ :=
    (Trivia.passes_skip h.stands l.classes l.dialect.version .none).passed trivia k hextent
  obtain ⟨htoken, hmalformed, hoverflow⟩ :=
    Scan.obeys_token l.dialect l.classes s.text _ hc.faces
  -- The window after the trivia has room for what the forecast says.
  have hfits : ∀ reach, c.input.window.Fits s.text (c.input.window.pos + reach) ↔
      s.text.length < ((p.offset + k) / n + 2) * n ∨
        p.offset + k + reach < ((p.offset + k) / n + 2) * n := by
    intro reach
    rw [Window.Fits, Window.edge, hc.start_eq, hc.pos_eq]
    rfl
  refine ⟨fun hin t q hfound => ?_, fun hin e hfound => ?_, fun hout => ?_⟩
  · obtain ⟨kind, len, hread, rfl, rfl⟩ := Plain.readToken_eq_ok hfound
    obtain ⟨hscan, hreach, hlen⟩ := htoken ((hfits _).mpr hin) kind len hread
    have hmove := ((hfits _).mpr hin).mono (Nat.add_le_add_left hreach _)
    obtain ⟨input, hmark, hfollows⟩ :=
      Follows.behind (l := l) hc h.classes_eq h.dialect_eq hpool hlen hmove
    refine ⟨_, ?_, hfollows⟩
    rw [scan_of_token hskip hscan hmark, fillIn_eq hc hrecord hlen hmove]
    rfl
  · obtain ⟨m, hread, rfl⟩ := Plain.readToken_eq_error hfound
    obtain ⟨w, hscan⟩ := hmalformed ((hfits _).mpr hin) m hread
    rw [← hc.position_eq]
    exact scan_of_error hskip hscan
  · obtain ⟨w, hscan⟩ := hoverflow fun hin => hout ((hfits _).mp hin)
    rw [hc.start_eq] at hscan
    exact scan_of_error hskip hscan

/-- **A scan does what the plain lexer sees, or overflows.** -/
theorem Follows.meets_scan (h : l.Follows s p) : Meets s (s.look p) l.scan := by
  rcases hextent : Trivia.extent s.classes s.dialect.version .none (s.text.drop p.offset)
    with k | ⟨trivia, k⟩
  · exact h.meets_scan_of_unclosed hextent
  · exact h.meets_scan_of_extent hextent

/-- A scan that succeeds leaves the lexer in its phase. -/
theorem phase_scan {l' : Lexer σ n} {t : Token} (h : l.scan = .ok t l') : l'.phase = l.phase := by
  rw [scan] at h
  split at h
  · cases h
  · split at h
    · cases h
    · simp only at h
      split at h
      · cases h
      · cases h
        rfl

/-- A token before the end leaves the lexer in its phase. -/
theorem phase_next {l' : Lexer σ n} {t : Token} (h : l.next = .ok t l') (heof : t.isEof = false) :
    l'.phase = l.phase := by
  rw [next] at h
  split at h
  · cases h
  · split at h
    · cases h
    · next l₁ hscan =>
      obtain ⟨rfl, hl⟩ := EStateM.Result.ok.inj h
      rw [heof] at hl
      rw [← hl]
      exact phase_scan hscan

/-- A lexer that has failed only says so. -/
theorem next_of_failed (h : l.phase = .failed) : l.next = .error .poisoned l := if_pos h

section Next

variable (h : l.Follows s p) (hphase : l.phase ≠ .failed)

include h hphase

/-- **A call gives the token that lies ahead**, if the window is large enough. -/
theorem Follows.next_token (hfits : (s.look p).Fits n s.text) {t : Token} {q : Point}
    (hfound : (s.look p).found = .ok (t, q)) :
    ∃ l', l.next = .ok t l' ∧ l'.Follows s q ∧
      l'.phase = if t.isEof then .exhausted else l.phase := by
  obtain ⟨l', hscan, hfollows⟩ := h.meets_scan.token hfits t q hfound
  rw [next, if_neg hphase, hscan]
  simp only
  by_cases heof : t.isEof = true
  · rw [if_pos heof, if_pos heof]
    exact ⟨_, rfl, ⟨hfollows.stands, hfollows.classes_eq, hfollows.dialect_eq, hfollows.clean⟩, rfl⟩
  · rw [if_neg heof, if_neg heof]
    exact ⟨l', rfl, hfollows, phase_scan hscan⟩

/-- **A call reports the error that lies ahead**, if the window is large enough. -/
theorem Follows.next_error (hfits : (s.look p).Fits n s.text) {e : LexError}
    (hfound : (s.look p).found = .error e) : ∃ l', l.next = .error e l' := by
  obtain ⟨l', hscan⟩ := h.meets_scan.error hfits e hfound
  rw [next, if_neg hphase, hscan]
  exact ⟨_, rfl⟩

/-- **A call overflows if the window is too small**, and says where the token starts. -/
theorem Follows.next_overflow (hfits : ¬(s.look p).Fits n s.text) :
    ∃ l', l.next = .error (.configuration
      (.overflow { bufferSize := n, offset := (s.look p).start.offset })) l' := by
  obtain ⟨l', hscan⟩ := h.meets_scan.overflow hfits
  rw [next, if_neg hphase, hscan]
  exact ⟨_, rfl⟩

end Next

end Lexer

end XPathScan
