import XPathScan.Proofs.Input.Calls
import XPathScan.Proofs.Source.Failing
import XPathScan.Proofs.Source.Reads

/-!
# Inputs over a source that is going to fail

An input reads its source in one place only, where a slot is filled. So an input over a source that
is going to fail and one over another source with which it runs are the same but for the source,
until the read that fails is made; and that read is made nowhere but where a lexeme is started, or
where the input is set up. The two are compared part by part (`XPathScan.Alike`): both succeed and
are again the same but for the source, or both fail alike, or one comes to the read that fails.

* `XPathScan.Input.Fed` – how far an input over a failing source has come;
* `XPathScan.Input.Fed.load` – a slot is filled alike on both sides, or its read fails;
* `XPathScan.Input.Fed.mark` – the same of the start of a lexeme.
-/

namespace XPathScan

variable {σ τ : Type} [Source σ] [Source τ] {n : Nat} {source : σ} {failure : ReadFailure}
  {j k : Nat} {other : τ}

/-- An input with another source. -/
def Input.withSource (i : Input σ n) (other : τ) : Input τ n where
  source := other
  window := i.window

/-- **An input whose source has been read some times and is to fail after `j` reads**, while another
source goes on. It does not matter any more how they go on once the end is known. -/
structure Input.Fed (source : σ) (failure : ReadFailure) (j k : Nat) (i : Input σ n) (other : τ) :
    Prop where
  /-- So many reads have been made. -/
  reads : Source.Reads n source k i.source
  /-- None of them was the one that fails. -/
  le_limit : k ≤ j
  /-- For the reads that are left it runs with the other source. -/
  runs : i.window.stop = none → Source.RunsWith n failure (j - k) i.source other

/-! ### Two sides -/

/-- **What has to become of the same part of a call on both sides**: the same, and then the two
sides are again the same but for the source; or else the failure, on the side where the read has
failed. -/
inductive Alike {S S' ε α : Type} (source : σ) (failure : ReadFailure) (j : Nat)
    (input : S → Input σ n) (withSource : S → τ → S') (lost : ε) :
    EStateM.Result ε S α → EStateM.Result ε S' α → Prop
  /-- Both succeed. -/
  | ok {a : α} {s : S} {other : τ} {k : Nat} : (input s).Fed source failure j k other →
      Alike source failure j input withSource lost (.ok a s) (.ok a (withSource s other))
  /-- Both fail, before the read that fails on one side only. -/
  | error {e : ε} {s : S} {s' : S'} {k : Nat} : k ≤ j → Source.Reads n source k (input s).source →
      Alike source failure j input withSource lost (.error e s) (.error e s')
  /-- The read has failed. -/
  | lost {s : S} {result : EStateM.Result ε S' α} : Source.Reads n source (j + 1) (input s).source →
      Alike source failure j input withSource lost (.error lost s) result

section Alike

variable {S S' ε α β : Type} {input : S → Input σ n} {withSource : S → τ → S'} {lost : ε} {s : S}
  {result : EStateM.Result ε S' α}

/-- Where one side succeeds the other does. -/
theorem Alike.of_ok {a : α}
    (h : Alike source failure j input withSource lost (.ok a s) result) :
    ∃ other k, result = .ok a (withSource s other) ∧ (input s).Fed source failure j k other := by
  cases h with
  | ok hfed => exact ⟨_, _, rfl, hfed⟩

/-- **Where one side fails, what comes after does not matter**, as long as the other side passes its
errors on. -/
theorem Alike.of_error {e : ε}
    (h : Alike source failure j input withSource lost
      (.error e s : EStateM.Result ε S α) result)
    {result' : EStateM.Result ε S' β}
    (hpass : ∀ e' s', result = .error e' s' → result' = .error e' s') :
    Alike source failure j input withSource lost (.error e s) result' := by
  cases h with
  | error hle hreads =>
    rw [hpass _ _ rfl]
    exact .error hle hreads
  | lost hreads => exact .lost hreads

end Alike

/-! ### Reads -/

namespace Input

variable {i : Input σ n}

/-- A window with the same end of the input is fed alike. -/
theorem Fed.of_stop_eq (h : i.Fed source failure j k other) {w : Window n}
    (hstop : w.stop = i.window.stop) : Fed source failure j k { i with window := w } other :=
  ⟨h.reads, h.le_limit, fun hnone => h.runs (hstop.symm.trans hnone)⟩

/-- What becomes of a window when one of its slots is filled by a read. -/
def received (w : Window n) (side : Side) (epoch : Nat) (buffer : Vector UInt8 n) (count : Nat) :
    Window n :=
  let filled := w.setSlot side (Slot.receive epoch buffer count)
  if count < n then { filled with stop := some (epoch * n + count) } else filled

section Load

variable {side : Side} {epoch : Nat} {buffer : Vector UInt8 n} {source' : σ}

theorem load_of_ok (hstop : i.window.stop = none) {count : Nat}
    (hread : Source.read (i.window.slot side).data i.source = (⟨buffer, .ok count⟩, source')) :
    load side epoch i =
      .ok () { source := source', window := received i.window side epoch buffer count } := by
  rw [load]
  simp only [hstop, hread, received]

theorem load_of_error (hstop : i.window.stop = none)
    (hread : Source.read (i.window.slot side).data i.source = (⟨buffer, .error failure⟩, source')) :
    load side epoch i = .error failure
      { source := source'
        window := i.window.setSlot side ((i.window.slot side).spoiled epoch buffer) } := by
  rw [load]
  simp only [hstop, hread]
  rfl

end Load

/-- **A slot is filled alike**, or its read is the one that fails. -/
theorem Fed.load (h : i.Fed source failure j k other) (side : Side) (epoch : Nat) :
    (∃ i' other' k', load side epoch i = .ok () i' ∧
      load side epoch (i.withSource other) = .ok () (i'.withSource other') ∧
      i'.Fed source failure j k' other' ∧ k' ≤ k + 1) ∨
    (∃ e i' i'', load side epoch i = .error e i' ∧
      load side epoch (i.withSource other) = .error e i'' ∧
      k + 1 ≤ j ∧ Source.Reads n source (k + 1) i'.source) ∨
    k = j ∧ ∃ i', load side epoch i = .error failure i' ∧
      Source.Reads n source (j + 1) i'.source := by
  cases hstop : i.window.stop with
  | some stop =>
    -- Nothing is read, on either side.
    obtain ⟨-, hkeeps⟩ :=
      setSlot_eq i.window side (Slot.receive epoch (i.window.slot side).data 0)
    refine Or.inl ⟨_, other, k, ?_, ?_, h.of_stop_eq hkeeps, Nat.le_succ k⟩
    · rw [Input.load]
      simp only [hstop]
    · rw [Input.load]
      simp only [withSource, hstop]
  | none =>
    have hruns := h.runs hstop
    have hle := h.le_limit
    rcases hread : Source.read (i.window.slot side).data i.source with ⟨⟨buffer, count⟩, source'⟩
    cases hleft : j - k with
    | zero =>
      rw [hleft] at hruns
      obtain rfl : k = j := by omega
      obtain rfl : count = .error failure := by
        have hcount := hruns (i.window.slot side).data
        rwa [hread] at hcount
      exact Or.inr (Or.inr ⟨rfl, _, load_of_error hstop hread, h.reads.read hread⟩)
    | succ m =>
      rw [hleft] at hruns
      obtain ⟨hsame, hrest⟩ := hruns (i.window.slot side).data
      rcases hread' : Source.read (i.window.slot side).data other with ⟨delivery, other'⟩
      rw [hread, hread'] at hsame hrest
      subst hsame
      cases count with
      | error e =>
        exact Or.inr (Or.inl ⟨e, _, _, load_of_error hstop hread,
          load_of_error (i := i.withSource other) hstop hread', by omega, h.reads.read hread⟩)
      | ok count =>
        refine Or.inl ⟨_, other', k + 1, load_of_ok hstop hread,
          load_of_ok (i := i.withSource other) hstop hread', ⟨h.reads.read hread, by omega, ?_⟩,
          Nat.le_refl _⟩
        -- A read that does not fill the buffer is the last one.
        intro hnone
        rw [show j - (k + 1) = m by omega]
        refine hrest count rfl (Nat.le_of_not_lt fun hshort => ?_)
        simp [received, hshort] at hnone

theorem mark_of_load {i' : Input σ n}
    (hother : i.window.pos / n ≠ (i.window.slot i.window.startSide).epoch)
    (hload : load i.window.startSide (i.window.pos / n + 1)
      { i with window := { i.window with startSide := i.window.posSide } } = .ok () i') :
    mark i = .ok () i'.startLexeme := by
  unfold mark
  simp only [if_neg hother, hload]

theorem mark_of_load_error {i' : Input σ n}
    (hother : i.window.pos / n ≠ (i.window.slot i.window.startSide).epoch)
    (hload : load i.window.startSide (i.window.pos / n + 1)
      { i with window := { i.window with startSide := i.window.posSide } } = .error failure i') :
    mark i = .error failure i' := by
  unfold mark
  simp only [if_neg hother, hload]

/-- **A lexeme is started alike**, or its read is the one that fails. -/
theorem Fed.mark (h : i.Fed source failure j k other) :
    Alike source failure j id withSource failure (Input.mark i)
      (Input.mark (i.withSource other)) := by
  by_cases hsame : i.window.pos / n = (i.window.slot i.window.startSide).epoch
  · have hmark : Input.mark i = .ok () i.startLexeme := if_pos hsame
    have hmark' : Input.mark (i.withSource other) = .ok () (i.startLexeme.withSource other) :=
      if_pos hsame
    rw [hmark, hmark']
    exact .ok (h.of_stop_eq rfl)
  · have hturned : Fed source failure j k
        { i with window := { i.window with startSide := i.window.posSide } } other :=
      h.of_stop_eq rfl
    rcases hturned.load i.window.startSide (i.window.pos / n + 1) with
      ⟨i', other', k', hload, hload', hfed, -⟩ | ⟨e, i', i'', hload, hload', hle, hreads⟩ |
      ⟨-, i', hload, hreads⟩
    · rw [mark_of_load hsame hload, mark_of_load (i := i.withSource other) hsame hload']
      exact .ok (hfed.of_stop_eq rfl)
    · rw [mark_of_load_error hsame hload, mark_of_load_error (i := i.withSource other) hsame hload']
      exact .error hle hreads
    · rw [mark_of_load_error hsame hload]
      exact .lost hreads

end Input

end XPathScan
