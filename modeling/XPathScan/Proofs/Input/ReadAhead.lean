import XPathScan.Proofs.Input.Fed
import XPathScan.Proofs.Input.Kept
import XPathScan.Proofs.Source.Limited
import XPathScan.Source.Script

/-!
# How far an input reads ahead

A source is read for two reasons only: an input is set up, or the start of a lexeme goes on to the
next epoch. So an input has always read the epoch of the start and the one after it, and nothing
more, whatever the position does in them; an interactive source is never asked for bytes that are
not wanted yet. And since a short read tells the end of the input, nothing is read after it, not
even if the start goes on.

This is said with a record of the reads on the source, one entry for each (`XPathScan.Recorded`).
Whatever the source claims, a short read is the last entry of the record. As long as no read has
failed the number of entries is settled by the start alone; after a failure it is not, because the
slots do not stand for the right epochs any more.

* `XPathScan.Input.Fills` – what one slot that is to be filled does to the record;
* `XPathScan.Input.Recounts` – a short read is the last one, and then the end is known;
* `XPathScan.Input.Ahead` – two epochs have been read, or all of the input;
* `XPathScan.Input.readsAhead_ofSource` – the two after any calls, and what is left in memory.
-/

namespace XPathScan

variable {σ τ : Type} {n : Nat}

/-! ### What reads have come to -/

/-- **A source with a record of its reads**: the count or the failure of each, in order. -/
structure Recorded (σ : Type) where
  /-- The source that is read. -/
  inner : σ
  /-- What its reads have come to. -/
  counts : List (Except ReadFailure Nat) := []

instance [Source σ] : Source (Recorded σ) where
  read buffer source :=
    let (delivery, inner) := Source.read buffer source.inner
    (delivery, { inner, counts := source.counts ++ [delivery.count] })
  credit source := Source.credit source.inner
  credit_read_lt buffer source count hn hcount hle :=
    Source.credit_read_lt buffer source.inner count hn hcount hle

/-- **A read of fewer than `n` bytes.** -/
def isShort (n : Nat) : Except ReadFailure Nat → Bool
  | .ok count => count < n
  | .error _ => false

/-- **The index of the first short read** among some. -/
def firstShort? (n : Nat) (counts : List (Except ReadFailure Nat)) : Option Nat :=
  counts.findIdx? (isShort n)

theorem counts_read [Source σ] {buffer : Vector UInt8 n} {source source' : Recorded σ}
    {d : Delivery n} (h : Source.read buffer source = (d, source')) :
    source'.counts = source.counts ++ [d.count] := by
  obtain ⟨rfl, rfl⟩ := Prod.mk.inj h
  rfl

namespace Input

/-! ### Filling a slot -/

section Record

variable [Source σ] {i i' : Input (Recorded σ) n}
  {result : EStateM.Result ReadFailure (Input (Recorded σ) n) Unit}

/-- **What a slot that is to be filled does** to the record and to what is known of the end. -/
inductive Fills (i : Input (Recorded σ) n) :
    EStateM.Result ReadFailure (Input (Recorded σ) n) Unit → Prop
  /-- The input has ended, and the source is left alone. -/
  | ended {i' : Input (Recorded σ) n} : i.window.stop ≠ none → i'.source = i.source →
      i'.window.stop = i.window.stop → Fills i (.ok () i')
  /-- A full buffer is read. -/
  | full {i' : Input (Recorded σ) n} {count : Nat} : i.window.stop = none →
      i'.source.counts = i.source.counts ++ [.ok count] → n ≤ count → i'.window.stop = none →
      Fills i (.ok () i')
  /-- The read is short, and the end is known. -/
  | short {i' : Input (Recorded σ) n} {count : Nat} : i.window.stop = none →
      i'.source.counts = i.source.counts ++ [.ok count] → count < n → i'.window.stop ≠ none →
      Fills i (.ok () i')
  /-- The read fails. -/
  | fails {i' : Input (Recorded σ) n} {failure : ReadFailure} : i.window.stop = none →
      i'.source.counts = i.source.counts ++ [.error failure] → i'.window.stop = none →
      Fills i (.error failure i')

/-- **A slot is filled in one of these ways.** -/
theorem fills_load (side : Side) (epoch : Nat) (i : Input (Recorded σ) n) :
    i.Fills (load side epoch i) := by
  cases hstop : i.window.stop with
  | some stop =>
    have hload : load side epoch i = .ok () { i with
        window := i.window.setSlot side (Slot.receive epoch (i.window.slot side).data 0) } := by
      rw [load]
      simp only [hstop]
    rw [hload]
    exact .ended (by simp [hstop]) rfl (setSlot_eq ..).2
  | none =>
    rcases hread : Source.read (i.window.slot side).data i.source with ⟨⟨buffer, count⟩, source⟩
    have hcounts := counts_read hread
    cases count with
    | error failure =>
      rw [load_of_error hstop hread]
      exact .fails hstop hcounts ((setSlot_eq ..).2.trans hstop)
    | ok count =>
      rw [load_of_ok hstop hread]
      by_cases hcount : count < n
      · refine .short hstop hcounts hcount ?_
        simp [received, hcount]
      · refine .full hstop hcounts (Nat.le_of_not_lt hcount) ?_
        simp only [received, hcount, ↓reduceIte]
        exact (setSlot_eq ..).2.trans hstop

/-- **So is the slot that the start of a lexeme leaves.** -/
theorem fills_mark (hother : i.window.pos / n ≠ (i.window.slot i.window.startSide).epoch) :
    i.Fills (mark i) := by
  have hfills := fills_load i.window.startSide (i.window.pos / n + 1)
    { i with window := { i.window with startSide := i.window.posSide } }
  cases hload : load i.window.startSide (i.window.pos / n + 1)
      { i with window := { i.window with startSide := i.window.posSide } } with
  | ok _ i' =>
    rw [hload] at hfills
    rw [mark_of_load hother hload]
    cases hfills with
    | ended hstop hsource hsame => exact .ended hstop hsource hsame
    | full hstop hcounts hcount hnone => exact .full hstop hcounts hcount hnone
    | short hstop hcounts hcount hsome => exact .short hstop hcounts hcount hsome
  | error failure i' =>
    rw [hload] at hfills
    rw [mark_of_load_error hother hload]
    cases hfills with
    | fails hstop hcounts hnone => exact .fails hstop hcounts hnone

/-- A lexeme that starts in the epoch of the start's slot leaves the source alone. -/
theorem mark_stays {i : Input σ n}
    (hsame : i.window.pos / n = (i.window.slot i.window.startSide).epoch) :
    mark i = .ok () i.startLexeme :=
  if_pos hsame

omit [Source σ] in
/-- The record only grows. -/
theorem Fills.grows (h : i.Fills result) : i.source.counts <+: (leaves result).source.counts := by
  cases h with
  | ended _ hsource _ => exact hsource ▸ List.prefix_rfl
  | full _ hcounts _ _ => exact hcounts ▸ List.prefix_append ..
  | short _ hcounts _ _ => exact hcounts ▸ List.prefix_append ..
  | fails _ hcounts _ => exact hcounts ▸ List.prefix_append ..

omit [Source σ] in
/-- One slot is one read at most. -/
theorem Fills.length_le (h : i.Fills result) :
    (leaves result).source.counts.length ≤ i.source.counts.length + 1 := by
  cases h with
  | ended _ hsource _ => simp [leaves, hsource]
  | full _ hcounts _ _ => simp [leaves, hcounts]
  | short _ hcounts _ _ => simp [leaves, hcounts]
  | fails _ hcounts _ => simp [leaves, hcounts]

/-- A call that starts no lexeme leaves the source, the start and the end of the input alone. -/
theorem frame_leave {i : Input σ n} {c : Call} (hc : c ≠ .mark) :
    (i.leave c).source = i.source ∧ (i.leave c).window.start = i.window.start ∧
      (i.leave c).window.stop = i.window.stop := by
  obtain ⟨⟨hstart, hstop⟩, hsource⟩ :=
    leave_keeps (P := fun w => w.start = i.window.start ∧ w.stop = i.window.stop)
      (fun w w' hw hmoves => ⟨hmoves.frame.2.1.trans hw.1, hmoves.frame.2.2.2.trans hw.2⟩)
      hc ⟨rfl, rfl⟩
  exact ⟨hsource, hstart, hstop⟩

/-- **A call leaves the source and the end of the input alone, or fills a slot.** -/
theorem leave_fills (i : Input (Recorded σ) n) (c : Call) :
    (i.leave c).source = i.source ∧ (i.leave c).window.stop = i.window.stop ∨
      ∃ result, i.Fills result ∧ leaves result = i.leave c := by
  by_cases hmark : c = .mark
  · subst hmark
    by_cases hsame : i.window.pos / n = (i.window.slot i.window.startSide).epoch
    · rw [leave, mark_stays hsame]
      exact Or.inl ⟨rfl, rfl⟩
    · exact Or.inr ⟨_, fills_mark hsame, rfl⟩
  · obtain ⟨hsource, -, hstop⟩ := frame_leave hmark (i := i)
    exact Or.inl ⟨hsource, hstop⟩

/-- **The record only grows**, whatever is called, and by one read at most. -/
theorem counts_leave (i : Input (Recorded σ) n) (c : Call) :
    i.source.counts <+: (i.leave c).source.counts ∧
      (i.leave c).source.counts.length ≤ i.source.counts.length + 1 := by
  rcases leave_fills i c with ⟨hsource, -⟩ | ⟨result, hfills, hresult⟩
  · rw [hsource]
    exact ⟨List.prefix_rfl, Nat.le_succ _⟩
  · rw [← hresult]
    exact ⟨hfills.grows, hfills.length_le⟩

/-- **Calls make one read each at most.** -/
theorem length_counts_after (i : Input (Recorded σ) n) (calls : List Call) :
    (i.after calls).source.counts.length ≤ i.source.counts.length + calls.length := by
  induction calls generalizing i with
  | nil => exact Nat.le_refl _
  | cons c calls ih =>
    have hone := (counts_leave i c).2
    have hmore := ih (i.leave c)
    rw [List.length_cons]
    exact Nat.le_trans hmore (by omega)

/-! ### Short reads -/

/-- **A record in which a short read is the last one**: there is one exactly if the end of the input
is known. -/
structure Recounts (i : Input (Recorded σ) n) : Prop where
  /-- Before the end no read was short. -/
  running : i.window.stop = none → ∀ r ∈ i.source.counts, isShort n r = false
  /-- The end was told by the last read. -/
  ended : i.window.stop ≠ none → ∃ earlier last, i.source.counts = earlier ++ [last] ∧
    isShort n last = true ∧ ∀ r ∈ earlier, isShort n r = false

omit [Source σ] in
/-- What does not touch the source and the end of the input changes nothing about the record. -/
theorem Recounts.of_eq (h : i.Recounts) (hsource : i'.source = i.source)
    (hstop : i'.window.stop = i.window.stop) : i'.Recounts := by
  obtain ⟨hrunning, hended⟩ := h
  rw [← hstop, ← hsource] at hrunning hended
  exact ⟨hrunning, hended⟩

omit [Source σ] in
/-- **A slot that is to be filled keeps it so.** -/
theorem Recounts.fills (h : i.Recounts) (hfills : i.Fills result) : (leaves result).Recounts := by
  cases hfills with
  | ended _ hsource hstop => exact h.of_eq hsource hstop
  | full hstop hcounts hcount hnone =>
    refine ⟨fun _ r hr => ?_, fun hsome => absurd hnone hsome⟩
    rw [leaves, hcounts, List.mem_append, List.mem_singleton] at hr
    rcases hr with hr | rfl
    · exact h.running hstop r hr
    · simpa [isShort] using hcount
  | short hstop hcounts hcount hsome =>
    exact ⟨fun hnone => absurd hnone hsome,
      fun _ => ⟨_, _, hcounts, by simpa [isShort] using hcount, h.running hstop⟩⟩
  | fails hstop hcounts hnone =>
    refine ⟨fun _ r hr => ?_, fun hsome => absurd hnone hsome⟩
    rw [leaves, hcounts, List.mem_append, List.mem_singleton] at hr
    rcases hr with hr | rfl
    · exact h.running hstop r hr
    · rfl

/-- **So does every call**, also if it fails. -/
theorem Recounts.leave (h : i.Recounts) (c : Call) : (i.leave c).Recounts := by
  rcases leave_fills i c with ⟨hsource, hstop⟩ | ⟨result, hfills, hresult⟩
  · exact h.of_eq hsource hstop
  · exact hresult ▸ h.fills hfills

omit [Source σ] in
/-- **A short read is the last one**, wherever it stands. -/
theorem Recounts.short_last (h : i.Recounts) {k : Nat} {r : Except ReadFailure Nat}
    (hk : i.source.counts[k]? = some r) (hr : isShort n r = true) :
    i.source.counts.length = k + 1 ∧ i.window.stop ≠ none := by
  have hsome : i.window.stop ≠ none := by
    intro hnone
    simp [h.running hnone r (List.mem_of_getElem? hk)] at hr
  obtain ⟨earlier, last, hcounts, -, hearlier⟩ := h.ended hsome
  have hlength : i.source.counts.length = earlier.length + 1 := by simp [hcounts]
  have hlt : k < i.source.counts.length := (List.getElem?_eq_some_iff.mp hk).1
  rcases Nat.lt_or_ge k earlier.length with hk' | hk'
  · rw [hcounts, List.getElem?_append_left hk'] at hk
    simp [hearlier r (List.mem_of_getElem? hk)] at hr
  · exact ⟨by omega, hsome⟩

omit [Source σ] in
/-- **The record tells whether the end of the input is known**: by the first short read, which is
the last read of all. -/
theorem Recounts.firstShort?_eq (h : i.Recounts) :
    firstShort? n i.source.counts = none ∧ i.window.stop = none ∨
      ∃ k, firstShort? n i.source.counts = some k ∧ i.source.counts.length = k + 1 := by
  cases hshort : firstShort? n i.source.counts with
  | none =>
    refine Or.inl ⟨rfl, Classical.byContradiction fun hsome => ?_⟩
    obtain ⟨earlier, last, hcounts, hlast, -⟩ := h.ended hsome
    rw [firstShort?, List.findIdx?_eq_none_iff] at hshort
    have hnone := hshort last (by simp [hcounts])
    simp [hlast] at hnone
  | some k =>
    obtain ⟨hlt, hk, -⟩ := List.findIdx?_eq_some_iff_getElem.mp hshort
    exact Or.inr ⟨k, rfl, (h.short_last (List.getElem?_eq_getElem hlt) hk).1⟩

omit [Source σ] in
theorem recounts_blank (source : σ) (hn : 0 < n) :
    Recounts ({ source := { inner := source }, window := Window.blank n hn } :
      Input (Recorded σ) n) :=
  ⟨fun _ => nofun, fun hsome => absurd rfl hsome⟩

theorem recounts_ofSource {source : σ}
    (h : ofSource ({ inner := source } : Recorded σ) n = .ok i) : i.Recounts := by
  obtain ⟨hn, i₁, hfirst, hsecond⟩ := loads_of_ofSource h
  have hrecounts₁ := (recounts_blank source hn).fills (fills_load .left 0 _)
  rw [hfirst] at hrecounts₁
  have hrecounts := hrecounts₁.fills (fills_load .right 1 i₁)
  rwa [hsecond] at hrecounts

/-- **Once the end is known the source is left alone**, whatever is called. -/
theorem source_after_of_stop {i : Input σ n} (hstop : i.window.stop ≠ none) (calls : List Call) :
    (i.after calls).source = i.source := by
  obtain ⟨-, hsource⟩ : (i.after calls).window.stop ≠ none ∧ (i.after calls).source = i.source := by
    refine keeps_after (Q := fun i' => i'.window.stop ≠ none ∧ i'.source = i.source) ?_ calls
      ⟨hstop, rfl⟩
    rintro i' c ⟨hsome, hsource⟩
    by_cases hmark : c = .mark
    · obtain ⟨stop, heq⟩ := Option.ne_none_iff_exists'.mp hsome
      obtain ⟨i'', hi'', hsource', hstop'⟩ := mark_of_stop heq
      rw [hmark, leave, hi'']
      exact ⟨by simp [leaves, hstop'], hsource'.trans hsource⟩
    · obtain ⟨hsource', -, hstop'⟩ := frame_leave hmark (i := i')
      exact ⟨hstop' ▸ hsome, hsource'.trans hsource⟩
  exact hsource

/-! ### Two epochs ahead -/

/-- **An input that has read two epochs**, that of the start and the one after it, or all of the
input. -/
structure Ahead (i : Input (Recorded σ) n) : Prop where
  /-- The window is well kept over what has been delivered. -/
  kept : ∃ text, i.Kept text
  /-- Before the end each epoch has been read. -/
  running : i.window.stop = none → i.source.counts.length = i.window.start / n + 2
  /-- No epoch has been read twice. -/
  length_le : i.source.counts.length ≤ i.window.start / n + 2

omit [Source σ] in
/-- **A slot that is filled with the next epoch** is one more read, unless the input has ended. -/
theorem Ahead.fills (h : i.Ahead) (hfills : i.Fills (.ok () i')) (hkept : ∃ text, i'.Kept text)
    (hstart : i'.window.start / n = i.window.start / n + 1) : i'.Ahead := by
  have hle := h.length_le
  have hread : ∀ r, i.window.stop = none → i'.source.counts = i.source.counts ++ [r] →
      i'.source.counts.length = i'.window.start / n + 2 := by
    intro r hnone hcounts
    rw [hcounts, List.length_append, List.length_singleton, h.running hnone, hstart]
  cases hfills with
  | ended hsome hsource hstop =>
    refine ⟨hkept, fun hnone => absurd (hstop ▸ hnone) hsome, ?_⟩
    rw [hsource, hstart]
    omega
  | full hnone hcounts _ _ =>
    exact ⟨hkept, fun _ => hread _ hnone hcounts, Nat.le_of_eq (hread _ hnone hcounts)⟩
  | short hnone hcounts _ _ =>
    exact ⟨hkept, fun _ => hread _ hnone hcounts, Nat.le_of_eq (hread _ hnone hcounts)⟩

/-- **The start of a lexeme keeps an input ahead**, if it succeeds. -/
theorem Ahead.mark (h : i.Ahead) (hmark : Input.mark i = .ok () i') : i'.Ahead := by
  obtain ⟨text, hkept⟩ := h.kept
  obtain ⟨more, -, hkept'⟩ := hkept.mark hmark
  obtain ⟨-, hstart⟩ := window_mark hmark
  by_cases hsame : i.window.pos / n = (i.window.slot i.window.startSide).epoch
  · rw [mark_stays hsame] at hmark
    cases hmark
    have hepoch : i.startLexeme.window.start / n = i.window.start / n :=
      hsame.trans hkept.shows.near.epoch_eq
    refine ⟨⟨_, hkept'⟩, ?_, ?_⟩
    · rw [hepoch]
      exact h.running
    · rw [hepoch]
      exact h.length_le
  · have hfills := fills_mark hsame
    rw [hmark] at hfills
    exact h.fills hfills ⟨_, hkept'⟩ (by rw [hstart, hkept.shows.epoch_next hsame])

/-- **A call keeps an input ahead, or a read has failed.** -/
theorem ahead_leave (h : (∃ failure, .error failure ∈ i.source.counts) ∨ i.Ahead) (c : Call) :
    (∃ failure, .error failure ∈ (i.leave c).source.counts) ∨ (i.leave c).Ahead := by
  rcases h with ⟨failure, hfailure⟩ | hahead
  · exact Or.inl ⟨failure, (counts_leave i c).1.subset hfailure⟩
  by_cases hc : c = .mark
  · subst hc
    rw [leave]
    cases hmark : mark i with
    | ok _ i' => exact Or.inr (hahead.mark hmark)
    | error failure i' =>
      refine Or.inl ⟨failure, ?_⟩
      by_cases hsame : i.window.pos / n = (i.window.slot i.window.startSide).epoch
      · rw [mark_stays hsame] at hmark
        cases hmark
      · have hfills := fills_mark hsame
        rw [hmark] at hfills
        cases hfills with
        | fails _ hcounts _ => simp [leaves, hcounts]
  · obtain ⟨hsource, hstart, hstop⟩ := frame_leave hc (i := i)
    obtain ⟨text, hkept⟩ := hahead.kept
    obtain ⟨more, -, hkept'⟩ := hkept.leave (fun hmark => absurd hmark hc)
    refine Or.inr ⟨⟨_, hkept'⟩, ?_, ?_⟩
    · rw [hsource, hstart, hstop]
      exact hahead.running
    · rw [hsource, hstart]
      exact hahead.length_le

/-- **Two epochs are read where an input is set up**, unless it ends before. -/
theorem ahead_ofSource {source : σ}
    (h : ofSource ({ inner := source } : Recorded σ) n = .ok i) :
    i.Ahead ∧ i.source.counts.length ≤ 2 := by
  obtain ⟨first, second, -, -, -, hkept, hstart, -⟩ := kept_ofSource h
  obtain ⟨hn, i₁, hfirst, hsecond⟩ := loads_of_ofSource h
  have hfills₁ := fills_load .left 0
    ({ source := { inner := source }, window := Window.blank n hn } : Input (Recorded σ) n)
  have hfills₂ := fills_load .right 1 i₁
  rw [hfirst] at hfills₁
  rw [hsecond] at hfills₂
  -- The first slot is always read, and the second one unless that was short.
  have hone : i₁.source.counts.length = 1 := by
    cases hfills₁ with
    | ended hsome _ _ => exact absurd rfl hsome
    | full _ hcounts _ _ => simp [hcounts]
    | short _ hcounts _ _ => simp [hcounts]
  have hzero : i.window.start / n + 2 = 2 := by rw [hstart, Nat.zero_div]
  have htwo : i.source.counts.length ≤ 2 := by
    have hmore := hfills₂.length_le
    rwa [leaves, hone] at hmore
  refine ⟨⟨⟨_, hkept⟩, fun hnone => ?_, hzero.symm ▸ htwo⟩, htwo⟩
  rw [hzero]
  cases hfills₂ with
  | ended hsome _ hstop => exact absurd (hstop ▸ hnone) hsome
  | full _ hcounts _ _ => simp [hcounts, hone]
  | short _ hcounts _ _ => simp [hcounts, hone]

/-! ### After any calls -/

/-- **What holds of the reads of an input after some calls.** -/
structure ReadsAhead (i₀ : Input (Recorded σ) n) (calls : List Call) : Prop where
  /-- A short read is the last one. -/
  short_last : ∀ k r, (i₀.after calls).source.counts[k]? = some r → isShort n r = true →
    (i₀.after calls).source.counts.length = k + 1
  /-- After a short read the source is left alone for ever. -/
  untouched : ∀ r ∈ (i₀.after calls).source.counts, isShort n r = true →
    ∀ later, (i₀.after (calls ++ later)).source = (i₀.after calls).source
  /-- To set up the input takes two reads at most, and a call one. -/
  length_le : (i₀.after calls).source.counts.length ≤ calls.length + 2
  /-- If no read has failed, there was one for each epoch up to the one behind the start's, as long
  as none was short. -/
  length_eq : (∀ failure, .error failure ∉ (i₀.after calls).source.counts) →
    (i₀.after calls).source.counts.length =
      match firstShort? n (i₀.after calls).source.counts with
      | some k => min ((i₀.after calls).window.start / n + 2) (k + 1)
      | none => (i₀.after calls).window.start / n + 2

theorem readsAhead_of_ofSource {source : σ} {i₀ : Input (Recorded σ) n}
    (h : ofSource ({ inner := source } : Recorded σ) n = .ok i₀) (calls : List Call) :
    i₀.ReadsAhead calls := by
  have hrecounts : (i₀.after calls).Recounts :=
    keeps_after (Q := Recounts) (fun _ c hi => hi.leave c) calls (recounts_ofSource h)
  have hahead := keeps_after (Q := fun i => (∃ failure, .error failure ∈ i.source.counts) ∨ i.Ahead)
    (fun _ c hi => ahead_leave hi c) calls (Or.inr (ahead_ofSource h).1)
  constructor
  case short_last => exact fun k r hk hr => (hrecounts.short_last hk hr).1
  case untouched =>
    intro r hmem hr later
    obtain ⟨k, hk⟩ := List.getElem?_of_mem hmem
    rw [after, List.foldl_append]
    exact source_after_of_stop (hrecounts.short_last hk hr).2 later
  case length_le =>
    have hmore := length_counts_after i₀ calls
    have htwo := (ahead_ofSource h).2
    omega
  case length_eq =>
    intro hnone
    have hahead := hahead.resolve_left fun ⟨failure, hmem⟩ => hnone failure hmem
    have hle := hahead.length_le
    rcases hrecounts.firstShort?_eq with ⟨hshort, hstop⟩ | ⟨k, hshort, hlength⟩
    · rw [hshort]
      exact hahead.running hstop
    · rw [hshort, hlength]
      simp only
      omega

end Record

/-! ### Bytes in memory -/

section Memory

variable {i i' : Input Memory n} {text : List UInt8}

/-- **An input over bytes in memory that has taken all up to the edge of its window.** -/
structure Drawn (i : Input Memory n) (text : List UInt8) : Prop where
  /-- The window is well kept. -/
  window : i.window.Shows text
  /-- What lies behind the edge has not been handed out. -/
  rest_eq : i.source.rest = text.drop i.window.edge

theorem Drawn.shows (h : i.Drawn text) : i.Shows text := by
  refine ⟨h.window, fun _ => ?_⟩
  rw [← h.rest_eq]
  exact Memory.faithful _

/-- **A slot that is filled with an epoch takes it from memory**, if there is something of it. -/
theorem rest_load {side : Side} {epoch : Nat}
    (hstop : i.window.stop = if text.length < epoch * n then some text.length else none)
    (hrest : i.source.rest = text.drop (epoch * n)) (h : load side epoch i = .ok () i') :
    i'.source.rest = text.drop ((epoch + 1) * n) := by
  rw [Nat.add_mul, Nat.one_mul]
  rw [load] at h
  simp only at h
  by_cases hlen : text.length < epoch * n
  · rw [hstop, if_pos hlen] at h
    cases h
    rw [hrest, List.drop_eq_nil_of_le (Nat.le_of_lt hlen), List.drop_eq_nil_of_le (by omega)]
  · rw [hstop, if_neg hlen] at h
    cases h
    rw [← List.drop_drop, ← hrest]

theorem drawn_ofSource (h : ofSource ({ rest := text } : Memory) n = .ok i) : i.Drawn text := by
  obtain ⟨hn, i₁, hfirst, hsecond⟩ := loads_of_ofSource h
  obtain ⟨i', hof, hshows, hstart, -⟩ := ofSource_eq (Memory.faithful text) hn
  obtain rfl : i = i' := Except.ok.inj (h.symm.trans hof)
  refine ⟨hshows.window, ?_⟩
  have hrest₁ : i₁.source.rest = text.drop (1 * n) :=
    rest_load (by simp [Window.blank]) (by simp) hfirst
  have hstop₁ : i₁.window.stop = if text.length < 1 * n then some text.length else none := by
    obtain ⟨source, slot, hload, -⟩ :=
      load_eq ({ source := { rest := text }, window := Window.blank n hn } : Input Memory n) text
        .left 0 (by simp [Window.blank]) (by simpa using Memory.faithful text)
    rw [hfirst] at hload
    cases hload
    rfl
  rw [rest_load hstop₁ hrest₁ hsecond, Window.edge, hstart, Nat.zero_div]

/-- **A call takes from memory what lies between the older edge and the new one.** -/
theorem Drawn.leave (h : i.Drawn text) (c : Call) : (i.leave c).Drawn text := by
  refine ⟨(h.shows.leave c).window, ?_⟩
  by_cases hc : c = .mark
  · subst hc
    rw [Input.leave]
    by_cases hsame : i.window.pos / n = (i.window.slot i.window.startSide).epoch
    · rw [mark_stays hsame]
      refine h.rest_eq.trans ?_
      simp only [leaves, Window.edge, startLexeme, hsame.trans h.window.near.epoch_eq]
    · have hedge : i.window.edge = (i.window.pos / n + 1) * n := by
        rw [h.window.epoch_next hsame]
        rfl
      obtain ⟨source, slot, hload, -⟩ :=
        load_eq { i with window := { i.window with startSide := i.window.posSide } } text
          i.window.startSide (i.window.pos / n + 1) (hedge ▸ h.window.stop_eq)
          (hedge ▸ h.shows.supply)
      rw [mark_of_load hsame hload]
      refine (rest_load (hedge ▸ h.window.stop_eq) (hedge ▸ h.rest_eq) hload).trans ?_
      simp [leaves, startLexeme, Window.edge]
  · obtain ⟨-, hedge, hsource⟩ := shows_leave h.window hc
    rw [hsource, hedge]
    exact h.rest_eq

end Memory

/-- **An input reads two epochs ahead and stops at the first short read**, over any source, also one
that fails or claims what it likes, and whatever is called; and over a supplier that need not end,
whatever the limit on its reads, which a high one never comes to. Of bytes in memory there is left
what lies behind the epoch after the start's. -/
theorem readsAhead_ofSource [Source σ] :
    (∀ (source : σ) (i₀ : Input (Recorded σ) n), ofSource { inner := source } n = .ok i₀ →
      ∀ calls, i₀.ReadsAhead calls) ∧
    (∀ (supplier : Supplier τ) (state : τ) (limit : Nat)
      (i₀ : Input (Recorded (Limited supplier)) n),
      ofSource { inner := { state, left := limit } } n = .ok i₀ → ∀ calls, i₀.ReadsAhead calls) ∧
    ∀ (text : List UInt8) (i₀ : Input Memory n), ofSource { rest := text } n = .ok i₀ →
      ∀ calls, (i₀.after calls).source.remaining =
        text.length - ((i₀.after calls).window.start / n + 2) * n := by
  refine ⟨fun _ _ hof => readsAhead_of_ofSource hof, fun _ _ _ _ hof => readsAhead_of_ofSource hof,
    fun text i₀ hof calls => ?_⟩
  have hdrawn : (i₀.after calls).Drawn text :=
    keeps_after (Q := fun i => i.Drawn text) (fun _ c hi => hi.leave c) calls (drawn_ofSource hof)
  rw [Memory.remaining, hdrawn.rest_eq, List.length_drop]
  rfl

/-- A supplier that goes on with line feeds for ever. -/
def lineFeeds : Supplier Unit where
  read n _ _ := ({ buffer := Vector.replicate n 0x0A, count := .ok n }, ())

/-- A source whose second read claims too much and whose third one is short, line feeds for ever, and
seven bytes in memory. -/
theorem readsAhead_ofSource_thirdShort :
    (∃ i₀ : Input (Recorded Script) 2,
      ofSource { inner := { steps := [.deliver [0x61, 0x62] none, .deliver [0x63] (some 9),
        .deliver [0x64] none, .deliver [0x65, 0x66] none] } } 2 = .ok i₀ ∧
      (i₀.after [.advance 3, .mark]).source.counts = [.ok 2, .ok 9, .ok 1] ∧
      (i₀.after [.advance 3, .mark]).window.start / 2 + 2 = 3 ∧
      ∀ later, (i₀.after ([.advance 3, .mark] ++ later)).source =
        (i₀.after [.advance 3, .mark]).source) ∧
    (∀ limit, ∃ i₀ : Input (Recorded (Limited lineFeeds)) 2,
      ofSource { inner := { state := (), left := limit + 2 } } 2 = .ok i₀ ∧
      ∀ calls, i₀.ReadsAhead calls) ∧
    ∃ i₀ : Input Memory 2, ofSource { rest := [1, 2, 3, 4, 5, 6, 7] } 2 = .ok i₀ ∧
      ∀ calls, (i₀.after calls).source.remaining =
        7 - ((i₀.after calls).window.start / 2 + 2) * 2 := by
  obtain ⟨hsource, hsupplier, hmemory⟩ := readsAhead_ofSource (σ := Script) (τ := Unit) (n := 2)
  refine ⟨?_, fun limit => ⟨_, rfl, hsupplier lineFeeds () (limit + 2) _ rfl⟩, ?_⟩
  · obtain ⟨i₀, hof, hcounts, hstart⟩ : ∃ i₀ : Input (Recorded Script) 2,
        ofSource { inner := { steps := [.deliver [0x61, 0x62] none, .deliver [0x63] (some 9),
          .deliver [0x64] none, .deliver [0x65, 0x66] none] } } 2 = .ok i₀ ∧
        (i₀.after [.advance 3, .mark]).source.counts = [.ok 2, .ok 9, .ok 1] ∧
        (i₀.after [.advance 3, .mark]).window.start / 2 + 2 = 3 := ⟨_, rfl, rfl, rfl⟩
    refine ⟨i₀, hof, hcounts, hstart, ?_⟩
    exact (hsource _ i₀ hof [.advance 3, .mark]).untouched (.ok 1) (by simp [hcounts]) rfl
  · obtain ⟨i₀, hof⟩ : ∃ i₀ : Input Memory 2,
        ofSource ({ rest := [1, 2, 3, 4, 5, 6, 7] } : Memory) 2 = .ok i₀ := ⟨_, rfl⟩
    exact ⟨i₀, hof, hmemory _ i₀ hof⟩

end Input

end XPathScan
