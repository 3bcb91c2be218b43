import Mathlib.Data.List.TakeWhile
import XPathScan.Proofs.Input.Kept

/-!
# Searching slot by slot and byte by byte

A search for a byte jumps: it looks through what is left of the position's slot and goes on behind
it, so that it makes one move for each slot and not one for each byte. The plain way is a loop that
moves by one byte until it stands on the byte or at the end (`XPathScan.Input.stepUntil`). Over a
faithful source the two cannot be told apart as long as they succeed, wherever the slots are cut and
whether or not the end of the text is known already, because both end behind the same run of other
bytes. Where that run does not fit into the window both overflow, but not at the same place: the
loop has come to the last byte before the edge, and the search only to the slot in which it gave up.

* `XPathScan.Input.Shows.stepUntil_eq` – where the loop ends;
* `XPathScan.Window.Shows.eatUntil_overflow` – where a search is that has overflowed;
* `XPathScan.Input.after_searchesAlike` – the two side by side, after any calls.
-/

namespace XPathScan

variable {σ : Type} {n : Nat} {text : List UInt8} {needle : UInt8}

/-! ### Bytes that are passed over -/

/-- **Every byte of a run has the property.** -/
theorem getElem?_of_lt_runLength {q : UInt8 → Bool} {p k : Nat}
    (h : k < runLength q (text.drop p)) : ∃ b, text[p + k]? = some b ∧ q b = true := by
  have hbegins : (text.drop p).takeWhile q <+: text.drop p := List.takeWhile_prefix q
  have hlt : k < (text.drop p).length := Nat.lt_of_lt_of_le h hbegins.length_le
  refine ⟨(text.drop p)[k], ?_, ?_⟩
  · rw [← List.getElem?_drop, List.getElem?_eq_getElem hlt]
  · rw [← hbegins.getElem h]
    exact List.mem_takeWhile_imp (List.getElem_mem h)

namespace Window

variable {w w' : Window n}

/-- Before the end of the text the byte at the position is one of its bytes. -/
theorem Shows.getElem?_pos (h : w.Shows text) (hend : ¬w.isAtEnd = true) :
    text[w.pos]? = some w.current := by
  have hlt : w.pos < text.length :=
    Nat.lt_of_le_of_ne h.pos_le fun heq => hend (h.isAtEnd_iff.mpr heq)
  rw [current, h.peek_eq, List.getElem?_eq_getElem hlt, Option.getD_some]

/-- **A search that has overflowed is somewhere in the run of other bytes**, and but for the position
nothing has changed. -/
theorem Shows.eatUntil_overflow (h : w.Shows text) {overflow : Overflow}
    (hsearch : w.eatUntil needle = .error (.overflow overflow) w') :
    ∃ p, w' = w.movedTo p ∧ w'.Shows text ∧ w.pos ≤ p ∧
      p ≤ w.pos + runLength (· != needle) (text.drop w.pos) := by
  fun_induction eatUntil needle w with
  | case1 w hend => cases hsearch
  | case2 w hend hfill => cases hsearch
  | case3 w hend hfill i hfind => cases hsearch
  | case4 w hend hfill hfind hmoves => cases hsearch
  | case5 w hend hfill hfind hmoves overflow hmove =>
    injection hsearch with _ hsame
    subst hsame
    exact ⟨w.pos, h.movedTo_self.symm, h, Nat.le_refl _, Nat.le_add_right _ _⟩
  | case6 w hend hfill hfind hmoves v hmove hless ih =>
    -- The rest of the slot belongs to the run, which goes on where the next slot begins.
    rw [h.advance_eq] at hmove
    split at hmove
    · next hfits =>
      cases hmove
      have hstart := h.start_le
      have hin : w.pos + (w.here.fill - w.pos % n) ≤ text.length := by
        have hlen := h.holds_here.fill_eq
        have hdiv := Nat.div_add_mod' w.pos n
        have hpos := h.pos_le
        omega
      rw [Nat.min_eq_left hin] at ih hsearch
      obtain ⟨p, rfl, hshows, hle, hrun⟩ := ih (h.movedTo (by omega) hin hfits) hsearch
      rw [movedTo_pos] at hle hrun
      refine ⟨p, movedTo_movedTo .., hshows, by omega, ?_⟩
      rw [h.runLength_of_find?_none hfind]
      omega
    · cases hmove

end Window

namespace Input

variable {i i' : Input σ n}

/-! ### One byte at a time -/

/-- A move forward of an input is one of its window. -/
theorem advance_eq_ok {count : Nat} (h : advance count i = .ok () i') :
    i.window.advance count = .ok i'.window ∧ i'.source = i.source := by
  rw [advance] at h
  split at h
  · next hmove =>
    cases h
    exact ⟨hmove, rfl⟩
  · cases h

/-- **Move forward by one byte until the position is at `needle`**, or at the end of the input. The
answer is whether the byte was found. -/
def stepUntil (needle : UInt8) (i : Input σ n) : EStateM.Result Overflow (Input σ n) Bool :=
  if hend : i.window.isAtEnd then .ok false i
  else if i.window.current = needle then .ok true i
  else
    match hmove : advance 1 i with
    | .error overflow i' => .error overflow i'
    | .ok _ i' =>
      have : i'.window.room < i.window.room :=
        Window.room_advance_lt Nat.one_pos (by simpa using hend) (advance_eq_ok hmove).1
      stepUntil needle i'
termination_by i.window.room

variable [Source σ]

/-- **The loop ends behind the run of other bytes** if that fits, and overflows if it does not. -/
theorem Shows.stepUntil_eq (h : i.Shows text) (needle : UInt8) :
    (i.window.Fits text (i.window.pos + runLength (· != needle) (text.drop i.window.pos)) →
      i.stepUntil needle =
        .ok (decide (i.window.pos + runLength (· != needle) (text.drop i.window.pos) < text.length))
          { i with window :=
              i.window.movedTo (i.window.pos + runLength (· != needle) (text.drop i.window.pos)) }) ∧
    (¬i.window.Fits text (i.window.pos + runLength (· != needle) (text.drop i.window.pos)) →
      ∃ i', i.stepUntil needle = .error { bufferSize := n, offset := i.window.start } i') := by
  fun_induction stepUntil needle i with
  | case1 i hend =>
    have hpos := h.window.isAtEnd_iff.mp hend
    rw [List.drop_eq_nil_of_le (Nat.le_of_eq hpos.symm), runLength_nil, Nat.add_zero,
      h.window.movedTo_self]
    exact ⟨fun _ => by simp [hpos], fun hfits => absurd h.window.fits_pos hfits⟩
  | case2 i hend hfound =>
    have hbyte := h.window.getElem?_pos hend
    rw [drop_eq_cons hbyte, runLength_cons_of_neg (by simp [hfound]), Nat.add_zero,
      h.window.movedTo_self]
    have hlt : i.window.pos < text.length := (List.getElem?_eq_some_iff.mp hbyte).1
    exact ⟨fun _ => by simp [hlt], fun hfits => absurd h.window.fits_pos hfits⟩
  | case3 i hend hother overflow i' hmove =>
    have hbyte := h.window.getElem?_pos hend
    rw [h.advance_eq] at hmove
    split at hmove
    · cases hmove
    · next hfits =>
      cases hmove
      rw [drop_eq_cons hbyte, runLength_cons_of_pos (by simpa using hother)]
      exact ⟨fun hc => absurd (hc.mono (by omega)) hfits, fun _ => ⟨_, rfl⟩⟩
  | case4 i hend hother _ i' hmove hless ih =>
    have hbyte := h.window.getElem?_pos hend
    have hlt : i.window.pos + 1 ≤ text.length := (List.getElem?_eq_some_iff.mp hbyte).1
    rw [h.advance_eq, Nat.min_eq_left hlt] at hmove
    split at hmove
    · next hfits =>
      cases hmove
      have hstart := h.window.start_le
      have ih := ih (h.movedTo (by omega) hlt hfits)
      rw [drop_eq_cons hbyte, runLength_cons_of_pos (by simpa using hother)]
      simpa only [Window.movedTo_pos, Window.movedTo_start, Window.movedTo_movedTo,
        Window.fits_movedTo, Nat.add_assoc, Nat.add_comm 1] using ih
    · cases hmove

/-! ### The two side by side -/

/-- **A search and the loop, side by side**: both end, in one of two ways. -/
inductive SearchesAlike (i : Input σ n) (text : List UInt8) (needle : UInt8) : Prop
  /-- Both succeed with the same answer, and leave the same input behind. -/
  | ends {answer : Bool} {i' : Input σ n} :
      eatUntil needle i = .ok answer i' → i.stepUntil needle = .ok answer i' →
      SearchesAlike i text needle
  /-- Both overflow with the same error. The search has left the start where it was, has passed only
  over bytes other than the one searched for, and the lexeme is still that of the text. -/
  | overflow {overflow : Overflow} {i' i'' : Input σ n} :
      eatUntil needle i = .error (.overflow overflow) i' →
      i.stepUntil needle = .error overflow i'' →
      i'.window.start = i.window.start → i.window.pos ≤ i'.window.pos →
      (∀ p, i.window.pos ≤ p → p < i'.window.pos → ∃ b, text[p]? = some b ∧ b ≠ needle) →
      i'.window.lexeme = (text.drop i'.window.start).take (i'.window.pos - i'.window.start) →
      SearchesAlike i text needle

/-- **A search over a text is the loop**, wherever the input stands. -/
theorem Shows.searchesAlike (h : i.Shows text) (needle : UInt8) : i.SearchesAlike text needle := by
  obtain ⟨hends, hoverflow⟩ := h.window.eatUntil_eq needle
  obtain ⟨hends', hoverflow'⟩ := h.stepUntil_eq needle
  by_cases hfits :
      i.window.Fits text (i.window.pos + runLength (· != needle) (text.drop i.window.pos))
  · refine .ends ?_ (hends' hfits)
    rw [eatUntil, hends hfits]
  · obtain ⟨w, hsearch⟩ := hoverflow hfits
    obtain ⟨i'', hloop⟩ := hoverflow' hfits
    obtain ⟨p, rfl, hshows, hle, hrun⟩ := h.window.eatUntil_overflow hsearch
    have hleaves : eatUntil needle i = .error (.overflow { bufferSize := n, offset := i.window.start })
        { i with window := i.window.movedTo p } := by
      rw [eatUntil, hsearch]
    refine .overflow hleaves hloop rfl hle (fun q hpos hq => ?_) hshows.lexeme_eq
    rw [Window.movedTo_pos] at hq
    have hin : q - i.window.pos < runLength (· != needle) (text.drop i.window.pos) := by omega
    obtain ⟨b, hb, hne⟩ := getElem?_of_lt_runLength hin
    rw [Nat.add_sub_cancel' hpos] at hb
    exact ⟨b, hb, by simpa using hne⟩

/-- **Over a faithful source a search does what the loop over single bytes does**, after any calls,
searches among them and calls that have failed. So it never stalls, and never looks where a slot has
no input. -/
theorem after_searchesAlike {source : σ} (hsource : Source.Faithful source text) (hn : 0 < n) :
    ∃ i₀ : Input σ n, ofSource source n = .ok i₀ ∧
      ∀ calls needle, (i₀.after calls).SearchesAlike text needle := by
  obtain ⟨i₀, hof, hshows, -⟩ := ofSource_eq hsource hn
  refine ⟨i₀, hof, fun calls needle => ?_⟩
  have hafter : (i₀.after calls).Shows text :=
    keeps_after (Q := fun i => i.Shows text) (fun _ c hi => hi.leave c) calls hshows
  exact hafter.searchesAlike needle

/-- Four bytes that fill a window of two buffers of two bytes exactly: a byte that is not among them
is searched for beyond the edge, since the end of the text is not known there. -/
theorem after_searchesAlike_full_window :
    ∃ i₀ : Input Memory 2, ofSource ({ rest := [0x61, 0, 0x0A, 0x62] } : Memory) 2 = .ok i₀ ∧
      ∀ calls needle, (i₀.after calls).SearchesAlike [0x61, 0, 0x0A, 0x62] needle :=
  after_searchesAlike (Memory.faithful _) (by decide)

end Input

end XPathScan
