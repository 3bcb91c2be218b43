import XPathScan.Proofs.Lexicon
import XPathScan.Proofs.Reading.Basic
import XPathScan.Scan.Token

/-!
# The readings of tokens

One reading for each scanner, by the bytes ahead alone. They say which tokens there are: names are
runs with at most one colon between them, numbers are runs of digits with a point and an exponent,
a literal goes up to the first quote that is not doubled, and so on. Each is followed by the proof
that its scanner obeys it, so that `XPathScan.Scan.obeys_token` says of the scanner of any token
that it depends on the window only for whether there is an overflow.

Two readings reach further than their token: that of a name which a colon follows that does not
belong to it, and that of a name which starts with the letter of braced names and is none.

The reading of a name finds the kind by the whole of its bytes, while the scanner has a walk in the
trie that goes along with it. That the walk has seen exactly the bytes of the name, wherever the name
ends and whatever was looked at behind it, is `XPathScan.Scan.obeys_walkName`.
-/

namespace XPathScan

variable {n : Nat} {past ahead : List UInt8}

/-! ### Names -/

/-- **The three forms of names.** -/
inductive NameForm where
  /-- One run of name bytes. -/
  | plain
  /-- Two runs joined by a colon. -/
  | qualified
  /-- A URI between braces, and a run. -/
  | braced
  deriving DecidableEq, Repr

/-- The kind of a name: by its form, unless it is a reserved word. -/
def NameForm.kind (d : Dialect) (name : List UInt8) : NameForm → Kind
  | .plain => d.nameKind name false
  | .qualified => d.nameKind name true
  | .braced => .uriQualifiedName

namespace Reading

/-- Whether a text starts with a colon and the first byte of a name. -/
def joins (c : ByteClass) (t : List UInt8) : Bool :=
  t.head? == some Ascii.colon && t[1]?.any c.startsName

/-- How far one has to go to see whether a colon joins two names. -/
def colonReach (t : List UInt8) : Nat := if t.head? = some Ascii.colon then 1 else 0

/-- What comes after the second part of a qualified name: no colon that joins a third one. -/
def nameEnd (c : ByteClass) (t : List UInt8) : Reading NameForm :=
  if joins c t then broken .multipleColonsInName 1
  else (step .qualified 0).stretch (colonReach t)

/-- **A plain or qualified name.** -/
def name (d : Dialect) (c : ByteClass) (t : List UInt8) : Reading NameForm :=
  after (runLength c.continuesName t) (fun t =>
    if d.supports .qualifiedNames then
      if joins c t then
        after 1 (fun t => after (runLength c.continuesName t) (nameEnd c) t) t
      else (step .plain 0).stretch (colonReach t)
    else step .plain 0) t

/-- **A braced URI and the name after it**, from the opening brace on. -/
def bracedName (c : ByteClass) (t : List UInt8) : Reading NameForm :=
  after 1 (fun t => after (runLength Scan.isUriByte t) (fun t =>
    if t.head? = some Ascii.rightBrace then
      after 1 (fun t =>
        if t.head?.any c.startsName then
          after (runLength c.continuesName t) (fun _ => step .braced 0) t
        else broken .malformedUriQualifiedName 0) t
    else broken .malformedUriQualifiedName 0) t) t

/-- **A name of any form.** -/
def anyName (d : Dialect) (c : ByteClass) (t : List UInt8) : Reading NameForm :=
  if t.head? = some Ascii.upperQ && d.supports .bracedUriLiterals then
    if t[1]? = some Ascii.leftBrace then after 1 (bracedName c) t
    else (name d c t).stretch 1
  else name d c t

/-- A name, with its kind by its bytes. -/
def nameToken (d : Dialect) (c : ByteClass) (t : List UInt8) : Reading Kind :=
  (anyName d c t).mapLength fun form k => form.kind d (t.take k)

/-- **A variable.** -/
def variableToken (d : Dialect) (c : ByteClass) (t : List UInt8) : Reading Kind :=
  after 1 (fun t =>
    if t.head?.any c.startsName then (anyName d c t).mapLength fun _ _ => .variableReference
    else broken .invalidVariableName 0) t

end Reading

namespace Scan

/-- A byte ahead that is known is the first of a text that is not empty. -/
theorem ne_nil_of_head? {t : List UInt8} {b : UInt8} (h : t.head? = some b) : t ≠ [] := by
  rintro rfl
  cases h

/-- A move back after a move by one byte comes back to where it started. -/
theorem retreat_movedTo {w : Window n} {text : List UInt8} (h : w.Faces text past ahead)
    (hne : ahead ≠ []) (hfits : w.Fits text (w.pos + 1)) :
    retreat (w.movedTo (w.pos + 1)) = .ok () w := by
  obtain ⟨b, t, rfl⟩ := List.exists_cons_of_ne_nil hne
  have hstart := h.shows.start_le
  have hmoved := (h.movedTo (k := 1) (by simp) hfits).shows
  have hlen : 1 ≤ (w.movedTo (w.pos + 1)).pos - (w.movedTo (w.pos + 1)).start := by
    rw [Window.movedTo_pos, Window.movedTo_start]
    omega
  have hback := hmoved.retreat_eq hlen
  rw [Window.movedTo_pos, Window.movedTo_movedTo, Nat.add_sub_cancel, h.shows.movedTo_self] at hback
  rw [retreat, hback]

/-- **A look at the byte after the next one**: the scanner moves forward, looks, and moves back
again. What it then does is stretched by the byte that it has gone to. -/
theorem obeys_glance {α β : Type} {look : Scan n β} {v : β} {f : β → Scan n α} {g : Scan n α}
    {r : Reading α} (hne : ahead ≠ [])
    (hlook : Obeys look (past ++ ahead.take 1) (ahead.drop 1) (.step v 0))
    (hf : f v = retreat >>= fun _ => g) (hg : Obeys g past ahead r) :
    Obeys (advance >>= fun _ => look >>= f) past ahead (r.stretch 1) := by
  intro text w hw
  have hadvance : Outcome text ahead w (.step () 1) (advance w) := obeys_advance hne text w hw
  by_cases hfits : w.Fits text (w.pos + 1)
  · obtain ⟨hmove, -, hk⟩ := hadvance.found hfits () 1 rfl
    have hmoved := hw.movedTo hk hfits
    have hsame : look (w.movedTo (w.pos + 1)) = .ok v (w.movedTo (w.pos + 1)) :=
      ((hlook text _ hmoved).found hmoved.shows.fits_pos v 0 rfl).1
    have hback := retreat_movedTo hw hne hfits
    have hrun : (advance >>= fun _ => look >>= f) w = g w := by
      simp [bind, EStateM.bind, hmove, hsame, hf, hback]
    rw [hrun]
    exact (hg text w hw).stretch hfits
  · obtain ⟨w', herr⟩ := hadvance.overflow hfits
    exact .of_overflow (k := 1) (Nat.le_max_left _ _) hfits ⟨w', by simp [bind, EStateM.bind, herr]⟩

/-- **A colon is taken if it joins**, and is left where it is otherwise. -/
theorem obeys_joiningColon {c : ByteClass} :
    Obeys (joiningColon c : Scan n _) past ahead
      (if Reading.joins c ahead then .step true 1
        else (Reading.step false 0).stretch (Reading.colonReach ahead)) := by
  rw [joiningColon]
  refine obeys_peek.bind_look ?_
  by_cases hcolon : ahead.head? = some Ascii.colon
  · have hne := ne_nil_of_head? hcolon
    have hsees : Obeys (sees c.startsName : Scan n _) (past ++ ahead.take 1) (ahead.drop 1)
        (.step ((ahead.drop 1).head?.any c.startsName) 0) := obeys_sees _
    rw [List.head?_drop] at hsees
    rw [if_pos hcolon]
    by_cases hname : ahead[1]?.any c.startsName = true
    · rw [if_pos (by simp [Reading.joins, hcolon, hname])]
      rw [hname] at hsees
      exact Obeys.bind_step (g := fun _ => .step true 0) (obeys_advance hne)
        (hsees.bind_look (obeys_pure true))
    · -- The byte behind the colon has been looked at, and that is all.
      rw [if_neg (by simp [Reading.joins, hname]), Reading.colonReach, if_pos hcolon]
      rw [Bool.eq_false_iff.mpr hname] at hsees
      exact obeys_glance hne hsees rfl (obeys_pure false)
  · rw [if_neg hcolon, if_neg (by simp [Reading.joins, hcolon]), Reading.colonReach,
      if_neg hcolon]
    exact obeys_pure false

/-- The scanner of names goes on behind a colon that joins, and stays before any other. -/
theorem Obeys.bind_joiningColon {α : Type} {c : ByteClass} {f : Bool → Scan n α}
    {g : List UInt8 → Reading α} {r : Reading α}
    (htrue : Reading.joins c ahead = true →
      Obeys (f true) (past ++ ahead.take 1) (ahead.drop 1) (g (ahead.drop 1)))
    (hfalse : Obeys (f false) past ahead r) :
    Obeys (joiningColon c >>= f) past ahead
      (if Reading.joins c ahead then .after 1 g ahead
        else r.stretch (Reading.colonReach ahead)) := by
  have hcolon : Obeys (joiningColon c : Scan n _) past ahead _ := obeys_joiningColon
  by_cases hjoins : Reading.joins c ahead = true
  · rw [if_pos hjoins] at hcolon ⊢
    exact hcolon.bind_step (htrue hjoins)
  · rw [if_neg hjoins] at hcolon ⊢
    exact hcolon.bind_stretch hfalse

/-- A text that starts with a colon which joins, from that colon on. -/
theorem take_of_joins {c : ByteClass} {t : List UInt8} (h : Reading.joins c t = true) (k : Nat) :
    t.take (1 + k) = Ascii.colon :: (t.drop 1).take k := by
  have hhead : t.head? = some Ascii.colon := by
    rw [Reading.joins, Bool.and_eq_true, beq_iff_eq] at h
    exact h.1
  obtain ⟨u, rfl⟩ := List.head?_eq_some_iff.mp hhead
  rw [Nat.add_comm, List.take_succ_cons, List.drop_succ_cons, List.drop_zero]

/-- **The walk along a name is the walk of its bytes**: of both parts and the colon between them if
it is qualified, and of nothing that was only looked at. -/
theorem obeys_walkName (d : Dialect) (c : ByteClass) :
    Obeys (walkName d c : Scan n _) past ahead
      ((Reading.name d c ahead).mapLength fun form k =>
        (d.words.walk (ahead.take k), decide (form = .qualified))) := by
  rw [walkName, Reading.name, Reading.mapLength_after]
  refine (obeys_stepWhile _ _ _).bind_step ?_
  generalize runLength c.continuesName ahead = k
  by_cases hq : d.supports .qualifiedNames = true
  · simp only [hq, if_true, apply_ite (Reading.mapLength _), Reading.mapLength_after,
      Reading.mapLength_stretch, Reading.mapLength_step]
    refine Obeys.bind_joiningColon (fun hjoins => ?_) (obeys_pure _)
    refine (obeys_stepWhile _ _ _).bind_step ?_
    generalize runLength c.continuesName ((ahead.drop k).drop 1) = l
    -- The second run goes on where the walk along the first one and the colon has come to.
    have hwalk : (((ahead.drop k).drop 1).take l).foldl d.words.step
          (d.words.step ((ahead.take k).foldl d.words.step (some Trie.root)) Ascii.colon) =
        d.words.walk (ahead.take (k + (1 + (l + 0)))) := by
      rw [Trie.walk, List.take_add, take_of_joins hjoins, List.foldl_append, List.foldl_cons,
        Nat.add_zero]
    simp only [hwalk, Reading.nameEnd, apply_ite (Reading.mapLength _), Reading.mapLength_stretch,
      Reading.mapLength_step]
    exact Obeys.bind_joiningColon (g := fun _ => .broken _ 0) (fun _ => obeys_reject _)
      (obeys_pure _)
  · simp only [hq]
    exact obeys_pure _

/-- **A plain or qualified name has the kind of its bytes.** -/
theorem obeys_name (d : Dialect) (c : ByteClass) :
    Obeys (name d c : Scan n _) past ahead
      ((Reading.name d c ahead).mapLength fun form k => form.kind d (ahead.take k)) := by
  have hkind : (Reading.name d c ahead).mapLength (fun form k => form.kind d (ahead.take k)) =
      ((Reading.name d c ahead).mapLength fun form k =>
        (d.words.walk (ahead.take k), decide (form = .qualified))).mapLength
        fun r _ => d.kindAt r.1 r.2 := by
    simp only [Reading.mapLength_mapLength, Dialect.kindAt_walk, Reading.name, Reading.nameEnd,
      Reading.mapLength_after, apply_ite (Reading.mapLength _)]
    rfl
  rw [hkind]
  exact (obeys_walkName d c).map_length fun _ _ _ _ _ => rfl

theorem obeys_bracedName (c : ByteClass) (g : NameForm → Nat → Kind)
    (hg : ∀ k, g .braced k = .uriQualifiedName) (h : ahead ≠ []) :
    Obeys (bracedName c : Scan n _) past ahead ((Reading.bracedName c ahead).mapLength g) := by
  simp only [bracedName, Reading.bracedName, Reading.mapLength_after]
  refine (obeys_advance h).bind_step ?_
  refine (obeys_eatWhile _).bind_step ?_
  refine obeys_peek.bind_look ?_
  split
  · next hbrace =>
    rw [Reading.mapLength_after]
    refine (obeys_advance (ne_nil_of_head? hbrace)).bind_step ?_
    refine (obeys_sees _).bind_look ?_
    split
    · simp only [Reading.mapLength_after, Reading.mapLength_step, hg]
      exact (obeys_eatWhile _).bind_step (g := fun _ => .step _ 0) (obeys_pure _)
    · exact obeys_reject _
  · exact obeys_reject _

/-- **A name of any form has the kind of its form and its bytes.** -/
theorem obeys_anyName (d : Dialect) (c : ByteClass) :
    Obeys (anyName d c : Scan n _) past ahead (Reading.nameToken d c ahead) := by
  rw [anyName, Reading.nameToken, Reading.anyName]
  refine obeys_peek.bind_look ?_
  split
  · next hq =>
    have hne : ahead ≠ [] := by
      rintro rfl
      simp at hq
    have hpeek : Obeys (peek : Scan n _) (past ++ ahead.take 1) (ahead.drop 1)
        (.step (ahead.drop 1).head? 0) := obeys_peek
    rw [List.head?_drop] at hpeek
    split
    · next hbrace =>
      rw [Reading.mapLength_after]
      refine (obeys_advance hne).bind_step (hpeek.bind_look ?_)
      rw [if_pos hbrace]
      exact obeys_bracedName c _ (fun _ => rfl) (ne_nil_of_head? (List.head?_drop.trans hbrace))
    · next hbrace => exact obeys_glance hne hpeek (if_neg hbrace) (obeys_name d c)
  · exact obeys_name d c

theorem obeys_variableToken (d : Dialect) (c : ByteClass) (h : ahead ≠ []) :
    Obeys (variableToken d c : Scan n _) past ahead (Reading.variableToken d c ahead) := by
  rw [variableToken, Reading.variableToken]
  refine (obeys_advance h).bind_step ?_
  refine (obeys_sees _).bind_look ?_
  split
  · have hkind : Obeys (anyName d c >>= fun _ => pure Kind.variableReference : Scan n _)
        (past ++ ahead.take 1) (ahead.drop 1) _ :=
      (obeys_anyName d c).map_length (g := fun _ _ => Kind.variableReference) fun _ _ _ _ _ => rfl
    rwa [Reading.nameToken, Reading.mapLength_mapLength] at hkind
  · exact obeys_reject _

end Scan

/-! ### Numbers -/

namespace Reading

/-- The digits of an exponent. -/
def exponentDigits (c : ByteClass) (t : List UInt8) : Reading Kind :=
  if t.head?.any c.isDigit then after (runLength c.isDigit t) (fun _ => step .doubleLiteral 0) t
  else broken .missingExponentDigits 0

/-- **An exponent, or none**, after a number that has the given kind without one. -/
def exponent (d : Dialect) (c : ByteClass) (kind : Kind) (t : List UInt8) : Reading Kind :=
  if d.supports .exponentLiterals &&
      t.head?.any fun b => b == Ascii.lowerE || b == Ascii.upperE then
    after 1 (fun t =>
      if t.head?.any fun b => b == Ascii.plus || b == Ascii.minus then after 1 (exponentDigits c) t
      else exponentDigits c t) t
  else step kind 0

/-- **A number that starts with a digit.** -/
def number (d : Dialect) (c : ByteClass) (t : List UInt8) : Reading Kind :=
  after (runLength c.isDigit t) (fun t =>
    if t.head? = some Ascii.dot then
      after 1 (fun t => after (runLength c.isDigit t) (exponent d c .decimalLiteral) t) t
    else exponent d c .integerLiteral t) t

/-- **A token that starts with a point.** -/
def point (d : Dialect) (c : ByteClass) (t : List UInt8) : Reading Kind :=
  after 1 (fun t =>
    if t.head?.any c.isDigit then
      after (runLength c.isDigit t) (exponent d c .decimalLiteral) t
    else if t.head? = some Ascii.dot then after 1 (fun _ => step (.symbol .parentStep) 0) t
    else step (.symbol .contextItem) 0) t

end Reading

namespace Scan

/-- Where a byte ahead satisfies a predicate, there is one. -/
theorem ne_nil_of_any {t : List UInt8} {p : UInt8 → Bool} (h : t.head?.any p = true) : t ≠ [] := by
  rintro rfl
  cases h

theorem obeys_exponent (d : Dialect) (c : ByteClass) (kind : Kind) :
    Obeys (exponent d c kind : Scan n _) past ahead (Reading.exponent d c kind ahead) := by
  rw [exponent, Reading.exponent]
  refine (obeys_sees _).bind_look ?_
  split
  · next hmark =>
    rw [Bool.and_eq_true] at hmark
    refine (obeys_advance (ne_nil_of_any hmark.2)).bind_step ?_
    refine (obeys_sees _).bind_look ?_
    unfold Reading.exponentDigits
    split
    · next hsign =>
      refine (obeys_advance (ne_nil_of_any hsign)).bind_step ?_
      refine (obeys_sees _).bind_look ?_
      split
      · exact (obeys_eatWhile _).bind_step (g := fun _ => .step _ 0) (obeys_pure _)
      · exact obeys_reject _
    · refine (obeys_sees _).bind_look ?_
      split
      · exact (obeys_eatWhile _).bind_step (g := fun _ => .step _ 0) (obeys_pure _)
      · exact obeys_reject _
  · exact obeys_pure _

theorem obeys_number (d : Dialect) (c : ByteClass) :
    Obeys (number d c : Scan n _) past ahead (Reading.number d c ahead) := by
  rw [number, Reading.number]
  refine (obeys_eatWhile _).bind_step ?_
  refine obeys_peek.bind_look ?_
  split
  · next hdot =>
    refine (obeys_advance (ne_nil_of_head? hdot)).bind_step ?_
    exact (obeys_eatWhile _).bind_step (obeys_exponent d c _)
  · exact obeys_exponent d c _

theorem obeys_point (d : Dialect) (c : ByteClass) (h : ahead ≠ []) :
    Obeys (point d c : Scan n _) past ahead (Reading.point d c ahead) := by
  rw [point, Reading.point]
  refine (obeys_advance h).bind_step ?_
  refine (obeys_sees _).bind_look ?_
  split
  · exact (obeys_eatWhile _).bind_step (obeys_exponent d c _)
  · refine obeys_peek.bind_look ?_
    split
    · next hdot =>
      have hahead := ne_nil_of_head? hdot
      exact (obeys_advance hahead).bind_step (g := fun _ => .step _ 0) (obeys_pure _)
    · exact obeys_pure _

end Scan

/-! ### Operators and punctuation -/

namespace Reading

/-- **A symbol by its rule.** -/
def operator (rule : OperatorRule) (t : List UInt8) : Reading Kind :=
  after 1 (fun t =>
    match t.head?.bind (rule.pairs.lookup ·) with
    | some paired => after 1 (fun _ => step (.symbol paired) 0) t
    | none => step (.symbol rule.alone) 0) t

/-- **A symbol that starts with an exclamation mark.** -/
def bang (d : Dialect) (t : List UInt8) : Reading Kind :=
  after 1 (fun t =>
    if t.head? = some Ascii.equals then after 1 (fun _ => step (.symbol .notEqualTo) 0) t
    else if d.supports .simpleMapOperator then step (.symbol .simpleMap) 0
    else broken (.malformedOperator Ascii.bang Ascii.equals) 0) t

/-- **A question mark**, which the byte after it makes a lookup. -/
def question (d : Dialect) (c : ByteClass) (t : List UInt8) : Reading Kind :=
  after 1 (fun t =>
    if d.supports .lookupOperator && t.head?.any (Scan.startsKey c) then step (.symbol .lookup) 0
    else if d.supports .occurrenceIndicators then step (.symbol .questionMark) 0
    else broken (.unexpectedByte Ascii.question) 0) t

end Reading

namespace Scan

theorem obeys_operator (rule : OperatorRule) (h : ahead ≠ []) :
    Obeys (operator rule : Scan n _) past ahead (Reading.operator rule ahead) := by
  rw [operator, Reading.operator]
  refine (obeys_advance h).bind_step ?_
  refine obeys_peek.bind_look ?_
  cases hpair : (ahead.drop 1).head?.bind (rule.pairs.lookup ·) with
  | some paired =>
    obtain ⟨b, hb, -⟩ := Option.bind_eq_some_iff.mp hpair
    exact (obeys_advance (ne_nil_of_head? hb)).bind_step (g := fun _ => .step _ 0) (obeys_pure _)
  | none => exact obeys_pure _

theorem obeys_bang (d : Dialect) (h : ahead ≠ []) :
    Obeys (bang d : Scan n _) past ahead (Reading.bang d ahead) := by
  rw [bang, Reading.bang]
  refine (obeys_advance h).bind_step ?_
  refine obeys_peek.bind_look ?_
  split
  · next hequals =>
    exact (obeys_advance (ne_nil_of_head? hequals)).bind_step (g := fun _ => .step _ 0)
      (obeys_pure _)
  · split
    · exact obeys_pure _
    · exact obeys_reject _

theorem obeys_question (d : Dialect) (c : ByteClass) (h : ahead ≠ []) :
    Obeys (question d c : Scan n _) past ahead (Reading.question d c ahead) := by
  rw [question, Reading.question]
  refine (obeys_advance h).bind_step ?_
  refine (obeys_sees _).bind_look ?_
  split
  · exact obeys_pure _
  · split
    · exact obeys_pure _
    · exact obeys_reject _

end Scan

/-! ### String literals -/

/-- **The length of a string literal behind its opening quote**, up to and including the closing
one, if there is one. -/
def literalLength (quote : UInt8) (escapes : Bool) : List UInt8 → Option Nat
  | [] => none
  | [b] => if b = quote then some 1 else none
  | b :: b' :: t =>
    if b = quote then
      if escapes = true ∧ b' = quote then (literalLength quote escapes t).map (· + 2) else some 1
    else (literalLength quote escapes (b' :: t)).map (· + 1)

/-- At a quote: it closes the literal, unless it is doubled. -/
theorem literalLength_cons_quote (quote : UInt8) (escapes : Bool) (t : List UInt8) :
    literalLength quote escapes (quote :: t) =
      if escapes = true ∧ t.head? = some quote then
        (literalLength quote escapes t.tail).map (· + 2)
      else some 1 := by
  cases t with
  | nil => simp [literalLength]
  | cons b t => simp [literalLength]

/-- At any other byte: it belongs to the literal. -/
theorem literalLength_cons_of_ne {quote b : UInt8} (hb : b ≠ quote) (escapes : Bool)
    (t : List UInt8) :
    literalLength quote escapes (b :: t) = (literalLength quote escapes t).map (· + 1) := by
  cases t with
  | nil => simp [literalLength, hb]
  | cons b' t => rw [literalLength, if_neg hb]

/-- **Bytes other than the quote belong to the literal.** -/
theorem literalLength_run (quote : UInt8) (escapes : Bool) (t : List UInt8) :
    literalLength quote escapes t =
      (literalLength quote escapes (t.drop (runLength (· != quote) t))).map
        (· + runLength (· != quote) t) := by
  induction t with
  | nil => simp [literalLength]
  | cons b t ih =>
    by_cases hb : b = quote
    · rw [runLength_cons_of_neg (by simp [hb])]
      simp
    · rw [runLength_cons_of_pos (by simpa using hb), literalLength_cons_of_ne hb, ih]
      simp [Function.comp_def, Nat.add_assoc]

/-- **The rest of a string literal.** Without a closing quote the text is read to its end. -/
def Reading.literalRest (quote : UInt8) (escapes : Bool) (t : List UInt8) : Reading Unit :=
  match literalLength quote escapes t with
  | some k => step () k
  | none => broken .unterminatedLiteral t.length

/-- **The rest of a literal, step by step**: the run up to the next quote, the quote, and if it is
doubled another rest. -/
theorem Reading.literalRest_eq (quote : UInt8) (escapes : Bool) (t : List UInt8) :
    literalRest quote escapes t =
      after (runLength (· != quote) t) (fun t =>
        if t = [] then broken .unterminatedLiteral 0
        else
          after 1 (fun t =>
            if escapes = true ∧ t.head? = some quote then after 1 (literalRest quote escapes) t
            else step () 0) t) t := by
  have hlen : runLength (· != quote) t + (t.drop (runLength (· != quote) t)).length = t.length := by
    have := runLength_le (· != quote) t
    rw [List.length_drop]
    omega
  have hhead : ∀ b, (t.drop (runLength (· != quote) t)).head? = some b → b = quote :=
    fun b hb => by simpa using not_of_head?_drop_runLength hb
  unfold literalRest
  rw [literalLength_run]
  generalize runLength (· != quote) t = k at hlen hhead ⊢
  unfold after
  rcases hdrop : t.drop k with _ | ⟨b, u⟩
  · simp_all [literalLength, broken, Except.map]
  · obtain rfl : b = quote := hhead b (by rw [hdrop, List.head?_cons])
    rw [hdrop, List.length_cons] at hlen
    rw [literalLength_cons_quote]
    by_cases hagain : escapes = true ∧ u.head? = some b
    · obtain ⟨b', v, rfl⟩ := List.exists_cons_of_ne_nil (Scan.ne_nil_of_head? hagain.2)
      rw [List.length_cons] at hlen
      simp only [if_pos hagain, List.drop_succ_cons, List.drop_zero, List.tail_cons, reduceCtorEq,
        if_false]
      cases literalLength b escapes v with
      | none =>
        simp only [broken, Option.map_none, Except.map, Reading.mk.injEq, and_true]
        omega
      | some l =>
        simp only [step, Option.map_some, Except.map, Reading.mk.injEq, Except.ok.injEq,
          Prod.mk.injEq, true_and]
        omega
    · simp only [if_neg hagain, List.drop_succ_cons, List.drop_zero, step, Option.map_some,
        Except.map, reduceCtorEq, if_false, Reading.mk.injEq, Except.ok.injEq, Prod.mk.injEq,
        true_and]
      omega

namespace Scan

/-- A search moves over the run of other bytes, and finds the byte if there is something behind
the run. -/
theorem obeys_eatUntil (needle : UInt8) :
    Obeys (eatUntil needle : Scan n _) past ahead
      (.step (decide (runLength (· != needle) ahead < ahead.length))
        (runLength (· != needle) ahead)) := by
  refine Obeys.of_step (runLength_le _ ahead) fun text w hw => ?_
  have hlen := hw.length_ahead
  obtain ⟨hmove, hover⟩ := hw.shows.eatUntil_eq needle
  rw [hw.ahead_eq] at hmove hover
  have hfound : w.pos + runLength (· != needle) ahead < text.length ↔
      runLength (· != needle) ahead < ahead.length := by omega
  rw [eatUntil]
  refine ⟨fun hfits => ?_, fun hfits => ?_⟩
  · rw [hmove hfits, decide_eq_decide.mpr hfound]
  · obtain ⟨w', herr⟩ := hover hfits
    exact ⟨w', by rw [herr]; rfl⟩

/-- The scanner of the rest of a literal, put together from pieces. -/
theorem literalRest_eq (quote : UInt8) (escapes : Bool) :
    (literalRest quote escapes : Scan n Unit) = (do
      let found ← eatUntil quote
      if found then
        advance
        if escapes = true ∧ (← peek) = some quote then
          advance
          literalRest quote escapes
        else pure ()
      else reject .unterminatedLiteral : Scan n Unit) := by
  funext w
  rw [literalRest]
  -- One case for each way in which one of the pieces can end.
  split
  · next e w₁ hfind => simp [bind, EStateM.bind, eatUntil, hfind]
  · next w₁ hfind =>
    simp [bind, EStateM.bind, eatUntil, hfind]
    rfl
  · next w₁ hfind =>
    split
    · next o hclose => simp [bind, EStateM.bind, eatUntil, hfind, advance, hclose]
    · next w₂ hclose =>
      split
      · next hagain =>
        split
        · next o hpair =>
          simp [bind, EStateM.bind, eatUntil, hfind, advance, hclose, peek, hagain, hpair]
        · next w₃ hpair =>
          simp [bind, EStateM.bind, eatUntil, hfind, advance, hclose, peek, hagain, hpair]
      · next hagain =>
        simp [bind, EStateM.bind, eatUntil, hfind, advance, hclose, peek, hagain, pure,
          EStateM.pure]

theorem obeys_literalRest (quote : UInt8) (escapes : Bool) :
    Obeys (literalRest quote escapes : Scan n _) past ahead
      (Reading.literalRest quote escapes ahead) := by
  -- Each doubled quote leaves a shorter rest.
  induction hlen : ahead.length using Nat.strongRecOn generalizing past ahead with
  | ind len ih =>
    have hrun := runLength_le (· != quote) ahead
    rw [literalRest_eq, Reading.literalRest_eq]
    refine (obeys_eatUntil quote).bind_step ?_
    by_cases hnil : ahead.drop (runLength (· != quote) ahead) = []
    · have hend : ¬runLength (· != quote) ahead < ahead.length := by
        have := congrArg List.length hnil
        rw [List.length_drop, List.length_nil] at this
        omega
      rw [if_pos hnil, decide_eq_false hend]
      exact obeys_reject _
    · have hbehind : runLength (· != quote) ahead < ahead.length := by
        have := List.length_pos_iff.mpr hnil
        rw [List.length_drop] at this
        omega
      rw [if_neg hnil, decide_eq_true hbehind]
      refine (obeys_advance hnil).bind_step ?_
      refine obeys_peek.bind_look ?_
      split
      · next hagain =>
        refine (obeys_advance (ne_nil_of_head? hagain.2)).bind_step ?_
        refine ih _ ?_ rfl
        simp only [List.length_drop]
        omega
      · exact obeys_pure ()

end Scan

/-- **A string literal.** -/
def Reading.literal (d : Dialect) (quote : UInt8) (t : List UInt8) : Reading Kind :=
  after 1 (fun t =>
    (literalRest quote (d.supports .escapedQuotes) t).mapLength fun _ _ => .stringLiteral) t

theorem Scan.obeys_literal (d : Dialect) (quote : UInt8) (h : ahead ≠ []) :
    Obeys (literal d quote : Scan n _) past ahead (Reading.literal d quote ahead) := by
  rw [literal, Reading.literal]
  refine (obeys_advance h).bind_step ?_
  exact (obeys_literalRest _ _).map_length fun _ _ _ _ _ => rfl

/-! ### Tokens -/

namespace Reading

/-- **A token that starts with the given byte.** -/
def tokenAt (d : Dialect) (c : ByteClass) (b : UInt8) (t : List UInt8) : Reading Kind :=
  if b = Ascii.quote ∨ b = Ascii.apostrophe then literal d b t
  else if b = Ascii.dot then point d c t
  else if b = Ascii.dollar ∧ d.supports .variableReferences then variableToken d c t
  else if b = Ascii.bang then bang d t
  else if b = Ascii.question then question d c t
  else
    match operatorRule? d b with
    | some rule => operator rule t
    | none =>
      if c.isDigit b then number d c t
      else if c.startsName b then nameToken d c t
      else broken (.unexpectedByte b) 0

/-- **The token at the beginning of a text**, which for the empty text is the end of the input. -/
def token (d : Dialect) (c : ByteClass) (t : List UInt8) : Reading Kind :=
  match t with
  | [] => step .eof 0
  | b :: _ => tokenAt d c b t

end Reading

namespace Scan

theorem obeys_tokenAt (d : Dialect) (c : ByteClass) (b : UInt8) (h : ahead ≠ []) :
    Obeys (tokenAt d c b : Scan n _) [] ahead (Reading.tokenAt d c b ahead) := by
  rw [tokenAt, Reading.tokenAt]
  split
  · exact obeys_literal d b h
  split
  · exact obeys_point d c h
  split
  · exact obeys_variableToken d c h
  split
  · exact obeys_bang d h
  split
  · exact obeys_question d c h
  cases operatorRule? d b with
  | some rule => exact obeys_operator rule h
  | none =>
    simp only
    split
    · exact obeys_number d c
    split
    · exact obeys_anyName d c
    · exact obeys_reject _

/-- **The scanner of tokens obeys the reading of the bytes ahead**, at the start of a lexeme. -/
theorem obeys_token (d : Dialect) (c : ByteClass) :
    Obeys (token d c : Scan n _) [] ahead (Reading.token d c ahead) := by
  rw [token]
  refine obeys_peek.bind_look ?_
  cases ahead with
  | nil => exact obeys_pure _
  | cons b t => exact obeys_tokenAt d c b (List.cons_ne_nil b t)

/-- **What can become of the scan of a token** at the start of a lexeme, whatever is ahead: the
position has moved forward, or there is an error that is not a fault. -/
theorem token_cases {w : Window n} {text : List UInt8} (h : w.Faces text [] ahead) (d : Dialect)
    (c : ByteClass) :
    (∃ kind k, token d c w = .ok kind (w.movedTo (w.pos + k)) ∧ k ≤ ahead.length ∧
      w.Fits text (w.pos + k) ∧ (Reading.token d c ahead).found = .ok (kind, k)) ∨
    ∃ e w', token d c w = .error e w' ∧ ∀ f, e ≠ .fault f := by
  obtain ⟨hfound, hmalformed, hoverflow⟩ := obeys_token d c text w h
  by_cases hfits : w.Fits text (w.pos + (Reading.token d c ahead).reach)
  · rcases hreading : (Reading.token d c ahead).found with m | ⟨kind, k⟩
    · obtain ⟨w', hscan⟩ := hmalformed hfits m hreading
      exact Or.inr ⟨_, w', hscan, nofun⟩
    · obtain ⟨hscan, hreach, hk⟩ := hfound hfits kind k hreading
      exact Or.inl ⟨kind, k, hscan, hk, hfits.mono (Nat.add_le_add_left hreach _), rfl⟩
  · obtain ⟨w', hscan⟩ := hoverflow hfits
    exact Or.inr ⟨_, w', hscan, nofun⟩

end Scan

end XPathScan
