import XPathScan.Proofs.Reading.Bounds

/-!
# What ends a token

A reading that has found a token knows where it ends because of what comes behind it. It does not
know much of that: the next byte does not go on with the token, and if it is a colon, the byte
after it does not start a name. So the text behind a token can be replaced by another one without
a change, as long as the other one ends a token wherever the first one does
(`XPathScan.EndsLike`). Four replacements are of this sort:

* nothing at all, when a token is read on its own;
* a shorter piece of the same text;
* another text that has the same two first bytes;
* whatever stands between two tokens, since neither a blank nor the parenthesis of a comment goes
  on with a token.

A reading *keeps* what it finds (`XPathScan.Reading.Keeps`) if it finds the same before all such
texts. All readings of tokens do, with one exception: a question mark is told apart from a lookup
by the byte behind it, so it keeps its length but not its kind.

* `XPathScan.Reading.token_of_endsLike` – the token at the beginning of a text, when what comes
  behind it is replaced.
-/

namespace XPathScan

variable {α β : Type} {u rest rest' : List UInt8}

/-! ### Texts that end a token alike -/

/-- **The first bytes of what may stand between two tokens**: the blanks, and the parenthesis of a
comment. -/
def separators : List UInt8 :=
  [Ascii.space, Ascii.tab, Ascii.carriageReturn, Ascii.lineFeed, Ascii.leftParen]

/-- **A property of bytes that no separator has.** -/
def Inert (p : UInt8 → Bool) : Prop := separators.any p = false

theorem Inert.eq_false {p : UInt8 → Bool} (h : Inert p) {b : UInt8} (hb : b ∈ separators) :
    p b = false := by
  simpa using List.any_eq_false.mp h b hb

theorem inert_startsName : Inert ByteClass.xml.startsName := rfl

theorem inert_continuesName : Inert ByteClass.xml.continuesName := rfl

theorem inert_isDigit : Inert ByteClass.xml.isDigit := rfl

/-- **A text that ends a token wherever another one does.** -/
structure EndsLike (rest rest' : List UInt8) : Prop where
  /-- It starts with the same byte, or with one that stands between tokens, or is empty. -/
  head?_eq : ∀ b, rest'.head? = some b → b ∉ separators → rest.head? = some b
  /-- It does not start with a colon that joins, unless the other one does too. -/
  joins : Reading.joins .xml rest' = true → Reading.joins .xml rest = true

/-- A colon joins if the first byte of a name comes behind it. -/
theorem Reading.joins_iff {c : ByteClass} {t : List UInt8} :
    joins c t = true ↔
      t.head? = some Ascii.colon ∧ ∃ b, t[1]? = some b ∧ c.startsName b = true := by
  simp [joins, Option.any_eq_true]

namespace EndsLike

/-- **A text of which the other one has the two first bytes**, as far as it has two. -/
theorem of_getElem? (h : ∀ i < 2, ∀ b, rest'[i]? = some b → rest[i]? = some b) :
    EndsLike rest rest' := by
  have hhead : ∀ b, rest'.head? = some b → rest.head? = some b := by
    simpa only [List.head?_eq_getElem?] using h 0 (by decide)
  refine ⟨fun b hb _ => hhead b hb, fun hjoins => ?_⟩
  obtain ⟨hcolon, b, hb, hname⟩ := Reading.joins_iff.mp hjoins
  exact Reading.joins_iff.mpr ⟨hhead _ hcolon, b, h 1 (by decide) b hb, hname⟩

/-- A shorter piece of a text ends a token wherever the text does. -/
theorem of_piece (h : rest' <+: rest) : EndsLike rest rest' := by
  obtain ⟨t, rfl⟩ := h
  refine of_getElem? fun i _ b hb => ?_
  rw [List.getElem?_append_left (List.getElem?_eq_some_iff.mp hb).1, hb]

/-- A text with a separator at its beginning ends every token. -/
theorem of_mem_separators {b : UInt8} (hb : b ∈ separators) (t : List UInt8) :
    EndsLike rest (b :: t) := by
  refine ⟨fun b' hb' hnot => ?_, fun hjoins => ?_⟩
  · obtain rfl : b = b' := by simpa using hb'
    exact absurd hb hnot
  · obtain rfl : b = Ascii.colon := by simpa using (Reading.joins_iff.mp hjoins).1
    exact absurd hb (by decide)

/-- **Bytes before two texts do not matter.** -/
theorem append (h : EndsLike rest rest') (t : List UInt8) : EndsLike (t ++ rest) (t ++ rest') := by
  match t with
  | [] => exact h
  | [b] =>
    refine ⟨fun b' hb' _ => hb', fun hjoins => ?_⟩
    -- Behind a colon, the second byte is the first one of the two texts.
    obtain ⟨hcolon, b', hb', hname⟩ := Reading.joins_iff.mp hjoins
    refine Reading.joins_iff.mpr ⟨hcolon, b', ?_, hname⟩
    have hnot : b' ∉ separators := by
      intro hmem
      rw [inert_startsName.eq_false hmem] at hname
      cases hname
    rw [List.singleton_append, List.getElem?_cons_succ, ← List.head?_eq_getElem?] at hb' ⊢
    exact h.head?_eq b' hb' hnot
  | b :: b' :: t =>
    refine of_getElem? fun i hi c hc => ?_
    match i with
    | 0 => exact hc
    | 1 => exact hc

end EndsLike

/-! ### Tests and runs -/

/-- **A test of the next byte** that no separator passes. -/
structure ByteTest (c : List UInt8 → Prop) : Prop where
  /-- It looks at no more than the next byte. -/
  cons_iff : ∀ b t t', c (b :: t) ↔ c (b :: t')
  /-- It fails where there is none. -/
  not_nil : ¬c []
  /-- It fails at a separator. -/
  not_cons : ∀ b ∈ separators, ∀ t, ¬c (b :: t)

theorem byteTest_any {p : UInt8 → Bool} (hp : Inert p) :
    ByteTest fun t => t.head?.any p = true where
  cons_iff _ _ _ := Iff.rfl
  not_nil := by simp
  not_cons b hb t := by simp [hp.eq_false hb]

theorem byteTest_and (x : Bool) {p : UInt8 → Bool} (hp : Inert p) :
    ByteTest fun t => (x && t.head?.any p) = true where
  cons_iff _ _ _ := Iff.rfl
  not_nil := by simp
  not_cons b hb t := by simp [hp.eq_false hb]

theorem byteTest_head {b : UInt8} (hb : b ∉ separators) : ByteTest fun t => t.head? = some b where
  cons_iff _ _ _ := Iff.rfl
  not_nil := by simp
  not_cons b' hb' t := by
    rw [List.head?_cons, Option.some.injEq]
    rintro rfl
    exact hb hb'

/-- A test that fails at a text fails at all that end tokens alike. -/
theorem ByteTest.not_of_endsLike {c : List UInt8 → Prop} (hc : ByteTest c)
    (hrest : EndsLike rest rest') (hnot : ¬c rest) : ¬c rest' := by
  cases rest' with
  | nil => exact hc.not_nil
  | cons b t =>
    by_cases hb : b ∈ separators
    · exact hc.not_cons b hb t
    · obtain ⟨t', rfl⟩ := List.head?_eq_some_iff.mp (hrest.head?_eq b rfl hb)
      exact fun h => hnot ((hc.cons_iff b t t').mp h)

/-- A run is empty if the first byte does not have the property. -/
theorem runLength_eq_zero_iff {p : UInt8 → Bool} {t : List UInt8} :
    runLength p t = 0 ↔ t.head?.any p = false := by
  cases t with
  | nil => simp
  | cons b t =>
    by_cases hb : p b = true
    · simp [runLength_cons_of_pos hb, hb]
    · simp [runLength_cons_of_neg hb, hb]

/-- A run that the first byte belongs to takes it. -/
theorem runLength_pos_of_any {p : UInt8 → Bool} {t : List UInt8} (h : t.head?.any p = true) :
    0 < runLength p t := by
  refine Nat.pos_of_ne_zero fun hzero => ?_
  rw [runLength_eq_zero_iff.mp hzero] at h
  cases h

/-- **A run ends where it ends before another text**, if it does not go beyond the bytes before
both. -/
theorem runLength_append_eq {p : UInt8 → Bool} (h : EndsLike rest rest')
    (hle : runLength p (u ++ rest) ≤ u.length)
    (hp : Inert p ∨ runLength p (u ++ rest) < u.length) :
    runLength p (u ++ rest') = runLength p (u ++ rest) := by
  induction u with
  | nil =>
    have hinert := hp.resolve_right (Nat.not_lt_zero _)
    have hzero : runLength p rest = 0 := Nat.le_zero.mp hle
    rw [List.nil_append, List.nil_append, hzero]
    rw [runLength_eq_zero_iff, ← Bool.not_eq_true] at hzero ⊢
    exact (byteTest_any hinert).not_of_endsLike h hzero
  | cons b u ih =>
    by_cases hb : p b = true
    · simp only [List.cons_append, runLength_cons_of_pos hb, List.length_cons,
        Nat.add_le_add_iff_right, Nat.add_lt_add_iff_right] at hle hp ⊢
      rw [ih hle hp]
    · simp only [List.cons_append, runLength_cons_of_neg hb]

/-! ### Readings that keep what they find -/

namespace Reading

variable {f g : List UInt8 → Reading α}

/-- **A reading that keeps what it finds** when what comes behind it is replaced by a text that
ends tokens alike. -/
def Keeps (f : List UInt8 → Reading α) : Prop :=
  ∀ ⦃rest rest' : List UInt8⦄, EndsLike rest rest' → ∀ (u : List UInt8) (a : α),
    (f (u ++ rest)).found = .ok (a, u.length) → (f (u ++ rest')).found = .ok (a, u.length)

theorem keeps_const (r : Reading α) : Keeps fun _ => r := fun _ _ _ _ _ hfound => hfound

/-- **After one byte a reading goes on with those behind it.** -/
theorem keeps_after_one (hf : Keeps f) : Keeps (after 1 f) := by
  intro rest rest' hrest u a hfound
  obtain ⟨j, hj, hlen⟩ := after_eq_ok.mp hfound
  obtain ⟨b, u, rfl⟩ : ∃ b v, u = b :: v := by
    refine List.exists_cons_of_ne_nil ?_
    rintro rfl
    simp at hlen
  obtain rfl : j = u.length := by
    rw [List.length_cons] at hlen
    omega
  exact after_eq_ok.mpr ⟨u.length, hf hrest u a hj, hlen⟩

/-- **After a run a reading goes on with what is behind it.** The run must not go on over a
separator, unless it is never the last thing that is read. -/
theorem keeps_after_run {p : UInt8 → Bool} (hf : Keeps f) (hp : Inert p ∨ ∀ t, (f t).Takes) :
    Keeps fun t => after (runLength p t) f t := by
  intro rest rest' hrest u a hfound
  obtain ⟨j, hj, hlen⟩ := after_eq_ok.mp hfound
  have hle : runLength p (u ++ rest) ≤ u.length := by omega
  have hrun : runLength p (u ++ rest') = runLength p (u ++ rest) := by
    refine runLength_append_eq hrest hle (hp.imp_right fun htakes => ?_)
    have := htakes _ a j hj
    omega
  refine after_eq_ok.mpr ⟨j, ?_, hrun ▸ hlen⟩
  rw [hrun]
  rw [List.drop_append_of_le_length hle] at hj ⊢
  have hdrop : (u.drop (runLength p (u ++ rest))).length = j := by
    rw [List.length_drop]
    omega
  rw [← hdrop] at hj ⊢
  exact hf hrest _ a hj

theorem Keeps.mapLength (hf : Keeps f) (m : α → Nat → β) : Keeps fun t => (f t).mapLength m := by
  intro rest rest' hrest u b hfound
  obtain ⟨a, ha, rfl⟩ := mapLength_eq_ok.mp hfound
  exact mapLength_eq_ok.mpr ⟨a, hf hrest u a ha, rfl⟩

/-- **A reading looks at the next byte and decides.** Where the test is passed the byte has to be
taken, or else the test would depend on what comes behind. -/
theorem keeps_ite {c : List UInt8 → Prop} [DecidablePred c] (hc : ByteTest c) (hf : Keeps f)
    (hg : Keeps g) (htakes : ∀ t, c t → (f t).Takes) : Keeps fun t => if c t then f t else g t := by
  intro rest rest' hrest u a hfound
  cases u with
  | nil =>
    simp only [List.nil_append] at hfound ⊢
    have hnot : ¬c rest := by
      intro h
      rw [if_pos h] at hfound
      exact Nat.lt_irrefl 0 (htakes rest h a 0 hfound)
    rw [if_neg hnot] at hfound
    rw [if_neg (hc.not_of_endsLike hrest hnot)]
    exact hg hrest [] a hfound
  | cons b u =>
    simp only [List.cons_append] at hfound ⊢
    by_cases h : c (b :: (u ++ rest))
    · rw [if_pos h] at hfound
      rw [if_pos ((hc.cons_iff b _ _).mp h)]
      exact hf hrest (b :: u) a hfound
    · rw [if_neg h] at hfound
      rw [if_neg (mt (hc.cons_iff b _ _).mp h)]
      exact hg hrest (b :: u) a hfound

/-! ### Names -/

/-- A byte that starts an XML name also continues the run of it. -/
theorem runLength_continuesName_pos {t : List UInt8}
    (h : t.head?.any ByteClass.xml.startsName = true) :
    0 < runLength ByteClass.xml.continuesName t := by
  cases t with
  | nil => cases h
  | cons b t => exact runLength_pos (continuesName_xml b h)

/-- **A reading looks whether a colon joins.** Where it does, the reading takes the colon and a byte
of the name behind it. -/
theorem keeps_ite_joins {a : α} (hf : Keeps f)
    (htakes : ∀ t a' k, joins .xml t = true → (f t).found = .ok (a', k) → 2 ≤ k) :
    Keeps fun t => if joins .xml t then f t else (step a 0).stretch (colonReach t) := by
  intro rest rest' hrest u a' hfound
  match u with
  | [] =>
    simp only [List.nil_append] at hfound ⊢
    have hnot : ¬joins .xml rest = true := by
      intro h
      rw [if_pos h] at hfound
      exact absurd (htakes rest a' 0 h hfound) (by decide)
    rw [if_neg hnot] at hfound
    rw [if_neg (mt hrest.joins hnot)]
    exact hfound
  | [b] =>
    -- Either a colon and a byte behind it would be taken, or nothing.
    exfalso
    simp only at hfound
    split at hfound
    · next h => exact absurd (htakes _ a' 1 h hfound) (by decide)
    · simp [stretch, step] at hfound
  | b :: b' :: u =>
    have hsame : joins .xml (b :: b' :: u ++ rest') = joins .xml (b :: b' :: u ++ rest) := rfl
    simp only [hsame]
    simp only at hfound
    split at hfound
    · next h =>
      rw [if_pos h]
      exact hf hrest _ a' hfound
    · simp [stretch, step] at hfound

/-- A colon that joins is taken together with the first byte of the name behind it. -/
theorem two_le_of_joins {t : List UInt8} {a : α} {k : Nat} (hjoins : joins .xml t = true)
    (hfound : (after 1 (fun t => after (runLength ByteClass.xml.continuesName t) f t) t).found =
      .ok (a, k)) : 2 ≤ k := by
  obtain ⟨-, b, hb, hname⟩ := joins_iff.mp hjoins
  obtain ⟨j, hj, rfl⟩ := after_eq_ok.mp hfound
  obtain ⟨l, -, rfl⟩ := after_eq_ok.mp hj
  have := runLength_continuesName_pos (t := t.drop 1) (by rw [List.head?_drop, hb]; exact hname)
  omega

theorem keeps_name (d : Dialect) : Keeps (name d .xml) := by
  refine keeps_after_run ?_ (Or.inl inert_continuesName)
  by_cases hq : d.supports .qualifiedNames = true
  · simp only [hq, if_true]
    refine keeps_ite_joins (keeps_after_one (keeps_after_run ?_ (Or.inl inert_continuesName)))
      fun t form k => two_le_of_joins
    exact keeps_ite_joins (keeps_const _) fun t form k _ h => by simp [broken] at h
  · simp only [hq]
    exact keeps_const _

theorem keeps_bracedName : Keeps (bracedName .xml) := by
  have hlocal : Keeps fun t =>
      if t.head?.any ByteClass.xml.startsName then
        after (runLength ByteClass.xml.continuesName t) (fun _ => step NameForm.braced 0) t
      else broken .malformedUriQualifiedName 0 :=
    keeps_ite (byteTest_any inert_startsName)
      (keeps_after_run (keeps_const _) (Or.inl inert_continuesName))
      (keeps_const _) fun t ht => takes_after (runLength_continuesName_pos ht) _
  refine keeps_after_one (keeps_after_run ?_ (Or.inr fun t => ?_))
  · exact keeps_ite (byteTest_head (by decide)) (keeps_after_one hlocal) (keeps_const _)
      fun t _ => takes_after Nat.one_pos _
  · -- The braced URI may hold anything, but it is closed before the token ends.
    split
    · exact takes_after Nat.one_pos _
    · exact takes_broken _ _

/-- A name that does not start with the letter of braced names is a plain or qualified one. -/
theorem anyName_of_head?_ne {d : Dialect} {c : ByteClass} {t : List UInt8}
    (h : t.head? ≠ some Ascii.upperQ) : anyName d c t = name d c t := by
  rw [anyName, if_neg (by simp [h])]

/-- Behind the letter of braced names a brace decides, where the version has them. -/
theorem anyName_cons {d : Dialect} {c : ByteClass} (hd : d.supports .bracedUriLiterals = true)
    (t : List UInt8) :
    anyName d c (Ascii.upperQ :: t) =
      if t.head? = some Ascii.leftBrace then after 1 (bracedName c) (Ascii.upperQ :: t)
      else (name d c (Ascii.upperQ :: t)).stretch 1 := by
  rw [anyName, if_pos (by simp [hd]), List.getElem?_cons_succ, ← List.head?_eq_getElem?]

theorem keeps_anyName (d : Dialect) : Keeps (anyName d .xml) := by
  by_cases hd : d.supports .bracedUriLiterals = true
  · intro rest rest' hrest u form hfound
    match u with
    | [] =>
      have hq : rest.head? ≠ some Ascii.upperQ := by
        intro h
        have hrun := runLength_continuesName_pos (t := rest) (by rw [h]; rfl)
        exact Nat.lt_irrefl 0 (takes_anyName d hrun form 0 hfound)
      have hq' : rest'.head? ≠ some Ascii.upperQ :=
        (byteTest_head (by decide)).not_of_endsLike hrest hq
      rw [List.nil_append, anyName_of_head?_ne hq] at hfound
      rw [List.nil_append, anyName_of_head?_ne hq']
      exact keeps_name d hrest [] form hfound
    | b :: u =>
      by_cases hb : b = Ascii.upperQ
      · subst hb
        rw [List.cons_append, anyName_cons hd] at hfound ⊢
        split at hfound
        · next hbrace =>
          -- The brace belongs to the token, so it is not what was replaced.
          obtain ⟨b, u, rfl⟩ : ∃ b v, u = b :: v := by
            refine List.exists_cons_of_ne_nil ?_
            rintro rfl
            obtain ⟨j, hj, hlen⟩ := after_eq_ok.mp hfound
            obtain ⟨l, -, rfl⟩ := after_eq_ok.mp hj
            rw [List.length_singleton] at hlen
            omega
          rw [if_pos (by simpa using hbrace)]
          exact keeps_after_one keeps_bracedName hrest (_ :: b :: u) form hfound
        · next hbrace =>
          have hbrace' : ¬(u ++ rest').head? = some Ascii.leftBrace :=
            (byteTest_head (by decide)).not_of_endsLike (hrest.append u) hbrace
          rw [if_neg hbrace']
          exact keeps_name d hrest (_ :: u) form hfound
      · have hne : ∀ t, (b :: u ++ t).head? ≠ some Ascii.upperQ := by simpa using hb
        rw [anyName_of_head?_ne (hne rest)] at hfound
        rw [anyName_of_head?_ne (hne rest')]
        exact keeps_name d hrest (b :: u) form hfound
  · have hname : anyName d .xml = name d .xml := by
      funext t
      rw [anyName, if_neg (by simp [hd])]
    rw [hname]
    exact keeps_name d

theorem keeps_nameToken (d : Dialect) : Keeps (nameToken d .xml) := by
  intro rest rest' hrest u kind hfound
  obtain ⟨form, hform, hkind⟩ := mapLength_eq_ok.mp hfound
  refine mapLength_eq_ok.mpr ⟨form, keeps_anyName d hrest u form hform, ?_⟩
  -- The kind is that of the bytes of the token, which are the same.
  rw [List.take_left] at hkind ⊢
  exact hkind

theorem keeps_variableToken (d : Dialect) : Keeps (variableToken d .xml) :=
  keeps_after_one (keeps_ite (byteTest_any inert_startsName) ((keeps_anyName d).mapLength _)
    (keeps_const _)
    fun _ ht => (takes_anyName d (runLength_continuesName_pos ht)).mapLength)

/-! ### Numbers, symbols and literals -/

theorem keeps_exponentDigits : Keeps (exponentDigits .xml) :=
  keeps_ite (byteTest_any inert_isDigit) (keeps_after_run (keeps_const _) (Or.inl inert_isDigit))
    (keeps_const _) fun _ ht => takes_after (runLength_pos_of_any ht) _

theorem keeps_exponent (d : Dialect) (kind : Kind) : Keeps (exponent d .xml kind) := by
  refine keeps_ite (byteTest_and _ rfl) (keeps_after_one ?_) (keeps_const _)
    fun t _ => takes_after Nat.one_pos _
  exact keeps_ite (byteTest_any rfl) (keeps_after_one keeps_exponentDigits)
    keeps_exponentDigits fun t _ => takes_after Nat.one_pos _

theorem keeps_number (d : Dialect) : Keeps (number d .xml) := by
  refine keeps_after_run ?_ (Or.inl inert_isDigit)
  exact keeps_ite (byteTest_head (by decide))
    (keeps_after_one (keeps_after_run (keeps_exponent d _) (Or.inl inert_isDigit)))
    (keeps_exponent d _) fun t _ => takes_after Nat.one_pos _

theorem keeps_point (d : Dialect) : Keeps (point d .xml) := by
  refine keeps_after_one (keeps_ite (byteTest_any inert_isDigit) ?_ ?_ fun t ht => ?_)
  · exact keeps_after_run (keeps_exponent d _) (Or.inl inert_isDigit)
  · exact keeps_ite (byteTest_head (by decide)) (keeps_after_one (keeps_const _)) (keeps_const _)
      fun t _ => takes_after Nat.one_pos _
  · exact takes_after (runLength_pos_of_any ht) _

theorem keeps_bang (d : Dialect) : Keeps (bang d) :=
  keeps_after_one (keeps_ite (byteTest_head (by decide)) (keeps_after_one (keeps_const _))
    (keeps_const _) fun _ _ => takes_after Nat.one_pos _)

/-- No symbol goes on with a separator. -/
theorem pairs_not_mem_separators {d : Dialect} {b : UInt8} {rule : OperatorRule}
    (h : operatorRule? d b = some rule) : ∀ pair ∈ rule.pairs, pair.1 ∉ separators := by
  intro pair hpair hmem
  have hinert : Inert secondBytes.contains := rfl
  have hsecond := ((operatorRule_mem d b rule h).2 pair hpair).1
  simpa [hsecond] using hinert.eq_false hmem

theorem keeps_operator {d : Dialect} {b : UInt8} {rule : OperatorRule}
    (h : operatorRule? d b = some rule) : Keeps (operator rule) := by
  refine keeps_after_one ?_
  intro rest rest' hrest u kind hfound
  cases u with
  | nil =>
    simp only [List.nil_append] at hfound ⊢
    cases hpair : rest.head?.bind (rule.pairs.lookup ·) with
    | some paired =>
      rw [hpair] at hfound
      exact absurd (takes_after Nat.one_pos _ kind 0 hfound) (by decide)
    | none =>
      have hpair' : rest'.head?.bind (rule.pairs.lookup ·) = none := by
        refine Option.bind_eq_none_iff.mpr fun b' hb' => ?_
        by_cases hmem : b' ∈ separators
        · refine List.lookup_eq_none_iff.mpr fun pair hpair => ?_
          rw [bne_iff_ne]
          rintro rfl
          exact pairs_not_mem_separators h pair hpair hmem
        · exact Option.bind_eq_none_iff.mp hpair b' (hrest.head?_eq b' hb' hmem)
      rw [hpair] at hfound
      rw [hpair']
      exact hfound
  | cons b' u =>
    simp only [List.cons_append, List.head?_cons, Option.bind_some] at hfound ⊢
    cases hpair : rule.pairs.lookup b' with
    | some paired =>
      rw [hpair] at hfound
      exact keeps_after_one (keeps_const _) hrest (b' :: u) kind hfound
    | none =>
      rw [hpair] at hfound
      exact hfound

/-- A literal has at least its closing quote. -/
theorem literalLength_pos {quote : UInt8} {escapes : Bool} {t : List UInt8} {k : Nat}
    (h : literalLength quote escapes t = some k) : 0 < k := by
  cases t with
  | nil => simp [literalLength] at h
  | cons b t =>
    by_cases hb : b = quote
    · subst hb
      rw [literalLength_cons_quote] at h
      split at h
      · obtain ⟨j, -, rfl⟩ := Option.map_eq_some_iff.mp h
        exact Nat.succ_pos _
      · exact Option.some.inj h ▸ Nat.one_pos
    · rw [literalLength_cons_of_ne hb] at h
      obtain ⟨j, -, rfl⟩ := Option.map_eq_some_iff.mp h
      exact Nat.succ_pos _

/-- **The end of a string literal is kept**: it is a quote with no other quote behind it. -/
theorem literalLength_append {quote : UInt8} (hquote : quote ∉ separators) {escapes : Bool}
    (hrest : EndsLike rest rest') {u : List UInt8}
    (h : literalLength quote escapes (u ++ rest) = some u.length) :
    literalLength quote escapes (u ++ rest') = some u.length := by
  -- A pair of quotes is taken together, so two bytes may go at once.
  induction hlen : u.length using Nat.strongRecOn generalizing u with
  | ind len ih =>
    subst hlen
    match u with
    | [] => exact absurd (literalLength_pos h) (Nat.lt_irrefl 0)
    | b :: u =>
      by_cases hb : b = quote
      · subst hb
        rw [List.cons_append, literalLength_cons_quote] at h ⊢
        split at h
        · next hagain =>
          obtain ⟨k, hk, hkeq⟩ := Option.map_eq_some_iff.mp h
          have hpos := literalLength_pos hk
          match u with
          | [] => simp at hkeq
          | b' :: u =>
            obtain rfl : k = u.length := by simpa using hkeq
            rw [if_pos (by simpa using hagain), List.cons_append, List.tail_cons]
            rw [ih u.length (by simp only [List.length_cons]; omega) hk rfl]
            rfl
        · next hagain =>
          obtain rfl : u = [] := by simpa [eq_comm] using h
          have hagain' : ¬(escapes = true ∧ rest'.head? = some b) := by
            rintro ⟨hescapes, hhead⟩
            refine (byteTest_head hquote).not_of_endsLike hrest (fun hb => ?_) hhead
            exact hagain ⟨hescapes, hb⟩
          rw [List.nil_append, if_neg hagain']
          rfl
      · rw [List.cons_append, literalLength_cons_of_ne hb] at h ⊢
        obtain ⟨k, hk, hkeq⟩ := Option.map_eq_some_iff.mp h
        obtain rfl : k = u.length := by simpa using hkeq
        rw [ih u.length (by simp) hk rfl]
        rfl

theorem keeps_literal (d : Dialect) {quote : UInt8} (hquote : quote ∉ separators) :
    Keeps (literal d quote) := by
  refine keeps_after_one (Keeps.mapLength ?_ _)
  intro rest rest' hrest u a hfound
  rw [literalRest] at hfound ⊢
  cases hlen : literalLength quote (d.supports .escapedQuotes) (u ++ rest) with
  | none => simp [hlen, broken] at hfound
  | some k =>
    obtain rfl : k = u.length := by simpa [hlen, step] using hfound
    rw [literalLength_append hquote hrest hlen]
    rfl

/-! ### Question marks -/

/-- **The kind of a question mark** by what comes behind it: a lookup before a key, where the
version has lookups. -/
def questionKind (d : Dialect) (rest : List UInt8) : Kind :=
  if d.supports .lookupOperator && rest.head?.any (Scan.startsKey .xml) then .symbol .lookup
  else .symbol .questionMark

/-- A version that has lookups has question marks of the other sort too. -/
theorem supports_occurrenceIndicators {d : Dialect} (h : d.supports .lookupOperator = true) :
    d.supports .occurrenceIndicators = true := by
  have hle : Version.xpath30.rank ≤ d.version.rank := of_decide_eq_true h
  exact decide_eq_true (Nat.le_trans (by decide) hle)

/-- **A question mark that is read is one byte**, and another text behind it only changes its
kind. -/
theorem question_of_found {d : Dialect} {u : List UInt8} {kind : Kind}
    (h : (question d .xml (Ascii.question :: (u ++ rest))).found = .ok (kind, u.length + 1)) :
    u = [] ∧ kind = questionKind d rest ∧ ∀ rest',
      (question d .xml (Ascii.question :: rest')).found = .ok (questionKind d rest', 1) := by
  obtain ⟨j, hj, hlen⟩ := after_eq_ok.mp h
  have hzero : j = 0 ∧ d.supports .occurrenceIndicators = true := by
    split at hj
    · next hkey =>
      rw [Bool.and_eq_true] at hkey
      exact ⟨by simpa [step, eq_comm] using (Prod.mk.inj (Except.ok.inj hj)).2,
        supports_occurrenceIndicators hkey.1⟩
    · split at hj
      · next hocc => exact ⟨by simpa [step, eq_comm] using (Prod.mk.inj (Except.ok.inj hj)).2, hocc⟩
      · simp [broken] at hj
  obtain ⟨rfl, hocc⟩ := hzero
  obtain rfl : u = [] := by simpa using hlen
  have hread : ∀ t, (question d .xml (Ascii.question :: t)).found = .ok (questionKind d t, 1) := by
    intro t
    refine after_eq_ok.mpr ⟨0, ?_, rfl⟩
    rw [questionKind]
    simp only [List.drop_succ_cons, List.drop_zero, hocc, if_true]
    split <;> rfl
  refine ⟨rfl, ?_, hread⟩
  rw [List.nil_append, hread rest] at h
  exact (Prod.mk.inj (Except.ok.inj h)).1.symm

/-- Nothing is looked up where nothing comes behind. -/
@[simp] theorem questionKind_nil (d : Dialect) : questionKind d [] = .symbol .questionMark := by
  simp [questionKind]

/-- **A lookup is a single question mark.** -/
theorem eq_question_of_lookup {version : Version} {u : List UInt8} (hu : u ≠ [])
    (h : (token (.ofVersion version) .xml (u ++ rest)).found = .ok (.symbol .lookup, u.length)) :
    u = [Ascii.question] := by
  obtain ⟨b, u, rfl⟩ := List.exists_cons_of_ne_nil hu
  obtain rfl : b = Ascii.question := by simpa using head?_of_lookup version h
  obtain ⟨rfl, -⟩ := question_of_found h
  rfl

/-! ### Tokens -/

/-- **Every reading by the first byte keeps what it finds**, that of a question mark apart. -/
theorem keeps_tokenAt (d : Dialect) {b : UInt8} (hb : b ≠ Ascii.question) :
    Keeps (tokenAt d .xml b) := by
  unfold tokenAt
  split
  · next hquote =>
    refine keeps_literal d ?_
    rcases hquote with rfl | rfl <;> decide
  split
  · exact keeps_point d
  split
  · exact keeps_variableToken d
  split
  · exact keeps_bang d
  split
  · next rule hrule => exact keeps_operator hrule
  split
  · exact keeps_number d
  split
  · exact keeps_nameToken d
  · exact keeps_const _

/-- The kind of a token by its bytes and by what comes behind it, if it has the given kind before
another text. -/
def kindBefore (d : Dialect) (u : List UInt8) (kind : Kind) (rest : List UInt8) : Kind :=
  if u = [Ascii.question] then questionKind d rest else kind

/-- Of what comes behind a token, its kind depends on the first byte at most. -/
theorem kindBefore_congr {d : Dialect} {u : List UInt8} {kind : Kind}
    (h : rest.head? = rest'.head?) : kindBefore d u kind rest = kindBefore d u kind rest' := by
  rw [kindBefore, kindBefore, questionKind, questionKind, h]

/-- **The token at the beginning of a text keeps its bytes** when what comes behind it is replaced
by a text that ends tokens alike. It keeps its kind too, unless it is a question mark. -/
theorem token_of_endsLike {d : Dialect} {u : List UInt8} {kind : Kind} (hu : u ≠ [])
    (hrest : EndsLike rest rest')
    (h : (token d .xml (u ++ rest)).found = .ok (kind, u.length)) :
    (token d .xml (u ++ rest')).found = .ok (kindBefore d u kind rest', u.length) := by
  obtain ⟨b, u, rfl⟩ := List.exists_cons_of_ne_nil hu
  rw [List.cons_append, token] at h ⊢
  by_cases hb : b = Ascii.question
  · subst hb
    obtain ⟨rfl, -, hread⟩ := question_of_found (d := d) h
    exact hread rest'
  · rw [kindBefore, if_neg (by simp [hb])]
    exact keeps_tokenAt d hb hrest (b :: u) kind h

/-- A token that is read has its own kind before the text that it is read from. -/
theorem kindBefore_eq {d : Dialect} {u : List UInt8} {kind : Kind}
    (h : (token d .xml (u ++ rest)).found = .ok (kind, u.length)) :
    kindBefore d u kind rest = kind := by
  rw [kindBefore]
  split
  · next hu =>
    subst hu
    exact (question_of_found (u := []) h).2.1.symm
  · rfl

end Reading

end XPathScan
