import XPathScan.Proofs.Lexer.Approach

/-!
# Numbers are recognised by their grammar

A number has a part before its exponent and perhaps an exponent. The first part is made of digits
and at most one point, which stands behind them, between them or before them; of all beginnings of
the text that have this form it is the longest one. Whether an exponent has to follow is decided by
the letter alone: from version 2.0 on, a letter of exponents behind the first part is either the
beginning of an exponent, or there is no token at all. A number is not given up for a shorter one.

The scanner has two ways into a number, by a digit and by a point, and takes runs of digits as they
come. What ties it to the grammar is that both ways come to the same bytes
(`XPathScan.numeral`), and that these are the longest of their form.

* `XPathScan.isLongest_numeral` – the part before the exponent, as the longest one of its form;
* `XPathScan.Reading.exponent_cases` – an exponent is the longest one, or there is none;
* `XPathScan.Lexer.ReadsNumber` and `XPathScan.Lexer.ReadsPoint` – what has to become of a number,
  and of a point that does not belong to one;
* `XPathScan.Lexer.after_readsNumber` – that this is so for a lexer over a faithful source, whatever
  calls have been made before.
-/

namespace XPathScan

variable {b : UInt8} {t u v r : List UInt8}

/-! ### The grammar of numbers -/

/-- **Digits and nothing else.** -/
def AreDigits (t : List UInt8) : Prop := ∀ b ∈ t, Ascii.isDigit b = true

/-- **The part of a number before its exponent.** -/
inductive IsNumeral : List UInt8 → Prop
  /-- Digits alone. -/
  | integer {u : List UInt8} : u ≠ [] → AreDigits u → IsNumeral u
  /-- Digits with a point behind or between them. -/
  | decimal {u v : List UInt8} : u ≠ [] → AreDigits u → AreDigits v →
      IsNumeral (u ++ Ascii.dot :: v)
  /-- Digits with a point before them. -/
  | fraction {v : List UInt8} : v ≠ [] → AreDigits v → IsNumeral (Ascii.dot :: v)

/-- The letters that exponents start with. -/
def exponentMarks : List UInt8 := [Ascii.lowerE, Ascii.upperE]

/-- What may stand between the letter of an exponent and its digits. -/
def exponentSigns : List (List UInt8) := [[], [Ascii.plus], [Ascii.minus]]

/-- **An exponent.** -/
inductive IsExponent : List UInt8 → Prop
  /-- A letter, perhaps a sign, and digits. -/
  | intro {e : UInt8} {s u : List UInt8} : e ∈ exponentMarks → s ∈ exponentSigns → u ≠ [] →
      AreDigits u → IsExponent (e :: (s ++ u))

/-- **The longest beginning of a text that has a property.** -/
structure IsLongest (P : List UInt8 → Prop) (t u : List UInt8) : Prop where
  /-- It has the property. -/
  holds : P u
  /-- The text begins with it. -/
  begins : u <+: t
  /-- No longer beginning has the property. -/
  length_le : ∀ v, P v → v <+: t → v.length ≤ u.length

/-- There is only one longest beginning. -/
theorem IsLongest.eq {P : List UInt8 → Prop} (hu : IsLongest P t u) (hv : IsLongest P t v) :
    u = v := by
  have hlength := Nat.le_antisymm (hv.length_le u hu.holds hu.begins)
    (hu.length_le v hv.holds hv.begins)
  have hbegins := List.prefix_of_prefix_length_le hu.begins hv.begins (Nat.le_of_eq hlength)
  exact hbegins.eq_of_length hlength

/-- A text that has the property is its own longest beginning. -/
theorem isLongest_self {P : List UInt8 → Prop} (h : P t) : IsLongest P t t where
  holds := h
  begins := List.prefix_rfl
  length_le _ _ hvt := hvt.length_le

/-- **A text that starts with a number**: with a digit, or with a point and a digit. -/
inductive StartsNumber : List UInt8 → Prop
  /-- A digit. -/
  | digit {b : UInt8} {t : List UInt8} : Ascii.isDigit b = true → StartsNumber (b :: t)
  /-- A point and a digit. -/
  | point {b : UInt8} {t : List UInt8} : Ascii.isDigit b = true → StartsNumber (Ascii.dot :: b :: t)

/-- The kind of a number without an exponent, by whether there is a point in it. -/
def numeralKind (m : List UInt8) : Kind :=
  if Ascii.dot ∈ m then .decimalLiteral else .integerLiteral

/-! ### The longest numeral -/

/-- The digits at the beginning of a text. -/
def digitRun (t : List UInt8) : List UInt8 := t.takeWhile Ascii.isDigit

/-- A point at the beginning of a text, and the digits behind it. -/
def pointRun : List UInt8 → List UInt8
  | [] => []
  | b :: t => if b = Ascii.dot then b :: digitRun t else []

/-- **The part of a number before its exponent**, as it is scanned: digits, and behind them a point
and more digits if there is a point. -/
def numeral (t : List UInt8) : List UInt8 :=
  digitRun t ++ pointRun (t.drop (digitRun t).length)

theorem areDigits_nil : AreDigits [] := nofun

theorem areDigits_digitRun (t : List UInt8) : AreDigits (digitRun t) :=
  List.all_eq_true.mp List.all_takeWhile

theorem digitRun_begins (t : List UInt8) : digitRun t <+: t := List.takeWhile_prefix _

/-- Digits belong to the run at the beginning. -/
theorem AreDigits.begins_digitRun (h : AreDigits u) (hut : u <+: t) : u <+: digitRun t := by
  obtain ⟨r, rfl⟩ := hut
  rw [digitRun, List.takeWhile_append_of_pos h]
  exact List.prefix_append u _

/-- A point is no digit. -/
theorem AreDigits.dot_not_mem (h : AreDigits u) : Ascii.dot ∉ u := by
  intro hmem
  exact absurd (h _ hmem) (by decide)

/-- A run of digits ends before anything else. -/
theorem AreDigits.digitRun_append (h : AreDigits u) (hb : Ascii.isDigit b = false)
    (t : List UInt8) : digitRun (u ++ b :: t) = u := by
  rw [digitRun, List.takeWhile_append_of_pos h, List.takeWhile_cons_of_neg (by simp [hb]),
    List.append_nil]

/-- **Digits and a point are taken together with the digits behind the point.** -/
theorem AreDigits.numeral_append (h : AreDigits u) (t : List UInt8) :
    numeral (u ++ Ascii.dot :: t) = u ++ Ascii.dot :: digitRun t := by
  rw [numeral, h.digitRun_append (by decide), List.drop_left, pointRun, if_pos rfl]

/-- Where no point follows the digits are all. -/
theorem numeral_of_not_point (h : (t.drop (digitRun t).length).head? ≠ some Ascii.dot) :
    numeral t = digitRun t := by
  rw [numeral]
  cases hdrop : t.drop (digitRun t).length with
  | nil => rw [pointRun, List.append_nil]
  | cons b t =>
    rw [hdrop, List.head?_cons] at h
    rw [pointRun, if_neg fun hb => h (congrArg some hb), List.append_nil]

theorem numeral_begins (t : List UInt8) : numeral t <+: t := by
  have hparts : digitRun t ++ t.drop (digitRun t).length = t :=
    List.prefix_iff_eq_append.mp (digitRun_begins t)
  have hpoint : ∀ u, pointRun u <+: u := by
    rintro (_ | ⟨b, u⟩)
    · exact List.prefix_rfl
    · rw [pointRun]
      split
      · exact List.cons_prefix_cons.mpr ⟨rfl, digitRun_begins u⟩
      · exact List.nil_prefix
  calc numeral t
    _ <+: digitRun t ++ t.drop (digitRun t).length :=
      (List.prefix_append_right_inj _).mpr (hpoint _)
    _ = t := hparts

/-- The run of digits is not empty if the text starts with one. -/
theorem digitRun_cons_ne_nil (hb : Ascii.isDigit b = true) (t : List UInt8) :
    digitRun (b :: t) ≠ [] := by
  rw [digitRun, List.takeWhile_cons_of_pos hb]
  exact List.cons_ne_nil _ _

/-- **What is scanned has the form of a numeral.** -/
theorem isNumeral_numeral (h : StartsNumber t) : IsNumeral (numeral t) := by
  cases h with
  | @digit b t hb =>
    have hne := digitRun_cons_ne_nil hb t
    have hdigits := areDigits_digitRun (b :: t)
    by_cases hpoint : ((b :: t).drop (digitRun (b :: t)).length).head? = some Ascii.dot
    · obtain ⟨u, hu⟩ := List.head?_eq_some_iff.mp hpoint
      rw [numeral, hu, pointRun, if_pos rfl]
      exact .decimal hne hdigits (areDigits_digitRun u)
    · rw [numeral_of_not_point hpoint]
      exact .integer hne hdigits
  | @point b t hb =>
    have hnumeral := areDigits_nil.numeral_append (b :: t)
    rw [List.nil_append, List.nil_append] at hnumeral
    rw [hnumeral]
    exact .fraction (digitRun_cons_ne_nil hb t) (areDigits_digitRun (b :: t))

/-- **No numeral at the beginning of a text is longer than what is scanned.** -/
theorem IsNumeral.length_le (h : IsNumeral u) (hut : u <+: t) : u.length ≤ (numeral t).length := by
  -- Digits before a point are the whole run, so what follows the point is compared with what
  -- follows it in the text.
  have hpoint : ∀ v w, AreDigits v → AreDigits w → v ++ Ascii.dot :: w <+: t →
      (v ++ Ascii.dot :: w).length ≤ (numeral t).length := by
    rintro v w hv hw ⟨r, rfl⟩
    rw [List.append_assoc, List.cons_append, hv.numeral_append]
    have hle := (hw.begins_digitRun (List.prefix_append w r)).length_le
    simp only [List.length_append, List.length_cons]
    omega
  cases h with
  | integer _ hdigits =>
    have hle := (hdigits.begins_digitRun hut).length_le
    rw [numeral, List.length_append]
    omega
  | decimal _ hv hw => exact hpoint _ _ hv hw hut
  | fraction _ hw => exact hpoint [] _ areDigits_nil hw hut

/-- **What is scanned before the exponent is the longest numeral.** -/
theorem isLongest_numeral (h : StartsNumber t) : IsLongest IsNumeral t (numeral t) where
  holds := isNumeral_numeral h
  begins := numeral_begins t
  length_le _ hv hvt := hv.length_le hvt

/-! ### Exponents -/

/-- **The sign at the beginning of a text**, which may be missing, and what comes behind it. -/
structure Signed (t s u : List UInt8) : Prop where
  /-- It is a sign, or nothing. -/
  mem : s ∈ exponentSigns
  /-- The parts of the text. -/
  text_eq : t = s ++ u
  /-- It is missing only if there is none. -/
  eq_nil : s = [] → ∀ b, u.head? = some b → [b] ∉ exponentSigns

theorem exists_signed (t : List UInt8) : ∃ s u, Signed t s u := by
  cases t with
  | nil => exact ⟨[], [], by decide, rfl, fun _ _ hb => nomatch hb⟩
  | cons b t =>
    by_cases hb : [b] ∈ exponentSigns
    · exact ⟨[b], t, hb, rfl, fun hnil => nomatch hnil⟩
    · refine ⟨[], b :: t, by decide, rfl, fun _ b' hb' => ?_⟩
      obtain rfl : b = b' := by simpa using hb'
      exact hb

/-- A sign is one byte, if it is not missing. -/
theorem eq_nil_or_singleton {s : List UInt8} (h : s ∈ exponentSigns) : s = [] ∨ ∃ b, s = [b] := by
  simp only [exponentSigns, List.mem_cons, List.not_mem_nil, or_false] at h
  rcases h with rfl | rfl | rfl
  · exact Or.inl rfl
  · exact Or.inr ⟨_, rfl⟩
  · exact Or.inr ⟨_, rfl⟩

theorem sign_iff : (b == Ascii.plus || b == Ascii.minus) = true ↔ [b] ∈ exponentSigns := by
  simp [exponentSigns]

/-- A sign is no digit. -/
theorem isDigit_of_sign (hb : [b] ∈ exponentSigns) : Ascii.isDigit b = false := by
  rw [← sign_iff, Bool.or_eq_true, beq_iff_eq, beq_iff_eq] at hb
  rcases hb with rfl | rfl <;> rfl

/-- **The sign before a digit is the only one there can be.** -/
theorem Signed.sign_eq {s s' u w : List UInt8} (h : Signed t s u) (hs' : s' ∈ exponentSigns)
    (hb : Ascii.isDigit b = true) (ht : t = s' ++ b :: w) : s' = s ∧ b :: w = u := by
  obtain ⟨hs, rfl, hnot⟩ := h
  rcases eq_nil_or_singleton hs with rfl | ⟨c, rfl⟩ <;>
    rcases eq_nil_or_singleton hs' with rfl | ⟨c', rfl⟩
  · exact ⟨rfl, ht.symm⟩
  · -- A sign that is there is not taken for missing.
    exact absurd hs' (hnot rfl c' (by rw [List.nil_append] at ht; simp [ht]))
  · -- A digit is not taken for a sign.
    obtain ⟨rfl, -⟩ := List.cons.inj ht
    rw [isDigit_of_sign hs] at hb
    cases hb
  · obtain ⟨rfl, rfl⟩ := List.cons.inj ht
    exact ⟨rfl, rfl⟩

/-- **An exponent at the beginning of a text has its sign**, and its digits come behind that. -/
theorem Signed.of_isExponent {e : UInt8} {s u x : List UInt8} (h : Signed t s u)
    (hx : IsExponent x) (hxt : x <+: e :: t) :
    ∃ w, x = e :: (s ++ w) ∧ w ≠ [] ∧ AreDigits w ∧ w <+: u := by
  obtain @⟨e', s', w, -, hs', hne, hw⟩ := hx
  obtain ⟨rfl, r, ht⟩ := List.cons_prefix_cons.mp hxt
  obtain ⟨b, w, rfl⟩ := List.exists_cons_of_ne_nil hne
  rw [List.append_assoc, List.cons_append] at ht
  obtain ⟨rfl, rfl⟩ := h.sign_eq hs' (hw b List.mem_cons_self) ht.symm
  exact ⟨b :: w, rfl, hne, hw, List.prefix_append (b :: w) r⟩

/-! ### What is read of a number -/

namespace Reading

variable {version : Version} {kind : Kind}

/-- **Behind the digits and the point an exponent is read**, if a number starts with a digit. -/
theorem number_eq (d : Dialect) (t : List UInt8) :
    number d .xml t =
      after (numeral t).length (exponent d .xml (numeralKind (numeral t))) t := by
  have hno := (areDigits_digitRun t).dot_not_mem
  rw [number]
  by_cases hpoint : (t.drop (digitRun t).length).head? = some Ascii.dot
  · obtain ⟨u, hu⟩ := List.head?_eq_some_iff.mp hpoint
    have hnumeral : numeral t = digitRun t ++ Ascii.dot :: digitRun u := by
      rw [numeral, hu, pointRun, if_pos rfl]
    have hkind : numeralKind (numeral t) = .decimalLiteral := if_pos (by simp [hnumeral])
    rw [hkind, hnumeral, List.length_append, List.length_cons, ← after_after]
    refine after_congr (k := (digitRun t).length) ?_
    rw [hu, Nat.add_comm, ← after_after]
    exact after_congr rfl
  · have hkind : numeralKind (numeral t) = .integerLiteral := by
      rw [numeral_of_not_point hpoint]
      exact if_neg hno
    rw [hkind, numeral_of_not_point hpoint]
    exact after_congr (k := (digitRun t).length) (if_neg hpoint)

/-- **Behind the point and the digits an exponent is read**, if a number starts with a point. -/
theorem point_eq (d : Dialect) (hb : Ascii.isDigit b = true) (t : List UInt8) :
    point d .xml (Ascii.dot :: b :: t) =
      after (numeral (Ascii.dot :: b :: t)).length
        (exponent d .xml (numeralKind (numeral (Ascii.dot :: b :: t)))) (Ascii.dot :: b :: t) := by
  have hnumeral : numeral (Ascii.dot :: b :: t) = Ascii.dot :: digitRun (b :: t) :=
    areDigits_nil.numeral_append (b :: t)
  have hkind : numeralKind (numeral (Ascii.dot :: b :: t)) = .decimalLiteral :=
    if_pos (by simp [hnumeral])
  rw [hkind, hnumeral, List.length_cons, Nat.add_comm, ← after_after, point]
  refine after_congr ?_
  rw [List.drop_succ_cons, List.drop_zero, List.head?_cons]
  exact if_pos hb

/-- With XML names a digit starts a number. -/
theorem tokenAt_digit (d : Dialect) (hb : Ascii.isDigit b = true) :
    tokenAt d .xml b = number d .xml := by
  have hne : ∀ c, Ascii.isDigit c = false → b ≠ c := by
    rintro c hc rfl
    simp [hb] at hc
  funext t
  have hrule : operatorRule? d b = none := by
    simp (disch := decide) only [operatorRule?, hne, if_false]
  simp (disch := decide) only [tokenAt, hne, hrule, false_or, false_and, if_false]
  exact if_pos hb

/-- **A text that starts with a number is read as one.** -/
theorem token_of_startsNumber (version : Version) (h : StartsNumber t) :
    token (.ofVersion version) .xml t =
      after (numeral t).length
        (exponent (.ofVersion version) .xml (numeralKind (numeral t))) t := by
  cases h with
  | digit hb => rw [token, tokenAt_digit _ hb, number_eq]
  | point hb =>
    rw [token, tokenAt, if_neg (by decide), if_pos rfl]
    exact point_eq _ hb _

/-- Without the letter of an exponent, and in version 1.0, a number ends where its first part
does. -/
theorem exponent_none (h : version = .xpath10 ∨ ¬∃ e ∈ exponentMarks, t.head? = some e) :
    (exponent (.ofVersion version) .xml kind t).found = .ok (kind, 0) := by
  rw [exponent, if_neg]
  · rfl
  · rw [Bool.and_eq_true]
    rintro ⟨hversion, hmark⟩
    rcases h with rfl | hno
    · cases hversion
    · obtain ⟨e, he, hmark⟩ := (Option.any_eq_true _ _).mp hmark
      exact hno ⟨e, by simpa [exponentMarks] using hmark, he⟩

/-- The digits of an exponent are read to their end, and there has to be one. -/
theorem exponentDigits_found (t : List UInt8) :
    (exponentDigits .xml t).found =
      if digitRun t = [] then .error .missingExponentDigits
      else .ok (.doubleLiteral, (digitRun t).length) := by
  have hrun : t.head?.any Ascii.isDigit = false ↔ digitRun t = [] := by
    rw [← runLength_eq_zero_iff, ← List.length_eq_zero_iff]
    rfl
  rw [exponentDigits]
  by_cases hnil : digitRun t = []
  · rw [if_pos hnil, if_neg]
    · rfl
    · exact Bool.eq_false_iff.mp (hrun.mpr hnil)
  · rw [if_neg hnil, if_pos]
    · rfl
    · exact eq_true_of_ne_false (mt hrun.mp hnil)

/-- Behind the letter and the sign the digits of an exponent are read. -/
theorem exponent_of_signed (hversion : .xpath20 ≤ version) {e : UInt8} (he : e ∈ exponentMarks)
    {s u : List UInt8} (h : Signed t s u) :
    (exponent (.ofVersion version) .xml kind (e :: t)).found =
      (after (1 + s.length) (exponentDigits .xml) (e :: t)).found := by
  have hsupports : (Dialect.ofVersion version).supports .exponentLiterals = true :=
    decide_eq_true hversion
  have hmark : (e == Ascii.lowerE || e == Ascii.upperE) = true := by simpa [exponentMarks] using he
  rw [exponent, if_pos (by rw [hsupports]; exact hmark), ← after_after]
  congr 1
  refine after_congr ?_
  rw [List.drop_succ_cons, List.drop_zero]
  obtain ⟨hs, rfl, hnot⟩ := h
  rcases eq_nil_or_singleton hs with rfl | ⟨b, rfl⟩
  · rw [List.nil_append, if_neg]
    · exact (after_zero _ u).symm
    · intro hany
      obtain ⟨b, hb, hsign⟩ := (Option.any_eq_true _ _).mp hany
      exact hnot rfl b hb (sign_iff.mp hsign)
  · rw [if_pos]
    · rfl
    · exact sign_iff.mpr hs

/-- **Behind the letter of an exponent there is an exponent, or there is no number.** What is read
of an exponent is the longest one. -/
theorem exponent_cases (hversion : .xpath20 ≤ version) {e : UInt8} (he : e ∈ exponentMarks)
    (kind : Kind) (t : List UInt8) :
    (∃ x, IsLongest IsExponent (e :: t) x ∧
      (exponent (.ofVersion version) .xml kind (e :: t)).found = .ok (.doubleLiteral, x.length)) ∨
    (¬∃ x, IsExponent x ∧ x <+: e :: t) ∧
      (exponent (.ofVersion version) .xml kind (e :: t)).found = .error .missingExponentDigits := by
  obtain ⟨s, u, hsigned⟩ := exists_signed t
  have hdrop : (e :: t).drop (1 + s.length) = u := by
    rw [hsigned.text_eq, Nat.add_comm, List.drop_succ_cons, List.drop_left]
  rw [exponent_of_signed hversion he hsigned, after, hdrop, exponentDigits_found]
  by_cases hnil : digitRun u = []
  · refine Or.inr ⟨?_, by rw [if_pos hnil]; rfl⟩
    rintro ⟨x, hx, hxt⟩
    obtain ⟨w, rfl, hne, hw, hwu⟩ := hsigned.of_isExponent hx hxt
    have hrun := hw.begins_digitRun hwu
    rw [hnil] at hrun
    exact hne (List.prefix_nil.mp hrun)
  · refine Or.inl ⟨e :: (s ++ digitRun u), ⟨?_, ?_, ?_⟩, ?_⟩
    · exact .intro he hsigned.mem hnil (areDigits_digitRun u)
    · rw [hsigned.text_eq]
      refine List.cons_prefix_cons.mpr ⟨rfl, ?_⟩
      exact (List.prefix_append_right_inj s).mpr (digitRun_begins u)
    · intro x hx hxt
      obtain ⟨w, rfl, -, hw, hwu⟩ := hsigned.of_isExponent hx hxt
      have hle := (hw.begins_digitRun hwu).length_le
      simp only [List.length_cons, List.length_append]
      omega
    · rw [if_neg hnil]
      simp only [Except.map, List.length_cons, List.length_append, Except.ok.injEq, Prod.mk.injEq,
        true_and]
      omega

/-- **A point without a digit behind it is a step of its own**, or the first half of one. -/
theorem token_of_point (version : Version) (h : t.head?.any Ascii.isDigit = false) :
    (token (.ofVersion version) .xml (Ascii.dot :: t)).found =
      if t.head? = some Ascii.dot then .ok (.symbol .parentStep, 2)
      else .ok (.symbol .contextItem, 1) := by
  have hnot : ¬t.head?.any ByteClass.xml.isDigit = true := Bool.eq_false_iff.mp h
  rw [token, tokenAt, if_neg (by decide), if_pos rfl, point, after, List.drop_succ_cons,
    List.drop_zero, if_neg hnot]
  split <;> rfl

end Reading

/-! ### Numbers on the way of a lexer -/

/-- A text that starts with a digit or a point starts with no blank and no comment. -/
theorem gapFree_of_number {version : Version} (h : Ascii.isDigit b = true ∨ b = Ascii.dot)
    (t : List UInt8) : GapFree .xml version (b :: t) := by
  have hne : ∀ c, Ascii.isDigit c = false → c ≠ Ascii.dot → b ≠ c := by
    rintro c hdigit hdot rfl
    rcases h with h | h
    · simp [h] at hdigit
    · exact hdot h
  refine gapFree_cons ?_ (hne _ (by decide) (by decide)) t
  simp (disch := decide) [ByteClass.xml, hne]

namespace Lexer

variable {σ : Type} [Source σ] {n : Nat} {text : List UInt8} {version : Version} {l : Lexer σ n}
  {p : Nat}

/-- **What has to become of a number** that starts at an offset and has the given bytes before its
exponent. -/
structure ReadsNumber (text : List UInt8) (version : Version) (l : Lexer σ n) (p : Nat)
    (m : List UInt8) : Prop where
  /-- In version 1.0, and where no letter of an exponent follows, these bytes are the number. -/
  plain : (version = .xpath10 ∨ ¬∃ e ∈ exponentMarks, (text.drop (p + m.length)).head? = some e) →
    l.GivesAt p (numeralKind m) m
  /-- Where an exponent follows, the longest one belongs to the number. -/
  double : .xpath20 ≤ version → (∃ x, IsExponent x ∧ x <+: text.drop (p + m.length)) →
    ∃ x, IsLongest IsExponent (text.drop (p + m.length)) x ∧ l.GivesAt p .doubleLiteral (m ++ x)
  /-- A letter of an exponent without one is an error where the number starts. -/
  missing : .xpath20 ≤ version →
    (∃ e ∈ exponentMarks, (text.drop (p + m.length)).head? = some e) →
    (¬∃ x, IsExponent x ∧ x <+: text.drop (p + m.length)) →
    l.RejectsAt text p .missingExponentDigits

/-- **What has to become of a point** with the given text behind it, which starts with no digit. -/
structure ReadsPoint (l : Lexer σ n) (p : Nat) (t : List UInt8) : Prop where
  /-- Another point makes it the step to the parent. -/
  parentStep : t.head? = some Ascii.dot →
    l.GivesAt p (.symbol .parentStep) [Ascii.dot, Ascii.dot]
  /-- Otherwise it is the context item. -/
  contextItem : t.head? ≠ some Ascii.dot → l.GivesAt p (.symbol .contextItem) [Ascii.dot]

/-- A number at an offset has no blank and no comment at its beginning. -/
theorem gapFree_of_startsNumber {t : List UInt8} (h : StartsNumber t) : GapFree .xml version t := by
  cases h with
  | digit hb => exact gapFree_of_number (Or.inl hb) _
  | point _ => exact gapFree_of_number (Or.inr rfl) _

/-- **A number at a point of the text is read by its grammar.** -/
theorem Exact.readsNumber (h : l.Exact text .xml version) (hto : l.Approaches text .xml version p)
    (hsmall : ¬Overflows (l.answer 0)) (hnumber : StartsNumber (text.drop p)) :
    l.ReadsNumber text version p (numeral (text.drop p)) := by
  have hfree : GapFree .xml version (text.drop p) := gapFree_of_startsNumber hnumber
  have hread := Reading.token_of_startsNumber version hnumber
  have hparts := List.prefix_iff_eq_append.mp (numeral_begins (text.drop p))
  rw [List.drop_drop] at hparts
  constructor
  case plain =>
    intro hplain
    refine h.gives_of_read hto hsmall hfree hparts.symm ?_
    rw [hread, Reading.after_eq_ok, List.drop_drop]
    exact ⟨0, Reading.exponent_none hplain, rfl⟩
  case double =>
    rintro hversion ⟨x, hx, hxt⟩
    obtain ⟨e, t, he, ht⟩ : ∃ e t, e ∈ exponentMarks ∧
        text.drop (p + (numeral (text.drop p)).length) = e :: t := by
      obtain ⟨he, -, -, -⟩ := hx
      obtain ⟨r, hr⟩ := hxt
      exact ⟨_, _, he, hr.symm⟩
    rcases Reading.exponent_cases hversion he _ t with ⟨y, hy, hfound⟩ | ⟨hnone, -⟩
    · rw [← ht] at hy hfound
      refine ⟨y, hy, ?_⟩
      obtain ⟨r, hr⟩ := hy.begins
      rw [← hr, ← List.append_assoc] at hparts
      refine h.gives_of_read hto hsmall hfree hparts.symm ?_
      rw [hread, Reading.after_eq_ok, List.drop_drop, List.length_append]
      exact ⟨y.length, hfound, rfl⟩
    · exact absurd ⟨x, hx, ht ▸ hxt⟩ hnone
  case missing =>
    rintro hversion ⟨e, he, hhead⟩ hnone
    obtain ⟨t, ht⟩ := List.head?_eq_some_iff.mp hhead
    rcases Reading.exponent_cases hversion he _ t with ⟨y, hy, -⟩ | ⟨-, hfound⟩
    · exact absurd ⟨y, hy.holds, ht ▸ hy.begins⟩ hnone
    · refine h.rejects_of_read hto hsmall hfree ?_
      rw [hread, Reading.after_eq_error, List.drop_drop, ht]
      exact hfound

/-- **A point that no digit follows is read as a step.** -/
theorem Exact.readsPoint (h : l.Exact text .xml version) (hto : l.Approaches text .xml version p)
    (hsmall : ¬Overflows (l.answer 0)) {t : List UInt8} (htext : text.drop p = Ascii.dot :: t)
    (hdigit : t.head?.any Ascii.isDigit = false) : l.ReadsPoint p t := by
  have hfree : GapFree .xml version (text.drop p) := htext ▸ gapFree_of_number (Or.inr rfl) t
  have hread := Reading.token_of_point version hdigit
  rw [← htext] at hread
  constructor
  · intro hdot
    obtain ⟨r, rfl⟩ := List.head?_eq_some_iff.mp hdot
    have hparts : text.drop p = [Ascii.dot, Ascii.dot] ++ r := htext
    refine h.gives_of_read hto hsmall hfree hparts ?_
    rw [hread, if_pos hdot]
    rfl
  · intro hdot
    have hparts : text.drop p = [Ascii.dot] ++ t := htext
    refine h.gives_of_read hto hsmall hfree hparts ?_
    rw [hread, if_neg hdot]
    rfl

/-- **Over a faithful source numbers are recognised by their grammar**, whatever calls have been
made before and however small the buffers are, if the window does not overflow. -/
theorem after_readsNumber {source : σ} (hsource : Source.Faithful source text) (hn : 0 < n)
    (version : Version) :
    ∃ l₀ : Lexer σ n, ofSource source { bufferSize := n, version } .xml = .ok l₀ ∧
      ∀ calls p, (l₀.after calls).Approaches text .xml version p →
        ¬Overflows ((l₀.after calls).answer 0) →
        (StartsNumber (text.drop p) → ∃ m, IsLongest IsNumeral (text.drop p) m ∧
          (l₀.after calls).ReadsNumber text version p m) ∧
        ∀ t, text.drop p = Ascii.dot :: t → t.head?.any Ascii.isDigit = false →
          (l₀.after calls).ReadsPoint p t := by
  obtain ⟨l₀, hof, hexact⟩ := exists_exact hsource hn version .xml
  refine ⟨l₀, hof, fun calls p hto hsmall => ⟨fun hnumber => ?_, fun t htext hdigit => ?_⟩⟩
  · exact ⟨_, isLongest_numeral hnumber, (hexact calls).readsNumber hto hsmall hnumber⟩
  · exact (hexact calls).readsPoint hto hsmall htext hdigit

/-- A number with a point and no digit behind it, and an exponent with a sign, through buffers of
three bytes: the sign lies at the end of the first buffer. -/
theorem after_readsNumber_pointSign :
    ∃ l₀ : Lexer Memory 3,
      ofSource { rest := [0x31, 0x2E, 0x65, 0x2B, 0x35] }
        { bufferSize := 3, version := .xpath20 } .xml = .ok l₀ ∧
      l₀.GivesAt 0 .doubleLiteral [0x31, 0x2E, 0x65, 0x2B, 0x35] := by
  have hsource := Memory.faithful [0x31, 0x2E, 0x65, 0x2B, 0x35]
  obtain ⟨l₀, hof, hreads⟩ := after_readsNumber hsource (n := 3) (by decide) .xpath20
  obtain ⟨hto, hsmall⟩ := approaches_start hsource (by decide) hof (by decide)
  have hnumber : StartsNumber [0x31, 0x2E, 0x65, 0x2B, 0x35] := .digit rfl
  obtain ⟨m, hm, hnumber'⟩ := (hreads [] 0 hto hsmall).1 hnumber
  obtain rfl : m = [0x31, 0x2E] := hm.eq (isLongest_numeral hnumber)
  have hexponent : IsExponent [0x65, 0x2B, 0x35] :=
    .intro (e := 0x65) (s := [0x2B]) (u := [0x35]) (by decide) (by decide) (by decide)
      (by rintro b (_ | ⟨_, ⟨⟩⟩); rfl)
  obtain ⟨x, hx, hgives⟩ := hnumber'.double (by decide) ⟨_, hexponent, List.prefix_rfl⟩
  obtain rfl : x = [0x65, 0x2B, 0x35] := hx.eq (isLongest_self hexponent)
  exact ⟨l₀, hof, hgives⟩

end Lexer

end XPathScan
