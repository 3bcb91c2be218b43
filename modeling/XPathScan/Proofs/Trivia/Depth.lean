import XPathScan.Ascii

/-!
# How deep comments are nested

A comment is closed where as many comments have been closed as have been opened. In the language of
comments that is a matter of numbers (`XPathScan.commentLength`); the lexer counts with 32 bits
(`XPathScan.countedLength`). The two agree as long as the numbers do not come to 2³²
(`XPathScan.countedLength_eq`), and that is all that has to be known about the counter: what is said
about the language of comments from here on is said about numbers, for texts that are
*shallow* (`XPathScan.Shallow`). A text of less than 2³³ bytes is always so.

## Where the counter stops

With 2³² comments open the counter is at zero, and the lexer takes the innermost of them for the end
of the outermost (`XPathScan.countedLength_opens`). So what is said about shallow texts cannot be
said about all of them.
-/

namespace XPathScan

/-! ### Two ways to count -/

/-- **The length of the rest of a comment** from inside it at some depth, up to and including the
end of the outermost one, if it has one. -/
def commentLength : (depth : Nat) → List UInt8 → Option Nat
  | 0, _ => some 0
  | _ + 1, [] => none
  | _ + 1, [_] => none
  | depth + 1, b :: b' :: t =>
    if b = Ascii.leftParen ∧ b' = Ascii.colon then (commentLength (depth + 2) t).map (· + 2)
    else if b = Ascii.colon ∧ b' = Ascii.rightParen then (commentLength depth t).map (· + 2)
    else (commentLength (depth + 1) (b' :: t)).map (· + 1)

/-- **The length of the rest of a comment as it is counted** with 32 bits. -/
def countedLength (depth : UInt32) (t : List UInt8) : Option Nat :=
  if depth = 0 then some 0
  else
    match t with
    | [] => none
    | [_] => none
    | b :: b' :: t =>
      if b = Ascii.leftParen ∧ b' = Ascii.colon then (countedLength (depth + 1) t).map (· + 2)
      else if b = Ascii.colon ∧ b' = Ascii.rightParen then
        (countedLength (depth - 1) t).map (· + 2)
      else (countedLength depth (b' :: t)).map (· + 1)

/-- **The deepest level of a comment** from inside it at some depth, up to the end of the outermost
one, or of the text. -/
def nesting : (depth : Nat) → List UInt8 → Nat
  | 0, _ => 0
  | depth + 1, [] => depth + 1
  | depth + 1, [_] => depth + 1
  | depth + 1, b :: b' :: t =>
    if b = Ascii.leftParen ∧ b' = Ascii.colon then nesting (depth + 2) t
    else if b = Ascii.colon ∧ b' = Ascii.rightParen then max (depth + 1) (nesting depth t)
    else nesting (depth + 1) (b' :: t)

variable {depth k : Nat} {g t u : List UInt8}

theorem le_nesting (depth : Nat) (t : List UInt8) : depth ≤ nesting depth t := by
  fun_induction nesting depth t <;> omega

/-- Every level takes two bytes. -/
theorem nesting_le (depth : Nat) (t : List UInt8) : 2 * nesting depth t ≤ 2 * depth + t.length := by
  induction depth, t using nesting.induct with
  | case1 t =>
    rw [nesting]
    exact Nat.zero_le _
  | case2 depth =>
    rw [nesting]
    exact Nat.le_add_right _ _
  | case3 depth b =>
    rw [nesting]
    exact Nat.le_add_right _ _
  | case4 depth b b' t hopen ih =>
    rw [nesting, if_pos hopen, List.length_cons, List.length_cons]
    omega
  | case5 depth b b' t hopen hclose ih =>
    rw [nesting, if_neg hopen, if_pos hclose, List.length_cons, List.length_cons]
    omega
  | case6 depth b b' t hopen hclose ih =>
    rw [nesting, if_neg hopen, if_neg hclose, List.length_cons]
    omega

/-- More bytes behind do not make a comment less deep. -/
theorem nesting_le_append (depth : Nat) (t u : List UInt8) :
    nesting depth t ≤ nesting depth (t ++ u) := by
  induction depth, t using nesting.induct with
  | case1 t =>
    rw [nesting]
    exact Nat.zero_le _
  | case2 depth =>
    rw [nesting]
    exact le_nesting _ _
  | case3 depth b =>
    rw [nesting]
    exact le_nesting _ _
  | case4 depth b b' t hopen ih =>
    rw [List.cons_append, List.cons_append, nesting, if_pos hopen, nesting, if_pos hopen]
    exact ih
  | case5 depth b b' t hopen hclose ih =>
    rw [List.cons_append, List.cons_append, nesting, if_neg hopen, if_pos hclose, nesting,
      if_neg hopen, if_pos hclose]
    omega
  | case6 depth b b' t hopen hclose ih =>
    rw [List.cons_append, List.cons_append, nesting, if_neg hopen, if_neg hclose, nesting,
      if_neg hopen, if_neg hclose]
    exact ih

theorem ofNat_succ_ne_zero (h : depth + 1 < UInt32.size) : UInt32.ofNat (depth + 1) ≠ 0 := by
  intro hzero
  have hmod := (UInt32.ofNat_eq_iff_mod_eq_toNat _ _).mp hzero
  rw [Nat.mod_eq_of_lt h] at hmod
  exact Nat.succ_ne_zero depth hmod

theorem ofNat_succ_add_one (depth : Nat) :
    UInt32.ofNat (depth + 1) + 1 = .ofNat (depth + 2) :=
  (UInt32.ofNat_add (depth + 1) 1).symm

theorem ofNat_succ_sub_one (depth : Nat) : UInt32.ofNat (depth + 1) - 1 = .ofNat depth :=
  (UInt32.ofNat_sub (Nat.le_add_left 1 depth)).symm

theorem countedLength_zero (t : List UInt8) : countedLength 0 t = some 0 := by
  rw [countedLength.eq_def, if_pos rfl]

theorem ne_zero_of_countedLength {depth : UInt32} (h : countedLength depth t = none) :
    depth ≠ 0 := by
  rintro rfl
  rw [countedLength_zero] at h
  cases h

/-- **Below 2³² levels the counter counts right.** -/
theorem countedLength_eq (h : nesting depth t < UInt32.size) :
    countedLength (.ofNat depth) t = commentLength depth t := by
  have hle := le_nesting depth t
  induction depth, t using commentLength.induct with
  | case1 t =>
    rw [commentLength]
    exact countedLength_zero t
  | case2 depth => rw [countedLength, if_neg (ofNat_succ_ne_zero (by omega)), commentLength]
  | case3 depth b => rw [countedLength, if_neg (ofNat_succ_ne_zero (by omega)), commentLength]
  | case4 depth b b' t hopen ih =>
    have hne := ofNat_succ_ne_zero (Nat.lt_of_le_of_lt hle h)
    rw [nesting, if_pos hopen] at h
    rw [countedLength, if_neg hne, if_pos hopen, commentLength, if_pos hopen,
      ofNat_succ_add_one, ih h (le_nesting _ _)]
  | case5 depth b b' t hopen hclose ih =>
    have hne := ofNat_succ_ne_zero (Nat.lt_of_le_of_lt hle h)
    rw [nesting, if_neg hopen, if_pos hclose] at h
    rw [countedLength, if_neg hne, if_neg hopen, if_pos hclose, commentLength, if_neg hopen,
      if_pos hclose, ofNat_succ_sub_one, ih (by omega) (le_nesting _ _)]
  | case6 depth b b' t hopen hclose ih =>
    have hne := ofNat_succ_ne_zero (Nat.lt_of_le_of_lt hle h)
    rw [nesting, if_neg hopen, if_neg hclose] at h
    rw [countedLength, if_neg hne, if_neg hopen, if_neg hclose, commentLength, if_neg hopen,
      if_neg hclose, ih h (le_nesting _ _)]

/-- **A comment that is not closed for the counter is not closed at all**, however deep it is: the
counter can only come to zero too early. -/
theorem commentLength_eq_none (h : countedLength (.ofNat depth) t = none) :
    commentLength depth t = none := by
  have hdepth := ne_zero_of_countedLength h
  induction depth, t using commentLength.induct with
  | case1 t => exact absurd rfl hdepth
  | case2 depth => rw [commentLength]
  | case3 depth b => rw [commentLength]
  | case4 depth b b' t hopen ih =>
    rw [countedLength, if_neg hdepth, if_pos hopen, ofNat_succ_add_one] at h
    have hnone := Option.map_eq_none_iff.mp h
    rw [commentLength, if_pos hopen, ih hnone (ne_zero_of_countedLength hnone), Option.map_none]
  | case5 depth b b' t hopen hclose ih =>
    rw [countedLength, if_neg hdepth, if_neg hopen, if_pos hclose,
      ofNat_succ_sub_one] at h
    have hnone := Option.map_eq_none_iff.mp h
    rw [commentLength, if_neg hopen, if_pos hclose, ih hnone (ne_zero_of_countedLength hnone),
      Option.map_none]
  | case6 depth b b' t hopen hclose ih =>
    rw [countedLength, if_neg hdepth, if_neg hopen, if_neg hclose] at h
    rw [commentLength, if_neg hopen, if_neg hclose, ih (Option.map_eq_none_iff.mp h) hdepth,
      Option.map_none]

/-! ### What is counted depends on nothing behind it -/

/-- The end of a comment takes room. -/
theorem countedLength_pos {depth : UInt32} (hdepth : depth ≠ 0)
    (h : countedLength depth t = some k) : 0 < k := by
  fun_cases countedLength depth t with
  | case1 => contradiction
  | case2 => simp [countedLength, hdepth] at h
  | case3 => simp [countedLength, hdepth] at h
  | case4 _ b b' t hopen =>
    rw [countedLength, if_neg hdepth, if_pos hopen] at h
    obtain ⟨l, -, rfl⟩ := Option.map_eq_some_iff.mp h
    exact Nat.succ_pos _
  | case5 _ b b' t hopen hclose =>
    rw [countedLength, if_neg hdepth, if_neg hopen, if_pos hclose] at h
    obtain ⟨l, -, rfl⟩ := Option.map_eq_some_iff.mp h
    exact Nat.succ_pos _
  | case6 _ b b' t hopen hclose =>
    rw [countedLength, if_neg hdepth, if_neg hopen, if_neg hclose] at h
    obtain ⟨l, -, rfl⟩ := Option.map_eq_some_iff.mp h
    exact Nat.succ_pos _

/-- **The end of a comment is found by the bytes before it.** -/
theorem countedLength_take_append {depth : UInt32} (h : countedLength depth t = some k)
    (u : List UInt8) : countedLength depth (t.take k ++ u) = some k := by
  induction depth, t using countedLength.induct generalizing k with
  | case1 t =>
    obtain rfl : 0 = k := by simpa [countedLength_zero] using h
    exact countedLength_zero _
  | case2 depth hdepth => simp [countedLength, hdepth] at h
  | case3 depth hdepth b => simp [countedLength, hdepth] at h
  | case4 depth hdepth b b' t hopen ih =>
    rw [countedLength, if_neg hdepth, if_pos hopen] at h
    obtain ⟨l, hl, rfl⟩ := Option.map_eq_some_iff.mp h
    rw [List.take_succ_cons, List.take_succ_cons, List.cons_append, List.cons_append,
      countedLength, if_neg hdepth, if_pos hopen, ih hl, Option.map_some]
  | case5 depth hdepth b b' t hopen hclose ih =>
    rw [countedLength, if_neg hdepth, if_neg hopen, if_pos hclose] at h
    obtain ⟨l, hl, rfl⟩ := Option.map_eq_some_iff.mp h
    rw [List.take_succ_cons, List.take_succ_cons, List.cons_append, List.cons_append,
      countedLength, if_neg hdepth, if_neg hopen, if_pos hclose, ih hl, Option.map_some]
  | case6 depth hdepth b b' t hopen hclose ih =>
    rw [countedLength, if_neg hdepth, if_neg hopen, if_neg hclose] at h
    obtain ⟨l, hl, rfl⟩ := Option.map_eq_some_iff.mp h
    -- The byte that is only looked at is among those that are stepped over next.
    obtain ⟨l, rfl⟩ := Nat.exists_eq_add_one.mpr (countedLength_pos hdepth hl)
    have hrest := ih hl
    rw [List.take_succ_cons, List.cons_append] at hrest
    rw [List.take_succ_cons, List.take_succ_cons, List.cons_append, List.cons_append,
      countedLength, if_neg hdepth, if_neg hopen, if_neg hclose, hrest, Option.map_some]

theorem countedLength_le {depth : UInt32} (h : countedLength depth t = some k) : k ≤ t.length := by
  induction depth, t using countedLength.induct generalizing k with
  | case1 t =>
    obtain rfl : 0 = k := by simpa [countedLength_zero] using h
    exact Nat.zero_le _
  | case2 depth hdepth => simp [countedLength, hdepth] at h
  | case3 depth hdepth b => simp [countedLength, hdepth] at h
  | case4 depth hdepth b b' t hopen ih =>
    rw [countedLength, if_neg hdepth, if_pos hopen] at h
    obtain ⟨l, hl, rfl⟩ := Option.map_eq_some_iff.mp h
    exact Nat.add_le_add_right (ih hl) 2
  | case5 depth hdepth b b' t hopen hclose ih =>
    rw [countedLength, if_neg hdepth, if_neg hopen, if_pos hclose] at h
    obtain ⟨l, hl, rfl⟩ := Option.map_eq_some_iff.mp h
    exact Nat.add_le_add_right (ih hl) 2
  | case6 depth hdepth b b' t hopen hclose ih =>
    rw [countedLength, if_neg hdepth, if_neg hopen, if_neg hclose] at h
    obtain ⟨l, hl, rfl⟩ := Option.map_eq_some_iff.mp h
    exact Nat.add_le_add_right (ih hl) 1

/-- The bytes up to the end of a comment end it. -/
theorem countedLength_take {depth : UInt32} (h : countedLength depth t = some k) :
    countedLength depth (t.take k) = some (t.take k).length := by
  have htake := countedLength_take_append h []
  rw [List.append_nil] at htake
  rw [htake, List.length_take_of_le (countedLength_le h)]

/-! ### Shallow texts -/

/-- **A text whose comments are nested less than 2³² deep**, wherever one of them opens. -/
def Shallow (g : List UInt8) : Prop :=
  ∀ t, Ascii.leftParen :: Ascii.colon :: t <:+ g → nesting 1 t < UInt32.size

/-- **In a shallow text a comment that opens is counted right.** -/
theorem Shallow.countedLength_eq (h : Shallow (Ascii.leftParen :: Ascii.colon :: t)) :
    countedLength 1 t = commentLength 1 t :=
  XPathScan.countedLength_eq (h t List.suffix_rfl)

theorem Shallow.of_suffix (h : Shallow g) (ht : t <:+ g) : Shallow t :=
  fun _ hu => h _ (hu.trans ht)

theorem Shallow.of_append (h : Shallow (g ++ u)) : Shallow g := by
  rintro t ⟨s, rfl⟩
  have hwhole := h (t ++ u) ⟨s, by simp⟩
  exact Nat.lt_of_le_of_lt (nesting_le_append 1 t u) hwhole

/-- **A text of less than 2³³ bytes is shallow.** -/
theorem Shallow.of_length_lt (h : g.length < 2 * UInt32.size) : Shallow g := by
  intro t ht
  have hnesting := nesting_le 1 t
  have hlength := ht.length_le
  simp only [List.length_cons] at hlength
  omega

/-! ### Texts that are not shallow -/

/-- **So many comments that open**, one inside the other. -/
def opens : Nat → List UInt8
  | 0 => []
  | k + 1 => Ascii.leftParen :: Ascii.colon :: opens k

theorem length_opens (k : Nat) : (opens k).length = 2 * k := by
  induction k with
  | zero => rfl
  | succ k ih => rw [opens, List.length_cons, List.length_cons, ih, Nat.mul_succ]

/-- Comments that only open are not closed. -/
theorem commentLength_opens (depth k : Nat) : commentLength (depth + 1) (opens k) = none := by
  induction k generalizing depth with
  | zero => rw [opens, commentLength]
  | succ k ih => rw [opens, commentLength, if_pos ⟨rfl, rfl⟩, ih, Option.map_none]

/-- **The counter takes the last of 2³² comments that open for the end of all of them.** -/
theorem countedLength_opens (h : depth + 1 + k = UInt32.size) :
    countedLength (.ofNat (depth + 1)) (opens k) = some (2 * k) := by
  induction k generalizing depth with
  | zero =>
    rw [Nat.add_zero] at h
    rw [h]
    exact countedLength_zero _
  | succ k ih =>
    rw [opens, countedLength, if_neg (ofNat_succ_ne_zero (by omega)), if_pos ⟨rfl, rfl⟩,
      ofNat_succ_add_one, ih (by omega), Option.map_some, Nat.mul_succ]

end XPathScan
