import XPathScan.Proofs.Lexicon
import XPathScan.Scan.Token

/-!
# What a scanner can say

Two things about scanners hold in every window, well kept or not. The kind of a token is never that
of the end of the input, so that the end can be told by the kind alone; and no scanner of tokens
reports a comment that is not closed, so that this report always comes from the trivia.

Both are said at once: a scanner *says* a property (`XPathScan.Scan.Says`) if whatever it finds has
the property, and if it does not give up for the sake of a comment. Scanners that say properties are
put together as the scanners are, and what they find on the way may be anything.

* `XPathScan.Scan.says_tokenAt` – a token that starts with some byte is not the end;
* `XPathScan.Scan.token_eq_eof` – the end is found at the end of the input, and nothing has moved.
-/

namespace XPathScan.Scan

variable {n : Nat} {α β : Type} {P : α → Prop} {R : β → Prop}

/-- **A scanner whose finds have a property**, and which does not report a comment. -/
structure Says (P : α → Prop) (m : Scan n α) : Prop where
  /-- What is found has the property. -/
  found : ∀ (w : Window n) (a : α) (w' : Window n), m w = .ok a w' → P a
  /-- A comment is not reported. -/
  error : ∀ (w : Window n) (e : ScanError) (w' : Window n), m w = .error e w' →
    e ≠ .malformed .unterminatedComment

/-- Nothing is asked of what is found. -/
def Anything (_ : α) : Prop := True

/-! ### Putting scanners together -/

theorem says_pure {a : α} (h : P a) : Says P (pure a : Scan n α) := by
  constructor
  · rintro w a' w' ⟨⟩
    exact h
  · rintro w e w' ⟨⟩

theorem says_reject {m : Malformation} (h : m ≠ .unterminatedComment) :
    Says P (reject m : Scan n α) := by
  constructor
  · rintro w a w' ⟨⟩
  · rintro w e w' ⟨⟩ hm
    exact h (ScanError.malformed.inj hm)

/-- **What comes after anything that a scanner finds decides what is said.** -/
theorem Says.bind {m : Scan n α} {f : α → Scan n β} (hm : Says P m)
    (hf : ∀ a, P a → Says R (f a)) : Says R (m >>= f) := by
  constructor
  · intro w b w' h
    simp only [Bind.bind, EStateM.bind] at h
    split at h
    · next a w₁ ha => exact (hf a (hm.found w a w₁ ha)).found w₁ b w' h
    · cases h
  · intro w e w' h
    simp only [Bind.bind, EStateM.bind] at h
    split at h
    · next a w₁ ha => exact (hf a (hm.found w a w₁ ha)).error w₁ e w' h
    · next e₁ w₁ he =>
      cases h
      exact hm.error w e w' he

/-- A scanner that finds anything, and then one that says a property. -/
theorem Says.seq {m : Scan n α} {f : α → Scan n β} (hm : Says Anything m)
    (hf : ∀ a, Says R (f a)) : Says R (m >>= f) :=
  hm.bind fun a _ => hf a

/-! ### The pieces of scanners -/

theorem says_peek : Says Anything (peek : Scan n _) :=
  ⟨fun _ _ _ _ => trivial, by rintro w e w' ⟨⟩⟩

theorem says_sees (p : UInt8 → Bool) : Says Anything (sees p : Scan n _) :=
  says_peek.seq fun _ => says_pure trivial

theorem says_advance : Says Anything (advance : Scan n _) := by
  refine ⟨fun _ _ _ _ => trivial, fun w e w' h => ?_⟩
  rw [advance] at h
  split at h
  · cases h
  · cases h
    simp

theorem says_retreat : Says Anything (retreat : Scan n _) := by
  refine ⟨fun _ _ _ _ => trivial, fun w e w' h => ?_⟩
  rw [retreat] at h
  split at h
  · cases h
  · cases h
    simp

/-- A state that is taken along has made the steps of some bytes. -/
theorem exists_foldl_of_stepWhile {p : UInt8 → Bool} {step : α → UInt8 → α} {a a' : α}
    {w w' : Window n} (h : w.stepWhile p step a = .ok a' w') :
    ∃ bytes : List UInt8, bytes.foldl step a = a' := by
  fun_induction Window.stepWhile p step a w with
  | case1 a w hpeek =>
    cases h
    exact ⟨[], rfl⟩
  | case2 a w b hpeek hb w₁ hmove hroom ih =>
    obtain ⟨bytes, hbytes⟩ := ih h
    exact ⟨b :: bytes, hbytes⟩
  | case3 => cases h
  | case4 a w b hpeek hb =>
    cases h
    exact ⟨[], rfl⟩

theorem says_stepWhile (p : UInt8 → Bool) (step : α → UInt8 → α) (a : α) :
    Says (fun a' => ∃ bytes : List UInt8, bytes.foldl step a = a')
      (stepWhile p step a : Scan n _) := by
  constructor
  · intro w a' w' h
    rw [stepWhile] at h
    split at h
    · next hsteps =>
      cases h
      exact exists_foldl_of_stepWhile hsteps
    · cases h
  · intro w e w' h
    rw [stepWhile] at h
    split at h
    · cases h
    · cases h
      simp

theorem says_eatWhile (p : UInt8 → Bool) : Says Anything (eatWhile p : Scan n _) :=
  ⟨fun _ _ _ _ => trivial, (says_stepWhile p _ ()).error⟩

/-- A search is broken off for no malformation at all. -/
theorem ofSearch_ne_malformed (e : SearchError) (m : Malformation) :
    ScanError.ofSearch e ≠ .malformed m := by
  cases e <;> simp [ScanError.ofSearch]

theorem says_literalRest (quote : UInt8) (escapes : Bool) :
    Says Anything (literalRest quote escapes : Scan n _) := by
  refine ⟨fun _ _ _ _ => trivial, fun w e w' h => ?_⟩
  fun_induction literalRest quote escapes w with
  | case1 w e₁ w₁ hfind =>
    cases h
    exact ofSearch_ne_malformed e₁ _
  | case2 w w₁ hfind =>
    cases h
    simp
  | case3 w w₁ hfind o hclose =>
    cases h
    simp
  | case4 w w₁ hfind w₂ hclose hagain o hpair =>
    cases h
    simp
  | case5 w w₁ hfind w₂ hclose hagain w₃ hpair hless ih => exact ih h
  | case6 w w₁ hfind w₂ hclose hagain => cases h

/-! ### Tokens -/

/-- The kind of a token, and not of the end of the input. -/
def NotEof (kind : Kind) : Prop := kind ≠ .eof

theorem says_literal (d : Dialect) (quote : UInt8) : Says NotEof (literal d quote : Scan n _) := by
  refine says_advance.seq fun _ => ?_
  exact (says_literalRest quote _).seq fun _ => says_pure (by simp [NotEof])

theorem says_exponent (d : Dialect) (c : ByteClass) {kind : Kind} (h : NotEof kind) :
    Says NotEof (exponent d c kind : Scan n _) := by
  have hdigits : Says NotEof (do
      if ← sees c.isDigit then
        eatWhile c.isDigit
        pure .doubleLiteral
      else reject .missingExponentDigits : Scan n Kind) := by
    refine (says_sees _).seq fun _ => ?_
    split
    · exact (says_eatWhile _).seq fun _ => says_pure (by simp [NotEof])
    · exact says_reject (by simp)
  refine (says_sees _).seq fun _ => ?_
  split
  · refine says_advance.seq fun _ => (says_sees _).seq fun _ => ?_
    split
    · exact says_advance.seq fun _ => hdigits
    · exact hdigits
  · exact says_pure h

theorem says_number (d : Dialect) (c : ByteClass) : Says NotEof (number d c : Scan n _) := by
  refine (says_eatWhile _).seq fun _ => says_peek.seq fun _ => ?_
  split
  · refine says_advance.seq fun _ => (says_eatWhile _).seq fun _ => ?_
    exact says_exponent d c (by simp [NotEof])
  · exact says_exponent d c (by simp [NotEof])

theorem says_point (d : Dialect) (c : ByteClass) : Says NotEof (point d c : Scan n _) := by
  refine says_advance.seq fun _ => (says_sees _).seq fun _ => ?_
  split
  · exact (says_eatWhile _).seq fun _ => says_exponent d c (by simp [NotEof])
  · refine says_peek.seq fun _ => ?_
    split
    · exact says_advance.seq fun _ => says_pure (by simp [NotEof])
    · exact says_pure (by simp [NotEof])

theorem says_operator (rule : OperatorRule) : Says NotEof (operator rule : Scan n _) := by
  refine says_advance.seq fun _ => says_peek.seq fun _ => ?_
  split
  · exact says_advance.seq fun _ => says_pure (by simp [NotEof])
  · exact says_pure (by simp [NotEof])

theorem says_bang (d : Dialect) : Says NotEof (bang d : Scan n _) := by
  refine says_advance.seq fun _ => says_peek.seq fun _ => ?_
  split
  · exact says_advance.seq fun _ => says_pure (by simp [NotEof])
  split
  · exact says_pure (by simp [NotEof])
  · exact says_reject (by simp)

theorem says_question (d : Dialect) (c : ByteClass) : Says NotEof (question d c : Scan n _) := by
  refine says_advance.seq fun _ => (says_sees _).seq fun _ => ?_
  split
  · exact says_pure (by simp [NotEof])
  split
  · exact says_pure (by simp [NotEof])
  · exact says_reject (by simp)

theorem says_joiningColon (c : ByteClass) : Says Anything (joiningColon c : Scan n _) := by
  refine says_peek.seq fun _ => ?_
  split
  · refine says_advance.seq fun _ => (says_sees _).seq fun _ => ?_
    split
    · exact says_pure trivial
    · exact says_retreat.seq fun _ => says_pure trivial
  · exact says_pure trivial

/-- **A walk along a name has seen some bytes.** -/
theorem says_walkName (d : Dialect) (c : ByteClass) :
    Says (fun r => ∃ bytes, d.words.walk bytes = r.1) (walkName d c : Scan n _) := by
  refine (says_stepWhile _ _ _).bind ?_
  rintro walk ⟨bytes, rfl⟩
  split
  · refine (says_joiningColon c).seq fun _ => ?_
    split
    · refine (says_stepWhile _ _ _).bind ?_
      rintro walk ⟨bytes', rfl⟩
      refine (says_joiningColon c).seq fun _ => ?_
      split
      · exact says_reject (by simp)
      · exact says_pure ⟨bytes ++ Ascii.colon :: bytes', List.foldl_append⟩
    · exact says_pure ⟨bytes, rfl⟩
  · exact says_pure ⟨bytes, rfl⟩

/-- The kind of a name is that of a reserved word or of its form, whatever its bytes. -/
theorem says_name (version : Version) (c : ByteClass) :
    Says NotEof (name (.ofVersion version) c : Scan n _) := by
  refine (says_walkName _ c).bind ?_
  rintro ⟨walk, qualified⟩ ⟨bytes, rfl⟩
  exact says_pure (Dialect.nameKind_ordinary version bytes qualified).1

theorem says_bracedName (c : ByteClass) : Says NotEof (bracedName c : Scan n _) := by
  refine says_advance.seq fun _ => (says_eatWhile _).seq fun _ => says_peek.seq fun _ => ?_
  split
  · refine says_advance.seq fun _ => (says_sees _).seq fun _ => ?_
    split
    · exact (says_eatWhile _).seq fun _ => says_pure (by simp [NotEof])
    · exact says_reject (by simp)
  · exact says_reject (by simp)

theorem says_anyName (version : Version) (c : ByteClass) :
    Says NotEof (anyName (.ofVersion version) c : Scan n _) := by
  refine says_peek.seq fun _ => ?_
  split
  · refine says_advance.seq fun _ => says_peek.seq fun _ => ?_
    split
    · exact says_bracedName c
    · exact says_retreat.seq fun _ => says_name version c
  · exact says_name version c

theorem says_variableToken (version : Version) (c : ByteClass) :
    Says NotEof (variableToken (.ofVersion version) c : Scan n _) := by
  refine says_advance.seq fun _ => (says_sees _).seq fun _ => ?_
  split
  · exact (says_anyName version c).bind fun _ _ => says_pure (by simp [NotEof])
  · exact says_reject (by simp)

/-- **A token that starts with a byte is not the end**, and gives no report of a comment. -/
theorem says_tokenAt (version : Version) (c : ByteClass) (b : UInt8) :
    Says NotEof (tokenAt (.ofVersion version) c b : Scan n _) := by
  rw [tokenAt]
  split
  · exact says_literal _ b
  split
  · exact says_point _ c
  split
  · exact says_variableToken version c
  split
  · exact says_bang _
  split
  · exact says_question _ c
  cases operatorRule? (.ofVersion version) b with
  | some rule => exact says_operator rule
  | none =>
    simp only
    split
    · exact says_number _ c
    split
    · exact says_anyName version c
    · exact says_reject (by simp)

/-- **No token gives the report of a comment.** -/
theorem says_token (version : Version) (c : ByteClass) :
    Says Anything (token (.ofVersion version) c : Scan n _) := by
  refine says_peek.seq fun b => ?_
  cases b with
  | none => exact says_pure trivial
  | some b => exact ⟨fun _ _ _ _ => trivial, (says_tokenAt version c b).error⟩

/-- At the end of the input the end is found. -/
theorem token_of_isAtEnd {d : Dialect} {c : ByteClass} {w : Window n} (h : w.isAtEnd = true) :
    token d c w = .ok .eof w := by
  simp only [token, Bind.bind, EStateM.bind, peek, Window.peek_eq_none_iff.mpr h]
  rfl

/-- Before it a token is scanned that starts with the byte there. -/
theorem token_of_peek {d : Dialect} {c : ByteClass} {w : Window n} {b : UInt8}
    (h : w.peek = some b) : token d c w = tokenAt d c b w := by
  simp only [token, Bind.bind, EStateM.bind, peek, h]

/-- **The end is found at the end of the input and nowhere else**, and the scanner stays there. -/
theorem token_eq_eof {version : Version} {c : ByteClass} {w w' : Window n}
    (h : token (.ofVersion version) c w = .ok .eof w') : w.isAtEnd = true ∧ w' = w := by
  cases hpeek : w.peek with
  | none =>
    have hend := Window.peek_eq_none_iff.mp hpeek
    rw [token_of_isAtEnd hend] at h
    cases h
    exact ⟨hend, rfl⟩
  | some b =>
    rw [token_of_peek hpeek] at h
    exact absurd rfl ((says_tokenAt version c b).found w .eof w' h)

end XPathScan.Scan
