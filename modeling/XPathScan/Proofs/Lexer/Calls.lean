import XPathScan.Proofs.Lexer.Run

/-!
# Calls on a lexer

A lexer can be asked for tokens in two ways, and tokens can be handed back to it, in any order and
also after the end or an error. What a call says about the life of the lexer is its
`XPathScan.Lexer.outcome`: there is more to come, the end has come, or there is an error.

* `XPathScan.Lexer.after` – the lexer after any sequence of calls;
* `XPathScan.Lexer.Runs` – calls of which none has met the end or an error;
* `XPathScan.Lexer.keeps_after` – what the next token and a token handed back keep, all calls keep.
-/

namespace XPathScan.Lexer

variable {σ : Type} {n : Nat} [Source σ]

/-- **A call on a lexer.** -/
inductive Call where
  /-- Ask for the next token. -/
  | next
  /-- Ask for the next token before the end. -/
  | iterate
  /-- Hand a token back, whether it came from this lexer or not. -/
  | release (token : Token)
  deriving DecidableEq

/-- The lexer that a call leaves behind, whether it succeeds or fails. -/
def leave (l : Lexer σ n) : Call → Lexer σ n
  | .next => Input.leaves l.next
  | .iterate => l.next?.2
  | .release token => l.release token

/-- **The lexer after some calls.** -/
def after (l : Lexer σ n) (calls : List Call) : Lexer σ n := calls.foldl leave l

theorem after_append (l : Lexer σ n) (calls : List Call) (c : Call) (later : List Call) :
    l.after (calls ++ c :: later) = ((l.after calls).leave c).after later := by
  simp only [after, List.foldl_append, List.foldl_cons]

/-- **What a call says about the life of a lexer.** -/
inductive Outcome where
  /-- There is more to come. -/
  | more
  /-- The end has come: the token that marks it, or no token any more. -/
  | done
  /-- There is an error. -/
  | failed (error : LexError)
  deriving DecidableEq

/-- What a call says. -/
def outcome (l : Lexer σ n) : Call → Outcome
  | .next =>
    match l.next with
    | .ok t _ => if t.isEof then .done else .more
    | .error e _ => .failed e
  | .iterate =>
    match l.next?.1 with
    | none => .done
    | some (.ok _) => .more
    | some (.error e) => .failed e
  | .release _ => .more

/-- **Calls that have met neither the end nor an error.** -/
def Runs (l : Lexer σ n) : List Call → Prop
  | [] => True
  | c :: calls => l.outcome c = .more ∧ (l.leave c).Runs calls

/-- **The errors that calls give**, in order. -/
def errors (l : Lexer σ n) : List Call → List LexError
  | [] => []
  | c :: calls =>
    match l.outcome c with
    | .failed e => e :: (l.leave c).errors calls
    | _ => (l.leave c).errors calls

/-- **A call for a token gives an answer**, in either way, and leaves a lexer behind. -/
inductive Answers (l : Lexer σ n) : Except LexError Token → Lexer σ n → Prop
  /-- The next token. -/
  | token {t : Token} {l' : Lexer σ n} : l.next = .ok t l' → Answers l (.ok t) l'
  /-- An error instead of the next token. -/
  | error {e : LexError} {l' : Lexer σ n} : l.next = .error e l' → Answers l (.error e) l'
  /-- The next item. -/
  | item {a : Except LexError Token} {l' : Lexer σ n} : l.next? = (some a, l') → Answers l a l'

/-- **An item is an answer to a call for the next token.** -/
theorem next_of_item {l l' : Lexer σ n} {a : Except LexError Token} (h : l.next? = (some a, l')) :
    (∃ t, a = .ok t ∧ l.next = .ok t l') ∨ ∃ e, a = .error e ∧ l.next = .error e l' := by
  rw [next?] at h
  split at h
  · split at h
    · next e l₁ hnext =>
      cases h
      exact Or.inr ⟨e, rfl, hnext⟩
    · next t l₁ hnext =>
      split at h
      · cases h
      · cases h
        exact Or.inl ⟨t, rfl, hnext⟩
  · cases h

/-- A token that is given is the next token. -/
theorem Answers.next_ok {l l' : Lexer σ n} {t : Token} (h : l.Answers (.ok t) l') :
    l.next = .ok t l' := by
  cases h with
  | token hnext => exact hnext
  | item hitem =>
    rcases next_of_item hitem with ⟨t', ht, hnext⟩ | ⟨e, he, -⟩
    · cases ht
      exact hnext
    · cases he

/-- An error that is given comes instead of the next token. -/
theorem Answers.next_error {l l' : Lexer σ n} {e : LexError} (h : l.Answers (.error e) l') :
    l.next = .error e l' := by
  cases h with
  | error hnext => exact hnext
  | item hitem =>
    rcases next_of_item hitem with ⟨t, ht, -⟩ | ⟨e', he, hnext⟩
    · cases ht
    · cases he
      exact hnext

/-! ### What calls keep -/

variable {P : Lexer σ n → Prop} {l : Lexer σ n}

/-- **A call that asks for an item asks for the next token**, if it asks for anything, and hands
back the token that marks the end. -/
theorem keeps_leave (hnext : ∀ l, P l → P (Input.leaves l.next))
    (hrelease : ∀ l t, P l → P (l.release t)) (c : Call) (h : P l) : P (l.leave c) := by
  cases c with
  | next => exact hnext l h
  | iterate =>
    have hleaves := hnext l h
    rw [leave, next?]
    split
    · split
      · next e l' hl =>
        rw [hl] at hleaves
        exact hleaves
      · next t l' hl =>
        rw [hl] at hleaves
        split
        · exact hrelease l' t hleaves
        · exact hleaves
    · exact h
  | release t => exact hrelease l t h

/-- **What the next token and a token handed back keep, all calls keep.** -/
theorem keeps_after (hnext : ∀ l, P l → P (Input.leaves l.next))
    (hrelease : ∀ l t, P l → P (l.release t)) (calls : List Call) (h : P l) :
    P (l.after calls) := by
  induction calls generalizing l with
  | nil => exact h
  | cons c calls ih => exact ih (keeps_leave hnext hrelease c h)

/-- What every call with more to come keeps, a run keeps. -/
theorem Runs.keeps (hstep : ∀ l c, P l → l.outcome c = .more → P (l.leave c)) {calls : List Call}
    (hruns : l.Runs calls) (h : P l) : P (l.after calls) := by
  induction calls generalizing l with
  | nil => exact h
  | cons c calls ih => exact ih hruns.2 (hstep l c h hruns.1)

end XPathScan.Lexer
