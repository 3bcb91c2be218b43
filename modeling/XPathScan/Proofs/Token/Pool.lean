import Mathlib.Data.Int.Order.Basic
import Mathlib.Data.List.Chain
import Mathlib.Order.Bounds.Basic
import XPathScan.Token.Pool

/-!
# The accounts of a pool

Records are taken from a pool and handed back to it in any order, and also tokens that were never
taken can be handed back, so that the balance of takings and returns may be negative. A new record
is made only where none waits, which is where all that were made are out. Thus the number of records
made goes up exactly when the balance passes every earlier one, and is at any time the greatest
balance there has been.

* `XPathScan.Pool.Blank` – every record that waits is blank;
* `XPathScan.Pool.balance` – how many more records some calls take than they hand back;
* `XPathScan.Pool.allocated_leave` – a call makes a record only if more are out than ever were made;
* `XPathScan.Pool.isGreatest_allocated` – the records made are the greatest balance so far;
* `XPathScan.Pool.accounts_after` – the accounts after any calls on a new pool.
-/

namespace XPathScan.Pool

variable {pool : Pool}

/-! ### Blank records -/

/-- **Every record that waits is blank.** -/
def Blank (pool : Pool) : Prop := ∀ record ∈ pool.free, record = Token.blank

theorem blank_empty : Blank {} := nofun

/-- A record that is taken is blank, whether it waited or is new. -/
theorem Blank.acquire (h : pool.Blank) :
    pool.acquire.1 = Token.blank ∧ pool.acquire.2.Blank := by
  rw [Pool.acquire]
  split
  · next record free hfree =>
    rw [Blank, hfree] at h
    exact ⟨h record (List.mem_cons_self ..), fun r hr => h r (List.mem_cons_of_mem _ hr)⟩
  · exact ⟨rfl, h⟩

/-- **Whatever token is handed back, its record is blank.** -/
theorem Blank.release (h : pool.Blank) (token : Token) : (pool.release token).Blank := by
  intro record hrecord
  rcases List.mem_cons.mp hrecord with rfl | hfree
  · rfl
  · exact h record hfree

/-! ### Calls -/

/-- **A call on a pool.** -/
inductive Call where
  /-- Take a record. -/
  | acquire
  /-- Hand a token back, whether its record was taken from this pool or not. -/
  | release (token : Token)
  deriving DecidableEq

/-- Whether a call takes a record. -/
def Call.isAcquire : Call → Bool
  | .acquire => true
  | .release _ => false

/-- The pool that a call leaves behind. -/
def leave (pool : Pool) : Call → Pool
  | .acquire => pool.acquire.2
  | .release token => pool.release token

/-- **The pool after some calls.** -/
def after (pool : Pool) (calls : List Call) : Pool := calls.foldl leave pool

theorem after_concat (pool : Pool) (calls : List Call) (c : Call) :
    pool.after (calls ++ [c]) = (pool.after calls).leave c := List.foldl_concat ..

/-- **The records that some calls take**, one after the other. -/
def given (pool : Pool) : List Call → List Token
  | [] => []
  | .acquire :: calls => pool.acquire.1 :: pool.acquire.2.given calls
  | .release token :: calls => (pool.release token).given calls

/-- How many of some calls take a record. -/
def acquires (calls : List Call) : Nat := calls.countP Call.isAcquire

/-- How many of some calls hand a token back. -/
def releases (calls : List Call) : Nat := calls.countP (!·.isAcquire)

@[simp]
theorem acquires_cons_acquire (calls : List Call) :
    acquires (.acquire :: calls) = acquires calls + 1 := List.countP_cons_of_pos rfl

@[simp]
theorem acquires_cons_release (token : Token) (calls : List Call) :
    acquires (.release token :: calls) = acquires calls := List.countP_cons_of_neg nofun

@[simp]
theorem releases_cons_acquire (calls : List Call) :
    releases (.acquire :: calls) = releases calls := List.countP_cons_of_neg nofun

@[simp]
theorem releases_cons_release (token : Token) (calls : List Call) :
    releases (.release token :: calls) = releases calls + 1 := List.countP_cons_of_pos rfl

/-- **The balance of some calls**: how many more records they take than they hand back. -/
def balance (calls : List Call) : ℤ := acquires calls - releases calls

/-- **Calls that hand back at once**: behind each that takes a record comes one that hands a token
back, if any comes at all. -/
def Prompt (calls : List Call) : Prop :=
  calls.IsChain fun call later => call = .acquire → later ≠ .acquire

/-! ### One call -/

/-- What a call adds to the balance. -/
def Call.weight : Call → ℤ
  | .acquire => 1
  | .release _ => -1

theorem balance_cons (c : Call) (calls : List Call) :
    balance (c :: calls) = c.weight + balance calls := by
  cases c with
  | acquire => simp only [balance, Call.weight, acquires_cons_acquire, releases_cons_acquire]; omega
  | release token =>
    simp only [balance, Call.weight, acquires_cons_release, releases_cons_release]; omega

/-- **How many more records a pool has made than wait in it.** The records of tokens that were never
taken wait as well, so this may be negative. -/
def out (pool : Pool) : ℤ := pool.allocated - pool.available

/-- A call changes what is out as it changes the balance. -/
theorem out_leave (pool : Pool) (c : Call) : (pool.leave c).out = pool.out + c.weight := by
  cases c with
  | acquire =>
    rw [leave, acquire]
    split
    · next token free hfree =>
      simp only [out, available, hfree, List.length_cons, Call.weight]; omega
    · next hfree => simp only [out, available, hfree, Call.weight]; omega
  | release token =>
    simp only [leave, release, out, available, List.length_cons, Call.weight]; omega

/-- **A call makes a record only if more are out than ever were made.** -/
theorem allocated_leave (pool : Pool) (c : Call) :
    ((pool.leave c).allocated : ℤ) = max (pool.leave c).out pool.allocated := by
  cases c with
  | acquire =>
    rw [leave, acquire]
    split
    · simp only [out]; omega
    · next hfree => simp only [out, available, hfree, List.length_nil]; omega
  | release token => simp only [leave, release, out]; omega

/-! ### All calls -/

/-- What is out of a pool changes by the balance of the calls. -/
theorem out_after (pool : Pool) (calls : List Call) :
    (pool.after calls).out = pool.out + balance calls := by
  induction calls generalizing pool with
  | nil => exact (Int.add_zero pool.out).symm
  | cons c calls ih =>
    calc (pool.after (c :: calls)).out = (pool.leave c).out + balance calls := ih (pool.leave c)
      _ = pool.out + balance (c :: calls) := by rw [out_leave, balance_cons, Int.add_assoc]

theorem out_after_empty (calls : List Call) : (({} : Pool).after calls).out = balance calls := by
  rw [out_after, show out {} = 0 from rfl, Int.zero_add]

/-- **The balances so far**, that of no calls included. -/
def balances (calls : List Call) : Set ℤ := {b | ∃ before, before <+: calls ∧ balance before = b}

theorem balances_nil : balances [] = {0} := by
  ext b
  simp [balances, balance, acquires, releases, eq_comm]

theorem balances_concat (calls : List Call) (c : Call) :
    balances (calls ++ [c]) = insert (balance (calls ++ [c])) (balances calls) := by
  ext b
  simp only [balances, List.prefix_concat_iff, Set.mem_insert_iff, Set.mem_ofPred_eq]
  constructor
  · rintro ⟨before, rfl | hbefore, rfl⟩
    · exact .inl rfl
    · exact .inr ⟨before, hbefore, rfl⟩
  · rintro (rfl | ⟨before, hbefore, rfl⟩)
    · exact ⟨_, .inl rfl, rfl⟩
    · exact ⟨before, .inr hbefore, rfl⟩

/-- **The records made are the greatest balance so far.** -/
theorem isGreatest_allocated (calls : List Call) :
    IsGreatest (balances calls) (({} : Pool).after calls).allocated := by
  induction calls using List.reverseRecOn with
  | nil =>
    rw [balances_nil]
    exact isGreatest_singleton
  | append_singleton calls c ih =>
    rw [balances_concat, ← out_after_empty, after_concat, allocated_leave]
    exact ih.insert _

/-- **Records that are taken are blank**, as many as are taken. -/
theorem Blank.given_eq (h : pool.Blank) (calls : List Call) :
    pool.given calls = List.replicate (acquires calls) Token.blank := by
  induction calls generalizing pool with
  | nil => rfl
  | cons c calls ih =>
    cases c with
    | acquire =>
      obtain ⟨hrecord, hleft⟩ := h.acquire
      rw [given, hrecord, ih hleft, acquires_cons_acquire, List.replicate_succ]
    | release token =>
      rw [given, ih (h.release token), acquires_cons_release]

/-- Calls that hand back at once have at most one record out, and none if the first of them does not
take one. -/
theorem Prompt.balance_le {calls : List Call} (h : Prompt calls) :
    balance calls ≤ 1 ∧ (calls.head? ≠ some .acquire → balance calls ≤ 0) := by
  induction calls with
  | nil => simp [balance, acquires, releases]
  | cons c calls ih =>
    rw [Prompt, List.isChain_cons] at h
    obtain ⟨hfirst, hrest⟩ := h
    obtain ⟨hone, hnone⟩ := ih hrest
    rw [balance_cons]
    cases c with
    | acquire =>
      have hhead : calls.head? ≠ some .acquire := fun hhead => hfirst _ hhead rfl rfl
      exact ⟨Int.add_le_add_left (hnone hhead) 1, fun hother => absurd rfl hother⟩
    | release token =>
      have hnone : -1 + balance calls ≤ 0 := by omega
      exact ⟨Int.le_trans hnone Int.one_nonneg, fun _ => hnone⟩

/-- **Calls that hand back at once need one record.** -/
theorem Prompt.allocated_le {calls : List Call} (h : Prompt calls) :
    (({} : Pool).after calls).allocated ≤ 1 := by
  obtain ⟨before, ⟨behind, rfl⟩, hpeak⟩ := (isGreatest_allocated calls).1
  have := (Prompt.balance_le (List.IsChain.left_of_append h)).1
  omega

/-- **The accounts of a new pool**, after any calls: the records made and the tokens handed back are
as many as the records taken and those that wait; the records made are the greatest balance so far;
every record taken was blank; and calls that hand back at once need one record at most. -/
theorem accounts_after (calls : List Call) :
    (({} : Pool).after calls).allocated + releases calls =
      acquires calls + (({} : Pool).after calls).available ∧
    IsGreatest {b | ∃ before, before <+: calls ∧ (acquires before : ℤ) - releases before = b}
      (({} : Pool).after calls).allocated ∧
    ({} : Pool).given calls = List.replicate (acquires calls) Token.blank ∧
    (Prompt calls → (({} : Pool).after calls).allocated ≤ 1) := by
  refine ⟨?_, isGreatest_allocated calls, blank_empty.given_eq calls, Prompt.allocated_le⟩
  have hout := out_after_empty calls
  rw [out, balance] at hout
  omega

/-- A token that no pool has given. -/
def stranger : Token := { kind := .identifier, lexeme := [0x78, 0x79], line := 0 }

/-- Two records are taken, and three such tokens handed back. -/
def strangersBack : List Call :=
  [.acquire, .release stranger, .release stranger, .acquire, .release stranger]

/-- These are handed back at once, and both records are blank. -/
theorem accounts_after_strangersBack :
    Prompt strangersBack ∧ (({} : Pool).after strangersBack).allocated ≤ 1 ∧
    ({} : Pool).given strangersBack = [Token.blank, Token.blank] ∧
    (({} : Pool).after strangersBack).allocated + 3 =
      2 + (({} : Pool).after strangersBack).available := by
  have hprompt : Prompt strangersBack := by simp [Prompt, strangersBack]
  obtain ⟨haccounts, -, hgiven, hone⟩ := accounts_after strangersBack
  exact ⟨hprompt, hone hprompt, hgiven, haccounts⟩

end XPathScan.Pool
