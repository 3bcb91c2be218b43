import XPathScan.Proofs.Source.Limited

/-!
# Sources that do the same

All that a reader gets to know of a source is what its reads deliver. So two sources do the same
when no sequence of reads tells them apart, whatever the buffers are; how they are made does not
matter. The buffers count with the bytes they have before the read, which a source is free to look
at.

Two sources that do the same can be read side by side, and together they are one source again
(`XPathScan.Paired`). Each of them is a *view* of the pair: a function of the state along which
every read can be followed. What a reader does over a view it does over the whole, so a reader is
taken from one of the two sources to the other by way of the pair, and nothing has to be known
about it but that it goes along with views.

* `XPathScan.Supplier.Same`, `XPathScan.Source.Same` – no reads tell the two apart;
* `XPathScan.Supplier.same_of_step` – one read at a time is enough;
* `XPathScan.Limited.same` – the same with a limit on the reads;
* `XPathScan.Source.View`, `XPathScan.Paired` – following reads along a function of the state.
-/

namespace XPathScan

variable {σ τ : Type} {supplier : Supplier σ} {supplier' : Supplier τ} {state : σ} {state' : τ}

/-! ### What reads deliver -/

/-- **What reads into some buffers deliver**, one after the other. -/
def Supplier.deliveries (supplier : Supplier σ) (state : σ) :
    List ((n : Nat) × Vector UInt8 n) → List ((n : Nat) × Delivery n)
  | [] => []
  | ⟨n, buffer⟩ :: buffers =>
    ⟨n, (supplier.read n buffer state).1⟩ ::
      supplier.deliveries (supplier.read n buffer state).2 buffers

/-- **Suppliers that do the same**, from given states on. -/
def Supplier.Same (supplier : Supplier σ) (supplier' : Supplier τ) (state : σ) (state' : τ) :
    Prop :=
  ∀ buffers, supplier.deliveries state buffers = supplier'.deliveries state' buffers

/-- **Suppliers that do the same deliver the same by one read**, and do the same after it. -/
theorem Supplier.Same.read (h : supplier.Same supplier' state state') {n : Nat}
    (buffer : Vector UInt8 n) :
    (supplier.read n buffer state).1 = (supplier'.read n buffer state').1 ∧
      supplier.Same supplier' (supplier.read n buffer state).2
        (supplier'.read n buffer state').2 := by
  constructor
  · have hone := h [⟨n, buffer⟩]
    simpa [deliveries] using hone
  · intro buffers
    have hmore := h (⟨n, buffer⟩ :: buffers)
    rw [deliveries, deliveries] at hmore
    exact (List.cons.inj hmore).2

/-- **Suppliers do the same if every read keeps them related** and delivers the same. -/
theorem Supplier.same_of_step {R : σ → τ → Prop}
    (hstep : ∀ state state', R state state' → ∀ {n : Nat} (buffer : Vector UInt8 n),
      (supplier.read n buffer state).1 = (supplier'.read n buffer state').1 ∧
        R (supplier.read n buffer state).2 (supplier'.read n buffer state').2)
    (h : R state state') : supplier.Same supplier' state state' := by
  intro buffers
  induction buffers generalizing state state' with
  | nil => rfl
  | cons buffer buffers ih =>
    obtain ⟨hsame, hrest⟩ := hstep state state' h buffer.2
    rw [deliveries, deliveries, hsame, ih hrest]

/-- A source as a supplier: that it comes to an end is left out. -/
def Source.toSupplier (σ : Type) [Source σ] : Supplier σ where
  read _ buffer source := Source.read buffer source

/-- **Sources that do the same.** -/
def Source.Same [Source σ] [Source τ] (source : σ) (source' : τ) : Prop :=
  (Source.toSupplier σ).Same (Source.toSupplier τ) source source'

/-- **A limit on the reads is the same limit on both sides.** -/
theorem Limited.same (h : supplier.Same supplier' state state') (limit : Nat) :
    Source.Same ({ state, left := limit } : Limited supplier)
      ({ state := state', left := limit } : Limited supplier') := by
  refine Supplier.same_of_step
    (R := fun (s : Limited supplier) (s' : Limited supplier') =>
      supplier.Same supplier' s.state s'.state ∧ s.left = s'.left)
    (fun s s' hs {n} buffer => ?_) ⟨h, rfl⟩
  obtain ⟨state, left⟩ := s
  obtain ⟨state', left'⟩ := s'
  obtain ⟨hsame, rfl⟩ := hs
  cases left with
  | zero => exact ⟨rfl, hsame, rfl⟩
  | succ left => exact ⟨(hsame.read buffer).1, (hsame.read buffer).2, rfl⟩

/-! ### Views -/

section View

variable [Source σ] [Source τ]

/-- **A function of the state along which reads can be followed**: a read of the view delivers what
a read of the whole delivers, and leaves the view of what that leaves. -/
structure Source.View (f : σ → τ) : Prop where
  /-- One read. -/
  read_eq : ∀ {n : Nat} (buffer : Vector UInt8 n) (source : σ),
    Source.read buffer (f source) =
      ((Source.read buffer source).1, f (Source.read buffer source).2)

/-- A view does the same as the whole. -/
theorem Source.View.same {f : σ → τ} (hf : Source.View f) (source : σ) :
    Source.Same source (f source) := by
  refine Supplier.same_of_step (R := fun source source' => source' = f source)
    (fun source source' hview {n} buffer => ?_) rfl
  subst hview
  have hread := hf.read_eq buffer source
  exact ⟨(congrArg Prod.fst hread).symm, congrArg Prod.snd hread⟩

/-- **Two sources that do the same, side by side.** -/
structure Paired (σ τ : Type) [Source σ] [Source τ] where
  /-- The one source. -/
  fst : σ
  /-- The other source. -/
  snd : τ
  /-- They do the same. -/
  same : Source.Same fst snd

instance : Source (Paired σ τ) where
  read buffer pair :=
    ((Source.read buffer pair.fst).1,
      { fst := (Source.read buffer pair.fst).2
        snd := (Source.read buffer pair.snd).2
        same := (pair.same.read buffer).2 })
  credit pair := Source.credit pair.fst
  credit_read_lt buffer pair := Source.credit_read_lt buffer pair.fst

theorem Paired.view_fst : Source.View (Paired.fst : Paired σ τ → σ) := ⟨fun _ _ => rfl⟩

theorem Paired.view_snd : Source.View (Paired.snd : Paired σ τ → τ) :=
  ⟨fun buffer pair => Prod.ext (pair.same.read buffer).1.symm rfl⟩

end View

end XPathScan
