import Mathlib.Logic.Basic

/-!
# Sequential programs over answered calls

A sequential program that acts on its surroundings only through calls: `E` is
the set of calls, `R e` the answers a call `e` can get. A `Protocol` carries the
assertions of a rely/guarantee proof of such a program: a ghost state advanced
by every answered call, what the program may assume of an answer (`rely`) and
what it owes before it makes a call (`guar`). `Meets` is the weakest
precondition of a program for a protocol; its rules follow the structure of the
program, and `meets_answer` says what one answered call leaves to be proved.
`Leads` is its counterpart: some answers lead the program somewhere.
-/

namespace EventProgram

inductive Prog (E : Type) (R : E → Type) (α : Type) where
  | ret (a : α)
  | call (e : E) (k : R e → Prog E R α)

variable {E : Type} {R : E → Type} {α β : Type}

namespace Prog

def bind : Prog E R α → (α → Prog E R β) → Prog E R β
  | .ret a, f => f a
  | .call e k, f => .call e (fun r => bind (k r) f)

instance : Monad (Prog E R) where
  pure := .ret
  bind := bind

def perform (e : E) : Prog E R (R e) := .call e .ret

/-- Every call the program can make, whatever the answers, satisfies `C`. -/
def Only (C : E → Prop) : Prog E R α → Prop
  | .ret _ => True
  | .call e k => C e ∧ ∀ r, Only C (k r)

end Prog

open Prog

@[simp] theorem ret_bind (a : α) (f : α → Prog E R β) : (.ret a : Prog E R α) >>= f = f a := rfl

@[simp] theorem only_perform (C : E → Prop) (e : E) :
    Only C (perform e : Prog E R (R e)) ↔ C e :=
  ⟨fun h => h.1, fun h => ⟨h, fun _ => trivial⟩⟩

theorem only_bind {C : E → Prop} {p : Prog E R α} {f : α → Prog E R β}
    (hp : Only C p) (hf : ∀ a, Only C (f a)) : Only C (p >>= f) := by
  induction p with
  | ret a => exact hf a
  | call e k ih => exact ⟨hp.1, fun r => ih r (hp.2 r)⟩

theorem only_mono {C D : E → Prop} {p : Prog E R α} (h : ∀ e, C e → D e)
    (hp : Only C p) : Only D p := by
  induction p with
  | ret a => trivial
  | call e k ih => exact ⟨h e hp.1, fun r => ih r (hp.2 r)⟩

/-! ### Protocols -/

structure Protocol (E : Type) (R : E → Type) where
  σ : Type
  next : σ → (e : E) → R e → σ
  rely : σ → (e : E) → R e → Prop
  guar : σ → E → Prop

def Meets (P : Protocol E R) : Prog E R α → (α → P.σ → Prop) → P.σ → Prop
  | .ret a, Q, g => Q a g
  | .call e k, Q, g => P.guar g e ∧ ∀ r, P.rely g e r → Meets P (k r) Q (P.next g e r)

variable {P : Protocol E R}

@[simp] theorem meets_bind (p : Prog E R α) (f : α → Prog E R β) (Q : β → P.σ → Prop)
    (g : P.σ) : Meets P (p >>= f) Q g ↔ Meets P p (fun a g' => Meets P (f a) Q g') g := by
  induction p generalizing g with
  | ret a => exact Iff.rfl
  | call e k ih =>
    constructor
    · rintro ⟨hg, hk⟩
      exact ⟨hg, fun r hr => (ih r _).mp (hk r hr)⟩
    · rintro ⟨hg, hk⟩
      exact ⟨hg, fun r hr => (ih r _).mpr (hk r hr)⟩

theorem meets_mono {p : Prog E R α} {Q Q' : α → P.σ → Prop} {g : P.σ}
    (hp : Meets P p Q g) (h : ∀ a g', Q a g' → Q' a g') : Meets P p Q' g := by
  induction p generalizing g with
  | ret a => exact h a g hp
  | call e k ih => exact ⟨hp.1, fun r hr => ih r (hp.2 r hr)⟩

theorem meets_seq {p : Prog E R α} {f : α → Prog E R β} {M : α → P.σ → Prop}
    {Q : β → P.σ → Prop} {g : P.σ} (hp : Meets P p M g)
    (hf : ∀ a g', M a g' → Meets P (f a) Q g') : Meets P (p >>= f) Q g :=
  (meets_bind p f Q g).mpr (meets_mono hp hf)

/-- One call: what it owes, and the rest for every answer that can be relied on. -/
theorem meets_call {e : E} {f : R e → Prog E R α} {Q : α → P.σ → Prop} {g : P.σ}
    (hg : P.guar g e) (hf : ∀ r, P.rely g e r → Meets P (f r) Q (P.next g e r)) :
    Meets P (perform e >>= f) Q g := ⟨hg, hf⟩

/-- A program all of whose calls leave the relation `T` between the ghost state
at the start and the current one, and owe nothing, meets the protocol. -/
theorem meets_of_only {C : E → Prop} {p : Prog E R α} (T : P.σ → Prop)
    (hC : ∀ g e, C e → T g → P.guar g e ∧ ∀ r, P.rely g e r → T (P.next g e r))
    (hp : Only C p) {g : P.σ} (hg : T g) : Meets P p (fun _ g' => T g') g := by
  induction p generalizing g with
  | ret a => exact hg
  | call e k ih =>
    obtain ⟨hu, hn⟩ := hC g e hp.1 hg
    exact ⟨hu, fun r hr => ih r (hp.2 r) (hn r hr)⟩

/-- Calls outside the protocol: they owe nothing and keep the ghost state. -/
def Neutral (P : Protocol E R) (e : E) : Prop :=
  ∀ g, P.guar g e ∧ ∀ r, P.next g e r = g

theorem meets_neutral {p : Prog E R α} (hp : Only (Neutral P) p) (g : P.σ) :
    Meets P p (fun _ g' => g' = g) g := by
  refine meets_of_only (C := Neutral P) (· = g) ?_ hp rfl
  intro g' e he hg
  exact ⟨(he g').1, fun r _ => ((he g').2 r).trans hg⟩

/-- The protocol without ghost state that owes nothing but calls of class `C`. -/
@[reducible] def onlyProtocol (C : E → Prop) : Protocol E R where
  σ := Unit
  next := fun _ _ _ => ()
  rely := fun _ _ _ => True
  guar := fun _ e => C e

theorem meets_onlyProtocol {C : E → Prop} {p : Prog E R α} (h : Only C p) :
    Meets (onlyProtocol C) p (fun _ _ => True) () := by
  induction p with
  | ret a => trivial
  | call e k ih => exact ⟨h.1, fun r _ => ih r (h.2 r)⟩

/-- What an answered call leaves: the debt was paid and the rest still meets. -/
theorem meets_answer {e : E} {k : R e → Prog E R α} {Q : α → P.σ → Prop} {g : P.σ}
    (h : Meets P (.call e k) Q g) (r : R e) (hr : P.rely g e r) :
    Meets P (k r) Q (P.next g e r) := h.2 r hr

/-! ### Runs to a call -/

/-- Some answers that can be relied on lead the program to a call where `T` holds,
or to a result with `Q`. -/
def Leads (P : Protocol E R) (T : P.σ → E → Prop) : Prog E R α → (α → P.σ → Prop) → P.σ → Prop
  | .ret a, Q, g => Q a g
  | .call e k, Q, g => T g e ∨ ∃ r, P.rely g e r ∧ Leads P T (k r) Q (P.next g e r)

variable {T : P.σ → E → Prop}

theorem leads_perform {e : E} {f : R e → Prog E R α} {Q : α → P.σ → Prop} {g : P.σ} (r : R e)
    (hr : P.rely g e r) (h : Leads P T (f r) Q (P.next g e r)) : Leads P T (perform e >>= f) Q g :=
  .inr ⟨r, hr, h⟩

theorem leads_mono {p : Prog E R α} {Q Q' : α → P.σ → Prop} {g : P.σ} (hp : Leads P T p Q g)
    (h : ∀ a g', Q a g' → Q' a g') : Leads P T p Q' g := by
  induction p generalizing g with
  | ret a => exact h a g hp
  | call e k ih =>
    rcases hp with hT | ⟨r, hr, hk⟩
    · exact .inl hT
    · exact .inr ⟨r, hr, ih r hk⟩

theorem leads_seq {p : Prog E R α} {f : α → Prog E R β} {M : α → P.σ → Prop}
    {Q : β → P.σ → Prop} {g : P.σ} (hp : Leads P T p M g)
    (hf : ∀ a g', M a g' → Leads P T (f a) Q g') : Leads P T (p >>= f) Q g := by
  induction p generalizing g with
  | ret a => exact hf a g hp
  | call e k ih =>
    rcases hp with hT | ⟨r, hr, hk⟩
    · exact .inl hT
    · exact .inr ⟨r, hr, ih r hk⟩

end EventProgram
