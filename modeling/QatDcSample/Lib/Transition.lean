import Mathlib.Logic.Basic

/-!
# Labelled transition relations and their runs

Runs whose every step satisfies a side condition `ok` on the state before the
step and on its label (`ReachVia`), and the induction rules for properties of
every state so reached.
-/

namespace Transition

variable {σ ε : Type}

inductive ReachVia (step : σ → ε → σ → Prop) (ok : σ → ε → Prop) (s₀ : σ) : σ → Prop where
  | refl : ReachVia step ok s₀ s₀
  | tail {s : σ} {e : ε} {s' : σ} :
      ReachVia step ok s₀ s → step s e s' → ok s e → ReachVia step ok s₀ s'

abbrev Reach (step : σ → ε → σ → Prop) : σ → σ → Prop := ReachVia step (fun _ _ => True)

variable {step : σ → ε → σ → Prop} {ok ok' : σ → ε → Prop} {s₀ s s' : σ}

theorem ReachVia.mono (h : ∀ s e, ok s e → ok' s e) (hr : ReachVia step ok s₀ s) :
    ReachVia step ok' s₀ s := by
  induction hr with
  | refl => exact .refl
  | tail _ hs ho ih => exact .tail ih hs (h _ _ ho)

theorem ReachVia.reach (hr : ReachVia step ok s₀ s) : Reach step s₀ s :=
  hr.mono fun _ _ _ => trivial

theorem ReachVia.trans (h : ReachVia step ok s₀ s) (h' : ReachVia step ok s s') :
    ReachVia step ok s₀ s' := by
  induction h' with
  | refl => exact h
  | tail _ hs ho ih => exact .tail ih hs ho

/-- Invariance, with the reachability of the state at hand in the step case. -/
theorem ReachVia.invariant {I : σ → Prop} (h₀ : I s₀)
    (hs : ∀ s e s', ReachVia step ok s₀ s → I s → step s e s' → ok s e → I s')
    (hr : ReachVia step ok s₀ s) : I s := by
  induction hr with
  | refl => exact h₀
  | tail h hst ho ih => exact hs _ _ _ h ih hst ho

/-- A run together with the events it shows, the first first. -/
inductive Trace (step : σ → ε → σ → Prop) : σ → List ε → σ → Prop where
  | nil {s : σ} : Trace step s [] s
  | cons {s : σ} {e : ε} {s' : σ} {es : List ε} {t : σ} :
      step s e s' → Trace step s' es t → Trace step s (e :: es) t

theorem Trace.invariant {I : σ → Prop} {es : List ε} (h₀ : I s)
    (hs : ∀ s e s', I s → step s e s' → I s') (ht : Trace step s es s') : I s' := by
  induction ht with
  | nil => exact h₀
  | cons hst _ ih => exact ih (hs _ _ _ h₀ hst)

/-- Where every step can be matched, so can every run, event by event. -/
theorem Trace.simulate {τ : Type} {step' : τ → ε → τ → Prop} {R : σ → τ → Prop}
    (hsim : ∀ s e s' t, R s t → step s e s' → ∃ t', step' t e t' ∧ R s' t') {es : List ε}
    (ht : Trace step s es s') {t : τ} (hR : R s t) : ∃ t', Trace step' t es t' ∧ R s' t' := by
  induction ht generalizing t with
  | nil => exact ⟨t, .nil, hR⟩
  | cons hst _ ih =>
    obtain ⟨t₁, hst', hR₁⟩ := hsim _ _ _ _ hR hst
    obtain ⟨t₂, ht', hR₂⟩ := ih hR₁
    exact ⟨t₂, .cons hst' ht', hR₂⟩

/-- A run driven by a list of moves through an executable step function. -/
def play {μ : Type} (exec : σ → μ → Option (ε × σ)) (ok : σ → ε → Bool) :
    σ → List μ → Option σ
  | s, [] => some s
  | s, m :: ms =>
      match exec s m with
      | none => none
      | some (e, s') => if ok s e then play exec ok s' ms else none

theorem play_reaches {μ : Type} {exec : σ → μ → Option (ε × σ)} {okb : σ → ε → Bool}
    (hexec : ∀ s m e s', exec s m = some (e, s') → step s e s')
    (hok : ∀ s e, okb s e = true → ok s e) (ms : List μ) :
    ∀ s s', play exec okb s ms = some s' → ReachVia step ok s s' := by
  induction ms with
  | nil =>
    intro s s' h
    cases h
    exact .refl
  | cons m ms ih =>
    intro s s' h
    simp only [play] at h
    split at h
    · contradiction
    · next e t he =>
      split at h
      · next ho =>
        exact (ReachVia.tail .refl (hexec s m e t he) (hok s e ho)).trans (ih t s' h)
      · contradiction

end Transition
