/-
# Runs of effects

Two things are said of an effect without saying what it does to the store.  `FailsAs` bounds the
ways in which it can fail.  `Agrees` compares it with a computation that has no store at all: from
every store it succeeds or fails as that one does, with a result that is related to its result.
Both are proved along the effect, one lemma for each way of putting effects together.
-/
import Lisp.Effect
import Mathlib.Data.List.Forall2

namespace Lisp

namespace Effect

variable {α β γ δ : Type}

/-! ## 1. One effect after another, and what is left without the store -/

theorem bind_of_ok {effect : Effect α} {s s' : Store} {a : α} (h : effect s = .ok a s')
    (next : α → Effect β) : (effect >>= next) s = next a s' := by
  change EStateM.bind effect next s = next a s'
  simp only [EStateM.bind, h]

theorem bind_of_error {effect : Effect α} {s s' : Store} {stop : Stop}
    (h : effect s = .error stop s') (next : α → Effect β) :
    (effect >>= next) s = .error stop s' := by
  change EStateM.bind effect next s = .error stop s'
  simp only [EStateM.bind, h]

theorem run'_of_ok {effect : Effect α} {s s' : Store} {a : α} (h : effect s = .ok a s') :
    effect.run' s = some a := by
  delta EStateM.run' EStateM.run
  rw [h]

theorem run'_of_error {effect : Effect α} {s s' : Store} {stop : Stop}
    (h : effect s = .error stop s') : effect.run' s = none := by
  delta EStateM.run' EStateM.run
  rw [h]

/-! ## 2. How an effect can fail -/

section FailsAs

variable {P : Fault → Prop}

/-- **Every failure of the effect is of this kind**, and was noted inside of no form. -/
def FailsAs (P : Fault → Prop) (effect : Effect α) : Prop :=
  ∀ s stop s', effect s = .error stop s' → ∃ fault, stop = .failed ⟨fault, []⟩ ∧ P fault

theorem failsAs_pure (a : α) : FailsAs P (pure a : Effect α) := by
  rintro s stop s' ⟨⟩

theorem failsAs_modifyGet (f : Store → α × Store) : FailsAs P (modifyGet f : Effect α) := by
  rintro s stop s' ⟨⟩

theorem failsAs_get : FailsAs P (get : Effect Store) := by
  rintro s stop s' ⟨⟩

theorem failsAs_record (e : Event) : FailsAs P (record e) := by
  rintro s stop s' ⟨⟩

theorem failsAs_fail {fault : Fault} (h : P fault) : FailsAs P (fail fault : Effect α) := by
  rintro s stop s' ⟨⟩
  exact ⟨fault, rfl, h⟩

/-- What follows need fail in these ways only for the results that the effect can have. -/
theorem FailsAs.bind_of_ok {effect : Effect α} {next : α → Effect β} (h : FailsAs P effect)
    (hnext : ∀ s a s', effect s = .ok a s' → FailsAs P (next a)) : FailsAs P (effect >>= next) := by
  intro s stop s' herror
  cases heffect : effect s with
  | ok a s₁ =>
    rw [Effect.bind_of_ok heffect] at herror
    exact hnext s a s₁ heffect s₁ stop s' herror
  | error e s₁ =>
    rw [bind_of_error heffect] at herror
    cases herror
    exact h s stop s' heffect

theorem FailsAs.bind {effect : Effect α} {next : α → Effect β} (h : FailsAs P effect)
    (hnext : ∀ a, FailsAs P (next a)) : FailsAs P (effect >>= next) :=
  h.bind_of_ok fun _ a _ _ => hnext a

end FailsAs

/-! ## 3. An effect and a computation without a store -/

section Agrees

variable {R : α → γ → Prop} {Q : β → δ → Prop}

/-- **From every store the effect ends as `direct` does**, with a result that is related to its
result, or with its fault. -/
def Agrees (R : α → γ → Prop) (effect : Effect α) (direct : Except Fault γ) : Prop :=
  match direct with
  | .ok c => ∀ s, ∃ a s', effect s = .ok a s' ∧ R a c
  | .error fault => ∀ s, ∃ s', effect s = .error (.failed ⟨fault, []⟩) s'

theorem agrees_pure {a : α} {c : γ} (h : R a c) : Agrees R (pure a) (.ok c) :=
  fun s => ⟨a, s, rfl, h⟩

theorem agrees_fail (fault : Fault) : Agrees R (fail fault) (.error fault) :=
  fun s => ⟨s, rfl⟩

theorem agrees_modifyGet {f : Store → α × Store} {c : γ} (h : ∀ s, R (f s).1 c) :
    Agrees R (modifyGet f) (.ok c) :=
  fun s => ⟨(f s).1, (f s).2, rfl, h s⟩

theorem Agrees.bind_ok {effect : Effect α} {c : γ} {next : α → Effect β} {direct : Except Fault δ}
    (h : Agrees R effect (.ok c)) (hnext : ∀ a, R a c → Agrees Q (next a) direct) :
    Agrees Q (effect >>= next) direct := by
  unfold Agrees
  split
  · intro s
    obtain ⟨a, s₁, heffect, hac⟩ := h s
    rw [bind_of_ok heffect]
    exact hnext a hac s₁
  · intro s
    obtain ⟨a, s₁, heffect, hac⟩ := h s
    rw [bind_of_ok heffect]
    exact hnext a hac s₁

theorem Agrees.bind_error {effect : Effect α} {fault : Fault} (h : Agrees R effect (.error fault))
    (next : α → Effect β) : Agrees Q (effect >>= next) (.error fault) := by
  intro s
  obtain ⟨s', heffect⟩ := h s
  exact ⟨s', bind_of_error heffect next⟩

theorem Agrees.bind {effect : Effect α} {direct : Except Fault γ} {next : α → Effect β}
    {directNext : γ → Except Fault δ} (h : Agrees R effect direct)
    (hnext : ∀ a c, R a c → Agrees Q (next a) (directNext c)) :
    Agrees Q (effect >>= next) (direct >>= directNext) := by
  cases direct with
  | error fault => exact h.bind_error next
  | ok c => exact h.bind_ok fun a hac => hnext a c hac

/-- An effect that always succeeds, and whose result does not matter, has no counterpart. -/
theorem Agrees.after {effect : Effect α} {next : α → Effect β} {direct : Except Fault δ}
    (h : ∀ s, ∃ a s', effect s = .ok a s') (hnext : ∀ a, Agrees Q (next a) direct) :
    Agrees Q (effect >>= next) direct := by
  have hany : Agrees (fun _ _ => True) effect (.ok ()) := fun s =>
    have ⟨a, s', heffect⟩ := h s
    ⟨a, s', heffect, trivial⟩
  exact hany.bind_ok fun a _ => hnext a

theorem agrees_mapM {f : α → Effect β} {g : γ → Except Fault δ}
    (h : ∀ a c, R a c → Agrees Q (f a) (g c)) {as : List α} {cs : List γ}
    (has : List.Forall₂ R as cs) : Agrees (List.Forall₂ Q) (as.mapM f) (cs.mapM g) := by
  induction has with
  | nil =>
    rw [List.mapM_nil, List.mapM_nil]
    exact agrees_pure .nil
  | @cons a c as cs hac _ ih =>
    rw [List.mapM_cons, List.mapM_cons]
    exact (h a c hac).bind fun b d hbd => ih.bind fun bs ds hbs => agrees_pure (.cons hbd hbs)

end Agrees

end Effect

end Lisp
