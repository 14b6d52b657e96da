/-
# Definitions that fail

A definition binds its name last.  What can go wrong goes wrong before: the form of the arguments,
the name, the rules of a macro, and the evaluation of the value expression, which is the only step
that runs code of the program.  So a definition that fails leaves the store as that evaluation left
it when it failed, or, where it did not come to it, as it was (`failed_definition_binds_nothing`).

Which of the two it is can be told from the arguments.  `Value.IsDefinition` and
`Value.IsAssignment` say which arguments have a value expression and what it is.  The short form of
a definition makes that expression itself, one for each level of its target; the objects of it are
new ones (`Store.OnlyMade`).
-/
import Lisp.Proofs.Definitions
import Lisp.Proofs.Destructuring
import Lisp.Proofs.ExpansionFaults

namespace Lisp

open Effect (bind_of_ok bind_of_error)
open Perform (definition)

variable {l : Language} {b : Below} {scope : Scope} {s s₁ s₂ : Store} {stop : Stop}
  {name : String} {args target rest expr : Value}

/-! ## 1. The value expression -/

namespace Value

/-- **The name that a target comes down to**: the head of the head, and so on. -/
def targetName? : Value → Option String
  | .pair _ target _ => target.targetName?
  | v => v.symbol?

/-- **A target and what follows it define the name by the expression.**  A pair as the target makes
a `lambda` expression of its tail and of the forms that follow, which is what the head of the pair
is defined by. -/
inductive Defines : Value → Value → String → Value → Prop where
  | name {i rest name expr} (hlist : rest.isList = true) (helements : rest.elements = [expr]) :
    Defines (.atom i (.symbol name)) rest name expr
  | procedure {i j k m n target parameters rest body name expr} (hlist : body.isList = true)
    (hforms : body.elements = rest.elements)
    (h : Defines target
      (.pair j (.pair k (.atom m (.symbol "lambda")) (.pair n parameters body)) .nil) name expr) :
    Defines (.pair i target parameters) rest name expr

/-- **Arguments `(target . rest)` of `define`** that define the name by the expression. -/
def IsDefinition (args : Value) (name : String) (expr : Value) : Prop :=
  ∃ i target rest, args = .pair i target rest ∧ Defines target rest name expr

/-- **Arguments `(name expr)` of `set!`.** -/
def IsAssignment (args : Value) (name : String) (expr : Value) : Prop :=
  ∃ target, args.isList = true ∧ args.elements = [target, expr] ∧ target.symbol? = some name

theorem Defines.targetName?_eq (h : Defines target rest name expr) :
    target.targetName? = some name := by
  induction h with
  | name => rfl
  | procedure _ _ _ ih => exact ih

end Value

open Value (Defines IsDefinition IsAssignment)

/-- **A definition comes to its value expression**, unless its target comes down to no name or is a
name that not exactly one expression follows.  The recursion is on the target. -/
theorem definition_cases (target rest : Value) (s : Store) :
    (∃ name rest₁ expr s₂, definition target rest s = .ok (name, rest₁) s₂ ∧
      Arguments.single "expr" rest₁ = .ok expr ∧ Defines target rest name expr) ∨
    (target.targetName? = none ∧ ∃ stop s₂, definition target rest s = .error stop s₂) ∨
    ∃ i name fault, target = .atom i (.symbol name) ∧
      Arguments.single "expr" rest = .error fault := by
  induction target generalizing rest s with
  | pair i target parameters ih _ =>
    obtain ⟨j, k, m, n, body, s₁, hpair, hforms, hbody, -⟩ :=
      definition_pair i target parameters rest s
    rw [hpair]
    rcases ih _ s₁ with ⟨name, rest₁, expr, s₂, hrun, hsingle, hdefines⟩ | ⟨hnone, herror⟩ |
      ⟨_, _, fault, -, hsingle⟩
    · exact .inl ⟨name, rest₁, expr, s₂, hrun, hsingle, .procedure hbody hforms hdefines⟩
    · exact .inr (.inl ⟨hnone, herror⟩)
    · -- the expression that was made is the only one that follows
      cases hsingle
  | atom i value =>
    cases value with
    | symbol name =>
      cases hsingle : Arguments.single "expr" rest with
      | ok expr =>
        obtain ⟨hlist, helements⟩ := Arguments.single_eq_ok_iff.mp hsingle
        exact .inl ⟨name, rest, expr, s, rfl, hsingle, .name hlist helements⟩
      | error fault => exact .inr (.inr ⟨i, name, fault, rfl, rfl⟩)
    | _ => exact .inr (.inl ⟨rfl, _, s, rfl⟩)
  | _ => exact .inr (.inl ⟨rfl, _, s, rfl⟩)

/-! ## 2. What it leaves behind -/

/-- **Objects were made, and nothing else happened**: all frames, the output and the journal are as
they were, and so is what is known of the objects there were. -/
def Store.OnlyMade (s s₁ : Store) : Prop :=
  ∃ made, s₁ = { s with spans := s.spans ++ made }

namespace Store

theorem OnlyMade.refl (s : Store) : s.OnlyMade s :=
  ⟨#[], by simp⟩

theorem OnlyMade.trans (h : s.OnlyMade s₁) (h' : s₁.OnlyMade s₂) : s.OnlyMade s₂ := by
  obtain ⟨made, rfl⟩ := h
  obtain ⟨made', rfl⟩ := h'
  exact ⟨made ++ made', by simp⟩

theorem onlyMade_allocate (s : Store) (make : Nat → Value) (span : Option Span) :
    s.OnlyMade (s.allocate make span).2 :=
  ⟨#[span], by simp [allocate]⟩

theorem onlyMade_newList (s : Store) (items : List Value) : s.OnlyMade (s.newList items).2 := by
  rw [newList]
  induction items with
  | nil => exact .refl s
  | cons item items ih => exact ih.trans (onlyMade_allocate _ _ _)

end Store

/-- **Taking a definition apart** makes the objects of its value expression. -/
theorem onlyMade_definition (target rest : Value) (s : Store) :
    (∀ result s₁, definition target rest s = .ok result s₁ → s.OnlyMade s₁) ∧
      ∀ stop s₁, definition target rest s = .error stop s₁ → s.OnlyMade s₁ := by
  induction target generalizing rest s with
  | pair i target parameters ih _ =>
    -- the store in which the head of the pair is gone on with
    let lambda := s.newAtom (.symbol "lambda")
    let procedure := lambda.2.newList (lambda.1 :: parameters :: rest.elements)
    let whole := procedure.2.newList [procedure.1]
    have hmade : s.OnlyMade whole.2 :=
      (s.onlyMade_allocate _ _).trans
        ((lambda.2.onlyMade_newList _).trans (procedure.2.onlyMade_newList _))
    obtain ⟨hok, herror⟩ := ih whole.1 whole.2
    exact ⟨fun result s₁ h => hmade.trans (hok result s₁ h),
      fun stop s₁ h => hmade.trans (herror stop s₁ h)⟩
  | atom i value =>
    refine ⟨fun result s₁ h => ?_, fun stop s₁ h => ?_⟩
    all_goals
      cases value <;> cases h
      all_goals exact .refl s
  | _ =>
    refine ⟨fun result s₁ h => ?_, fun stop s₁ h => ?_⟩
    all_goals
      cases h
      try exact .refl s

/-- **An effect that fails** did so in its first part or in what follows. -/
theorem Effect.bind_eq_error {α β : Type} (effect : Effect α) {next : α → Effect β}
    (h : (effect >>= next) s = .error stop s₁) :
    effect s = .error stop s₁ ∨ ∃ a s₂, effect s = .ok a s₂ ∧ next a s₂ = .error stop s₁ := by
  cases hrun : effect s with
  | ok a s₂ =>
    rw [bind_of_ok hrun] at h
    exact .inr ⟨a, s₂, rfl, h⟩
  | error stop' s₂ =>
    rw [bind_of_error hrun] at h
    cases h
    exact .inl rfl

/-- **A macro that is refused** leaves nothing but reports. -/
theorem quiet_of_newTransformer_error {body : Value}
    (h : Effect.newTransformer body scope s = .error stop s₁) : s.Quiet s₁ := by
  unfold Effect.newTransformer at h
  generalize Transformer.compileBody body = compiled at h
  obtain ⟨seen, outcome⟩ := compiled
  obtain ⟨_, t, hrecorded, hquiet⟩ := quiet_forIn_record
    (fun rule : Value × Value => .ruleMade rule.1 rule.2) seen s
  dsimp only at h
  rw [bind_of_ok hrecorded] at h
  cases outcome with
  | ok t => cases h
  | error fault =>
    cases h
    exact hquiet

/-! ## 3. The three forms -/

/-- **`define-syntax`** is refused for its arguments, or makes a macro and binds its name. -/
theorem defineSyntax_cases (args : Value) (scope : Scope) :
    (∃ fault, Perform.defineSyntax args scope = Effect.fail fault) ∨
    ∃ keyword body, Perform.defineSyntax args scope =
      (Effect.newTransformer body scope >>= fun value => do
        Effect.record (.definedTransformer keyword)
        Effect.bind scope.frame keyword value
        pure value) := by
  unfold Perform.defineSyntax
  cases Arguments.double "name" "rules" args with
  | error fault => exact .inl ⟨fault, rfl⟩
  | ok parts =>
    obtain ⟨name, rules⟩ := parts
    simp only [Effect.ofExcept, pure_bind]
    cases name.symbol? with
    | none => exact .inl ⟨_, rfl⟩
    | some keyword =>
      cases rules with
      | pair i head body =>
        cases hhead : head.isSymbolNamed "syntax-rules" with
        | true => exact .inr ⟨keyword, body, by simp only [hhead, if_true]⟩
        | false => exact .inl ⟨_, by simp only [hhead]; rfl⟩
      | _ => exact .inl ⟨_, rfl⟩

/-- **A `define-syntax` that fails** leaves nothing but reports. -/
theorem quiet_of_defineSyntax_error (h : Perform.defineSyntax args scope s = .error stop s₁) :
    s.Quiet s₁ := by
  rcases defineSyntax_cases args scope with ⟨fault, hperform⟩ | ⟨keyword, body, hperform⟩
  · rw [hperform] at h
    cases h
    exact ⟨rfl, rfl, rfl⟩
  · rw [hperform] at h
    rcases Effect.bind_eq_error (Effect.newTransformer body scope) h with h | ⟨v, s₂, -, ⟨⟩⟩
    exact quiet_of_newTransformer_error h

/-- **A `define` that fails** has no value expression, or the evaluation of it failed. -/
theorem define_error (h : Perform.define b args scope s = .error stop s₁) :
    (¬ ∃ name expr, IsDefinition args name expr) ∧ s.OnlyMade s₁ ∨
      ∃ name expr s₂, IsDefinition args name expr ∧ s.OnlyMade s₂ ∧
        b.evaluate expr scope s₂ = .error stop s₁ := by
  cases args with
  | pair i target rest =>
    rw [define_eq] at h
    obtain ⟨hmade, hmade'⟩ := onlyMade_definition target rest s
    rcases definition_cases target rest s with ⟨name, rest₁, expr, s₂, hrun, hsingle, hdefines⟩ |
      ⟨hnone, stop', s₂, hrun⟩ | ⟨j, name, fault, rfl, hsingle⟩
    · rw [bind_of_ok hrun] at h
      simp only [finishDefinition, hsingle] at h
      rcases Effect.bind_eq_error (b.evaluate expr scope) h with h | ⟨v, s₃, -, ⟨⟩⟩
      exact .inr ⟨name, expr, s₂, ⟨i, target, rest, rfl, hdefines⟩, hmade _ _ hrun, h⟩
    · rw [bind_of_error hrun] at h
      cases h
      refine .inl ⟨?_, hmade' _ _ hrun⟩
      rintro ⟨name, expr, _, _, _, ⟨⟩, hdefines⟩
      cases hnone.symm.trans hdefines.targetName?_eq
    · have hfinish : finishDefinition b scope name rest s = .error stop s₁ := h
      simp only [finishDefinition, hsingle] at hfinish
      cases hfinish
      refine .inl ⟨?_, .refl s⟩
      rintro ⟨name, expr, _, _, _, ⟨⟩, hdefines⟩
      cases hdefines with
      | name hlist helements =>
        cases hsingle.symm.trans (Arguments.single_eq_ok_iff.mpr ⟨hlist, helements⟩)
  | _ =>
    cases h
    refine .inl ⟨?_, .refl s⟩
    rintro ⟨name, expr, _, _, _, ⟨⟩, _⟩

/-- **`set!`** is refused for its arguments, or evaluates its expression and assigns. -/
theorem assign_cases (b : Below) (args : Value) (scope : Scope) :
    ((¬ ∃ name expr, IsAssignment args name expr) ∧
      ∃ fault, Perform.assign b args scope = Effect.fail fault) ∨
    ∃ name expr, IsAssignment args name expr ∧ Perform.assign b args scope =
      (b.evaluate expr scope >>= fun value => do
        modify (·.assign scope name value)
        pure value) := by
  unfold Perform.assign
  cases hdouble : Arguments.double "target" "expr" args with
  | error fault =>
    refine .inl ⟨?_, fault, rfl⟩
    rintro ⟨name, expr, target, hlist, helements, -⟩
    cases hdouble.symm.trans (Arguments.double_eq_ok_iff.mpr ⟨hlist, helements⟩)
  | ok parts =>
    obtain ⟨target, expr⟩ := parts
    obtain ⟨hlist, helements⟩ := Arguments.double_eq_ok_iff.mp hdouble
    simp only [Effect.ofExcept, pure_bind]
    cases hname : target.symbol? with
    | none =>
      refine .inl ⟨?_, _, rfl⟩
      rintro ⟨name, expr', target', -, helements', hname'⟩
      obtain ⟨rfl, -⟩ : target = target' ∧ _ := by
        simpa using helements.symm.trans helements'
      cases hname.symm.trans hname'
    | some name => exact .inr ⟨name, expr, ⟨target, hlist, helements, hname⟩, rfl⟩

/-- **A `set!` that fails** has no value expression, or the evaluation of it failed. -/
theorem assign_error (h : Perform.assign b args scope s = .error stop s₁) :
    (¬ ∃ name expr, IsAssignment args name expr) ∧ s₁ = s ∨
      ∃ name expr, IsAssignment args name expr ∧ b.evaluate expr scope s = .error stop s₁ := by
  rcases assign_cases b args scope with ⟨hnone, fault, hperform⟩ | ⟨name, expr, hargs, hperform⟩
  · rw [hperform] at h
    cases h
    exact .inl ⟨hnone, rfl⟩
  · rw [hperform] at h
    rcases Effect.bind_eq_error (b.evaluate expr scope) h with h | ⟨v, s₂, -, ⟨⟩⟩
    exact .inr ⟨name, expr, hargs, h⟩

/-- **A definition that fails binds nothing.**  Whatever the arguments, the scope and the store: a
`define-syntax` that fails leaves all frames as they are.  A `define` that fails, be it in the short
form and with any target, has no value expression and leaves the store as it is, but for objects
that it made; or it leaves it as the failed evaluation of its value expression did, which began in
the store as it is, but for these objects.  So does a `set!`, which makes none. -/
theorem failed_definition_binds_nothing (l : Language) (b : Below) (args : Value) (scope : Scope)
    (s s₁ : Store) (stop : Stop) :
    (SpecialForm.defineSyntax.perform l b args scope s = .error stop s₁ → s.Quiet s₁) ∧
      (SpecialForm.define.perform l b args scope s = .error stop s₁ →
        (¬ ∃ name expr, IsDefinition args name expr) ∧ s.OnlyMade s₁ ∨
          ∃ name expr s₂, IsDefinition args name expr ∧ s.OnlyMade s₂ ∧
            b.evaluate expr scope s₂ = .error stop s₁) ∧
      (SpecialForm.assign.perform l b args scope s = .error stop s₁ →
        (¬ ∃ name expr, IsAssignment args name expr) ∧ s₁ = s ∨
          ∃ name expr, IsAssignment args name expr ∧
            b.evaluate expr scope s = .error stop s₁) :=
  ⟨quiet_of_defineSyntax_error, define_error, assign_error⟩

/-- With the arguments `(x y)`, where `y` is not bound, all three fail: `define` and `set!` over
`y`, and `define-syntax` since `y` is no `syntax-rules` form. -/
theorem failed_definition_binds_nothing_unbound :
    let y : Value := .atom 1 (.symbol "y")
    let args : Value := .pair 2 (.atom 0 (.symbol "x")) (.pair 3 y .nil)
    let b := belowAt .standard 1
    let unbound : Stop := .failed ⟨.unbound "y", [y]⟩
    let after := emptyFrame.record (.evaluating y)
    (SpecialForm.defineSyntax.perform .standard b args (.ofRoot 0) emptyFrame =
        .error (.failed ⟨.noTransformer y, []⟩) emptyFrame ∧ emptyFrame.Quiet emptyFrame) ∧
      (SpecialForm.define.perform .standard b args (.ofRoot 0) emptyFrame = .error unbound after ∧
        ((¬ ∃ name expr, IsDefinition args name expr) ∧ emptyFrame.OnlyMade after ∨
          ∃ name expr s₂, IsDefinition args name expr ∧ emptyFrame.OnlyMade s₂ ∧
            b.evaluate expr (.ofRoot 0) s₂ = .error unbound after)) ∧
      SpecialForm.assign.perform .standard b args (.ofRoot 0) emptyFrame = .error unbound after ∧
        ((¬ ∃ name expr, IsAssignment args name expr) ∧ after = emptyFrame ∨
          ∃ name expr, IsAssignment args name expr ∧
            b.evaluate expr (.ofRoot 0) emptyFrame = .error unbound after) := by
  intro y args b unbound after
  have hkeyword : SpecialForm.defineSyntax.perform .standard b args (.ofRoot 0) emptyFrame =
      .error (.failed ⟨.noTransformer y, []⟩) emptyFrame := rfl
  have hdefine : SpecialForm.define.perform .standard b args (.ofRoot 0) emptyFrame =
      .error unbound after := rfl
  have hassign : SpecialForm.assign.perform .standard b args (.ofRoot 0) emptyFrame =
      .error unbound after := rfl
  exact ⟨⟨hkeyword, (failed_definition_binds_nothing ..).1 hkeyword⟩,
    ⟨hdefine, (failed_definition_binds_nothing ..).2.1 hdefine⟩,
    hassign, (failed_definition_binds_nothing ..).2.2 hassign⟩

end Lisp
