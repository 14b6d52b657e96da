/-
# Parameters and their arguments

A specification is one of parameters if it lists names (`Value.ListsNames`); then there is exactly
one way to read it (`Parameters.NamedBy`), and every other specification is refused.

Arguments are bound one name after the other, so a name that is written twice has the value of its
last place (`Store.bindAll`).  What a call comes to is said in one equation for each outcome: too
few arguments, too many, as many as there are names, or names and a list of all others.  The names
that were served before a call fails stay bound, but no others, and only the one frame has changed.
-/
import Lisp.Proofs.Application
import Lisp.Proofs.Assignment

namespace Lisp

variable {spec body args : Value} {p : Parameters} {s : Store} {frame : Nat}

/-! ## 1. Specifications -/

/-- **The value lists names**: it is a symbol, a proper list of symbols, or a chain of symbols that
ends in one. -/
def Value.ListsNames (spec : Value) : Prop :=
  (∀ head ∈ spec.elements, head.isSymbol = true) ∧
    (spec.ending.isNil = true ∨ spec.ending.isSymbol = true)

instance : DecidablePred Value.ListsNames := fun spec =>
  inferInstanceAs (Decidable ((∀ head ∈ spec.elements, head.isSymbol = true) ∧ _))

theorem Value.listsNames_pair (i : Nat) (head tail : Value) :
    (pair i head tail).ListsNames ↔ head.isSymbol = true ∧ tail.ListsNames := by
  simp [ListsNames, elements, ending, and_assoc]

theorem Value.not_listsNames (hnil : spec.ending.isNil = false)
    (hsymbol : spec.ending.isSymbol = false) : ¬ spec.ListsNames := by
  simp [ListsNames, hnil, hsymbol]

/-- **The parameters are those that the specification names**, in their order. -/
structure Parameters.NamedBy (p : Parameters) (spec : Value) : Prop where
  fixed : spec.elements.map Value.symbol? = p.fixed.map some
  rest : spec.ending.symbol? = p.rest

namespace Parameters

theorem ofSpec_pair (i : Nat) (head tail : Value) :
    ofSpec (.pair i head tail) =
      match head.symbol? with
      | some name => (ofSpec tail).map fun others => ⟨name :: others.fixed, others.rest⟩
      | none => .error (.parameterNoSymbol head) := by
  cases head with
  | atom j value =>
    cases value with
    | symbol name =>
      change (ofSpec tail >>= fun others => .ok _) = (ofSpec tail).map _
      cases ofSpec tail <;> rfl
    | _ => rfl
  | _ => rfl

/-- **A specification is read if it lists names**, and refused as an invalid form otherwise. -/
theorem ofSpec_cases (spec : Value) :
    spec.ListsNames ∧ (∃ p, ofSpec spec = .ok p ∧ p.NamedBy spec) ∨
      ¬ spec.ListsNames ∧ ∃ fault, ofSpec spec = .error fault ∧ fault.kind = .invalidForm := by
  induction spec with
  | nil => exact .inl ⟨by decide, _, rfl, rfl, rfl⟩
  | pair i head tail _ ih =>
    rw [Value.listsNames_pair, ofSpec_pair]
    cases hhead : head.symbol? with
    | none => exact .inr ⟨by simp [Value.isSymbol, hhead], _, rfl, rfl⟩
    | some name =>
      have hsymbol : head.isSymbol = true := by simp [Value.isSymbol, hhead]
      rcases ih with ⟨hnames, others, hothers, hnamed⟩ | ⟨hnames, fault, hfault, hkind⟩
      · refine .inl ⟨⟨hsymbol, hnames⟩, ⟨name :: others.fixed, others.rest⟩, ?_, ?_, hnamed.rest⟩
        · rw [hothers]
          rfl
        · simp [Value.elements, hhead, hnamed.fixed]
      · refine .inr ⟨fun h => hnames h.2, fault, ?_, hkind⟩
        rw [hfault]
        rfl
  | atom j value =>
    cases value with
    | symbol name => exact .inl ⟨⟨by simp [Value.elements], .inr rfl⟩, _, rfl, rfl, rfl⟩
    | _ => exact .inr ⟨Value.not_listsNames rfl rfl, _, rfl, rfl⟩
  | _ => exact .inr ⟨Value.not_listsNames rfl rfl, _, rfl, rfl⟩

end Parameters

theorem newProcedure_of_ok {scope : Scope} (h : checkProcedure spec body = .ok p) :
    Effect.newProcedure spec body scope s =
      .ok (.procedure s.spans.size spec body scope)
        (s.allocate (.procedure · spec body scope) none).2 := by
  rw [Effect.newProcedure, h]
  rfl

theorem newProcedure_of_error {scope : Scope} {fault : Fault}
    (h : checkProcedure spec body = .error fault) :
    Effect.newProcedure spec body scope s = .error (.failed ⟨fault, []⟩) s := by
  rw [Effect.newProcedure, h]
  rfl

/-- **A procedure is made** if its specification lists names and its body is a proper list. -/
theorem newProcedure_cases (spec body : Value) (scope : Scope) (s : Store) :
    (spec.ListsNames ∧ body.isList = true) ∧
        (∃ s₁, Effect.newProcedure spec body scope s =
          .ok (.procedure s.spans.size spec body scope) s₁ ∧ s₁.frames = s.frames) ∨
      ¬ (spec.ListsNames ∧ body.isList = true) ∧
        ∃ fault, Effect.newProcedure spec body scope s = .error (.failed ⟨fault, []⟩) s ∧
          fault.kind = .invalidForm := by
  rcases Parameters.ofSpec_cases spec with
    ⟨hnames, p, hp, _⟩ | ⟨hnames, fault, hfault, hkind⟩
  · have hcheck : checkProcedure spec body =
        if body.isList = true then .ok p else .error (.bodyNoList body) := by
      rw [checkProcedure, hp]
      rfl
    by_cases hbody : body.isList = true
    · rw [if_pos hbody] at hcheck
      exact .inl ⟨⟨hnames, hbody⟩, _, newProcedure_of_ok hcheck, rfl⟩
    · rw [if_neg hbody] at hcheck
      exact .inr ⟨fun h => hbody h.2, _, newProcedure_of_error hcheck, rfl⟩
  · have hcheck : checkProcedure spec body = .error fault := by
      rw [checkProcedure, hfault]
      rfl
    exact .inr ⟨fun h => hnames h.1, fault, newProcedure_of_error hcheck, hkind⟩

/-! ## 2. Names bound in a row -/

/-- **Binds several names in one frame**, one after the other. -/
def Store.bindAll (s : Store) (frame : Nat) (entries : List (String × Value)) : Store :=
  entries.foldl (fun s entry => s.bind frame entry.1 entry.2) s

/-- **Nothing has changed but what the names stand for in the frame.** -/
structure Store.ChangesOnly (s : Store) (frame : Nat) (names : List String) (s₁ : Store) :
    Prop where
  frames : ∀ g ≠ frame, s₁.bindings g = s.bindings g
  names : ∀ name ∉ names, (s₁.bindings frame).find? name = (s.bindings frame).find? name

/-- **Each entry is found in the frame**, unless a later one has the same name. -/
def Store.HoldsLast (s : Store) (frame : Nat) (entries : List (String × Value)) : Prop :=
  ∀ before name v after, entries = before ++ (name, v) :: after → name ∉ after.map Prod.fst →
    (s.bindings frame).find? name = some v

namespace Store

variable {s₁ : Store} {entries before after : List (String × Value)} {name : String} {v : Value}

theorem bindAll_cons (s : Store) (frame : Nat) (entry : String × Value)
    (entries : List (String × Value)) :
    s.bindAll frame (entry :: entries) = (s.bind frame entry.1 entry.2).bindAll frame entries :=
  rfl

theorem bindAll_append (s : Store) (frame : Nat) (before after : List (String × Value)) :
    s.bindAll frame (before ++ after) = (s.bindAll frame before).bindAll frame after :=
  List.foldl_append

theorem size_frames_bindAll (s : Store) (frame : Nat) (entries : List (String × Value)) :
    (s.bindAll frame entries).frames.size = s.frames.size := by
  induction entries generalizing s with
  | nil => rfl
  | cons entry entries ih => simp [bindAll_cons, ih, bind]

theorem bindings_bindAll_of_ne {g : Nat} (hne : g ≠ frame) (s : Store)
    (entries : List (String × Value)) : (s.bindAll frame entries).bindings g = s.bindings g := by
  induction entries generalizing s with
  | nil => rfl
  | cons entry entries ih =>
    have hother : ¬ (frame = g ∧ g < s.frames.size) := fun h => hne h.1.symm
    rw [bindAll_cons, ih, bindings_bind, if_neg hother]

theorem find?_bindAll_of_not_mem (h : name ∉ entries.map Prod.fst) (s : Store) :
    ((s.bindAll frame entries).bindings frame).find? name = (s.bindings frame).find? name := by
  induction entries generalizing s with
  | nil => rfl
  | cons entry entries ih =>
    rw [List.map_cons, List.mem_cons, not_or] at h
    rw [bindAll_cons, ih h.2, bindings_bind]
    split
    · rw [Bindings.find?_insert, if_neg h.1]
    · rfl

/-- The stores below have the frames of one in which names were bound, and maybe more objects. -/
theorem bindings_eq_of_frames (h : s₁.frames = s.frames) (g : Nat) :
    s₁.bindings g = s.bindings g := by
  rw [bindings, h, bindings]

/-- **Binding several names changes only these**, and only in the one frame. -/
theorem changesOnly_bindAll {names : List String}
    (hframes : s₁.frames = (s.bindAll frame entries).frames)
    (hnames : ∀ entry ∈ entries, entry.1 ∈ names) : s.ChangesOnly frame names s₁ := by
  refine ⟨fun g hg => ?_, fun name hname => ?_⟩
  · rw [bindings_eq_of_frames hframes, bindings_bindAll_of_ne hg]
  · rw [bindings_eq_of_frames hframes, find?_bindAll_of_not_mem]
    intro hmem
    obtain ⟨entry, hentry, rfl⟩ := List.mem_map.mp hmem
    exact hname (hnames entry hentry)

/-- **The last entry of a name counts.** -/
theorem holdsLast_bindAll (hframe : frame < s.frames.size)
    (hframes : s₁.frames = (s.bindAll frame entries).frames) : s₁.HoldsLast frame entries := by
  intro before name v after hentries hlast
  have hmade : frame < (s.bindAll frame before).frames.size := by
    rwa [size_frames_bindAll]
  rw [bindings_eq_of_frames hframes, hentries, bindAll_append, bindAll_cons,
    find?_bindAll_of_not_mem hlast, (rebinds_bind hmade name v).find?, if_pos ⟨rfl, rfl⟩]

end Store

/-! ## 3. What a call comes to -/

/-- **The number of arguments is one that is taken.** -/
def Arity.Accepts (a : Arity) (count : Nat) : Prop :=
  if a.more then a.least ≤ count else count = a.least

instance (a : Arity) (count : Nat) : Decidable (a.Accepts count) :=
  inferInstanceAs (Decidable (if a.more then a.least ≤ count else count = a.least))

namespace Parameters

/-- **All names**, the one for the other arguments last. -/
def names (p : Parameters) : List String :=
  p.fixed ++ p.rest.toList

/-- **What each name stands for**, in the order in which they are bound: a name of the list for its
argument, and the last one for `others`. -/
def entries (p : Parameters) (values : List Value) (others : Value) : List (String × Value) :=
  p.fixed.zip values ++ p.rest.toList.map (·, others)

theorem mem_names_of_mem_fixed {values : List Value} {entry : String × Value}
    (h : entry ∈ p.fixed.zip values) : entry.1 ∈ p.names :=
  List.mem_append_left _ (List.of_mem_zip h).1

theorem mem_names_of_mem_entries {values : List Value} {others : Value} {entry : String × Value}
    (h : entry ∈ p.entries values others) : entry.1 ∈ p.names := by
  rcases List.mem_append.mp h with h | h
  · exact mem_names_of_mem_fixed h
  · obtain ⟨name, hname, rfl⟩ := List.mem_map.mp h
    exact List.mem_append_right _ hname

theorem bindFixed_of_le {names : List String} {values : List Value}
    (h : names.length ≤ values.length) (frame given : Nat) (s : Store) :
    bindFixed frame names values given s =
      .ok (.ok (values.drop names.length)) (s.bindAll frame (names.zip values)) := by
  induction names generalizing values given s with
  | nil => rfl
  | cons name names ih =>
    cases values with
    | nil => simp at h
    | cons value values => exact ih (Nat.le_of_succ_le_succ h) (given + 1) (s.bind frame name value)

theorem bindFixed_of_lt {names : List String} {values : List Value}
    (h : values.length < names.length) (frame given : Nat) (s : Store) :
    bindFixed frame names values given s =
      .ok (.error (given + values.length)) (s.bindAll frame (names.zip values)) := by
  induction names generalizing values given s with
  | nil => simp at h
  | cons name names ih =>
    cases values with
    | nil => rfl
    | cons value values =>
      have hrest := ih (Nat.lt_of_succ_lt_succ h) (given + 1) (s.bind frame name value)
      rw [Nat.add_assoc, Nat.add_comm 1] at hrest
      exact hrest

/-- **The number of arguments that a failed call reports**: the elements of the chain, but none if
there are too many and the chain is no proper list. -/
def reported (p : Parameters) (args : Value) : Nat :=
  if args.isList ∨ args.elements.length ≤ p.fixed.length then args.elements.length else 0

/-- **A number of arguments that is taken**: each name is bound, the last one to a new list. -/
theorem bindArguments_of_accepts (h : p.arity.Accepts args.elements.length) (spec : Value)
    (frame : Nat) (s : Store) :
    ∃ (others : Value) (s₁ : Store), others.isList = true ∧
      others.elements = args.elements.drop p.fixed.length ∧
      p.bindArguments spec frame args s = .ok () s₁ ∧
      s₁.frames = (s.bindAll frame (p.entries args.elements others)).frames := by
  have hle : p.fixed.length ≤ args.elements.length := by
    unfold Arity.Accepts at h
    split at h
    · exact h
    · exact Nat.le_of_eq h.symm
  have hfixed := bindFixed_of_le hle frame 0 s
  rw [bindArguments, Effect.bind_of_ok hfixed]
  cases hrest : p.rest with
  | some name =>
    -- the list of the others is new, but no frame has changed for it
    let t := s.bindAll frame (p.fixed.zip args.elements)
    let remaining := args.elements.drop p.fixed.length
    have hlist := t.elements_newList remaining
    refine ⟨(t.newList remaining).1, _, hlist.2, hlist.1, rfl, ?_⟩
    have hframes : (t.newList remaining).2.frames = t.frames := (t.extends_newList remaining).frames
    rw [entries, hrest, Store.bindAll_append]
    exact congrArg (Array.modify · frame _) hframes
  | none =>
    have hlength : args.elements.length = p.fixed.length := by
      simpa [Arity.Accepts, arity, hrest] using h
    have hdrop : args.elements.drop p.fixed.length = [] := by simp [hlength]
    refine ⟨.nil, s.bindAll frame (p.fixed.zip args.elements), rfl, hdrop.symm, ?_, ?_⟩
    · rw [hdrop]
      rfl
    · simp [entries, hrest]

/-- **A number of arguments that is not taken.**  The names that were served stay bound. -/
theorem bindArguments_of_not_accepts (h : ¬ p.arity.Accepts args.elements.length) (spec : Value)
    (frame : Nat) (s : Store) :
    p.bindArguments spec frame args s =
      .error (.failed ⟨.wrongCount spec p.arity (p.reported args), []⟩)
        (s.bindAll frame (p.fixed.zip args.elements)) := by
  rcases Nat.lt_or_ge args.elements.length p.fixed.length with hlt | hge
  · have hfixed := bindFixed_of_lt hlt frame 0 s
    rw [Nat.zero_add] at hfixed
    rw [bindArguments, Effect.bind_of_ok hfixed, reported, if_pos (.inr (Nat.le_of_lt hlt))]
    rfl
  · have hrest : p.rest = none := by
      cases hrest : p.rest with
      | none => rfl
      | some name => exact absurd hge (by simpa [Arity.Accepts, arity, hrest] using h)
    have hne : args.elements.length ≠ p.fixed.length := by
      simpa [Arity.Accepts, arity, hrest] using h
    have hgt : p.fixed.length < args.elements.length := Nat.lt_of_le_of_ne hge hne.symm
    have hcount : args.length?.getD 0 = p.reported args := by
      cases hlist : args.isList with
      | true =>
        rw [Value.length?_of_isList hlist, reported, if_pos (.inl hlist)]
        rfl
      | false =>
        have hnone : args.length? = none := if_neg (Bool.eq_false_iff.mp hlist)
        rw [hnone, reported, if_neg (by simp [hlist, hgt])]
        rfl
    obtain ⟨value, remaining, hdrop⟩ : ∃ value remaining,
        args.elements.drop p.fixed.length = value :: remaining :=
      List.exists_cons_of_ne_nil (by simpa [List.drop_eq_nil_iff] using hgt)
    rw [bindArguments, Effect.bind_of_ok (bindFixed_of_le hge frame 0 s), hdrop, hrest,
      hcount]
    rfl

end Parameters

/-! ## 4. Procedures and their arguments -/

/-- **How a procedure is made and how it takes its arguments.**  It is made exactly if the
specification lists names and the body is a proper list, and is refused as an invalid form
otherwise.  A call is a failure of arity unless the number of arguments is one that the parameters
accept.  If it is, then each name is bound to its argument and the last one to a list of all others,
by the last place of a name that is written twice.  In any case nothing changes but what the names
of the parameters stand for in the one frame. -/
theorem procedure_takes_arguments (spec body : Value) (scope : Scope) (s : Store) :
    ((spec.ListsNames ∧ body.isList = true) ∧
        (∃ s₁, Effect.newProcedure spec body scope s =
          .ok (.procedure s.spans.size spec body scope) s₁ ∧ s₁.frames = s.frames) ∨
      ¬ (spec.ListsNames ∧ body.isList = true) ∧
        ∃ fault, Effect.newProcedure spec body scope s = .error (.failed ⟨fault, []⟩) s ∧
          fault.kind = .invalidForm) ∧
    (spec.ListsNames → ∃ p, Parameters.ofSpec spec = .ok p ∧ p.NamedBy spec ∧
      ∀ (frame : Nat) (args : Value) (t : Store), frame < t.frames.size →
        ∃ t₁, t.ChangesOnly frame p.names t₁ ∧
          (p.arity.Accepts args.elements.length ∧
              p.bindArguments spec frame args t = .ok () t₁ ∧
              (∃ others : Value, others.isList = true ∧
                others.elements = args.elements.drop p.fixed.length ∧
                t₁.HoldsLast frame (p.entries args.elements others)) ∨
            ¬ p.arity.Accepts args.elements.length ∧
              ∃ fault, p.bindArguments spec frame args t = .error (.failed ⟨fault, []⟩) t₁ ∧
                fault.kind = .arityError)) := by
  refine ⟨newProcedure_cases spec body scope s, fun hspec => ?_⟩
  obtain ⟨_, p, hp, hnamed⟩ := (Parameters.ofSpec_cases spec).resolve_right fun h => h.1 hspec
  refine ⟨p, hp, hnamed, fun frame args t hframe => ?_⟩
  by_cases haccepts : p.arity.Accepts args.elements.length
  · obtain ⟨others, t₁, hlist, helements, hrun, hframes⟩ :=
      Parameters.bindArguments_of_accepts haccepts spec frame t
    exact ⟨t₁, Store.changesOnly_bindAll hframes fun _ => Parameters.mem_names_of_mem_entries,
      .inl ⟨haccepts, hrun, others, hlist, helements, Store.holdsLast_bindAll hframe hframes⟩⟩
  · have hrun := Parameters.bindArguments_of_not_accepts haccepts spec frame t
    exact ⟨_, Store.changesOnly_bindAll rfl fun _ => Parameters.mem_names_of_mem_fixed,
      .inr ⟨haccepts, _, hrun, rfl⟩⟩

/-- With the parameters `(a b a . r)` the list `(() 1 2 3)` binds `a` to 2, by its second place, and
`r` to a list of the 3 alone. -/
theorem procedure_takes_arguments_twice :
    let symbol (name : String) : Value := .atom 0 (.symbol name)
    let integer (n : Int64) : Value := .atom 1 (.integer n)
    let spec : Value :=
      .pair 2 (symbol "a") (.pair 3 (symbol "b") (.pair 4 (symbol "a") (symbol "r")))
    let args : Value := .pair 5 .nil (.pair 6 (integer 1) (.pair 7 (integer 2)
      (.pair 8 (integer 3) .nil)))
    let t : Store := ⟨#[], #[[], []], "", []⟩
    spec.ListsNames ∧ 1 < t.frames.size ∧
      ∃ p t₁ others, Parameters.ofSpec spec = .ok p ∧ p.bindArguments spec 1 args t = .ok () t₁ ∧
        (t₁.bindings 1).find? "a" = some (integer 2) ∧
        (t₁.bindings 1).find? "r" = some others ∧ others.elements = [integer 3] ∧
        t₁.bindings 0 = [] := by
  intro symbol integer spec args t
  have hspec : spec.ListsNames := by decide
  have hframe : 1 < t.frames.size := by decide
  obtain ⟨p, hp, _, htakes⟩ := (procedure_takes_arguments spec .nil (.ofRoot 0) t).2 hspec
  obtain ⟨t₁, honly, htaken⟩ := htakes 1 args t hframe
  have hparameters : p = ⟨["a", "b", "a"], some "r"⟩ := by
    cases hp
    rfl
  subst hparameters
  rcases htaken with ⟨_, hrun, others, _, helements, hholds⟩ | ⟨hrefused, _⟩
  · exact ⟨hspec, hframe, _, t₁, others, hp, hrun,
      hholds [("a", .nil), ("b", integer 1)] "a" (integer 2) [("r", others)] rfl (by simp),
      hholds [("a", .nil), ("b", integer 1), ("a", integer 2)] "r" others [] rfl (by decide),
      helements, honly.frames 0 (by decide)⟩
  · exact absurd (by decide) hrefused

end Lisp
