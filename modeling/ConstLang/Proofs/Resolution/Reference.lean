import ConstLang.Proofs.Evaluation.Denotation
import ConstLang.Proofs.Resolution.Settling

/-!
# References

What an access to a name comes to in the definition that is being resolved. The name stands for a
built-in type, or for the variable of an earlier definition that was resolved; it is that of the
definition itself or of a later one; or it is not known, as is that of a definition that failed.
Which of these it is depends on the definitions that were kept and on their order, and on nothing
else that happened before (`Program.resolved?_behind`).
-/

namespace ConstLang

/-! ## What a name stands for -/

/-- A symbol is that of a name behind definitions: a built-in type of the name, or the variable of
one of the definitions that has the name and was resolved. -/
def Program.Knows (p : Program) (before : List Definition) (name : String) : Symbol → Prop
  | .builtin type => type.name = name
  | .declared v => ∃ d ∈ before, d.name.text = name ∧
      ∃ s, p.Visits s d ∧ (s.define d).result = some v

/-- What is reported of an access. -/
def Scope.accessReports (s : Scope) (name : Name) (expected : Ty) : List Diagnostic :=
  (s.eval expected (.access name)).issues.flatMap Issue.diagnostics

/-- An access is classified by the symbols that its name stands for and by the definitions that are
still to be settled. -/
structure Scope.Classifies (s : Scope) (known : Symbol → Prop) (unsettled : List Definition)
    (name : Name) (expected : Ty) : Prop where
  found : ∀ a, (s.eval expected (.access name)).result = some a ↔
    ∃ symbol, known symbol ∧ symbol.type = expected ∧ a = .leaf name.span symbol.valuation
  mismatch : (∃ r ∈ s.accessReports name expected, r.code = some .typeMismatch) ↔
    ∃ symbol, known symbol ∧ symbol.type ≠ expected
  notYetResolved : (∃ r ∈ s.accessReports name expected, r.code = some .notYetResolved) ↔
    ∃ later ∈ unsettled, later.name.text = name.text
  undefined : (∃ r ∈ s.accessReports name expected, r.code = some .undefinedName) ↔
    (¬ ∃ symbol, known symbol) ∧ ¬ ∃ later ∈ unsettled, later.name.text = name.text
  /-- Nothing is reported of an access that succeeds, and one error of one that fails; behind the
  error there is a note exactly if the name is not yet resolved. -/
  reports :
    (s.eval expected (.access name)).result.isSome = true ∧ s.accessReports name expected = [] ∨
    (s.eval expected (.access name)).result = none ∧
      ((∃ symbol, known symbol ∧ s.accessReports name expected =
          [⟨.error, some .typeMismatch, .resolving, some name.span,
            s!"`{name.text}` has type `{symbol.type.name}`, expected `{expected.name}`"⟩]) ∨
        (∃ later ∈ unsettled, later.name.text = name.text ∧ s.accessReports name expected =
          [⟨.error, some .notYetResolved, .resolving, some name.span,
              s!"`{name.text}` is not yet resolved"⟩,
            ⟨.info, none, .resolving, some later.name.span, "defined later here"⟩]) ∨
        s.accessReports name expected =
          [⟨.error, some .undefinedName, .resolving, some name.span,
            s!"undefined symbol `{name.text}`"⟩])

theorem Symbols.get?_eq_builtin_iff {s : Symbols} {name : String} {type : Scalar} :
    s.get? name = some (.builtin type) ↔ type.name = name := by
  have named : Scalar.ofName? name = some type ↔ type.name = name :=
    ⟨Scalar.name_of_ofName?, fun same => same ▸ Scalar.ofName?_name type⟩
  rw [← named, get?]
  cases Scalar.ofName? name <;> simp

namespace Scope

variable {s : Scope} {known : Symbol → Prop} {unsettled : List Definition} {name : Name}
  {expected : Ty}

theorem accessReports_of_fail {i : Issue} (h : s.eval expected (.access name) = .fail i) :
    s.accessReports name expected = i.diagnostics := by
  rw [accessReports, h]
  exact List.append_nil _

/-- The verdict on an access, from the two places where its name is looked up. -/
theorem Ready.classifies (h : s.Ready unsettled)
    (resolved : ∀ symbol, s.resolved? name.text = some symbol ↔ known symbol) :
    s.Classifies known unsettled name expected := by
  cases found : s.resolved? name.text with
  | some symbol =>
    have unique : ∀ other, known other ↔ other = symbol := fun other => by
      rw [← resolved, found, Option.some.injEq, eq_comm]
    have settled : ¬ ∃ later ∈ unsettled, later.name.text = name.text := by
      rintro ⟨later, mem, same⟩
      rw [← same, h.free later mem] at found
      contradiction
    by_cases typed : symbol.type = expected
    · have outcome : s.eval expected (.access name) = .ok (.leaf name.span symbol.valuation) := by
        rw [eval, evalName, found]
        exact if_pos typed
      have said : s.accessReports name expected = [] := by
        rw [accessReports, outcome]
        rfl
      constructor <;> simp [outcome, said, unique, settled, typed, @eq_comm _ (Annotated.leaf _ _)]
    · have outcome : s.eval expected (.access name) =
          .fail (.mismatch name symbol.type expected) := by
        rw [eval, evalName, found]
        exact if_neg typed
      have said : s.accessReports name expected =
          [⟨.error, some .typeMismatch, .resolving, some name.span,
            s!"`{name.text}` has type `{symbol.type.name}`, expected `{expected.name}`"⟩] :=
        accessReports_of_fail outcome
      constructor <;> simp [outcome, said, unique, settled, typed]
  | none =>
    have unknown : ∀ symbol, ¬ known symbol := fun symbol => by simp [← resolved, found]
    cases pending : s.pending? name.text with
    | some later =>
      have mem : later ∈ unsettled := h.pending ▸ List.mem_of_find?_eq_some pending
      have same : later.name.text = name.text := by simpa using List.find?_some pending
      have outcome : s.eval expected (.access name) = .fail (.notYetResolved name later.name) := by
        rw [eval, evalName, found, pending]
      have said : s.accessReports name expected =
          [⟨.error, some .notYetResolved, .resolving, some name.span,
              s!"`{name.text}` is not yet resolved"⟩,
            ⟨.info, none, .resolving, some later.name.span, "defined later here"⟩] :=
        accessReports_of_fail outcome
      have early : ∃ later ∈ unsettled, later.name.text = name.text := ⟨later, mem, same⟩
      constructor
      case reports => exact .inr ⟨by rw [outcome]; rfl, .inr (.inl ⟨later, mem, same, said⟩)⟩
      all_goals simp [outcome, said, unknown, early]
    | none =>
      have settled : ¬ ∃ later ∈ unsettled, later.name.text = name.text := by
        rw [pending?, h.pending, List.find?_eq_none] at pending
        simpa using pending
      have outcome : s.eval expected (.access name) = .fail (.undefinedName name) := by
        rw [eval, evalName, found, pending]
      have said : s.accessReports name expected =
          [⟨.error, some .undefinedName, .resolving, some name.span,
            s!"undefined symbol `{name.text}`"⟩] :=
        accessReports_of_fail outcome
      constructor <;> simp [outcome, said, unknown, settled]

end Scope

/-! ## Whole programs -/

namespace Program

variable {p : Program} {before after : List Definition} {d : Definition}

/-- The variables in the scope behind definitions: one is never forgotten, and there is none but for
a definition that was resolved. -/
theorem resolved?_behind_declared (h : firsts p.definitions = before ++ after) {name : String}
    {v : Variable} :
    (p.behind before).scope.resolved? name = some (.declared v) ↔
      p.Knows before name (.declared v) := by
  induction before using List.reverseRecOn generalizing after with
  | nil =>
    refine iff_of_false (fun found => ?_) (by simp [Knows])
    exact absurd (Symbols.mem_of_get? found) List.not_mem_nil
  | append_singleton front d ih =>
    have split : firsts p.definitions = front ++ d :: after := by simpa using h
    have unsettled := (settles_behind split).2
    have earlier := ih split
    rw [behind_append, Pass.resolved?_next]
    by_cases same : d.name.text = name
    · -- Up to here the name stands for nothing, since its definition is still to be settled.
      have free : (p.behind front).scope.resolved? name = none :=
        same ▸ unsettled.free d List.mem_cons_self
      simp only [free, reduceCtorEq, false_iff, Knows, not_exists, not_and] at earlier
      simp only [free, Option.none_or, if_pos same, Option.map_eq_some_iff, Symbol.declared.injEq,
        exists_eq_right, Knows]
      constructor
      · intro resolved
        exact ⟨d, by simp, same, _, (visits_iff_eq split).2 rfl, resolved⟩
      · rintro ⟨e, mem, named, s, visits, resolved⟩
        rcases List.mem_append.1 mem with mem | mem
        · exact absurd resolved (earlier e mem named s visits)
        · obtain rfl := List.mem_singleton.1 mem
          rwa [(visits_iff_eq split).1 visits] at resolved
    · rw [if_neg same, Option.or_none, earlier]
      simp [Knows, same]

theorem resolved?_behind (h : firsts p.definitions = before ++ after) {name : String}
    {symbol : Symbol} :
    (p.behind before).scope.resolved? name = some symbol ↔ p.Knows before name symbol := by
  cases symbol with
  | builtin type => exact Symbols.get?_eq_builtin_iff
  | declared v => exact resolved?_behind_declared h

/-- A definition that failed is not known. -/
theorem not_knows_of_failed (h : firsts p.definitions = before ++ after) {s : Scope}
    (mem : d ∈ before) (visits : p.Visits s d) (failed : (s.define d).result = none) :
    ¬ ∃ symbol, p.Knows before d.name.text symbol := by
  have distinct := h ▸ distinct_firsts p.definitions
  rintro ⟨symbol, known⟩
  cases symbol with
  | builtin type =>
    have free := distinct.free d (List.mem_append_left _ mem)
    rw [← known, Scope.isBuiltin, Scalar.ofName?_name] at free
    contradiction
  | declared v =>
    obtain ⟨e, earlier, same, t, visited, resolved⟩ := known
    obtain rfl := List.inj_on_of_nodup_map distinct.nodup (List.mem_append_left _ earlier)
      (List.mem_append_left _ mem) same
    obtain ⟨front, back, split, rfl⟩ := visits_iff.1 visits
    rw [(visits_iff_eq split).1 visited, failed] at resolved
    contradiction

/-- Each definition that was collected is resolved in one scope. There, an access is classified by
what its name stands for: by the built-in types, by the variables of the earlier definitions that
were resolved, and by the definition itself and the later ones. A definition that failed leaves its
name undefined. -/
theorem references_classified {collected : Pass} (hc : Scope.builtins.collect p.definitions =
    .ok collected) (split : collected.scope.pendingInOrder = before ++ d :: after) :
    ∃ s, (∀ t, p.Visits t d ↔ t = s) ∧
      (∀ name expected,
        s.Classifies (p.Knows before name.text) (d :: after) name expected) ∧
      ∀ e ∈ before, (∃ t, p.Visits t e ∧ (t.define e).result = none) →
        ∀ name expected, name.text = e.name.text →
          ∃ r ∈ s.accessReports name expected, r.code = some .undefinedName := by
  obtain rfl := Except.ok.inj ((Scope.collect_eq _).symm.trans hc)
  rw [pendingInOrder_firsts] at split
  have classified : ∀ name expected, (p.behind before).scope.Classifies
      (p.Knows before name.text) (d :: after) name expected := fun name expected =>
    (settles_behind split).2.classifies fun symbol => resolved?_behind split
  refine ⟨_, fun t => visits_iff_eq split, classified, fun e mem ⟨t, visits, failed⟩ name expected
    same => ?_⟩
  rw [(classified name expected).undefined, same]
  refine ⟨not_knows_of_failed split mem visits failed, fun ⟨later, unsettled, named⟩ => ?_⟩
  have distinct := split ▸ (distinct_firsts p.definitions).nodup
  rw [List.map_append, List.nodup_append] at distinct
  exact distinct.2.2 _ (List.mem_map_of_mem mem) _ (List.mem_map_of_mem unsettled) named.symm

end Program

/-! `a : i4 = missing ; b : i4 = 5 ; a : i4 = 5 ; c : i4 = a ; e : i4 = 5 ;` -/

namespace Referring

open Redefined

def last : Definition := definition "e" (.literal five origin)

def program : Program := ⟨[failed, other, again, user, last], origin⟩

def collected : Pass :=
  ⟨.deferred [failed, other, user, last], false, [.redeclared again.name failed.name]⟩

/-- The scope in which `b` is resolved. -/
def middle : Scope := ⟨⟨[]⟩, [other, user, last], ["a", "b", "c", "e"]⟩

def variableB : Variable :=
  ⟨other.name, .i4, .leaf origin ⟨.metatype, some (.type (.scalar .i4))⟩, other.value,
    .leaf origin ⟨.scalar .i4, some (.number ⟨5, 0⟩)⟩, ⟨.scalar .i4, some (.number ⟨5, 0⟩)⟩⟩

def access (name : String) : Name := ⟨name, origin⟩

end Referring

open Redefined Referring in
/-- While `c` is resolved, `a` has failed, `b` has its value, and `c` and `e` are still to come. -/
theorem Program.references_classified_failed :
    ∃ s, program.Visits s user ∧
      (s.eval (.scalar .i4) (.access (access "b"))).result =
        some (.leaf origin ⟨.scalar .i4, some (.number ⟨5, 0⟩)⟩) ∧
      (∃ r ∈ s.accessReports (access "b") (.scalar .u4), r.code = some .typeMismatch) ∧
      (∃ r ∈ s.accessReports (access "c") (.scalar .i4), r.code = some .notYetResolved) ∧
      (∃ r ∈ s.accessReports (access "e") (.scalar .i4), r.code = some .notYetResolved) ∧
      ∃ r ∈ s.accessReports (access "a") (.scalar .i4), r.code = some .undefinedName := by
  have collects : Scope.builtins.collect program.definitions = .ok collected := by decide +kernel
  have order : collected.scope.pendingInOrder = [failed, other] ++ user :: [last] := by
    decide +kernel
  have first : program.Visits collected.scope failed :=
    ⟨collected, [], [other, user, last], Pass.start collected.scope, collects, order, rfl, rfl⟩
  have second : program.Visits middle other :=
    ⟨collected, [failed], [user, last], ⟨middle, false, [.undefinedName (access "missing")]⟩,
      collects, order, by decide +kernel, rfl⟩
  have fails : (collected.scope.define failed).result = none := by decide +kernel
  have resolves : (middle.define other).result = some variableB := by decide +kernel
  have known : program.Knows [failed, other] "b" (.declared variableB) :=
    ⟨other, by simp, rfl, middle, second, resolves⟩
  obtain ⟨s, visits, classified, undefined⟩ := references_classified collects order
  exact ⟨s, (visits s).2 rfl, ((classified _ _).found _).2 ⟨_, known, rfl, rfl⟩,
    (classified _ _).mismatch.2 ⟨_, known, by decide⟩,
    (classified _ _).notYetResolved.2 ⟨user, by simp, rfl⟩,
    (classified _ _).notYetResolved.2 ⟨last, by simp, rfl⟩,
    undefined failed (by simp) ⟨_, first, fails⟩ _ _ rfl⟩

end ConstLang
