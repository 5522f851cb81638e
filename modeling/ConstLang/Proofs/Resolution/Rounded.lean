import ConstLang.Proofs.Resolution.Refinement
import ConstLang.Proofs.Resolution.Reporting
import ConstLang.Proofs.Scalar.Binding

/-!
# Which values are reported as rounded

Only a value that is stored can be rounded, and once it is stored nothing can go wrong any more. So
there is one rounding to report for each variable whose value has more digits than its type keeps,
and none for any other definition.
-/

namespace ConstLang

open Rational

/-- The rounding of the value of a variable, if it has more digits than its type keeps. -/
def Variable.rounding? (v : Variable) : Option Issue := do
  let x ← v.value.number?
  let stored ← v.valuation.number?
  let limits ← v.type.limits?
  if limits.digits < x.digits then some (.rounded x stored v.value.span v.type) else none

/-- There is a rounding exactly if another number is stored. -/
theorem Variable.rounding?_of_bind {v : Variable} {x stored : Decimal}
    (known : v.value.number? = some x) (held : v.valuation.number? = some stored)
    (bound : v.type.bind x = .ok stored) :
    v.rounding? = if stored = x then none else some (.rounded x stored v.value.span v.type) := by
  have changed := Scalar.ne_iff_of_bind bound
  have steps : v.rounding? = v.type.limits?.bind fun limits =>
      if limits.digits < x.digits then some (.rounded x stored v.value.span v.type) else none := by
    rw [rounding?, known, held]
    rfl
  rw [steps]
  split
  next same =>
    rw [Option.bind_eq_none_iff]
    intro limits kind
    exact if_neg fun many => changed.2 ⟨limits, kind, many⟩ same
  next other =>
    obtain ⟨limits, kind, many⟩ := changed.1 other
    rw [kind, Option.bind_some, if_pos many]

namespace Checked

variable {α β : Type}

/-- No rounding came up. -/
def Plain (x : Checked α) : Prop := ∀ i ∈ x.issues, i.isRounding = false

theorem compositional_plain : Compositional Plain where
  ok _ := by simp [Plain, Checked.ok]
  fail h := by simp [Plain, Checked.fail, h]
  bind {α β x f} hx hf := by
    change (x.bind f).Plain
    unfold Checked.bind
    cases x.result with
    | none => exact hx
    | some a => exact List.forall_mem_append.2 ⟨hx, hf a⟩
  both hx hy := List.forall_mem_append.2 ⟨hx, hy⟩

def roundings (x : Checked α) : List Issue := x.issues.filter Issue.isRounding

/-- What comes after a step without a rounding is all that may report one. -/
theorem Plain.roundings_bind {x : Checked α} (h : x.Plain) (f : α → Checked β) :
    (x >>= f).roundings = x.result.elim [] fun a => (f a).roundings := by
  have silent : x.issues.filter Issue.isRounding = [] := by
    rw [List.filter_eq_nil_iff]
    intro i mem
    simp [h i mem]
  change (x.bind f).roundings = _
  unfold Checked.bind roundings
  cases x.result with
  | none => exact silent
  | some a => rw [List.filter_append, silent, List.nil_append]; rfl

end Checked

namespace Scope

open Checked

/-- Storing is the one step that reports a rounding, and then there is a variable. -/
theorem roundings_store (name : Name) (type : Scalar) (declared : Annotated) (e : Expr)
    (value : Annotated) :
    let step := store type value >>= fun valuation =>
      Checked.ok (⟨name, type, declared, e, value, valuation⟩ : Variable)
    step.roundings = step.result.toList.filterMap Variable.rounding? := by
  intro step
  cases known : value.number? with
  | none =>
    have same : step = .ok ⟨name, type, declared, e, value, value.valuation⟩ := by
      simp only [step, store, known]
      rfl
    have silent : Variable.rounding? ⟨name, type, declared, e, value, value.valuation⟩ = none := by
      rw [Variable.rounding?, known]
      rfl
    rw [same]
    simp [roundings, Checked.ok, silent]
  | some x =>
    cases bound : type.bind x with
    | error misfit =>
      have same : step = .fail (.valueMisfit x value.span type misfit) := by
        simp only [step, store, known, bound]
        rfl
      rw [same]
      rfl
    | ok stored =>
      let v : Variable :=
        ⟨name, type, declared, e, value, ⟨value.valuation.type, some (.number stored)⟩⟩
      have same : step =
          ⟨some v, (if stored = x then [] else [.rounded x stored value.span type]) ++ []⟩ := by
        simp only [step, store, known, bound]
        rfl
      have decided := Variable.rounding?_of_bind (v := v) known rfl bound
      rw [same, List.append_nil]
      simp only [roundings, Option.toList_some, List.filterMap_cons, decided, List.filterMap_nil]
      split <;> rfl

theorem roundings_define (s : Scope) (d : Definition) :
    (s.define d).roundings = (s.define d).result.toList.filterMap Variable.rounding? := by
  have declares := compositional_plain.eval s .metatype d.type
  unfold define
  rw [declares.roundings_bind, Checked.result_bind]
  cases (s.eval .metatype d.type).result with
  | none => rfl
  | some declared =>
    have types := compositional_plain.declaredType d.name declared
    dsimp only [Option.elim_some, Option.bind_some]
    rw [types.roundings_bind, Checked.result_bind]
    cases (declaredType d.name declared).result with
    | none => rfl
    | some type =>
      have evaluates := compositional_plain.eval s (.scalar type) d.value
      dsimp only [Option.elim_some, Option.bind_some]
      rw [evaluates.roundings_bind, Checked.result_bind]
      cases (s.eval (.scalar type) d.value).result with
      | none => rfl
      | some value => exact roundings_store d.name type declared d.value value

/-- A definition is reported as rounded if it is resolved and its value has more digits than its
type keeps. -/
theorem exists_rounding_iff {s : Scope} {d : Definition} :
    (∃ i ∈ (s.define d).issues, i.isRounding = true) ↔
      ∃ v x limits, (s.define d).result = some v ∧ v.value.number? = some x ∧
        v.type.limits? = some limits ∧ limits.digits < x.digits := by
  have reported : (∃ i ∈ (s.define d).issues, i.isRounding = true) ↔
      ∃ i, i ∈ (s.define d).roundings := by simp [roundings]
  rw [reported, roundings_define]
  simp only [List.mem_filterMap, Option.mem_toList]
  constructor
  · rintro ⟨i, v, hv, hi⟩
    unfold Variable.rounding? at hi
    simp only [Option.bind_eq_bind, Option.bind_eq_some_iff] at hi
    obtain ⟨x, known, stored, -, limits, kind, hi⟩ := hi
    refine ⟨v, x, limits, hv, known, kind, ?_⟩
    by_contra few
    rw [if_neg few] at hi
    contradiction
  · rintro ⟨v, x, limits, hv, known, kind, many⟩
    obtain ⟨-, -, -, -, -, -, stores⟩ := define_eq_some.1 hv
    obtain ⟨stored, bound, held⟩ := (store_eq_some known).1 stores
    have changed := (Scalar.ne_iff_of_bind bound).2 ⟨limits, kind, many⟩
    have decided := Variable.rounding?_of_bind known (by rw [held]; rfl) bound
    exact ⟨_, v, hv, decided.trans (if_neg changed)⟩

end Scope

namespace Pass

/-- The roundings that were reported are those of the variables. -/
def Rounded (p : Pass) : Prop :=
  p.issues.filter Issue.isRounding = p.scope.symbols.vars.filterMap Variable.rounding?

theorem Rounded.start {s : Scope} (h : s.symbols = ⟨[]⟩) : (Pass.start s).Rounded := by
  simp [Rounded, Pass.start, h]

theorem Rounded.collect {p q : Pass} {d : Definition} (h : p.Rounded) (hq : p.collect d = .ok q) :
    q.Rounded := by
  rw [Rounded, symbols_of_collect hq, ← h]
  rcases eq_of_collect hq with ⟨i, hi, rfl⟩ | ⟨scope, -, rfl⟩
  · simp [refuse, hi]
  · rfl

theorem Rounded.resolve {p q : Pass} {d : Definition} (h : p.Rounded) (hq : p.resolve d = .ok q) :
    q.Rounded := by
  have step := p.scope.roundings_define d
  unfold Rounded Checked.roundings at *
  rcases eq_of_resolve hq with ⟨v, hv, rfl⟩ | ⟨hv, rfl⟩
  · rw [List.filter_append, step, hv, h, List.filterMap_append]
    rfl
  · rw [List.filter_append, step, hv, h]
    exact List.append_nil _

end Pass

/-- The roundings that a resolution reports are those of its variables, in order. -/
theorem Program.roundings_of_resolve {p : Program} {r : Resolution} (h : p.resolve = .ok r) :
    r.issues.filter Issue.isRounding = r.symbols.vars.filterMap Variable.rounding? := by
  obtain ⟨collected, hc, h⟩ := bind_eq_ok.1 h
  obtain ⟨resolved, hr, h⟩ := bind_eq_ok.1 h
  obtain ⟨symbols, hf, h⟩ := bind_eq_ok.1 h
  obtain rfl := Except.ok.inj h
  have empty := Scope.symbols_of_collect hc
  have first : collected.Rounded := foldlM_invariant (fun hp hq => hp.collect hq) hc (.start rfl)
  have second : resolved.Rounded :=
    foldlM_invariant (fun hp hq => hp.resolve hq) hr (.start empty)
  unfold Pass.Rounded at first second
  rw [List.filter_append, first, second, empty, Scope.eq_of_finish hf]
  rfl

/-- The warnings about roundings are the diagnostics of the issues that are roundings. -/
theorem Issue.filter_diagnostics (is : List Issue) :
    (is.flatMap diagnostics).filter (fun d => d.code = some .roundedConstant) =
      (is.filter isRounding).flatMap diagnostics := by
  have alone : ∀ i : Issue, i.main.1 = .roundedConstant → i.remark? = none := by
    intro i
    cases i <;> simp [main, remark?]
  have rounding : (fun i : Issue => decide (i.main.1 = .roundedConstant)) = isRounding := by
    funext i
    cases i <;> rfl
  rw [filter_code alone, rounding]

namespace Scalar

/-- Binding rounds and then checks. What a type holds it stores as it is, and what it stores it
holds. A float type stores the nearest number with the digits that it keeps, which is another one
exactly if there are more digits; it refuses that number for its size alone. So a program is warned
of a rounding for exactly those of its definitions that are resolved and have a value with more
digits than their float type keeps. No step overflows if a word has room for the leading digit and
one place more. -/
theorem bind_exact :
    (∀ (type : Scalar) (x : Decimal), x.IsNormal →
      (type.bind x = .ok x ↔ type.misfit? x = none) ∧
      (∀ y, type.bind x = .ok y → y.IsNormal ∧ type.misfit? y = none ∧ type.bind y = .ok y) ∧
      (type.limits? = none → ∀ y, type.bind x = .ok y → y = x) ∧
      (∀ limits, type.limits? = some limits →
        (∀ y, type.bind x = .ok y → (y ≠ x ↔ limits.digits < x.digits)) ∧
        ∃ q, (∀ r, Nearest (Rounding.significant limits.digits).grid x.toRat r ↔ r = q) ∧
          (∀ y, type.bind x = .ok y → y.toRat = q) ∧
          (∀ misfit, type.bind x = .error misfit → misfit = .outOfRange) ∧
          ((∃ misfit, type.bind x = .error misfit) ↔
            q ≠ 0 ∧ (|q| < limits.least ∨ limits.greatest < |q|))) ∧
      (Narrow.Spare x → Narrow.bind type x = .ok (type.bind x))) ∧
    (∀ (s : Scope) (d : Definition), (∃ i ∈ (s.define d).issues, i.isRounding = true) ↔
      ∃ v x limits, (s.define d).result = some v ∧ v.value.number? = some x ∧
        v.type.limits? = some limits ∧ limits.digits < x.digits) ∧
    ∀ p : Program, ∃ r, p.resolve = .ok r ∧
      (r.issues.flatMap Issue.diagnostics).filter (fun d => d.code = some .roundedConstant) =
        (r.symbols.vars.filterMap Variable.rounding?).flatMap Issue.diagnostics := by
  refine ⟨fun type x normal => ⟨bind_eq_self_iff, fun y bound => ?_, fun kind y bound => ?_,
    fun limits kind => ⟨fun y bound => ?_, nearest_bind kind x⟩, fun spare => spare.bind_eq type⟩,
    fun s d => Scope.exists_rounding_iff, fun p => ?_⟩
  · have fits : type.misfit? y = none := by
      obtain ⟨rfl, fits⟩ := bind_eq_ok_iff.1 bound
      exact fits
    exact ⟨isNormal_of_bind normal bound, fits, bind_eq_self_iff.2 fits⟩
  · rw [(bind_eq_ok_iff.1 bound).1, rounded_of_limits?_eq_none kind]
  · rw [ne_iff_of_bind bound, kind]
    simp
  · obtain ⟨complete, issues, resolved⟩ := p.exists_resolve_eq
    refine ⟨_, resolved, ?_⟩
    rw [Issue.filter_diagnostics, Program.roundings_of_resolve resolved]

/-- The digits of `9999999.6` that a float keeps carry into a new one. -/
theorem bind_exact_carry :
    (⟨99999996, -1⟩ : Decimal).IsNormal ∧ f4.bind ⟨99999996, -1⟩ = .ok ⟨1, 7⟩ ∧
    f4.misfit? ⟨1, 7⟩ = none ∧ f4.bind ⟨1, 7⟩ = .ok ⟨1, 7⟩ ∧
    7 < (⟨99999996, -1⟩ : Decimal).digits ∧
    Nearest (Rounding.significant 7).grid (⟨99999996, -1⟩ : Decimal).toRat
      (⟨1, 7⟩ : Decimal).toRat ∧
    Narrow.bind f4 ⟨99999996, -1⟩ = .ok (.ok ⟨1, 7⟩) := by
  have normal : (⟨99999996, -1⟩ : Decimal).IsNormal := by decide
  have bound : f4.bind ⟨99999996, -1⟩ = .ok ⟨1, 7⟩ := by decide +kernel
  have spare : Narrow.Spare ⟨99999996, -1⟩ := by constructor <;> decide +kernel
  obtain ⟨binds, -⟩ := bind_exact
  obtain ⟨-, stored, -, float, narrow⟩ := binds f4 ⟨99999996, -1⟩ normal
  obtain ⟨-, fits, same⟩ := stored _ bound
  obtain ⟨changed, q, nearest, value, -, -⟩ := float _ rfl
  exact ⟨normal, bound, fits, same, (changed _ bound).1 (by decide),
    (nearest _).2 (value _ bound), (narrow spare).trans (by rw [bound])⟩

end Scalar

end ConstLang
