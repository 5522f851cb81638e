import ConstLang.Proofs.Resolution.Run

/-!
# What resolution reports

Every issue is an error but one: that a value is stored rounded. A step has a result exactly if
nothing but roundings came up in it, and so a resolution is complete exactly if nothing else did.
-/

namespace ConstLang

/-- Whether all there is to say is that a value is stored rounded. -/
def Issue.isRounding : Issue → Bool
  | rounded .. => true
  | _ => false

theorem Issue.stage_of_mem_diagnostics {i : Issue} {d : Diagnostic} (h : d ∈ i.diagnostics) :
    d.stage = .resolving := by
  cases i <;> simp [diagnostics, main, remark?] at h <;> grind [Diagnostic.coded, Diagnostic.note]

theorem Issue.diagnostics_of_isRounding {i : Issue} (h : i.isRounding = true) :
    ∀ d ∈ i.diagnostics, d.severity = .warning ∧ d.code = some .roundedConstant := by
  cases i <;>
    first | contradiction | simp [diagnostics, main, remark?, Diagnostic.coded, Code.severity]

theorem Issue.exists_error_of_not_isRounding {i : Issue} (h : i.isRounding = false) :
    ∃ d ∈ i.diagnostics, d.severity = .error := by
  refine ⟨_, List.mem_cons_self, ?_⟩
  cases i <;> first | contradiction | rfl

/-- A diagnostic with a code is what an issue says itself: its remark has none. -/
theorem Issue.filter_code {c : Code} (alone : ∀ i : Issue, i.main.1 = c → i.remark? = none)
    (is : List Issue) :
    (is.flatMap diagnostics).filter (fun d => d.code = some c) =
      (is.filter fun i => i.main.1 = c).flatMap diagnostics := by
  have own (i : Issue) : i.diagnostics.filter (fun d => d.code = some c) =
      if i.main.1 = c then i.diagnostics else [] := by
    rw [diagnostics, List.filter_cons]
    split
    next said =>
      have same : i.main.1 = c := by simpa [Diagnostic.coded] using said
      rw [if_pos same, alone i same]
      rfl
    next other =>
      have differs : i.main.1 ≠ c := by simpa [Diagnostic.coded] using other
      rw [if_neg differs]
      cases i.remark? <;> rfl
  induction is with
  | nil => rfl
  | cons i is ih =>
    rw [List.flatMap_cons, List.filter_append, ih, own, List.filter_cons]
    by_cases same : i.main.1 = c <;> simp [same]

/-- Of all that an issue says, one diagnostic is an error. -/
theorem Issue.countP_error {i : Issue} (h : i.isRounding = false) :
    (i.diagnostics.countP fun d => d.severity = .error) = 1 := by
  cases i <;> first | contradiction | rfl

/-- The diagnostics of issues hold an error unless all issues are roundings. -/
theorem Issue.exists_error_iff {is : List Issue} :
    (∃ d ∈ is.flatMap Issue.diagnostics, d.severity = .error) ↔
      ¬ ∀ i ∈ is, i.isRounding = true := by
  constructor
  · rintro ⟨d, mem, error⟩ rounding
    obtain ⟨i, hi, hd⟩ := List.mem_flatMap.1 mem
    have warning := (diagnostics_of_isRounding (rounding i hi) d hd).1
    rw [error] at warning
    contradiction
  · intro other
    obtain ⟨i, hi, hn⟩ : ∃ i ∈ is, i.isRounding = false := by simpa using other
    obtain ⟨d, hd, error⟩ := exists_error_of_not_isRounding hn
    exact ⟨d, List.mem_flatMap_of_mem hi hd, error⟩

namespace Checked

variable {α β : Type}

/-- There is a result exactly if nothing but roundings came up. -/
def Consistent (x : Checked α) : Prop :=
  x.result.isSome = true ↔ ∀ i ∈ x.issues, i.isRounding = true

theorem Consistent.ok (a : α) : (Checked.ok a).Consistent := by simp [Consistent, Checked.ok]

theorem Consistent.fail {i : Issue} (h : i.isRounding = false) :
    (Checked.fail i : Checked α).Consistent := by simp [Consistent, Checked.fail, h]

theorem Consistent.bind {x : Checked α} {f : α → Checked β} (hx : x.Consistent)
    (hf : ∀ a, (f a).Consistent) : (x >>= f).Consistent := by
  change (x.bind f).Consistent
  unfold Checked.bind Consistent at *
  cases hr : x.result with
  | none => simpa [hr] using hx
  | some a =>
    have roundings := hx.1 (hr ▸ rfl)
    rw [List.forall_mem_append]
    exact (hf a).trans (and_iff_right roundings).symm

theorem Consistent.both {x : Checked α} {y : Checked β} (hx : x.Consistent) (hy : y.Consistent) :
    (x.both y).Consistent := by
  unfold Checked.both Consistent at *
  rw [List.forall_mem_append, ← hx, ← hy]
  cases x.result <;> simp

/-- What holds of a step that reports no rounding, and of steps that are put together if it holds of
each of them. -/
structure Compositional (P : ∀ {α : Type}, Checked α → Prop) : Prop where
  ok : ∀ {α : Type} (a : α), P (Checked.ok a)
  fail : ∀ {α : Type} {i : Issue}, i.isRounding = false → P (Checked.fail i : Checked α)
  bind : ∀ {α β : Type} {x : Checked α} {f : α → Checked β}, P x → (∀ a, P (f a)) → P (x >>= f)
  both : ∀ {α β : Type} {x : Checked α} {y : Checked β}, P x → P y → P (x.both y)

theorem compositional_consistent : Compositional Consistent := ⟨.ok, .fail, .bind, .both⟩

namespace Compositional

variable {P : ∀ {α : Type}, Checked α → Prop} (h : Compositional P)

include h

theorem evalOperation (op : Operator) (type : Scalar) (span : Span) (left right : Annotated) :
    P (Scope.evalOperation op type span left right) := by
  unfold Scope.evalOperation
  split
  · split
    · exact h.ok _
    · exact h.fail rfl
  · exact h.ok _

theorem eval (s : Scope) (expected : Ty) (e : Expr) : P (s.eval expected e) := by
  induction e generalizing expected with
  | literal n span =>
    unfold Scope.eval Scope.evalLiteral
    split
    · exact h.fail rfl
    · split
      · exact h.fail rfl
      · split
        · exact h.fail rfl
        · exact h.ok _
  | access name =>
    unfold Scope.eval Scope.evalName
    split
    · split
      · exact h.ok _
      · exact h.fail rfl
    · split <;> exact h.fail rfl
  | group opening inner closing ih =>
    rw [Scope.eval]
    exact h.bind (ih expected) fun _ => h.ok _
  | unary sign span operand ih =>
    rw [Scope.eval]
    refine h.bind (ih expected) fun o => ?_
    split
    · exact h.fail rfl
    · exact h.ok _
  | binary op span left right ihl ihr =>
    cases expected with
    | metatype =>
      rw [Scope.eval]
      exact h.fail rfl
    | scalar type =>
      rw [Scope.eval]
      exact h.bind (h.both (ihl _) (ihr _)) fun _ => h.evalOperation ..

theorem declaredType (name : Name) (declared : Annotated) :
    P (Scope.declaredType name declared) := by
  unfold Scope.declaredType
  split
  · split
    · exact h.ok _
    · exact h.fail rfl
  · exact h.fail rfl
  · exact h.fail rfl

end Compositional

end Checked

namespace Scope

open Checked

theorem consistent_store (type : Scalar) (value : Annotated) :
    (store type value).Consistent := by
  unfold store
  split
  · exact .ok _
  · split
    · exact .fail rfl
    · unfold Checked.Consistent
      split <;> simp [Issue.isRounding]

theorem consistent_define (s : Scope) (d : Definition) : (s.define d).Consistent := by
  unfold define
  refine (compositional_consistent.eval ..).bind fun declared => ?_
  refine (compositional_consistent.declaredType ..).bind fun type => ?_
  refine (compositional_consistent.eval ..).bind fun value => ?_
  exact (consistent_store ..).bind fun _ => .ok _

end Scope

namespace Pass

/-- Every definition went through exactly if nothing but roundings came up. -/
def Consistent (p : Pass) : Prop := p.complete = true ↔ ∀ i ∈ p.issues, i.isRounding = true

theorem Consistent.start (s : Scope) : (Pass.start s).Consistent := by
  simp [Consistent, Pass.start]

/-- A definition is refused for its name, or it is deferred. -/
theorem eq_of_collect {p q : Pass} {d : Definition} (h : p.collect d = .ok q) :
    (∃ i, i.isRounding = false ∧ q = p.refuse i) ∨
      ∃ scope, p.scope.defer d = .ok scope ∧ q = { p with scope := scope } := by
  unfold Pass.collect at h
  split at h
  · exact .inl ⟨_, rfl, (Except.ok.inj h).symm⟩
  · split at h
    · exact .inl ⟨_, rfl, (Except.ok.inj h).symm⟩
    · cases hd : p.scope.defer d with
      | error fault => simp [hd, Except.map] at h
      | ok scope =>
        rw [hd] at h
        exact .inr ⟨scope, rfl, (Except.ok.inj h).symm⟩

theorem Consistent.collect {p q : Pass} {d : Definition} (h : p.Consistent)
    (hq : p.collect d = .ok q) : q.Consistent := by
  rcases eq_of_collect hq with ⟨i, hi, rfl⟩ | ⟨scope, -, rfl⟩
  · simp [Consistent, refuse, hi]
  · exact h

theorem Consistent.resolve {p q : Pass} {d : Definition} (h : p.Consistent)
    (hq : p.resolve d = .ok q) : q.Consistent := by
  have step := p.scope.consistent_define d
  unfold Consistent Checked.Consistent at *
  rcases eq_of_resolve hq with ⟨v, hv, rfl⟩ | ⟨hv, rfl⟩
  · rw [List.forall_mem_append, ← step, hv, ← h]
    simp
  · rw [List.forall_mem_append, ← step, hv]
    simp

end Pass

/-- A resolution is complete exactly if nothing but roundings came up. -/
theorem Program.complete_iff {p : Program} {r : Resolution} (h : p.resolve = .ok r) :
    r.complete = true ↔ ∀ i ∈ r.issues, i.isRounding = true := by
  obtain ⟨collected, hc, h⟩ := bind_eq_ok.1 h
  obtain ⟨resolved, hr, h⟩ := bind_eq_ok.1 h
  obtain ⟨symbols, -, h⟩ := bind_eq_ok.1 h
  obtain rfl := Except.ok.inj h
  have first : collected.Consistent :=
    foldlM_invariant (fun hp hq => hp.collect hq) hc (.start _)
  have second : resolved.Consistent :=
    foldlM_invariant (fun hp hq => hp.resolve hq) hr (.start _)
  simp only [Bool.and_eq_true, List.forall_mem_append]
  exact and_congr first second

end ConstLang
