import ConstLang.Proofs.Resolution.Settling

/-!
# Independent definitions commute

Two adjacent definitions with different names, neither of which refers to the other, may be
exchanged: the resolution is the same but for the order of the variables and of the issues. In the
first pass a definition is refused or kept by its name and those before it, whatever the other one
is. In the second pass it is settled over a scope that differs from the one before the exchange in
the name of the other definition alone, which it does not look up. Behind the two, the scopes agree
on every name, and this is all that later definitions see of them.
-/

namespace ConstLang

/-! ## What a definition looks up -/

namespace Scope

variable {s t : Scope} {names : List String}

/-- These names mean the same in two scopes, be they resolved or pending. -/
def AgreeOn (names : List String) (s t : Scope) : Prop :=
  ∀ n ∈ names, s.resolved? n = t.resolved? n ∧ s.pending? n = t.pending? n

theorem AgreeOn.mono {fewer : List String} (h : AgreeOn names s t) (sub : fewer ⊆ names) :
    AgreeOn fewer s t := fun n hn => h n (sub hn)

theorem AgreeOn.eval {e : Expr} (h : AgreeOn e.names s t) (expected : Ty) :
    s.eval expected e = t.eval expected e := by
  induction e generalizing expected with
  | literal n span => rw [Scope.eval, Scope.eval]
  | access name =>
    obtain ⟨resolved, pending⟩ := h name.text (by simp [Expr.names])
    rw [Scope.eval, Scope.eval, evalName, evalName, resolved, pending]
  | group opening inner closing ih => rw [Scope.eval, Scope.eval, ih h]
  | unary sign span operand ih => rw [Scope.eval, Scope.eval, ih h]
  | binary op span left right ihl ihr =>
    have hl := ihl (h.mono (List.subset_append_left _ _))
    have hr := ihr (h.mono (List.subset_append_right _ _))
    cases expected with
    | metatype => rw [Scope.eval, Scope.eval]
    | scalar type => rw [Scope.eval, Scope.eval, hl, hr]

/-- What a definition comes to, and what is reported on the way, depends on the names that it
refers to and on nothing else in the scope. -/
theorem AgreeOn.define {d : Definition} (h : AgreeOn d.references s t) :
    s.define d = t.define d := by
  have type := (h.mono (List.subset_append_left _ _)).eval .metatype
  have value := fun expected => (h.mono (List.subset_append_right _ _)).eval expected
  simp only [Scope.define, type, value]

end Scope

/-! ## The first pass -/

/-- The same definitions, but that `d` and `e` may be exchanged where they are adjacent. -/
inductive Exchanged (d e : Definition) : List Definition → List Definition → Prop
  | same (ks : List Definition) : Exchanged d e ks ks
  | swapped (front back : List Definition) :
      Exchanged d e (front ++ d :: e :: back) (front ++ e :: d :: back)

namespace Exchanged

variable {d e : Definition} {ks ls : List Definition}

theorem append (h : Exchanged d e ks ls) (ds : List Definition) :
    Exchanged d e (ks ++ ds) (ls ++ ds) := by
  cases h with
  | same => exact .same _
  | swapped front back => simpa using swapped front (back ++ ds)

/-- Under each name there is the same definition, if `d` and `e` have different ones. -/
theorem find?_eq (h : Exchanged d e ks ls) (differ : d.name.text ≠ e.name.text) (name : String) :
    ks.find? (fun c => c.name.text = name) = ls.find? fun c => c.name.text = name := by
  cases h with
  | same => rfl
  | swapped front back =>
    rw [List.find?_append, List.find?_append]
    congr 1
    by_cases hd : d.name.text = name
    · have he : e.name.text ≠ name := fun he => differ (hd.trans he.symm)
      simp [hd, he]
    · by_cases he : e.name.text = name <;> simp [hd, he]

theorem refusal?_eq (h : Exchanged d e ks ls) (differ : d.name.text ≠ e.name.text)
    (c : Definition) : refusal? ks c = refusal? ls c := by
  rw [refusal?, refusal?, h.find?_eq differ]

theorem keep (h : Exchanged d e ks ls) (differ : d.name.text ≠ e.name.text) (c : Definition) :
    Exchanged d e (keep ks c) (keep ls c) := by
  rw [keep_eq, keep_eq, h.refusal?_eq differ]
  split
  · exact h
  · exact h.append [c]

theorem refusals_eq (h : Exchanged d e ks ls) (differ : d.name.text ≠ e.name.text)
    (ds : List Definition) : refusals ks ds = refusals ls ds := by
  induction ds generalizing ks ls with
  | nil => rfl
  | cons c ds ih => rw [refusals, refusals, h.refusal?_eq differ, ih (h.keep differ c)]

theorem foldl_keep (h : Exchanged d e ks ls) (differ : d.name.text ≠ e.name.text)
    (ds : List Definition) :
    Exchanged d e (ds.foldl ConstLang.keep ks) (ds.foldl ConstLang.keep ls) := by
  induction ds generalizing ks ls with
  | nil => exact h
  | cons c ds ih => exact ih (h.keep differ c)

end Exchanged

/-- Whether a definition is refused does not depend on one of another name before it. -/
theorem refusal?_keep {d e : Definition} (differ : d.name.text ≠ e.name.text)
    (ks : List Definition) : refusal? (keep ks d) e = refusal? ks e := by
  rw [keep_eq]
  split
  · rfl
  · simp [refusal?, differ]

theorem exchanged_keep {d e : Definition} (differ : d.name.text ≠ e.name.text)
    (ks : List Definition) : Exchanged d e (keep (keep ks d) e) (keep (keep ks e) d) := by
  rw [keep_eq (keep ks d), keep_eq (keep ks e), refusal?_keep differ, refusal?_keep differ.symm,
    keep_eq ks d, keep_eq ks e]
  by_cases hd : (refusal? ks d).isSome = true
  · simp only [hd, if_true]
    exact .same _
  · by_cases he : (refusal? ks e).isSome = true
    · simp only [hd, he, if_true]
      exact .same _
    · simpa [hd, he] using Exchanged.swapped (d := d) (e := e) ks []

theorem exchanged_kept {d e : Definition} (differ : d.name.text ≠ e.name.text)
    (before after : List Definition) :
    Exchanged d e ((before ++ d :: e :: after).foldl keep [])
      ((before ++ e :: d :: after).foldl keep []) := by
  rw [List.foldl_append, List.foldl_append]
  exact (exchanged_keep differ _).foldl_keep differ after

theorem perm_refusals {d e : Definition} (differ : d.name.text ≠ e.name.text)
    (before after : List Definition) :
    (refusals [] (before ++ d :: e :: after)).Perm (refusals [] (before ++ e :: d :: after)) := by
  rw [refusals_append, refusals_append]
  refine List.Perm.append_left _ ?_
  simp only [refusals]
  rw [refusal?_keep differ, refusal?_keep differ.symm,
    (exchanged_keep differ _).refusals_eq differ after]
  simpa using List.perm_append_comm.append_right _

/-! ## The second pass -/

namespace Pass

variable {p q r : Pass} {d e : Definition}

/-- Passes that have the same names, and differ in the order of what they hold alone. -/
structure Alike (p q : Pass) : Prop where
  resolved : ∀ name, p.scope.resolved? name = q.scope.resolved? name
  pending : ∀ name, p.scope.pending? name = q.scope.pending? name
  vars : p.scope.symbols.vars.Perm q.scope.symbols.vars
  complete : p.complete = q.complete
  issues : p.issues.Perm q.issues

theorem Alike.refl (p : Pass) : Alike p p := ⟨fun _ => rfl, fun _ => rfl, .refl _, rfl, .refl _⟩

theorem Alike.trans (h : Alike p q) (k : Alike q r) : Alike p r where
  resolved name := (h.resolved name).trans (k.resolved name)
  pending name := (h.pending name).trans (k.pending name)
  vars := h.vars.trans k.vars
  complete := h.complete.trans k.complete
  issues := h.issues.trans k.issues

theorem Alike.next (h : Alike p q) (d : Definition) : Alike (p.next d) (q.next d) := by
  have same : p.scope.define d = q.scope.define d :=
    Scope.AgreeOn.define fun n _ => ⟨h.resolved n, h.pending n⟩
  refine ⟨fun name => ?_, fun name => ?_, ?_, ?_, ?_⟩
  · rw [resolved?_next, resolved?_next, h.resolved, same]
  · rw [pending?_next, pending?_next, h.pending]
  · rw [vars_next, vars_next, same]
    exact h.vars.append_right _
  · rw [complete_next, complete_next, same, h.complete]
  · rw [issues_next, issues_next, same]
    exact h.issues.append_right _

theorem Alike.foldl_next (h : Alike p q) (ds : List Definition) :
    Alike (ds.foldl Pass.next p) (ds.foldl Pass.next q) := by
  induction ds generalizing p q with
  | nil => exact h
  | cons d ds ih => exact ih (h.next d)

/-- A definition comes to the same before and behind another one that it does not refer to. -/
theorem define_next (apart : d.name.text ∉ e.references) :
    (p.next d).scope.define e = p.scope.define e := by
  refine Scope.AgreeOn.define fun n hn => ?_
  have other : d.name.text ≠ n := fun h => apart (h ▸ hn)
  simp [resolved?_next, pending?_next, other]

/-- Two definitions that do not refer to each other may be settled in either order. -/
theorem alike_next_next (differ : d.name.text ≠ e.name.text) (hd : d.name.text ∉ e.references)
    (he : e.name.text ∉ d.references) : Alike ((p.next d).next e) ((p.next e).next d) := by
  refine ⟨fun name => ?_, fun name => ?_, ?_, ?_, ?_⟩
  · rw [resolved?_next, resolved?_next, resolved?_next, resolved?_next, define_next hd,
      define_next he]
    by_cases hn : d.name.text = name
    · have other : e.name.text ≠ name := fun h => differ (hn.trans h.symm)
      simp [other]
    · simp [hn]
  · simp only [pending?_next]
    grind
  · simp only [vars_next, define_next hd, define_next he, List.append_assoc]
    exact List.perm_append_comm.append_left _
  · simp only [complete_next, define_next hd, define_next he]
    exact Bool.and_right_comm ..
  · simp only [issues_next, define_next hd, define_next he, List.append_assoc]
    exact List.perm_append_comm.append_left _

end Pass

/-! ## Both passes -/

/-- Resolutions that hold the same, be it in another order. -/
structure Resolution.Alike (r t : Resolution) : Prop where
  complete : r.complete = t.complete
  vars : r.symbols.vars.Perm t.symbols.vars
  named : ∀ name, r.symbols.get? name = t.symbols.get? name
  issues : r.issues.Perm t.issues

section

variable {d e : Definition} (differ : d.name.text ≠ e.name.text)
  (hd : d.name.text ∉ e.references) (he : e.name.text ∉ d.references)

include differ hd he

theorem Pass.alike_of_exchanged {ks ls : List Definition} (h : Exchanged d e ks ls) :
    Alike (ks.foldl Pass.next (Pass.start (.deferred ks)))
      (ls.foldl Pass.next (Pass.start (.deferred ls))) := by
  have start : Alike (Pass.start (.deferred ks)) (Pass.start (.deferred ls)) :=
    ⟨fun _ => rfl, h.find?_eq differ, .refl _, rfl, .refl _⟩
  refine (start.foldl_next ks).trans ?_
  cases h with
  | same => exact .refl _
  | swapped front back =>
    rw [List.foldl_append, List.foldl_append]
    exact (alike_next_next differ hd he).foldl_next back

/-- Two adjacent definitions with different names that do not refer to each other may be exchanged.
The program is resolved or fails as before, to the same variables, under the same names, and what
is reported is the same but for the order. -/
theorem Program.resolve_exchanged (before after : List Definition) (endMark : Span) :
    let p := Program.mk (before ++ d :: e :: after) endMark
    let q := Program.mk (before ++ e :: d :: after) endMark
    (∃ r t, p.resolve = .ok r ∧ q.resolve = .ok t ∧ r.Alike t) ∧
      ∀ report : Report, ∃ x y, report.resolve p = .ok x ∧ report.resolve q = .ok y ∧
        x.1.isOk = y.1.isOk ∧ x.2.records.Perm y.2.records := by
  intro p q
  have refused : (refusals [] p.definitions).Perm (refusals [] q.definitions) :=
    perm_refusals differ before after
  have settled := Pass.alike_of_exchanged differ hd he (exchanged_kept differ before after)
  have alike : ∃ r t, p.resolve = .ok r ∧ q.resolve = .ok t ∧ r.Alike t :=
    ⟨_, _, p.resolve_eq, q.resolve_eq, by rw [refused.isEmpty_eq, settled.complete], settled.vars,
      settled.resolved, refused.append settled.issues⟩
  refine ⟨alike, fun report => ?_⟩
  obtain ⟨r, t, hr, ht, same⟩ := alike
  unfold Report.resolve
  rw [hr, ht]
  refine ⟨_, _, rfl, rfl, ?_, ?_⟩
  · simp only [same.complete]
    split <;> rfl
  · simp only [Report.records_pushAll]
    exact (same.issues.flatMap_right _).append_left _

end

/-! `a : f4 = 7.25 * 9.345679 ; b : i4 = missing ; a : i4 = 8 ; c : f4 = a ;` -/

namespace Crossing

def origin : Span := .single (Source.start ⟨0, "", ""⟩)

def definition (name type : String) (value : Expr) : Definition :=
  ⟨⟨name, origin⟩, origin, .access ⟨type, origin⟩, origin, value, origin⟩

def literal (whole : DigitRun) (fraction : Option DigitRun) : Expr :=
  .literal ⟨whole, fraction, none⟩ origin

/-- Its value is stored rounded. -/
def rounded : Definition :=
  definition "a" "f4" (.binary .multiply origin (literal ⟨"7", rfl⟩ (some ⟨"25", rfl⟩))
    (literal ⟨"9", rfl⟩ (some ⟨"345679", rfl⟩)))

def failed : Definition := definition "b" "i4" (.access ⟨"missing", origin⟩)

def after : List Definition :=
  [definition "a" "i4" (literal ⟨"8", rfl⟩ none), definition "c" "f4" (.access ⟨"a", origin⟩)]

def codes (p : Program) : Option (List Code) :=
  p.resolve.toOption.map fun r => r.issues.map (·.main.1)

end Crossing

open Crossing in
theorem Program.resolve_exchanged_crossing :
    let p := Program.mk (rounded :: failed :: after) origin
    let q := Program.mk (failed :: rounded :: after) origin
    codes p = some [.redeclaration, .roundedConstant, .undefinedName] ∧
    codes q = some [.redeclaration, .undefinedName, .roundedConstant] ∧
    (∃ r t, p.resolve = .ok r ∧ q.resolve = .ok t ∧ r.Alike t) ∧
      ∃ x y, Report.empty.resolve p = .ok x ∧ Report.empty.resolve q = .ok y ∧
        x.1.isOk = y.1.isOk ∧ x.2.records.Perm y.2.records := by
  obtain ⟨alike, reported⟩ := resolve_exchanged (d := rounded) (e := failed) (by decide +kernel)
    (by decide +kernel) (by decide +kernel) [] after origin
  exact ⟨by decide +kernel, by decide +kernel, alike, reported .empty⟩

end ConstLang
