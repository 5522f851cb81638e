import ConstLang.Evaluation

/-!
# An interpreter in one pass

The plain reading of a program. Definitions are taken one after the other; each one is evaluated
over the variables before it, and adds its own if its type, its value and its binding all come to
something. Nothing is deferred, and nothing is reported.

What a definition comes to depends on the names in it and on nothing else (`define?_congr`). So a
definition that fails is as good as absent, but for its name (`vars_run_of_failed`), and two
definitions of a name differ for those alone that refer to it (`vars_run_of_replaced`).
-/

namespace ConstLang

/-- The names in an expression. -/
def Expr.names : Expr → List String
  | literal _ _ => []
  | access name => [name.text]
  | group _ inner _ => inner.names
  | unary _ _ operand => operand.names
  | binary _ _ left right => left.names ++ right.names

/-- The names that a definition refers to. -/
def Definition.references (d : Definition) : List String := d.type.names ++ d.value.names

/-- What a run over definitions leaves: the names that were declared, and the variables. -/
structure Interpreter where
  declared : List String
  vars : List Variable

namespace Interpreter

def operate? (op : Operator) (type : Scalar) (span : Span) (left right : Annotated) :
    Option Annotated :=
  match left.number?, right.number? with
  | some x, some y => do
    let z ← op.apply? type x y
    some (.two span ⟨.scalar type, some (.number z)⟩ left right)
  | _, _ => some (.two span ⟨.scalar type, none⟩ left right)

/-- The value of an expression where a type is expected of it, given what names mean. -/
def eval? (env : String → Option Symbol) (expected : Ty) (e : Expr) : Option Annotated :=
  match e with
  | .literal n span =>
    match expected with
    | .metatype => none
    | .scalar type => do
      let x ← n.value?
      if type.misfit? x = none then some (.leaf span ⟨expected, some (.number x)⟩) else none
  | .access name => do
    let symbol ← env name.text
    if symbol.type = expected then some (.leaf name.span symbol.valuation) else none
  | .group _ inner _ => do
    let inner ← eval? env expected inner
    some (.one e.span inner.valuation inner)
  | .unary sign _ operand => do
    let operand ← eval? env expected operand
    if operand.valuation.type = .metatype then none
    else some (.one e.span (sign.apply operand.valuation) operand)
  | .binary op _ left right =>
    match expected with
    | .metatype => none
    | .scalar type => do
      let left ← eval? env expected left
      let right ← eval? env expected right
      operate? op type e.span left right

/-- The type that a type expression gives a variable. -/
def variableType? (declared : Annotated) : Option Scalar :=
  match declared.valuation.type? with
  | some (.scalar type) => if type.isStorable then some type else none
  | _ => none

/-- What is kept of a value in a variable of a type. -/
def bind? (type : Scalar) (value : Annotated) : Option Valuation :=
  match value.number? with
  | none => some value.valuation
  | some x =>
    (type.bind x).toOption.map fun stored =>
      { value.valuation with value := some (.number stored) }

/-- The variable of a definition. -/
def define? (env : String → Option Symbol) (d : Definition) : Option Variable := do
  let declared ← eval? env .metatype d.type
  let type ← variableType? declared
  let value ← eval? env (.scalar type) d.value
  let valuation ← bind? type value
  some ⟨d.name, type, declared, d.value, value, valuation⟩

def start : Interpreter := ⟨[], []⟩

/-- Names mean the built-in types, and the variables so far. -/
def env (i : Interpreter) : String → Option Symbol := (Symbols.mk i.vars).get?

/-- A definition is skipped if its name is that of a built-in type or declared before. -/
def Skips (i : Interpreter) (name : String) : Prop :=
  Scope.isBuiltin name = true ∨ name ∈ i.declared

instance (i : Interpreter) (name : String) : Decidable (i.Skips name) :=
  inferInstanceAs (Decidable (_ ∨ _))

def step (i : Interpreter) (d : Definition) : Interpreter :=
  if i.Skips d.name.text then i
  else ⟨i.declared ++ [d.name.text], i.vars ++ (define? i.env d).toList⟩

def run (ds : List Definition) : Interpreter := ds.foldl step start

/-! ## What a definition depends on -/

theorem eval?_congr {f g : String → Option Symbol} {e : Expr} (h : ∀ n ∈ e.names, f n = g n)
    (expected : Ty) : eval? f expected e = eval? g expected e := by
  induction e with
  | literal n span => simp only [eval?]
  | access name => simp only [eval?, h name.text (by simp [Expr.names])]
  | group opening inner closing ih => rw [eval?, eval?, ih h]
  | unary sign span operand ih => rw [eval?, eval?, ih h]
  | binary op span left right ihl ihr =>
    have hl := ihl fun n hn => h n (List.mem_append_left _ hn)
    have hr := ihr fun n hn => h n (List.mem_append_right _ hn)
    cases expected with
    | metatype => simp only [eval?]
    | scalar type => simp only [eval?, hl, hr]

theorem define?_congr {f g : String → Option Symbol} {d : Definition}
    (h : ∀ n ∈ d.references, f n = g n) : define? f d = define? g d := by
  have ht := eval?_congr (fun n hn => h n (List.mem_append_left _ hn)) .metatype
  have hv := fun type => eval?_congr (fun n hn => h n (List.mem_append_right _ hn)) (.scalar type)
  simp only [define?, ht, hv]

theorem name_of_define? {f : String → Option Symbol} {d : Definition} {v : Variable}
    (h : define? f d = some v) : v.name = d.name := by
  simp only [define?, Option.bind_eq_bind, Option.bind_eq_some_iff] at h
  obtain ⟨declared, -, type, -, value, -, valuation, -, h⟩ := h
  exact (Option.some.inj h) ▸ rfl

/-! ## Steps -/

variable {i j : Interpreter} {d : Definition}

theorem step_of_skips (h : i.Skips d.name.text) : i.step d = i := if_pos h

theorem step_of_not_skips (h : ¬ i.Skips d.name.text) :
    i.step d = ⟨i.declared ++ [d.name.text], i.vars ++ (define? i.env d).toList⟩ := if_neg h

/-- A step keeps the variables that are there. -/
theorem vars_prefix_step (i : Interpreter) (d : Definition) : i.vars <+: (i.step d).vars := by
  by_cases h : i.Skips d.name.text
  · exact (step_of_skips h).symm ▸ List.prefix_rfl
  · exact (step_of_not_skips h).symm ▸ List.prefix_append _ _

theorem vars_prefix_foldl (i : Interpreter) (ds : List Definition) :
    i.vars <+: (ds.foldl step i).vars := by
  induction ds generalizing i with
  | nil => exact List.prefix_rfl
  | cons d ds ih => exact (i.vars_prefix_step d).trans (ih (i.step d))

theorem run_append (ds es : List Definition) : run (ds ++ es) = es.foldl step (run ds) :=
  List.foldl_append

/-! ## Definitions that fail -/

/-- The same variables, and the same names are declared apart from one that is no longer free in
the first run. -/
structure AgreeBut (name : String) (i j : Interpreter) : Prop where
  vars : i.vars = j.vars
  skips : i.Skips name
  declared : ∀ n, n ≠ name → (n ∈ i.declared ↔ n ∈ j.declared)

theorem AgreeBut.step {name : String} (h : AgreeBut name i j) (hd : d.name.text ≠ name) :
    AgreeBut name (i.step d) (j.step d) := by
  have same : i.Skips d.name.text ↔ j.Skips d.name.text := or_congr_right (h.declared _ hd)
  by_cases hi : i.Skips d.name.text
  · rw [step_of_skips hi, step_of_skips (same.1 hi)]
    exact h
  · rw [step_of_not_skips hi, step_of_not_skips (mt same.2 hi)]
    refine ⟨by simp only [env, h.vars], h.skips.imp_right (List.mem_append_left _), fun n hn => ?_⟩
    simp only [List.mem_append, h.declared n hn]

theorem AgreeBut.vars_foldl {name : String} {ds : List Definition} (h : AgreeBut name i j) :
    (ds.foldl Interpreter.step i).vars =
      ((ds.filter fun d => d.name.text ≠ name).foldl Interpreter.step j).vars := by
  induction ds generalizing i j with
  | nil => exact h.vars
  | cons d ds ih =>
    by_cases hd : d.name.text = name
    · rw [List.filter_cons_of_neg (by simpa using hd), List.foldl_cons,
        step_of_skips (hd ▸ h.skips)]
      exact ih h
    · rw [List.filter_cons_of_pos (by simpa using hd), List.foldl_cons, List.foldl_cons]
      exact ih (h.step hd)

theorem agreeBut_of_failed (h : (i.step d).vars = i.vars) : AgreeBut d.name.text (i.step d) i := by
  by_cases hi : i.Skips d.name.text
  · rw [step_of_skips hi]
    exact ⟨rfl, hi, fun _ _ => Iff.rfl⟩
  · refine ⟨h, ?_, fun n hn => ?_⟩
    · rw [step_of_not_skips hi]
      exact .inr (by simp)
    · simp [step_of_not_skips hi, hn]

/-- A definition that adds no variable leaves the same variables behind as if it, and the later
definitions of its name, were not there. -/
theorem vars_run_of_failed {before after : List Definition}
    (h : (run (before ++ [d])).vars = (run before).vars) :
    (run (before ++ d :: after)).vars =
      (run (before ++ after.filter fun e => e.name.text ≠ d.name.text)).vars := by
  rw [run_append] at h
  rw [run_append, run_append, List.foldl_cons]
  exact (agreeBut_of_failed h).vars_foldl

/-! ## Definitions that are replaced -/

/-- The variables outside a set of names. -/
def varsOutside (i : Interpreter) (names : String → Bool) : List Variable :=
  i.vars.filter fun v => !names v.name.text

/-- The same names are declared, and the variables outside a set of names are the same. -/
structure AgreeOutside (names : String → Bool) (i j : Interpreter) : Prop where
  declared : i.declared = j.declared
  vars : i.varsOutside names = j.varsOutside names

variable {names : String → Bool}

theorem AgreeOutside.env_eq (h : AgreeOutside names i j) {name : String}
    (outside : names name = false) : i.env name = j.env name := by
  have found (k : Interpreter) : (k.varsOutside names).find? (fun v => v.name.text = name) =
      k.vars.find? fun v => v.name.text = name := by
    rw [varsOutside, List.find?_filter]
    congr 1
    funext v
    by_cases hv : v.name.text = name
    · simp [hv, outside]
    · simp [hv]
  unfold env Symbols.get?
  rw [← found i, ← found j, h.vars]

theorem varsOutside_step_of_mem (hd : names d.name.text = true) :
    (i.step d).varsOutside names = i.varsOutside names := by
  by_cases hi : i.Skips d.name.text
  · rw [step_of_skips hi]
  · rw [step_of_not_skips hi]
    cases hv : define? i.env d with
    | none => simp [varsOutside]
    | some v => simp [varsOutside, name_of_define? hv, hd]

theorem skips_congr (h : i.declared = j.declared) {name : String} :
    i.Skips name ↔ j.Skips name := by
  unfold Skips
  rw [h]

theorem declared_step (h : i.declared = j.declared) {e : Definition}
    (he : e.name.text = d.name.text) : (i.step d).declared = (j.step e).declared := by
  by_cases hi : i.Skips d.name.text
  · rw [step_of_skips hi, step_of_skips (he ▸ (skips_congr h).1 hi), h]
  · rw [step_of_not_skips hi, step_of_not_skips (he ▸ mt (skips_congr h).2 hi), h, he]

theorem AgreeOutside.step (h : AgreeOutside names i j)
    (closed : (∃ n ∈ d.references, names n = true) → names d.name.text = true) :
    AgreeOutside names (i.step d) (j.step d) := by
  refine ⟨declared_step h.declared rfl, ?_⟩
  cases hd : names d.name.text with
  | true => rw [varsOutside_step_of_mem hd, varsOutside_step_of_mem hd, h.vars]
  | false =>
    have same : i.Skips d.name.text ↔ j.Skips d.name.text := skips_congr h.declared
    by_cases hi : i.Skips d.name.text
    · rw [step_of_skips hi, step_of_skips (same.1 hi), h.vars]
    · have agree : define? i.env d = define? j.env d :=
        define?_congr fun n hn => h.env_eq <| by
          cases hn' : names n with
          | false => rfl
          | true => exact absurd (closed ⟨n, hn, hn'⟩) (by simp [hd])
      rw [step_of_not_skips hi, step_of_not_skips (mt same.2 hi), agree]
      have vars := h.vars
      unfold varsOutside at vars ⊢
      rw [List.filter_append, List.filter_append, vars]

theorem AgreeOutside.foldl {ds : List Definition} (h : AgreeOutside names i j)
    (closed : ∀ d ∈ ds, (∃ n ∈ d.references, names n = true) → names d.name.text = true) :
    AgreeOutside names (ds.foldl Interpreter.step i) (ds.foldl Interpreter.step j) := by
  induction ds generalizing i j with
  | nil => exact h
  | cons d ds ih =>
    exact ih (h.step (closed d (by simp))) fun e he => closed e (List.mem_cons_of_mem _ he)

/-- Two definitions of a name make a difference only for that name, and for definitions that refer
to it, be it through others. -/
theorem vars_run_of_replaced {before after : List Definition} {e : Definition}
    (same : e.name.text = d.name.text) (hd : names d.name.text = true)
    (closed : ∀ a ∈ after, (∃ n ∈ a.references, names n = true) → names a.name.text = true) :
    (run (before ++ d :: after)).varsOutside names =
      (run (before ++ e :: after)).varsOutside names := by
  rw [run_append, run_append, List.foldl_cons, List.foldl_cons]
  have start : AgreeOutside names ((run before).step d) ((run before).step e) := by
    refine ⟨declared_step rfl same, ?_⟩
    rw [varsOutside_step_of_mem hd, varsOutside_step_of_mem (same ▸ hd)]
  exact (start.foldl closed).vars

end Interpreter

end ConstLang
