import ConstLang.Proofs.Compilation

/-!
# The first pass

The first pass judges each definition by its name and by the definitions before it. It keeps the
first definition of every name that no built-in type has, and refuses all others: what it says of
one that is refused points at the first definition of the name, however many were refused between
the two.
-/

namespace ConstLang

/-! ## What is kept and what is refused -/

/-- What is said of a definition that is not deferred after these. -/
def refusal? (ks : List Definition) (d : Definition) : Option Issue :=
  if Scope.isBuiltin d.name.text then some (.builtinName d.name)
  else (ks.find? fun e => e.name.text = d.name.text).map fun e => .redeclared d.name e.name

/-- What is said of definitions that are collected after these. -/
def refusals (ks : List Definition) : List Definition → List Issue
  | [] => []
  | d :: ds => (refusal? ks d).toList ++ refusals (keep ks d) ds

theorem refusals_append (ks ds es : List Definition) :
    refusals ks (ds ++ es) = refusals ks ds ++ refusals (ds.foldl keep ks) es := by
  induction ds generalizing ks with
  | nil => rfl
  | cons d ds ih => simp [refusals, ih]

/-- A definition is kept unless it is refused. -/
theorem keep_eq (ks : List Definition) (d : Definition) :
    keep ks d = if (refusal? ks d).isSome then ks else ks ++ [d] := by
  unfold keep refusal?
  by_cases builtin : Scope.isBuiltin d.name.text = true <;> simp [builtin]

theorem Pass.collect_eq {p : Pass} {ks : List Definition} (h : p.scope = .deferred ks)
    (d : Definition) :
    p.collect d = .ok ⟨.deferred (keep ks d), p.complete && (refusal? ks d).isNone,
      p.issues ++ (refusal? ks d).toList⟩ := by
  obtain ⟨scope, complete, issues⟩ := p
  subst h
  unfold collect
  rw [keep_eq, refusal?]
  by_cases builtin : Scope.isBuiltin d.name.text = true
  · simp [builtin, refuse]
  · have pending : (Scope.deferred ks).pending? d.name.text =
        ks.find? fun e => e.name.text = d.name.text := rfl
    rw [if_neg builtin, if_neg builtin, pending]
    cases earlier : ks.find? fun e => e.name.text = d.name.text with
    | some e => simp [refuse]
    | none =>
      have new : d.name.text ∉ ks.map (·.name.text) := by simpa using earlier
      rw [Scope.defer_deferred (Bool.eq_false_iff.2 builtin) new]
      simp [Except.map]

theorem Pass.foldlM_collect_eq {p : Pass} {ks : List Definition} (h : p.scope = .deferred ks)
    (ds : List Definition) :
    ds.foldlM Pass.collect p = .ok ⟨.deferred (ds.foldl keep ks),
      p.complete && (refusals ks ds).isEmpty, p.issues ++ refusals ks ds⟩ := by
  induction ds generalizing p ks with
  | nil =>
    rw [refusals, List.foldl_nil, ← h]
    simp
    rfl
  | cons d ds ih =>
    rw [List.foldlM_cons, Pass.collect_eq h d, ok_bind, ih rfl, refusals]
    cases refusal? ks d <;> simp

/-! ## Each definition and those before it -/

/-- What a function makes of each definition and of those before it, one after the other. -/
def inTurn {α : Type} (f : List Definition → Definition → List α) (ds : List Definition) : List α :=
  (ds.mapIdx fun i d => f (ds.take i) d).flatten

/-- No definition before it, and no built-in type, has the name of a definition. -/
def Definition.IsFirst (before : List Definition) (d : Definition) : Prop :=
  Scope.isBuiltin d.name.text = false ∧ ∀ e ∈ before, e.name.text ≠ d.name.text

instance (before : List Definition) (d : Definition) : Decidable (d.IsFirst before) :=
  inferInstanceAs (Decidable (_ ∧ _))

/-- The first definition of each name that is not that of a built-in type. -/
def firsts : List Definition → List Definition :=
  inTurn fun before d => if d.IsFirst before then [d] else []

/-- What is reported of a definition behind others: an error if its name is that of a built-in
type, and an error with a note on the first definition of its name if there is one before it. -/
def Definition.clashes (before : List Definition) (d : Definition) : List Diagnostic :=
  if Scope.isBuiltin d.name.text then
    [⟨.error, some .builtinClash, .resolving, some d.name.span,
      s!"name `{d.name.text}` clashes with built-in symbol"⟩]
  else
    match before.find? fun e => e.name.text = d.name.text with
    | some first =>
      [⟨.error, some .redeclaration, .resolving, some d.name.span,
          s!"`{d.name.text}` is already declared"⟩,
        ⟨.info, none, .resolving, some first.name.span, "previous declaration was here"⟩]
    | none => []

/-- The definitions seen so far stand before those that are still to come. -/
theorem flatten_mapIdx_cons {α : Type} (f : List Definition → Definition → List α)
    (seen : List Definition) (d : Definition) (ds : List Definition) :
    ((d :: ds).mapIdx fun i e => f (seen ++ (d :: ds).take i) e).flatten =
      f seen d ++ (ds.mapIdx fun i e => f (seen ++ [d] ++ ds.take i) e).flatten := by
  simp [List.mapIdx_cons]

/-- Of the definitions that are kept, the one of a name is the first one of all. -/
theorem find?_foldl_keep {name : String} (free : Scope.isBuiltin name = false)
    (ks ds : List Definition) :
    (ds.foldl keep ks).find? (fun e => e.name.text = name) =
      (ks ++ ds).find? fun e => e.name.text = name := by
  induction ds generalizing ks with
  | nil => rw [List.foldl_nil, List.append_nil]
  | cons d ds ih =>
    rw [List.foldl_cons, ih, keep]
    split
    · next refused =>
      rw [List.find?_append, List.find?_append]
      by_cases same : d.name.text = name
      · -- The name is not free for `d`, so that it is already that of a definition kept before.
        have known : (ks.find? fun e => e.name.text = name).isSome = true := by
          rw [← same] at free ⊢
          simpa [free] using refused
        obtain ⟨e, he⟩ := Option.isSome_iff_exists.1 known
        rw [he]
        rfl
      · simp [same]
    · simp

theorem refusal?_foldl_keep (before : List Definition) (d : Definition) :
    refusal? (before.foldl keep []) d = refusal? before d := by
  unfold refusal?
  by_cases builtin : Scope.isBuiltin d.name.text = true
  · rw [if_pos builtin, if_pos builtin]
  · rw [find?_foldl_keep (Bool.eq_false_iff.2 builtin), List.nil_append]

theorem Definition.isFirst_iff {before : List Definition} {d : Definition} :
    d.IsFirst before ↔ refusal? before d = none := by
  unfold IsFirst refusal?
  by_cases builtin : Scope.isBuiltin d.name.text = true <;> simp [builtin]

theorem Definition.clashes_eq (before : List Definition) (d : Definition) :
    d.clashes before = (refusal? before d).toList.flatMap Issue.diagnostics := by
  unfold clashes refusal?
  by_cases builtin : Scope.isBuiltin d.name.text = true
  · simp only [builtin, if_true]
    rfl
  · simp only [builtin]
    cases before.find? fun e => e.name.text = d.name.text <;> rfl

theorem foldl_keep_eq_append (seen ds : List Definition) :
    ds.foldl keep (seen.foldl keep []) = seen.foldl keep [] ++
      (ds.mapIdx fun i d => if d.IsFirst (seen ++ ds.take i) then [d] else []).flatten := by
  induction ds generalizing seen with
  | nil => simp
  | cons d ds ih =>
    have step : keep (seen.foldl keep []) d = (seen ++ [d]).foldl keep [] := by simp
    have kept : keep (seen.foldl keep []) d =
        seen.foldl keep [] ++ if d.IsFirst seen then [d] else [] := by
      rw [keep_eq, refusal?_foldl_keep]
      by_cases first : d.IsFirst seen
      · simp [first, Definition.isFirst_iff.1 first]
      · have refused := Option.isSome_iff_ne_none.2 (mt Definition.isFirst_iff.2 first)
        simp [first, refused]
    rw [List.foldl_cons, step, ih, ← step, kept, List.append_assoc,
      flatten_mapIdx_cons fun before d => if d.IsFirst before then [d] else []]

/-- The definitions that are kept are the first ones. -/
theorem foldl_keep_eq_firsts (ds : List Definition) : ds.foldl keep [] = firsts ds :=
  foldl_keep_eq_append [] ds

theorem diagnostics_refusals_append (seen ds : List Definition) :
    (refusals (seen.foldl keep []) ds).flatMap Issue.diagnostics =
      (ds.mapIdx fun i d => d.clashes (seen ++ ds.take i)).flatten := by
  induction ds generalizing seen with
  | nil => rfl
  | cons d ds ih =>
    have step : keep (seen.foldl keep []) d = (seen ++ [d]).foldl keep [] := by simp
    rw [refusals, List.flatMap_append, refusal?_foldl_keep, ← d.clashes_eq, step, ih,
      flatten_mapIdx_cons fun before d => d.clashes before]

/-- What is reported of the definitions that are refused. -/
theorem diagnostics_refusals (ds : List Definition) :
    (refusals [] ds).flatMap Issue.diagnostics = inTurn Definition.clashes ds :=
  diagnostics_refusals_append [] ds

/-! ## The pass as a whole -/

/-- What the first pass comes to: it does not fault, keeps the first definitions, and goes through
if none was refused. -/
theorem Scope.collect_eq (ds : List Definition) :
    builtins.collect ds =
      .ok ⟨.deferred (firsts ds), (refusals [] ds).isEmpty, refusals [] ds⟩ := by
  have run := Pass.foldlM_collect_eq (rfl : (Pass.start builtins).scope = .deferred []) ds
  rw [foldl_keep_eq_firsts] at run
  exact run

theorem distinct_firsts (ds : List Definition) : Distinct (firsts ds) :=
  foldl_keep_eq_firsts ds ▸ Distinct.empty.foldl_keep ds

theorem pendingInOrder_firsts (ds : List Definition) :
    (Scope.deferred (firsts ds)).pendingInOrder = firsts ds :=
  pendingInOrder_deferred (distinct_firsts ds).nodup

theorem code_of_mem_refusals {ks ds : List Definition} {i : Issue} (h : i ∈ refusals ks ds) :
    i.main.1 = .redeclaration ∨ i.main.1 = .builtinClash := by
  induction ds generalizing ks with
  | nil => contradiction
  | cons d ds ih =>
    rcases List.mem_append.1 h with said | later
    · rw [Option.mem_toList, refusal?] at said
      split at said
      · obtain rfl := Option.some.inj said
        exact .inr rfl
      · obtain ⟨first, -, rfl⟩ := Option.map_eq_some_iff.1 said
        exact .inl rfl
    · exact ih later

/-- Nothing was refused exactly if no refusal is reported. -/
theorem refusals_isEmpty_iff {ks ds : List Definition} :
    (refusals ks ds).isEmpty = true ↔ ∀ r ∈ (refusals ks ds).flatMap Issue.diagnostics,
      r.code ≠ some .redeclaration ∧ r.code ≠ some .builtinClash := by
  constructor
  · intro none
    rw [List.isEmpty_iff.1 none]
    exact List.forall_mem_nil _
  · intro silent
    by_contra some
    obtain ⟨i, mem⟩ := List.exists_mem_of_ne_nil _ (mt List.isEmpty_iff.2 some)
    obtain ⟨redeclares, clashes⟩ := silent _ (List.mem_flatMap_of_mem mem List.mem_cons_self)
    rcases code_of_mem_refusals mem with code | code
    · exact redeclares (congrArg Option.some code)
    · exact clashes (congrArg Option.some code)

/-- The first pass ends without a fault. It leaves pending the first definition of each name that
no built-in type has, in the order of the program, and it reports the others one after the other: a
clash, or a redeclaration with a note on the first definition of the name. It goes through exactly
if it reports neither, and what it reports comes before all that the second pass does. -/
theorem Program.collect_keeps_firsts (p : Program) :
    ∃ collected, Scope.builtins.collect p.definitions = .ok collected ∧
      collected.scope.pendingInOrder = firsts p.definitions ∧
      (∀ name d, collected.scope.pending? name = some d ↔
        d ∈ firsts p.definitions ∧ d.name.text = name) ∧
      collected.issues.flatMap Issue.diagnostics = inTurn Definition.clashes p.definitions ∧
      (collected.complete = true ↔ ∀ r ∈ collected.issues.flatMap Issue.diagnostics,
        r.code ≠ some .redeclaration ∧ r.code ≠ some .builtinClash) ∧
      ∀ report : Report, ∃ result later, report.resolve p = .ok result ∧
        result.2.records = report.records ++ inTurn Definition.clashes p.definitions ++ later := by
  refine ⟨_, Scope.collect_eq p.definitions, pendingInOrder_firsts _, fun name d => ?_,
    diagnostics_refusals _, refusals_isEmpty_iff, fun report => ?_⟩
  · constructor
    · intro found
      exact ⟨List.mem_of_find?_eq_some found, by simpa using List.find?_some found⟩
    · rintro ⟨mem, rfl⟩
      exact find?_of_nodup (fun e : Definition => e.name.text) (distinct_firsts _).nodup mem
  · obtain ⟨collected, resolved, hc, hr, settled, -⟩ := p.exists_passes
    obtain rfl := Except.ok.inj ((Scope.collect_eq p.definitions).symm.trans hc)
    have run : p.resolve = .ok ⟨(refusals [] p.definitions).isEmpty && resolved.complete,
        resolved.scope.symbols, refusals [] p.definitions ++ resolved.issues⟩ := by
      rw [resolve, hc, ok_bind, hr, ok_bind, Scope.finish, settled]
      rfl
    rw [Report.resolve, run]
    refine ⟨_, resolved.issues.flatMap Issue.diagnostics, rfl, ?_⟩
    rw [Report.records_pushAll, List.flatMap_append, diagnostics_refusals, List.append_assoc]

end ConstLang
