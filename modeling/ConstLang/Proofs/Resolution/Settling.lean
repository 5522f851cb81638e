import ConstLang.Proofs.Resolution.Collection

/-!
# The second pass

The second pass settles the definitions that the first one kept, one after the other. Each of them
is resolved in the scope behind those before it, which is the only one it is ever resolved in
(`Program.visits_iff_eq`), and every issue of a resolution comes from a definition that was refused
or from one that was resolved (`Program.mem_issues_iff`).
-/

namespace ConstLang

namespace Pass

/-- The pass behind a definition that is settled. -/
def next (p : Pass) (d : Definition) : Pass :=
  let outcome := p.scope.define d
  { scope :=
      { symbols := ⟨p.scope.symbols.vars ++ outcome.result.toList⟩
        pending := p.scope.pending.filter fun e => e.name.text ≠ d.name.text
        queue := p.scope.queue }
    complete := p.complete && outcome.result.isSome
    issues := p.issues ++ outcome.issues }

@[simp] theorem vars_next (p : Pass) (d : Definition) :
    (p.next d).scope.symbols.vars =
      p.scope.symbols.vars ++ (p.scope.define d).result.toList := rfl

@[simp] theorem complete_next (p : Pass) (d : Definition) :
    (p.next d).complete = (p.complete && (p.scope.define d).result.isSome) := rfl

@[simp] theorem issues_next (p : Pass) (d : Definition) :
    (p.next d).issues = p.issues ++ (p.scope.define d).issues := rfl

theorem eq_next_of_resolve {p q : Pass} {d : Definition} (h : p.resolve d = .ok q) :
    q = p.next d := by
  rcases eq_of_resolve h with ⟨v, hv, rfl⟩ | ⟨hv, rfl⟩ <;> simp [next, hv]

theorem eq_foldl_next {p q : Pass} {ds : List Definition} (h : ds.foldlM resolve p = .ok q) :
    q = ds.foldl next p := by
  induction ds generalizing p with
  | nil => exact (Except.ok.inj h).symm
  | cons d ds ih =>
    rw [List.foldlM_cons] at h
    obtain ⟨p', hp', h⟩ := bind_eq_ok.1 h
    rw [List.foldl_cons, ← eq_next_of_resolve hp']
    exact ih h

/-- A name has the meaning that it had, and else that of the definition. -/
theorem resolved?_next (p : Pass) (d : Definition) (name : String) :
    (p.next d).scope.resolved? name =
      (p.scope.resolved? name).or
        (if d.name.text = name then (p.scope.define d).result.map .declared else none) := by
  have added : ((p.scope.define d).result.toList.find? fun v => v.name.text = name) =
      if d.name.text = name then (p.scope.define d).result else none := by
    cases hv : (p.scope.define d).result with
    | none => simp
    | some v =>
      have named := Interpreter.name_of_define? ((Scope.result_define _ _).symm.trans hv)
      by_cases hn : d.name.text = name <;> simp [named, hn]
  unfold Scope.resolved? next
  rw [Symbols.get?_append_eq, added]
  split <;> rfl

theorem pending?_next (p : Pass) (d : Definition) (name : String) :
    (p.next d).scope.pending? name =
      if d.name.text = name then none else p.scope.pending? name :=
  Scope.pending?_filter d.name.text name

/-- A run over definitions with names of their own settles each of them, and gets ready for those
that are left. -/
theorem foldlM_resolve_ready {p : Pass} {ds rest : List Definition}
    (h : p.scope.Ready (ds ++ rest)) :
    ds.foldlM resolve p = .ok (ds.foldl next p) ∧ (ds.foldl next p).scope.Ready rest := by
  induction ds generalizing p with
  | nil => exact ⟨rfl, h⟩
  | cons d ds ih =>
    obtain ⟨q, hq, ready, -⟩ := resolve_ready h
    obtain rfl := eq_next_of_resolve hq
    rw [List.foldlM_cons, hq, ok_bind]
    exact ih ready

/-- What is reported in a run is what its definitions report, each in the scope behind those before
it. -/
theorem mem_issues_foldl_next {p : Pass} {ds : List Definition} {i : Issue} :
    i ∈ (ds.foldl next p).issues ↔ i ∈ p.issues ∨ ∃ front d back, ds = front ++ d :: back ∧
      i ∈ ((front.foldl next p).scope.define d).issues := by
  induction ds generalizing p with
  | nil => simp
  | cons d ds ih =>
    rw [List.foldl_cons, ih, issues_next, List.mem_append, or_assoc]
    refine or_congr_right ⟨?_, ?_⟩
    · rintro (here | ⟨front, e, back, rfl, later⟩)
      · exact ⟨[], d, ds, rfl, here⟩
      · exact ⟨d :: front, e, back, rfl, later⟩
    · rintro ⟨front, e, back, split, said⟩
      cases front with
      | nil =>
        obtain ⟨rfl, rfl⟩ := List.cons.inj split
        exact .inl said
      | cons f front =>
        obtain ⟨rfl, rfl⟩ := List.cons.inj split
        exact .inr ⟨front, e, back, rfl, said⟩

end Pass

/-- Resolution without faults: what was refused, and then the definitions that were kept. -/
theorem Program.resolve_eq (p : Program) :
    let ks := p.definitions.foldl keep []
    let said := refusals [] p.definitions
    let settled := ks.foldl Pass.next (Pass.start (.deferred ks))
    p.resolve = .ok ⟨said.isEmpty && settled.complete, settled.scope.symbols,
      said ++ settled.issues⟩ := by
  intro ks said settled
  obtain ⟨collected, resolved, hc, hr, pending, -⟩ := p.exists_passes
  have first := Pass.foldlM_collect_eq (rfl : (Pass.start .builtins).scope = .deferred [])
    p.definitions
  obtain rfl := Except.ok.inj (hc.symm.trans first)
  have order : (Scope.deferred ks).pendingInOrder = ks :=
    pendingInOrder_deferred (Distinct.empty.foldl_keep p.definitions).nodup
  have second := hr
  rw [Scope.resolvePending, order] at second
  obtain rfl := Pass.eq_foldl_next second
  unfold resolve Scope.finish
  rw [hc, ok_bind, hr, ok_bind, pending]
  rfl

/-! ## The scope of a definition -/

namespace Program

variable {p : Program} {before after : List Definition} {d : Definition} {s : Scope}

/-- The pass behind some of the definitions that were kept. -/
def behind (p : Program) (before : List Definition) : Pass :=
  before.foldl Pass.next (Pass.start (.deferred (firsts p.definitions)))

theorem behind_append (p : Program) (before : List Definition) (d : Definition) :
    p.behind (before ++ [d]) = (p.behind before).next d := by
  simp [behind]

theorem start_ready (p : Program) :
    (Pass.start (.deferred (firsts p.definitions))).scope.Ready (firsts p.definitions) := by
  have distinct := distinct_firsts p.definitions
  refine ⟨rfl, distinct.nodup, fun d hd => ?_⟩
  exact Scope.resolved?_eq_none_iff.2 ⟨distinct.free d hd, List.not_mem_nil⟩

/-- The definitions before some others are settled without a fault, and the others can be. -/
theorem settles_behind (h : firsts p.definitions = before ++ after) :
    before.foldlM Pass.resolve (Pass.start (.deferred (firsts p.definitions))) =
      .ok (p.behind before) ∧ (p.behind before).scope.Ready after := by
  refine Pass.foldlM_resolve_ready ?_
  rw [← h]
  exact p.start_ready

/-- A definition is resolved in the scope behind those before it. -/
theorem visits_iff : p.Visits s d ↔ ∃ before after, firsts p.definitions = before ++ d :: after ∧
    s = (p.behind before).scope := by
  constructor
  · rintro ⟨collected, before, after, pass, hc, split, run, rfl⟩
    obtain rfl := Except.ok.inj ((Scope.collect_eq _).symm.trans hc)
    rw [pendingInOrder_firsts] at split
    exact ⟨before, after, split, by rw [Pass.eq_foldl_next run, behind]⟩
  · rintro ⟨before, after, split, rfl⟩
    exact ⟨_, before, after, _, Scope.collect_eq _, (pendingInOrder_firsts _).trans split,
      (settles_behind split).1, rfl⟩

/-- There is one scope in which a definition is resolved. -/
theorem visits_iff_eq (h : firsts p.definitions = before ++ d :: after) :
    p.Visits s d ↔ s = (p.behind before).scope := by
  refine ⟨fun visits => ?_, fun same => visits_iff.2 ⟨before, after, h, same⟩⟩
  obtain ⟨front, back, split, rfl⟩ := visits_iff.1 visits
  have distinct : (before ++ d :: after).Nodup := h ▸ (distinct_firsts _).nodup.of_map
  obtain ⟨apart, -⟩ := List.nodup_cons.1 (List.nodup_middle.1 distinct)
  rw [List.mem_append, not_or] at apart
  obtain ⟨rfl, -, -⟩ := (List.append_cons_inj_of_notMem apart.1 apart.2).1 (h.symm.trans split)
  rfl

/-- Every issue comes from a definition that was refused, or from one that was resolved. -/
theorem mem_issues_iff {r : Resolution} (h : p.resolve = .ok r) {i : Issue} :
    i ∈ r.issues ↔
      i ∈ refusals [] p.definitions ∨ ∃ s d, p.Visits s d ∧ i ∈ (s.define d).issues := by
  have run := p.resolve_eq
  rw [foldl_keep_eq_firsts] at run
  obtain rfl := Except.ok.inj (run.symm.trans h)
  rw [List.mem_append, Pass.mem_issues_foldl_next]
  refine or_congr_right ⟨?_, ?_⟩
  · rintro (early | ⟨before, d, after, split, said⟩)
    · contradiction
    · exact ⟨_, d, visits_iff.2 ⟨before, after, split, rfl⟩, said⟩
  · rintro ⟨s, d, visits, said⟩
    obtain ⟨before, after, split, rfl⟩ := visits_iff.1 visits
    exact .inr ⟨before, d, after, split, said⟩

end Program

end ConstLang
