import ConstLang.Proofs.Resolution.Calls

/-!
# Tables and scopes

A table answers as a scope does: from the built-in types on, the same calls break the same
contracts, and each name is found with the same meaning. So what calls leave in a scope they leave
in a table. Both lists of a table are the calls themselves, in order; a definition that is pending
is listed in that order, but once more for each time that its name was deferred before.
-/

namespace ConstLang

namespace Scope

variable {s : Scope} {symbols : Symbols} {queue : List String}

theorem pending?_append {d : Definition} (unknown : s.pending? d.name.text = none)
    (name : String) : pending? ⟨symbols, s.pending ++ [d], queue⟩ name =
      if d.name.text = name then some d else s.pending? name := by
  unfold pending? at unknown ⊢
  rw [List.find?_append]
  by_cases same : d.name.text = name
  · subst same
    simp [unknown]
  · simp [same]

theorem resolved?_append {v : Variable} {pending : List Definition}
    (unresolved : s.resolved? v.name.text = none) (name : String) :
    resolved? ⟨⟨s.symbols.vars ++ [v]⟩, pending, queue⟩ name =
      if v.name.text = name then some (.declared v) else s.resolved? name := by
  change Symbols.get? ⟨s.symbols.vars ++ [v]⟩ name = _
  rw [Symbols.get?_append_eq]
  by_cases same : v.name.text = name
  · subst same
    rw [resolved?] at unresolved
    simp [unresolved]
  · simp [same, resolved?]

end Scope

namespace Indexed.Table

/-- A table finds each name as a scope does. -/
structure Represents (t : Table) (s : Scope) : Prop where
  resolved : ∀ name, t.resolved[name]? = s.resolved? name
  unresolved : ∀ name, t.unresolved[name]? = s.pending? name
  order : t.order = s.queue
  vars : t.vars = s.symbols.vars.map (·.name.text)

/-- Both break the same contract, or neither breaks one. -/
inductive Agrees : Except Fault Table → Except Fault Scope → Prop
  | fault (fault : Fault) : Agrees (.error fault) (.error fault)
  | ok {t : Table} {s : Scope} : t.Represents s → Agrees (.ok t) (.ok s)

theorem represents_builtins : builtins.Represents .builtins where
  resolved name := by
    unfold Scope.resolved? Symbols.get?
    cases known : Scalar.ofName? name with
    | some type =>
      obtain rfl := Scalar.name_of_ofName? known
      exact Std.HashMap.getElem?_ofList_of_mem (by simp) (by decide)
        (List.mem_map.2 ⟨type, List.mem_of_find?_eq_some known, rfl⟩)
    | none =>
      have unlisted := List.find?_eq_none.1 known
      exact Std.HashMap.getElem?_ofList_of_contains_eq_false (by simpa using unlisted)
  unresolved name := Std.HashMap.getElem?_empty
  order := rfl
  vars := rfl

namespace Represents

variable {t : Table} {s : Scope} (h : t.Represents s)

include h

theorem contains_resolved (name : String) :
    t.resolved.contains name = (s.resolved? name).isSome := by
  rw [Std.HashMap.contains_eq_isSome_getElem?, h.resolved]

theorem contains_unresolved (name : String) :
    t.unresolved.contains name = (s.pending? name).isSome := by
  rw [Std.HashMap.contains_eq_isSome_getElem?, h.unresolved]

theorem defer (d : Definition) : Agrees (t.defer d) (s.defer d) := by
  unfold Table.defer Scope.defer
  simp only [h.contains_resolved, h.contains_unresolved]
  split
  · exact .fault _
  · next fresh =>
    obtain ⟨-, unknown⟩ : s.resolved? d.name.text = none ∧ s.pending? d.name.text = none := by
      simpa using fresh
    refine .ok ⟨h.resolved, fun name => ?_, by rw [h.order], h.vars⟩
    rw [Std.HashMap.getElem?_insert, h.unresolved, Scope.pending?_append unknown]
    simp only [beq_iff_eq]

theorem settle (name : String) : Agrees (t.settle name) (s.settle name) := by
  unfold Table.settle Scope.settle
  simp only [h.contains_unresolved]
  split
  · refine .ok ⟨h.resolved, fun other => ?_, h.order, h.vars⟩
    rw [Std.HashMap.getElem?_erase, h.unresolved, Scope.pending?_filter]
    simp only [beq_iff_eq]
  · exact .fault _

theorem insert (v : Variable) : Agrees (t.insert v) (s.insert v) := by
  unfold Table.insert Scope.insert
  simp only [h.contains_resolved, h.contains_unresolved]
  split
  · exact .fault _
  · split
    · exact .fault _
    · next fresh =>
      have unresolved : s.resolved? v.name.text = none := by simpa using fresh
      refine .ok ⟨fun name => ?_, h.unresolved, h.order, by rw [h.vars, List.map_append]; rfl⟩
      rw [Std.HashMap.getElem?_insert, h.resolved, Scope.resolved?_append unresolved]
      simp only [beq_iff_eq]

theorem call : ∀ c : Call, Agrees (t.call c) (s.call c)
  | .defer d => h.defer d
  | .settle name => h.settle name
  | .insert v => h.insert v

theorem pendingInOrder_eq : t.pendingInOrder = s.pendingInOrder := by
  unfold pendingInOrder Scope.pendingInOrder
  rw [h.order]
  exact List.filterMap_congr fun name _ => h.unresolved name

end Represents

theorem Agrees.bind {x : Except Fault Table} {y : Except Fault Scope}
    {f : Table → Except Fault Table} {g : Scope → Except Fault Scope} (h : Agrees x y)
    (next : ∀ {t s}, t.Represents s → Agrees (f t) (g s)) : Agrees (x >>= f) (y >>= g) := by
  cases h with
  | fault fault => exact .fault fault
  | ok represents => exact next represents

theorem Agrees.exists_scope {t : Table} {y : Except Fault Scope} (h : Agrees (.ok t) y) :
    ∃ s, y = .ok s ∧ t.Represents s := by
  cases h with
  | ok represents => exact ⟨_, rfl, represents⟩

theorem Agrees.exists_table {x : Except Fault Table} {s : Scope} (h : Agrees x (.ok s)) :
    ∃ t, x = .ok t ∧ t.Represents s := by
  cases h with
  | ok represents => exact ⟨_, rfl, represents⟩

theorem Represents.run {t : Table} {s : Scope} (h : t.Represents s) (calls : List Call) :
    Agrees (t.run calls) (s.run calls) := by
  induction calls generalizing t s with
  | nil => exact .ok h
  | cons c calls ih =>
    unfold Table.run Scope.run
    rw [List.foldlM_cons, List.foldlM_cons]
    exact (h.call c).bind ih

/-- Calls break the same contract in a table and in a scope, or they lead to both. -/
theorem agrees_run (calls : List Call) : Agrees (builtins.run calls) (Scope.builtins.run calls) :=
  represents_builtins.run calls

/-- What calls leave in a table. A name has a meaning or is pending, not both; built-in types and
inserted variables keep their meanings. What is pending is what was deferred and not settled. It is
listed in that order, but at each place at which its name was deferred: so the list is exact where
no name that is pending was deferred before. -/
structure After (calls : List Call) (t : Table) : Prop where
  apart : ∀ name, name ∈ t.resolved → name ∉ t.unresolved
  resolved : ∀ name symbol, t.resolved[name]? = some symbol ↔
    (∃ type : Scalar, type.name = name ∧ symbol = .builtin type) ∨
      ∃ v ∈ Call.inserted calls, v.name.text = name ∧ symbol = .declared v
  vars : t.vars = (Call.inserted calls).map (·.name.text)
  vars_nodup : t.vars.Nodup
  unresolved : ∀ name d,
    t.unresolved[name]? = some d ↔ d ∈ Call.pending calls ∧ d.name.text = name
  pending_nodup : ((Call.pending calls).map (·.name.text)).Nodup
  mem_pendingInOrder : ∀ d, d ∈ t.pendingInOrder ↔ d ∈ Call.pending calls
  names_pendingInOrder : t.pendingInOrder.map (·.name.text) =
    (Call.deferred calls).filter (· ∈ (Call.pending calls).map (·.name.text))
  pendingInOrder_eq_iff : t.pendingInOrder = Call.pending calls ↔
    ∀ d ∈ Call.pending calls, (Call.deferred calls).count d.name.text = 1

theorem Represents.after {t : Table} {s : Scope} {calls : List Call} (h : t.Represents s)
    (left : s.After calls) : t.After calls where
  apart name resolved unresolved := by
    rw [Std.HashMap.mem_iff_isSome_getElem?] at resolved unresolved
    rw [h.resolved] at resolved
    rw [h.unresolved] at unresolved
    obtain ⟨d, mem, rfl⟩ := List.mem_map.1 (Scope.isSome_pending?.1 unresolved)
    simp [left.apart d mem] at resolved
  resolved name symbol := by
    rw [h.resolved, ← left.vars]
    exact left.distinct.get?_eq_some_iff
  vars := by rw [h.vars, left.vars]
  vars_nodup := h.vars ▸ left.distinct.nodup
  unresolved name d := by rw [h.unresolved, left.pending?_eq_some_iff, left.pending]
  pending_nodup := left.pending ▸ left.pending_nodup
  mem_pendingInOrder d := by
    rw [h.pendingInOrder_eq, left.mem_pendingInOrder, left.pending]
  names_pendingInOrder := by
    rw [h.pendingInOrder_eq, left.names_pendingInOrder, left.pending, left.queue]
  pendingInOrder_eq_iff := by
    rw [h.pendingInOrder_eq, ← left.pending, ← left.queue, left.pendingInOrder_eq_iff]

/-- Calls break the same contract in a table and in a scope. After each of them, up to the first
that breaks one, both find the same names, and those are the names that the calls so far leave. -/
theorem run_exact (calls more : List Call) :
    Agrees (builtins.run calls) (Scope.builtins.run calls) ∧
    ∀ last, builtins.run (calls ++ more) = .ok last →
      ∃ t, builtins.run calls = .ok t ∧ t.After calls := by
  refine ⟨agrees_run calls, fun last run => ?_⟩
  rw [Table.run, List.foldlM_append] at run
  obtain ⟨t, run, -⟩ := bind_eq_ok.1 run
  have run : builtins.run calls = .ok t := run
  have agrees := agrees_run calls
  rw [run] at agrees
  obtain ⟨s, made, represents⟩ := agrees.exists_scope
  exact ⟨t, run, represents.after (.run made)⟩

/-! `b` is deferred between the two times that `a` is. -/

namespace Requeued

open Redefined

def variableC : Variable :=
  ⟨⟨"c", origin⟩, .i4, .leaf origin ⟨.metatype, some (.type (.scalar .i4))⟩,
    .literal five origin, .leaf origin ⟨.scalar .i4, some (.number (.ofInt 5))⟩,
    ⟨.scalar .i4, some (.number (.ofInt 5))⟩⟩

def calls : List Call :=
  [.defer failed, .settle "a", .defer other, .insert variableC, .defer again]

end Requeued

open Redefined Requeued in
theorem run_exact_requeued :
    ∃ last t, builtins.run (calls ++ [.settle "a"]) = .ok last ∧ builtins.run calls = .ok t ∧
      t.resolved["c"]? = some (.declared variableC) ∧ t.vars = ["c"] ∧
      Call.pending calls = [other, again] ∧
      t.pendingInOrder.map (·.name.text) = ["a", "b", "a"] := by
  obtain ⟨s, made⟩ : ∃ s, Scope.builtins.run (calls ++ [.settle "a"]) = .ok s := ⟨_, rfl⟩
  have agrees := agrees_run (calls ++ [Call.settle "a"])
  rw [made] at agrees
  obtain ⟨last, run, -⟩ := agrees.exists_table
  obtain ⟨t, before, left⟩ := (run_exact calls [.settle "a"]).2 last run
  refine ⟨last, t, run, before, ?_, ?_, by decide +kernel, ?_⟩
  · exact (left.resolved "c" _).2 (.inr ⟨variableC, by decide +kernel, rfl, rfl⟩)
  · rw [left.vars]
    decide +kernel
  · rw [left.names_pendingInOrder]
    decide +kernel

end Indexed.Table

end ConstLang
