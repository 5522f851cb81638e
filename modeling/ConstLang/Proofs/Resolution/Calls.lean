import ConstLang.Indexed.Table
import ConstLang.Proofs.Resolution.Typing
import Mathlib.Data.List.Induction
import Mathlib.Data.List.Nodup
import Mathlib.Data.List.Perm.Subperm

/-!
# Scopes under any calls

The names of a scope after calls in any order that break no contract. The calls alone say which
definitions are pending, which names were deferred and which variables were inserted; the scope
agrees with them. Only the pending order does not always: a name that was settled and is deferred
again has two places in it.
-/

namespace ConstLang

namespace Call

/-- The name that a call defers. -/
def deferred? : Call → Option String
  | defer d => some d.name.text
  | _ => none

/-- The variable that a call inserts. -/
def inserted? : Call → Option Variable
  | insert v => some v
  | _ => none

/-- The names that calls defer, again where they are deferred again. -/
def deferred (calls : List Call) : List String := calls.filterMap deferred?

/-- The variables that calls insert. -/
def inserted (calls : List Call) : List Variable := calls.filterMap inserted?

/-- The definitions that calls defer and do not settle later. -/
def pending : List Call → List Definition
  | [] => []
  | defer d :: calls =>
    if settle d.name.text ∈ calls then pending calls else d :: pending calls
  | _ :: calls => pending calls

variable {calls : List Call}

theorem deferred_append (calls more : List Call) :
    deferred (calls ++ more) = deferred calls ++ deferred more := List.filterMap_append

theorem inserted_append (calls more : List Call) :
    inserted (calls ++ more) = inserted calls ++ inserted more := List.filterMap_append

/-- Calls that settle nothing leave what was pending before them. -/
theorem pending_append {more : List Call} (kept : ∀ name, settle name ∉ more) (calls : List Call) :
    pending (calls ++ more) = pending calls ++ pending more := by
  induction calls with
  | nil => rfl
  | cons call calls ih =>
    cases call with
    | defer d => by_cases settled : settle d.name.text ∈ calls <;> simp [pending, settled, kept, ih]
    | settle name => exact ih
    | insert v => exact ih

theorem pending_settle (calls : List Call) (name : String) :
    pending (calls ++ [settle name]) = (pending calls).filter fun d => d.name.text ≠ name := by
  induction calls with
  | nil => rfl
  | cons call calls ih =>
    cases call with
    | defer d =>
      by_cases settled : settle d.name.text ∈ calls
      · simp [pending, settled, ih]
      · by_cases same : d.name.text = name
        · subst same
          simp [pending, settled, ih]
        · simp [pending, settled, same, ih]
    | settle name => exact ih
    | insert v => exact ih

end Call

namespace Scope

/-- What a scope holds after calls: what is pending, the names that were deferred and the variables
that were inserted. Names with a meaning are apart from those that are pending. -/
structure After (calls : List Call) (s : Scope) : Prop where
  pending : s.pending = Call.pending calls
  queue : s.queue = Call.deferred calls
  vars : s.symbols.vars = Call.inserted calls
  pending_nodup : (s.pending.map (·.name.text)).Nodup
  pending_sublist : (s.pending.map (·.name.text)).Sublist s.queue
  distinct : s.symbols.Distinct
  apart : ∀ d ∈ s.pending, s.resolved? d.name.text = none

variable {s t : Scope} {calls : List Call}

theorem After.start : After [] builtins where
  pending := rfl
  queue := rfl
  vars := rfl
  pending_nodup := List.nodup_nil
  pending_sublist := .slnil
  distinct := ⟨List.nodup_nil, by simp [builtins]⟩
  apart := by simp [builtins]

theorem After.defer {d : Definition} (h : After calls s) (step : s.defer d = .ok t) :
    After (calls ++ [.defer d]) t := by
  obtain ⟨resolved, unknown, rfl⟩ := defer_eq_ok_iff.1 step
  have new := pending?_eq_none_iff.1 unknown
  exact {
    pending := by
      rw [Call.pending_append (by simp), h.pending]
      rfl
    queue := by
      rw [Call.deferred_append, h.queue]
      rfl
    vars := by
      rw [Call.inserted_append, h.vars]
      simp [Call.inserted, Call.inserted?]
    pending_nodup := by simpa [List.nodup_append, h.pending_nodup] using new
    pending_sublist := by
      rw [List.map_append]
      exact h.pending_sublist.append (.refl _)
    distinct := h.distinct
    apart := by
      intro e mem
      rcases List.mem_append.1 mem with old | old
      · exact h.apart e old
      · obtain rfl := List.mem_singleton.1 old
        exact resolved }

theorem After.settle {name : String} (h : After calls s) (step : s.settle name = .ok t) :
    After (calls ++ [.settle name]) t := by
  obtain ⟨-, rfl⟩ := settle_eq_ok_iff.1 step
  have fewer : ((s.pending.filter fun d => d.name.text ≠ name).map (·.name.text)).Sublist
      (s.pending.map (·.name.text)) := List.filter_sublist.map _
  exact {
    pending := by rw [Call.pending_settle, h.pending]
    queue := by
      rw [Call.deferred_append, h.queue]
      simp [Call.deferred, Call.deferred?]
    vars := by
      rw [Call.inserted_append, h.vars]
      simp [Call.inserted, Call.inserted?]
    pending_nodup := h.pending_nodup.sublist fewer
    pending_sublist := fewer.trans h.pending_sublist
    distinct := h.distinct
    apart := fun d mem => h.apart d (List.mem_of_mem_filter mem) }

theorem After.insert {v : Variable} (h : After calls s) (step : s.insert v = .ok t) :
    After (calls ++ [.insert v]) t := by
  obtain ⟨unknown, unresolved, rfl⟩ := insert_eq_ok_iff.1 step
  obtain ⟨free, new⟩ := resolved?_eq_none_iff.1 unresolved
  exact {
    pending := by
      rw [Call.pending_append (by simp), h.pending]
      simp [Call.pending]
    queue := by
      rw [Call.deferred_append, h.queue]
      simp [Call.deferred, Call.deferred?]
    vars := by
      rw [Call.inserted_append, h.vars]
      rfl
    pending_nodup := h.pending_nodup
    pending_sublist := h.pending_sublist
    distinct := by
      refine ⟨by simpa [List.nodup_append, h.distinct.nodup] using new, fun w mem => ?_⟩
      rcases List.mem_append.1 mem with old | old
      · exact h.distinct.free w old
      · obtain rfl := List.mem_singleton.1 old
        exact free
    apart := by
      intro d mem
      obtain ⟨builtin, old⟩ := resolved?_eq_none_iff.1 (h.apart d mem)
      have known : d.name.text ∈ s.pending.map (·.name.text) := List.mem_map_of_mem mem
      have other := ne_of_mem_of_not_mem known (pending?_eq_none_iff.1 unknown)
      exact resolved?_eq_none_iff.2 ⟨builtin, by simpa [other] using old⟩ }

theorem After.run (run : builtins.run calls = .ok s) : After calls s := by
  -- From the end, because a call is made in the scope that those before it lead to.
  induction calls using List.reverseRecOn generalizing s with
  | nil =>
    obtain rfl := Except.ok.inj run
    exact .start
  | append_singleton calls last ih =>
    rw [Scope.run, List.foldlM_append] at run
    obtain ⟨before, made, step⟩ := bind_eq_ok.1 run
    have step : before.call last = .ok s := by simpa using step
    cases last with
    | defer d => exact (ih made).defer step
    | settle name => exact (ih made).settle step
    | insert v => exact (ih made).insert step

/-! ## The pending order -/

namespace After

variable {d : Definition} {name : String} (h : After calls s)

include h

theorem pending?_eq_some_iff : s.pending? name = some d ↔ d ∈ s.pending ∧ d.name.text = name := by
  constructor
  · intro found
    exact ⟨List.mem_of_find?_eq_some found, by simpa using List.find?_some found⟩
  · rintro ⟨mem, rfl⟩
    exact find?_of_nodup (fun e : Definition => e.name.text) h.pending_nodup mem

theorem mem_pendingInOrder : d ∈ s.pendingInOrder ↔ d ∈ s.pending := by
  simp only [pendingInOrder, List.mem_filterMap, h.pending?_eq_some_iff]
  constructor
  · rintro ⟨-, -, mem, -⟩
    exact mem
  · intro mem
    exact ⟨_, h.pending_sublist.subset (List.mem_map_of_mem mem), mem, rfl⟩

/-- A pending definition is listed once for each time that its name was deferred. -/
theorem count_pendingInOrder (mem : d ∈ s.pending) :
    s.pendingInOrder.count d = s.queue.count d.name.text := by
  rw [pendingInOrder, List.count_filterMap, List.count_eq_countP]
  refine List.countP_congr fun name _ => ?_
  rw [beq_iff_eq, beq_iff_eq, h.pending?_eq_some_iff]
  exact ⟨fun found => found.2.symm, fun same => ⟨mem, same.symm⟩⟩

/-- Other places of a name do not put the pending definitions out of order. -/
theorem sublist_pendingInOrder : s.pending.Sublist s.pendingInOrder := by
  have found : (s.pending.map (·.name.text)).filterMap s.pending? = s.pending := by
    rw [List.filterMap_map]
    refine (List.filterMap_congr fun d mem => ?_).trans List.filterMap_some
    exact h.pending?_eq_some_iff.2 ⟨mem, rfl⟩
  have sub := h.pending_sublist.filterMap s.pending?
  rwa [found] at sub

theorem names_pendingInOrder : s.pendingInOrder.map (·.name.text) =
    s.queue.filter (· ∈ s.pending.map (·.name.text)) := by
  rw [pendingInOrder, List.map_filterMap, ← List.filterMap_eq_filter]
  refine List.filterMap_congr fun name _ => ?_
  cases found : s.pending? name with
  | none => simpa [Option.guard] using pending?_eq_none_iff.1 found
  | some d =>
    obtain ⟨mem, rfl⟩ := h.pending?_eq_some_iff.1 found
    exact (Option.guard_eq_some_iff.2 ⟨rfl, by simpa using ⟨d, mem, rfl⟩⟩).symm

theorem pendingInOrder_eq_iff :
    s.pendingInOrder = s.pending ↔ ∀ d ∈ s.pending, s.queue.count d.name.text = 1 := by
  have nodup : s.pending.Nodup := h.pending_nodup.of_map _
  constructor
  · intro same d mem
    rw [← h.count_pendingInOrder mem, same]
    exact List.count_eq_one_of_mem nodup mem
  · intro once
    -- Then the list repeats nothing, and has no more in it than the pending ones that it contains.
    have listed : s.pendingInOrder.Nodup := by
      refine List.nodup_iff_count_eq_one.2 fun d mem => ?_
      have mem := h.mem_pendingInOrder.1 mem
      rw [h.count_pendingInOrder mem, once d mem]
    have fewer : s.pendingInOrder.Subperm s.pending :=
      listed.subperm fun d mem => h.mem_pendingInOrder.1 mem
    exact (h.sublist_pendingInOrder.eq_of_length_le fewer.length_le).symm

end After

end Scope

end ConstLang
