import ConstLang.Resolution

/-!
# Runs of the resolver

What one step of a pass does to the scope, and how a property of one step becomes one of a run.
`Program.Visits` says that a definition of a program is resolved in a scope, and `Program.Reaches`
that a run goes through a scope.
-/

namespace ConstLang

/-- What every step over the elements of a list keeps is kept by a run over the list. -/
theorem foldlM_invariant_of_mem {ε α β : Type} {P : β → Prop} {f : β → α → Except ε β}
    {as : List α} (step : ∀ {b a c}, a ∈ as → P b → f b a = .ok c → P c) {b c : β}
    (h : as.foldlM f b = .ok c) (hb : P b) : P c := by
  induction as generalizing b with
  | nil =>
    obtain rfl := Except.ok.inj h
    exact hb
  | cons a as ih =>
    rw [List.foldlM_cons] at h
    obtain ⟨b', hb', h⟩ := bind_eq_ok.1 h
    exact ih (fun ha => step (List.mem_cons_of_mem _ ha)) h (step List.mem_cons_self hb hb')

/-- What every step keeps is kept by a run. -/
theorem foldlM_invariant {ε α β : Type} {P : β → Prop} {f : β → α → Except ε β}
    (step : ∀ {b a c}, P b → f b a = .ok c → P c) {as : List α} {b c : β}
    (h : as.foldlM f b = .ok c) (hb : P b) : P c :=
  foldlM_invariant_of_mem (fun _ => step) h hb

/-- Where keys are distinct, the first element with a key is the only one. -/
theorem find?_of_nodup {α β : Type} [DecidableEq β] (key : α → β) {as : List α} {a : α}
    (h : (as.map key).Nodup) (mem : a ∈ as) : as.find? (fun b => key b = key a) = some a := by
  obtain ⟨before, after, rfl⟩ := List.append_of_mem mem
  refine List.find?_eq_some_iff_append.2 ⟨by simp, before, after, rfl, fun b hb => ?_⟩
  rw [List.map_append, List.nodup_append] at h
  simpa using h.2.2 _ (List.mem_map_of_mem hb) (key a) (by simp)

/-- A name has the meaning that it had, and else that of a variable that is added. -/
theorem Symbols.get?_append_eq (vars more : List Variable) (name : String) :
    (Symbols.mk (vars ++ more)).get? name =
      ((Symbols.mk vars).get? name).or
        ((more.find? fun v => v.name.text = name).map .declared) := by
  unfold get?
  cases Scalar.ofName? name with
  | some builtin => rfl
  | none =>
    rw [List.find?_append]
    cases vars.find? fun v => v.name.text = name <;> rfl

/-- The other names are pending as before. -/
theorem Scope.pending?_filter {s : Scope} {symbols : Symbols} {queue : List String}
    (settled name : String) :
    pending? ⟨symbols, s.pending.filter fun d => d.name.text ≠ settled, queue⟩ name =
      if settled = name then none else s.pending? name := by
  unfold pending?
  rw [List.find?_filter]
  split
  · next same => simp [same]
  · next other =>
    congr 1
    funext d
    by_cases named : d.name.text = name
    · simp [named, Ne.symm other]
    · simp [named]

theorem Scope.defer_eq_ok_iff {s t : Scope} {d : Definition} :
    s.defer d = .ok t ↔ s.resolved? d.name.text = none ∧ s.pending? d.name.text = none ∧
      t = { s with pending := s.pending ++ [d], queue := s.queue ++ [d.name.text] } := by
  cases hr : s.resolved? d.name.text <;> cases hp : s.pending? d.name.text <;>
    simp [defer, hr, hp]
  exact eq_comm

theorem Scope.settle_eq_ok_iff {s t : Scope} {name : String} :
    s.settle name = .ok t ↔ (s.pending? name).isSome = true ∧
      t = { s with pending := s.pending.filter fun d => d.name.text ≠ name } := by
  cases hp : s.pending? name <;> simp [settle, hp]
  exact eq_comm

theorem Scope.insert_eq_ok_iff {s t : Scope} {v : Variable} :
    s.insert v = .ok t ↔ s.pending? v.name.text = none ∧ s.resolved? v.name.text = none ∧
      t = { s with symbols := ⟨s.symbols.vars ++ [v]⟩ } := by
  cases hp : s.pending? v.name.text <;> cases hr : s.resolved? v.name.text <;>
    simp [insert, hp, hr]
  exact eq_comm

theorem Scope.eq_of_settle {s t : Scope} {name : String} (h : s.settle name = .ok t) :
    t = { s with pending := s.pending.filter fun d => d.name.text ≠ name } :=
  (settle_eq_ok_iff.1 h).2

theorem Scope.eq_of_insert {s t : Scope} {v : Variable} (h : s.insert v = .ok t) :
    t = { s with symbols := ⟨s.symbols.vars ++ [v]⟩ } :=
  (insert_eq_ok_iff.1 h).2.2

theorem Scope.eq_of_defer {s t : Scope} {d : Definition} (h : s.defer d = .ok t) :
    t = { s with pending := s.pending ++ [d], queue := s.queue ++ [d.name.text] } :=
  (defer_eq_ok_iff.1 h).2.2

theorem Scope.eq_of_finish {s : Scope} {symbols : Symbols} (h : s.finish = .ok symbols) :
    s.symbols = symbols := by
  unfold finish at h
  grind

namespace Pass

theorem symbols_of_collect {p q : Pass} {d : Definition} (h : p.collect d = .ok q) :
    q.scope.symbols = p.scope.symbols := by
  unfold collect refuse at h
  split at h
  · obtain rfl := Except.ok.inj h
    rfl
  · split at h
    · obtain rfl := Except.ok.inj h
      rfl
    · cases hd : p.scope.defer d with
      | error fault => simp [hd, Except.map] at h
      | ok scope =>
        rw [hd] at h
        obtain rfl := Except.ok.inj h
        rw [Scope.eq_of_defer hd]

/-- A step takes a definition out of the pending ones, and inserts its variable if there is one. -/
theorem eq_of_resolve {p q : Pass} {d : Definition} (h : p.resolve d = .ok q) :
    let pending := p.scope.pending.filter fun e => e.name.text ≠ d.name.text
    let issues := p.issues ++ (p.scope.define d).issues
    (∃ v, (p.scope.define d).result = some v ∧
      q = ⟨⟨⟨p.scope.symbols.vars ++ [v]⟩, pending, p.scope.queue⟩, p.complete, issues⟩) ∨
    ((p.scope.define d).result = none ∧
      q = ⟨{ p.scope with pending := pending }, false, issues⟩) := by
  unfold resolve at h
  obtain ⟨settled, hs, h⟩ := bind_eq_ok.1 h
  obtain rfl := Scope.eq_of_settle hs
  cases hv : (p.scope.define d).result with
  | none =>
    rw [hv] at h
    exact .inr ⟨rfl, (Except.ok.inj h).symm⟩
  | some v =>
    rw [hv] at h
    obtain ⟨inserted, hi, h⟩ := bind_eq_ok.1 h
    obtain rfl := Scope.eq_of_insert hi
    exact .inl ⟨v, rfl, (Except.ok.inj h).symm⟩

end Pass

/-- Definitions that are only collected have no symbols. -/
theorem Scope.symbols_of_collect {ds : List Definition} {p : Pass}
    (h : builtins.collect ds = .ok p) : p.scope.symbols = ⟨[]⟩ :=
  foldlM_invariant (P := fun q : Pass => q.scope.symbols = ⟨[]⟩)
    (fun hp hq => (Pass.symbols_of_collect hq).trans hp) h rfl

/-- The scope `s` is the one in which the definition `d` of a program is resolved. -/
def Program.Visits (p : Program) (s : Scope) (d : Definition) : Prop :=
  ∃ collected before after pass, Scope.builtins.collect p.definitions = .ok collected ∧
    collected.scope.pendingInOrder = before ++ d :: after ∧
    before.foldlM Pass.resolve (Pass.start collected.scope) = .ok pass ∧ s = pass.scope

/-- The scope `s` is one that a run over a program goes through, in the first pass or in the
second. -/
inductive Program.Reaches (p : Program) : Scope → Prop
  | collecting {before after : List Definition} {pass : Pass} :
      p.definitions = before ++ after → Scope.builtins.collect before = .ok pass →
      p.Reaches pass.scope
  | resolving {collected pass : Pass} {before after : List Definition} :
      Scope.builtins.collect p.definitions = .ok collected →
      collected.scope.pendingInOrder = before ++ after →
      before.foldlM Pass.resolve (Pass.start collected.scope) = .ok pass → p.Reaches pass.scope

theorem Program.Visits.reaches {p : Program} {s : Scope} {d : Definition} (h : p.Visits s d) :
    p.Reaches s := by
  obtain ⟨collected, before, after, pass, hc, split, hr, rfl⟩ := h
  exact .resolving hc split hr

/-- What holds of no symbols, and is kept when a variable is added that was defined over the
symbols so far. -/
structure Symbols.Inductive (P : Symbols → Prop) : Prop where
  empty : P ⟨[]⟩
  insert : ∀ {s : Scope} {d : Definition} {v : Variable}, P s.symbols →
    (s.define d).result = some v → P ⟨s.symbols.vars ++ [v]⟩

namespace Symbols.Inductive

variable {P : Symbols → Prop} (h : Symbols.Inductive P)

include h

theorem of_collect {p : Program} {collected : Pass}
    (hc : Scope.builtins.collect p.definitions = .ok collected) : P collected.scope.symbols := by
  rw [Scope.symbols_of_collect hc]
  exact h.empty

theorem of_resolve {ds : List Definition} {p q : Pass} (hr : ds.foldlM Pass.resolve p = .ok q)
    (hp : P p.scope.symbols) : P q.scope.symbols := by
  refine foldlM_invariant (P := fun q : Pass => P q.scope.symbols) (fun hp hq => ?_) hr hp
  rcases Pass.eq_of_resolve hq with ⟨v, hv, rfl⟩ | ⟨-, rfl⟩
  · exact h.insert hp hv
  · exact hp

theorem of_reaches {p : Program} {s : Scope} (hs : p.Reaches s) : P s.symbols := by
  cases hs with
  | collecting _ hc =>
    rw [Scope.symbols_of_collect hc]
    exact h.empty
  | resolving hc _ hr =>
    have hs := h.of_collect hc
    exact h.of_resolve hr hs

theorem of_visits {p : Program} {s : Scope} {d : Definition} (hv : p.Visits s d) : P s.symbols :=
  h.of_reaches hv.reaches

theorem of_program {p : Program} {r : Resolution} (hr : p.resolve = .ok r) : P r.symbols := by
  obtain ⟨collected, hc, hr⟩ := bind_eq_ok.1 hr
  obtain ⟨resolved, hp, hr⟩ := bind_eq_ok.1 hr
  obtain ⟨symbols, hf, hr⟩ := bind_eq_ok.1 hr
  obtain rfl := Except.ok.inj hr
  rw [← Scope.eq_of_finish hf]
  have hs := h.of_collect hc
  exact h.of_resolve hp hs

end Symbols.Inductive

end ConstLang
