import ConstLang.Leveled.Program
import ConstLang.Proofs.Program.Viability

/-!
# The parser on record follows the plain one

On tokens that keep its contracts, every rule makes of the tokens what the plain parser makes of
them. The levels that are open and the room that is left add up to the limit, and every rule comes
back to the levels it was handed. The moves on record are then a path of a counter that keeps to the
limit and closes what is open. Nothing is added to the report unless the plain parser stops, and
then what there is to say of the next token, once.
-/

namespace ConstLang

namespace Leveled

/-! ## Paths of a counter -/

/-- One move of a counter of open levels. A definition begins its expressions without an open level,
no more levels are opened than the limit, and no more are closed than are open. -/
inductive Step : ℕ → Move → ℕ → Prop
  | begins : Step 0 (.begins 0) 0
  | opens {levels : ℕ} : levels < maxNesting → Step levels (.opens levels) (levels + 1)
  | closes {opened levels : ℕ} :
      opened ≤ levels → Step levels (.closes opened levels) (levels - opened)

/-- Moves in a row, each from the open levels that the one before has left. -/
inductive Path : ℕ → List Move → ℕ → Prop
  | nil {levels : ℕ} : Path levels [] levels
  | cons {first next last : ℕ} {move : Move} {moves : List Move} :
      Step first move next → Path next moves last → Path first (move :: moves) last

namespace Path

variable {first next last : ℕ} {moves others : List Move}

theorem single {move : Move} (h : Step first move next) : Path first [move] next := .cons h .nil

theorem append (h : Path first moves next) (ho : Path next others last) :
    Path first (moves ++ others) last := by
  induction h with
  | nil => exact ho
  | cons step _ ih => exact .cons step (ih ho)

theorem begins {levels : ℕ} (h : Path first moves last) (mem : .begins levels ∈ moves) :
    levels = 0 := by
  induction h with
  | nil => cases mem
  | cons step _ ih =>
    obtain rfl | later := List.mem_cons.1 mem
    · cases step
      rfl
    · exact ih later

end Path

/-! ## Contracts that are kept -/

/-- Contracts that are kept on spans of a kind. -/
structure Contracts.Kept (c : Contracts) (of : Span → Prop) : Prop where
  cover {s t : Span} : of s → of t → of (s.cover t)
  merge {s t : Span} : of s → of t → c.merge s t = .ok (s.cover t)

/-- A token that keeps contracts: its span is of the kind, and it can be named in a message. -/
structure Contracts.Takes (c : Contracts) (of : Span → Prop) (t : Token) : Prop where
  span : of t.span
  diagnose (obstacle : Obstacle) :
    c.diagnose ⟨obstacle, t⟩ = .ok (SyntaxError.diagnostic ⟨obstacle, t⟩)

theorem Contracts.kept_unchecked : unchecked.Kept fun _ => True :=
  ⟨fun _ _ => trivial, fun _ _ => rfl⟩

theorem Contracts.takes_unchecked (t : Token) : unchecked.Takes (fun _ => True) t :=
  ⟨trivial, fun _ => rfl⟩

/-- Where tokens are read: the contracts that they keep, the tokens behind them, of which the first
one is an end mark if there is any, and the report so far. -/
structure Setting where
  contracts : Contracts
  of : Span → Prop
  kept : contracts.Kept of
  behind : List Token
  ends : ∀ t, behind.head? = some t → t.isEnd = true ∧ contracts.Takes of t
  report : Report

namespace Setting

/-- Any tokens in front of others, with nothing checked. -/
def unchecked (behind : List Token) (ends : ∀ t, behind.head? = some t → t.isEnd = true)
    (r : Report) : Setting :=
  ⟨.unchecked, fun _ => True, Contracts.kept_unchecked, behind,
    fun t same => ⟨ends t same, Contracts.takes_unchecked t⟩, r⟩

variable (env : Setting)

abbrev Takes (t : Token) : Prop := env.contracts.Takes env.of t

/-- The report behind a reading that has stopped. -/
def stopped (stop : Stop) : Report :=
  match stop.rest ++ env.behind with
  | [] => env.report
  | found :: _ => env.report.push (SyntaxError.diagnostic ⟨stop.obstacle, found⟩)

variable {env} {ts : List Token}

theorem behind_cases :
    env.behind = [] ∨ ∃ span us, env.behind = Mark.endOfFile.token span :: us := by
  cases ahead : env.behind with
  | nil => exact .inl rfl
  | cons t us =>
    have isEnd := (env.ends t (by rw [ahead]; rfl)).1
    exact .inr ⟨t.span, us, by rw [← Program.token_of_isEnd isEnd]⟩

/-- A mark in front is one of the tokens that are read, unless it is the end mark. -/
theorem exists_of_append {m : Mark} {span : Span} {us : List Token} (inner : m ≠ .endOfFile)
    (h : ts ++ env.behind = m.token span :: us) : ∃ vs, ts = m.token span :: vs := by
  cases ts with
  | cons t ts =>
    obtain ⟨rfl, -⟩ := List.cons.inj h
    exact ⟨ts, rfl⟩
  | nil =>
    obtain none_left | ⟨place, vs, isEnd⟩ := env.behind_cases
    · rw [none_left] at h
      cases h
    · rw [isEnd] at h
      cases h
      contradiction

/-- The end of the tokens ends a chain of operators. -/
theorem closed {additive : Bool} (h : Parser.Closed additive ts) :
    Parser.Closed additive (ts ++ env.behind) := by
  rintro op span us kind same
  obtain ⟨vs, rfl⟩ := env.exists_of_append (by cases op <;> decide) same
  exact h op span vs kind rfl

end Setting

/-! ## Readings -/

section

variable {α β γ δ : Type} {r r' : Report} {moves : List Move}

theorem Run.bind_ok {x : Run α} {f : α → Run β} {a : α} (h : x r = ⟨moves, .ok a, r'⟩) :
    (x >>= f) r = ⟨moves ++ (f a r').moves, (f a r').outcome, (f a r').report⟩ := by
  change x.bind f r = _
  rw [Run.bind, h]

theorem Run.bind_error {x : Run α} {f : α → Run β} {halt : Halt}
    (h : x r = ⟨moves, .error halt, r'⟩) : (x >>= f) r = ⟨moves, .error halt, r'⟩ := by
  change x.bind f r = _
  rw [Run.bind, h]

variable {env : Setting} {fits : γ → Prop} {fits' : δ → Prop} {view : α → Except Obstacle γ}
  {view' : β → Except Obstacle δ} {wanted : Wanted} {start levels levels' n m : ℕ}

theorem fail_eq {rest : List Token} (takes : ∀ t ∈ rest, env.Takes t) (obstacle : Obstacle) :
    (fail env.contracts obstacle (rest ++ env.behind) : Run α) env.report =
      ⟨[], .error (.stop ⟨obstacle, rest ++ env.behind⟩), env.stopped ⟨obstacle, rest⟩⟩ := by
  have next : ∀ t, (rest ++ env.behind).head? = some t → env.Takes t := by
    intro t same
    cases rest with
    | nil => exact (env.ends t same).2
    | cons t' rest => exact Option.some.inj same ▸ takes t' List.mem_cons_self
  unfold Setting.stopped
  dsimp only
  cases ahead : rest ++ env.behind with
  | nil => rfl
  | cons t ts =>
    rw [fail, (next t (by rw [ahead]; rfl)).diagnose]
    rfl

/-- A reading on record does as a plain one. Its moves are a path from the levels that are open at
its start. It ends at the same obstacle, with a report about the next token, or it comes to the
levels at the end of the path and to something that is, in some view, what the plain one makes of
the tokens, and reports nothing. -/
inductive Tracks (env : Setting) (fits : γ → Prop) (view : α → Except Obstacle γ)
    (start levels : ℕ) {n : ℕ} (x : Run (Read α n)) : Except Stop (γ × List Token) → Prop
  | read {moves : List Move} {a : α} {rest : List Token} {short : (rest ++ env.behind).length ≤ n} :
      x env.report = ⟨moves, .ok ⟨a, levels, rest ++ env.behind, short⟩, env.report⟩ →
      Path start moves levels → (∀ b, view a = .ok b → fits b) → (∀ t ∈ rest, env.Takes t) →
      Tracks env fits view start levels x (Parser.leave (view a) rest)
  | stop {moves : List Move} {last : ℕ} {stop : Stop} :
      x env.report =
        ⟨moves, .error (.stop ⟨stop.obstacle, stop.rest ++ env.behind⟩), env.stopped stop⟩ →
      Path start moves last → Tracks env fits view start levels x (.error stop)

/-- The view of a rule from where an expression is wanted: to find none is an obstacle. -/
def found (wanted : Wanted) : Option Expr → Except Obstacle Expr
  | some e => .ok e
  | none => .error (.unmet wanted)

theorem Tracks.after {x : Run β} {b : β} {f : β → Run (Read α n)}
    {y : Except Stop (γ × List Token)} (hx : x env.report = ⟨moves, .ok b, env.report⟩)
    (path : Path start moves levels) (h : Tracks env fits view levels levels' (f b) y) :
    Tracks env fits view start levels' (x >>= f) y := by
  cases h with
  | read hf next fit takes => exact .read (by rw [Run.bind_ok hx, hf]) (path.append next) fit takes
  | stop hf next => exact .stop (by rw [Run.bind_ok hx, hf]) (path.append next)

theorem Tracks.bind {x : Run (Read α n)} {y : Except Stop (γ × List Token)}
    {f : Read α n → Run (Read β m)} {g : γ × List Token → Except Stop (δ × List Token)}
    (h : Tracks env fits view start levels x y)
    (step : ∀ a rest (short : (rest ++ env.behind).length ≤ n), y = Parser.leave (view a) rest →
      (∀ b, view a = .ok b → fits b) → (∀ t ∈ rest, env.Takes t) →
      Tracks env fits' view' levels levels' (f ⟨a, levels, rest ++ env.behind, short⟩)
        (Parser.leave (view a) rest >>= g)) :
    Tracks env fits' view' start levels' (x >>= f) (y >>= g) := by
  cases h with
  | read hx path fit takes => exact Tracks.after hx path (step _ _ _ rfl fit takes)
  | stop hx path => exact .stop (Run.bind_error hx) path

theorem Tracks.next {x : Run (Read α n)} {y : Except Stop (α × List Token)} {fits : α → Prop}
    {f : Read α n → Run (Read β m)} {g : α × List Token → Except Stop (δ × List Token)}
    (h : Tracks env fits .ok start levels x y)
    (step : ∀ a rest (short : (rest ++ env.behind).length ≤ n), fits a → (∀ t ∈ rest, env.Takes t) →
      Tracks env fits' view' levels levels' (f ⟨a, levels, rest ++ env.behind, short⟩)
        (g (a, rest))) :
    Tracks env fits' view' start levels' (x >>= f) (y >>= g) :=
  h.bind fun a rest short _ fit takes => step a rest short (fit a rfl) takes

theorem fits_of_ok {b : γ} (fit : fits b) :
    ∀ b', (.ok b : Except Obstacle γ) = .ok b' → fits b' := fun _ same => Except.ok.inj same ▸ fit

/-- A reading that takes nothing more and reports nothing. -/
theorem Tracks.done {a : α} {rest : List Token} {short : (rest ++ env.behind).length ≤ n}
    (fit : ∀ b, view a = .ok b → fits b) (takes : ∀ t ∈ rest, env.Takes t) :
    Tracks env fits view levels levels (return ⟨a, levels, rest ++ env.behind, short⟩)
      (Parser.leave (view a) rest) := .read rfl .nil fit takes

theorem Tracks.fail {rest : List Token} {obstacle : Obstacle} (takes : ∀ t ∈ rest, env.Takes t) :
    Tracks env fits view start levels
      (Leveled.fail env.contracts obstacle (rest ++ env.behind) : Run (Read α n))
      (.error ⟨obstacle, rest⟩) := .stop (fail_eq takes obstacle) .nil

/-- A level is opened, unless there is no room for it. -/
theorem Tracks.enter {room : ℕ} {ts : List Token} {f : ℕ → Run (Read α n)}
    {y : ℕ → Except Stop (γ × List Token)} (total : levels + room = maxNesting)
    (takes : ∀ t ∈ ts, env.Takes t) (zero : y 0 = .error ⟨.nesting, ts⟩)
    (succ : ∀ k, levels + 1 + k = maxNesting →
      Tracks env fits view (levels + 1) levels' (f (levels + 1)) (y (k + 1))) :
    Tracks env fits view levels levels'
      (Leveled.enter env.contracts levels (ts ++ env.behind) >>= f) (y room) := by
  cases room with
  | zero =>
    rw [Leveled.enter, if_pos (by exact total), zero]
    exact .stop (Run.bind_error (fail_eq takes .nesting)) .nil
  | succ k =>
    have less : levels < maxNesting := by omega
    rw [Leveled.enter, if_neg less.ne]
    exact (succ k (by omega)).after rfl (.single (.opens less))

/-- Open levels are closed. -/
theorem Tracks.leave {opened : ℕ} {f : ℕ → Run (Read α n)} {y : Except Stop (γ × List Token)}
    (le : opened ≤ levels)
    (h : Tracks env fits view (levels - opened) levels' (f (levels - opened)) y) :
    Tracks env fits view levels levels' (Leveled.leave opened levels >>= f) y := by
  rw [Leveled.leave, if_pos le]
  exact h.after rfl (.single (.closes le))

/-- A node is made of parts whose spans keep the contracts. -/
theorem Tracks.node {b : β} {first last : Span} {f : β → Run (Read α n)}
    {y : Except Stop (γ × List Token)} (hf : env.of first) (hl : env.of last)
    (h : Tracks env fits view levels levels' (f b) y) :
    Tracks env fits view levels levels' (Leveled.node env.contracts b first last >>= f) y := by
  refine h.after ?_ .nil
  rw [Leveled.node, env.kept.merge hf hl]
  rfl

/-- Where an expression is required, a rule that finds none ends the reading. -/
theorem Tracks.required {x : Run (Read (Option Expr) n)} {y : Except Stop (Expr × List Token)}
    {fits : Expr → Prop} {f : Read (Option Expr) n → Expr → Run (Read β m)}
    {g : Expr × List Token → Except Stop (δ × List Token)}
    (h : Tracks env fits (found wanted) start levels x y)
    (step : ∀ e rest (short : (rest ++ env.behind).length ≤ n), fits e → (∀ t ∈ rest, env.Takes t) →
      Tracks env fits' view' levels levels' (f ⟨some e, levels, rest ++ env.behind, short⟩ e)
        (g (e, rest))) :
    Tracks env fits' view' start levels'
      (do
        let r ← x
        let e ← required env.contracts wanted r.value r.rest
        f r e)
      (y >>= g) := by
  refine h.bind fun e rest short _ fit takes => ?_
  cases e with
  | none => exact .stop (Run.bind_error (fail_eq takes (.unmet wanted))) .nil
  | some e => exact (step e rest short (fit e rfl) takes).after rfl .nil

/-- A bound on the tokens behind a reading may be replaced by a larger one. -/
theorem Tracks.weaken {x : Run (Read α n)} {y : Except Stop (γ × List Token)}
    (h : Tracks env fits view start levels x y) (le : n ≤ m) :
    Tracks env fits view start levels (do
      let r ← x
      return (⟨r.value, r.levels, r.rest, Nat.le_trans r.short le⟩ : Read α m)) y := by
  cases h with
  | read hx path fit takes => exact Tracks.after hx path (.done fit takes)
  | stop hx path => exact .stop (Run.bind_error hx) path

/-- What is found goes on as a chain of operators, if anything is. -/
theorem Tracks.chain {x : Run (Read (Option Expr) n)} {y : Except Stop (Expr × List Token)}
    {fits : Expr → Prop} {loop : Expr → ℕ → (us : List Token) → Run (Read Expr us.length)}
    {g : Expr × List Token → Except Stop (Expr × List Token)}
    (h : Tracks env fits (found wanted) start levels x y)
    (step : ∀ e us, (us ++ env.behind).length ≤ n → fits e → (∀ t ∈ us, env.Takes t) →
      Tracks env fits .ok levels levels (loop e levels (us ++ env.behind)) (g (e, us))) :
    Tracks env fits (found wanted) start levels
      (do
        let ⟨left, levels, us, short⟩ ← x
        match left with
        | none => return ⟨none, levels, us, short⟩
        | some left =>
          let ⟨e, levels, us, shorter⟩ ← loop left levels us
          return ⟨some e, levels, us, Nat.le_trans shorter short⟩)
      (y >>= g) := by
  refine h.bind fun e rest short _ fit takes => ?_
  cases e with
  | none => exact .done fit takes
  | some e =>
    rw [← bind_pure (Parser.leave (found wanted (some e)) rest >>= g)]
    refine (step e rest short (fit e rfl) takes).next fun e us shorter fit takes => ?_
    exact .done (fits_of_ok fit) takes

end

/-! ## Marks and words -/

section

variable {env : Setting} {n levels room opened : ℕ} {wanted : Wanted} {left : Expr}
  {ts : List Token}

theorem tracks_expect {m : Mark} (inner : m ≠ .endOfFile) (wanted : Wanted) (levels : ℕ)
    (takes : ∀ t ∈ ts, env.Takes t) :
    Tracks env env.of .ok levels levels
      (expect env.contracts m wanted levels (ts ++ env.behind)) (Parser.expect m wanted ts) := by
  cases ts with
  | nil =>
    have missing : expect env.contracts m wanted levels ([] ++ env.behind) =
        fail env.contracts (.unmet wanted) ([] ++ env.behind) := by
      obtain none_left | ⟨span, us, isEnd⟩ := env.behind_cases
      · rw [none_left]
        rfl
      · rw [isEnd]
        exact if_neg fun same => inner (Lexeme.mark.inj same).symm
    rw [missing]
    exact .fail takes
  | cons t us =>
    obtain ⟨first, others⟩ := List.forall_mem_cons.1 takes
    rw [List.cons_append, expect, Parser.expect]
    split
    · exact .done (fits_of_ok first.span) others
    · exact .fail takes

theorem tracks_name (levels : ℕ) (takes : ∀ t ∈ ts, env.Takes t) :
    Tracks env (fun n : Name => env.of n.span) .ok levels levels
      (name env.contracts levels (ts ++ env.behind)) (Parser.name ts) := by
  rcases ts with _ | ⟨⟨l, span⟩, us⟩
  · have missing : name env.contracts levels ([] ++ env.behind) =
        fail env.contracts (.unmet .name) ([] ++ env.behind) := by
      obtain none_left | ⟨span, us, isEnd⟩ := env.behind_cases
      · rw [none_left]
        rfl
      · rw [isEnd]
        rfl
    rw [missing]
    exact .fail takes
  · obtain ⟨first, others⟩ := List.forall_mem_cons.1 takes
    cases l with
    | word text => exact .done (fits_of_ok first.span) others
    | mark _ | number _ | unknown _ _ => exact .fail takes

end

/-! ## Rules -/

/-- On fewer tokens than a bound, the rules track the plain reading functions, as long as the levels
and the room that is left add up to the limit. -/
structure TracksBelow (env : Setting) (n : ℕ) : Prop where
  unary {wanted : Wanted} {levels room : ℕ} {ts : List Token} :
    levels + room = maxNesting → ts.length < n → (∀ t ∈ ts, env.Takes t) →
    Tracks env (env.of ·.span) (found wanted) levels levels
      (unary env.contracts levels (ts ++ env.behind)) (Parser.operand room wanted ts)
  factors {left : Expr} {opened levels room : ℕ} {ts : List Token} :
    opened ≤ levels → levels + room = maxNesting → ts.length < n → env.of left.span →
    (∀ t ∈ ts, env.Takes t) →
    Tracks env (env.of ·.span) .ok levels (levels - opened)
      (factors env.contracts left opened levels (ts ++ env.behind)) (Parser.factors room left ts)
  terms {left : Expr} {opened levels room : ℕ} {ts : List Token} :
    opened ≤ levels → levels + room = maxNesting → ts.length < n → env.of left.span →
    (∀ t ∈ ts, env.Takes t) →
    Tracks env (env.of ·.span) .ok levels (levels - opened)
      (terms env.contracts left opened levels (ts ++ env.behind)) (Parser.terms room left ts)

section

variable {env : Setting} {n levels room opened : ℕ} {wanted : Wanted} {left : Expr}
  {ts : List Token}

/-- No more tokens are left than there were. -/
theorem lt_of_append_le {us vs : List Token}
    (h : (vs ++ env.behind).length ≤ (us ++ env.behind).length) (short : us.length < n) :
    vs.length < n := by
  simp only [List.length_append] at h
  omega

theorem TracksBelow.factor (below : TracksBelow env n) (total : levels + room = maxNesting)
    (short : ts.length < n) (takes : ∀ t ∈ ts, env.Takes t) :
    Tracks env (env.of ·.span) (found wanted) levels levels
      (factor env.contracts levels (ts ++ env.behind)) (Parser.factor room wanted ts) := by
  rw [Leveled.factor, Parser.factor]
  exact (below.unary total short takes).chain fun e us shorter fit takes =>
    below.factors (Nat.zero_le _) total (lt_of_append_le shorter short) fit takes

theorem TracksBelow.expression (below : TracksBelow env n) (total : levels + room = maxNesting)
    (short : ts.length < n) (takes : ∀ t ∈ ts, env.Takes t) :
    Tracks env (env.of ·.span) (found wanted) levels levels
      (expression env.contracts levels (ts ++ env.behind)) (Parser.expression room wanted ts) := by
  rw [Leveled.expression, Leveled.term, Parser.expression_eq]
  exact (below.factor total short takes).chain fun e us shorter fit takes =>
    below.terms (Nat.zero_le _) total (lt_of_append_le shorter short) fit takes

theorem factors_of_closed {c : Contracts} (h : Parser.Closed false ts) (left : Expr)
    (opened levels : ℕ) :
    factors c left opened levels ts =
      do return (⟨left, ← leave opened levels, ts, Nat.le_refl _⟩ : Read Expr ts.length) := by
  rw [factors.eq_def]
  split
  · simp only [Parser.Closed.multiplicative?_eq_none h]
  · rfl

theorem terms_of_closed {c : Contracts} (h : Parser.Closed true ts) (left : Expr)
    (opened levels : ℕ) :
    terms c left opened levels ts =
      do return (⟨left, ← leave opened levels, ts, Nat.le_refl _⟩ : Read Expr ts.length) := by
  rw [terms.eq_def]
  split
  · simp only [Parser.Closed.additive?_eq_none h]
  · rfl

/-- A chain that ends closes the levels it has opened. -/
theorem tracks_end (le : opened ≤ levels) (fit : env.of left.span) (takes : ∀ t ∈ ts, env.Takes t) :
    Tracks env (env.of ·.span) .ok levels (levels - opened)
      (do
        return (⟨left, ← leave opened levels, ts ++ env.behind, Nat.le_refl _⟩ :
          Read Expr (ts ++ env.behind).length))
      (.ok (left, ts)) :=
  Tracks.leave le (.done (fits_of_ok fit) takes)

/-- One more operator of a chain: `loop` reads the operators after a left operand, and `next` the
right operand of the first one. -/
theorem tracks_operator {op : Operator} {span : Span} {us : List Token}
    {loop : Expr → ℕ → ℕ → (us : List Token) → Run (Read Expr us.length)}
    {plainLoop : ℕ → Expr → List Token → Except Stop (Expr × List Token)}
    {next : ℕ → Run (Read (Option Expr) (us ++ env.behind).length)}
    {plainNext : ℕ → Except Stop (Expr × List Token)} (total : levels + room = maxNesting)
    (fit : env.of left.span) (takes : ∀ t ∈ us, env.Takes t)
    (operand : ∀ k, levels + 1 + k = maxNesting →
      Tracks env (env.of ·.span) (found (.operand op.mark)) (levels + 1) (levels + 1)
        (next (levels + 1)) (plainNext k))
    (others : ∀ k right (vs : List Token), levels + 1 + k = maxNesting →
      (vs ++ env.behind).length ≤ (us ++ env.behind).length →
      env.of (Expr.binary op span left right).span → (∀ t ∈ vs, env.Takes t) →
      Tracks env (env.of ·.span) .ok (levels + 1) (levels + 1 - (opened + 1))
        (loop (.binary op span left right) (opened + 1) (levels + 1) (vs ++ env.behind))
        (plainLoop k (.binary op span left right) vs))
    (zero : plainLoop 0 left (op.mark.token span :: us) = .error ⟨.nesting, us⟩)
    (succ : ∀ k, plainLoop (k + 1) left (op.mark.token span :: us) =
      plainNext k >>= fun (right, vs) => plainLoop k (.binary op span left right) vs) :
    Tracks env (env.of ·.span) .ok levels (levels - opened)
      (do
        let levels ← enter env.contracts levels (us ++ env.behind)
        let ⟨right, levels, vs, short⟩ ← next levels
        let right ← required env.contracts (.operand op.mark) right vs
        let left ← node env.contracts (.binary op span left right) left.span right.span
        let ⟨e, levels, ws, shorter⟩ ← loop left (opened + 1) levels vs
        return (⟨e, levels, ws, Nat.le_trans shorter (Nat.le_succ_of_le short)⟩ :
          Read Expr ((us ++ env.behind).length + 1)))
      (plainLoop room left (op.mark.token span :: us)) := by
  refine Tracks.enter (y := fun k => plainLoop k left _) total takes zero fun k more => ?_
  rw [succ]
  refine (operand k more).required fun right vs shorter right_fit takes => ?_
  refine .node fit right_fit ?_
  have rest := others k right vs more shorter (env.kept.cover fit right_fit) takes
  rw [Nat.add_sub_add_right] at rest
  exact rest.weaken (Nat.le_succ_of_le shorter)

theorem TracksBelow.factors_succ (below : TracksBelow env n) (le : opened ≤ levels)
    (total : levels + room = maxNesting) (short : ts.length < n + 1) (fit : env.of left.span)
    (takes : ∀ t ∈ ts, env.Takes t) :
    Tracks env (env.of ·.span) .ok levels (levels - opened)
      (Leveled.factors env.contracts left opened levels (ts ++ env.behind))
      (Parser.factors room left ts) := by
  obtain ⟨op, span, us, tight, rfl⟩ | closed := Parser.exists_operator_or_closed false ts
  · have tail : us.length < n := by simpa using short
    have others := (List.forall_mem_cons.1 takes).2
    rw [Leveled.factors.eq_def]
    dsimp only [Mark.token, List.cons_append]
    rw [Operator.multiplicative?_mark tight]
    exact tracks_operator total fit others (fun k more => below.unary more tail others)
      (fun k right vs more shorter fit takes =>
        below.factors (Nat.succ_le_succ le) more (lt_of_append_le shorter tail) fit takes)
      (Parser.factors_zero tight left span us) fun k => Parser.factors_succ tight k left span us
  · rw [Parser.factors_of_closed closed, factors_of_closed (env.closed closed)]
    exact tracks_end le fit takes

theorem TracksBelow.terms_succ (below : TracksBelow env n) (le : opened ≤ levels)
    (total : levels + room = maxNesting) (short : ts.length < n + 1) (fit : env.of left.span)
    (takes : ∀ t ∈ ts, env.Takes t) :
    Tracks env (env.of ·.span) .ok levels (levels - opened)
      (Leveled.terms env.contracts left opened levels (ts ++ env.behind))
      (Parser.terms room left ts) := by
  obtain ⟨op, span, us, weak, rfl⟩ | closed := Parser.exists_operator_or_closed true ts
  · have tail : us.length < n := by simpa using short
    have others := (List.forall_mem_cons.1 takes).2
    rw [Leveled.terms.eq_def]
    dsimp only [Mark.token, List.cons_append]
    rw [Operator.additive?_mark weak]
    exact tracks_operator total fit others (fun k more => below.factor more tail others)
      (fun k right vs more shorter fit takes =>
        below.terms (Nat.succ_le_succ le) more (lt_of_append_le shorter tail) fit takes)
      (Parser.terms_zero weak left span us) fun k => Parser.terms_succ weak k left span us
  · rw [Parser.terms_of_closed closed, terms_of_closed (env.closed closed)]
    exact tracks_end le fit takes

/-- The tokens do not start with a sign. -/
def Unsigned (ts : List Token) : Prop := ∀ s span us, ts ≠ Mark.token (Sign.mark s) span :: us

theorem exists_sign_or_unsigned (ts : List Token) :
    (∃ s span us, ts = Mark.token (Sign.mark s) span :: us) ∨ Unsigned ts := by
  unfold Unsigned
  grind

theorem Setting.unsigned (env : Setting) (h : Unsigned ts) : Unsigned (ts ++ env.behind) := by
  rintro s span us same
  obtain ⟨vs, rfl⟩ := env.exists_of_append (by cases s <;> decide) same
  exact h s span vs rfl

theorem Unsigned.ofMark?_eq_none {m : Mark} {span : Span} (h : Unsigned (m.token span :: ts)) :
    Sign.ofMark? m = none := by
  cases signed : Sign.ofMark? m with
  | none => rfl
  | some s =>
    obtain rfl := Sign.mark_of_ofMark? signed
    exact absurd rfl (h s span ts)

section

variable {c : Contracts}

theorem unary_of_unsigned (h : Unsigned ts) (levels : ℕ) :
    unary c levels ts = primary c levels ts := by
  rw [unary.eq_def]
  split
  · simp only [Unsigned.ofMark?_eq_none h]
  · rfl

theorem primary_mark {m : Mark} (h : m ≠ .leftParen) (levels : ℕ) (span : Span) (ts : List Token) :
    primary c levels (m.token span :: ts) =
      return ⟨none, levels, m.token span :: ts, Nat.le_refl _⟩ := by
  rw [Mark.token, primary.eq_def]
  cases m <;> first | rfl | contradiction

end

/-- What begins with a parenthesis. -/
theorem TracksBelow.group (below : TracksBelow env n) (total : levels + room = maxNesting)
    {span : Span} (short : ts.length < n) (fit : env.of span) (takes : ∀ t ∈ ts, env.Takes t) :
    Tracks env (env.of ·.span) (found wanted) levels levels
      (primary env.contracts levels (Mark.leftParen.token span :: ts ++ env.behind))
      (Parser.operand room wanted (Mark.leftParen.token span :: ts)) := by
  rw [List.cons_append, Mark.token, primary, ← Mark.token]
  refine Tracks.enter (y := fun k => Parser.operand k wanted _) total takes
    (Parser.operand_group_zero wanted span ts) fun k more => ?_
  rw [Parser.operand_group_succ]
  refine (below.expression more short takes).required fun inner us _ _ takes => ?_
  refine (tracks_expect (by decide) .closing (levels + 1) takes).next
    fun closing vs _ closing_fit takes => ?_
  refine Tracks.leave (Nat.le_add_left 1 levels) (.node fit closing_fit ?_)
  exact .done (fits_of_ok (env.kept.cover fit closing_fit)) takes

theorem TracksBelow.sign (below : TracksBelow env n) (total : levels + room = maxNesting)
    {s : Sign} {span : Span} (short : ts.length < n) (fit : env.of span)
    (takes : ∀ t ∈ ts, env.Takes t) :
    Tracks env (env.of ·.span) (found wanted) levels levels
      (Leveled.unary env.contracts levels (s.mark.token span :: ts ++ env.behind))
      (Parser.operand room wanted (s.mark.token span :: ts)) := by
  have signed : Sign.ofMark? s.mark = some s := by cases s <;> rfl
  rw [List.cons_append, Mark.token, Leveled.unary, ← Mark.token]
  simp only [signed]
  refine Tracks.enter (y := fun k => Parser.operand k wanted _) total takes
    (Parser.operand_sign_zero wanted s span ts) fun k more => ?_
  rw [Parser.operand_sign_succ]
  refine (below.unary more short takes).required fun e us _ operand_fit takes => ?_
  refine Tracks.leave (Nat.le_add_left 1 levels) (.node fit operand_fit ?_)
  exact .done (fits_of_ok (env.kept.cover fit operand_fit)) takes

theorem TracksBelow.primary_succ (below : TracksBelow env n) (total : levels + room = maxNesting)
    (short : ts.length < n + 1) (takes : ∀ t ∈ ts, env.Takes t) (unsigned : Unsigned ts) :
    Tracks env (env.of ·.span) (found wanted) levels levels
      (primary env.contracts levels (ts ++ env.behind)) (Parser.operand room wanted ts) := by
  rcases ts with _ | ⟨⟨l, span⟩, us⟩
  · have silent : primary env.contracts levels ([] ++ env.behind) =
        return ⟨none, levels, [] ++ env.behind, Nat.le_refl _⟩ := by
      obtain none_left | ⟨span, us, isEnd⟩ := env.behind_cases
      · rw [none_left, List.append_nil, primary.eq_def]
      · rw [List.nil_append, isEnd]
        exact primary_mark (by decide) levels span us
    rw [silent, Parser.operand_nil]
    exact .done nofun takes
  obtain ⟨first, others⟩ := List.forall_mem_cons.1 takes
  cases l with
  | word text =>
    rw [List.cons_append, primary.eq_def, Parser.operand.eq_def]
    exact .done (fits_of_ok first.span) others
  | number numeral =>
    rw [List.cons_append, primary.eq_def, Parser.operand.eq_def]
    exact .done (fits_of_ok first.span) others
  | unknown text flaw =>
    rw [List.cons_append, primary.eq_def, Parser.operand_unknown]
    exact .done nofun takes
  | mark m =>
    have tail : us.length < n := by simpa using short
    by_cases opening : m = .leftParen
    · subst opening
      exact below.group total tail first.span others
    · rw [← Mark.token] at unsigned takes ⊢
      rw [Parser.operand_mark unsigned.ofMark?_eq_none opening, List.cons_append,
        primary_mark opening]
      exact .done nofun takes

theorem TracksBelow.unary_succ (below : TracksBelow env n) (total : levels + room = maxNesting)
    (short : ts.length < n + 1) (takes : ∀ t ∈ ts, env.Takes t) :
    Tracks env (env.of ·.span) (found wanted) levels levels
      (Leveled.unary env.contracts levels (ts ++ env.behind)) (Parser.operand room wanted ts) := by
  obtain ⟨s, span, us, rfl⟩ | unsigned := exists_sign_or_unsigned ts
  · obtain ⟨first, others⟩ := List.forall_mem_cons.1 takes
    exact below.sign total (by simpa using short) first.span others
  · rw [unary_of_unsigned (env.unsigned unsigned)]
    exact below.primary_succ total short takes unsigned

end

/-- The rules call each other behind a token that was taken, or else down the grammar. -/
theorem tracksBelow (env : Setting) (n : ℕ) : TracksBelow env n := by
  induction n with
  | zero =>
    exact ⟨fun _ h => absurd h (Nat.not_lt_zero _), fun _ _ h => absurd h (Nat.not_lt_zero _),
      fun _ _ h => absurd h (Nat.not_lt_zero _)⟩
  | succ n ih => exact ⟨ih.unary_succ, ih.factors_succ, ih.terms_succ⟩

theorem tracks_expression {env : Setting} (wanted : Wanted) {levels room : ℕ} {ts : List Token}
    (total : levels + room = maxNesting) (takes : ∀ t ∈ ts, env.Takes t) :
    Tracks env (env.of ·.span) (found wanted) levels levels
      (expression env.contracts levels (ts ++ env.behind)) (Parser.expression room wanted ts) :=
  (tracksBelow env (ts.length + 1)).expression total ts.length.lt_succ_self takes

/-! ## Definitions -/

section

variable {env : Setting} {ts : List Token}

theorem tracks_member (wanted : Wanted) (takes : ∀ t ∈ ts, env.Takes t) :
    Tracks env (env.of ·.span) .ok 0 0 (member env.contracts wanted 0 (ts ++ env.behind))
      (Parser.expression maxNesting wanted ts) := by
  refine Tracks.after rfl (.single .begins) ?_
  rw [← bind_pure (Parser.expression maxNesting wanted ts)]
  refine (tracks_expression wanted (Nat.zero_add _) takes).required fun e us _ fit takes => ?_
  exact .done (fits_of_ok fit) takes

/-- Between definitions no level is open. -/
theorem tracks_definition (takes : ∀ t ∈ ts, env.Takes t) :
    Tracks env (env.of ·.span) .ok 0 0 (definition env.contracts 0 (ts ++ env.behind))
      (Parser.definition ts) := by
  unfold definition Parser.definition
  refine (tracks_name 0 takes).next fun name us _ named takes => ?_
  refine (tracks_expect (by decide) .colon 0 takes).next fun colon us _ _ takes => ?_
  refine (tracks_member .typeExpr takes).next fun type us _ _ takes => ?_
  refine (tracks_expect (by decide) .equals 0 takes).next fun equals us _ _ takes => ?_
  refine (tracks_member .valueExpr takes).next fun value us _ _ takes => ?_
  refine (tracks_expect (by decide) .semicolon 0 takes).next fun semicolon us _ ended takes => ?_
  refine .node named ended ?_
  exact .done (fits_of_ok (env.kept.cover named ended)) takes

theorem definitions_behind (env : Setting) (levels : ℕ) :
    definitions env.contracts levels ([] ++ env.behind) =
      return ⟨[], levels, [] ++ env.behind, Nat.le_refl _⟩ := by
  obtain none_left | ⟨span, us, isEnd⟩ := env.behind_cases
  · rw [none_left, List.append_nil, definitions]
  · rw [isEnd, List.nil_append, definitions, if_pos (by rfl)]

/-- Definitions are read up to the end mark behind the tokens, or up to the first obstacle. -/
theorem tracks_definitions (inside : ∀ t ∈ ts, t.isEnd = false) (takes : ∀ t ∈ ts, env.Takes t) :
    Tracks env (fun ds => ∀ d ∈ ds, env.of (Definition.span d)) .ok 0 0
      (definitions env.contracts 0 (ts ++ env.behind))
      ((Parser.definitions ts).map fun ds => (ds, [])) := by
  induction hn : ts.length using Nat.strongRecOn generalizing ts with
  | ind n ih =>
  cases ts with
  | nil =>
    rw [definitions_behind, Parser.definitions]
    exact .done (fits_of_ok (List.forall_mem_nil _)) takes
  | cons t us =>
    have plain : (Parser.definitions (t :: us)).map (fun ds => (ds, ([] : List Token))) =
        Parser.definition (t :: us) >>= fun first =>
          (Parser.definitions first.2).map (fun ds => (ds, [])) >>= fun others =>
            .ok (first.1 :: others.1, others.2) := by
      rw [Parser.definitions_of_ne_nil (List.cons_ne_nil t us)]
      rcases Parser.definition (t :: us) with stop | ⟨d, rest⟩
      · rfl
      · cases hd : Parser.definitions rest <;> simp [ok_bind, hd] <;> rfl
    rw [plain, List.cons_append, definitions, if_neg (by simp [inside t List.mem_cons_self])]
    refine (tracks_definition takes).bind fun d rest short read fit takes => ?_
    obtain ⟨taken, whole, -, -⟩ := (Parser.determined_definition (t :: us)).of_ok read
    have left : ∀ t ∈ rest, t.isEnd = false := fun u mem =>
      inside u (whole ▸ List.mem_append_right taken mem)
    have less : rest.length < n := by simp at short hn; omega
    -- the first definition ends at level zero, where the others begin
    refine (ih rest.length less left takes rfl).next fun ds us _ fits takes => ?_
    refine .done (fits_of_ok ?_) takes
    exact List.forall_mem_cons.2 ⟨fit d rfl, fits⟩

end

/-! ## Programs -/

section

variable {env : Setting} {α : Type} {fits : α → Prop} {start levels n : ℕ} {x : Run (Read α n)}

/-- A reading on record succeeds where the plain one does, and reports nothing. -/
theorem Tracks.of_ok {a : α} {rest : List Token}
    (h : Tracks env fits .ok start levels x (.ok (a, rest))) :
    ∃ moves short, x env.report =
      ⟨moves, .ok ⟨a, levels, rest ++ env.behind, short⟩, env.report⟩ ∧ fits a := by
  generalize same : (.ok (a, rest) : Except Stop (α × List Token)) = y at h
  cases h with
  | read hx path fit takes =>
    cases same
    exact ⟨_, _, hx, fit _ rfl⟩
  | stop hx path => cases same

/-- A reading on record stops where the plain one does, and reports why. -/
theorem Tracks.of_error {stop : Stop} (h : Tracks env fits .ok start levels x (.error stop)) :
    ∃ moves, x env.report =
      ⟨moves, .error (.stop ⟨stop.obstacle, stop.rest ++ env.behind⟩), env.stopped stop⟩ := by
  generalize same : (.error stop : Except Stop (α × List Token)) = y at h
  cases h with
  | read hx path fit takes => cases same
  | stop hx path =>
    cases same
    exact ⟨_, hx⟩

end

section

variable {c : Contracts} {of : Span → Prop} {ts : List Token}

theorem Contracts.Kept.foldlM_merge (kept : c.Kept of) {ds : List Definition} {span : Span}
    (fit : of span) (fits : ∀ d ∈ ds, of d.span) :
    ds.foldlM (fun s d => c.merge s d.span) span =
      .ok (ds.foldl (fun s d => s.cover d.span) span) := by
  induction ds generalizing span with
  | nil => rfl
  | cons d ds ih =>
    obtain ⟨first, others⟩ := List.forall_mem_cons.1 fits
    rw [List.foldlM_cons, kept.merge fit first, ok_bind]
    exact ih (kept.cover fit first) others

theorem Contracts.Kept.programSpan (kept : c.Kept of) {p : Program}
    (fits : ∀ d ∈ p.definitions, of d.span) : programSpan c p = .ok p.span := by
  obtain ⟨ds, endMark⟩ := p
  cases ds with
  | nil => rfl
  | cons d ds =>
    obtain ⟨first, others⟩ := List.forall_mem_cons.1 fits
    exact kept.foldlM_merge first others

/-- On tokens that keep the contracts, the program is read that they spell, and nothing is reported.
If they spell none, the reading stops at the syntax error and reports it. -/
theorem whole_eq (kept : c.Kept of) (ends : ts.getLast?.any Token.isEnd = true)
    (takes : ∀ t ∈ ts, c.Takes of t) (r : Report) :
    ∃ moves,
      (∃ p, Program.ofTokens ts = .ok (.ok p) ∧ whole c ts r = ⟨moves, .ok p, r⟩) ∨
      ∃ e rest, Program.ofTokens ts = .ok (.error e) ∧
        whole c ts r =
          ⟨moves, .error (.stop ⟨e.obstacle, e.found :: rest⟩), r.push e.diagnostic⟩ := by
  obtain ⟨body, span, -, split⟩ := Program.splitAtEnd_of_ends ends
  obtain ⟨isEnd, inside, after, rfl⟩ := Program.of_splitAtEnd split
  obtain ⟨takes, behind⟩ := List.forall_mem_append.1 takes
  obtain ⟨last, -⟩ := List.forall_mem_cons.1 behind
  let env : Setting := ⟨c, of, kept, Mark.endOfFile.token span :: after,
    fun t same => Option.some.inj same ▸ ⟨isEnd, last⟩, r⟩
  have tracks : Tracks env _ .ok 0 0 (definitions c 0 (body ++ env.behind)) _ :=
    tracks_definitions inside takes
  rw [Program.ofTokens, split, ok_bind, whole, if_pos ends]
  dsimp only
  cases read : Parser.definitions body with
  | ok ds =>
    rw [read] at tracks
    obtain ⟨moves, short, found, fits⟩ := tracks.of_ok
    have spanned := kept.programSpan (p := ⟨ds, span⟩) fits
    refine ⟨moves ++ [], .inl ⟨⟨ds, span⟩, rfl, ?_⟩⟩
    rw [Run.bind_ok found]
    dsimp only [List.nil_append, env, Mark.token]
    rw [spanned]
    rfl
  | error stop =>
    rw [read] at tracks
    obtain ⟨moves, found⟩ := tracks.of_error
    obtain ⟨obstacle, rest⟩ := stop
    cases rest with
    | nil => exact ⟨moves, .inr ⟨⟨obstacle, Mark.endOfFile.token span⟩, after, rfl,
        Run.bind_error found⟩⟩
    | cons t rest => exact ⟨moves, .inr ⟨⟨obstacle, t⟩, rest ++ env.behind, rfl,
        Run.bind_error found⟩⟩

/-- On tokens that keep the contracts, the report has what the plain parser stops at. -/
theorem parse_eq (kept : c.Kept of) (takes : ∀ t ∈ ts, c.Takes of t) (r : Report) :
    parse c r ts = (Program.ofTokens ts).map fun
      | .ok p => (.ok p, r)
      | .error e => (.error .parsing, r.push e.diagnostic) := by
  by_cases ends : ts.getLast?.any Token.isEnd = true
  · obtain ⟨moves, ⟨p, plain, read⟩ | ⟨e, rest, plain, read⟩⟩ := whole_eq kept ends takes r
    · rw [parse, read, plain]
      rfl
    · rw [parse, read, plain]
      rfl
  · rw [parse, whole, if_neg ends, Program.ofTokens, Program.splitAtEnd_of_not_ends ends]
    rfl

end

/-- Without the record, the program that is read is the one that tokens spell. -/
theorem program_eq (ts : List Token) : program ts = Program.ofTokens ts := by
  by_cases ends : ts.getLast?.any Token.isEnd = true
  · obtain ⟨moves, ⟨p, plain, read⟩ | ⟨e, rest, plain, read⟩⟩ :=
      whole_eq Contracts.kept_unchecked ends (fun t _ => Contracts.takes_unchecked t) .empty
    · rw [program, read, plain]
    · rw [program, read, plain]
  · rw [program, whole, if_neg ends, Program.ofTokens, Program.splitAtEnd_of_not_ends ends]
    rfl

end Leveled

/-- What the plain parser reads, or its error in the report. -/
theorem Report.parse_eq (r : Report) (ts : List Token) :
    r.parse ts = (Program.ofTokens ts).map fun
      | .ok p => (.ok p, r)
      | .error e => (.error .parsing, r.push e.diagnostic) :=
  Leveled.parse_eq Leveled.Contracts.kept_unchecked
    (fun t _ => Leveled.Contracts.takes_unchecked t) r

end ConstLang
