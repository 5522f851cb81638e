import ConstLang.Proofs.Program.Acceptance

/-!
# Where tokens cease to begin a program

The parser never takes a token back. What it makes of tokens is determined by those that it takes
and the next one, and those that it takes begin a program. So a token that is not what is wanted is
the first one to go wrong: the tokens before it begin a program, and with it they do not.
-/

namespace ConstLang

/-- Tokens that begin a program, however deeply it nests. -/
def Viable (ts : List Token) : Prop := ∃ us p, DerivesProgram (ts ++ us) p

namespace Viable

theorem of_prefix {us vs : List Token} (h : Viable vs) (front : us <+: vs) : Viable us := by
  obtain ⟨ws, rfl⟩ := front
  obtain ⟨xs, p, derived⟩ := h
  exact ⟨ws ++ xs, p, by rwa [← List.append_assoc]⟩

/-- The first token that does not go on with those before it is where tokens cease to be viable. -/
theorem take_iff {before after : List Token} {t : Token} (h : Viable before)
    (stuck : ¬ Viable (before ++ [t])) (j : ℕ) :
    Viable ((before ++ t :: after).take j) ↔ j ≤ before.length := by
  have upTo : (before ++ t :: after).take before.length = before := by simp
  have through : (before ++ t :: after).take (before.length + 1) = before ++ [t] := by
    rw [List.append_cons]
    exact List.take_left' (by simp)
  constructor
  · intro reached
    by_contra longer
    have front : (before ++ t :: after).take (before.length + 1) <+: _ :=
      List.take_prefix_take_left (not_le.1 longer)
    exact stuck (through ▸ reached.of_prefix front)
  · intro shorter
    have front : (before ++ t :: after).take j <+: _ := List.take_prefix_take_left shorter
    rw [upTo] at front
    exact h.of_prefix front

end Viable

namespace Parser

variable {α β : Type}

/-- How a reading ends that leaves these tokens. -/
def leave (outcome : Except Obstacle α) (rest : List Token) : Except Stop (α × List Token) :=
  match outcome with
  | .ok a => .ok (a, rest)
  | .error obstacle => .error ⟨obstacle, rest⟩

/-- The tokens that were taken derive the result. If there is none they begin something derived. -/
def Begins (D : List Token → α → Prop) (taken : List Token) : Except Obstacle α → Prop
  | .ok a => D taken a
  | .error _ => ∃ us a, D (taken ++ us) a

/-- What is made of tokens is determined by those that are taken and the next one. -/
def Determined (D : List Token → α → Prop) (read : List Token → Except Stop (α × List Token))
    (ts : List Token) : Prop :=
  ∃ taken rest outcome, ts = taken ++ rest ∧ Begins D taken outcome ∧
    ∀ others, others.head? = rest.head? → read (taken ++ others) = leave outcome others

namespace Determined

variable {D : List Token → α → Prop} {read : List Token → Except Stop (α × List Token)}
  {t : Token} {ts : List Token}

/-- Something is derived at all. -/
theorem live (h : Determined D read ts) : ∃ us a, D us a := by
  obtain ⟨taken, rest, outcome, -, begins, -⟩ := h
  cases outcome with
  | ok a => exact ⟨taken, a, begins⟩
  | error obstacle =>
    obtain ⟨us, a, derived⟩ := begins
    exact ⟨taken ++ us, a, derived⟩

theorem of_ok {a : α} {rest : List Token} (h : Determined D read ts)
    (ok : read ts = .ok (a, rest)) :
    ∃ taken, ts = taken ++ rest ∧ D taken a ∧
      ∀ others, others.head? = rest.head? → read (taken ++ others) = .ok (a, others) := by
  obtain ⟨taken, rest', outcome, rfl, begins, determined⟩ := h
  rw [determined rest' rfl] at ok
  cases outcome with
  | ok a' =>
    cases ok
    exact ⟨taken, rfl, begins, determined⟩
  | error obstacle => cases ok

theorem of_error {stop : Stop} (h : Determined D read ts) (error : read ts = .error stop) :
    ∃ taken, ts = taken ++ stop.rest ∧ (∃ us a, D (taken ++ us) a) ∧
      ∀ others, others.head? = stop.rest.head? →
        read (taken ++ others) = .error ⟨stop.obstacle, others⟩ := by
  obtain ⟨taken, rest, outcome, rfl, begins, determined⟩ := h
  rw [determined rest rfl] at error
  cases outcome with
  | ok a => cases error
  | error obstacle =>
    cases error
    exact ⟨taken, rfl, begins, determined⟩

/-! A reading that takes nothing. -/

theorem ok {a : α} (h : D [] a) : Determined D (fun us => .ok (a, us)) ts :=
  ⟨[], ts, .ok a, rfl, h, fun _ _ => rfl⟩

theorem error {obstacle : Obstacle} (live : ∃ us a, D us a) :
    Determined D (fun us => .error ⟨obstacle, us⟩) ts :=
  ⟨[], ts, .error obstacle, rfl, live, fun _ _ => rfl⟩

theorem here (outcome : Except Obstacle α) (begins : Begins D [] outcome)
    (h : ∀ others, others.head? = ts.head? → read others = leave outcome others) :
    Determined D read ts :=
  ⟨[], ts, outcome, rfl, begins, h⟩

theorem nil (outcome : Except Obstacle α) (begins : Begins D [] outcome)
    (h : read [] = leave outcome []) : Determined D read [] := by
  refine .here outcome begins fun others same => ?_
  rw [List.head?_nil, List.head?_eq_none_iff] at same
  rw [same]
  exact h

theorem head (outcome : Except Obstacle α) (begins : Begins D [] outcome)
    (h : ∀ us, read (t :: us) = leave outcome (t :: us)) : Determined D read (t :: ts) := by
  refine .here outcome begins fun others same => ?_
  obtain ⟨us, rfl⟩ := List.head?_eq_some_iff.1 same
  exact h us

/-! Readings in a row. -/

theorem cons {read' : List Token → Except Stop (α × List Token)}
    (h : Determined (fun us a => D (t :: us) a) read' ts)
    (step : ∀ us, read (t :: us) = read' us) : Determined D read (t :: ts) := by
  obtain ⟨taken, rest, outcome, rfl, begins, determined⟩ := h
  refine ⟨t :: taken, rest, outcome, rfl, ?_, fun others same => ?_⟩
  · cases outcome with
    | ok a => exact begins
    | error obstacle => exact begins
  · exact (step _).trans (determined others same)

theorem bind {D' : List Token → β → Prop} {next : α × List Token → Except Stop (β × List Token)}
    (h : Determined D read ts)
    (step : ∀ taken a, D taken a → ∀ rest,
      Determined (fun us b => D' (taken ++ us) b) (fun us => next (a, us)) rest) :
    Determined D' (fun us => read us >>= next) ts := by
  obtain ⟨taken, rest, outcome, rfl, begins, determined⟩ := h
  cases outcome with
  | error obstacle =>
    obtain ⟨us, a, derived⟩ := begins
    obtain ⟨vs, b, derived⟩ := (step _ a derived []).live
    refine ⟨taken, rest, .error obstacle, rfl, ⟨us ++ vs, b, ?_⟩, fun others same => ?_⟩
    · rwa [← List.append_assoc]
    · dsimp only
      rw [determined others same]
      rfl
  | ok a =>
    obtain ⟨more, left, outcome, rfl, begins', determined'⟩ := step taken a begins rest
    refine ⟨taken ++ more, left, outcome, (List.append_assoc ..).symm, ?_, fun others same => ?_⟩
    · cases outcome with
      | ok b => exact begins'
      | error obstacle =>
        obtain ⟨us, b, derived⟩ := begins'
        exact ⟨us, b, by rwa [List.append_assoc]⟩
    · have ahead : (more ++ others).head? = (more ++ left).head? := by
        rw [List.head?_append, List.head?_append, same]
      dsimp only
      rw [List.append_assoc, determined _ ahead]
      exact determined' others same

end Determined

/-! ## Expressions -/

theorem derives_sample (c : Category) :
    Derives c [Program.sample.token] (.access Program.sample) :=
  (Derives.name Program.sample).of_primary c

theorem determined_expect (m : Mark) (wanted : Wanted) (ts : List Token) :
    Determined (fun us span => us = [m.token span]) (expect m wanted) ts := by
  have live : ∃ us span, us = [m.token span] := ⟨_, Program.sample.span, rfl⟩
  cases ts with
  | nil => exact .nil (.error (.unmet wanted)) live rfl
  | cons t us =>
    by_cases same : t.lexeme = .mark m
    · have token : t = m.token t.span := by rw [Mark.token, ← same]
      exact .cons (.ok (congrArg (· :: []) token)) fun us => if_pos same
    · exact .head (.error (.unmet wanted)) live fun us => if_neg same

theorem determined_name (ts : List Token) :
    Determined (fun us n => us = [Name.token n]) name ts := by
  have live : ∃ us n, us = [Name.token n] := ⟨_, Program.sample, rfl⟩
  rcases ts with _ | ⟨⟨l, span⟩, us⟩
  · exact .nil (.error (.unmet .name)) live rfl
  · cases l with
    | word text =>
      exact .cons (.ok rfl) fun us => rfl
    | mark _ | number _ | unknown _ _ =>
      exact .head (.error (.unmet .name)) live fun us => rfl

/-- What the reading functions make of tokens is determined by those that they take and the next
one. The operators that follow an expression go on with what it derives. -/
structure DeterminedAt (room : ℕ) : Prop where
  operand (wanted : Wanted) (ts : List Token) :
    Determined (Derives .unary) (operand room wanted) ts
  factors {left : Expr} (derived : Derives .factor left.tokens left) (ts : List Token) :
    Determined (fun us e => Derives .factor (left.tokens ++ us) e) (factors room left) ts
  terms {left : Expr} (derived : Derives .term left.tokens left) (ts : List Token) :
    Determined (fun us e => Derives .term (left.tokens ++ us) e) (terms room left) ts

namespace DeterminedAt

variable {room : ℕ} (h : DeterminedAt room)

include h

theorem factor (wanted : Wanted) (ts : List Token) :
    Determined (Derives .factor) (Parser.factor room wanted) ts := by
  refine (h.operand wanted ts).bind fun taken e derived rest => ?_
  obtain ⟨rfl, -, -⟩ := derived.walk
  exact h.factors (.unary derived) rest

theorem expression (wanted : Wanted) (ts : List Token) :
    Determined (Derives .term) (Parser.expression room wanted) ts := by
  have steps : Parser.expression room wanted =
      fun us => Parser.factor room wanted us >>= fun p => Parser.terms room p.1 p.2 :=
    funext (expression_eq room wanted)
  rw [steps]
  refine (h.factor wanted ts).bind fun taken e derived rest => ?_
  obtain ⟨rfl, -, -⟩ := derived.walk
  exact h.terms (.factor derived) rest

end DeterminedAt

theorem determined_sign {room : ℕ} (below : ∀ k < room, DeterminedAt k) (wanted : Wanted) (s : Sign)
    (span : Span) (ts : List Token) :
    Determined (Derives .unary) (operand room wanted) (s.mark.token span :: ts) := by
  cases room with
  | zero =>
    exact .cons (.error ⟨_, _, .sign s span (derives_sample .unary)⟩)
      (operand_sign_zero wanted s span)
  | succ k =>
    refine .cons ?_ (operand_sign_succ k wanted s span)
    refine ((below k k.lt_succ_self).operand _ ts).bind fun taken e derived rest => ?_
    exact .ok (by simpa using Derives.sign s span derived)

theorem determined_group {room : ℕ} (below : ∀ k < room, DeterminedAt k) (wanted : Wanted)
    (span : Span) (ts : List Token) :
    Determined (Derives .unary) (operand room wanted) (Mark.leftParen.token span :: ts) := by
  cases room with
  | zero =>
    have live := Derives.primary (.group span span (derives_sample .term))
    exact .cons (.error ⟨_, _, live⟩) (operand_group_zero wanted span)
  | succ k =>
    refine .cons ?_ (operand_group_succ k wanted span)
    refine ((below k k.lt_succ_self).expression _ ts).bind fun taken e derived rest => ?_
    refine (determined_expect .rightParen .closing rest).bind fun closed closing token rest => ?_
    subst token
    exact .ok (by simpa using Derives.primary (.group span closing derived))

theorem operand_nil (room : ℕ) (wanted : Wanted) :
    operand room wanted [] = .error ⟨.unmet wanted, []⟩ := by
  rw [operand.eq_def]

theorem operand_unknown (room : ℕ) (wanted : Wanted) (text : String) (flaw : Flaw) (span : Span)
    (ts : List Token) : operand room wanted (⟨.unknown text flaw, span⟩ :: ts) =
      .error ⟨.unmet wanted, ⟨.unknown text flaw, span⟩ :: ts⟩ := by
  rw [operand.eq_def]

theorem operand_mark {m : Mark} (unsigned : Sign.ofMark? m = none) (opening : m ≠ .leftParen)
    (room : ℕ) (wanted : Wanted) (span : Span) (ts : List Token) :
    operand room wanted (m.token span :: ts) = .error ⟨.unmet wanted, m.token span :: ts⟩ := by
  rw [Mark.token, operand.eq_def]
  simp only [unsigned, if_neg opening]

theorem determined_operand {room : ℕ} (below : ∀ k < room, DeterminedAt k) (wanted : Wanted)
    (ts : List Token) : Determined (Derives .unary) (operand room wanted) ts := by
  have live : ∃ us e, Derives .unary us e := ⟨_, _, derives_sample .unary⟩
  rcases ts with _ | ⟨⟨l, span⟩, us⟩
  · exact .nil (.error (.unmet wanted)) live (operand_nil room wanted)
  cases l with
  | word text =>
    exact .cons (.ok (.primary (.name ⟨text, span⟩))) (operand_name room wanted ⟨text, span⟩)
  | number n =>
    exact .cons (.ok (.primary (.number n span))) (operand_number room wanted n span)
  | unknown text flaw =>
    exact .head (.error (.unmet wanted)) live fun us => operand_unknown _ _ _ _ _ us
  | mark m =>
    cases sign : Sign.ofMark? m with
    | some s =>
      obtain rfl := Sign.mark_of_ofMark? sign
      exact determined_sign below wanted s span us
    | none =>
      by_cases opening : m = .leftParen
      · subst opening
        exact determined_group below wanted span us
      · exact .head (.error (.unmet wanted)) live
          fun us => operand_mark sign opening room wanted span us

/-- A chain goes on with an operator, or it is at its end. -/
theorem exists_operator_or_closed (additive : Bool) (ts : List Token) :
    (∃ op span us, op.isAdditive = additive ∧ ts = Mark.token (Operator.mark op) span :: us) ∨
      Closed additive ts := by
  unfold Closed
  grind

theorem Closed.of_head {additive : Bool} {ts us : List Token} (h : Closed additive ts)
    (same : us.head? = ts.head?) : Closed additive us := by
  rintro op span vs kind rfl
  obtain ⟨ws, rfl⟩ := List.head?_eq_some_iff.1 same.symm
  exact h op span ws kind rfl

theorem determined_factors {room : ℕ} (below : ∀ k < room, DeterminedAt k) {left : Expr}
    (derived : Derives .factor left.tokens left) (ts : List Token) :
    Determined (fun us e => Derives .factor (left.tokens ++ us) e) (factors room left) ts := by
  obtain ⟨op, span, us, tight, rfl⟩ | closed := exists_operator_or_closed false ts
  · cases room with
    | zero =>
      have live := derived.multiplicative span tight (derives_sample .unary)
      exact .cons (.error ⟨_, _, live⟩) (factors_zero tight left span)
    | succ k =>
      have reads := below k k.lt_succ_self
      refine .cons ?_ (factors_succ tight k left span)
      refine (reads.operand _ us).bind fun taken right operand rest => ?_
      obtain ⟨rfl, -, -⟩ := operand.walk
      have chain : Derives .factor (Expr.binary op span left right).tokens _ :=
        derived.multiplicative span tight operand
      simpa [Expr.tokens] using reads.factors chain rest
  · have whole : Derives .factor (left.tokens ++ []) left := by rwa [List.append_nil]
    exact .here (.ok left) whole fun others same =>
      factors_of_closed (closed.of_head same) room left

theorem determined_terms {room : ℕ} (below : ∀ k < room, DeterminedAt k) {left : Expr}
    (derived : Derives .term left.tokens left) (ts : List Token) :
    Determined (fun us e => Derives .term (left.tokens ++ us) e) (terms room left) ts := by
  obtain ⟨op, span, us, weak, rfl⟩ | closed := exists_operator_or_closed true ts
  · cases room with
    | zero =>
      have live := derived.additive span weak (derives_sample .factor)
      exact .cons (.error ⟨_, _, live⟩) (terms_zero weak left span)
    | succ k =>
      have reads := below k k.lt_succ_self
      refine .cons ?_ (terms_succ weak k left span)
      refine (reads.factor _ us).bind fun taken right operand rest => ?_
      obtain ⟨rfl, -, -⟩ := operand.walk
      have chain : Derives .term (Expr.binary op span left right).tokens _ :=
        derived.additive span weak operand
      simpa [Expr.tokens] using reads.terms chain rest
  · have whole : Derives .term (left.tokens ++ []) left := by rwa [List.append_nil]
    exact .here (.ok left) whole fun others same =>
      terms_of_closed (closed.of_head same) room left

/-- Each level of nesting leaves less room, so that the induction is on the room. -/
theorem determinedAt (room : ℕ) : DeterminedAt room := by
  induction room using Nat.strongRecOn with
  | ind room below =>
    exact ⟨determined_operand below, determined_factors below, determined_terms below⟩

/-! ## Definitions -/

theorem determined_definition (ts : List Token) :
    Determined DerivesDefinition definition ts := by
  unfold definition
  refine (determined_name ts).bind fun _ name taken rest => ?_
  refine (determined_expect .colon .colon rest).bind fun _ colon taken' rest => ?_
  refine ((determinedAt _).expression .typeExpr rest).bind fun us type derived rest => ?_
  refine (determined_expect .equals .equals rest).bind fun _ equals taken'' rest => ?_
  refine ((determinedAt _).expression .valueExpr rest).bind fun vs value derived' rest => ?_
  refine (determined_expect .semicolon .semicolon rest).bind fun _ semicolon taken''' rest => ?_
  subst taken taken' taken'' taken'''
  refine .ok ?_
  simpa using DerivesDefinition.mk name colon equals semicolon derived derived'

/-- Definitions that cannot be read whole are read up to an obstacle. The tokens before it begin
definitions, and they end there with any other tokens that go on with the same one. -/
theorem determined_definitions {ts : List Token} {stop : Stop} (h : definitions ts = .error stop) :
    ∃ taken, ts = taken ++ stop.rest ∧ (∃ us ds, DerivesDefinitions (taken ++ us) ds) ∧
      ∀ others, others.head? = stop.rest.head? →
        definitions (taken ++ others) = .error ⟨stop.obstacle, others⟩ := by
  fun_induction definitions ts with
  | case1 => cases h
  | case2 t ts stop' read =>
    obtain rfl := Except.error.inj h
    obtain ⟨taken, whole, ⟨us, d, derived⟩, determined⟩ := (determined_definition _).of_error read
    refine ⟨taken, whole, ⟨us, [d], ?_⟩, fun others same => ?_⟩
    · simpa using DerivesDefinitions.cons derived .nil
    · have some_left : taken ++ others ≠ [] := by
        intro none_left
        obtain ⟨rfl, rfl⟩ := List.append_eq_nil_iff.1 none_left
        rw [← whole.trans (List.nil_append _)] at same
        cases same
      rw [definitions_of_ne_nil some_left, determined others same]
      rfl
  | case3 t ts d rest read ih =>
    obtain ⟨first, whole, derived, determined⟩ := (determined_definition _).of_ok read
    cases others : definitions rest with
    | ok ds =>
      rw [others] at h
      cases h
    | error stop' =>
      rw [others] at h
      cases h
      obtain ⟨taken, rfl, ⟨us, ds, derived'⟩, determined'⟩ := ih others
      refine ⟨first ++ taken, by rw [whole, List.append_assoc], ⟨us, d :: ds, ?_⟩,
        fun others same => ?_⟩
      · rw [List.append_assoc]
        exact .cons derived derived'
      · have ahead : (taken ++ others).head? = (taken ++ stop.rest).head? := by
          rw [List.head?_append, List.head?_append, same]
        have some_left : first ++ (taken ++ others) ≠ [] := by
          obtain ⟨name, colon, equals, semicolon, -, -⟩ := derived
          exact List.cons_ne_nil _ _
        rw [List.append_assoc, definitions_of_ne_nil some_left, determined _ ahead, ok_bind]
        dsimp only
        rw [determined' others same]
        rfl

end Parser

/-! ## Programs -/

namespace Program

variable {ts : List Token}

theorem of_splitAtEnd {body : List Token} {endMark : Token}
    (h : splitAtEnd ts = .ok (body, endMark)) :
    endMark.isEnd = true ∧ (∀ t ∈ body, t.isEnd = false) ∧
      ∃ after, ts = body ++ endMark :: after := by
  unfold splitAtEnd at h
  split at h
  · next last first after _ split =>
    split at h
    · cases h
      have nonempty : ts.dropWhile (fun t => !t.isEnd) ≠ [] := by simp [split]
      have isEnd := List.head_dropWhile_not (fun t : Token => !t.isEnd) nonempty
      refine ⟨by simpa [split] using isEnd, fun t mem => ?_, after, ?_⟩
      · simpa using List.mem_takeWhile_imp mem
      · rw [← split, List.takeWhile_append_dropWhile]
    · cases h
  · cases h

theorem isEnd_of_mem_derived {ts : List Token} {ds : List Definition} (h : DerivesDefinitions ts ds)
    {t : Token} (mem : t ∈ ts) : t.isEnd = false := by
  obtain ⟨rfl, -⟩ := derivesDefinitions_iff.1 h
  obtain ⟨d, -, inside⟩ := List.mem_flatMap.1 mem
  exact isEnd_of_mem_definition inside

theorem viable_of_derives {before us : List Token} {ds : List Definition}
    (h : DerivesDefinitions (before ++ us) ds) : Viable before := by
  refine ⟨us ++ [Mark.endOfFile.token sample.span], ⟨ds, sample.span⟩, ?_⟩
  rw [← List.append_assoc]
  exact .mk _ h

/-- An end mark is the last token of a program. -/
theorem viable_end_iff {before : List Token} {t : Token} (h : t.isEnd = true) :
    Viable (before ++ [t]) ↔ ∃ ds, DerivesDefinitions before ds := by
  constructor
  · rintro ⟨us, p, derived⟩
    generalize whole : before ++ [t] ++ us = ts at derived
    obtain ⟨endMark, derived⟩ := derived
    rcases us.eq_nil_or_concat with rfl | ⟨vs, last, rfl⟩
    · obtain ⟨rfl, -⟩ := List.append_inj' ((List.append_nil _).symm.trans whole) rfl
      exact ⟨_, derived⟩
    · rw [List.concat_eq_append, ← List.append_assoc] at whole
      obtain ⟨rfl, -⟩ := List.append_inj' whole rfl
      have inside := isEnd_of_mem_derived derived (t := t) (by simp)
      rw [h] at inside
      contradiction
  · rintro ⟨ds, derived⟩
    rw [token_of_isEnd h]
    exact ⟨[], ⟨ds, t.span⟩, by simpa using DerivesProgram.mk t.span derived⟩

/-- Any other token has to belong to a definition. -/
theorem viable_token_iff {before : List Token} {t : Token} (h : t.isEnd = false) :
    Viable (before ++ [t]) ↔ ∃ us ds, DerivesDefinitions (before ++ t :: us) ds := by
  constructor
  · rintro ⟨us, p, derived⟩
    generalize whole : before ++ [t] ++ us = ts at derived
    obtain ⟨endMark, derived⟩ := derived
    rcases us.eq_nil_or_concat with rfl | ⟨vs, last, rfl⟩
    · obtain ⟨-, same⟩ := List.append_inj' ((List.append_nil _).symm.trans whole) rfl
      rw [List.singleton_inj.1 same] at h
      contradiction
    · rw [List.concat_eq_append, ← List.append_assoc] at whole
      obtain ⟨rfl, -⟩ := List.append_inj' whole rfl
      exact ⟨vs, _, by simpa using derived⟩
  · rintro ⟨us, ds, derived⟩
    rw [List.append_cons] at derived
    exact viable_of_derives derived

/-- Tokens that derive definitions do not stop the parser at one that is not wanted. -/
theorem not_unmet_of_derives {us rest : List Token} {ds : List Definition} {wanted : Wanted}
    (h : DerivesDefinitions us ds) : Parser.definitions us ≠ .error ⟨.unmet wanted, rest⟩ := by
  intro stopped
  by_cases fits : ∀ e ∈ ds.flatMap Definition.exprs, e.peak ≤ maxNesting
  · rw [Parser.definitions_of_derives h fits] at stopped
    cases stopped
  · simp only [not_forall, not_le] at fits
    obtain ⟨e, mem, exceeds⟩ := fits
    obtain ⟨rest', nested⟩ := Parser.stops_of_derives h ⟨e, mem, exceeds⟩
    rw [nested] at stopped
    cases stopped

/-- A syntax error lies at a token behind others that begin a program. If it is not the one that is
wanted, it does not go on with them. -/
theorem viable_of_ofTokens {e : SyntaxError} (h : ofTokens ts = .ok (.error e)) :
    ∃ before after, ts = before ++ e.found :: after ∧ Viable before ∧
      ∀ wanted, e.obstacle = .unmet wanted → ¬ Viable (before ++ [e.found]) := by
  obtain ⟨⟨body, endMark⟩, split, outcome⟩ := bind_eq_ok.1 h
  obtain ⟨isEnd, inside, after, rfl⟩ := of_splitAtEnd split
  dsimp only at outcome
  cases read : Parser.definitions body with
  | ok ds =>
    rw [read] at outcome
    cases outcome
  | error stop =>
    rw [read] at outcome
    cases outcome
    obtain ⟨taken, rfl, ⟨us, ds, derived⟩, determined⟩ := Parser.determined_definitions read
    have viable := viable_of_derives derived
    obtain ⟨obstacle, rest⟩ := stop
    cases rest with
    | nil =>
      refine ⟨taken, after, by simp, viable, ?_⟩
      rintro wanted rfl beyond
      obtain ⟨ds, derived⟩ := (viable_end_iff isEnd).1 beyond
      exact not_unmet_of_derives derived (by simpa using determined [] rfl)
    | cons t rest =>
      refine ⟨taken, rest ++ endMark :: after, by simp, viable, ?_⟩
      rintro wanted rfl beyond
      obtain ⟨us, ds, derived⟩ := (viable_token_iff (inside t (by simp))).1 beyond
      exact not_unmet_of_derives derived (determined (t :: us) rfl)

theorem found_mem {e : SyntaxError} (h : ofTokens ts = .ok (.error e)) : e.found ∈ ts := by
  obtain ⟨before, after, rfl, -⟩ := viable_of_ofTokens h
  simp

end Program

end ConstLang
