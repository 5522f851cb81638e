import ConstLang.Proofs.Token.Tiling

/-!
# Tokens in a row

Tokens of a source that follow one another take up a stretch of its text, with blanks between them:
`Token.Row p cs ts` says that the tokens `ts` fill the characters `cs` from the position `p` on,
from the first of them to the last. The span of such tokens, from the first position of the first
one to the last position of the last one, is then the span of those characters, which are its text.
Spans of tokens that do not overlap can be joined by `Span.cover`.
-/

namespace ConstLang

namespace Token

/-- Tokens fill the characters from a position on. -/
inductive Row : Position → List Char → List Token → Prop
  | last {p : Position} {l : Lexeme} : l.chars ≠ [] → Row p l.chars [place p l]
  | cons {p : Position} {l : Lexeme} {gap cs : List Char} {ts : List Token} : l.chars ≠ [] →
      (∀ c ∈ gap, Lexeme.isBlank c = true) → Row ((p.after l.chars).after gap) cs ts →
      Row p (l.chars ++ (gap ++ cs)) (place p l :: ts)

/-- Tokens that follow one another in a tiling, the end mark left out, are in a row. If they are the
first ones, what is in front of them is blank. -/
theorem Tiles.exists_row {p : Position} {cs : List Char} {ts : List Token} (h : Tiles p cs ts)
    {before row after : List Token} (split : ts = before ++ (row ++ after)) (nonempty : row ≠ [])
    (inner : ∀ t ∈ row, t.isEnd = false) :
    ∃ front inside rest, cs = front ++ (inside ++ rest) ∧ Row (p.after front) inside row ∧
      (before = [] → ∀ c ∈ front, Lexeme.isBlank c = true) := by
  induction h generalizing before row with
  | nil p =>
    obtain ⟨t, row, rfl⟩ := List.exists_cons_of_ne_nil nonempty
    have mem : t ∈ [place p (.mark .endOfFile)] := by rw [split]; simp
    have open_end := inner t (by simp)
    rw [List.mem_singleton.1 mem] at open_end
    contradiction
  | @blank p c cs ts blank _ ih =>
    obtain ⟨front, inside, rest, rfl, filled, blanks⟩ := ih split nonempty inner
    refine ⟨c :: front, inside, rest, rfl, filled, fun first => ?_⟩
    exact List.forall_mem_cons.2 ⟨blank, blanks first⟩
  | @lexeme p l cs ts written _ _ ih =>
    cases before with
    | cons t before =>
      obtain ⟨-, rfl⟩ := List.cons.inj split
      obtain ⟨front, inside, rest, rfl, filled, -⟩ := ih rfl nonempty inner
      refine ⟨l.chars ++ front, inside, rest, by simp, ?_, nofun⟩
      rwa [Position.after_append]
    | nil =>
      obtain ⟨t, row, rfl⟩ := List.exists_cons_of_ne_nil nonempty
      obtain ⟨rfl, rfl⟩ := List.cons.inj split
      cases row with
      | nil => exact ⟨[], l.chars, cs, rfl, .last written, fun _ => List.forall_mem_nil _⟩
      | cons u row =>
        have behind : u :: row ++ after = [] ++ (u :: row ++ after) := rfl
        obtain ⟨gap, inside, rest, rfl, filled, blanks⟩ :=
          ih behind (List.cons_ne_nil u row) (List.forall_mem_cons.1 inner).2
        exact ⟨[], l.chars ++ (gap ++ inside), rest, by simp, .cons written (blanks rfl) filled,
          fun _ => List.forall_mem_nil _⟩

theorem Row.ne_nil {p : Position} {cs : List Char} {ts : List Token} (h : Row p cs ts) :
    cs ≠ [] := by
  cases h <;> simp_all

/-- Tokens do not overlap, and each one is behind those before it. -/
structure InOrder (ts : List Token) : Prop where
  ordered : ∀ t ∈ ts, t.span.first.offset ≤ t.span.last.offset
  pairwise : ts.Pairwise fun t u => t.span.last.offset < u.span.first.offset

theorem InOrder.sublist {ts us : List Token} (h : InOrder us) (sub : ts.Sublist us) :
    InOrder ts :=
  ⟨fun t mem => h.ordered t (sub.subset mem), h.pairwise.sublist sub⟩

theorem inOrder_tokens (s : Source) : InOrder s.tokens := by
  refine ⟨fun t mem => ?_, s.tiles.pairwise⟩
  obtain ⟨parts, last, tokens, -, -, stand⟩ := s.tiles.exists_parts (Position.ahead_start s)
  rw [tokens, List.mem_append, List.mem_map, List.mem_singleton] at mem
  obtain ⟨part, mem, rfl⟩ | rfl := mem
  · exact (stand part mem).2.1.of_span.ordered
  · exact Nat.le_refl _

end Token

namespace Span

open Token

/-- A span ends before another one starts. -/
def Before (s t : Span) : Prop := s.last.offset < t.first.offset

/-- A span lies within another one. -/
def Inside (s t : Span) : Prop :=
  t.first.offset ≤ s.first.offset ∧ s.last.offset ≤ t.last.offset

/-- A span runs from the first position of the first of some tokens to the last position of the
last one. -/
def Bounds (span : Span) (ts : List Token) : Prop :=
  ∃ t ∈ ts.head?, ∃ u ∈ ts.getLast?, span = ⟨t.span.first, u.span.last⟩

variable {span other : Span} {ts us mid all : List Token}

theorem bounds_single (t : Token) : t.span.Bounds [t] := ⟨t, rfl, t, rfl, rfl⟩

theorem Bounds.ne_nil (h : span.Bounds ts) : ts ≠ [] := by
  obtain ⟨t, mem, -⟩ := h
  rintro rfl
  contradiction

/-- Tokens lie within their span. -/
theorem Bounds.inside (h : span.Bounds ts) (order : InOrder ts) {t : Token} (mem : t ∈ ts) :
    t.span.Inside span := by
  obtain ⟨a, ha, b, hb, rfl⟩ := h
  have ordered := order.ordered
  have pairwise := order.pairwise
  constructor
  · obtain ⟨more, rfl⟩ : ∃ more, ts = a :: more := ⟨_, List.eq_cons_of_mem_head? ha⟩
    rcases List.mem_cons.1 mem with rfl | mem
    · exact Nat.le_refl _
    · have := List.rel_of_pairwise_cons pairwise mem
      have := ordered a List.mem_cons_self
      dsimp only
      omega
  · obtain ⟨more, rfl⟩ := List.getLast?_eq_some_iff.1 hb
    rcases List.mem_append.1 mem with mem | mem
    · have := (List.pairwise_append.1 pairwise).2.2 t mem b (by simp)
      have := ordered b (by simp)
      dsimp only
      omega
    · obtain rfl := List.mem_singleton.1 mem
      exact Nat.le_refl _

theorem Bounds.ordered (h : span.Bounds ts) (order : InOrder ts) :
    span.first.offset ≤ span.last.offset := by
  obtain ⟨t, mem⟩ := List.exists_mem_of_ne_nil ts h.ne_nil
  have := order.ordered t mem
  have inside := h.inside order mem
  exact inside.1.trans (this.trans inside.2)

/-- The span of some of the tokens lies within the span of all. -/
theorem Bounds.inside_of_sublist (h : span.Bounds ts) (hall : other.Bounds all)
    (order : InOrder all) (sub : ts.Sublist all) : span.Inside other := by
  obtain ⟨a, ha, b, hb, rfl⟩ := h
  exact ⟨(hall.inside order (sub.subset (List.mem_of_mem_head? ha))).1,
    (hall.inside order (sub.subset (List.mem_of_mem_getLast? hb))).2⟩

/-- Of tokens in order, the span of some that come first is before the span of later ones. -/
theorem Bounds.before (h : span.Bounds ts) (hu : other.Bounds us) (order : InOrder all)
    (sub : (ts ++ us).Sublist all) : span.Before other := by
  obtain ⟨a, ha, b, hb, rfl⟩ := h
  obtain ⟨c, hc, d, hd, rfl⟩ := hu
  have pairwise := (order.sublist sub).pairwise
  exact (List.pairwise_append.1 pairwise).2.2 b (List.mem_of_mem_getLast? hb) c
    (List.mem_of_mem_head? hc)

/-- Things that have tokens in a row, one after the other, have spans that do not overlap. -/
theorem pairwise_before {α : Type} {span : α → Span} {tokens : α → List Token} {as : List α}
    (bounds : ∀ a ∈ as, (span a).Bounds (tokens a)) (order : InOrder (as.flatMap tokens)) :
    as.Pairwise fun a b => (span a).Before (span b) := by
  induction as with
  | nil => exact .nil
  | cons a as ih =>
    obtain ⟨first, others⟩ := List.forall_mem_cons.1 bounds
    rw [List.flatMap_cons] at order
    refine List.pairwise_cons.2 ⟨fun b mem => ?_,
      ih others (order.sublist (List.sublist_append_right ..))⟩
    exact first.before (others b mem) order
      ((List.Sublist.refl _).append (List.sublist_flatten_of_mem (List.mem_map_of_mem mem)))

/-- The smallest span around those of the first and of the last tokens is the span of all. -/
theorem Bounds.cover (mid : List Token) (h : span.Bounds ts) (hu : other.Bounds us)
    (order : InOrder (ts ++ (mid ++ us))) : (span.cover other).Bounds (ts ++ (mid ++ us)) := by
  have sub : (ts ++ us).Sublist (ts ++ (mid ++ us)) :=
    (List.Sublist.refl ts).append (List.sublist_append_right mid us)
  have behind : span.last.offset < other.first.offset := h.before hu order sub
  have ordered := h.ordered (order.sublist (List.sublist_append_left ..))
  have other_ordered := hu.ordered (order.sublist ((List.sublist_append_right ts us).trans sub))
  have joined : span.cover other = ⟨span.first, other.last⟩ := by
    rw [Span.cover, if_neg (by omega), if_pos (by omega)]
  obtain ⟨a, ha, b, hb, rfl⟩ := h
  obtain ⟨c, hc, d, hd, rfl⟩ := hu
  exact ⟨a, by simp [List.head?_append, Option.mem_def.1 ha], d,
    by simp [List.getLast?_append, Option.mem_def.1 hd], joined⟩

theorem Bounds.unique (h : span.Bounds ts) (h' : other.Bounds ts) : span = other := by
  obtain ⟨a, ha, b, hb, rfl⟩ := h
  obtain ⟨c, hc, d, hd, rfl⟩ := h'
  rw [Option.mem_unique ha hc, Option.mem_unique hb hd]

/-- The span of tokens in a row is that of their characters. -/
theorem bounds_of_row {p : Position} {cs : List Char} (h : Row p cs ts) :
    (Span.mk p (p.after cs.dropLast)).Bounds ts := by
  induction h with
  | @last p l written => exact bounds_single (place p l)
  | @cons p l gap cs ts written blanks row ih =>
    obtain ⟨t, ht, u, hu, same⟩ := ih
    refine ⟨_, rfl, u, ?_, ?_⟩
    · simp [List.getLast?_cons, Option.mem_def.1 hu]
    · rw [List.dropLast_append_of_ne_nil (by simp [row.ne_nil]),
        List.dropLast_append_of_ne_nil row.ne_nil, Position.after_append, Position.after_append]
      exact congrArg (Span.mk p) (congrArg Span.last same)

/-- A span is exactly that of tokens in `s`: it runs from the first character of the first of them
to the last character of the last one, the tokens fill the text between the two, and that text is
the text of the span. -/
structure Exact (s : Source) (span : Span) (ts : List Token) : Prop where
  bounds : span.Bounds ts
  text : ∃ before inside after, s.text.toList = before ++ (inside ++ after) ∧
    Row (s.start.after before) inside ts ∧
    span = ⟨s.start.after before, s.start.after (before ++ inside.dropLast)⟩ ∧
    span.text = .ok (String.ofList inside)

/-- The span of tokens that follow one another in a source is exact, the end mark apart. -/
theorem Bounds.exact {s : Source} (h : span.Bounds ts) (consecutive : ts <:+: s.tokens)
    (inner : ∀ t ∈ ts, t.isEnd = false) : span.Exact s ts := by
  obtain ⟨front, back, split⟩ := consecutive
  obtain ⟨before, inside, after, text, row, -⟩ :=
    s.tiles.exists_row (split.symm.trans (List.append_assoc ..)) h.ne_nil inner
  have same : span = ⟨s.start.after before, (s.start.after before).after inside.dropLast⟩ :=
    h.unique (bounds_of_row row)
  have ahead : (s.start.after before).Ahead s (inside ++ after) := ⟨before, text, rfl⟩
  refine ⟨h, before, inside, after, text, row, by rw [same, Position.after_append], ?_⟩
  obtain ⟨shorter, c, rfl⟩ := (List.eq_nil_or_concat' inside).resolve_left row.ne_nil
  rw [List.append_assoc] at ahead
  rw [List.dropLast_concat] at same
  rw [same]
  exact text_of_char ahead

end Span

end ConstLang
