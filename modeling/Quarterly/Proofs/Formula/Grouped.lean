import Quarterly.Proofs.Formula.Account
import Quarterly.Proofs.Formula.Validity

/-!
# Tokens in groups

Brackets stand in references only, so a row of tokens that is read as an expression falls apart into
references and other tokens (`Reads.grouped`). Without `LET` no name stands directly behind a number
or a reference. A live reading that meets no lambda looks its references up one after the other, in
the order in which they stand (`groups_of_evaluate`).
-/

namespace Quarterly.Formula

/-- The references with brackets in a row of tokens. -/
def groups : List Token → List Group
  | name :: opening :: inside :: closing :: rest =>
    if name.kind = .identifier ∧ opening.kind = .leftBracket ∧ closing.kind = .rightBracket then
      ⟨name, inside, closing⟩ :: groups rest
    else groups (opening :: inside :: closing :: rest)
  | _ => []

/-- The kind of the first of some tokens. -/
def firstKind (tokens : List Token) : Option TokenKind := tokens.head?.map Token.kind

/-- Brackets stand in references only. If `apart` holds, no name stands directly behind a number or
a reference. -/
inductive Grouped (apart : Prop) : List Token → Prop where
  | finish {token} (atEnd : token.kind = .endMark) : Grouped apart [token]
  | group {g : Group} {opening rest} (name : g.name.kind = .identifier)
      (opens : opening.kind = .leftBracket)
      (inside : g.inside.kind = .identifier ∨ g.inside.kind = .number)
      (closes : g.closing.kind = .rightBracket) (next : apart → firstKind rest ≠ some .identifier)
      (others : Grouped apart rest) :
      Grouped apart (g.name :: opening :: g.inside :: g.closing :: rest)
  | other {token rest} (noOpening : token.kind ≠ .leftBracket)
      (noClosing : token.kind ≠ .rightBracket)
      (next : apart → token.kind = .number → firstKind rest ≠ some .identifier)
      (others : Grouped apart rest) : Grouped apart (token :: rest)

section

variable {tokens : List Token} {p : Nat}

theorem firstKind_drop : firstKind (tokens.drop p) = kindAt tokens.toArray p := by
  simp [firstKind, kindAt]

theorem drop_of_token {token : Token} (h : tokens.toArray[p]? = some token) :
    tokens.drop p = token :: tokens.drop (p + 1) := by
  rw [List.getElem?_toArray] at h
  obtain ⟨lt, rfl⟩ := List.getElem?_eq_some_iff.mp h
  exact List.drop_eq_getElem_cons lt

theorem exists_of_kindAt {kind : TokenKind} (h : kindAt tokens.toArray p = some kind) :
    ∃ token, token.kind = kind ∧ tokens.drop p = token :: tokens.drop (p + 1) := by
  obtain ⟨token, found, same⟩ := Option.map_eq_some_iff.mp h
  exact ⟨token, same, drop_of_token found⟩

end

/-! ### References in a row -/

theorem groups_cons {token : Token} {rest : List Token}
    (h : token.kind = .identifier → firstKind rest ≠ some .leftBracket) :
    groups (token :: rest) = groups rest := by
  match rest with
  | [] | [_] | [_, _] => simp [groups]
  | opening :: inside :: closing :: rest =>
    rw [groups, if_neg]
    rintro ⟨name, opens, _⟩
    exact h name (by simp [firstKind, opens])

theorem groups_group {g : Group} {opening : Token} {rest : List Token}
    (name : g.name.kind = .identifier) (opens : opening.kind = .leftBracket)
    (closes : g.closing.kind = .rightBracket) :
    groups (g.name :: opening :: g.inside :: g.closing :: rest) = g :: groups rest := by
  rw [groups, if_pos ⟨name, opens, closes⟩]

theorem groups_drop_succ {tokens : List Token} {p : Nat}
    (noBracket : ¬ BracketAt tokens.toArray p) :
    groups (tokens.drop p) = groups (tokens.drop (p + 1)) := by
  cases h : tokens.drop p with
  | nil =>
    have past : tokens.length ≤ p := List.drop_eq_nil_iff.mp h
    rw [List.drop_eq_nil_iff.mpr (Nat.le_succ_of_le past)]
  | cons token rest =>
    have found : tokens.toArray[p]? = some token := by
      have := congrArg List.head? h
      simpa using this
    obtain rfl : rest = tokens.drop (p + 1) := by
      simpa [h] using drop_of_token found
    refine groups_cons fun name => ?_
    rw [firstKind_drop]
    exact fun opening => noBracket ⟨by simp [kindAt, found, name], opening⟩

theorem groups_drop_group {tokens : List Token} {p : Nat} {g : Group}
    (h : GroupAt tokens.toArray p g) :
    groups (tokens.drop p) = g :: groups (tokens.drop (p + 4)) := by
  obtain ⟨opening, opens, atOpening⟩ := exists_of_kindAt h.opening
  rw [drop_of_token h.name, atOpening, drop_of_token h.inside, drop_of_token h.closing]
  exact groups_group h.kind opens h.closes

/-! ### Expressions fall apart into references and other tokens -/

/-- A phrase whose end tells that no name is next in its place: bindings have a body, and lists end
with a parenthesis or a brace. -/
def Phrase.Closed (apart : Prop) : Phrase → Prop
  | .bindings => ¬ apart
  | .list closing => closing = .rightParen ∨ closing = .rightBrace
  | _ => True

section

variable {tokens : List Token} {apart : Prop} {p : Nat}

theorem Grouped.pass {kind : TokenKind} (h : kindAt tokens.toArray p = some kind)
    (noOpening : kind ≠ .leftBracket) (noClosing : kind ≠ .rightBracket)
    (next : apart → kind = .number → kindAt tokens.toArray (p + 1) ≠ some .identifier)
    (others : Grouped apart (tokens.drop (p + 1))) : Grouped apart (tokens.drop p) := by
  obtain ⟨token, rfl, split⟩ := exists_of_kindAt h
  rw [split]
  rw [← firstKind_drop] at next
  exact .other noOpening noClosing next others

/-- A token that is neither a number nor a bracket. -/
theorem Grouped.passMark {kind : TokenKind} (h : kindAt tokens.toArray p = some kind)
    (plain : kind ≠ .leftBracket ∧ kind ≠ .rightBracket ∧ kind ≠ .number)
    (others : Grouped apart (tokens.drop (p + 1))) : Grouped apart (tokens.drop p) :=
  .pass h plain.1 plain.2.1 (fun _ h => absurd h plain.2.2) others

theorem Grouped.passGroup (name : kindAt tokens.toArray p = some .identifier)
    (opening : kindAt tokens.toArray (p + 1) = some .leftBracket)
    (index : kindAt tokens.toArray (p + 2) = some .identifier ∨
      kindAt tokens.toArray (p + 2) = some .number)
    (closing : kindAt tokens.toArray (p + 3) = some .rightBracket)
    (next : apart → kindAt tokens.toArray (p + 4) ≠ some .identifier)
    (others : Grouped apart (tokens.drop (p + 4))) : Grouped apart (tokens.drop p) := by
  obtain ⟨nameToken, isName, first⟩ := exists_of_kindAt name
  obtain ⟨openingToken, opens, second⟩ := exists_of_kindAt opening
  obtain ⟨inside, isInside, third⟩ : ∃ inside : Token,
      (inside.kind = .identifier ∨ inside.kind = .number) ∧
        tokens.drop (p + 2) = inside :: tokens.drop (p + 3) := by
    rcases index with h | h <;> obtain ⟨inside, kind, split⟩ := exists_of_kindAt h
    · exact ⟨inside, .inl kind, split⟩
    · exact ⟨inside, .inr kind, split⟩
  obtain ⟨closingToken, closes, fourth⟩ := exists_of_kindAt closing
  rw [first, second, third, fourth]
  rw [← firstKind_drop] at next
  exact .group (g := ⟨nameToken, inside, closingToken⟩) isName opens isInside closes next others

/-- The operands behind a phrase start with an operator, if there are any. -/
theorem Reads.not_identifier_of_rest {tokens : Array Token} {rank : Rank} {p q : Nat}
    (h : Reads tokens (.rest rank) p q) (next : kindAt tokens q ≠ some .identifier) :
    kindAt tokens p ≠ some .identifier := by
  cases h with
  | restEnd _ => exact next
  | restMore operator _ _ => simp [kindAt_of_bind_operatorAt operator]

theorem Reads.not_identifier_of_others {tokens : Array Token} {p q : Nat}
    (h : Reads tokens .others p q) (next : kindAt tokens q ≠ some .identifier) :
    kindAt tokens p ≠ some .identifier := by
  cases h with
  | noOthers _ => exact next
  | others comma _ _ => simp [comma]

/-- A phrase falls apart into references and other tokens if what follows it does. -/
theorem Reads.grouped_drop (noLet : apart → ∀ i, functionAt tokens.toArray i ≠ some letName)
    {phrase : Phrase} {q : Nat} (h : Reads tokens.toArray phrase p q) (closed : phrase.Closed apart)
    (next : apart → kindAt tokens.toArray q ≠ some .identifier)
    (rest : Grouped apart (tokens.drop q)) : Grouped apart (tokens.drop p) := by
  induction h with
  | plain _ _ operand => exact operand trivial next rest
  | comparison _ operator _ left right =>
    have kind := kindAt_of_bind_operatorAt operator
    exact left trivial (by simp [kind]) (.passMark kind (by decide) (right trivial next rest))
  | level _ others first more =>
    refine first ?_ (fun h => others.not_identifier_of_rest (next h)) (more trivial next rest)
    cases ‹Rank› <;> trivial
  | restEnd _ => exact rest
  | restMore operator _ others operand more =>
    refine .passMark (kindAt_of_bind_operatorAt operator) (by decide) (operand ?_
      (fun h => others.not_identifier_of_rest (next h)) (more trivial next rest))
    cases ‹Rank› <;> trivial
  | negation sign _ operand =>
    exact .passMark (kindAt_of_operatorAt sign) (by decide) (operand trivial next rest)
  | percent _ _ sign operand =>
    have kind := kindAt_of_operatorAt sign
    exact operand trivial (by simp [kind]) (.passMark kind (by decide) rest)
  | unsigned _ _ _ operand => exact operand trivial next rest
  | number kind => exact .pass kind (by decide) (by decide) (fun h _ => next h) rest
  | string kind => exact .passMark kind (by decide) rest
  | array kind _ items => exact .passMark kind (by decide) (items (.inr rfl) next rest)
  | name kind _ _ => exact .passMark kind (by decide) rest
  | reference kind opening index closing => exact .passGroup kind opening index closing next rest
  | unknownCall kind opening _ arguments =>
    exact .passMark kind (by decide)
      (.passMark opening (by decide) (arguments (.inl rfl) next rest))
  | call function _ _ opening _ arguments =>
    exact .passMark (kindAt_of_functionAt function) (by decide)
      (.passMark opening (by decide) (arguments (.inl rfl) next rest))
  | letForm function opening _ closing bindings =>
    refine .passMark (kindAt_of_functionAt function) (by decide) (.passMark opening (by decide) ?_)
    exact bindings (fun h => noLet h _ function) (by simp [closing])
      (.passMark closing (by decide) rest)
  | lambdaForm function opening parameter comma _ closing body =>
    refine .passMark (kindAt_of_functionAt function) (by decide) (.passMark opening (by decide) ?_)
    refine .passMark parameter (by decide) (.passMark comma (by decide) ?_)
    refine body trivial (by simp [closing]) ?_
    exact .passMark closing (by decide) rest
  | parenthesized kind _ closing inner =>
    exact .passMark kind (by decide) (inner trivial (by simp [closing])
      (.passMark closing (by decide) rest))
  | emptyList kind => rcases closed with rfl | rfl <;> exact .passMark kind (by decide) rest
  | list _ _ others kind first more =>
    rcases closed with rfl | rfl <;>
      exact first trivial (fun _ => others.not_identifier_of_others (by simp [kind]))
        (more trivial (by simp [kind]) (.passMark kind (by decide) rest))
  | noOthers _ => exact rest
  | others comma _ others item more =>
    exact .passMark comma (by decide) (item trivial
      (fun h => others.not_identifier_of_others (next h)) (more trivial next rest))
  | body _ _ body => exact body trivial next rest
  | binding binds _ comma _ value more =>
    refine .passMark binds.1 (by decide) (.passMark binds.2 (by decide) ?_)
    refine value trivial (by simp [comma]) ?_
    exact .passMark comma (by decide) (more closed next rest)
  | lastBinding binds _ _ _ value body =>
    refine .passMark binds.1 (by decide) (.passMark binds.2 (by decide) ?_)
    refine value trivial (fun h => absurd h closed) ?_
    exact body trivial next rest

/-- A row of tokens that is read as an expression falls apart into references and other tokens. -/
theorem Reads.grouped (noLet : apart → ∀ i, functionAt tokens.toArray i ≠ some letName) {q : Nat}
    (h : Reads tokens.toArray .expression 0 q) (ends : EndsOnce tokens.toArray)
    (atEnd : kindAt tokens.toArray q = some .endMark) : Grouped apart tokens := by
  obtain ⟨token, isEnd, split⟩ := exists_of_kindAt atEnd
  have last : q + 1 = tokens.length := by simpa using (ends.mark_iff q).mp atEnd
  rw [last, List.drop_length] at split
  have finish : Grouped apart (tokens.drop q) := split ▸ .finish isEnd
  simpa using h.grouped_drop noLet trivial (by simp [atEnd]) finish

end

/-- The tokens of an evaluation that comes back fall apart into references and other tokens. -/
theorem grouped_of_evaluate {c : Context} {apart : Prop} {mode : Mode} {v : Value}
    (ends : EndsOnce c.tokens) (noLet : apart → ∀ i, functionAt c.tokens i ≠ some letName)
    (h : (evaluate c mode []).outcome = .ok v) : Grouped apart c.tokens.toList := by
  have row : ReadsRow c.tokens c.maxDepth.toNat :=
    Discipline.readsRow_of_evaluate (D := wellFormed _) ends trivial .nil h
  have last : kindAt c.tokens (c.tokens.size - 1) = some .endMark :=
    (ends.mark_iff _).mpr (by have := ends.pos; omega)
  have reads : Reads c.tokens.toList.toArray .expression 0 (c.tokens.size - 1) := row.reads
  exact reads.grouped noLet ends last

/-! ### References in the order of their look-ups -/

/-- Whether a substitution is one of a reference with brackets. -/
def Substitution.isBracketed (s : Substitution) : Bool := s.reference.toList.contains '['

/-- The substitutions of references with brackets in a journal. -/
def Journal.bracketed (j : Journal) : List Substitution :=
  j.substitutions.toList.filter Substitution.isBracketed

/-- A context in which names and references can be told apart by their brackets, nothing makes a
lambda and everything is noted. -/
structure Context.Telling (c : Context) : Prop where
  tracing : c.tracing = true
  names : ∀ p word, nameAt c.tokens p = some word → '[' ∉ word.toList
  slices : ∀ p g, GroupAt c.tokens p g → '[' ∈ (g.slice c.formula).toList
  noLambda : ∀ p, functionAt c.tokens p ≠ some lambdaName

namespace Journal

variable {c : Context} {j : Journal}

theorem bracketed_lookedUp (tracing : c.tracing = true) (metric : String) (index : Int)
    (reference : String) :
    (j.lookedUp c metric index reference).bracketed =
      j.bracketed ++ [⟨reference, metric, c.table.resolve metric index⟩].filter
        Substitution.isBracketed := by
  unfold bracketed lookedUp
  simp only [tracing, if_true, Array.toList_push, List.filter_append]

theorem bracketed_stepped (mode : Mode) (step : Step) :
    (j.stepped c mode step).bracketed = j.bracketed := by
  unfold stepped
  split <;> rfl

end Journal

/-- Live readings look references up in the order in which they stand. -/
def referenceAccount {c : Context} (telling : c.Telling) : Account c fun _ => False where
  Admits := (· = .live)
  leads p i q j := ∃ passed,
    groups (c.tokens.toList.drop p) = passed ++ groups (c.tokens.toList.drop q) ∧
    (∀ g ∈ passed, ∃ k, Rule.quarterIndex g.inside = .ok k) ∧
    j.bracketed = i.bracketed ++ passed.map (·.substitution c)
  refl _ _ := ⟨[], rfl, by simp, by simp⟩
  trans := by
    rintro p q r i j k ⟨first, before, indexed, noted⟩ ⟨second, behind, indexed', noted'⟩
    refine ⟨first ++ second, by simp [before, behind], ?_, by simp [noted, noted']⟩
    simpa [or_imp, forall_and] using ⟨indexed, indexed'⟩
  passed _ _ _ noBracket := ⟨[], groups_drop_succ noBracket, by simp, by simp⟩
  referred {p g} j _ here := by
    refine ⟨[g], groups_drop_group here, by simpa using here.indexed, ?_⟩
    rw [Journal.bracketed_lookedUp telling.tracing]
    have isBracketed : (g.substitution c).isBracketed = true := by
      simpa [Substitution.isBracketed, Group.substitution] using telling.slices p g here
    change j.bracketed ++ [g.substitution c].filter _ = _
    simp [isBracketed]
  skipped _ dry := by cases dry
  named {p word} j _ here := by
    refine ⟨[], rfl, by simp, ?_⟩
    rw [Journal.bracketed_lookedUp telling.tracing]
    simpa [Substitution.isBracketed] using telling.names p word here
  stepped p j _ _ := ⟨[], rfl, by simp, by simp [Journal.bracketed_stepped]⟩
  noticed _ _ _ _ := ⟨[], rfl, by simp, by simp [Journal.bracketed]⟩
  called _ impossible := impossible.elim
  lambda h := absurd h (telling.noLambda _)
  made h := absurd h (telling.noLambda _)

/-- Where nothing makes a lambda, an evaluation that comes back has looked up all references with
brackets, each once and in the order in which they stand. -/
theorem bracketed_of_evaluate {c : Context} (telling : c.Telling) (ends : EndsOnce c.tokens)
    {v : Value} (h : (evaluate c .live []).outcome = .ok v) :
    (∀ g ∈ groups c.tokens.toList, ∃ k, Rule.quarterIndex g.inside = .ok k) ∧
    (evaluate c .live []).journal.bracketed =
      (groups c.tokens.toList).map (·.substitution c) := by
  obtain ⟨q, ⟨passed, all, indexed, noted⟩, reads, atEnd⟩ :=
    ((referenceAccount telling).evaluate .live rfl).1 v h
  have last : groups (c.tokens.toList.drop q) = [] := by
    have inRow : kindAt c.tokens.toList.toArray q = some .endMark := atEnd
    obtain ⟨token, -, split⟩ := exists_of_kindAt inRow
    have size : q + 1 = c.tokens.toList.length := by simpa using (ends.mark_iff q).mp atEnd
    rw [split, size, List.drop_length]
    rfl
  rw [last, List.append_nil, List.drop_zero] at all
  rw [all]
  exact ⟨indexed, by simpa [Journal.bracketed] using noted⟩

/-- What an evaluator that keeps a trace puts into it. -/
theorem exists_trace {e : Evaluator} (tracing : e.settings.collectTrace = true) (written : String) :
    let chars := formulaChars written
    let journal := (evaluate (e.context chars) .live []).journal
    ∃ trace, (e.evaluate written).trace = some trace ∧
      trace.substitutions = journal.substitutions.toList ∧
      trace.substituted = substituted (String.ofList chars) journal.substitutions.toList :=
  ⟨_, if_pos tracing, rfl, rfl⟩

end Quarterly.Formula
