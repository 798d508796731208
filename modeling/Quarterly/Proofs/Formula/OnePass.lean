import Quarterly.Proofs.Formula.Renaming
import Quarterly.Proofs.Formula.Simulation
import Quarterly.Proofs.Formula.Skipping

/-!
# One pass

Evaluating a formula while it is read comes to the same as building its tree and evaluating that.
The simulation of expressions is by induction on how deep they may nest: lambda bodies are read two
levels further down. Depth is the one thing that trees know nothing of, and a body that is skipped
may fault where its calls would not; apart from that value, fault and the quarters looked at are
the same.
-/

namespace Quarterly.Formula

/-- Faults by depth, and faults that a renaming of the faults of skipping may have made. -/
def Excused (rename : Fault → Fault) (fault : Fault) : Prop :=
  (∃ limit, fault = .tooDeep limit) ∨ ∃ original, fault = rename original

section

variable {c : Context} {rename : Fault → Fault} {known : List (Nat × Tree .expression)}
  (placedKnown : ∀ b ∈ known, Placed c.tokens known b.2 0 b.1)

/-- Skipping a tree finds its end. -/
theorem skip_agrees {depth : Nat} {body : Scope → Eval Value} {t : Tree .expression} {p : Nat}
    {scope : Scope} (h : Placed c.tokens known t 0 p) :
    Agrees c (Excused rename) p (fun stop q => stop = p + t.width ∧ q = p)
      (Rule.skip { expression := expressionWith rename depth, body } scope)
      (pure (p + t.width)) := by
  rintro s rfl
  have same := journal_of_dry depth scope c s
  rw [run_skip]
  dsimp only
  rw [expressionWith]
  unfold renamed
  cases hr : expression depth .dry scope c s with
  | ok v s' =>
    rw [hr] at same
    have journal : s'.journal = s.journal := same
    have ends : s'.position = s.position + t.width := (Reads.of_ok hr).unique h.reads
    refine ⟨?_, ends, rfl⟩
    dsimp only [State.ledger]
    rw [journal, ends]
    rfl
  | error fault s' => exact .inl (.inr ⟨fault, rfl⟩)

include placedKnown

/-- The body that a lambda call looks up ends where the lambda says. -/
theorem Lambda.Among.lookup {f : Lambda} (h : f.Among known) :
    ∃ body, known.lookup f.start = some body ∧ Placed c.tokens known body 0 f.start ∧
      f.stop = f.start + body.width := by
  obtain ⟨body, mem, stop⟩ := h
  have found : (known.lookup f.start).isSome :=
    List.lookup_isSome_iff.mpr ⟨_, mem, beq_self_eq_true _⟩
  obtain ⟨other, hl⟩ := Option.isSome_iff_exists.mp found
  have among : (f.start, other) ∈ known := by
    obtain ⟨before, behind, split, -⟩ := List.lookup_eq_some_iff.mp hl
    simp [split]
  have placed : Placed c.tokens known other 0 f.start := placedKnown _ among
  have reads : Reads c.tokens .expression f.start (f.start + body.width) :=
    (placedKnown _ mem).reads
  exact ⟨other, hl, placed, stop.trans (reads.unique placed.reads)⟩

/-- Readings of expressions agree with evaluations of their trees when lambda calls of the trees
may nest as deep as the expressions of the readings. -/
theorem expressionWith_agrees (depth : Nat) {calls : Nat} (enough : depth ≤ calls)
    {t : Tree .expression} {p : Nat} {scope : Scope} (h : Placed c.tokens known t 0 p)
    (keeps : Keeps (Lambda.Among known) scope) :
    Agrees c (Excused rename) p (Arrives known (p + t.width))
      (expressionWith rename depth .live scope)
      (t.value (Tree.callLambda known calls) p scope) := by
  induction depth using Nat.strongRecOn generalizing calls t p scope with
  | _ depth ih =>
    cases depth with
    | zero => exact .excuse fun s => ⟨_, s, run_tooDeep c s, .inl ⟨_, rfl⟩⟩
    | succ depth =>
      obtain ⟨calls, rfl⟩ := Nat.exists_eq_succ_of_ne_zero (by omega : calls ≠ 0)
      rw [expressionWith_succ]
      refine Simulates.compared ?_ keeps h
      -- Expressions inside have one level less; bodies that are called have two, and the calls
      -- of the tree have one less.
      refine ⟨fun placed keeps => ih depth (by omega) (by omega) placed keeps, skip_agrees, ?_⟩
      intro p scope f argument hf keeps hv
      obtain ⟨body, found, placed, stop⟩ := hf.lookup placedKnown
      have value : Tree.callLambda known (calls + 1) scope f argument =
          body.value (Tree.callLambda known calls) f.start ((f.parameter, argument) :: scope) := by
        rw [Tree.callLambda, found]
      rw [value, ← bind_pure (body.value _ _ _)]
      refine .elsewhere (ih (depth - 1) (by omega) (by omega) placed (keeps.cons hv)) ?_
      rintro v _ ⟨rfl, hv⟩
      dsimp only
      rw [if_neg (not_not_intro stop.symm)]
      exact .pure ⟨rfl, hv⟩

end

/-! ### Whole formulas -/

section

variable {tokens : Array Token}

/-- A tree that the whole row of tokens writes is placed at the start. -/
theorem Placed.whole {t : Tree .expression}
    (written : tokens.toList.map Token.word = t.write ++ [.mark .endMark]) :
    Placed tokens (t.bodies 0) t 0 0 ∧ wordAt tokens (0 + t.width) = some (.mark .endMark) := by
  have row : WrittenAt tokens 0 (t.write ++ [.mark .endMark]) := writtenAt_of_drop written
  obtain ⟨writtenTree, last, -⟩ := writtenAt_append.mp row
  exact ⟨⟨writtenTree, .of_mark last (by decide), fun _ hb => hb⟩, last⟩

end

section

variable {c : Context} {t : Tree .expression} {scope : Scope} {calls : Nat}

theorem readAllWith_agrees (rename : Fault → Fault)
    (written : c.tokens.toList.map Token.word = t.write ++ [.mark .endMark])
    (keeps : Keeps (fun _ => False) scope) {depth : Nat} (enough : depth ≤ calls) :
    Agrees c (Excused rename) 0 (fun _ _ => True) (readAllWith rename depth scope)
      (t.evaluate calls scope) := by
  obtain ⟨placed, last⟩ := Placed.whole written
  have keepsBodies : Keeps (Lambda.Among (t.bodies 0)) scope :=
    fun b hb => (keeps b hb).mono fun _ h => h.elim
  refine .after (expressionWith_agrees (Placed.bodies_placed t placed) depth enough placed
    keepsBodies) ?_
  rintro v _ ⟨rfl, -⟩
  refine .peek last fun token hw => ?_
  have kind : token.kind = .endMark := congrArg Word.kind hw
  rw [if_neg (not_not_intro kind)]
  exact .pure trivial

end

/-- The tree of `MAP("a",LAMBDA(x,x))`. -/
def mappingTree : Tree .expression :=
  operand (.call .map [operand (.string "a"), operand (.lambdaForm "x" (operand (.name "x")))])
where
  operand (t : Tree .primary) : Tree .expression := .plain (.alone (.alone (.unsigned t)))

end Quarterly.Formula
