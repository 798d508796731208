import Quarterly.Proofs.Number.Finite

/-!
# When operations on numbers fault

An operation faults only where an integer beyond the range of the doubles has to become a double:
because it meets a double, or because it is asked for something that only doubles can tell. So sums
of integers never fault, but a sum of integers and doubles faults if the integers in front of the
first double add up to too much.
-/

namespace Quarterly

/-! ### Faults under a condition -/

/-- A computation faults exactly under a condition, and then for one of some causes. -/
def FaultsWhen {ε α : Type} (Cause : ε → Prop) (p : Prop) : Except ε α → Prop
  | .ok _ => ¬ p
  | .error cause => Cause cause ∧ p

namespace FaultsWhen

variable {ε α β : Type} {Cause : ε → Prop} {p q : Prop}

theorem pure {a : α} (h : ¬ p) : FaultsWhen Cause p (.ok a) := h

theorem throw {cause : ε} (h : Cause cause) (hp : p) :
    FaultsWhen Cause p (.error cause : Except ε α) := ⟨h, hp⟩

/-- What comes first faults for the whole; what follows may rely on its not having done so. -/
theorem bind {x : Except ε α} {f : α → Except ε β} (hx : FaultsWhen Cause q x) (first : q → p)
    (hf : ∀ a, x = .ok a → ¬ q → FaultsWhen Cause p (f a)) : FaultsWhen Cause p (x >>= f) := by
  cases x with
  | ok a => exact hf a rfl hx
  | error cause => exact ⟨hx.1, first hx.2⟩

theorem congr {x : Except ε α} (h : FaultsWhen Cause q x) (same : p ↔ q) :
    FaultsWhen Cause p x := by
  rwa [propext same]

theorem mono {Cause' : ε → Prop} {x : Except ε α} (h : FaultsWhen Cause p x)
    (imp : ∀ cause, Cause cause → Cause' cause) : FaultsWhen Cause' p x := by
  cases x with
  | ok a => exact h
  | error cause => exact ⟨imp cause h.1, h.2⟩

theorem ite {c : Prop} [Decidable c] {x y : Except ε α} (yes : c → FaultsWhen Cause p x)
    (no : ¬ c → FaultsWhen Cause p y) : FaultsWhen Cause p (if c then x else y) := by
  split
  · exact yes ‹_›
  · exact no ‹_›

/-- A result is used, whatever it is. -/
theorem map {x : Except ε α} {f : α → β} (h : FaultsWhen Cause p x) :
    FaultsWhen Cause p (x >>= fun a => Except.ok (f a)) :=
  h.bind id fun _ _ hq => hq

theorem exists_ok_iff {x : Except ε α} (h : FaultsWhen Cause p x) : (∃ a, x = .ok a) ↔ ¬ p := by
  cases x with
  | ok a => exact iff_of_true ⟨a, rfl⟩ h
  | error cause => exact iff_of_false nofun (not_not_intro h.2)

theorem exists_ok {x : Except ε α} (h : FaultsWhen Cause p x) (hp : ¬ p) : ∃ a, x = .ok a :=
  h.exists_ok_iff.mpr hp

theorem exists_error {x : Except ε α} (h : FaultsWhen Cause p x) (hp : p) :
    ∃ cause, x = .error cause ∧ Cause cause := by
  cases x with
  | ok a => exact absurd hp h
  | error cause => exact ⟨cause, rfl, h.1⟩

theorem cause {x : Except ε α} (h : FaultsWhen Cause p x) {cause : ε} (hx : x = .error cause) :
    Cause cause := by
  rw [hx] at h
  exact h.1

end FaultsWhen

namespace Number

/-- An integer beyond the range of the doubles. -/
def Oversized : Number → Prop
  | int i => Binary64.overflowBound ≤ i.natAbs
  | double _ => False

/-- An integer beyond the range of the doubles meets a double. -/
def Clashes : Number → Number → Prop
  | int i, double _ => (int i).Oversized
  | double _, int j => (int j).Oversized
  | _, _ => False

/-- The quotient of two integers is beyond the range of the doubles, or one of two numbers is an
integer beyond that range and the other one a double. -/
def QuotientOverflows : Number → Number → Prop
  | int i, int j => Binary64.overflowBound * j.natAbs ≤ i.natAbs
  | a, b => a.Clashes b

instance : DecidablePred Oversized
  | int i => inferInstanceAs (Decidable (_ ≤ i.natAbs))
  | double _ => inferInstanceAs (Decidable False)

instance : DecidableRel Clashes
  | int i, double _ => inferInstanceAs (Decidable (int i).Oversized)
  | double _, int j => inferInstanceAs (Decidable (int j).Oversized)
  | int _, int _ => inferInstanceAs (Decidable False)
  | double _, double _ => inferInstanceAs (Decidable False)

/-! ### Conversion -/

section

variable {n a b : Number}

theorem faults_toDouble (n : Number) :
    FaultsWhen NumericFault.IsOverflow n.Oversized n.toDouble := by
  cases n with
  | double x => exact id
  | int i =>
    cases h : (int i).toDouble with
    | error cause =>
      obtain ⟨rfl, _, ⟨⟩, large⟩ := toDouble_eq_error_iff.mp h
      exact .throw .integer large
    | ok x =>
      refine .pure fun large => ?_
      rw [toDouble_eq_error_iff.mpr ⟨rfl, i, rfl, large⟩] at h
      cases h

theorem faults_isNaN (n : Number) : FaultsWhen NumericFault.IsOverflow n.Oversized n.isNaN :=
  n.faults_toDouble.map

theorem faults_isFinite (n : Number) :
    FaultsWhen NumericFault.IsOverflow n.Oversized n.isFinite :=
  n.faults_toDouble.map

theorem faults_sqrt (n : Number) : FaultsWhen NumericFault.IsOverflow n.Oversized n.sqrt :=
  n.faults_toDouble.map

/-- No integer has NaN for a double. -/
theorem isNaN_int {i : Int} (small : ¬ (int i).Oversized) : (int i).isNaN = .ok false := by
  obtain ⟨x, hx⟩ := (int i).faults_toDouble.exists_ok small
  have finite := isFinite_toDouble (n := int i) trivial hx
  unfold isNaN
  rw [hx]
  change Except.ok x.isNaN = _
  rw [Binary64.isNaN_of_isFinite finite]

/-! ### Arithmetic -/

/-- An operation on two integers, or on two numbers that have doubles. -/
theorem faults_lift (onInts : Int → Int → Int) (onDoubles : Float → Float → Float) (a b : Number) :
    FaultsWhen NumericFault.IsOverflow (a.Clashes b) (lift onInts onDoubles a b) := by
  cases a with
  | int i =>
    cases b with
    | int j => exact id
    | double y =>
      exact (int i).faults_toDouble.bind id fun _ _ small => .pure small
  | double x =>
    cases b with
    | int j => exact (int j).faults_toDouble.map
    | double y => exact id

theorem faults_add (a b : Number) : FaultsWhen NumericFault.IsOverflow (a.Clashes b) (a.add b) :=
  faults_lift _ _ a b

theorem faults_sub (a b : Number) : FaultsWhen NumericFault.IsOverflow (a.Clashes b) (a.sub b) :=
  faults_lift _ _ a b

theorem faults_mul (a b : Number) : FaultsWhen NumericFault.IsOverflow (a.Clashes b) (a.mul b) :=
  faults_lift _ _ a b

-- Integers among themselves may be as large as they like.
example : (int (10 ^ 400)).Clashes (double 0.5) ∧ ¬ (int (10 ^ 400)).Clashes (int 1) := by
  decide +kernel

theorem faults_div (nonzero : b.equal (int 0) = false) :
    FaultsWhen NumericFault.IsOverflow (a.QuotientOverflows b) (a.div b) := by
  have doubles : FaultsWhen NumericFault.IsOverflow (a.Oversized ∨ b.Oversized) (do
      let x ← a.toDouble
      let y ← b.toDouble
      if y == 0 then throw .zeroDivisor else Pure.pure (x / y)) := by
    refine a.faults_toDouble.bind .inl fun x _ small => ?_
    refine b.faults_toDouble.bind .inr fun y hy small' => ?_
    rw [toDouble_ne_zero nonzero hy]
    exact .pure fun large => large.elim small small'
  cases a with
  | double x => exact doubles.congr (by cases b <;> simp [QuotientOverflows, Clashes, Oversized])
  | int i =>
    cases b with
    | double y => exact doubles.congr (by simp [QuotientOverflows, Clashes, Oversized])
    | int j =>
      have notZero : j ≠ 0 := by
        rintro rfl
        exact absurd nonzero (by decide)
      change FaultsWhen _ _ (divideInts i j)
      unfold divideInts
      rw [if_neg notZero]
      dsimp only
      have beyond := Binary64.isInf_nearest (decide (i < 0) != decide (j < 0)) i.natAbs
        (Int.natAbs_ne_zero.mpr notZero)
      split
      · rename_i infinite
        rw [infinite] at beyond
        have large : Binary64.overflowBound * j.natAbs ≤ i.natAbs :=
          of_decide_eq_true beyond.symm
        exact .throw .quotient large
      · rename_i finite
        rw [Bool.eq_false_of_not_eq_true finite] at beyond
        have small : ¬ Binary64.overflowBound * j.natAbs ≤ i.natAbs :=
          of_decide_eq_false beyond.symm
        exact .pure small

/-! ### Integer parts -/

theorem exists_floor {n : Number} (finite : n.IsFinite) : ∃ i, n.floor = .ok i := by
  cases n with
  | int i => exact ⟨i, rfl⟩
  | double x =>
    obtain ⟨negative, mantissa, exponent, content⟩ := Binary64.finite_of_isFinite finite
    change ∃ i, floorDouble x = .ok i
    unfold floorDouble
    rw [content]
    exact ⟨_, rfl⟩

/-- A number that is finite as a double has an integer next to it. -/
theorem exists_roundHalfUp (small : ¬ n.Oversized) (finite : n.IsFinite) :
    ∃ i, n.roundHalfUp = .ok i := by
  obtain ⟨x, hx⟩ := n.faults_toDouble.exists_ok small
  have sum : n.add (double 0.5) = .ok (double (x + 0.5)) := by
    cases n with
    | int i =>
      change (int i).toDouble >>= _ = _
      rw [hx]
      rfl
    | double y =>
      cases hx
      rfl
  unfold roundHalfUp
  rw [sum]
  have half : (double (x + 0.5)).IsFinite :=
    Binary64.isFinite_add_half (isFinite_toDouble finite hx)
  exact exists_floor half

end

/-! ### Sums -/

/-- What an integer and a double come to is a double. -/
theorem exists_double_of_lift {onInts : Int → Int → Int} {onDoubles : Float → Float → Float}
    {i : Int} {x : Float} {n : Number} (h : lift onInts onDoubles (int i) (double x) = .ok n) :
    ∃ y, n = double y := by
  obtain ⟨y, -, ⟨⟩⟩ := Except.bind_eq_ok.mp h
  exact ⟨_, rfl⟩

/-- The sum of the integers in front of the first double. -/
def leadingSum : List Number → Int
  | [] => 0
  | int i :: rest => i + leadingSum rest
  | double _ :: _ => 0

/-- From a double on all sums are doubles. -/
theorem sum_double {ns : List Number} (small : ∀ n ∈ ns, ¬ n.Oversized) (x : Float) :
    ∃ y, ns.foldlM add (double x) = .ok (double y) := by
  induction ns generalizing x with
  | nil => exact ⟨x, rfl⟩
  | cons n rest ih =>
    obtain ⟨first, others⟩ := List.forall_mem_cons.mp small
    obtain ⟨y, hy⟩ := n.faults_toDouble.exists_ok first
    have sum : (double x).add n = .ok (double (x + y)) := by
      cases n with
      | int j =>
        change (int j).toDouble >>= _ = _
        rw [hy]
        rfl
      | double z =>
        cases hy
        rfl
    rw [List.foldlM_cons, sum]
    exact ih others (x + y)

/-- Numbers that all have doubles, added to an integer: the sum faults at the first double if the
integers before add up to too much; else it is a double if there is one, and exact if not. -/
theorem faults_foldlM {ns : List Number} (small : ∀ n ∈ ns, ¬ n.Oversized) (total : Int) :
    FaultsWhen NumericFault.IsOverflow
      ((∃ x, double x ∈ ns) ∧ (int (total + leadingSum ns)).Oversized)
      (ns.foldlM add (int total)) ∧
    ∀ n, ns.foldlM add (int total) = .ok n →
      (∃ x, double x ∈ ns) ∧ (∃ y, n = double y) ∨
        (∀ x, double x ∉ ns) ∧ n = int (total + leadingSum ns) := by
  induction ns generalizing total with
  | nil =>
    refine ⟨.pure (by simp), ?_⟩
    rintro _ ⟨⟩
    exact .inr ⟨by simp, by rw [leadingSum, Int.add_zero]⟩
  | cons n rest ih =>
    obtain ⟨-, others⟩ := List.forall_mem_cons.mp small
    cases n with
    | int i =>
      have step : (int i :: rest).foldlM add (int total) = rest.foldlM add (int (total + i)) := rfl
      rw [step, leadingSum, ← Int.add_assoc]
      simpa using ih others (total + i)
    | double x =>
      have sum := (int total).faults_add (double x)
      have member : ∃ y, double y ∈ double x :: rest := ⟨x, List.mem_cons_self⟩
      rw [leadingSum, Int.add_zero, List.foldlM_cons]
      cases h : (int total).add (double x) with
      | error cause =>
        rw [h] at sum
        exact ⟨.throw sum.1 ⟨member, sum.2⟩, nofun⟩
      | ok n =>
        rw [h] at sum
        obtain ⟨y, rfl⟩ := exists_double_of_lift h
        obtain ⟨z, hz⟩ := sum_double others y
        change FaultsWhen _ _ (rest.foldlM add (double y)) ∧ ∀ n,
          rest.foldlM add (double y) = .ok n → _
        rw [hz]
        refine ⟨.pure fun both => sum both.2, ?_⟩
        rintro _ ⟨⟩
        exact .inl ⟨member, z, rfl⟩

section

variable {ns : List Number} (small : ∀ n ∈ ns, ¬ n.Oversized)

include small

theorem faults_sum : FaultsWhen NumericFault.IsOverflow
    ((∃ x, double x ∈ ns) ∧ (int (leadingSum ns)).Oversized) (sum ns) := by
  have faults := (faults_foldlM small 0).1
  rwa [Int.zero_add] at faults

theorem sum_kind {total : Number} (h : sum ns = .ok total) :
    (∃ x, double x ∈ ns) ∧ (∃ y, total = double y) ∨
      (∀ x, double x ∉ ns) ∧ total = int (leadingSum ns) := by
  have kind := (faults_foldlM small 0).2 total h
  rwa [Int.zero_add] at kind

/-- A sum that comes back has a double unless the integers in front add up to too much. -/
theorem oversized_sum_iff {total : Number} (h : sum ns = .ok total) :
    total.Oversized ↔ (int (leadingSum ns)).Oversized := by
  rcases sum_kind small h with ⟨mixed, y, rfl⟩ | ⟨-, rfl⟩
  · have faults := faults_sum small
    rw [h] at faults
    exact iff_of_false id fun large => faults ⟨mixed, large⟩
  · exact Iff.rfl

end

end Number

end Quarterly
