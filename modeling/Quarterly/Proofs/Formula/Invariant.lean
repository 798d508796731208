import Quarterly.Formula.Evaluation
import Quarterly.Proofs.Formula.Provenance
import Quarterly.Proofs.Outcome

/-!
# Lambdas inside values

Operators answer with scalars and library functions with values they were given, so a property of
lambdas that holds throughout the operands holds throughout the result. The same goes for the
scopes that bind such values.
-/

namespace Quarterly.Formula

/-- Every lambda in a value has a property. -/
inductive Value.EveryLambda (P : Lambda → Prop) : Value → Prop where
  | scalar {v} (h : v.IsScalar) : EveryLambda P v
  | array {identity items} (h : ∀ v ∈ items, EveryLambda P v) :
      EveryLambda P (.array identity items)
  | lambda {identity f} (h : P f) : EveryLambda P (.lambda identity f)

/-! ### Operators -/

theorem Value.isScalar_ofFinite (n : Number) : (Value.ofFinite n).IsScalar := by
  cases n with
  | int i => trivial
  | double x =>
    change (if x.isFinite then Value.number (.double x) else .null).IsScalar
    split <;> trivial

theorem eq_of_arithmetic {op : ArithmeticOp} {left right v : Value}
    (h : arithmetic op left right = .ok v) : v = .null ∨ ∃ n, v = .ofFinite n := by
  unfold arithmetic at h
  split at h
  · obtain ⟨n?, -, ⟨⟩⟩ := Except.bind_eq_ok.mp h
    cases n? with
    | none => exact .inl rfl
    | some n => exact .inr ⟨n, rfl⟩
  · cases h
    exact .inl rfl

theorem eq_of_percent {n : Number} {v : Value} (h : percent n = .ok v) :
    ∃ x, n.div (.int 100) = .ok x ∧ v = .number (.double x) := by
  obtain ⟨x, hx, ⟨⟩⟩ := Except.bind_eq_ok.mp h
  exact ⟨x, hx, rfl⟩

theorem isScalar_arithmetic {op : ArithmeticOp} {left right v : Value}
    (h : arithmetic op left right = .ok v) : v.IsScalar := by
  rcases eq_of_arithmetic h with rfl | ⟨n, rfl⟩
  · trivial
  · exact Value.isScalar_ofFinite n

theorem isScalar_negate (v : Value) : (negate v).IsScalar := by
  cases v <;> trivial

theorem isScalar_percent {n : Number} {v : Value} (h : percent n = .ok v) : v.IsScalar := by
  obtain ⟨x, -, rfl⟩ := eq_of_percent h
  trivial

theorem isScalar_lookupValue (found : Metric.Lookup Float) : (lookupValue found).IsScalar := by
  unfold lookupValue
  split <;> trivial

namespace Value.EveryLambda

variable {P : Lambda → Prop} {args : List Value} {v : Value}

theorem items {identity : Nat} {items : List Value}
    (h : (Value.array identity items).EveryLambda P) : ∀ v ∈ items, v.EveryLambda P := by
  cases h with
  | scalar h => exact h.elim
  | array h => exact h

theorem of_lambda {identity : Nat} {f : Lambda} (h : (Value.lambda identity f).EveryLambda P) :
    P f := by
  cases h with
  | scalar h => exact h.elim
  | lambda h => exact h

theorem toItems (h : v.EveryLambda P) : ∀ u ∈ v.toItems, u.EveryLambda P := by
  cases v with
  | array identity items => exact h.items
  | _ => simpa [Value.toItems] using h

theorem getD (h : ∀ v ∈ args, v.EveryLambda P) (i : Nat) :
    (args.getD i .null).EveryLambda P := by
  rw [List.getD_eq_getElem?_getD]
  cases hi : args[i]? with
  | none => exact .scalar trivial
  | some v => exact h v (List.mem_of_getElem? hi)

theorem of_from (h : ∀ v ∈ args, v.EveryLambda P) (hv : v.From args) : v.EveryLambda P := by
  cases hv with
  | scalar hv => exact .scalar hv
  | argument hv => exact h v hv
  | item array hv => exact (h _ array).items v hv

theorem answer {builtin : Builtin} {answer : Answer} (h : ∀ v ∈ args, v.EveryLambda P)
    (ha : builtin.apply args = .ok answer) : ∀ v ∈ answer.values, v.EveryLambda P :=
  fun v hv => of_from h (Builtin.from_apply ha v hv)

theorem mono {Q : Lambda → Prop} {v : Value} (imp : ∀ f, P f → Q f) :
    v.EveryLambda P → v.EveryLambda Q
  | .scalar h => .scalar h
  | .array h => .array fun u hu => mono imp (h u hu)
  | .lambda h => .lambda (imp _ h)

/-- A property that every lambda has. -/
theorem of_forall (h : ∀ f, P f) : ∀ v : Value, v.EveryLambda P
  | .null | .bool _ | .text _ | .number _ => .scalar trivial
  | .lambda _ f => .lambda (h f)
  | .array _ items => .array fun v _ => of_forall h v

end Value.EveryLambda

/-- What a name stands for in a scope is bound there. -/
theorem Scope.mem_of_lookup {scope : Scope} {name : String} {v : Value}
    (h : scope.lookup name = some v) : (name, v) ∈ scope := by
  obtain ⟨before, behind, rfl, -⟩ := List.lookup_eq_some_iff.mp h
  simp

/-- Every lambda in the values of a scope has a property. -/
def Keeps (P : Lambda → Prop) (scope : Scope) : Prop :=
  ∀ binding ∈ scope, binding.2.EveryLambda P

namespace Keeps

variable {P : Lambda → Prop} {scope : Scope}

theorem nil : Keeps P [] := List.forall_mem_nil _

theorem cons {name : String} {v : Value} (h : Keeps P scope) (hv : v.EveryLambda P) :
    Keeps P ((name, v) :: scope) :=
  List.forall_mem_cons.mpr ⟨hv, h⟩

theorem lookup {name : String} {v : Value} (h : Keeps P scope)
    (hv : scope.lookup name = some v) : v.EveryLambda P :=
  h _ (Scope.mem_of_lookup hv)

end Keeps

end Quarterly.Formula
