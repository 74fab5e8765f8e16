import Mathlib.Data.List.Count
import ScriptEngine.Proofs.Evaluation.Outcome

/-!
Equality after conversion as a loop. Two values are looked at again and again, and unless that decides whether they are
equal one of them is replaced: a boolean by a number, an object by its primitive value. Nothing that is put there is an
object, so no side is converted twice, and the comparison always ends as if it had been decided at once.
-/

namespace ScriptEngine

/-- What may be replaced on the way: a boolean or an object, on either side. -/
inductive Replacing where
  | leftBoolean
  | rightBoolean
  | leftObject
  | rightObject
  deriving DecidableEq

/-- What a look at two values shows: whether they are equal, or what is to be replaced. -/
inductive Verdict where
  | equal (b : Bool)
  | replace (r : Replacing)

namespace Value

variable {x y : Value}

/-- One look at two values. -/
def verdict : Value → Value → Verdict
  | undefined, undefined | undefined, null | null, undefined | null, null => .equal true
  | number a, number b => .equal (a.eq b)
  | string a, string b => .equal (a == b)
  | boolean a, boolean b => .equal (a == b)
  | object a, object b => .equal (a == b)
  | number a, string b => .equal (a.eq (.ofText b))
  | string a, number b => .equal ((Number.ofText a).eq b)
  | boolean _, _ => .replace .leftBoolean
  | _, boolean _ => .replace .rightBoolean
  | number _, object _ | string _, object _ => .replace .rightObject
  | object _, number _ | object _, string _ => .replace .leftObject
  | _, _ => .equal false

/-- Two values of the same type. -/
def sameType : Value → Value → Bool
  | undefined, undefined | null, null => true
  | boolean _, boolean _ | number _, number _ | string _, string _ | object _, object _ => true
  | _, _ => false

end Value

/-- The same on the other side. -/
def Replacing.mirrored : Replacing → Replacing
  | leftBoolean => rightBoolean
  | rightBoolean => leftBoolean
  | leftObject => rightObject
  | rightObject => leftObject

def Verdict.mirrored : Verdict → Verdict
  | equal b => equal b
  | replace r => replace r.mirrored

/-- Two values with one of them replaced. -/
def replaced (engine : Engine) (x y : Value) : Replacing → Eval (Value × Value)
  | .leftBoolean => return (x.unboolean, y)
  | .rightBoolean => return (x, y.unboolean)
  | .leftObject => return (← toPrimitive engine x .any, y)
  | .rightObject => return (x, ← toPrimitive engine y .any)

/-- The comparison of two values on a machine, with all that is replaced on the way, what it comes to and the machine
that it leaves. -/
inductive Compares (engine : Engine) :
    Machine → Value → Value → List Replacing → Except Abrupt Bool × Machine → Prop where
  | decided {m : Machine} {x y : Value} {b : Bool} (seen : x.verdict y = .equal b) :
      Compares engine m x y [] (.ok b, m)
  | goesOn {m next : Machine} {x y x' y' : Value} {r : Replacing} {rest : List Replacing}
      {result : Except Abrupt Bool × Machine} (seen : x.verdict y = .replace r)
      (done : m.run (replaced engine x y r) = (.ok (x', y'), next)) (later : Compares engine next x' y' rest result) :
      Compares engine m x y (r :: rest) result
  | fails {m after : Machine} {x y : Value} {r : Replacing} {e : Abrupt} (seen : x.verdict y = .replace r)
      (failed : m.run (replaced engine x y r) = (.error e, after)) : Compares engine m x y [r] (.error e, after)

variable {engine : Engine} {m after : Machine} {x y : Value} {steps : List Replacing}
  {result : Except Abrupt Bool × Machine}

/-- Everything about a comparison is determined by how it begins. -/
theorem Compares.unique {other : List Replacing} {result' : Except Abrupt Bool × Machine}
    (compares : Compares engine m x y steps result) (again : Compares engine m x y other result') :
    other = steps ∧ result' = result := by
  induction compares generalizing other result' with
  | decided seen =>
    cases again with
    | decided seen' => cases seen.symm.trans seen'; exact ⟨rfl, rfl⟩
    | goesOn seen' => cases seen.symm.trans seen'
    | fails seen' => cases seen.symm.trans seen'
  | goesOn seen done _ ih =>
    cases again with
    | decided seen' => cases seen.symm.trans seen'
    | goesOn seen' done' later' =>
      cases seen.symm.trans seen'
      cases done.symm.trans done'
      obtain ⟨rfl, rfl⟩ := ih later'
      exact ⟨rfl, rfl⟩
    | fails seen' failed =>
      cases seen.symm.trans seen'
      cases done.symm.trans failed
  | fails seen failed =>
    cases again with
    | decided seen' => cases seen.symm.trans seen'
    | goesOn seen' done' later' =>
      cases seen.symm.trans seen'
      cases failed.symm.trans done'
    | fails seen' failed' =>
      cases seen.symm.trans seen'
      cases failed.symm.trans failed'
      exact ⟨rfl, rfl⟩

/-! ## The other way round -/

theorem Number.eq_comm (a b : Number) : a.eq b = b.eq a := by
  cases a <;> cases b
  case finite.finite s m e _ t n f _ =>
    rw [Bool.eq_iff_iff]
    simp only [Number.eq, Bool.and_eq_true, Bool.or_eq_true, beq_iff_eq]
    constructor <;> (rintro ⟨⟨rfl, rfl⟩, same⟩; exact ⟨⟨rfl, rfl⟩, same.imp_left Eq.symm⟩)
  all_goals simp [Number.eq, Bool.beq_comm]

theorem Replacing.mirrored_injective : Function.Injective mirrored := by
  intro r r' same
  cases r <;> cases r' <;> first | rfl | cases same

theorem Value.verdict_mirrored (x y : Value) : y.verdict x = (x.verdict y).mirrored := by
  cases x <;> cases y <;> simp [verdict, Verdict.mirrored, Replacing.mirrored, Number.eq_comm, Bool.beq_comm]

theorem replaced_mirrored (engine : Engine) (x y : Value) (r : Replacing) :
    replaced engine y x r.mirrored = Prod.swap <$> replaced engine x y r := by
  cases r <;> simp [replaced, Replacing.mirrored]

/-- With its sides exchanged, a comparison replaces the same on the other side. -/
theorem Compares.mirrored (compares : Compares engine m x y steps result) :
    Compares engine m y x (steps.map Replacing.mirrored) result := by
  induction compares with
  | @decided _ x y _ seen => exact .decided (by rw [Value.verdict_mirrored, seen]; rfl)
  | @goesOn _ _ x y _ _ _ _ _ seen done _ ih =>
    refine .goesOn (by rw [Value.verdict_mirrored, seen]; rfl) ?_ ih
    rw [replaced_mirrored, map_eq_pure_bind, Machine.run_bind_ok done]
    rfl
  | @fails _ _ x y _ _ seen failed =>
    refine .fails (by rw [Value.verdict_mirrored, seen]; rfl) ?_
    rw [replaced_mirrored, map_eq_pure_bind, Machine.run_bind_error failed]

theorem Value.looselyEquals_comm (x y : Value) : x.looselyEquals y = y.looselyEquals x := by
  cases x <;> cases y <;> simp [looselyEquals, unboolean, Number.eq_comm, Bool.beq_comm]

theorem looseEquals_comm (engine : Engine) (x y : Value) : looseEquals engine x y = looseEquals engine y x := by
  cases x <;> cases y <;> simp [looseEquals, Value.looselyEquals_comm, Bool.beq_comm]

/-! ## Conversion -/

/-- What the methods of an object give is passed over if it is an object. -/
theorem firstPrimitive_yields (engine : Engine) (id : ObjectId) (names : List String) :
    Yields (fun v => v.isObject = false) (firstPrimitive engine id names) := by
  induction names with
  | nil => exact .after fun _ => .throw _
  | cons name rest ih =>
    refine .after fun method => .after fun callable => .ite (.after fun result => ?_) ih
    by_cases object : result.isObject = true
    · rw [if_pos object]
      exact ih
    · rw [if_neg object]
      exact .pure (by simpa using object)

theorem toPrimitive_yields (engine : Engine) (value : Value) (hint : Hint) :
    Yields (fun v => v.isObject = false) (toPrimitive engine value hint) := by
  cases value with
  | object id => exact firstPrimitive_yields engine id _
  | _ => exact .pure rfl

/-! ## Every comparison ends -/

/-- At most so many values are replaced, and an object on either side at most once, if there is one. -/
structure Brief (x y : Value) (most : Nat) (steps : List Replacing) : Prop where
  few : steps.length ≤ most
  left : steps.count .leftObject ≤ x.isObject.toNat
  right : steps.count .rightObject ≤ y.isObject.toNat

theorem Brief.mirrored {most : Nat} (brief : Brief x y most steps) :
    Brief y x most (steps.map Replacing.mirrored) where
  few := by
    rw [List.length_map]
    exact brief.few
  left := List.count_map_of_injective steps _ Replacing.mirrored_injective .rightObject ▸ brief.right
  right := List.count_map_of_injective steps _ Replacing.mirrored_injective .leftObject ▸ brief.left

/-- Of two primitive values one is a boolean to be replaced by a number, or all is decided. -/
theorem verdict_of_primitives (plain : x.isObject = false) (plain' : y.isObject = false) :
    x.verdict y = .equal (x.looselyEquals y) ∨
    x.verdict y = .replace .leftBoolean ∧ x.unboolean.verdict y = .equal (x.looselyEquals y) ∨
    x.verdict y = .replace .rightBoolean ∧ x.verdict y.unboolean = .equal (x.looselyEquals y) := by
  cases x <;> cases y
  case boolean.boolean a b =>
    left
    cases a <;> cases b <;> rfl
  all_goals simp_all [Value.verdict, Value.looselyEquals, Value.unboolean, Value.isObject]

/-- Two primitive values are compared without a conversion. -/
theorem primitives_compare (engine : Engine) (m : Machine) (plain : x.isObject = false) (plain' : y.isObject = false) :
    ∃ steps, Compares engine m x y steps (.ok (x.looselyEquals y), m) ∧
      (steps = [] ∨ steps = [.leftBoolean] ∨ steps = [.rightBoolean]) := by
  rcases verdict_of_primitives plain plain' with decided | ⟨left, decided⟩ | ⟨right, decided⟩
  · exact ⟨[], .decided decided, .inl rfl⟩
  · exact ⟨[.leftBoolean], .goesOn left rfl (.decided decided), .inr (.inl rfl)⟩
  · exact ⟨[.rightBoolean], .goesOn right rfl (.decided decided), .inr (.inr rfl)⟩

/-- An object is converted, and then two primitive values are left. -/
theorem object_compares (engine : Engine) (m : Machine) {id : ObjectId}
    (seen : (Value.object id).verdict y = .replace .leftObject) (plain : y.isObject = false) :
    ∃ steps, Compares engine m (.object id) y steps
        (m.run (toPrimitive engine (.object id) .any >>= fun x => pure (x.looselyEquals y))) ∧
      Brief (.object id) y 2 steps := by
  cases ran : m.run (toPrimitive engine (.object id) .any) with
  | mk outcome after =>
    cases outcome with
    | error e =>
      rw [Machine.run_bind_error ran]
      exact ⟨[.leftObject], .fails seen (Machine.run_bind_error ran _), ⟨by decide, Nat.le_refl 1, Nat.zero_le _⟩⟩
    | ok v =>
      have primitive : v.isObject = false := toPrimitive_yields engine _ _ m v (by rw [ran])
      obtain ⟨steps, compares, all⟩ := primitives_compare engine after primitive plain
      rw [Machine.run_bind_ok ran]
      refine ⟨.leftObject :: steps, .goesOn seen (Machine.run_bind_ok ran _) compares, ?_⟩
      rcases all with rfl | rfl | rfl <;> exact ⟨by decide, Nat.le_refl 1, Nat.zero_le _⟩

/-- An object is compared with a primitive value. -/
theorem object_compares_primitive (engine : Engine) (m : Machine) (id : ObjectId) (plain : y.isObject = false) :
    ∃ steps, Compares engine m (.object id) y steps (m.run (looseEquals engine (.object id) y)) ∧
      Brief (.object id) y 3 steps := by
  cases y with
  | object => cases plain
  | undefined => exact ⟨[], .decided rfl, ⟨Nat.zero_le _, Nat.zero_le _, Nat.zero_le _⟩⟩
  | null => exact ⟨[], .decided rfl, ⟨Nat.zero_le _, Nat.zero_le _, Nat.zero_le _⟩⟩
  | number n =>
    obtain ⟨steps, compares, brief⟩ := object_compares engine m (y := .number n) rfl rfl
    exact ⟨steps, compares, ⟨Nat.le_succ_of_le brief.few, brief.left, brief.right⟩⟩
  | string s =>
    obtain ⟨steps, compares, brief⟩ := object_compares engine m (y := .string s) rfl rfl
    exact ⟨steps, compares, ⟨Nat.le_succ_of_le brief.few, brief.left, brief.right⟩⟩
  | boolean b =>
    -- The boolean is replaced first, which the conversion of the object does not see.
    obtain ⟨steps, compares, brief⟩ := object_compares engine m (y := .number (Value.numberOfBool b)) rfl rfl
    refine ⟨.rightBoolean :: steps, .goesOn rfl rfl compares, ⟨Nat.succ_le_succ brief.few, ?_, ?_⟩⟩
    · rw [List.count_cons_of_ne (by decide)]
      exact brief.left
    · rw [List.count_cons_of_ne (by decide)]
      exact brief.right

theorem Value.object_or_primitive (v : Value) : (∃ id, v = .object id) ∨ v.isObject = false := by
  cases v with
  | object id => exact .inl ⟨id, rfl⟩
  | _ => exact .inr rfl

theorem run_looseEquals_primitives (engine : Engine) (m : Machine) (plain : x.isObject = false)
    (plain' : y.isObject = false) : m.run (looseEquals engine x y) = (.ok (x.looselyEquals y), m) := by
  cases x <;> cases y <;> first | rfl | exact Bool.noConfusion plain | exact Bool.noConfusion plain'

/-- Every comparison ends, and comes to what is defined as equality after conversion. -/
theorem compares_looseEquals (engine : Engine) (m : Machine) (x y : Value) :
    ∃ steps, Compares engine m x y steps (m.run (looseEquals engine x y)) ∧ Brief x y 3 steps := by
  rcases x.object_or_primitive with ⟨a, rfl⟩ | plain <;> rcases y.object_or_primitive with ⟨b, rfl⟩ | plain'
  · exact ⟨[], .decided rfl, ⟨Nat.zero_le _, Nat.zero_le _, Nat.zero_le _⟩⟩
  · exact object_compares_primitive engine m a plain'
  · obtain ⟨steps, compares, brief⟩ := object_compares_primitive engine m b plain
    rw [looseEquals_comm]
    exact ⟨_, compares.mirrored, brief.mirrored⟩
  · obtain ⟨steps, compares, all⟩ := primitives_compare engine m plain plain'
    rw [run_looseEquals_primitives engine m plain plain']
    refine ⟨steps, compares, ?_⟩
    rcases all with rfl | rfl | rfl <;> exact ⟨by decide, Nat.zero_le _, Nat.zero_le _⟩

/-! ## Laws -/

theorem looselyEquals_sameType (plain : x.isObject = false) (same : x.sameType y = true) :
    x.looselyEquals y = x.strictEquals y := by
  cases x <;> cases y
  case boolean.boolean a b => cases a <;> cases b <;> rfl
  all_goals first | rfl | exact Bool.noConfusion plain | exact Bool.noConfusion same

/-- What stands for nothing equals what stands for nothing. -/
theorem run_looseEquals_nothing (engine : Engine) (m : Machine) (nothing : x.isNullish = true) (y : Value) :
    m.run (looseEquals engine x y) = (.ok y.isNullish, m) := by
  cases x <;> cases y <;> first | rfl | exact Bool.noConfusion nothing

/-- Equality after conversion ends on every machine, whatever the methods of objects give: at most three values are
replaced, each object at most once, and by a primitive value. It is the same either way round, with the same conversions,
agrees with equality without conversion on two primitive values of one type, and only undefined and null equal one of
these two. -/
theorem loose_equality_ends_either_way (engine : Engine) (m : Machine) (x y : Value) :
    (∃ steps, Compares engine m x y steps (m.run (looseEquals engine x y)) ∧ Brief x y 3 steps ∧
      (∀ other result, Compares engine m x y other result →
        other = steps ∧ result = m.run (looseEquals engine x y)) ∧
      Compares engine m y x (steps.map Replacing.mirrored) (m.run (looseEquals engine y x)) ∧
      m.run (looseEquals engine y x) = m.run (looseEquals engine x y)) ∧
    (∀ after v, m.run (toPrimitive engine x .any) = (.ok v, after) → v.isObject = false) ∧
    (x.isObject = false → y.isObject = false → ∃ b, m.run (looseEquals engine x y) = (.ok b, m) ∧
      (x.sameType y = true → b = x.strictEquals y)) ∧
    (x.isNullish = true → m.run (looseEquals engine x y) = (.ok y.isNullish, m)) := by
  refine ⟨?_, fun after v ran => ?_, fun plain plain' => ?_, fun nothing => ?_⟩
  · obtain ⟨steps, compares, brief⟩ := compares_looseEquals engine m x y
    refine ⟨steps, compares, brief, fun other result => compares.unique, ?_, ?_⟩
    · rw [looseEquals_comm]
      exact compares.mirrored
    · rw [looseEquals_comm]
  · exact toPrimitive_yields engine x .any m v (by rw [ran])
  · exact ⟨_, run_looseEquals_primitives engine m plain plain', looselyEquals_sameType plain⟩
  · exact run_looseEquals_nothing engine m nothing y

end ScriptEngine
