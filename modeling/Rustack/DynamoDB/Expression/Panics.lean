import Rustack.DynamoDB.Expression.Evaluator
import Rustack.DynamoDB.Expression.Render

/-!
# When evaluation panics

The meaning of a condition as a relation, the function calls an evaluation
makes, and the calls that panic.  The parser bounds the number of arguments
only from below by one, so a call short of its second argument gets through,
and so does a search for an empty binary.
-/

namespace Rustack.DynamoDB

open Outcome

namespace EvalContext

variable (ctx : EvalContext)

/-! ### The meaning of a condition -/

section Meaning

variable (F : Type) [F64 F]

/-- The condition has this truth value. -/
inductive Holds : Expr → Bool → Prop where
  | compare {left right : Operand} {op : CompareOp} {b : Bool} :
      ctx.evalCompare F left op right = .ok b → Holds (.compare left op right) b
  | between {value low high : Operand} {b : Bool} :
      ctx.evalBetween F value low high = .ok b → Holds (.between value low high) b
  | inList {value : Operand} {list : List Operand} {b : Bool} :
      ctx.evalIn F value list = .ok b → Holds (.inList value list) b
  | function {name : FunctionName} {args : List Operand} {b : Bool} :
      ctx.evalFunction name args = .ok b → Holds (.function name args) b
  | not {inner : Expr} {b : Bool} : Holds inner b → Holds (.not inner) (!b)
  | andLeft {left right : Expr} : Holds left false → Holds (.logical .and left right) false
  | andRight {left right : Expr} {b : Bool} :
      Holds left true → Holds right b → Holds (.logical .and left right) b
  | orLeft {left right : Expr} : Holds left true → Holds (.logical .or left right) true
  | orRight {left right : Expr} {b : Bool} :
      Holds left false → Holds right b → Holds (.logical .or left right) b

theorem evaluate_of_holds {expr : Expr} {b : Bool} (h : ctx.Holds F expr b) :
    ctx.evaluate F expr = .ok b := by
  induction h with
  | compare h => simp [evaluate, h, Outcome.ofExcept]
  | between h => simp [evaluate, h, Outcome.ofExcept]
  | inList h => simp [evaluate, h, Outcome.ofExcept]
  | function h => simp [evaluate, h]
  | not _ ih => simp [evaluate, ih]
  | andLeft _ ih => simp [evaluate, ih]
  | andRight _ _ ihLeft ihRight => simp [evaluate, ihLeft, ihRight]
  | orLeft _ ih => simp [evaluate, ih]
  | orRight _ _ ihLeft ihRight => simp [evaluate, ihLeft, ihRight]

theorem holds_of_evaluate {expr : Expr} {b : Bool} (h : ctx.evaluate F expr = .ok b) :
    ctx.Holds F expr b := by
  induction expr generalizing b with
  | compare left op right => exact .compare (ofExcept_eq_ok.mp h)
  | between value low high => exact .between (ofExcept_eq_ok.mp h)
  | inList value list => exact .inList (ofExcept_eq_ok.mp h)
  | function name args => exact .function h
  | not inner ih =>
      obtain ⟨c, hc, hb⟩ := bind_eq_ok.mp h
      cases hb
      exact .not (ih hc)
  | logical op left right ihLeft ihRight =>
      cases op with
      | and =>
          obtain ⟨c, hc, hb⟩ := bind_eq_ok.mp h
          cases c with
          | false =>
              cases hb
              exact .andLeft (ihLeft hc)
          | true => exact .andRight (ihLeft hc) (ihRight hb)
      | or =>
          obtain ⟨c, hc, hb⟩ := bind_eq_ok.mp h
          cases c with
          | false => exact .orRight (ihLeft hc) (ihRight hb)
          | true =>
              cases hb
              exact .orLeft (ihLeft hc)

/-- Evaluating the condition makes this function call. -/
inductive Calls : Expr → FunctionName → List Operand → Prop where
  | function {name : FunctionName} {args : List Operand} : Calls (.function name args) name args
  | not {inner : Expr} {name : FunctionName} {args : List Operand} :
      Calls inner name args → Calls (.not inner) name args
  | left {op : LogicalOp} {left right : Expr} {name : FunctionName} {args : List Operand} :
      Calls left name args → Calls (.logical op left right) name args
  | right {op : LogicalOp} {left right : Expr} {name : FunctionName} {args : List Operand} :
      ctx.Holds F left (op == .and) → Calls right name args →
        Calls (.logical op left right) name args

/-- An evaluation panics just when one of its calls does. -/
theorem evaluate_eq_panic {expr : Expr} :
    ctx.evaluate F expr = .panic ↔
      ∃ name args, ctx.Calls F expr name args ∧ ctx.evalFunction name args = .panic := by
  constructor
  · intro h
    induction expr with
    | compare | between | inList => exact absurd h (ofExcept_ne_panic _)
    | function name args => exact ⟨name, args, .function, h⟩
    | not inner ih =>
        rcases bind_eq_panic.mp h with hpanic | ⟨b, -, hb⟩
        · obtain ⟨name, args, hcall, hname⟩ := ih hpanic
          exact ⟨name, args, .not hcall, hname⟩
        · cases hb
    | logical op left right ihLeft ihRight =>
        have hsplit : ctx.evaluate F left = .panic ∨
            ctx.Holds F left (op == .and) ∧ ctx.evaluate F right = .panic := by
          cases op with
          | and =>
              rcases bind_eq_panic.mp h with hpanic | ⟨b, hleft, hb⟩
              · exact .inl hpanic
              · cases b with
                | false => cases hb
                | true => exact .inr ⟨ctx.holds_of_evaluate F hleft, hb⟩
          | or =>
              rcases bind_eq_panic.mp h with hpanic | ⟨b, hleft, hb⟩
              · exact .inl hpanic
              · cases b with
                | false => exact .inr ⟨ctx.holds_of_evaluate F hleft, hb⟩
                | true => cases hb
        rcases hsplit with hleft | ⟨hholds, hright⟩
        · obtain ⟨name, args, hcall, hname⟩ := ihLeft hleft
          exact ⟨name, args, .left hcall, hname⟩
        · obtain ⟨name, args, hcall, hname⟩ := ihRight hright
          exact ⟨name, args, .right hholds hcall, hname⟩
  · rintro ⟨name, args, hcall, hname⟩
    induction hcall with
    | function => exact hname
    | not _ ih => exact bind_eq_panic.mpr (.inl (ih hname))
    | @left op _ _ _ _ _ ih =>
        cases op <;> exact bind_eq_panic.mpr (.inl (ih hname))
    | @right op _ _ _ _ hholds _ ih =>
        have hleft := ctx.evaluate_of_holds F hholds
        cases op with
        | and => exact bind_eq_panic.mpr (.inr ⟨true, hleft, ih hname⟩)
        | or => exact bind_eq_panic.mpr (.inr ⟨false, hleft, ih hname⟩)

end Meaning

/-! ### Calls that panic -/

/-- Too few arguments where the evaluator asks for the second, or a search for an empty binary
in a binary. -/
def BadCall : FunctionName → List Operand → Prop
  | .attributeType, args => args.length < 2
  | .beginsWith, [first] => ∃ v, ctx.resolveOperand first = .ok v
  | .contains, [.path _] => True
  | .contains, .path p :: search :: _ =>
    (∃ bytes, ctx.resolvePath p = some (.b bytes)) ∧
      ctx.resolveOperand search = .ok (some (.b []))
  | _, _ => False

theorem evalExists_ne_panic {args : List Operand} (hne : args ≠ []) (functionName : String) :
    ctx.evalExists args functionName ≠ .panic := by
  obtain ⟨first, rest, rfl⟩ := List.exists_cons_of_ne_nil hne
  intro h
  cases first <;> simp [evalExists, argument, operandAsPath, Outcome.ofExcept] at h

theorem evalAttributeType_eq_panic {args : List Operand} :
    ctx.evalAttributeType args = .panic ↔ args.length < 2 := by
  rcases args with _ | ⟨first, _ | ⟨second, rest⟩⟩
  · simp [evalAttributeType, argument]
  · simp [evalAttributeType, argument]
  · simp only [List.length_cons, show ¬ rest.length + 1 + 1 < 2 by omega, iff_false]
    intro h
    simp only [evalAttributeType, argument] at h
    rcases hexpected : ctx.typeArgument second with e | v
    · simp [hexpected, Outcome.ofExcept] at h
    · rcases hfirst : ctx.resolveOperand first with e | w
      · simp [hexpected, hfirst, Outcome.ofExcept] at h
        split at h
        · split_ifs at h
        · simp at h
      · simp [hexpected, hfirst, Outcome.ofExcept] at h
        split at h
        · split_ifs at h
          split at h <;> simp at h
        · simp at h

theorem evalBeginsWith_one (first : Operand) :
    ctx.evalBeginsWith [first] = .panic ↔ ∃ v, ctx.resolveOperand first = .ok v := by
  cases hfirst : ctx.resolveOperand first with
  | error | ok => simp [evalBeginsWith, argument, hfirst, Outcome.ofExcept]

theorem evalBeginsWith_ne_panic (first second : Operand) (rest : List Operand) :
    ctx.evalBeginsWith (first :: second :: rest) ≠ .panic := by
  intro h
  simp only [evalBeginsWith, argument, List.getElem?_cons_zero, List.getElem?_cons_succ,
    ok_bind, monadLift_eq, bind_eq_panic, ofExcept_ne_panic,
    false_or] at h
  obtain ⟨lval, -, rval, -, _, -, _, -, h⟩ := h
  split at h <;> cases h

theorem windowsContain_eq_panic {whole sub : List UInt8} :
    windowsContain whole sub = .panic ↔ sub = [] := by
  unfold windowsContain
  split_ifs with h
  · simpa using h
  · simpa using h

theorem containsValue_eq_panic {attr search : AttributeValue} :
    containsValue attr search = .panic ↔ (∃ bytes, attr = .b bytes) ∧ search = .b [] := by
  cases attr <;> cases search <;> simp [containsValue, windowsContain_eq_panic]

theorem evalContains_one (p : AttributePath) : ctx.evalContains [.path p] = .panic := by
  simp [evalContains, argument, operandAsPath, Outcome.ofExcept]

theorem evalContains_path (p : AttributePath) (second : Operand) (rest : List Operand) :
    ctx.evalContains (.path p :: second :: rest) = .panic ↔
      (∃ bytes, ctx.resolvePath p = some (.b bytes)) ∧
        ctx.resolveOperand second = .ok (some (.b [])) := by
  simp only [evalContains, argument, operandAsPath, List.getElem?_cons_zero,
    List.getElem?_cons_succ, Outcome.ok_bind, Outcome.monadLift_eq, Outcome.ofExcept]
  rcases ctx.resolveOperand second with e | _ | search
  · simp
  · cases ctx.resolvePath p <;> simp
  · cases ctx.resolvePath p with
    | none => simp
    | some attr => simp [containsValue_eq_panic]

theorem evalContains_ne_panic {first : Operand} (hfirst : ∀ p, first ≠ .path p)
    (rest : List Operand) : ctx.evalContains (first :: rest) ≠ .panic := by
  cases first with
  | path p => exact absurd rfl (hfirst p)
  | value | size => simp [evalContains, argument, operandAsPath, Outcome.ofExcept]

/-- With an argument at least, as the parser has it, a call panics just when it is a bad one. -/
theorem evalFunction_eq_panic {name : FunctionName} {args : List Operand} (hne : args ≠ []) :
    ctx.evalFunction name args = .panic ↔ ctx.BadCall name args := by
  obtain ⟨first, rest, rfl⟩ := List.exists_cons_of_ne_nil hne
  cases name with
  | attributeExists =>
      simpa [evalFunction, BadCall] using ctx.evalExists_ne_panic hne "attribute_exists"
  | attributeNotExists =>
      have := ctx.evalExists_ne_panic hne "attribute_not_exists"
      simpa [evalFunction, BadCall, bind_eq_panic] using this
  | attributeType => exact ctx.evalAttributeType_eq_panic
  | beginsWith =>
      cases rest with
      | nil => exact ctx.evalBeginsWith_one first
      | cons second rest =>
        simpa [evalFunction, BadCall] using ctx.evalBeginsWith_ne_panic first second rest
  | contains =>
      cases first with
      | path p =>
          cases rest with
          | nil => simpa [evalFunction, BadCall] using ctx.evalContains_one p
          | cons second rest => exact ctx.evalContains_path p second rest
      | value | size =>
          simpa [evalFunction, BadCall] using ctx.evalContains_ne_panic (by simp) rest
  | size => simp [evalFunction, BadCall]

theorem Calls.wellFormed {F : Type} [F64 F] {ctx : EvalContext} {expr : Expr}
    {name : FunctionName} {args : List Operand} (h : ctx.Calls F expr name args)
    (hexpr : expr.wellFormed = true) : args ≠ [] := by
  induction h with
  | function =>
      simp only [Expr.wellFormed, Bool.and_eq_true, Bool.not_eq_true'] at hexpr
      rintro rfl
      simp at hexpr
  | not _ ih => exact ih hexpr
  | left _ ih =>
      simp only [Expr.wellFormed, Bool.and_eq_true] at hexpr
      exact ih hexpr.1
  | right _ _ ih =>
      simp only [Expr.wellFormed, Bool.and_eq_true] at hexpr
      exact ih hexpr.2

/-- The evaluation of a parsed condition returns a truth value or an error just when it reaches
no bad call. -/
theorem evaluate_ne_panic_iff (F : Type) [F64 F] (input : String) (expr : Expr)
    (hparse : parseCondition input = .ok expr) (ctx : EvalContext) :
    ctx.evaluate F expr ≠ .panic ↔
      ∀ name args, ctx.Calls F expr name args → ¬ ctx.BadCall name args := by
  have hwf := parseCondition_wellFormed hparse
  rw [Ne, ctx.evaluate_eq_panic F]
  constructor
  · intro h name args hcall hbad
    exact h ⟨name, args, hcall, (ctx.evalFunction_eq_panic (hcall.wellFormed hwf)).mpr hbad⟩
  · rintro h ⟨name, args, hcall, hpanic⟩
    exact h name args hcall ((ctx.evalFunction_eq_panic (hcall.wellFormed hwf)).mp hpanic)

/-- A call with its two arguments, on an item that has the attribute. -/
theorem evaluate_ne_panic_iff_contains :
    (EvalContext.mk [("a", .s "xyz")] [] [(":v", .s "y")]).evaluate ℤ
      (.function .contains [.path ⟨[.attribute "a"]⟩, .value "v"]) ≠ .panic := by
  refine (evaluate_ne_panic_iff ℤ "contains(a, :v)" _ (by decide +kernel) _).mpr ?_
  intro name args hcall hbad
  cases hcall
  obtain ⟨⟨bytes, hpath⟩, -⟩ := hbad
  revert hpath
  simp [resolvePath, resolveName, walkPath, isReference]

/-- The second argument is not there, and the item is the empty one. -/
theorem evaluate_panics_on_one_argument :
    ∃ expr, parseCondition "attribute_type(a)" = .ok expr ∧
      (EvalContext.mk [] [] []).evaluate ℤ expr = .panic :=
  ⟨.function .attributeType [.path ⟨[.attribute "a"]⟩], by decide +kernel, by decide +kernel⟩

end EvalContext

end Rustack.DynamoDB
