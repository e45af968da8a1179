import Rustack.DynamoDB.Expression.Parser

/-!
# The condition grammar

Productions over tokens, one relation for each syntactic class, with the tree
that a derivation builds.  The logical operators are left recursive, `OR` over
`AND` over `NOT` over the primary conditions.  The parser is sound for these
productions, complete, and never runs out of its bounds.
-/

namespace Rustack.DynamoDB

open Parser (Sound Total fail done loop sepLoop recursive nest whileNext andThen_eq_done
  andThen_done done_inj)
open List

inductive PathHead : List Token → PathElement → Prop where
  | identifier (name : String) : PathHead [.identifier name] (.attribute name)
  | reference (name : String) : PathHead [.exprAttrName name] (.attribute ("#" ++ name))

inductive PathTokens : List Token → List PathElement → Prop where
  | head {ts : List Token} {e : PathElement} : PathHead ts e → PathTokens ts [e]
  | dot {ts us : List Token} {es : List PathElement} {e : PathElement} :
      PathTokens ts es → PathHead us e → PathTokens (ts ++ .dot :: us) (es ++ [e])
  | index {ts : List Token} {es : List PathElement} (idx : ℕ) :
      PathTokens ts es →
        PathTokens (ts ++ .lBracket :: [.number idx, .rBracket]) (es ++ [.index idx])

inductive OperandTokens : List Token → Operand → Prop where
  | value (name : String) : OperandTokens [.exprAttrValue name] (.value name)
  | path {ts : List Token} {es : List PathElement} :
      PathTokens ts es → OperandTokens ts (.path ⟨es⟩)
  | size {ts : List Token} {operand : Operand} :
      OperandTokens ts operand →
        OperandTokens (.size :: .lParen :: ts ++ [.rParen]) (.size operand)

/-- Operands separated by commas, at least one. -/
inductive OperandListTokens : List Token → List Operand → Prop where
  | one {ts : List Token} {operand : Operand} :
      OperandTokens ts operand → OperandListTokens ts [operand]
  | more {ts us : List Token} {list : List Operand} {operand : Operand} :
      OperandListTokens ts list → OperandTokens us operand →
        OperandListTokens (ts ++ .comma :: us) (list ++ [operand])

/-- Binding strength of a condition, loosest first. -/
inductive Level where
  | or | and | not | primary

inductive ConditionTokens : Level → List Token → Expr → Prop where
  | orChain {ts us : List Token} {left right : Expr} :
      ConditionTokens .or ts left → ConditionTokens .and us right →
        ConditionTokens .or (ts ++ .or :: us) (.logical .or left right)
  | ofAnd {ts : List Token} {expr : Expr} :
      ConditionTokens .and ts expr → ConditionTokens .or ts expr
  | andChain {ts us : List Token} {left right : Expr} :
      ConditionTokens .and ts left → ConditionTokens .not us right →
        ConditionTokens .and (ts ++ .and :: us) (.logical .and left right)
  | ofNot {ts : List Token} {expr : Expr} :
      ConditionTokens .not ts expr → ConditionTokens .and ts expr
  | negation {ts : List Token} {expr : Expr} :
      ConditionTokens .not ts expr → ConditionTokens .not (.not :: ts) (.not expr)
  | ofPrimary {ts : List Token} {expr : Expr} :
      ConditionTokens .primary ts expr → ConditionTokens .not ts expr
  | group {ts : List Token} {expr : Expr} :
      ConditionTokens .or ts expr → ConditionTokens .primary (.lParen :: ts ++ [.rParen]) expr
  | function {t : Token} {ts : List Token} {name : FunctionName} {args : List Operand} :
      peekFunctionName t = some name → OperandListTokens ts args →
        ConditionTokens .primary (t :: .lParen :: ts ++ [.rParen]) (.function name args)
  | compare {t : Token} {ts us : List Token} {left right : Operand} {op : CompareOp} :
      OperandTokens ts left → parseCompareOp t = some op → OperandTokens us right →
        ConditionTokens .primary (ts ++ t :: us) (.compare left op right)
  | between {ts us vs : List Token} {value low high : Operand} :
      OperandTokens ts value → OperandTokens us low → OperandTokens vs high →
        ConditionTokens .primary (ts ++ .between :: (us ++ .and :: vs))
          (.between value low high)
  | inList {ts us : List Token} {value : Operand} {list : List Operand} :
      OperandTokens ts value → OperandListTokens us list →
        ConditionTokens .primary (ts ++ .in_ :: .lParen :: us ++ [.rParen])
          (.inList value list)

theorem PathHead.eof_notMem {ts : List Token} {e : PathElement} (h : PathHead ts e) :
    .eof ∉ ts := by
  cases h <;> simp

theorem PathTokens.eof_notMem {ts : List Token} {es : List PathElement} (h : PathTokens ts es) :
    .eof ∉ ts := by
  induction h with
  | head hhead => exact hhead.eof_notMem
  | dot _ he ih => simp [ih, he.eof_notMem]
  | index idx _ ih => simp [ih]

theorem OperandTokens.eof_notMem {ts : List Token} {operand : Operand}
    (h : OperandTokens ts operand) : .eof ∉ ts := by
  induction h with
  | value name => simp
  | path hpath => exact hpath.eof_notMem
  | size _ ih => simp [ih]

theorem OperandListTokens.eof_notMem {ts : List Token} {list : List Operand}
    (h : OperandListTokens ts list) : .eof ∉ ts := by
  induction h with
  | one hone => exact hone.eof_notMem
  | more _ hus ih => simp [ih, hus.eof_notMem]

theorem ConditionTokens.eof_notMem {level : Level} {ts : List Token} {expr : Expr}
    (h : ConditionTokens level ts expr) : .eof ∉ ts := by
  induction h with
  | orChain _ _ ihLeft ihRight => simp [ihLeft, ihRight]
  | ofAnd _ ih => exact ih
  | andChain _ _ ihLeft ihRight => simp [ihLeft, ihRight]
  | ofNot _ ih => exact ih
  | negation _ ih => simp [ih]
  | ofPrimary _ ih => exact ih
  | group _ ih => simp [ih]
  | function ht hargs =>
      simp only [cons_append, mem_cons, mem_append, not_or]
      refine ⟨?_, by simp, hargs.eof_notMem, by simp⟩
      rintro rfl
      simp [peekFunctionName] at ht
  | compare hleft ht hright =>
      simp only [mem_append, mem_cons, not_or]
      refine ⟨hleft.eof_notMem, ?_, hright.eof_notMem⟩
      rintro rfl
      simp [parseCompareOp] at ht
  | between hvalue hlow hhigh => simp [hvalue.eof_notMem, hlow.eof_notMem, hhigh.eof_notMem]
  | inList hvalue hlist => simp [hvalue.eof_notMem, hlist.eof_notMem]

/-! ### Soundness -/

theorem expect_eq_done {expected : Token} {ts rest : List Token} {u : Unit} :
    expect expected ts = done u rest ↔ ts = expected :: rest := by
  cases ts with
  | nil => simp [expect, unexpected]
  | cons t ts =>
      simp only [expect]
      split_ifs with h
      · simp [h]
      · simp [unexpected, h]

theorem parsePathHead_sound : Sound parsePathHead PathHead := by
  intro ts e rest h
  unfold parsePathHead at h
  split at h
  · obtain ⟨rfl, rfl⟩ := done_inj.mp h
    exact ⟨_, rfl, .identifier _⟩
  · obtain ⟨rfl, rfl⟩ := done_inj.mp h
    exact ⟨_, rfl, .reference _⟩
  · simp [unexpected] at h

theorem parseIndex_eq_done {ts rest : List Token} {idx : ℕ} :
    parseIndex ts = done idx rest ↔ ts = .number idx :: .rBracket :: rest := by
  constructor
  · intro h
    unfold parseIndex at h
    split at h
    · simp [unexpected] at h
    · obtain ⟨u, mid, hu, hret⟩ := andThen_eq_done.mp h
      obtain ⟨rfl, rfl⟩ := done_inj.mp hret
      rw [expect_eq_done.mp hu]
    · simp [unexpected] at h
  · rintro rfl
    rfl

theorem parsePathElement_sound {es es' : List PathElement} {t : Token}
    {used ts rest : List Token} (hmore : continuesPath t = true) (hused : PathTokens used es)
    (h : parsePathElement es t ts = done es' rest) :
    ∃ round, ts = round ++ rest ∧ PathTokens (used ++ t :: round) es' := by
  unfold parsePathElement at h
  split_ifs at h with hdot
  · subst hdot
    obtain ⟨e, mid, he, hret⟩ := andThen_eq_done.mp h
    obtain ⟨rfl, rfl⟩ := done_inj.mp hret
    obtain ⟨round, hts, hround⟩ := parsePathHead_sound ts e mid he
    exact ⟨round, hts, .dot hused hround⟩
  · obtain rfl : t = .lBracket := by simpa [continuesPath, hdot] using hmore
    obtain ⟨idx, mid, hidx, hret⟩ := andThen_eq_done.mp h
    obtain ⟨rfl, rfl⟩ := done_inj.mp hret
    exact ⟨[.number idx, .rBracket], parseIndex_eq_done.mp hidx, .index idx hused⟩

theorem parseAttributePath_sound :
    Sound parseAttributePath fun ts path => PathTokens ts path.elements := by
  intro ts path rest h
  obtain ⟨first, mid, hfirst, h₁⟩ := andThen_eq_done.mp h
  obtain ⟨es, mid', hes, hret⟩ := andThen_eq_done.mp h₁
  obtain ⟨rfl, rfl⟩ := done_inj.mp hret
  obtain ⟨used, rfl, hused⟩ := parsePathHead_sound ts first mid hfirst
  obtain ⟨read, rfl, hread⟩ := Parser.whileNext_sound
    (fun _ _ _ _ _ _ hmore hused h => parsePathElement_sound hmore hused h)
    (PathTokens.head hused) hes
  exact ⟨used ++ read, by simp, hread⟩

theorem parsePathOperand_sound : Sound parsePathOperand OperandTokens :=
  parseAttributePath_sound.ret_andThen fun _ _ h => .path h

theorem rejectSizeArguments_eq_done {operand : TokenParser Operand} {ts rest : List Token}
    {u : Unit} : rejectSizeArguments operand ts = done u rest ↔ peek ts ≠ .comma ∧ ts = rest := by
  unfold rejectSizeArguments
  split_ifs with h
  · simp only [h, ne_eq, not_true_eq_false, false_and, iff_false]
    intro hdone
    obtain ⟨count, mid, -, hfail⟩ := andThen_eq_done.mp hdone
    exact Parser.fail_ne_done hfail
  · simp [h]

theorem parseSizeOperand_sound {operand : TokenParser Operand}
    (hoperand : Sound operand OperandTokens) {ts rest : List Token} {result : Operand}
    (h : parseSizeOperand operand ts = done result rest) :
    ∃ used, .size :: ts = used ++ rest ∧ OperandTokens used result := by
  obtain ⟨_, mid, hopen, h₁⟩ := andThen_eq_done.mp h
  obtain ⟨inner, mid₁, hinner, h₂⟩ := andThen_eq_done.mp h₁
  obtain ⟨_, mid₂, hargs, h₃⟩ := andThen_eq_done.mp h₂
  obtain ⟨_, mid₃, hclose, h₄⟩ := andThen_eq_done.mp h₃
  obtain ⟨rfl, rfl⟩ := done_inj.mp h₄
  obtain ⟨used, rfl, hused⟩ := hoperand mid inner mid₁ hinner
  obtain ⟨-, rfl⟩ := rejectSizeArguments_eq_done.mp hargs
  refine ⟨.size :: .lParen :: used ++ [.rParen], ?_, .size hused⟩
  rw [expect_eq_done.mp hopen, expect_eq_done.mp hclose]
  simp

theorem parseOperandStep_sound {operand : TokenParser Operand}
    (hoperand : Sound operand OperandTokens) : Sound (parseOperandStep operand) OperandTokens := by
  intro ts result rest h
  unfold parseOperandStep at h
  split at h
  · obtain ⟨rfl, rfl⟩ := done_inj.mp h
    exact ⟨_, rfl, .value _⟩
  · exact parseSizeOperand_sound hoperand h
  · exact parsePathOperand_sound _ _ _ h

theorem parseOperand_sound : Sound parseOperand OperandTokens :=
  Parser.recursive_sound fun _ => parseOperandStep_sound

theorem parseOperandList_sound : Sound parseOperandList OperandListTokens := by
  intro ts list rest h
  obtain ⟨first, mid, hfirst, h₁⟩ := andThen_eq_done.mp h
  obtain ⟨used, rfl, hused⟩ := parseOperand_sound ts first mid hfirst
  obtain ⟨read, rfl, hread⟩ := Parser.sepLoop_sound parseOperand_sound
    (fun _ _ _ _ hus hvs => .more hus hvs) (OperandListTokens.one hused) h₁
  exact ⟨used ++ read, by simp, hread⟩

theorem parseFunctionExpr_sound {t : Token} {name : FunctionName} {ts rest : List Token}
    {expr : Expr} (ht : peekFunctionName t = some name)
    (h : parseFunctionExpr name ts = done expr rest) :
    ∃ used, t :: ts = used ++ rest ∧ ConditionTokens .primary used expr := by
  obtain ⟨_, mid, hopen, h₁⟩ := andThen_eq_done.mp h
  obtain ⟨args, mid₁, hargs, h₂⟩ := andThen_eq_done.mp h₁
  obtain ⟨_, mid₂, hclose, h₃⟩ := andThen_eq_done.mp h₂
  obtain ⟨rfl, rfl⟩ := done_inj.mp h₃
  obtain ⟨used, rfl, hused⟩ := parseOperandList_sound mid args mid₁ hargs
  refine ⟨t :: .lParen :: used ++ [.rParen], ?_, .function ht hused⟩
  rw [expect_eq_done.mp hopen, expect_eq_done.mp hclose]
  simp

theorem parseBetween_sound {left : Operand} {used ts rest : List Token} {expr : Expr}
    (hleft : OperandTokens used left) (h : parseBetween left ts = done expr rest) :
    ∃ more, .between :: ts = more ++ rest ∧ ConditionTokens .primary (used ++ more) expr := by
  obtain ⟨low, mid, hlow, h₁⟩ := andThen_eq_done.mp h
  obtain ⟨_, mid₁, hand, h₂⟩ := andThen_eq_done.mp h₁
  obtain ⟨high, mid₂, hhigh, h₃⟩ := andThen_eq_done.mp h₂
  obtain ⟨rfl, rfl⟩ := done_inj.mp h₃
  obtain ⟨us, rfl, hus⟩ := parseOperand_sound _ _ _ hlow
  obtain ⟨vs, rfl, hvs⟩ := parseOperand_sound _ _ _ hhigh
  refine ⟨.between :: (us ++ .and :: vs), ?_, .between hleft hus hvs⟩
  rw [expect_eq_done.mp hand]
  simp

theorem rejectEmptyList_eq_done {ts rest : List Token} {u : Unit} :
    rejectEmptyList ts = done u rest ↔ peek ts ≠ .rParen ∧ ts = rest := by
  unfold rejectEmptyList
  split_ifs with h
  · simp [h, unexpected]
  · simp [h]

theorem parseInList_sound {left : Operand} {used ts rest : List Token} {expr : Expr}
    (hleft : OperandTokens used left) (h : parseInList left ts = done expr rest) :
    ∃ more, .in_ :: ts = more ++ rest ∧ ConditionTokens .primary (used ++ more) expr := by
  obtain ⟨_, mid, hopen, h₁⟩ := andThen_eq_done.mp h
  obtain ⟨_, mid₁, hempty, h₂⟩ := andThen_eq_done.mp h₁
  obtain ⟨list, mid₂, hlist, h₃⟩ := andThen_eq_done.mp h₂
  obtain ⟨_, mid₃, hclose, h₄⟩ := andThen_eq_done.mp h₃
  obtain ⟨rfl, rfl⟩ := done_inj.mp h₄
  obtain ⟨-, rfl⟩ := rejectEmptyList_eq_done.mp hempty
  obtain ⟨us, rfl, hus⟩ := parseOperandList_sound _ _ _ hlist
  refine ⟨.in_ :: .lParen :: us ++ [.rParen], ?_, ?_⟩
  · rw [expect_eq_done.mp hopen, expect_eq_done.mp hclose]
    simp
  · simpa using ConditionTokens.inList hleft hus

theorem parsePostfixExpr_sound {left : Operand} {used ts rest : List Token} {expr : Expr}
    (hleft : OperandTokens used left) (h : parsePostfixExpr left ts = done expr rest) :
    ∃ more, ts = more ++ rest ∧ ConditionTokens .primary (used ++ more) expr := by
  unfold parsePostfixExpr at h
  split at h
  · exact parseBetween_sound hleft h
  · exact parseInList_sound hleft h
  · simp [rejectCall, unexpected] at h
  · split at h
    · rename_i op hop
      cases ts with
      | nil => simp [peek, parseCompareOp] at hop
      | cons t ts =>
          obtain ⟨right, mid, hright, hret⟩ := andThen_eq_done.mp h
          obtain ⟨rfl, rfl⟩ := done_inj.mp hret
          obtain ⟨us, hts, hus⟩ := parseOperand_sound _ _ _ hright
          exact ⟨t :: us, by simpa using hts, .compare hleft hop hus⟩
    · simp [unexpected] at h

theorem parseOperandExpr_sound : Sound parseOperandExpr (ConditionTokens .primary) := by
  intro ts expr rest h
  obtain ⟨left, mid, hleft, h₁⟩ := andThen_eq_done.mp h
  obtain ⟨used, rfl, hused⟩ := parseOperand_sound _ _ _ hleft
  obtain ⟨more, rfl, hmore⟩ := parsePostfixExpr_sound hused h₁
  exact ⟨used ++ more, by simp, hmore⟩

theorem parseGroup_sound {group : TokenParser Expr} (hgroup : Sound group (ConditionTokens .or))
    {ts rest : List Token} {expr : Expr} (h : parseGroup group ts = done expr rest) :
    ∃ used, .lParen :: ts = used ++ rest ∧ ConditionTokens .primary used expr := by
  obtain ⟨inner, mid, hinner, h₁⟩ := andThen_eq_done.mp h
  obtain ⟨_, mid₁, hclose, h₂⟩ := andThen_eq_done.mp h₁
  obtain ⟨rfl, rfl⟩ := done_inj.mp h₂
  obtain ⟨used, rfl, hused⟩ := hgroup _ _ _ hinner
  refine ⟨.lParen :: used ++ [.rParen], ?_, .group hused⟩
  rw [expect_eq_done.mp hclose]
  simp

theorem parsePrimaryExpr_sound {group : TokenParser Expr}
    (hgroup : Sound group (ConditionTokens .or)) :
    Sound (parsePrimaryExpr group) (ConditionTokens .primary) := by
  intro ts expr rest h
  unfold parsePrimaryExpr at h
  split at h
  · exact parseGroup_sound hgroup h
  · simp [rejectUpdateFunction] at h
  · simp [rejectUpdateFunction] at h
  · split at h
    · rename_i name hname
      cases ts with
      | nil => simp [peek, peekFunctionName] at hname
      | cons t ts => exact parseFunctionExpr_sound hname h
    · exact parseOperandExpr_sound _ _ _ h

theorem parseNotExpr_sound {group : TokenParser Expr}
    (hgroup : Sound group (ConditionTokens .or)) :
    Sound (parseNotExpr group) (ConditionTokens .not) := by
  intro ts
  induction ts with
  | nil =>
      intro expr rest h
      obtain ⟨used, hts, hused⟩ := parsePrimaryExpr_sound hgroup _ _ _ h
      exact ⟨used, hts, .ofPrimary hused⟩
  | cons t ts ih =>
      intro expr rest h
      unfold parseNotExpr at h
      split at h
      · rename_i us heq
        obtain ⟨rfl, rfl⟩ := cons_eq_cons.mp heq
        obtain ⟨inner, hinner, rfl⟩ := Parser.mapDone_eq_done.mp h
        obtain ⟨used, rfl, hused⟩ := ih inner rest hinner
        exact ⟨.not :: used, rfl, .negation hused⟩
      · obtain ⟨used, hts, hused⟩ := parsePrimaryExpr_sound hgroup _ _ _ h
        exact ⟨used, hts, .ofPrimary hused⟩

theorem parseAndExpr_sound {group : TokenParser Expr}
    (hgroup : Sound group (ConditionTokens .or)) :
    Sound (parseAndExpr group) (ConditionTokens .and) := by
  intro ts expr rest h
  obtain ⟨left, mid, hleft, h₁⟩ := andThen_eq_done.mp h
  obtain ⟨used, rfl, hused⟩ := parseNotExpr_sound hgroup _ _ _ hleft
  obtain ⟨read, rfl, hread⟩ := Parser.sepLoop_sound (parseNotExpr_sound hgroup)
    (fun _ _ _ _ hus hvs => .andChain hus hvs) (ConditionTokens.ofNot hused) h₁
  exact ⟨used ++ read, by simp, hread⟩

theorem parseOrStep_sound {group : TokenParser Expr}
    (hgroup : Sound group (ConditionTokens .or)) :
    Sound (parseOrStep group) (ConditionTokens .or) := by
  intro ts expr rest h
  obtain ⟨left, mid, hleft, h₁⟩ := andThen_eq_done.mp h
  obtain ⟨used, rfl, hused⟩ := parseAndExpr_sound hgroup _ _ _ hleft
  obtain ⟨read, rfl, hread⟩ := Parser.sepLoop_sound (parseAndExpr_sound hgroup)
    (fun _ _ _ _ hus hvs => .orChain hus hvs) (ConditionTokens.ofAnd hused) h₁
  exact ⟨used ++ read, by simp, hread⟩

theorem parseOrExpr_sound : Sound parseOrExpr (ConditionTokens .or) :=
  Parser.recursive_sound fun _ => parseOrStep_sound

/-! ### The bounds suffice -/

theorem expect_sound (expected : Token) : Sound (expect expected) fun ts _ => ts = [expected] := by
  intro ts u rest h
  exact ⟨[expected], expect_eq_done.mp h, rfl⟩

theorem unexpected_total {α : Type} (expected found : String) (n : ℕ) :
    Total (unexpected expected found : TokenParser α) n :=
  Total.fail _ n

theorem expect_total (expected : Token) (n : ℕ) : Total (expect expected) n := by
  intro ts hts
  cases ts with
  | nil => exact unexpected_total _ _ n _ hts
  | cons t ts =>
      simp only [expect]
      split_ifs
      · exact Parser.done_ne_none
      · exact Parser.fail_ne_none

theorem parsePathHead_total (n : ℕ) : Total parsePathHead n := by
  intro ts _
  unfold parsePathHead
  split
  · exact Parser.done_ne_none
  · exact Parser.done_ne_none
  · exact Parser.fail_ne_none

theorem parseIndex_total (n : ℕ) : Total parseIndex n := by
  intro ts hts
  unfold parseIndex
  split
  · exact Parser.fail_ne_none
  · refine (expect_total _ n).andThen (expect_sound _) (fun _ => Total.ret _ n) _ ?_
    simp only [length_cons] at hts
    omega
  · exact Parser.fail_ne_none

theorem parseIndex_sound :
    Sound parseIndex fun ts idx => ts = [.number idx, .rBracket] := by
  intro ts idx rest h
  exact ⟨_, parseIndex_eq_done.mp h, rfl⟩

theorem parsePathElement_total (es : List PathElement) (t : Token) (n : ℕ) :
    Total (parsePathElement es t) n := by
  unfold parsePathElement
  split_ifs
  · exact (parsePathHead_total n).andThen parsePathHead_sound fun _ => Total.ret _ n
  · exact (parseIndex_total n).andThen parseIndex_sound fun _ => Total.ret _ n

theorem parsePathElement_length_le {es es' : List PathElement} {t : Token} {ts rest : List Token}
    (h : parsePathElement es t ts = done es' rest) : rest.length ≤ ts.length := by
  unfold parsePathElement at h
  split_ifs at h
  · obtain ⟨e, mid, he, hret⟩ := andThen_eq_done.mp h
    obtain ⟨-, rfl⟩ := done_inj.mp hret
    exact parsePathHead_sound.length_le he
  · obtain ⟨idx, mid, hidx, hret⟩ := andThen_eq_done.mp h
    obtain ⟨-, rfl⟩ := done_inj.mp hret
    exact parseIndex_sound.length_le hidx

theorem parseAttributePath_total (n : ℕ) : Total parseAttributePath n := by
  apply (parsePathHead_total n).andThen parsePathHead_sound
  intro first ts hts
  refine Parser.andThen_ne_none ?_ fun _ _ _ => Parser.done_ne_none
  exact Total.loop (fun es t => parsePathElement_total es t n)
    (fun _ _ _ _ _ h => parsePathElement_length_le h) _ ts hts

theorem parsePathOperand_total (n : ℕ) : Total parsePathOperand n :=
  (parseAttributePath_total n).andThen parseAttributePath_sound fun _ => Total.ret _ n

theorem rejectSizeArguments_sound (operand : TokenParser Operand) :
    Sound (rejectSizeArguments operand) fun ts _ => ts = [] := by
  intro ts u rest h
  exact ⟨[], (rejectSizeArguments_eq_done.mp h).2, rfl⟩

section

variable {operand : TokenParser Operand} {n : ℕ} (hs : Sound operand OperandTokens)
  (hoperand : Total operand n)

include hs hoperand

theorem rejectSizeArguments_total : Total (rejectSizeArguments operand) n := by
  intro ts hts
  unfold rejectSizeArguments
  split_ifs
  · refine Parser.andThen_ne_none ?_ fun _ _ _ => Parser.fail_ne_none
    exact Total.sepLoop hoperand hs _ ts hts
  · exact Parser.done_ne_none

theorem parseSizeOperand_total : Total (parseSizeOperand operand) n := by
  apply (expect_total _ n).andThen (expect_sound _)
  intro _
  apply hoperand.andThen hs
  intro inner
  apply (rejectSizeArguments_total hs hoperand).andThen (rejectSizeArguments_sound operand)
  intro _
  exact (expect_total _ n).andThen (expect_sound _) fun _ => Total.ret _ n

theorem parseOperandStep_total : Total (parseOperandStep operand) (n + 1) := by
  intro ts hts
  unfold parseOperandStep
  split
  · exact Parser.done_ne_none
  · refine parseSizeOperand_total hs hoperand _ ?_
    simpa using hts
  · exact parsePathOperand_total _ _ hts

end

theorem parseOperand_total (n : ℕ) : Total parseOperand n :=
  Parser.recursive_total (fun _ => parseOperandStep_sound)
    (fun _ _ hs ht => parseOperandStep_total hs ht) n

theorem parseOperandList_total (n : ℕ) : Total parseOperandList n :=
  (parseOperand_total n).andThen parseOperand_sound fun _ =>
    Total.sepLoop (parseOperand_total n) parseOperand_sound _

theorem parseFunctionExpr_total (name : FunctionName) (n : ℕ) :
    Total (parseFunctionExpr name) n := by
  apply (expect_total _ n).andThen (expect_sound _)
  intro _
  apply (parseOperandList_total n).andThen parseOperandList_sound
  intro args
  exact (expect_total _ n).andThen (expect_sound _) fun _ => Total.ret _ n

theorem parseBetween_total (left : Operand) (n : ℕ) : Total (parseBetween left) n := by
  apply (parseOperand_total n).andThen parseOperand_sound
  intro low
  apply (expect_total _ n).andThen (expect_sound _)
  intro _
  exact (parseOperand_total n).andThen parseOperand_sound fun _ => Total.ret _ n

theorem rejectEmptyList_total (n : ℕ) : Total rejectEmptyList n := by
  intro ts _
  unfold rejectEmptyList
  split_ifs
  · exact Parser.fail_ne_none
  · exact Parser.done_ne_none

theorem rejectEmptyList_sound : Sound rejectEmptyList fun ts _ => ts = [] := by
  intro ts u rest h
  exact ⟨[], (rejectEmptyList_eq_done.mp h).2, rfl⟩

theorem parseInList_total (left : Operand) (n : ℕ) : Total (parseInList left) n := by
  apply (expect_total _ n).andThen (expect_sound _)
  intro _
  apply (rejectEmptyList_total n).andThen rejectEmptyList_sound
  intro _
  apply (parseOperandList_total n).andThen parseOperandList_sound
  intro list
  exact (expect_total _ n).andThen (expect_sound _) fun _ => Total.ret _ n

theorem parsePostfixExpr_total (left : Operand) (n : ℕ) : Total (parsePostfixExpr left) n := by
  intro ts hts
  unfold parsePostfixExpr
  split
  · exact parseBetween_total left n _ (by simp only [length_cons] at hts; omega)
  · exact parseInList_total left n _ (by simp only [length_cons] at hts; omega)
  · exact unexpected_total _ _ n _ (by simp only [length_cons] at hts; omega)
  · split
    · refine (parseOperand_total n).andThen parseOperand_sound (fun _ => Total.ret _ n) _ ?_
      rw [length_tail]
      omega
    · exact Parser.fail_ne_none

theorem parseOperandExpr_total (n : ℕ) : Total parseOperandExpr n :=
  (parseOperand_total n).andThen parseOperand_sound fun left => parsePostfixExpr_total left n

section

variable {group : TokenParser Expr} {n : ℕ} (hs : Sound group (ConditionTokens .or))
  (hgroup : Total group n)

include hs hgroup

theorem parseGroup_total : Total (parseGroup group) n :=
  hgroup.andThen hs fun _ =>
    (expect_total _ n).andThen (expect_sound _) fun _ => Total.ret _ n

theorem parsePrimaryExpr_total : Total (parsePrimaryExpr group) (n + 1) := by
  intro ts hts
  unfold parsePrimaryExpr
  split
  · exact parseGroup_total hs hgroup _ (by simpa using hts)
  · exact Parser.fail_ne_none
  · exact Parser.fail_ne_none
  · split
    · refine parseFunctionExpr_total _ (n + 1) _ ?_
      rw [length_tail]
      omega
    · exact parseOperandExpr_total _ _ hts

theorem parseNotExpr_total : Total (parseNotExpr group) (n + 1) := by
  intro ts
  induction ts with
  | nil => exact parsePrimaryExpr_total hs hgroup []
  | cons t ts ih =>
      intro hts
      unfold parseNotExpr
      split
      · rename_i us heq
        obtain ⟨rfl, rfl⟩ := cons_eq_cons.mp heq
        apply Parser.mapDone_ne_none
        apply ih
        simp only [length_cons] at hts
        omega
      · exact parsePrimaryExpr_total hs hgroup _ hts

theorem parseAndExpr_total : Total (parseAndExpr group) (n + 1) :=
  (parseNotExpr_total hs hgroup).andThen (parseNotExpr_sound hs) fun _ =>
    Total.sepLoop (parseNotExpr_total hs hgroup) (parseNotExpr_sound hs) _

theorem parseOrStep_total : Total (parseOrStep group) (n + 1) :=
  (parseAndExpr_total hs hgroup).andThen (parseAndExpr_sound hs) fun _ =>
    Total.sepLoop (parseAndExpr_total hs hgroup) (parseAndExpr_sound hs) _

end

theorem parseOrExpr_total (n : ℕ) : Total parseOrExpr n :=
  Parser.recursive_total (fun _ => parseOrStep_sound) (fun _ _ hs ht => parseOrStep_total hs ht) n

/-! ### Completeness

Each lemma runs the parser on the tokens of a derivation with something behind
them.  For a left recursive class the parser is then inside its loop, with the
tree of the derivation in hand and the rest still to read.
-/

theorem expect_cons (expected : Token) (rest : List Token) :
    expect expected (expected :: rest) = done () rest :=
  expect_eq_done.mpr rfl

theorem parsePathHead_complete {ts : List Token} {e : PathElement} (h : PathHead ts e)
    (rest : List Token) : parsePathHead (ts ++ rest) = done e rest := by
  cases h with
  | identifier name => rfl
  | reference name => rfl

/-- The parser has read a path and looks for more elements. -/
def PathLoop (ts : List Token) (es : List PathElement) : Prop :=
  ∀ rest, ∃ fuel, rest.length ≤ fuel ∧ parseAttributePath (ts ++ rest) =
    Parser.andThen (whileNext continuesPath parsePathElement fuel es) (fun es => .ret ⟨es⟩) rest

theorem parseAttributePath_loop {ts : List Token} {es : List PathElement}
    (h : PathTokens ts es) : PathLoop ts es := by
  induction h with
  | head hhead =>
      intro rest
      exact ⟨rest.length, le_rfl, andThen_done (parsePathHead_complete hhead rest)⟩
  | @dot ts us es e hes he ih =>
      intro rest
      obtain ⟨fuel, hfuel, heq⟩ := ih (.dot :: us ++ rest)
      obtain ⟨k, rfl⟩ : ∃ k, fuel = k + 1 := ⟨fuel - 1, by simp at hfuel; omega⟩
      refine ⟨k, by simp at hfuel; omega, ?_⟩
      have hround : parsePathElement es .dot (us ++ rest) = done (es ++ [e]) rest :=
        andThen_done (parsePathHead_complete he rest)
      simp only [append_assoc, cons_append] at heq ⊢
      rw [heq]
      simp only [Parser.andThen]
      rw [Parser.whileNext_round rfl hround]
  | @index ts es idx hes ih =>
      intro rest
      obtain ⟨fuel, hfuel, heq⟩ := ih (.lBracket :: .number idx :: .rBracket :: rest)
      obtain ⟨k, rfl⟩ : ∃ k, fuel = k + 1 := ⟨fuel - 1, by simp at hfuel; omega⟩
      refine ⟨k, by simp at hfuel; omega, ?_⟩
      have hround : parsePathElement es .lBracket (.number idx :: .rBracket :: rest) =
          done (es ++ [.index idx]) rest :=
        andThen_done (f := fun i => Parser.ret (es ++ [PathElement.index i]))
          (parseIndex_eq_done.mpr rfl)
      simp only [append_assoc, cons_append, nil_append] at heq ⊢
      rw [heq]
      simp only [Parser.andThen]
      rw [Parser.whileNext_round rfl hround]

theorem whileNext_stop_peek {α : Type} {more : Token → Bool} {body : α → Token → TokenParser α}
    {rest : List Token} (hstop : more (peek rest) = false) (fuel : ℕ) (a : α) :
    whileNext more body fuel a rest = done a rest := by
  apply Parser.whileNext_stop
  rintro t ts rfl
  exact hstop

theorem parseAttributePath_complete {ts : List Token} {es : List PathElement}
    (h : PathTokens ts es) {rest : List Token} (hrest : continuesPath (peek rest) = false) :
    parseAttributePath (ts ++ rest) = done ⟨es⟩ rest := by
  obtain ⟨fuel, -, heq⟩ := parseAttributePath_loop h rest
  rw [heq]
  exact andThen_done (whileNext_stop_peek hrest fuel es)

def startsPath : Token → Bool
  | .identifier _ => true
  | .exprAttrName _ => true
  | _ => false

def startsOperand (t : Token) : Bool :=
  startsPath t || t matches .exprAttrValue _ || t = .size

theorem PathTokens.head_eq {ts : List Token} {es : List PathElement} (h : PathTokens ts es) :
    ∃ t us, ts = t :: us ∧ startsPath t = true := by
  induction h with
  | head hhead =>
      cases hhead with
      | identifier name => exact ⟨_, _, rfl, rfl⟩
      | reference name => exact ⟨_, _, rfl, rfl⟩
  | dot _ _ ih =>
      obtain ⟨t, us, rfl, ht⟩ := ih
      exact ⟨t, _, rfl, ht⟩
  | index idx _ ih =>
      obtain ⟨t, us, rfl, ht⟩ := ih
      exact ⟨t, _, rfl, ht⟩

theorem OperandTokens.head_eq {ts : List Token} {operand : Operand}
    (h : OperandTokens ts operand) : ∃ t us, ts = t :: us ∧ startsOperand t = true := by
  cases h with
  | value name => exact ⟨_, _, rfl, rfl⟩
  | path hpath =>
      obtain ⟨t, us, rfl, ht⟩ := hpath.head_eq
      exact ⟨t, us, rfl, by simp [startsOperand, ht]⟩
  | size _ => exact ⟨_, _, rfl, rfl⟩

theorem OperandListTokens.head_eq {ts : List Token} {list : List Operand}
    (h : OperandListTokens ts list) : ∃ t us, ts = t :: us ∧ startsOperand t = true := by
  induction h with
  | one hone => exact hone.head_eq
  | more _ _ ih =>
      obtain ⟨t, us, rfl, ht⟩ := ih
      exact ⟨t, _, rfl, ht⟩

theorem nest_operand_complete {ts : List Token} {operand : Operand}
    (h : OperandTokens ts operand) : ∀ {n : ℕ} {rest : List Token}, ts.length < n →
      continuesPath (peek rest) = false →
      nest parseOperandStep n (ts ++ rest) = done operand rest := by
  induction h with
  | value name =>
      intro n rest hn _
      obtain ⟨k, rfl⟩ : ∃ k, n = k + 1 := ⟨n - 1, by omega⟩
      rfl
  | path hpath =>
      intro n rest hn hrest
      obtain ⟨k, rfl⟩ : ∃ k, n = k + 1 := ⟨n - 1, by omega⟩
      obtain ⟨t, us, rfl, ht⟩ := hpath.head_eq
      have hstep : nest parseOperandStep (k + 1) (t :: us ++ rest) =
          parsePathOperand (t :: us ++ rest) := by
        cases t <;> first | rfl | simp [startsPath] at ht
      rw [hstep]
      exact andThen_done (parseAttributePath_complete hpath hrest)
  | @size ts inner _ ih =>
      intro n rest hn _
      obtain ⟨k, rfl⟩ : ∃ k, n = k + 1 := ⟨n - 1, by omega⟩
      have hinner : nest parseOperandStep k (ts ++ .rParen :: rest) =
          done inner (.rParen :: rest) := by
        apply ih _ rfl
        simp at hn
        omega
      have hargs : rejectSizeArguments (nest parseOperandStep k) (.rParen :: rest) =
          done () (.rParen :: rest) := rejectSizeArguments_eq_done.mpr ⟨by simp [peek], rfl⟩
      have hstep : nest parseOperandStep (k + 1) (.size :: .lParen :: ts ++ [.rParen] ++ rest) =
          parseSizeOperand (nest parseOperandStep k) (.lParen :: (ts ++ .rParen :: rest)) := by
        simp [nest, parseOperandStep]
      rw [hstep]
      simp only [parseSizeOperand, Parser.bind_eq]
      rw [andThen_done (expect_cons _ _), andThen_done hinner, andThen_done hargs,
        andThen_done (expect_cons _ _), Parser.pure_apply]

theorem parseOperand_complete {ts : List Token} {operand : Operand}
    (h : OperandTokens ts operand) {rest : List Token}
    (hrest : continuesPath (peek rest) = false) :
    parseOperand (ts ++ rest) = done operand rest :=
  nest_operand_complete h (by simp only [length_append]; omega) hrest

/-- The parser has read operands and looks for a comma. -/
def ListLoop (ts : List Token) (list : List Operand) : Prop :=
  ∀ rest, continuesPath (peek rest) = false → ∃ fuel, rest.length ≤ fuel ∧
    parseOperandList (ts ++ rest) = whileNext (fun t => decide (t = .comma))
      (fun list _ => parseOperand.andThen fun operand => .ret (list ++ [operand])) fuel list rest

theorem parseOperandList_loop {ts : List Token} {list : List Operand}
    (h : OperandListTokens ts list) : ListLoop ts list := by
  induction h with
  | one hone =>
      intro rest hrest
      exact ⟨rest.length, le_rfl, andThen_done (parseOperand_complete hone hrest)⟩
  | @more ts us list operand _ hus ih =>
      intro rest hrest
      obtain ⟨fuel, hfuel, heq⟩ := ih (.comma :: (us ++ rest)) rfl
      obtain ⟨k, rfl⟩ : ∃ k, fuel = k + 1 := ⟨fuel - 1, by simp at hfuel; omega⟩
      refine ⟨k, by simp at hfuel; omega, ?_⟩
      have hround := andThen_done (f := fun operand => Parser.ret (list ++ [operand]))
        (parseOperand_complete hus hrest)
      rw [append_assoc, cons_append, heq]
      exact Parser.whileNext_round rfl hround k

theorem parseOperandList_complete {ts : List Token} {list : List Operand}
    (h : OperandListTokens ts list) (rest : List Token) :
    parseOperandList (ts ++ .rParen :: rest) = done list (.rParen :: rest) := by
  obtain ⟨fuel, -, heq⟩ := parseOperandList_loop h (.rParen :: rest) rfl
  rw [heq]
  exact whileNext_stop_peek rfl fuel list

/-- Where the parser of each level is once it has read `ts`, with `m` groups left to open. -/
def Parses (level : Level) (ts : List Token) (expr : Expr) : Prop :=
  ∀ m rest, ts.length ≤ m → continuesPath (peek rest) = false →
    let group := nest parseOrStep m
    match level with
    | .or => peek rest ≠ .and → ∃ fuel, rest.length ≤ fuel ∧ parseOrStep group (ts ++ rest) =
        whileNext (fun t => decide (t = .or))
          (fun left _ => (parseAndExpr group).andThen fun right => .ret (.logical .or left right))
          fuel expr rest
    | .and => ∃ fuel, rest.length ≤ fuel ∧ parseAndExpr group (ts ++ rest) =
        whileNext (fun t => decide (t = .and))
          (fun left _ => (parseNotExpr group).andThen fun right => .ret (.logical .and left right))
          fuel expr rest
    | .not => parseNotExpr group (ts ++ rest) = done expr rest
    | .primary => peek ts ≠ .not ∧ parsePrimaryExpr group (ts ++ rest) = done expr rest

theorem parsePrimaryExpr_operand {group : TokenParser Expr} {t : Token} {ts : List Token}
    (ht : startsOperand t = true) :
    parsePrimaryExpr group (t :: ts) = parseOperandExpr (t :: ts) := by
  cases t <;> first | rfl | simp [startsOperand, startsPath] at ht

theorem startsOperand_ne_not {t : Token} (ht : startsOperand t = true) : t ≠ .not := by
  rintro rfl
  exact absurd ht (by decide)

/-- A condition that starts with an operand: what follows decides which one it is. -/
theorem parses_operand {ts more : List Token} {left : Operand} {expr : Expr}
    (hleft : OperandTokens ts left)
    (hbehind : ∀ rest, continuesPath (peek rest) = false →
      continuesPath (peek (more ++ rest)) = false ∧
        parsePostfixExpr left (more ++ rest) = done expr rest) :
    Parses .primary (ts ++ more) expr := by
  intro m rest _ hrest
  obtain ⟨t, us, rfl, ht⟩ := hleft.head_eq
  obtain ⟨hpeek, hdone⟩ := hbehind rest hrest
  refine ⟨startsOperand_ne_not ht, ?_⟩
  rw [append_assoc, cons_append, parsePrimaryExpr_operand ht, ← cons_append]
  exact (andThen_done (parseOperand_complete hleft hpeek)).trans hdone

theorem parseCompareOp_behind {t : Token} {op : CompareOp} (h : parseCompareOp t = some op)
    (left : Operand) (ts : List Token) :
    continuesPath t = false ∧ parsePostfixExpr left (t :: ts) = parseComparison left op ts := by
  cases t <;> cases h <;> exact ⟨rfl, rfl⟩

theorem peekFunctionName_primary {t : Token} {name : FunctionName}
    (h : peekFunctionName t = some name) (group : TokenParser Expr) (ts : List Token) :
    t ≠ .not ∧ parsePrimaryExpr group (t :: ts) = parseFunctionExpr name ts := by
  cases t <;> cases h <;> exact ⟨by simp, rfl⟩

theorem parses_function {t : Token} {ts : List Token} {name : FunctionName}
    {args : List Operand} (ht : peekFunctionName t = some name)
    (hargs : OperandListTokens ts args) :
    Parses .primary (t :: .lParen :: ts ++ [.rParen]) (.function name args) := by
  intro m rest _ _
  obtain ⟨hnot, hstep⟩ := peekFunctionName_primary ht (nest parseOrStep m)
    (.lParen :: (ts ++ .rParen :: rest))
  refine ⟨hnot, ?_⟩
  simp only [cons_append, append_assoc, nil_append]
  rw [hstep]
  simp only [parseFunctionExpr, Parser.bind_eq]
  rw [andThen_done (expect_cons _ _), andThen_done (parseOperandList_complete hargs rest),
    andThen_done (expect_cons _ _), Parser.pure_apply]

theorem parses_compare {t : Token} {ts us : List Token} {left right : Operand} {op : CompareOp}
    (hleft : OperandTokens ts left) (ht : parseCompareOp t = some op)
    (hright : OperandTokens us right) :
    Parses .primary (ts ++ t :: us) (.compare left op right) := by
  apply parses_operand hleft
  intro rest hrest
  obtain ⟨hpeek, hstep⟩ := parseCompareOp_behind ht left (us ++ rest)
  refine ⟨hpeek, ?_⟩
  rw [cons_append, hstep]
  exact andThen_done (parseOperand_complete hright hrest)

theorem parses_between {ts us vs : List Token} {value low high : Operand}
    (hvalue : OperandTokens ts value) (hlow : OperandTokens us low)
    (hhigh : OperandTokens vs high) :
    Parses .primary (ts ++ .between :: (us ++ .and :: vs)) (.between value low high) := by
  apply parses_operand hvalue
  intro rest hrest
  refine ⟨rfl, ?_⟩
  have hstep : parsePostfixExpr value (.between :: (us ++ .and :: vs) ++ rest) =
      parseBetween value (us ++ .and :: (vs ++ rest)) := by simp [parsePostfixExpr]
  rw [hstep]
  simp only [parseBetween, Parser.bind_eq]
  rw [andThen_done (parseOperand_complete hlow rfl), andThen_done (expect_cons _ _),
    andThen_done (parseOperand_complete hhigh hrest), Parser.pure_apply]

theorem parses_inList {ts us : List Token} {value : Operand} {list : List Operand}
    (hvalue : OperandTokens ts value) (hlist : OperandListTokens us list) :
    Parses .primary (ts ++ .in_ :: .lParen :: us ++ [.rParen]) (.inList value list) := by
  rw [append_assoc]
  apply parses_operand hvalue
  intro rest hrest
  refine ⟨rfl, ?_⟩
  have hstep : parsePostfixExpr value (.in_ :: .lParen :: us ++ [.rParen] ++ rest) =
      parseInList value (.lParen :: (us ++ .rParen :: rest)) := by simp [parsePostfixExpr]
  have hempty : rejectEmptyList (us ++ .rParen :: rest) = done () (us ++ .rParen :: rest) := by
    obtain ⟨t, us', rfl, ht⟩ := hlist.head_eq
    refine rejectEmptyList_eq_done.mpr ⟨?_, rfl⟩
    rintro rfl
    exact absurd ht (by decide)
  rw [hstep]
  simp only [parseInList, Parser.bind_eq]
  rw [andThen_done (expect_cons _ _), andThen_done hempty,
    andThen_done (parseOperandList_complete hlist rest), andThen_done (expect_cons _ _),
    Parser.pure_apply]

theorem parses_group {ts : List Token} {expr : Expr} (h : Parses .or ts expr) :
    Parses .primary (.lParen :: ts ++ [.rParen]) expr := by
  intro m rest hm _
  obtain ⟨k, rfl⟩ : ∃ k, m = k + 1 := ⟨m - 1, by simp at hm; omega⟩
  refine ⟨by simp [peek], ?_⟩
  obtain ⟨fuel, -, heq⟩ := h k (.rParen :: rest) (by simp at hm; omega) rfl (by simp [peek])
  have hgroup : nest parseOrStep (k + 1) (ts ++ .rParen :: rest) =
      done expr (.rParen :: rest) := by
    rw [Parser.nest, heq]
    exact whileNext_stop_peek rfl fuel expr
  have hstep : parsePrimaryExpr (nest parseOrStep (k + 1)) (.lParen :: ts ++ [.rParen] ++ rest) =
      parseGroup (nest parseOrStep (k + 1)) (ts ++ .rParen :: rest) := by simp [parsePrimaryExpr]
  rw [hstep]
  simp only [parseGroup, Parser.bind_eq]
  rw [andThen_done hgroup, andThen_done (expect_cons _ _), Parser.pure_apply]

theorem parses_negation {ts : List Token} {expr : Expr} (h : Parses .not ts expr) :
    Parses .not (.not :: ts) (.not expr) := by
  intro m rest hm hrest
  have hinner := h m rest (by simp at hm; omega) hrest
  simp only at hinner ⊢
  rw [cons_append, parseNotExpr, hinner]
  rfl

theorem parses_ofPrimary {ts : List Token} {expr : Expr} (hne : ts ≠ [])
    (h : Parses .primary ts expr) : Parses .not ts expr := by
  intro m rest hm hrest
  obtain ⟨hnot, hdone⟩ := h m rest hm hrest
  cases ts with
  | nil => exact absurd rfl hne
  | cons t ts =>
      simp only
      rw [← hdone, cons_append]
      cases t <;> first | rfl | exact absurd rfl hnot

theorem parses_ofNot {ts : List Token} {expr : Expr} (h : Parses .not ts expr) :
    Parses .and ts expr := by
  intro m rest hm hrest
  exact ⟨rest.length, le_rfl, andThen_done (h m rest hm hrest)⟩

theorem parses_andChain {ts us : List Token} {left right : Expr} (hleft : Parses .and ts left)
    (hright : Parses .not us right) :
    Parses .and (ts ++ .and :: us) (.logical .and left right) := by
  intro m rest hm hrest
  simp only [length_append, length_cons] at hm
  obtain ⟨fuel, hfuel, heq⟩ := hleft m (.and :: (us ++ rest)) (by omega) rfl
  obtain ⟨k, rfl⟩ : ∃ k, fuel = k + 1 := ⟨fuel - 1, by simp at hfuel; omega⟩
  refine ⟨k, by simp at hfuel; omega, ?_⟩
  have hround := andThen_done (f := fun right => Parser.ret (Expr.logical .and left right))
    (hright m rest (by omega) hrest)
  rw [append_assoc, cons_append, heq]
  exact Parser.whileNext_round rfl hround k

theorem parses_ofAnd {ts : List Token} {expr : Expr} (h : Parses .and ts expr) :
    Parses .or ts expr := by
  intro m rest hm hrest group hand
  obtain ⟨fuel, -, heq⟩ := h m rest hm hrest
  have hdone := heq.trans (whileNext_stop_peek (by simpa using hand) fuel expr)
  exact ⟨rest.length, le_rfl, andThen_done hdone⟩

theorem parses_orChain {ts us : List Token} {left right : Expr} (hleft : Parses .or ts left)
    (hright : Parses .and us right) :
    Parses .or (ts ++ .or :: us) (.logical .or left right) := by
  intro m rest hm hrest group hand
  simp only [length_append, length_cons] at hm
  obtain ⟨fuel, hfuel, heq⟩ := hleft m (.or :: (us ++ rest)) (by omega) rfl (by simp [peek])
  obtain ⟨k, rfl⟩ : ∃ k, fuel = k + 1 := ⟨fuel - 1, by simp at hfuel; omega⟩
  refine ⟨k, by simp at hfuel; omega, ?_⟩
  obtain ⟨fuelAnd, -, heqAnd⟩ := hright m rest (by omega) hrest
  have hdone := heqAnd.trans (whileNext_stop_peek (by simpa using hand) fuelAnd right)
  have hround := andThen_done (f := fun right => Parser.ret (Expr.logical .or left right)) hdone
  rw [append_assoc, cons_append, heq]
  exact Parser.whileNext_round rfl hround k

theorem ConditionTokens.ne_nil {level : Level} {ts : List Token} {expr : Expr}
    (h : ConditionTokens level ts expr) : ts ≠ [] := by
  induction h <;> simp_all

theorem ConditionTokens.parses {level : Level} {ts : List Token} {expr : Expr}
    (h : ConditionTokens level ts expr) : Parses level ts expr := by
  induction h with
  | orChain _ _ ihLeft ihRight => exact parses_orChain ihLeft ihRight
  | ofAnd _ ih => exact parses_ofAnd ih
  | andChain _ _ ihLeft ihRight => exact parses_andChain ihLeft ihRight
  | ofNot _ ih => exact parses_ofNot ih
  | negation _ ih => exact parses_negation ih
  | ofPrimary hprimary ih => exact parses_ofPrimary hprimary.ne_nil ih
  | group _ ih => exact parses_group ih
  | function ht hargs => exact parses_function ht hargs
  | compare hleft ht hright => exact parses_compare hleft ht hright
  | between hvalue hlow hhigh => exact parses_between hvalue hlow hhigh
  | inList hvalue hlist => exact parses_inList hvalue hlist

theorem parseOrExpr_complete {ts : List Token} {expr : Expr}
    (h : ConditionTokens .or ts expr) : parseOrExpr (ts ++ [.eof]) = done expr [.eof] := by
  obtain ⟨fuel, -, heq⟩ :=
    h.parses (ts ++ [Token.eof]).length [Token.eof] (by simp) rfl (by simp [peek])
  rw [parseOrExpr, Parser.recursive, Parser.nest, heq]
  exact whileNext_stop_peek rfl fuel expr

/-- One tree for each token sequence. -/
theorem ConditionTokens.unique {ts : List Token} {expr expr' : Expr}
    (h : ConditionTokens .or ts expr) (h' : ConditionTokens .or ts expr') : expr = expr' := by
  have heq := (parseOrExpr_complete h).symm.trans (parseOrExpr_complete h')
  exact (done_inj.mp heq).1

end Rustack.DynamoDB
