import Rustack.DynamoDB.Error
import Rustack.DynamoDB.Storage
import Rustack.DynamoDB.Expression.Evaluator
import Rustack.DynamoDB.Expression.Total

/-!
# Key conditions

A query names a partition and a range of sort keys by an expression.  Two walks
over its tree, one after the other: the first counts the key attributes it
mentions and turns other conditions down, the second reads off the partition
value and the sort condition.  The second does not look again at what the first
let pass, and a conjunct it has no case for says nothing.
-/

namespace Rustack.DynamoDB

open SortableAttributeValue renaming cmp → cmpKey
open Except (bind_eq_ok)
open List EvalContext SortableAttributeValue

/-! ## Names -/

def isKeyAttribute (name : String) (keySchema : KeySchema) : Bool :=
  name == keySchema.partitionKey.name ||
    match keySchema.sortKey with
    | some sk => name == sk.name
    | none => false

/-- The name a path operand resolves to and whether the path is nested. -/
def resolveKcePathName (names : List (String × String)) : Operand → Option (String × Bool)
  | .path path =>
    if path.elements.length > 1 then some ("__nested__", true)
    else
      match path.elements.head? with
      | some (.attribute name) => some (resolveNameRef names name, false)
      | _ => none
  | _ => none

def validateKcePathIsKey (resolved : String) (nested : Bool) (keySchema : KeySchema) :
    Except DynamoDBError Unit :=
  if nested then
    .error (.validation "Key condition expression does not support nested attribute paths")
  else if !isKeyAttribute resolved keySchema then
    .error (.validation
      ("Query condition missed key schema element: " ++ keySchema.partitionKey.name))
  else .ok ()

/-! ## Validation -/

section Validation

variable (keySchema : KeySchema) (names : List (String × String))

def validateKceOperand (operand : Operand) : Except DynamoDBError Unit :=
  match resolveKcePathName names operand with
  | some (resolved, nested) => validateKcePathIsKey resolved nested keySchema
  | none => .ok ()

/-- Count a key attribute on one side of a comparison. -/
def countKceOperand (op : CompareOp) (counts : ℕ × ℕ) (operand : Operand) :
    Except DynamoDBError (ℕ × ℕ) :=
  match resolveKcePathName names operand with
  | some (resolved, _) =>
    if resolved = keySchema.partitionKey.name then
      if op ≠ .eq then .error (.validation "Query key condition not supported")
      else .ok (counts.1 + 1, counts.2)
    else
      match keySchema.sortKey with
      | some sk =>
        if sk.name = resolved then
          if op = .ne then
            .error (.validation "Unsupported operator on KeyConditionExpression: operator: <>")
          else .ok (counts.1, counts.2 + 1)
        else .ok counts
      | none => .ok counts
  | none => .ok counts

/-- The first operand of `BETWEEN` and `begins_with`: not the partition key. -/
def countKceSortOperand (counts : ℕ × ℕ) (operand : Operand) : Except DynamoDBError (ℕ × ℕ) :=
  match resolveKcePathName names operand with
  | some (resolved, nested) => do
    validateKcePathIsKey resolved nested keySchema
    if resolved = keySchema.partitionKey.name then
      .error (.validation "Query key condition not supported")
    else .ok (counts.1, counts.2 + 1)
  | none => .ok counts

/-- Count the references to the partition key and to the sort key. -/
def collectKceKeyRefs : Expr → ℕ × ℕ → Except DynamoDBError (ℕ × ℕ)
  | .compare left op right, counts => do
    validateKceOperand keySchema names left
    validateKceOperand keySchema names right
    let counts ← countKceOperand keySchema names op counts left
    countKceOperand keySchema names op counts right
  | .between value _ _, counts => countKceSortOperand keySchema names counts value
  | .inList _ _, _ =>
    .error (.validation "Unsupported operator on KeyConditionExpression: operator: IN")
  | .logical .or _ _, _ =>
    .error (.validation "Unsupported operator in KeyConditionExpression: OR")
  | .logical .and left right, counts => do
    let counts ← collectKceKeyRefs left counts
    collectKceKeyRefs right counts
  | .not _, _ => .error (.validation "Unsupported operator in KeyConditionExpression: NOT")
  | .function .beginsWith args, counts =>
    match args with
    | first :: _ => countKceSortOperand keySchema names counts first
    | [] => .ok counts
  | .function other _, _ =>
    .error (.validation ("Unsupported function in KeyConditionExpression: " ++ other.display))

def validateKeyConditionExpr (expr : Expr) : Except DynamoDBError Unit := do
  let (pkCount, skCount) ← collectKceKeyRefs keySchema names expr (0, 0)
  if pkCount = 0 then
    .error (.validation
      ("Query condition missed key schema element: " ++ keySchema.partitionKey.name))
  else if 1 < pkCount ∨ 1 < skCount then
    .error (.validation "KeyConditionExpressions must only contain one condition per key")
  else .ok ()

end Validation

/-! ## Extraction -/

section Extraction

variable (keySchema : KeySchema) (names : List (String × String))
  (values : List (String × AttributeValue))

def resolveOperandValue (operand : Operand) : Except DynamoDBError AttributeValue :=
  match operand with
  | .value name =>
    match values.lookup (":" ++ name) with
    | some value => .ok value
    | none => .error (.validation
        ("Value :" ++ name ++ " not found in ExpressionAttributeValues"))
  | _ => .error (.validation "Expected a value reference (:value) in key condition")

/-- The operand is a path of one element that resolves to the key's name. -/
def isKeyPath (keyName : String) (operand : Operand) : Bool :=
  match operand with
  | .path path =>
    match path.elements with
    | [.attribute name] => resolveNameRef names name == keyName
    | _ => false
  | _ => false

def notReferenced (keyName : String) : DynamoDBError :=
  .validation ("KeyConditionExpression must reference key attribute '" ++ keyName ++ "'")

def resolveKeyValue (left right : Operand) (keyName : String) :
    Except DynamoDBError AttributeValue :=
  if isKeyPath names keyName left then resolveOperandValue values right
  else if isKeyPath names keyName right then resolveOperandValue values left
  else .error (notReferenced keyName)

/-- The operator with its sides exchanged. -/
def CompareOp.flipped : CompareOp → CompareOp
  | .eq => .eq
  | .ne => .ne
  | .lt => .gt
  | .le => .ge
  | .gt => .lt
  | .ge => .le

def resolveSortValueWithDirection (left right : Operand) (keyName : String) (op : CompareOp) :
    Except DynamoDBError (AttributeValue × CompareOp) :=
  if isKeyPath names keyName left then do
    let val ← resolveOperandValue values right
    .ok (val, op)
  else if isKeyPath names keyName right then do
    let val ← resolveOperandValue values left
    .ok (val, op.flipped)
  else .error (notReferenced keyName)

def toSortable (attrName : String) (val : AttributeValue) :
    Except DynamoDBError SortableAttributeValue :=
  (SortableAttributeValue.fromAttributeValue attrName val).mapError storageErrorToDynamodb

def wrongParameterType (keyAttr : KeyAttribute) : DynamoDBError :=
  .validation ("Condition parameter type does not match schema type for key attribute '" ++
    keyAttr.name ++ "'")

def validateKeyValueType (value : AttributeValue) (keyAttr : KeyAttribute) :
    Except DynamoDBError Unit :=
  match keyAttr.attrType, value with
  | .s, .s _ => .ok ()
  | .n, .n _ => .ok ()
  | .b, .b _ => .ok ()
  | _, _ => .error (wrongParameterType keyAttr)

def validateSortValueType (sk : KeyAttribute) (value : SortableAttributeValue) :
    Except DynamoDBError Unit :=
  match sk.attrType, value with
  | .s, .s _ => .ok ()
  | .n, .n _ => .ok ()
  | .b, .b _ => .ok ()
  | _, _ => .error (wrongParameterType sk)

/-- A prefix is not checked against the key's type. -/
def validateSortConditionType (cond : SortKeyCondition) (sk : KeyAttribute) :
    Except DynamoDBError Unit :=
  match cond with
  | .eq v | .lt v | .le v | .gt v | .ge v => validateSortValueType sk v
  | .between low high => do
    validateSortValueType sk low
    validateSortValueType sk high
  | .beginsWithStr _ | .beginsWithBytes _ => .ok ()

def compareCondition (op : CompareOp) (value : SortableAttributeValue) :
    Except DynamoDBError SortKeyCondition :=
  match op with
  | .eq => .ok (.eq value)
  | .lt => .ok (.lt value)
  | .le => .ok (.le value)
  | .gt => .ok (.gt value)
  | .ge => .ok (.ge value)
  | .ne => .error (.validation "Sort key condition does not support <> operator")

def beginsWithCondition : AttributeValue → Except DynamoDBError SortKeyCondition
  | .s pre => .ok (.beginsWithStr pre)
  | .b pre => .ok (.beginsWithBytes pre)
  | _ => .error (.validation "begins_with requires a string or binary argument")

/-- What a conjunct says of the sort key, `none` where there is no case for it. -/
def extractSortCondition (expr : Expr) : Except DynamoDBError (Option SortKeyCondition) :=
  match keySchema.sortKey with
  | none => .ok none
  | some sk =>
    match expr with
    | .compare left op right => do
      let (val, effectiveOp) ← resolveSortValueWithDirection names values left right sk.name op
      let sortable ← toSortable sk.name val
      let cond ← compareCondition effectiveOp sortable
      .ok (some cond)
    -- the first operand of BETWEEN and of begins_with is not looked at
    | .between _ low high => do
      let lowVal ← resolveOperandValue values low
      let highVal ← resolveOperandValue values high
      let lowS ← toSortable sk.name lowVal
      let highS ← toSortable sk.name highVal
      .ok (some (.between lowS highS))
    | .function .beginsWith [_, second] => do
      let prefixVal ← resolveOperandValue values second
      let cond ← beginsWithCondition prefixVal
      .ok (some cond)
    | _ => .ok none

def checkSortCondition (sortCond : Option SortKeyCondition) : Except DynamoDBError Unit :=
  match keySchema.sortKey, sortCond with
  | some sk, some cond => validateSortConditionType cond sk
  | _, _ => .ok ()

/-- The sort condition read off one side, checked against the type of the sort key. -/
def extractCheckedSortCondition (expr : Expr) :
    Except DynamoDBError (Option SortKeyCondition) := do
  let sortCond ← extractSortCondition keySchema names values expr
  checkSortCondition keySchema sortCond
  .ok sortCond

def noPartitionCondition : DynamoDBError :=
  .validation "KeyConditionExpression must contain an equality condition on the partition key"

/-- The partition value and the sort condition of an expression. -/
def extractKeyCondition :
    Expr → Except DynamoDBError (AttributeValue × Option SortKeyCondition)
  | .compare left .eq right => do
    let pkVal ← resolveKeyValue names values left right keySchema.partitionKey.name
    validateKeyValueType pkVal keySchema.partitionKey
    .ok (pkVal, none)
  | .logical .and left right =>
    match extractKeyCondition left with
    | .ok (pkVal, _) => do
      let sortCond ← extractCheckedSortCondition keySchema names values right
      .ok (pkVal, sortCond)
    | .error _ =>
      match extractKeyCondition right with
      | .ok (pkVal, _) => do
        let sortCond ← extractCheckedSortCondition keySchema names values left
        .ok (pkVal, sortCond)
      | .error _ => .error noPartitionCondition
  | _ => .error noPartitionCondition

end Extraction

/-! ## What the conjuncts of an expression say -/

/-- What one condition can say of a primary key. -/
inductive KeyReading where
  | partition (value : AttributeValue)
  | sort (condition : SortKeyCondition)

def KeyReading.holds (key : PrimaryKey) : KeyReading → Prop
  | .partition value => key.partitionKey = value
  | .sort condition => condition.matchesValue key.treeKey = true

/-- The operand is a path to the top-level attribute `key`. -/
def NamesAttribute (names : List (String × String)) (key : String) (operand : Operand) : Prop :=
  ∃ name, operand = .path ⟨[.attribute name]⟩ ∧ resolveName names name = some key

/-- The operand is a `:value` that stands for `value`. -/
def StandsFor (values : List (String × AttributeValue)) (value : AttributeValue)
    (operand : Operand) : Prop :=
  ∃ name, operand = .value name ∧ values.lookup (":" ++ name) = some value

/-- The operand is a `:value` that stands for a sort key of the schema's type. -/
def StandsForKey (values : List (String × AttributeValue)) (sk : KeyAttribute)
    (key : SortableAttributeValue) (operand : Operand) : Prop :=
  ∃ value, StandsFor values value operand ∧
    SortableAttributeValue.fromAttributeValue sk.name value = .ok key ∧
    validateSortValueType sk key = .ok ()

/-- What a conjunct says of the key of an item, read off its own words. -/
inductive Says (keySchema : KeySchema) (names : List (String × String))
    (values : List (String × AttributeValue)) : Expr → KeyReading → Prop
  | partition {left right : Operand} {value : AttributeValue}
      (hpath : NamesAttribute names keySchema.partitionKey.name left)
      (hvalue : StandsFor values value right) :
      Says keySchema names values (.compare left .eq right) (.partition value)
  | partitionReversed {left right : Operand} {value : AttributeValue}
      (hvalue : StandsFor values value left)
      (hpath : NamesAttribute names keySchema.partitionKey.name right) :
      Says keySchema names values (.compare left .eq right) (.partition value)
  | compare {sk : KeyAttribute} {left right : Operand} {op : CompareOp}
      {key : SortableAttributeValue} {condition : SortKeyCondition}
      (hsk : keySchema.sortKey = some sk) (hpath : NamesAttribute names sk.name left)
      (hvalue : StandsForKey values sk key right)
      (hcondition : compareCondition op key = .ok condition) :
      Says keySchema names values (.compare left op right) (.sort condition)
  | compareReversed {sk : KeyAttribute} {left right : Operand} {op : CompareOp}
      {key : SortableAttributeValue} {condition : SortKeyCondition}
      (hsk : keySchema.sortKey = some sk) (hvalue : StandsForKey values sk key left)
      (hpath : NamesAttribute names sk.name right)
      (hcondition : compareCondition op.flipped key = .ok condition) :
      Says keySchema names values (.compare left op right) (.sort condition)
  | between {sk : KeyAttribute} {value low high : Operand}
      {lowKey highKey : SortableAttributeValue}
      (hsk : keySchema.sortKey = some sk) (hpath : NamesAttribute names sk.name value)
      (hlow : StandsForKey values sk lowKey low) (hhigh : StandsForKey values sk highKey high) :
      Says keySchema names values (.between value low high) (.sort (.between lowKey highKey))
  | beginsWith {sk : KeyAttribute} {first second : Operand} {pre : AttributeValue}
      {condition : SortKeyCondition}
      (hsk : keySchema.sortKey = some sk) (hpath : NamesAttribute names sk.name first)
      (hvalue : StandsFor values pre second)
      (hcondition : beginsWithCondition pre = .ok condition) :
      Says keySchema names values (.function .beginsWith [first, second]) (.sort condition)

/-- The conditions an expression joins by `AND`. -/
def conjuncts : Expr → List Expr
  | .logical .and left right => conjuncts left ++ conjuncts right
  | expr => [expr]

/-- What a query is given: a partition value and perhaps a sort condition. -/
def extractedReadings (extracted : AttributeValue × Option SortKeyCondition) : List KeyReading :=
  .partition extracted.1 :: (extracted.2.map KeyReading.sort).toList

/-- An item with this key matches the extracted pair. -/
def MatchesExtracted (extracted : AttributeValue × Option SortKeyCondition) (key : PrimaryKey) :
    Prop :=
  key.partitionKey = extracted.1 ∧
    ∀ condition ∈ extracted.2, condition.matchesValue key.treeKey = true

/-- Every conjunct says one of the extracted parts, and each part is said by one conjunct. -/
def EveryConjunctRead (keySchema : KeySchema) (names : List (String × String))
    (values : List (String × AttributeValue)) (expr : Expr)
    (extracted : AttributeValue × Option SortKeyCondition) : Prop :=
  ∃ readings, List.Forall₂ (Says keySchema names values) (conjuncts expr) readings ∧
    readings.Perm (extractedReadings extracted)

/-! ## Evaluating a conjunct -/

section Evaluation

variable {F : Type} [F64 F]

/-- A conjunction is true when every conjunct is. -/
theorem evaluate_conjuncts (ctx : EvalContext) (expr : Expr) :
    ctx.evaluate F expr = .ok true ↔ ∀ c ∈ conjuncts expr, ctx.evaluate F c = .ok true := by
  induction expr with
  | logical op left right ihl ihr =>
      cases op with
      | or => simp [conjuncts]
      | and =>
          simp only [conjuncts, forall_mem_append, ← ihl, ← ihr, evaluate,
            Outcome.bind_eq_ok]
          constructor
          · rintro ⟨b, hleft, hright⟩
            cases b with
            | false => simp at hright
            | true => exact ⟨hleft, by simpa using hright⟩
          · rintro ⟨hleft, hright⟩
            exact ⟨true, hleft, by simpa using hright⟩
  | _ => simp [conjuncts]

theorem resolveOperand_named {ctx : EvalContext} {key : String} {operand : Operand}
    (h : NamesAttribute ctx.names key operand) :
    ctx.resolveOperand operand = .ok (ctx.item.lookup key) := by
  obtain ⟨name, rfl, hname⟩ := h
  simp [resolveOperand, resolvePath, hname, walkPath]

theorem resolveOperand_standsFor {ctx : EvalContext} {value : AttributeValue} {operand : Operand}
    (h : StandsFor ctx.values value operand) : ctx.resolveOperand operand = .ok (some value) := by
  obtain ⟨name, rfl, hvalue⟩ := h
  simp [resolveOperand, hvalue]

/-- A key value and the tree key it is filed under, for keys compared by bytes. -/
inductive SortsAs : ScalarAttributeType → AttributeValue → SortableAttributeValue → Prop
  | s (text : String) : SortsAs .s (.s text) (.s text)
  | b (bytes : List UInt8) : SortsAs .b (.b bytes) (.b bytes)

/-- The key attribute is a string or a binary. -/
def StringOrBinary (keyAttr : KeyAttribute) : Prop :=
  keyAttr.attrType = .s ∨ keyAttr.attrType = .b

theorem sortsAs_of_standsForKey {values : List (String × AttributeValue)} {sk : KeyAttribute}
    (htype : StringOrBinary sk) {key : SortableAttributeValue} {operand : Operand}
    (h : StandsForKey values sk key operand) :
    ∃ value, StandsFor values value operand ∧ SortsAs sk.attrType value key := by
  obtain ⟨value, hvalue, hkey, hchecked⟩ := h
  refine ⟨value, hvalue, ?_⟩
  rcases htype with ht | ht <;> rw [ht] <;> cases value <;>
    simp only [fromAttributeValue, Except.ok.injEq, reduceCtorEq] at hkey <;>
    subst hkey <;> simp only [validateSortValueType, ht, reduceCtorEq] at hchecked
  · exact .s _
  · exact .b _

theorem validateKeyType_sortsAs {keyAttr : KeyAttribute} (htype : StringOrBinary keyAttr)
    {attrName : String} {value : AttributeValue}
    (h : validateKeyType attrName keyAttr.attrType value = .ok ()) :
    ∃ key, SortsAs keyAttr.attrType value key ∧
      fromAttributeValue attrName value = .ok key := by
  rcases htype with ht | ht <;> rw [ht] at h ⊢ <;> cases value <;>
    simp only [validateKeyType, reduceCtorEq] at h
  · exact ⟨_, .s _, rfl⟩
  · exact ⟨_, .b _, rfl⟩

theorem extractPrimaryKey_partition {keySchema : KeySchema} {item : Item} {key : PrimaryKey}
    (h : extractPrimaryKey keySchema item = .ok key) :
    item.lookup keySchema.partitionKey.name = some key.partitionKey ∧
      validateKeyType keySchema.partitionKey.name keySchema.partitionKey.attrType
        key.partitionKey = .ok () := by
  obtain ⟨pk, hpk, h⟩ := bind_eq_ok.mp h
  obtain ⟨_, htype, h⟩ := bind_eq_ok.mp h
  obtain rfl : key.partitionKey = pk := by
    cases hsk : keySchema.sortKey with
    | none =>
        simp only [hsk] at h
        cases h
        rfl
    | some sk =>
        simp only [hsk] at h
        obtain ⟨skValue, -, h⟩ := bind_eq_ok.mp h
        obtain ⟨_, -, h⟩ := bind_eq_ok.mp h
        obtain ⟨sortKey, -, h⟩ := bind_eq_ok.mp h
        cases h
        rfl
  exact ⟨requireAttr_eq_ok.mp hpk, htype⟩

theorem extractPrimaryKey_sort {keySchema : KeySchema} {item : Item} {key : PrimaryKey}
    (h : extractPrimaryKey keySchema item = .ok key) {sk : KeyAttribute}
    (hsk : keySchema.sortKey = some sk) (htype : StringOrBinary sk) :
    ∃ value, item.lookup sk.name = some value ∧ SortsAs sk.attrType value key.treeKey := by
  obtain ⟨pk, -, h⟩ := bind_eq_ok.mp h
  obtain ⟨_, -, h⟩ := bind_eq_ok.mp h
  simp only [hsk] at h
  obtain ⟨skValue, hvalue, h⟩ := bind_eq_ok.mp h
  obtain ⟨_, hchecked, h⟩ := bind_eq_ok.mp h
  obtain ⟨sortKey, hkey, h⟩ := bind_eq_ok.mp h
  cases h
  obtain ⟨key, hsorts, hfrom⟩ := validateKeyType_sortsAs htype hchecked
  obtain rfl : key = sortKey := Except.ok.inj (hfrom.symm.trans hkey)
  exact ⟨skValue, requireAttr_eq_ok.mp hvalue, hsorts⟩

theorem compareValues_sortsAs {type : ScalarAttributeType} {v w : AttributeValue}
    {k l : SortableAttributeValue} (hv : SortsAs type v k) (hw : SortsAs type w l)
    (op : CompareOp) : compareValues F v w op = .ok (compareOrd (cmpKey k l) op) := by
  cases hv <;> cases hw <;> rfl

theorem orderable_of_sortsAs {type : ScalarAttributeType} {v : AttributeValue}
    {k : SortableAttributeValue} (hv : SortsAs type v k) (operand : Operand) (name : String) :
    validateOrderingOperandType operand v name = .ok () := by
  cases hv <;> simp [validateOrderingOperandType, isOrderingUnsupportedType]

theorem compareBytes_eq_eq {x y : List UInt8} : Utf8.compareBytes x y = .eq ↔ x = y :=
  Std.LawfulEqCmp.compare_eq_iff_eq

/-- Strings and binaries are equal to themselves only. -/
theorem compareValues_eq_iff {type : ScalarAttributeType} {v : AttributeValue}
    {k : SortableAttributeValue} (hv : SortsAs type v k) (w : AttributeValue) :
    (compareValues F v w .eq = .ok true ↔ v = w) ∧
      (compareValues F w v .eq = .ok true ↔ v = w) := by
  cases hv with
  | s x =>
      cases w with
      | s y =>
          simp only [compareValues, compareOrd, Except.ok.injEq, beq_iff_eq, compareBytes_eq_eq,
            asBytes, Utf8.encode_injective.eq_iff, String.toList_inj,
            AttributeValue.s.injEq, true_and]
          exact eq_comm
      | _ => simp [compareValues]
  | b x =>
      cases w with
      | b y =>
          simp only [compareValues, compareOrd, Except.ok.injEq, beq_iff_eq, compareBytes_eq_eq,
            AttributeValue.b.injEq, true_and]
          exact eq_comm
      | _ => simp [compareValues]

theorem matchesValue_compareCondition {op : CompareOp} {key : SortableAttributeValue}
    {condition : SortKeyCondition} (h : compareCondition op key = .ok condition)
    (value : SortableAttributeValue) :
    condition.matchesValue value = compareOrd (cmpKey value key) op := by
  cases op <;> simp only [compareCondition, Except.ok.injEq, reduceCtorEq] at h <;> subst h <;> rfl

theorem compareOrd_flipped (x y : SortableAttributeValue) (op : CompareOp) :
    compareOrd (cmpKey x y) op = compareOrd (cmpKey y x) op.flipped := by
  rw [cmp_swap x y]
  cases cmpKey y x <;> cases op <;> rfl

theorem evalCompare_of_some {ctx : EvalContext} {left right : Operand} {v w : AttributeValue}
    (hl : ctx.resolveOperand left = .ok (some v)) (hr : ctx.resolveOperand right = .ok (some w))
    {op : CompareOp} (hop : isOrderingOp op = true →
      validateOrderingOperandType left v op.display = .ok () ∧
        validateOrderingOperandType right w op.display = .ok ()) :
    ctx.evalCompare F left op right = compareValues F v w op := by
  simp only [evalCompare, hl, hr, bind, Except.bind]
  by_cases h : isOrderingOp op = true
  · simp only [h, if_true, hop h]
  · simp only [if_neg h]

/-- Constant bounds are in order, or an error. -/
theorem validateBounds_standsFor {values : List (String × AttributeValue)} {low high : Operand}
    {type : ScalarAttributeType} {lo hi : AttributeValue} {l h : SortableAttributeValue}
    (hlo : StandsFor values lo low) (hlok : SortsAs type lo l)
    (hhi : StandsFor values hi high) (hhik : SortsAs type hi h) :
    validateBounds F low high lo hi = .ok () ↔ cmpKey l h ≠ .gt := by
  have hconstants : (isQueryConstant low && isQueryConstant high) = true := by
    obtain ⟨_, rfl, -⟩ := hlo
    obtain ⟨_, rfl, -⟩ := hhi
    rfl
  have htypes : (lo.typeDescriptor != hi.typeDescriptor) = false := by
    cases hlok <;> cases hhik <;> rfl
  unfold validateBounds
  rw [if_pos hconstants, htypes, if_neg Bool.false_ne_true, compareValues_sortsAs hlok hhik]
  simp only [bind, Except.bind, compareOrd]
  cases cmpKey l h <;> simp

theorem evalBetween_of_some {ctx : EvalContext} {value low high : Operand}
    {type : ScalarAttributeType} {v lo hi : AttributeValue} {k l h : SortableAttributeValue}
    (hv : ctx.resolveOperand value = .ok (some v)) (hvk : SortsAs type v k)
    (hlo : StandsFor ctx.values lo low) (hlok : SortsAs type lo l)
    (hhi : StandsFor ctx.values hi high) (hhik : SortsAs type hi h) :
    ctx.evalBetween F value low high = .ok true ↔
      (SortKeyCondition.between l h).matchesValue k = true := by
  have hbounds := @validateBounds_standsFor F _ _ _ _ _ _ _ _ _ hlo hlok hhi hhik
  simp only [evalBetween, hv, resolveOperand_standsFor hlo,
    resolveOperand_standsFor hhi, orderable_of_sortsAs hvk, orderable_of_sortsAs hlok,
    orderable_of_sortsAs hhik, compareValues_sortsAs hvk hlok, compareValues_sortsAs hvk hhik,
    bind, Except.bind, compareOrd, SortKeyCondition.matchesValue]
  cases hresult : validateBounds F low high lo hi with
  | ok u => simp
  | error e =>
      -- an inverted range is an error here and an empty one for the store
      simp only [reduceCtorEq, Bool.and_eq_true, bne_iff_ne, false_iff, not_and]
      intro hge hle
      grind [cmp_ne_gt, cmp_ne_lt]

theorem startsWith_iff_matches {type : ScalarAttributeType} {v pre : AttributeValue}
    {k : SortableAttributeValue} (hvk : SortsAs type v k) {condition : SortKeyCondition}
    (hcondition : beginsWithCondition pre = .ok condition) {ctx : EvalContext}
    {first second : Operand} (hv : ctx.resolveOperand first = .ok (some v))
    (hpre : ctx.resolveOperand second = .ok (some pre)) :
    ctx.evalBeginsWith [first, second] = .ok true ↔ condition.matchesValue k = true := by
  have hpreType : validateBeginsWithOperand second (some pre) = .ok () := by
    cases pre <;> simp_all [beginsWithCondition, validateBeginsWithOperand]
  have hvType : validateBeginsWithOperand first (some v) = .ok () := by
    cases hvk <;> rfl
  cases pre <;> simp only [beginsWithCondition, Except.ok.injEq, reduceCtorEq] at hcondition <;>
    subst hcondition <;> cases hvk <;>
    simp [evalBeginsWith, argument, hv, hpre, hvType, hpreType, Outcome.ofExcept,
      SortKeyCondition.matchesValue]

/-- A conjunct evaluates to true on the items whose key is as it says. -/
theorem evaluate_iff_holds {keySchema : KeySchema} (hpk : StringOrBinary keySchema.partitionKey)
    (hsks : ∀ sk ∈ keySchema.sortKey, StringOrBinary sk) {ctx : EvalContext} {key : PrimaryKey}
    (hkey : extractPrimaryKey keySchema ctx.item = .ok key) {c : Expr} {r : KeyReading}
    (h : Says keySchema ctx.names ctx.values c r) :
    ctx.evaluate F c = .ok true ↔ r.holds key := by
  obtain ⟨hlookup, hchecked⟩ := extractPrimaryKey_partition hkey
  obtain ⟨pkKey, hsorts, -⟩ := validateKeyType_sortsAs hpk hchecked
  cases h with
  | partition hpath hvalue =>
      have hl := resolveOperand_named hpath
      rw [hlookup] at hl
      rw [evaluate, evalCompare_of_some hl (resolveOperand_standsFor hvalue)
        (by simp [isOrderingOp]), Outcome.ofExcept_eq_ok]
      exact (compareValues_eq_iff hsorts _).1
  | partitionReversed hvalue hpath =>
      have hr := resolveOperand_named hpath
      rw [hlookup] at hr
      rw [evaluate, evalCompare_of_some (resolveOperand_standsFor hvalue) hr
        (by simp [isOrderingOp]), Outcome.ofExcept_eq_ok]
      exact (compareValues_eq_iff hsorts _).2
  | compare hsk hpath hvalue hcondition =>
      obtain ⟨v, hv, hvk⟩ := extractPrimaryKey_sort hkey hsk (hsks _ hsk)
      obtain ⟨w, hw, hwk⟩ := sortsAs_of_standsForKey (hsks _ hsk) hvalue
      have hl := resolveOperand_named hpath
      rw [hv] at hl
      rw [evaluate, evalCompare_of_some hl (resolveOperand_standsFor hw)
        (fun _ => ⟨orderable_of_sortsAs hvk _ _, orderable_of_sortsAs hwk _ _⟩),
        compareValues_sortsAs hvk hwk, Outcome.ofExcept_eq_ok, Except.ok.injEq,
        KeyReading.holds, matchesValue_compareCondition hcondition]
  | compareReversed hsk hvalue hpath hcondition =>
      obtain ⟨v, hv, hvk⟩ := extractPrimaryKey_sort hkey hsk (hsks _ hsk)
      obtain ⟨w, hw, hwk⟩ := sortsAs_of_standsForKey (hsks _ hsk) hvalue
      have hr := resolveOperand_named hpath
      rw [hv] at hr
      rw [evaluate, evalCompare_of_some (resolveOperand_standsFor hw) hr
        (fun _ => ⟨orderable_of_sortsAs hwk _ _, orderable_of_sortsAs hvk _ _⟩),
        compareValues_sortsAs hwk hvk, Outcome.ofExcept_eq_ok, Except.ok.injEq,
        KeyReading.holds, matchesValue_compareCondition hcondition, compareOrd_flipped]
  | between hsk hpath hlow hhigh =>
      obtain ⟨v, hv, hvk⟩ := extractPrimaryKey_sort hkey hsk (hsks _ hsk)
      obtain ⟨lo, hlo, hlok⟩ := sortsAs_of_standsForKey (hsks _ hsk) hlow
      obtain ⟨hi, hhi, hhik⟩ := sortsAs_of_standsForKey (hsks _ hsk) hhigh
      have hvalue := resolveOperand_named hpath
      rw [hv] at hvalue
      rw [evaluate, Outcome.ofExcept_eq_ok]
      exact evalBetween_of_some hvalue hvk hlo hlok hhi hhik
  | beginsWith hsk hpath hvalue hcondition =>
      obtain ⟨v, hv, hvk⟩ := extractPrimaryKey_sort hkey hsk (hsks _ hsk)
      have hfirst := resolveOperand_named hpath
      rw [hv] at hfirst
      exact startsWith_iff_matches hvk hcondition hfirst (resolveOperand_standsFor hvalue)

end Evaluation

/-! ## When every conjunct is read -/

section Reading

variable {keySchema : KeySchema} {names : List (String × String)}
  {values : List (String × AttributeValue)}

/-- If every conjunct is read, the pair means what the expression means. -/
theorem EveryConjunctRead.evaluate_iff {F : Type} [F64 F] {expr : Expr}
    {extracted : AttributeValue × Option SortKeyCondition}
    (h : EveryConjunctRead keySchema names values expr extracted)
    (hpk : StringOrBinary keySchema.partitionKey)
    (hsks : ∀ sk ∈ keySchema.sortKey, StringOrBinary sk) {item : Item} {key : PrimaryKey}
    (hkey : extractPrimaryKey keySchema item = .ok key) :
    MatchesExtracted extracted key ↔ evaluate ⟨item, names, values⟩ F expr = .ok true := by
  obtain ⟨readings, hsays, hperm⟩ := h
  have hreadings : (∀ c ∈ conjuncts expr,
      evaluate ⟨item, names, values⟩ F c = .ok true) ↔
      ∀ r ∈ readings, r.holds key := by
    clear hperm
    generalize conjuncts expr = cs at hsays
    induction hsays with
    | nil => simp
    | cons hsay _ ih =>
        rw [forall_mem_cons, forall_mem_cons, ih,
          @evaluate_iff_holds F _ keySchema hpk hsks ⟨item, names, values⟩ key hkey _ _ hsay]
  rw [evaluate_conjuncts, hreadings]
  simp only [hperm.mem_iff, extractedReadings, forall_mem_cons, KeyReading.holds,
    MatchesExtracted]
  cases extracted.2 with
  | none => simp
  | some condition => simp

/-- A path of one element whose name resolves. -/
def isNamed (names : List (String × String)) : Operand → Bool
  | .path ⟨[.attribute name]⟩ => (resolveName names name).isSome
  | _ => false

/-- The condition has a path where it has the key, and no argument too many. -/
def readsKey (names : List (String × String)) : Expr → Bool
  | .compare left _ right => isNamed names left || isNamed names right
  | .between value _ _ => isNamed names value
  | .function .beginsWith [first, _] => isNamed names first
  | _ => false

/-- One condition on a key, or two joined by `AND` where the schema has two keys. -/
def isPlainKeyCondition (keySchema : KeySchema) (names : List (String × String)) : Expr → Bool
  | .logical .and left right =>
    keySchema.sortKey.isSome && readsKey names left && readsKey names right
  | expr => readsKey names expr

theorem NamesAttribute.isNamed {key : String} {operand : Operand}
    (h : NamesAttribute names key operand) : isNamed names operand = true := by
  obtain ⟨name, rfl, hname⟩ := h
  simp [DynamoDB.isNamed, hname]

theorem Says.readsKey {c : Expr} {r : KeyReading} (h : Says keySchema names values c r) :
    readsKey names c = true := by
  cases h with
  | partition hpath => simp [DynamoDB.readsKey, hpath.isNamed]
  | partitionReversed _ hpath => simp [DynamoDB.readsKey, hpath.isNamed]
  | compare _ hpath => simp [DynamoDB.readsKey, hpath.isNamed]
  | compareReversed _ _ hpath => simp [DynamoDB.readsKey, hpath.isNamed]
  | between _ hpath => simp [DynamoDB.readsKey, hpath.isNamed]
  | beginsWith _ hpath => simp [DynamoDB.readsKey, hpath.isNamed]

theorem Says.sortKey_isSome {c : Expr} {condition : SortKeyCondition}
    (h : Says keySchema names values c (.sort condition)) : keySchema.sortKey.isSome = true := by
  cases h with
  | compare hsk => simp [hsk]
  | compareReversed hsk => simp [hsk]
  | between hsk => simp [hsk]
  | beginsWith hsk => simp [hsk]

theorem conjuncts_ne_nil (expr : Expr) : conjuncts expr ≠ [] := by
  induction expr with
  | logical op left right ihl ihr => cases op <;> simp [conjuncts, ihl]
  | _ => simp [conjuncts]

theorem conjuncts_of_length_le_one {expr : Expr} (h : (conjuncts expr).length ≤ 1) :
    conjuncts expr = [expr] := by
  cases expr with
  | logical op left right =>
      cases op with
      | or => rfl
      | and =>
          have hl := length_pos_iff.mpr (conjuncts_ne_nil left)
          have hr := length_pos_iff.mpr (conjuncts_ne_nil right)
          simp only [conjuncts, length_append] at h
          omega
  | _ => rfl

theorem exists_of_mem_forall₂ {α β : Type} {R : α → β → Prop} {l : List α} {l' : List β}
    (h : List.Forall₂ R l l') : ∀ a ∈ l, ∃ b ∈ l', R a b := by
  induction h with
  | nil => simp
  | @cons a b l l' hab _ ih =>
      intro x hx
      rcases mem_cons.mp hx with rfl | hmem
      · exact ⟨b, mem_cons_self, hab⟩
      · obtain ⟨y, hy, hxy⟩ := ih x hmem
        exact ⟨y, mem_cons_of_mem b hy, hxy⟩

theorem isPlain_of_readsKey {expr : Expr} (h : readsKey names expr = true) :
    isPlainKeyCondition keySchema names expr = true := by
  cases expr with
  | logical op left right => cases op <;> simp [readsKey] at h
  | _ => exact h

theorem EveryConjunctRead.isPlain {expr : Expr}
    {extracted : AttributeValue × Option SortKeyCondition}
    (h : EveryConjunctRead keySchema names values expr extracted) :
    isPlainKeyCondition keySchema names expr = true := by
  obtain ⟨readings, hsays, hperm⟩ := h
  have hread : ∀ c ∈ conjuncts expr, readsKey names c = true := by
    intro c hc
    obtain ⟨r, -, hr⟩ := exists_of_mem_forall₂ hsays c hc
    exact hr.readsKey
  have hlength : (conjuncts expr).length = (extractedReadings extracted).length :=
    hsays.length_eq.trans hperm.length_eq
  by_cases hone : (conjuncts expr).length ≤ 1
  · apply isPlain_of_readsKey
    apply hread
    rw [conjuncts_of_length_le_one hone]
    exact mem_singleton_self expr
  · -- a second conjunct needs a second reading, and that is a sort condition
    obtain ⟨value, sortCondition⟩ := extracted
    cases sortCondition with
    | none => simp [extractedReadings] at hlength; omega
    | some condition =>
        have hsort : keySchema.sortKey.isSome = true := by
          obtain ⟨c, -, hc⟩ := exists_of_mem_forall₂ hsays.flip (.sort condition)
            (hperm.mem_iff.mpr (by simp [extractedReadings]))
          exact Says.sortKey_isSome hc
        cases expr with
        | logical op left right =>
            cases op with
            | or => simp [conjuncts] at hone
            | and =>
                simp only [conjuncts, length_append, extractedReadings, Option.map_some,
                  Option.toList_some, length_cons, length_nil] at hlength
                have hl := length_pos_iff.mpr (conjuncts_ne_nil left)
                have hr := length_pos_iff.mpr (conjuncts_ne_nil right)
                have hleft := @conjuncts_of_length_le_one left (by omega)
                have hright := @conjuncts_of_length_le_one right (by omega)
                simp only [conjuncts, hleft, hright, cons_append, nil_append,
                  mem_cons, not_mem_nil, or_false, forall_eq_or_imp, forall_eq] at hread
                simp [isPlainKeyCondition, hsort, hread]
        | _ => simp [conjuncts] at hone

/-! ### Reading a plain condition -/

theorem namesAttribute_of_isKeyPath {key : String} {operand : Operand}
    (hpath : isKeyPath names key operand = true) (hnamed : isNamed names operand = true) :
    NamesAttribute names key operand := by
  unfold isNamed at hnamed
  split at hnamed
  · next name =>
      refine ⟨name, rfl, ?_⟩
      simp only [isKeyPath, resolveNameRef, beq_iff_eq] at hpath
      unfold resolveName at hnamed ⊢
      by_cases href : isReference name = true
      · rw [if_pos href] at hpath hnamed ⊢
        obtain ⟨resolved, hresolved⟩ := Option.isSome_iff_exists.mp hnamed
        rw [hresolved, Option.getD_some] at hpath
        rw [hresolved, hpath]
      · rw [if_neg href] at hpath ⊢
        rw [hpath]
  · exact absurd hnamed Bool.false_ne_true

theorem resolveOperandValue_eq_ok {operand : Operand} {value : AttributeValue} :
    resolveOperandValue values operand = .ok value ↔ StandsFor values value operand := by
  cases operand with
  | value name =>
      simp only [resolveOperandValue, StandsFor, Operand.value.injEq, exists_eq_left']
      cases values.lookup (":" ++ name) <;> simp
  | _ => simp [resolveOperandValue, StandsFor]

theorem isNamed_standsFor {operand : Operand} {value : AttributeValue}
    (h : StandsFor values value operand) : isNamed names operand = false := by
  obtain ⟨name, rfl, -⟩ := h
  rfl

theorem says_partition {left right : Operand} {extracted : AttributeValue × Option SortKeyCondition}
    (hread : readsKey names (.compare left .eq right) = true)
    (h : extractKeyCondition keySchema names values (.compare left .eq right) = .ok extracted) :
    extracted.2 = none ∧
      Says keySchema names values (.compare left .eq right) (.partition extracted.1) := by
  obtain ⟨value, hvalue, h⟩ := bind_eq_ok.mp h
  obtain ⟨_, -, h⟩ := bind_eq_ok.mp h
  cases h
  refine ⟨rfl, ?_⟩
  rw [readsKey, Bool.or_eq_true] at hread
  unfold resolveKeyValue at hvalue
  split_ifs at hvalue with hleft hright
  · have hstands := resolveOperandValue_eq_ok.mp hvalue
    rw [isNamed_standsFor hstands, or_iff_left Bool.false_ne_true] at hread
    exact .partition (namesAttribute_of_isKeyPath hleft hread) hstands
  · have hstands := resolveOperandValue_eq_ok.mp hvalue
    rw [isNamed_standsFor hstands, or_iff_right Bool.false_ne_true] at hread
    exact .partitionReversed hstands (namesAttribute_of_isKeyPath hright hread)

/-- What validation lets pass as the first operand of `BETWEEN` and `begins_with` is, if it is a
path at all, the sort key. -/
theorem namesAttribute_of_counted {sk : KeyAttribute} (hsk : keySchema.sortKey = some sk)
    {operand : Operand} (hnamed : isNamed names operand = true) {counts counts' : ℕ × ℕ}
    (h : countKceSortOperand keySchema names counts operand = .ok counts') :
    NamesAttribute names sk.name operand := by
  apply namesAttribute_of_isKeyPath _ hnamed
  unfold isNamed at hnamed
  split at hnamed
  · next name =>
      simp only [isKeyPath, beq_iff_eq]
      simp only [countKceSortOperand, resolveKcePathName, length_singleton, Nat.lt_irrefl,
        gt_iff_lt, if_false, head?_cons] at h
      obtain ⟨_, hkey, h⟩ := bind_eq_ok.mp h
      split_ifs at h with hpk
      simp only [validateKcePathIsKey, Bool.false_eq_true, if_false] at hkey
      split_ifs at hkey with hnot
      simp only [isKeyAttribute, hsk, Bool.not_eq_true', Bool.or_eq_false_iff, beq_eq_false_iff_ne,
        not_and, ne_eq, not_not] at hnot
      exact hnot hpk
  · exact absurd hnamed Bool.false_ne_true

theorem standsForKey_of_toSortable {sk : KeyAttribute} {operand : Operand}
    {value : AttributeValue} (hvalue : StandsFor values value operand)
    {key : SortableAttributeValue} (hkey : toSortable sk.name value = .ok key)
    (hchecked : validateSortValueType sk key = .ok ()) : StandsForKey values sk key operand := by
  refine ⟨value, hvalue, ?_, hchecked⟩
  unfold toSortable at hkey
  cases hfrom : fromAttributeValue sk.name value <;>
    rw [hfrom] at hkey <;> cases hkey
  rfl

theorem validateSortValueType_of_compare {sk : KeyAttribute} {op : CompareOp}
    {key : SortableAttributeValue} {condition : SortKeyCondition}
    (hcondition : compareCondition op key = .ok condition)
    (h : validateSortConditionType condition sk = .ok ()) :
    validateSortValueType sk key = .ok () := by
  cases op <;> simp only [compareCondition, Except.ok.injEq, reduceCtorEq] at hcondition <;>
    subst hcondition <;> exact h

theorem says_sort {sk : KeyAttribute} (hsk : keySchema.sortKey = some sk) {expr : Expr}
    (hread : readsKey names expr = true) {counts counts' : ℕ × ℕ}
    (hcounts : collectKceKeyRefs keySchema names expr counts = .ok counts')
    {sortCondition : Option SortKeyCondition}
    (h : extractCheckedSortCondition keySchema names values expr = .ok sortCondition) :
    ∃ condition, sortCondition = some condition ∧
      Says keySchema names values expr (.sort condition) := by
  obtain ⟨found, hfound, h⟩ := bind_eq_ok.mp h
  obtain ⟨_, htype, h⟩ := bind_eq_ok.mp h
  cases h
  simp only [extractSortCondition, checkSortCondition, hsk] at hfound htype
  cases expr with
  | compare left op right =>
      obtain ⟨⟨value, effectiveOp⟩, hvalue, hfound⟩ := bind_eq_ok.mp hfound
      obtain ⟨key, hkey, hfound⟩ := bind_eq_ok.mp hfound
      obtain ⟨condition, hcondition, hfound⟩ := bind_eq_ok.mp hfound
      cases hfound
      refine ⟨condition, rfl, ?_⟩
      have hchecked := validateSortValueType_of_compare hcondition htype
      rw [readsKey, Bool.or_eq_true] at hread
      unfold resolveSortValueWithDirection at hvalue
      split_ifs at hvalue with hleft hright
      · obtain ⟨w, hw, hvalue⟩ := bind_eq_ok.mp hvalue
        cases hvalue
        have hstands := resolveOperandValue_eq_ok.mp hw
        rw [isNamed_standsFor hstands, or_iff_left Bool.false_ne_true] at hread
        exact .compare hsk (namesAttribute_of_isKeyPath hleft hread)
          (standsForKey_of_toSortable hstands hkey hchecked) hcondition
      · obtain ⟨w, hw, hvalue⟩ := bind_eq_ok.mp hvalue
        cases hvalue
        have hstands := resolveOperandValue_eq_ok.mp hw
        rw [isNamed_standsFor hstands, or_iff_right Bool.false_ne_true] at hread
        exact .compareReversed hsk (standsForKey_of_toSortable hstands hkey hchecked)
          (namesAttribute_of_isKeyPath hright hread) hcondition
  | between value low high =>
      obtain ⟨lo, hlo, hfound⟩ := bind_eq_ok.mp hfound
      obtain ⟨hi, hhi, hfound⟩ := bind_eq_ok.mp hfound
      obtain ⟨lowKey, hlowKey, hfound⟩ := bind_eq_ok.mp hfound
      obtain ⟨highKey, hhighKey, hfound⟩ := bind_eq_ok.mp hfound
      cases hfound
      obtain ⟨_, hlowType, hhighType⟩ := bind_eq_ok.mp htype
      exact ⟨_, rfl, .between hsk (namesAttribute_of_counted hsk hread hcounts)
        (standsForKey_of_toSortable (resolveOperandValue_eq_ok.mp hlo) hlowKey hlowType)
        (standsForKey_of_toSortable (resolveOperandValue_eq_ok.mp hhi) hhighKey hhighType)⟩
  | function name args =>
      unfold readsKey at hread
      split at hread
      · contradiction
      · contradiction
      · next heq =>
          cases heq
          obtain ⟨pre, hpre, hfound⟩ := bind_eq_ok.mp hfound
          obtain ⟨condition, hcondition, hfound⟩ := bind_eq_ok.mp hfound
          cases hfound
          exact ⟨condition, rfl, .beginsWith hsk (namesAttribute_of_counted hsk hread hcounts)
            (resolveOperandValue_eq_ok.mp hpre) hcondition⟩
      · exact absurd hread Bool.false_ne_true
  | _ => exact absurd hread Bool.false_ne_true

/-- Two conditions, the first on the partition: what the pair says is what they say. -/
theorem says_and {partition sort : Expr} (hpartition : readsKey names partition = true)
    (hsort : readsKey names sort = true) (hsome : keySchema.sortKey.isSome = true)
    {first : AttributeValue × Option SortKeyCondition}
    (hfirst : extractKeyCondition keySchema names values partition = .ok first)
    {counts counts' : ℕ × ℕ} (hcounts : collectKceKeyRefs keySchema names sort counts = .ok counts')
    {sortCondition : Option SortKeyCondition}
    (hsecond : extractCheckedSortCondition keySchema names values sort = .ok sortCondition) :
    Says keySchema names values partition (.partition first.1) ∧
      ∃ condition, sortCondition = some condition ∧
        Says keySchema names values sort (.sort condition) := by
  obtain ⟨sk, hsk⟩ := Option.isSome_iff_exists.mp hsome
  refine ⟨?_, says_sort hsk hsort hcounts hsecond⟩
  unfold extractKeyCondition at hfirst
  split at hfirst
  · exact (says_partition hpartition hfirst).2
  · exact absurd hpartition Bool.false_ne_true
  · cases hfirst

theorem conjuncts_of_readsKey {expr : Expr} (h : readsKey names expr = true) :
    conjuncts expr = [expr] := by
  cases expr with
  | logical op left right => cases op <;> simp [readsKey] at h
  | _ => rfl

theorem everyConjunctRead_of_isPlain {expr : Expr}
    {extracted : AttributeValue × Option SortKeyCondition}
    (hvalid : validateKeyConditionExpr keySchema names expr = .ok ())
    (hextract : extractKeyCondition keySchema names values expr = .ok extracted)
    (hplain : isPlainKeyCondition keySchema names expr = true) :
    EveryConjunctRead keySchema names values expr extracted := by
  obtain ⟨counts, hcounts, -⟩ := bind_eq_ok.mp hvalid
  unfold extractKeyCondition at hextract
  split at hextract
  · next left right =>
      obtain ⟨hnone, hsays⟩ := says_partition hplain hextract
      refine ⟨[.partition extracted.1], .cons hsays .nil, ?_⟩
      simp [extractedReadings, hnone]
  · next left right =>
      simp only [isPlainKeyCondition, Bool.and_eq_true] at hplain
      obtain ⟨⟨hsome, hleft⟩, hright⟩ := hplain
      obtain ⟨_, hleftCounts, hrightCounts⟩ := bind_eq_ok.mp hcounts
      rw [EveryConjunctRead, conjuncts, conjuncts_of_readsKey hleft, conjuncts_of_readsKey hright]
      split at hextract
      · next first hfirst =>
          obtain ⟨sortCondition, hsecond, hextract⟩ := bind_eq_ok.mp hextract
          cases hextract
          obtain ⟨hpartition, condition, rfl, hsort⟩ :=
            says_and hleft hright hsome hfirst hrightCounts hsecond
          exact ⟨_, .cons hpartition (.cons hsort .nil), List.Perm.refl _⟩
      · split at hextract
        · next first hfirst =>
            obtain ⟨sortCondition, hsecond, hextract⟩ := bind_eq_ok.mp hextract
            cases hextract
            obtain ⟨hpartition, condition, rfl, hsort⟩ :=
              says_and hright hleft hsome hfirst hleftCounts hsecond
            exact ⟨_, .cons hsort (.cons hpartition .nil), List.Perm.swap _ _ _⟩
        · cases hextract
  · cases hextract

/-- For an expression that passes both walks, the pair matches the items the expression is true
of and every conjunct is read, exactly when the expression is one condition on a key or two joined
by `AND`, each with a path that resolves where it has the key. -/
theorem extractKeyCondition_means_iff {F : Type} [F64 F]
    (hpk : StringOrBinary keySchema.partitionKey)
    (hsks : ∀ sk ∈ keySchema.sortKey, StringOrBinary sk) {expr : Expr}
    {extracted : AttributeValue × Option SortKeyCondition}
    (hvalid : validateKeyConditionExpr keySchema names expr = .ok ())
    (hextract : extractKeyCondition keySchema names values expr = .ok extracted) :
    ((∀ item key, extractPrimaryKey keySchema item = .ok key →
        (MatchesExtracted extracted key ↔
          evaluate ⟨item, names, values⟩ F expr = .ok true)) ∧
      EveryConjunctRead keySchema names values expr extracted) ↔
    isPlainKeyCondition keySchema names expr = true := by
  constructor
  · rintro ⟨-, hread⟩
    exact hread.isPlain
  · intro hplain
    have hread := everyConjunctRead_of_isPlain hvalid hextract hplain
    exact ⟨fun item key hkey => hread.evaluate_iff hpk hsks hkey, hread⟩

end Reading

/-- `p = :p AND :s < s` on a table with two string keys. -/
theorem extractKeyCondition_means_iff_reversed :
    (∀ item key, extractPrimaryKey ⟨⟨"p", .s⟩, some ⟨"s", .s⟩⟩ item = .ok key →
      (MatchesExtracted (.s "x", some (.gt (.s "a"))) key ↔
        evaluate ⟨item, [], [(":p", .s "x"), (":s", .s "a")]⟩ ℤ
          (.logical .and (.compare (.path ⟨[.attribute "p"]⟩) .eq (.value "p"))
            (.compare (.value "s") .lt (.path ⟨[.attribute "s"]⟩))) = .ok true)) ∧
    EveryConjunctRead ⟨⟨"p", .s⟩, some ⟨"s", .s⟩⟩ [] [(":p", .s "x"), (":s", .s "a")]
      (.logical .and (.compare (.path ⟨[.attribute "p"]⟩) .eq (.value "p"))
        (.compare (.value "s") .lt (.path ⟨[.attribute "s"]⟩))) (.s "x", some (.gt (.s "a"))) :=
  (extractKeyCondition_means_iff (.inl rfl) (fun _ h => .inl (by cases h; rfl)) (by decide)
    (by decide)).mpr (by decide)

/-- With a constant in place of the sort key `BETWEEN` is taken for a condition on the sort key:
the item at `zz` is one the expression is true of, and is not returned. -/
theorem extractKeyCondition_misreads_between :
    ¬ ∀ (keySchema : KeySchema) (names : List (String × String))
        (values : List (String × AttributeValue)) (text : String) (expr : Expr)
        (extracted : AttributeValue × Option SortKeyCondition),
      StringOrBinary keySchema.partitionKey → (∀ sk ∈ keySchema.sortKey, StringOrBinary sk) →
      parseCondition text = .ok expr → validateKeyConditionExpr keySchema names expr = .ok () →
      extractKeyCondition keySchema names values expr = .ok extracted →
      ∀ item key, extractPrimaryKey keySchema item = .ok key →
        (MatchesExtracted extracted key ↔
          evaluate ⟨item, names, values⟩ ℤ expr = .ok true) := by
  intro h
  have hparse : parseCondition "p = :p AND :v BETWEEN :a AND :z" =
      .ok (.logical .and (.compare (.path ⟨[.attribute "p"]⟩) .eq (.value "p"))
        (.between (.value "v") (.value "a") (.value "z"))) := by decide +kernel
  have hiff := h ⟨⟨"p", .s⟩, some ⟨"s", .s⟩⟩ []
    [(":a", .s "a"), (":p", .s "x"), (":v", .s "m"), (":z", .s "z")] _ _
    (.s "x", some (.between (.s "a") (.s "z"))) (.inl rfl)
      (fun _ h => .inl (by cases h; rfl)) hparse
    (by decide) (by decide) [("p", .s "x"), ("s", .s "zz")] ⟨.s "x", some (.s "zz")⟩ (by decide)
  have hmatches := (hiff.mpr (by decide)).2 _ rfl
  revert hmatches
  decide

end Rustack.DynamoDB
