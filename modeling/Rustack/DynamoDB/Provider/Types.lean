import Rustack.DynamoDB.Error
import Rustack.DynamoDB.Storage

/-!
# Tables, requests and the provider

The records the operations read and write.  A hash map is an association list
in the order the map is iterated in; where a request has one, the operations
work for every order.  Fields of a request that no operation reads, such as the
ones that ask for consumed capacity, are left out.
-/

namespace Rustack.DynamoDB

/-! ## Table definitions -/

inductive TableStatus where
  | creating | active | deleting | updating | archiving | archived
  | inaccessibleEncryptionCredentials
  deriving DecidableEq

inductive KeyType where
  | hash | range
  deriving DecidableEq

structure KeySchemaElement where
  attributeName : String
  keyType : KeyType
  deriving DecidableEq

structure AttributeDefinition where
  attributeName : String
  attributeType : ScalarAttributeType
  deriving DecidableEq

inductive BillingMode where
  | provisioned
  | payPerRequest
  | unknown (name : String)
  deriving DecidableEq

structure ProvisionedThroughput where
  readCapacityUnits : ℤ
  writeCapacityUnits : ℤ
  deriving DecidableEq

inductive ProjectionType where
  | all | keysOnly | include
  deriving DecidableEq

structure Projection where
  projectionType : Option ProjectionType
  nonKeyAttributes : List String
  deriving DecidableEq

structure GlobalSecondaryIndex where
  indexName : String
  keySchema : List KeySchemaElement
  projection : Projection
  provisionedThroughput : Option ProvisionedThroughput
  deriving DecidableEq

structure LocalSecondaryIndex where
  indexName : String
  keySchema : List KeySchemaElement
  projection : Projection
  deriving DecidableEq

inductive StreamViewType where
  | keysOnly | newImage | oldImage | newAndOldImages
  deriving DecidableEq

structure StreamSpecification where
  streamEnabled : Bool
  streamViewType : Option StreamViewType
  deriving DecidableEq

inductive SseType where
  | aes256 | kms
  deriving DecidableEq

structure SSESpecification where
  enabled : Option Bool
  sseType : Option SseType
  kmsMasterKeyId : Option String
  deriving DecidableEq

structure Tag where
  key : String
  value : String
  deriving DecidableEq

structure TimeToLiveSpecification where
  attributeName : String
  enabled : Bool
  deriving DecidableEq

structure PointInTimeRecoverySpecification where
  pointInTimeRecoveryEnabled : Bool
  recoveryPeriodInDays : Option ℤ
  deriving DecidableEq

/-- What a table is apart from its items. -/
structure TableMeta where
  name : String
  status : TableStatus
  keySchemaElements : List KeySchemaElement
  keySchema : KeySchema
  attributeDefinitions : List AttributeDefinition
  billingMode : BillingMode
  provisionedThroughput : Option ProvisionedThroughput
  gsiDefinitions : List GlobalSecondaryIndex
  lsiDefinitions : List LocalSecondaryIndex
  streamSpecification : Option StreamSpecification
  sseSpecification : Option SSESpecification
  tags : List Tag
  ttl : Option TimeToLiveSpecification
  pointInTimeRecovery : PointInTimeRecoverySpecification
  arn : String
  tableId : String
  createdAt : ℕ
  deriving DecidableEq

structure DynamoDBTable extends TableMeta where
  storage : TableStorage

/-! ## Change events -/

inductive ChangeEventName where
  | insert | modify | remove
  deriving DecidableEq

structure ChangeEvent where
  tableName : String
  eventName : ChangeEventName
  keys : Item
  oldImage : Option Item
  newImage : Option Item
  sizeBytes : ℕ
  deriving DecidableEq

/-! ## Requests -/

/-- Its lists of capacities and metrics are always empty. -/
structure TransactWriteItemsOutput where
  deriving DecidableEq

/-! ## The provider -/

/-- A transaction that went through, kept for the idempotency window. -/
structure CompletedTransaction where
  fingerprint : String
  completedAt : ℕ
  output : TransactWriteItemsOutput
  deriving DecidableEq

/-- Tables and tokens by name, the events handed to the stream so far, and whether requests are
still admitted. -/
structure RustackDynamoDB where
  tables : AList fun _ : String => DynamoDBTable
  tokens : AList fun _ : String => CompletedTransaction
  events : List ChangeEvent
  closed : Bool

namespace RustackDynamoDB

def new : RustackDynamoDB := { tables := ∅, tokens := ∅, events := [], closed := false }

def requireTable (p : RustackDynamoDB) (name : String) : Except DynamoDBError DynamoDBTable :=
  match p.tables.lookup name with
  | some table => .ok table
  | none => .error (.resourceNotFound
      ("Requested resource not found: Table: " ++ name ++ " not found"))

def unavailable : DynamoDBError :=
  .withMessage .requestLimitExceeded "DynamoDB is full or quiescing"

end RustackDynamoDB

end Rustack.DynamoDB
