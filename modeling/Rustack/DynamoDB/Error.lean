import Rustack.DynamoDB.SortKey
import Rustack.DynamoDB.Expression.Lexer

/-!
# Errors of the service

The error a request is answered with.  The HTTP status and the `__type` string
are functions of the code and are left out.
-/

namespace Rustack.DynamoDB

inductive DynamoDBErrorCode where
  | resourceInUseException
  | resourceNotFoundException
  | conditionalCheckFailedException
  | transactionCanceledException
  | idempotentParameterMismatchException
  | requestLimitExceeded
  | validationException
  | internalServerError
  deriving DecidableEq

/-- Why one action of a transaction was turned down, or `None` as the code of one that was not. -/
structure CancellationReason where
  code : Option String
  message : Option String
  item : Option Item
  deriving DecidableEq

structure DynamoDBError where
  code : DynamoDBErrorCode
  message : String
  item : Option Item
  cancellationReasons : List CancellationReason
  deriving DecidableEq

namespace DynamoDBError

def withMessage (code : DynamoDBErrorCode) (message : String) : DynamoDBError :=
  { code, message, item := none, cancellationReasons := [] }

def resourceNotFound (message : String) : DynamoDBError :=
  withMessage .resourceNotFoundException message

def validation (message : String) : DynamoDBError :=
  withMessage .validationException message

end DynamoDBError

def storageErrorToDynamodb (e : StorageError) : DynamoDBError :=
  .validation e.message

end Rustack.DynamoDB
