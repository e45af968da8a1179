import Mathlib.Tactic.Common

/-!
# Errors of the queue service

A code and a message.  The error type string and the HTTP status are functions of
the code and are left out.
-/

namespace Rustack.SQS

inductive SqsErrorCode where
  | nonExistentQueue
  | queueAlreadyExists
  | invalidParameterValue
  | missingParameter
  | invalidAttributeName
  | messageNotInflight
  | purgeQueueInProgress
  | internalError
  deriving DecidableEq

structure SqsError where
  code : SqsErrorCode
  message : String
  deriving DecidableEq

namespace SqsError

def nonExistentQueue (message : String) : SqsError :=
  { code := .nonExistentQueue, message }

def queueAlreadyExists (message : String) : SqsError :=
  { code := .queueAlreadyExists, message }

def invalidParameterValue (message : String) : SqsError :=
  { code := .invalidParameterValue, message }

def missingParameter (message : String) : SqsError :=
  { code := .missingParameter, message }

def invalidAttributeName (message : String) : SqsError :=
  { code := .invalidAttributeName, message }

def messageNotInflight : SqsError :=
  { code := .messageNotInflight
    message :=
      "Message does not exist or is not available for visibility timeout change." }

def purgeQueueInProgress : SqsError :=
  { code := .purgeQueueInProgress
    message := "Only one PurgeQueue operation on a queue is allowed every 60 seconds." }

def internalError (message : String) : SqsError :=
  { code := .internalError, message }

end SqsError

end Rustack.SQS
