import Mathlib.Tactic.Common

/-!
# Errors of the object service

What a request is answered with when it fails.  The HTTP status is a function
of the code and is left out, as is the resource that only some errors carry.
-/

namespace Rustack.S3

inductive S3ErrorCode where
  | accessDenied
  | badDigest
  | bucketAlreadyExists
  | bucketAlreadyOwnedByYou
  | bucketNotEmpty
  | entityTooSmall
  | internalError
  | invalidArgument
  | invalidBucketName
  | invalidDigest
  | invalidPart
  | invalidPartOrder
  | invalidRange
  | invalidRequest
  | keyTooLongError
  | malformedXML
  | methodNotAllowed
  | noSuchBucket
  | noSuchKey
  | noSuchUpload
  | noSuchVersion
  | objectLockConfigurationNotFoundError
  deriving DecidableEq

namespace S3ErrorCode

def asStr : S3ErrorCode → String
  | accessDenied => "AccessDenied"
  | badDigest => "BadDigest"
  | bucketAlreadyExists => "BucketAlreadyExists"
  | bucketAlreadyOwnedByYou => "BucketAlreadyOwnedByYou"
  | bucketNotEmpty => "BucketNotEmpty"
  | entityTooSmall => "EntityTooSmall"
  | internalError => "InternalError"
  | invalidArgument => "InvalidArgument"
  | invalidBucketName => "InvalidBucketName"
  | invalidDigest => "InvalidDigest"
  | invalidPart => "InvalidPart"
  | invalidPartOrder => "InvalidPartOrder"
  | invalidRange => "InvalidRange"
  | invalidRequest => "InvalidRequest"
  | keyTooLongError => "KeyTooLongError"
  | malformedXML => "MalformedXML"
  | methodNotAllowed => "MethodNotAllowed"
  | noSuchBucket => "NoSuchBucket"
  | noSuchKey => "NoSuchKey"
  | noSuchUpload => "NoSuchUpload"
  | noSuchVersion => "NoSuchVersion"
  | objectLockConfigurationNotFoundError => "ObjectLockConfigurationNotFoundError"

def defaultMessage : S3ErrorCode → String
  | accessDenied => "Access Denied"
  | badDigest => "The Content-MD5 you specified did not match what we received"
  | bucketAlreadyExists => "The requested bucket name is not available"
  | bucketAlreadyOwnedByYou => "The bucket is already owned by you"
  | bucketNotEmpty => "The bucket you tried to delete is not empty"
  | entityTooSmall => "Your proposed upload is smaller than the minimum allowed size"
  | internalError => "Internal server error"
  | invalidArgument => "Invalid Argument"
  | invalidBucketName => "The specified bucket is not valid"
  | invalidDigest => "The Content-MD5 you specified is not valid"
  | invalidPart => "One or more of the specified parts could not be found"
  | invalidPartOrder => "The list of parts was not in ascending order"
  | invalidRange => "The requested range cannot be satisfied"
  | invalidRequest => "Invalid Request"
  | keyTooLongError => "Your key is too long"
  | malformedXML => "The XML you provided was not well-formed"
  | methodNotAllowed => "The specified method is not allowed against this resource"
  | noSuchBucket => "The specified bucket does not exist"
  | noSuchKey => "The specified key does not exist"
  | noSuchUpload => "The specified multipart upload does not exist"
  | noSuchVersion => "The specified version does not exist"
  | objectLockConfigurationNotFoundError =>
    "Object Lock configuration does not exist for this bucket"

end S3ErrorCode

structure S3Error where
  code : S3ErrorCode
  message : String
  headers : List (String × String)
  deriving DecidableEq

namespace S3Error

def new (code : S3ErrorCode) : S3Error := { code, message := code.defaultMessage, headers := [] }

def withMessage (code : S3ErrorCode) (message : String) : S3Error :=
  { code, message, headers := [] }

def withHeader (error : S3Error) (name value : String) : S3Error :=
  { error with headers := error.headers ++ [(name, value)] }

def invalidArgument (message : String) : S3Error := withMessage .invalidArgument message

def internalError (message : String) : S3Error := withMessage .internalError message

def malformedXml : S3Error := new .malformedXML

end S3Error

inductive S3ServiceError where
  | noSuchBucket (bucket : String)
  | bucketAlreadyExists (bucket : String)
  | bucketAlreadyOwnedByYou (bucket : String)
  | bucketNotEmpty (bucket : String)
  | noSuchKey (key : String)
  | noSuchVersion (key versionId : String)
  | noSuchUpload (uploadId : String)
  | invalidPartOrder
  | invalidPart
  | invalidBucketName (name reason : String)
  | invalidArgument (message : String)
  | invalidTag (message : String)
  | accessDenied
  | invalidDigest
  | badDigest
  | invalidRange
  | keyTooLong
  | objectLockConfigurationNotFoundError
  | internal (message : String)
  deriving DecidableEq

namespace S3ServiceError

def errorCode : S3ServiceError → S3ErrorCode
  | noSuchBucket _ => .noSuchBucket
  | bucketAlreadyExists _ => .bucketAlreadyExists
  | bucketAlreadyOwnedByYou _ => .bucketAlreadyOwnedByYou
  | bucketNotEmpty _ => .bucketNotEmpty
  | noSuchKey _ => .noSuchKey
  | noSuchVersion _ _ => .noSuchVersion
  | noSuchUpload _ => .noSuchUpload
  | invalidPartOrder => .invalidPartOrder
  | invalidPart => .invalidPart
  | invalidBucketName _ _ => .invalidBucketName
  | invalidArgument _ => .invalidArgument
  | invalidTag _ => .invalidArgument
  | accessDenied => .accessDenied
  | invalidDigest => .invalidDigest
  | badDigest => .badDigest
  | invalidRange => .invalidRange
  | keyTooLong => .keyTooLongError
  | objectLockConfigurationNotFoundError => .objectLockConfigurationNotFoundError
  | internal _ => .internalError

/-- A validation error keeps its own message; the others get the standard one of their code. -/
def intoS3Error (err : S3ServiceError) : S3Error :=
  match err with
  | invalidArgument message => .withMessage err.errorCode message
  | invalidTag message => .withMessage err.errorCode message
  | invalidBucketName name reason =>
    .withMessage err.errorCode ("Invalid bucket name: " ++ name ++ ": " ++ reason)
  | internal message => .withMessage err.errorCode message
  | _ => .withMessage err.errorCode err.errorCode.defaultMessage

end S3ServiceError

end Rustack.S3
