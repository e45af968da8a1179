import Rustack.Lib.Outcome
import Rustack.Lib.Utf8
import Rustack.DynamoDB.Expression.Lexer
import Rustack.S3.Error

/-!
# Browser forms

The body of a form upload is cut wherever the delimiter occurs.  Each part has a header with the
name of its field, and the part with a file name, or with the field name `file`, is the file.
Fields are kept with the one read last in front.
-/

namespace Rustack.S3.FormData

open DynamoDB (toAsciiLowercase trim)

structure MultipartForm where
  fields : List (String × String)
  fileData : List UInt8
  fileContentType : Option String
  deriving DecidableEq

def crlf : List UInt8 := [13, 10]

def lineEnd : List Char := ['\r', '\n']

/-! ## Parts -/

/-- The position of a needle in a haystack. -/
def findBytes (haystack needle : List UInt8) : Option ℕ :=
  if needle.isEmpty || haystack.length < needle.length then none
  else Needle.position needle haystack

def skipCrlf (data : List UInt8) : List UInt8 :=
  if crlf <+: data then data.drop crlf.length else data

def stripTrailingCrlf (data : List UInt8) : List UInt8 :=
  if crlf <:+ data then data.take (data.length - crlf.length) else data

/-- The end is looked for behind a delimiter, where it starts with another delimiter. -/
def atEnd (endDelimiter remaining : List UInt8) : Bool :=
  decide (endDelimiter <+: remaining ∨
    crlf <+: remaining ∧ endDelimiter <+: remaining.drop crlf.length)

/-- The loop over the parts; each turn takes a delimiter off. -/
def partsLoop (delimiter endDelimiter : List UInt8) : ℕ → List UInt8 → List (List UInt8)
  | 0, _ => []
  | fuel + 1, remaining =>
    if atEnd endDelimiter remaining then []
    else
      match findBytes remaining delimiter with
      | some pos =>
        stripTrailingCrlf (remaining.take pos) ::
          partsLoop delimiter endDelimiter fuel
            (skipCrlf (remaining.drop (pos + delimiter.length)))
      | none =>
        if (stripTrailingCrlf remaining).isEmpty then [] else [stripTrailingCrlf remaining]

/-- The parts behind the first delimiter. -/
def partsFrom (delimiter endDelimiter remaining : List UInt8) : List (List UInt8) :=
  partsLoop delimiter endDelimiter (remaining.length + 1) remaining

def splitMultipartParts (body delimiter endDelimiter : List UInt8) : List (List UInt8) :=
  match findBytes body delimiter with
  | some pos =>
    partsFrom delimiter endDelimiter (skipCrlf (body.drop (pos + delimiter.length)))
  | none => []

def splitHeadersBody (part : List UInt8) : Option (List UInt8 × List UInt8) :=
  (findBytes part (crlf ++ crlf)).map fun pos => (part.take pos, part.drop (pos + 4))

/-! ## Headers -/

structure ContentDisposition where
  name : Option String
  filename : Option String
  deriving DecidableEq

def lowercase (line : List Char) : List Char := line.map toAsciiLowercase

/-- A quoted value; there is none without the closing quote. -/
def quotedParam (headerLine paramName : List Char) : Option (List Char) := do
  let pattern := paramName ++ ['=', '"']
  let pos ← Needle.position pattern (lowercase headerLine)
  let rest := headerLine.drop (pos + pattern.length)
  if '"' ∈ rest then some (rest.takeWhile (· ≠ '"')) else none

/-- A value up to a semicolon, unless there is nothing but blanks. -/
def unquotedParam (headerLine paramName : List Char) : Option (List Char) := do
  let pattern := paramName ++ ['=']
  let pos ← Needle.position pattern (lowercase headerLine)
  let val := trim ((headerLine.drop (pos + pattern.length)).takeWhile (· ≠ ';'))
  if val.isEmpty then none else some val

def extractQuotedParam (headerLine paramName : List Char) : Option (List Char) :=
  (quotedParam headerLine paramName).or (unquotedParam headerLine paramName)

def headerLines (headers : List UInt8) : List (List Char) :=
  Needle.pieces lineEnd (Utf8.decodeLossy headers)

/-- One line; what is found replaces what has been found before. -/
def readDispositionLine (found : ContentDisposition) (line : List Char) : ContentDisposition :=
  if "content-disposition:".toList <+: lowercase line then
    { name := ((extractQuotedParam line "name".toList).map String.ofList).or found.name
      filename :=
        ((extractQuotedParam line "filename".toList).map String.ofList).or found.filename }
  else found

def parseContentDisposition (headers : List UInt8) : ContentDisposition :=
  (headerLines headers).foldl readDispositionLine ⟨none, none⟩

/-- The content type of a line, in lower case. -/
def contentTypeOf (line : List Char) : Option String :=
  if "content-type:".toList <+: lowercase line then
    some (String.ofList (trim ((lowercase line).drop "content-type:".toList.length)))
  else none

def parsePartContentType (headers : List UInt8) : Option String :=
  (headerLines headers).findSome? contentTypeOf

/-! ## Forms -/

/-- What a part is read as. -/
inductive FormPart where
  | field (name value : String)
  | file (contentType : Option String) (data : List UInt8)
  deriving DecidableEq

def readPart (part : List UInt8) : Option FormPart := do
  let (headersSection, partBody) ← splitHeadersBody part
  let disposition := parseContentDisposition headersSection
  let fieldName ← disposition.name
  if fieldName = "file" ∨ disposition.filename.isSome then
    some (.file (parsePartContentType headersSection) partBody)
  else some (.field fieldName (String.ofList (Utf8.decodeLossy partBody)))

/-- The fields so far, and the file with its content type if there was one. -/
structure FormState where
  fields : List (String × String)
  file : Option (Option String × List UInt8)

def FormState.take (state : FormState) : FormPart → FormState
  | .field name value => { state with fields := (name, value) :: state.fields }
  | .file contentType data => { state with file := some (contentType, data) }

def readParts (parts : List (List UInt8)) : FormState :=
  (parts.filterMap readPart).foldl FormState.take ⟨[], none⟩

def delimiterOf (boundary : List Char) : List UInt8 := Utf8.encode ('-' :: '-' :: boundary)

def endDelimiterOf (boundary : List Char) : List UInt8 :=
  Utf8.encode ('-' :: '-' :: boundary ++ ['-', '-'])

def parseMultipart (body : List UInt8) (boundary : List Char) : Except S3Error MultipartForm :=
  let state := readParts
    (splitMultipartParts body (delimiterOf boundary) (endDelimiterOf boundary))
  match state.file with
  | some (contentType, data) => .ok ⟨state.fields, data, contentType⟩
  | none =>
    .error (S3Error.withMessage .invalidRequest "Missing file field in multipart form data")

end Rustack.S3.FormData
