import Rustack.Http.Headers

/-!
# The head of an HTTP request

A method is a token, and a request target has no blanks and no control characters.  A header is
looked up by a name in any case.
-/

namespace Rustack.Http

def isMethodChar (c : Char) : Bool := c.isUpper || isTokenChar c

@[ext] structure Method where
  text : List Char
  valid : (text.all isMethodChar && !text.isEmpty) = true
  deriving DecidableEq

/-- The characters of a request target; a fragment is not part of it. -/
def isTargetChar (c : Char) : Bool := 32 < c.toNat && c != '#'

structure Uri where
  path : List Char
  query : Option (List Char)
  path_valid : path.all (fun c => isTargetChar c && c != '?') = true
  query_valid : (query.getD []).all isTargetChar = true
  deriving DecidableEq

structure Parts where
  method : Method
  uri : Uri
  headers : HeaderMap

namespace HeaderMap

/-- The lines of a header, under a name in any case. -/
def getAll (headers : HeaderMap) (name : String) : List HeaderValue :=
  match HeaderName.fromBytes name with
  | some name => values headers name.text
  | none => []

/-- The first line of a header. -/
def first (headers : HeaderMap) (name : String) : Option HeaderValue :=
  (getAll headers name).head?

end HeaderMap

/-- The query of a request, which may be missing. -/
def Parts.query (parts : Parts) : List Char := parts.uri.query.getD []

theorem isTargetChar_newline : isTargetChar '\n' = false := by decide

theorem Parts.newline_not_mem_query (parts : Parts) : '\n' ∉ parts.query := by
  intro hmem
  have hall := List.all_eq_true.mp parts.uri.query_valid _ hmem
  rw [isTargetChar_newline] at hall
  cases hall

theorem Method.newline_not_mem (method : Method) : '\n' ∉ method.text := by
  intro hmem
  have hvalid := method.valid
  rw [Bool.and_eq_true] at hvalid
  have hchar := List.all_eq_true.mp hvalid.1 _ hmem
  have hno : isMethodChar '\n' = false := by decide
  rw [hno] at hchar
  cases hchar

end Rustack.Http
