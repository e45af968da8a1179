import Rustack.Lib.Utf8

/-!
# HTTP headers

A header map is listed as pairs of a name and a value.  Names are kept in lower case; the order
of different names means nothing, the order of the values of one name does.  Values are bytes,
and only some of them are text.
-/

namespace Rustack.Http

open List

/-! ## Names and values -/

/-- The characters of a header name, in lower case. -/
def isTokenChar (c : Char) : Bool :=
  c.isLower || c.isDigit || "!#$%&'*+-.^_|~".toList.contains c || c.toNat == 96

structure HeaderName where
  text : String
  valid : (text.toList.all isTokenChar && !text.isEmpty) = true
  deriving DecidableEq

def HeaderName.fromBytes (name : String) : Option HeaderName :=
  let lower := String.ofList (name.toList.map Char.toLower)
  if h : (lower.toList.all isTokenChar && !lower.isEmpty) = true then some ⟨lower, h⟩ else none

open HeaderName (fromBytes)

/-- The bytes that may stand in a header value: no control characters, except the tab. -/
def isValueByte (b : UInt8) : Bool :=
  b == 9 || (32 ≤ b && b != 127)

/-- The bytes of a header value that is text: visible ASCII, the space and the tab. -/
def isTextByte (b : UInt8) : Bool :=
  b == 9 || (32 ≤ b && b < 127)

structure HeaderValue where
  bytes : List UInt8
  valid : bytes.all isValueByte = true
  deriving DecidableEq

namespace HeaderValue

def fromStr (value : String) : Option HeaderValue :=
  let bytes := Utf8.encode value.toList
  if h : bytes.all isValueByte = true then some ⟨bytes, h⟩ else none

def isText (v : HeaderValue) : Bool :=
  v.bytes.all isTextByte

def toStr (v : HeaderValue) : Option String :=
  if v.isText then some (String.ofList (v.bytes.map fun b => Char.ofNat b.toNat)) else none

/-- The characters of a value that is text. -/
def toText (v : HeaderValue) : Option (List Char) :=
  if v.isText then some (v.bytes.map fun b => Char.ofNat b.toNat) else none

end HeaderValue

/-! ## Header maps -/

abbrev HeaderMap := List (HeaderName × HeaderValue)

namespace HeaderMap

/-- The values of one name, in order. -/
def values (headers : HeaderMap) (name : String) : List HeaderValue :=
  (headers.filter fun h => h.1.text == name).map Prod.snd

def get (headers : HeaderMap) (name : String) : Option HeaderValue :=
  (values headers name).head?

def containsKey (headers : HeaderMap) (name : String) : Bool :=
  headers.any fun h => h.1.text == name

def remove (headers : HeaderMap) (name : String) : HeaderMap :=
  headers.filter fun h => h.1.text != name

/-- One value for a name, in place of those it had. -/
def insert (headers : HeaderMap) (name : HeaderName) (value : HeaderValue) : HeaderMap :=
  remove headers name.text ++ [(name, value)]

/-- One more value for a name. -/
def append (headers : HeaderMap) (name : HeaderName) (value : HeaderValue) : HeaderMap :=
  headers ++ [(name, value)]

/-- Insert a value given as text, unless it is not one or the name is none. -/
def insertText (headers : HeaderMap) (name value : String) : HeaderMap :=
  match HeaderName.fromBytes name, HeaderValue.fromStr value with
  | some name, some value => insert headers name value
  | _, _ => headers

end HeaderMap

/-! ## Reading headers back -/

theorem toLower_of_isTokenChar {c : Char} (h : isTokenChar c = true) : c.toLower = c := by
  have hupper : ¬(c.val ≥ 'A'.val ∧ c.val ≤ 'Z'.val) := by
    rintro ⟨hA, hZ⟩
    have h65 : 65 ≤ c.toNat := hA
    have h90 : c.toNat ≤ 90 := hZ
    simp only [isTokenChar, Bool.or_eq_true, beq_iff_eq, contains_iff_mem] at h
    rcases h with ((hlower | hdigit) | hmem) | h96
    · have h97 : 97 ≤ c.toNat := of_decide_eq_true (Bool.and_eq_true_iff.mp hlower).1
      omega
    · have h57 : c.toNat ≤ 57 := of_decide_eq_true (Bool.and_eq_true_iff.mp hdigit).2
      omega
    · have hall : "!#$%&'*+-.^_|~".toList.all (fun d => d.toNat < 65 ∨ 90 < d.toNat) = true := by
        decide
      have hc := of_decide_eq_true (all_eq_true.mp hall c hmem)
      omega
    · omega
  exact dif_neg hupper

theorem HeaderName.fromBytes_text {name : String} {n : HeaderName}
    (h : fromBytes name = some n) :
    n.text = String.ofList (name.toList.map Char.toLower) := by
  simp only [fromBytes, Option.dite_none_right_eq_some] at h
  obtain ⟨_, h⟩ := h
  rw [← Option.some.inj h]

/-- A name is looked up without regard to case. -/
theorem HeaderName.fromBytes_congr {name name' : String}
    (h : name.toList.map Char.toLower = name'.toList.map Char.toLower) :
    fromBytes name = fromBytes name' := by
  simp only [fromBytes, h]

theorem HeaderName.fromBytes_self (n : HeaderName) : fromBytes n.text = some n := by
  have hlower : n.text.toList.map Char.toLower = n.text.toList := by
    have hall := n.valid
    simp only [Bool.and_eq_true, all_eq_true] at hall
    rw [map_congr_left fun c hc => toLower_of_isTokenChar (hall.1 c hc), map_id']
  have htext : String.ofList (n.text.toList.map Char.toLower) = n.text := by
    rw [hlower, String.ofList_toList]
  simp only [fromBytes, htext, n.valid, dite_true]

theorem isTextByte_lt {b : UInt8} (h : isTextByte b = true) : b < 128 := by
  simp only [isTextByte, Bool.or_eq_true, beq_iff_eq, Bool.and_eq_true, decide_eq_true_eq] at h
  rcases h with rfl | ⟨-, h⟩
  · decide
  · exact UInt8.lt_trans h (by decide)

/-- A value that is text is read back as it was. -/
theorem HeaderValue.fromStr_toStr {v : HeaderValue} {text : String} (h : v.toStr = some text) :
    HeaderValue.fromStr text = some v := by
  simp only [HeaderValue.toStr, Option.ite_none_right_eq_some, HeaderValue.isText,
    all_eq_true, Option.some.injEq] at h
  obtain ⟨htext, rfl⟩ := h
  have hbytes := Utf8.encode_ascii fun b hb => isTextByte_lt (htext b hb)
  simp only [HeaderValue.fromStr, String.toList_ofList, hbytes, v.valid, dite_true]

theorem HeaderValue.toStr_of_isText {v : HeaderValue} (h : v.isText = true) :
    ∃ text, v.toStr = some text :=
  ⟨_, if_pos h⟩

namespace HeaderMap

@[simp] theorem values_nil (probe : String) : values [] probe = [] := rfl

theorem values_append (headers more : HeaderMap) (probe : String) :
    values (headers ++ more) probe = values headers probe ++ values more probe := by
  simp [values]

theorem values_singleton_of_ne {name : HeaderName} {value : HeaderValue} {probe : String}
    (h : probe ≠ name.text) : values [(name, value)] probe = [] := by
  simp [values, Ne.symm h]

theorem values_remove_of_ne (headers : HeaderMap) {name probe : String} (h : probe ≠ name) :
    values (remove headers name) probe = values headers probe := by
  unfold values remove
  rw [filter_filter]
  congr 1
  apply filter_congr
  intro e _
  cases he : e.1.text == probe with
  | false => rfl
  | true =>
    rw [beq_iff_eq] at he
    simp [he, h]

theorem values_remove_self (headers : HeaderMap) (name : String) :
    values (remove headers name) name = [] := by
  unfold values remove
  rw [filter_filter]
  simp

theorem values_insert_of_ne (headers : HeaderMap) {name : HeaderName} (value : HeaderValue)
    {probe : String} (h : probe ≠ name.text) :
    values (insert headers name value) probe = values headers probe := by
  unfold insert
  rw [values_append, values_remove_of_ne headers h, values_singleton_of_ne h, append_nil]

theorem values_insertText_of_ne (headers : HeaderMap) {name : String} (value : String)
    {probe : String} (h : probe ≠ String.ofList (name.toList.map Char.toLower)) :
    values (insertText headers name value) probe = values headers probe := by
  unfold insertText
  split
  · next n v hn hv =>
    apply values_insert_of_ne
    rwa [HeaderName.fromBytes_text hn]
  · rfl

end HeaderMap

end Rustack.Http
