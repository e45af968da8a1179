import Rustack.Kinesis.Shard
import Rustack.Lib.Base64
import Rustack.Lib.Fields
import Rustack.Lib.Utf8

/-!
# Iterator tokens

A token is the text of a stream, a shard, a position and a nonce with colons between them.  It
is read back as it was written where neither the stream nor the shard has a colon in its name.
-/

namespace Rustack.Kinesis

/-- The values of a `usize`. -/
def USIZE : ℕ := 2 ^ 64

structure ShardIteratorToken where
  streamName : String
  shardId : String
  position : ℕ
  nonce : String
deriving DecidableEq

inductive TokenError where
  | base64
  | utf8
  | parts (found : ℕ)
  | position (error : Decimal.ParseIntError)
deriving DecidableEq

namespace ShardIteratorToken

def raw (token : ShardIteratorToken) : List Char :=
  token.streamName.toList ++ ':' :: (token.shardId.toList ++ ':' ::
    ((Decimal.padded 0 token.position).toList ++ ':' :: token.nonce.toList))

def encode (token : ShardIteratorToken) : String :=
  String.ofList (Base64.encode (Utf8.encode token.raw))

def ofParts : List (List Char) → Except TokenError ShardIteratorToken
  | [streamName, shardId, position, nonce] =>
    match Decimal.parse USIZE (String.ofList position) with
    | .error error => .error (.position error)
    | .ok position =>
      .ok
        { streamName := String.ofList streamName
          shardId := String.ofList shardId
          position
          nonce := String.ofList nonce }
  | parts => .error (.parts parts.length)

def decode (encoded : String) : Except TokenError ShardIteratorToken :=
  match Base64.decode encoded.toList with
  | none => .error .base64
  | some bytes =>
    match Utf8.decode? bytes with
    | none => .error .utf8
    | some text => ofParts (Text.splitN ':' 4 text)

theorem colon_not_mem_padded (width n : ℕ) : ':' ∉ (Decimal.padded width n).toList := fun h =>
  absurd (Decimal.isDigit_of_mem_padded h) (by decide)

/-- A token is read back where no colon stands in the names. -/
theorem decode_encode {token : ShardIteratorToken} (hstream : ':' ∉ token.streamName.toList)
    (hshard : ':' ∉ token.shardId.toList) (hposition : token.position < USIZE) :
    decode token.encode = .ok token := by
  have hutf8 : Utf8.decode? (Utf8.encode token.raw) = some token.raw :=
    Utf8.decode?_eq_some_iff.mpr rfl
  have hparts : Text.splitN ':' 4 token.raw =
      [token.streamName.toList, token.shardId.toList, (Decimal.padded 0 token.position).toList,
        token.nonce.toList] := by
    unfold raw
    rw [Text.splitN_field hstream, Text.splitN_field hshard,
      Text.splitN_field (colon_not_mem_padded 0 token.position)]
    rfl
  unfold decode encode
  rw [String.toList_ofList, Base64.decode_encode]
  simp only [hutf8, hparts, ofParts, String.ofList_toList, Decimal.parse_padded 0 hposition]

end ShardIteratorToken

end Rustack.Kinesis
