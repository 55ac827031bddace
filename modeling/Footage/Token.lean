import Footage.Failure
import Footage.Forms
import Footage.Text.Base64Url
import Footage.Text.Blank

/-!
# Continuation tokens

A token names the key at which a page stopped, so that the next page can resume there. It is the
base64 form of a JSON object with the partition and the sort number, and is good for that partition
only. Blanks around it do not matter.
-/

namespace Footage.Token

/-- The token of a key. -/
def encode (k : Key) : String := String.ofList (Base64Url.encode (Text.bytes k.toValue.text))

/-- The key of a token for a listing of `partition`. -/
def decode (partition token : String) : Except TokenError Key :=
  match Base64Url.decode (Text.trim token.toList) with
  | none => .error .notBase64
  | some bytes =>
    match (Json.Value.ofSymbols? (Text.symbolsOfBytes bytes)).bind Key.ofValue? with
    | none => .error .malformed
    | some key =>
      if key.partition = partition then .ok key else .error (.foreign key.partition partition)

end Footage.Token
