import Redsuite.Operation

/-!
# JSON-RPC as the relays see it

A model of `core/src/netfault/rpc.rs`.
-/

namespace Redsuite

/-- A JSON number, as the JSON library keeps it apart. -/
inductive Number : Type where
  /-- a number without sign that fits 64 bits -/
  | unsigned (n : UInt64)
  | negative (n : Int)
  | float (text : String)

/-- `serde_json::Value`. -/
inductive Json : Type where
  /-- `null` -/
  | null
  /-- `true` or `false` -/
  | bool (b : Bool)
  | number (n : Number)
  | string (s : String)
  | array (elements : List Json)
  | object (members : List (String × Json))

namespace Json

def get? (self : Json) (key : String) : Option Json :=
  match self with
  | .object members => members.lookup key
  | _ => none

/-- `value[key]`: `null` where there is nothing. -/
def field (self : Json) (key : String) : Json := (self.get? key).getD .null

/-- `value[index]`. -/
def item (self : Json) (index : ℕ) : Json :=
  match self with
  | .array elements => elements[index]?.getD .null
  | _ => .null

def asStr : Json → Option String
  | .string s => some s
  | _ => none

def asU64 : Json → Option UInt64
  | .number (.unsigned n) => some n
  | _ => none

def asBool : Json → Option Bool
  | .bool b => some b
  | _ => none

def asArray : Json → Option (List Json)
  | .array elements => some elements
  | _ => none

end Json

/-- What is read of a transaction. -/
structure Transaction where
  signatures : List String
  accounts : List String

/-- What third-party code reads and prints. -/
structure Codec where
  /-- `json::from_str` -/
  parse : String → Option Json
  /-- `Value::to_string` -/
  render : Json → String
  /-- `decode_transaction` -/
  decodeTransaction : String → Option Transaction

namespace Codec

variable (codec : Codec)

/-- `json::from_str(..).unwrap_or_default()`. -/
def parseOrNull (text : String) : Json := (codec.parse text).getD .null

def id (value : Json) : Option String := (value.get? "id").map codec.render

end Codec

def subscription (value : Json) : Option UInt64 :=
  ((value.field "params").field "subscription").asU64

def strings (value : Json) : List String :=
  (value.asArray.getD []).filterMap Json.asStr

namespace Codec

variable (codec : Codec)

def request (transport : Transport) (value : Json) : Operation :=
  let method := (value.field "method").asStr.getD "?"
  let first := (value.field "params").item 0
  let operation : Operation := ⟨transport, .request, method, [], []⟩
  match method with
  | "getAccountInfo" | "accountSubscribe" | "programSubscribe" =>
    { operation with accounts := first.asStr.toList }
  | "signatureSubscribe" | "getTransaction" => { operation with signatures := first.asStr.toList }
  | "getMultipleAccounts" => { operation with accounts := strings first }
  | "getSignatureStatuses" => { operation with signatures := strings first }
  | "sendTransaction" =>
    match first.asStr.bind codec.decodeTransaction with
    | some tx => { operation with signatures := tx.signatures, accounts := tx.accounts }
    | none => operation
  | _ => operation

def notification (value : Json) (base : Option Operation) : Operation :=
  let operation := base.getD (codec.request .ws .null)
  let operation :=
    { operation with stage := .notification, method := (value.field "method").asStr.getD "?" }
  if operation.method = "programNotification" then
    { operation with
      accounts := operation.accounts ++
        (((((value.field "params").field "result").field "value").field "pubkey").asStr).toList }
  else operation

/-- The object `rpc::rejection` prints: it carries the id of the message it answers. -/
def rejectionObject (value : Json) (message : String) : Json :=
  .object
    [("jsonrpc", .string "2.0"),
      ("error", .object [("code", .number (.negative (-32000))), ("message", .string message)]),
      ("id", value.field "id")]

def rejection (value : Json) (message : String) : String :=
  codec.render (rejectionObject value message)

end Codec

theorem rejectionObject_id (v : Json) (msg : String) :
    (Codec.rejectionObject v msg).field "id" = v.field "id" := by
  rfl

end Redsuite
