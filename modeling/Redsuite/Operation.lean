import Redsuite.Lists
import Mathlib.Data.List.Basic

/-!
# Proxied operations and the selectors that name them

`netfault` sits between a rollup and its base chain.
-/

namespace Redsuite

/-- `Transport`. -/
inductive Transport : Type where
  | http
  | ws
  deriving DecidableEq

/-- The stages of a JSON-RPC exchange at which a message can be stopped. -/
inductive Stage : Type where
  | request
  | response
  | notification
  deriving DecidableEq

/-- `stage as usize`. -/
def Stage.index : Stage → ℕ
  | .request => 0
  | .response => 1
  | .notification => 2

/-- What the proxy knows about one message. -/
structure Operation where
  transport : Transport
  stage : Stage
  method : String
  signatures : List String
  accounts : List String
  deriving DecidableEq

/-- A description of operations; an absent part (`none`, or an empty list) restricts
nothing. -/
structure Selector where
  transport : Option Transport
  stages : List Stage
  methods : List String
  signature : Option String
  account : Option String
  deriving DecidableEq

namespace Selector

/-- `Selector::default`: no restriction at all. -/
def default : Selector := ⟨none, [], [], none, none⟩

/-- `Selector::methods`. -/
def ofMethods (names : List String) : Selector := { default with methods := names }

/-- `Selector::method`. -/
def ofMethod (name : String) : Selector := ofMethods [name]

/-- `Selector::http`. -/
def onHttp (self : Selector) : Selector := { self with transport := some .http }

def «matches» (self : Selector) (operation : Operation) : Bool :=
  (self.transport.all fun transport => transport == operation.transport)
    && (self.stages.isEmpty || self.stages.contains operation.stage)
    && (self.methods.isEmpty || self.methods.contains operation.method)
    && (self.signature.all fun signature => operation.signatures.contains signature)
    && (self.account.all fun account => operation.accounts.contains account)

/-! ### The text a selector has in an error

`reset` names a trap that never fired by the derived `Debug` text of its selector.
`quote` stands for the standard library's `Debug` of a string, which puts quotes around
the text and escapes what is not printable. -/

/-- `Debug` of an option. -/
def debugOption {α : Type} (debug : α → String) : Option α → String
  | none => "None"
  | some a => "Some(" ++ debug a ++ ")"

/-- `Debug` of a vector. -/
def debugList {α : Type} (debug : α → String) (l : List α) : String :=
  "[" ++ ", ".intercalate (l.map debug) ++ "]"

/-- `Debug` of a transport. -/
def debugTransport : Transport → String
  | .http => "Http"
  | .ws => "Ws"

/-- `Debug` of a stage. -/
def debugStage : Stage → String
  | .request => "Request"
  | .response => "Response"
  | .notification => "Notification"

/-- The derived `Debug` of a selector. -/
def debug (quote : String → String) (self : Selector) : String :=
  "Selector \x7b transport: " ++ debugOption debugTransport self.transport
    ++ ", stages: " ++ debugList debugStage self.stages
    ++ ", methods: " ++ debugList quote self.methods
    ++ ", signature: " ++ debugOption quote self.signature
    ++ ", account: " ++ debugOption quote self.account ++ " \x7d"

end Selector

/-- `Decision`. -/
inductive Decision : Type where
  | release
  | discard
  /-- its sender gets a JSON-RPC error with this message -/
  | reject (message : String)
  deriving DecidableEq

/-- What a relay hears from the gate. -/
inductive Answer (γ : Type) : Type where
  | decided (decision : Decision)
  | pending (gate : γ)

end Redsuite
