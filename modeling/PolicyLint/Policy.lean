/-
Whether a block is a traffic policy.

A block is read in the format that its text suggests and accepted when its root
is a mapping that binds a policy key, or that wraps such a mapping in one of two
envelopes: the endpoints of an agent configuration, or the request body that
creates a cloud endpoint.
-/
import PolicyLint.Format
import PolicyLint.Json.Document
import PolicyLint.Text.Blank
import PolicyLint.Text.Line
import PolicyLint.Yaml.Document

namespace PolicyLint

/-- Why a block is not a traffic policy. -/
inductive Rejection where
  /-- It cannot be read; the reader's message says why. -/
  | unreadable (message : Text)
  | emptyDocument
  | rootNotObject
  | missingPolicyKey
deriving DecidableEq, Repr

namespace Policy

/-- The keys that make a mapping a traffic policy. -/
def keys : List Text :=
  ["on_http_request", "on_http_response", "on_tcp_connect"].map String.toList

/-- True when some policy key stands in the text. -/
def mentioned (t : Text) : Bool :=
  keys.any fun k => Text.mentions k t

/-- True when the text begins with a policy key. -/
def startsWithKey (t : Text) : Bool :=
  keys.any fun k => k.isPrefixOf t

/-- The format to read a block in.  A brace at its beginning means JSON, a policy
key at the beginning of a line YAML; otherwise the declared format holds. -/
def resolve (t : Text) (declared : Format) : Format :=
  let body := Text.trim t
  if body.head? = some '\x7b' then .json
  else if (Text.lines body).any startsWithKey then .yaml
  else declared

/-- True for a line that holds nothing of a YAML document: blank, a comment, or a
document marker. -/
def isHollowLine (line : Text) : Bool :=
  let body := Text.trim line
  body.isEmpty || body.head? = some '#' || body = "---".toList || body = "...".toList

/-- True when no line holds anything of a YAML document. -/
def isHollow (t : Text) : Bool :=
  (Text.lines t).all isHollowLine

/-- The document that a block holds in a format.  What the YAML reader says is cut to
its first line. -/
def read (t : Text) : Format → Except Rejection Data
  | .json => (Json.parse t).mapError .unreadable
  | .yaml =>
    if isHollow t then .ok .null
    else (Yaml.parse t).mapError fun message => .unreadable (Text.firstLine message)

/-- True when a mapping binds a policy key. -/
def hasKey (bindings : List (Text × Data)) : Bool :=
  keys.any fun k => Data.binds k bindings

/-- True for an endpoint whose traffic policy binds a policy key. -/
def isPolicyEndpoint : Data → Bool
  | .mapping endpoint =>
    match Data.lookup "traffic_policy".toList endpoint with
    | some (.mapping policy) => hasKey policy
    | _ => false
  | _ => false

/-- True for an agent configuration with a policy in one of its endpoints. -/
def wrapsEndpoints (bindings : List (Text × Data)) : Bool :=
  match Data.lookup "endpoints".toList bindings with
  | some (.list endpoints) => endpoints.any isPolicyEndpoint
  | _ => false

/-- True for the text of a JSON object that binds a policy key. -/
def isPolicyText (t : Text) : Bool :=
  match Json.document t with
  | .ok (.mapping policy) => hasKey policy
  | _ => false

/-- True for the request body of a cloud endpoint whose policy, a JSON text in a
string, binds a policy key. -/
def wrapsCloudEndpoint (bindings : List (Text × Data)) : Bool :=
  match Data.lookup "traffic_policy".toList bindings, Data.lookup "type".toList bindings with
  | some (.string policy), some (.string kind) => kind = "cloud".toList && isPolicyText policy
  | _, _ => false

/-- Accept a document whose root is a mapping and a policy or an envelope. -/
def accept : Data → Except Rejection Unit
  | .mapping bindings =>
    if hasKey bindings || wrapsEndpoints bindings || wrapsCloudEndpoint bindings then .ok ()
    else .error .missingPolicyKey
  | .null => .error .emptyDocument
  | _ => .error .rootNotObject

/-- Check the content of a block whose fence declares a format. -/
def validate (t : Text) (declared : Format) : Except Rejection Unit := do
  accept (← read t (resolve t declared))

end Policy

namespace Rejection

/-- The reason that reports show. -/
def message : Rejection → Text
  | unreadable m => m
  | emptyDocument => "empty document".toList
  | rootNotObject => "root must be an object".toList
  | missingPolicyKey =>
    "missing policy key (need one of: ".toList ++ Text.join ", ".toList Policy.keys ++ ")".toList

end Rejection
end PolicyLint
