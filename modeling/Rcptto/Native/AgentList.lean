import Rcptto.Native.Agents
import Rcptto.Native.Strconv

/-!
# The list of agents

`ParseAgents` of `internal/worker/registry.go`, which reads the agents from one variable of the
environment, and the list written in the form that it reads.
-/

namespace Rcptto.Native.Agent

/-- The errors of `ParseAgents`. -/
inductive ParseError where
  | form (part : String)
  | scheme (id : String)
  deriving DecidableEq

/-- The texts of the errors; `quote` is the verb `%q`. -/
def ParseError.text (quote : String → String) : ParseError → String
  | .form part => "worker: agent " ++ quote part ++ " must be of the form id=https://host:port"
  | .scheme id => "worker: agent " ++ quote id ++ " URL must start with http:// or https://"

/-- `strings.HasPrefix` for the two schemes. -/
def hasScheme (url : String) : Bool :=
  "http://".toList.isPrefixOf url.toList || "https://".toList.isPrefixOf url.toList

/-- The body of the loop of `ParseAgents`, for a part that is not blank. -/
def parseAgent (token part : String) : Except ParseError AgentConfig :=
  match cut '=' part with
  | none => .error (.form part)
  | some (id, url) =>
    let id := trimSpace id
    let url := trimSpace url
    if id = "" ∨ url = "" then .error (.form part)
    else if !hasScheme url then .error (.scheme id)
    else .ok { id := id, baseURL := url, token := token }

/-- `ParseAgents`. -/
def parseAgents (spec token : String) : Except ParseError (List AgentConfig) :=
  let spec := trimSpace spec
  if spec = "" then .ok []
  else
    let parts := (spec.toList.splitOn ',').map fun p => trimSpace (.ofList p)
    -- blank parts are skipped, and the first error ends the loop
    (parts.filter (· ≠ "")).mapM (parseAgent token)

/-- The list in the form that `ParseAgents` reads. -/
def render (cfgs : List AgentConfig) : String :=
  .ofList ([','].intercalate (cfgs.map fun c => c.id.toList ++ '=' :: c.baseURL.toList))

end Rcptto.Native.Agent
