import Rcptto.ForStd.Ascii
import Rcptto.ForStd.Routing
import Rcptto.Native.Auth
import Rcptto.Native.Classify

/-!
# Routes and access

The handler that `run` in `cmd/rcptto-server/main.go` serves: the JSON API of
`internal/api/api.go` and the dashboard of `internal/web/web.go`, each a table of routes behind a
check of its own, and a table above that chooses between the two. The tables are searched by the
path as it was sent, while both checks look at the beginning of the decoded path.

What the handlers do is not a part of this module. `Server.serve` takes it as a function of the
state the handlers share.
-/

namespace Rcptto.Native.Http

open Routing (Route Outcome)

/-- A request, as far as it is looked at before a handler: `URL.EscapedPath()`, `URL.Path`, the two
    headers and the cookies. -/
structure Request where
  method : String
  escapedPath : List UInt8
  path : List UInt8
  decodes : UrlPath.unescape escapedPath = some path
  apiKey : String := ""
  hxRequest : String := ""
  cookies : Web.Cookies := []

/-- `strings.HasPrefix(r.URL.Path, word)`. -/
def Request.pathStarts (r : Request) (word : String) : Bool := word.utf8Bytes.isPrefixOf r.path

/-! ## The API -/

namespace Api

/-- The handlers of the API. -/
inductive Handler where
  | handleVerify
  | handleCreateJob
  | handleGetJob
  | handleJobResults
  | handleJobStats
  | handleCancelJob
  | handleListEgress
  | handleQuarantineEgress
  | handleEnableEgress
  | handleDisableEgress
  | handleListPolicies
  | handleSetPolicy
  | handleHealth
  | handleReady
  deriving DecidableEq

/-- The keys that `New` keeps. -/
def apiKeys (keys : List String) : List String := keys.filter (· ≠ "")

/-- The routes of `Handler`. -/
def routes : List (Route Handler) :=
  [.parse "POST /v1/verify" .handleVerify,
   .parse "POST /v1/jobs" .handleCreateJob,
   .parse "GET /v1/jobs/{id}" .handleGetJob,
   .parse "GET /v1/jobs/{id}/results" .handleJobResults,
   .parse "GET /v1/jobs/{id}/stats" .handleJobStats,
   .parse "POST /v1/jobs/{id}/cancel" .handleCancelJob,
   .parse "GET /v1/admin/egress" .handleListEgress,
   .parse "POST /v1/admin/egress/{id}/quarantine" .handleQuarantineEgress,
   .parse "POST /v1/admin/egress/{id}/enable" .handleEnableEgress,
   .parse "POST /v1/admin/egress/{id}/disable" .handleDisableEgress,
   .parse "GET /v1/admin/policies" .handleListPolicies,
   .parse "PUT /v1/admin/policies/{provider}" .handleSetPolicy,
   .parse "GET /healthz" .handleHealth,
   .parse "GET /readyz" .handleReady]

end Api

/-! ## The dashboard -/

namespace Web

/-- The handlers of the dashboard; the last one serves the files of `assetsFS`. -/
inductive Handler where
  | handleHome
  | handleVerifySubmit
  | handleJobSubmit
  | handleJobsList
  | handleJobShow
  | handleJobStatus
  | handleJobResultsPage
  | handleJobCancel
  | handleJobExport
  | handleJobMetrics
  | handleUploadPreview
  | handleUploadConfirm
  | handleEgress
  | handleEgressQuarantine
  | handleEgressEnable
  | handleEgressDisable
  | handleServers
  | handleSettings
  | handleSettingsSave
  | handlePolicies
  | handlePolicySet
  | handleLoginForm
  | handleLoginSubmit
  | handleLogout
  | fileServer
  deriving DecidableEq

/-- The routes of `Handler`. -/
def routes : List (Route Handler) :=
  [.parse "GET /{$}" .handleHome,
   .parse "POST /verify" .handleVerifySubmit,
   .parse "POST /jobs" .handleJobSubmit,
   .parse "GET /jobs" .handleJobsList,
   .parse "GET /jobs/{id}" .handleJobShow,
   .parse "GET /jobs/{id}/status" .handleJobStatus,
   .parse "GET /jobs/{id}/results" .handleJobResultsPage,
   .parse "POST /jobs/{id}/cancel" .handleJobCancel,
   .parse "GET /jobs/{id}/export/{format}" .handleJobExport,
   .parse "GET /jobs/{id}/metrics" .handleJobMetrics,
   .parse "POST /upload" .handleUploadPreview,
   .parse "POST /upload/confirm" .handleUploadConfirm,
   .parse "GET /egress" .handleEgress,
   .parse "POST /egress/{id}/quarantine" .handleEgressQuarantine,
   .parse "POST /egress/{id}/enable" .handleEgressEnable,
   .parse "POST /egress/{id}/disable" .handleEgressDisable,
   .parse "GET /servers" .handleServers,
   .parse "GET /settings" .handleSettings,
   .parse "POST /settings" .handleSettingsSave,
   .parse "GET /policies" .handlePolicies,
   .parse "POST /policies/{key}" .handlePolicySet,
   .parse "GET /login" .handleLoginForm,
   .parse "POST /login" .handleLoginSubmit,
   .parse "POST /logout" .handleLogout,
   .parse "GET /assets/" .fileServer]

end Web

/-! ## The server -/

/-- A handler of one of the two. -/
inductive Handler where
  | api (h : Api.Handler)
  | web (h : Web.Handler)
  deriving DecidableEq

/-- What a request gets: a handler with the values of the wildcards in its pattern, or an answer
    given before any handler. -/
inductive Reply where
  | redirect (path : List UInt8)
  | error (status : Nat)
  | problem (status : Nat) (title detail : String)
  | signIn (status : Nat) (location : String)
  | hxRedirect (status : Nat) (location : String)
  | handle (h : Handler) (values : List (List UInt8))
  deriving DecidableEq

/-- `ServeHTTP` of a table, with what serves the handlers in it. -/
def serveMux {H : Type} (routes : List (Route H)) (r : Request)
    (serve : H → List (List UInt8) → Reply) : Reply :=
  match Route.findHandler routes r.method r.escapedPath r.path with
  | .redirect path => .redirect path
  | .methodNotAllowed => .error 405
  | .notFound => .error 404
  | .handle h values => serve h values

/-- `authMiddleware`. -/
def Api.authMiddleware (keys : List String) (r : Request) (next : Reply) : Reply :=
  if keys.length > 0 && r.pathStarts "/v1/" then
    if r.apiKey ∉ keys then .problem 401 "unauthorized" "a valid X-API-Key header is required"
    else next
  else next

/-- `requireAuth`. -/
def Web.requireAuth (mac : List UInt8 → List UInt8 → List UInt8) (auth : Option Web.Auth)
    (now : Int) (r : Request) (next : Reply) : Reply :=
  if auth.isNone then next
  else if r.pathStarts "/login" || r.pathStarts "/assets/" then next
  else if Web.authenticated mac auth now r.cookies then next
  else if r.hxRequest = "true" then .hxRedirect 401 "/login"
  else .signIn 303 "/login"

/-- The two handlers of the table in `run`. -/
inductive Part where
  | apiHandler
  | dashboard
  deriving DecidableEq

/-- The routes of `run`. -/
def rootRoutes (dashboardEnabled : Bool) : List (Route Part) :=
  [.parse "/v1/" .apiHandler, .parse "/healthz" .apiHandler, .parse "/readyz" .apiHandler] ++
    if dashboardEnabled then [.parse "/" .dashboard] else []

/-- The keys of the API, and the dashboard with its `auth` unless it is disabled. -/
structure Server where
  apiKeys : List String
  dashboard : Option (Option Web.Auth)
  deriving DecidableEq

namespace Server

variable (mac : List UInt8 → List UInt8 → List UInt8)

/-- What a request at this time gets. -/
def dispatch (s : Server) (now : Int) (r : Request) : Reply :=
  serveMux (rootRoutes s.dashboard.isSome) r fun
    | .apiHandler, _ => Api.authMiddleware s.apiKeys r
        (serveMux Api.routes r fun h values => .handle (.api h) values)
    | .dashboard, _ => Web.requireAuth mac s.dashboard.join now r
        (serveMux Web.routes r fun h values => .handle (.web h) values)

/-- The state after a request, where `effect` is what the handlers do. -/
def serve {σ : Type*} (s : Server) (effect : Handler → List (List UInt8) → Request → σ → σ)
    (state : σ) (visit : Int × Request) : σ :=
  match s.dispatch mac visit.1 visit.2 with
  | .handle h values => effect h values visit.2 state
  | _ => state

end Server

/-! ## Start-up -/

/-- `splitAndTrim`. -/
def splitAndTrim (csv : String) : List String :=
  if csv = "" then []
  else ((csv.toList.splitOn ',').map fun p => trimSpace (.ofList p)).filter (· ≠ "")

/-- The environment, with the booleans as `getenvBool` returns them. -/
structure AccessEnv where
  apiKeys : String := ""
  dashboard : Bool := true
  dashboardUser : String := ""
  dashboardPassword : String := ""
  sessionSecret : String := ""
  secureCookie : Bool := false

/-- `RCPTTO_DASHBOARD_USER and RCPTTO_DASHBOARD_PASSWORD must be set together`, and the error with
    which `web.New` panics. -/
inductive AccessError where
  | mustBeSetTogether
  | auth (e : Web.AuthError)
  deriving DecidableEq

/-- The part of `run` that sets up access. -/
def Server.start (env : AccessEnv) (random : Option (List UInt8)) : Except AccessError Server :=
  let keys := Api.apiKeys (splitAndTrim env.apiKeys)
  if !env.dashboard then .ok { apiKeys := keys, dashboard := none }
  -- with neither of the two the dashboard is open
  else if (env.dashboardUser = "") ≠ (env.dashboardPassword = "") then .error .mustBeSetTogether
  else
    let dashAuth : Option Web.AuthConfig :=
      if env.dashboardUser ≠ "" then some
        { username := env.dashboardUser
          password := env.dashboardPassword
          secret := env.sessionSecret.utf8Bytes
          secureCookie := env.secureCookie }
      else none
    match Web.newAuth dashAuth random with
    | .error e => .error (.auth e)
    | .ok auth => .ok { apiKeys := keys, dashboard := some auth }

end Rcptto.Native.Http
