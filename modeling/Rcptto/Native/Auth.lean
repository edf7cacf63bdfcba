import Rcptto.ForStd.Ascii
import Rcptto.ForStd.Base64
import Rcptto.Native.JobStore
import Rcptto.Native.Limiter
import Rcptto.Native.Strconv

/-!
# Signing in to the dashboard

`internal/web/auth.go`. The dashboard keeps no sessions. Whoever signs in gets a cookie with the
time at which it expires and a signature of that time, and every request is let through whose cookie
has a valid signature and a time to come.

The signature is HMAC-SHA256, which is left open as the function `mac` of a secret and a message.
`Sessions` is a dashboard with its clock, whose times are counted from that of Unix and used nowhere
else. Its configuration can change when the server is restarted, and requests may carry any cookies.
-/

namespace Rcptto.Native.Web

/-! ## Configuration -/

/-- `sessionCookieName`. -/
def sessionCookieName : String := "rcptto_session"

/-- `defaultSessionTTL`. -/
def defaultSessionTTL : Int := 12 * hour

/-- `AuthConfig`. -/
structure AuthConfig where
  username : String
  password : String
  secret : List UInt8 := []
  ttl : Int := 0
  secureCookie : Bool := false
  deriving DecidableEq

/-- `auth`. -/
structure Auth where
  username : String
  password : String
  secret : List UInt8
  ttl : Int
  secureCookie : Bool
  deriving DecidableEq

/-- The errors of `newAuth`. -/
inductive AuthError where
  | missingCredentials
  | generatingSecret
  deriving DecidableEq

/-- `newAuth`; `random` is what `rand.Read` returns, unless it fails. -/
def newAuth (cfg : Option AuthConfig) (random : Option (List UInt8)) :
    Except AuthError (Option Auth) :=
  match cfg with
  | none => .ok none
  | some cfg =>
    if cfg.username = "" || cfg.password = "" then .error .missingCredentials
    else
      let a : Auth :=
        { username := cfg.username
          password := cfg.password
          secret := cfg.secret
          ttl := if cfg.ttl ≤ 0 then defaultSessionTTL else cfg.ttl
          secureCookie := cfg.secureCookie }
      -- a random secret is not kept, so its sessions end with the process
      if a.secret.length = 0 then
        match random with
        | none => .error .generatingSecret
        | some secret => .ok (some { a with secret := secret })
      else .ok (some a)

/-! ## Tokens -/

/-- The alphabet of `base64.RawURLEncoding`. -/
def rawURLEncoding : Base64.Alphabet where
  chars := "ABCDEFGHIJKLMNOPQRSTUVWXYZabcdefghijklmnopqrstuvwxyz0123456789-_".toList
  length_eq := by decide
  nodup := by decide
  noLineEnd := by
    have hall : "ABCDEFGHIJKLMNOPQRSTUVWXYZabcdefghijklmnopqrstuvwxyz0123456789-_".toList.all
      (fun c => c ≠ '\r' && c ≠ '\n') = true := by decide
    intro c hc
    simpa using List.all_eq_true.mp hall c hc

/-- `t.Unix()`, the full seconds of a time. -/
def unix (t : Int) : Int := t / second

/-- The seconds between the zero time and that of Unix. -/
def unixToInternal : Int := 62135596800

/-- `time.Unix(sec, 0)`, whose seconds are counted from the zero time in an `int64`. -/
def timeUnix (sec : Int) : Int := (wrapInt (sec + unixToInternal) - unixToInternal) * second

namespace Auth

/-- `checkCredentials`. -/
def checkCredentials (a : Auth) (username password : String) : Bool :=
  username = a.username && password = a.password

variable (mac : List UInt8 → List UInt8 → List UInt8)

/-- `sign`. -/
def sign (a : Auth) (payload : String) : List UInt8 := mac a.secret payload.utf8Bytes

/-- `issueToken`. -/
def issueToken (a : Auth) (expiry : Int) : String :=
  let exp := formatInt (unix expiry)
  exp ++ "." ++ .ofList (rawURLEncoding.encode (a.sign mac exp))

/-- `validToken`, at this time. -/
def validToken (a : Auth) (now : Int) (token : String) : Bool :=
  match cut '.' token with
  | none => false
  | some (exp, sig) =>
    match rawURLEncoding.decode sig.toList with
    | none => false
    | some got =>
      -- the expiry is read only under a good signature
      if a.sign mac exp ≠ got then false
      else
        match parseInt exp with
        | none => false
        | some unix => now < timeUnix unix

end Auth

/-! ## Requests -/

/-- The cookies of a request, in their order. -/
abbrev Cookies := List (String × String)

/-- `http.Cookie`, as the dashboard sets it. -/
structure Cookie where
  name : String
  value : String
  path : String := "/"
  expires : Option Int := none
  maxAge : Int := 0
  httpOnly : Bool := true
  secure : Bool
  deriving DecidableEq

/-- What the routes for signing in and out answer: a redirect, which can set a cookie, or the page
    for signing in with an error and a status. -/
inductive LoginReply where
  | redirect (location : String) (cookie : Option Cookie)
  | signIn (status : Nat) (error : String)
  deriving DecidableEq

variable (mac : List UInt8 → List UInt8 → List UInt8)

/-- `authenticated`. -/
def authenticated (auth : Option Auth) (now : Int) (cookies : Cookies) : Bool :=
  match auth with
  | none => true
  | some a =>
    match cookies.lookup sessionCookieName with
    | none => false
    | some value => a.validToken mac now value

/-- `handleLoginForm`. -/
def handleLoginForm (auth : Option Auth) (now : Int) (cookies : Cookies) : LoginReply :=
  if auth.isNone || authenticated mac auth now cookies then .redirect "/" none
  else .signIn 200 ""

/-- The form of `handleLoginSubmit`. -/
structure LoginForm where
  username : String
  password : String
  deriving DecidableEq

/-- `handleLoginSubmit`, for a form that can be parsed or not. -/
def handleLoginSubmit (auth : Option Auth) (now : Int) (form : Option LoginForm) : LoginReply :=
  match auth with
  | none => .redirect "/" none
  | some a =>
    match form with
    | none => .signIn 200 "Invalid form submission."
    | some form =>
      if !a.checkCredentials form.username form.password then
        .signIn 401 "Incorrect username or password."
      else
        let expiry := now + a.ttl
        .redirect "/" (some
          { name := sessionCookieName
            value := a.issueToken mac expiry
            expires := some expiry
            secure := a.secureCookie })

/-- `handleLogout`. -/
def handleLogout (auth : Option Auth) : LoginReply :=
  .redirect "/login" (some
    { name := sessionCookieName
      value := ""
      maxAge := -1
      secure := auth.any (·.secureCookie) })

/-! ## A dashboard and its visitors -/

/-- A dashboard and its clock. -/
structure Sessions where
  auth : Option Auth
  clock : Int

/-- What can happen. An event has the configuration and the time at which it happens. A `request` is
    one that has to be authenticated, and `served` if it is let through. -/
inductive SessionEvent where
  | tick (now : Int)
  | restart (cfg : Option AuthConfig) (random : Option (List UInt8))
  | login (auth : Option Auth) (now : Int) (form : Option LoginForm) (reply : LoginReply)
  | logout (reply : LoginReply)
  | request (auth : Option Auth) (now : Int) (cookies : Cookies) (served : Bool)

/-- One event. -/
def Sessions.Step (s : Sessions) (e : SessionEvent) (s' : Sessions) : Prop :=
  match e with
  | .tick now => s.clock ≤ now ∧ s' = { s with clock := now }
  | .restart cfg random =>
    ∃ auth, newAuth cfg random = .ok auth ∧ s' = { s with auth := auth }
  -- signing in and out leaves nothing behind on the server
  | .login auth now form reply => auth = s.auth ∧ now = s.clock ∧
      reply = handleLoginSubmit mac auth now form ∧ s' = s
  | .logout reply => reply = handleLogout s.auth ∧ s' = s
  | .request auth now cookies served => auth = s.auth ∧ now = s.clock ∧
      served = authenticated mac auth now cookies ∧ s' = s

/-- An execution of a dashboard. -/
abbrev Sessions.Runs (s : Sessions) (es : List SessionEvent) (s' : Sessions) : Prop :=
  Run (Sessions.Step mac) s es s'

end Rcptto.Native.Web
