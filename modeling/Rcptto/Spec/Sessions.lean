import Rcptto.Native.Auth

/-!
# Who is let in, and for how long

A cookie that the dashboard has issued is accepted until the second in which it expires, whatever
happens in between: nobody can be signed out, and a restart changes nothing as long as the secret
stays the same, not even one that changes the password. Conversely, if signatures cannot be forged,
a request is let through only within the lifetime of a session that somebody has opened with the
right credentials.

## Key results

- `Auth.validToken_issueToken`, `Auth.validToken_iff`: which tokens are valid
- `served_iff_before_expiry`: how long an issued cookie is accepted
- `login_of_served`: who is let in
-/

namespace Rcptto.Native

theorem int64_iff {n : Int} : int64 n = true ↔ -(2 ^ 63) ≤ n ∧ n < 2 ^ 63 := by
  simp [int64]

namespace Web

variable {mac : List UInt8 → List UInt8 → List UInt8} {a a₀ : Auth} {t t₀ expiry : Int}
  {token : String}

/-! ## Tokens -/

/-- The time of a token is the time of its expiry, in whole seconds. -/
theorem timeUnix_unix (h : int64 expiry = true) :
    timeUnix (unix expiry) = expiry / second * second := by
  rw [int64_iff] at h
  have hwrap : wrapInt (unix expiry + unixToInternal) = unix expiry + unixToInternal := by
    simp only [wrapInt, unix, unixToInternal, second]
    omega
  rw [timeUnix, hwrap, add_sub_cancel_right, unix]

theorem int64_unix (h : int64 expiry = true) : int64 (unix expiry) = true := by
  rw [int64_iff] at h ⊢
  simp only [unix, second]
  omega

namespace Auth

/-- The tokens that are valid: a signature of a time to come. -/
theorem validToken_iff : a.validToken mac t token = true ↔
    ∃ exp sig sec, cut '.' token = some (exp, sig) ∧
      rawURLEncoding.decode sig.toList = some (a.sign mac exp) ∧ parseInt exp = some sec ∧
      t < timeUnix sec := by
  unfold validToken
  -- the token has no dot, or its signature is none, or is another one, or its expiry is no number
  cases hcut : cut '.' token with
  | none => simp
  | some p =>
    obtain ⟨exp, sig⟩ := p
    cases hsig : rawURLEncoding.decode sig.toList with
    | none => simp [hsig]
    | some got =>
      by_cases hgot : a.sign mac exp = got
      · subst hgot
        cases hsec : parseInt exp with
        | none => simp [hsig, hsec]
        | some sec => simp [hsig, hsec]
      · have hgot' : ¬ got = a.sign mac exp := fun h => hgot h.symm
        simp [hsig, hgot, hgot']

/-- The parts of a token. -/
theorem cut_issueToken : cut '.' (a.issueToken mac expiry) =
    some (formatInt (unix expiry),
      .ofList (rawURLEncoding.encode (a.sign mac (formatInt (unix expiry))))) := by
  refine cut_append fun hmem => ?_
  -- a number has no dot
  rcases mem_toList_formatInt hmem with hdot | hdot
  · exact absurd hdot (by decide)
  · exact absurd hdot (by decide)

/-- A token is valid until the second in which it expires, for everyone who has the secret. -/
theorem validToken_issueToken (hsecret : a.secret = a₀.secret) (h : int64 expiry = true) :
    a.validToken mac t (a₀.issueToken mac expiry) = true ↔ t < expiry / second * second := by
  have hsign : a.sign mac (formatInt (unix expiry)) = a₀.sign mac (formatInt (unix expiry)) := by
    rw [sign, sign, hsecret]
  rw [validToken_iff, cut_issueToken]
  constructor
  · rintro ⟨exp, sig, sec, hexp, -, hsec, hlt⟩
    obtain ⟨rfl, -⟩ := Prod.mk.inj (Option.some.inj hexp)
    rw [parseInt_formatInt (int64_unix h)] at hsec
    rwa [← Option.some.inj hsec, timeUnix_unix h] at hlt
  · intro hlt
    refine ⟨_, _, unix expiry, rfl, ?_, parseInt_formatInt (int64_unix h), ?_⟩
    · rw [String.toList_ofList, Base64.Alphabet.decode_encode, hsign]
    · rwa [timeUnix_unix h]

end Auth

/-! ## Executions -/

/-- The token that an answer sets as a cookie. -/
def LoginReply.issued : LoginReply → Option String
  | .redirect _ cookie => cookie.map (·.value)
  | .signIn _ _ => none

section Runs

variable {s s' : Sessions} {es before after : List SessionEvent} {form : Option LoginForm}
  {reply : LoginReply} {cookies : Cookies} {served : Bool} {auth : Option Auth}

/-- Only the right credentials get a token, and it expires after the lifetime of a session. -/
theorem token_handleLoginSubmit
    (h : (handleLoginSubmit mac (some a) t form).issued = some token) :
    (∃ f, form = some f ∧ f.username = a.username ∧ f.password = a.password) ∧
      token = a.issueToken mac (t + a.ttl) := by
  cases form with
  | none => simp [handleLoginSubmit, LoginReply.issued] at h
  | some f =>
    by_cases hf : a.checkCredentials f.username f.password = true
    · have htoken : a.issueToken mac (t + a.ttl) = token := by
        simpa [handleLoginSubmit, LoginReply.issued, hf] using h
      exact ⟨⟨f, rfl, by simpa [Auth.checkCredentials] using hf⟩, htoken.symm⟩
    · simp [handleLoginSubmit, LoginReply.issued, hf] at h

/-- The state in which an event of an execution happens. -/
theorem Sessions.Runs.exists_step {e : SessionEvent} (hrun : Sessions.Runs mac s es s')
    (he : e ∈ es) : ∃ u u', Sessions.Step mac u e u' := by
  obtain ⟨before, after, rfl⟩ := List.append_of_mem he
  obtain ⟨u, u', -, hstep, -⟩ := hrun.split_cons
  exact ⟨u, u', hstep⟩

/-- The clock never goes back. -/
theorem Sessions.Runs.clock_le (hrun : Sessions.Runs mac s es s') : s.clock ≤ s'.clock := by
  refine hrun.invariant (P := fun u => s.clock ≤ u.clock) le_rfl ?_
  rintro u e u' - hle hstep
  -- only a tick moves the clock
  cases e with
  | tick now =>
    obtain ⟨hnow, rfl⟩ := hstep
    exact hle.trans hnow
  | restart cfg random =>
    obtain ⟨auth, -, rfl⟩ := hstep
    exact hle
  | login | logout | request => simp_all [Sessions.Step]

/-- A cookie that was issued at the time `t₀` lets every request through until the full second
    before the end of the session, and none after it. This holds for all requests in the execution
    that reach a server with the same secret, also after others have signed in or out and after
    restarts with another password. -/
theorem served_iff_before_expiry (hrun : Sessions.Runs mac s es s')
    (hlogin : .login (some a₀) t₀ form reply ∈ es) (htoken : reply.issued = some token)
    (hrequest : .request (some a) t cookies served ∈ es)
    (hcookie : cookies.lookup sessionCookieName = some token) (hsecret : a.secret = a₀.secret)
    (hrange : int64 (t₀ + a₀.ttl) = true) :
    served = true ↔ t < (t₀ + a₀.ttl) / second * second := by
  obtain ⟨u, -, hu, rfl, rfl, -⟩ := hrun.exists_step hlogin
  obtain ⟨v, -, hv, rfl, rfl, -⟩ := hrun.exists_step hrequest
  obtain ⟨-, rfl⟩ := token_handleLoginSubmit htoken
  rw [authenticated, hcookie]
  exact Auth.validToken_issueToken hsecret hrange

/-- A configuration. -/
def sampleAuth : Auth :=
  { username := "operator", password := "letmein", secret := [7], ttl := hour
    secureCookie := true }

/-- A signature that shows the secret, to have one that can be evaluated. -/
def sampleMac (secret message : List UInt8) : List UInt8 := secret ++ message

/-- The token of somebody who has signed in at the time 0. -/
def sampleToken : String := sampleAuth.issueToken sampleMac (0 + sampleAuth.ttl)

/-- The answer to them. -/
def sampleReply : LoginReply :=
  handleLoginSubmit sampleMac (some sampleAuth) 0 (some ⟨"operator", "letmein"⟩)

theorem issued_sampleReply : sampleReply.issued = some sampleToken := by
  have hcheck : sampleAuth.checkCredentials "operator" "letmein" = true := by decide
  simp [sampleReply, handleLoginSubmit, hcheck, LoginReply.issued, sampleToken]

/-- Somebody signs in and out again, and uses the cookie all the same. -/
def sampleVisit : List SessionEvent :=
  [.login (some sampleAuth) 0 (some ⟨"operator", "letmein"⟩) sampleReply,
    .logout (handleLogout (some sampleAuth)),
    .request (some sampleAuth) 0 [(sessionCookieName, sampleToken)] true]

/-- The sample visit is a run. -/
theorem runs_sampleVisit :
    Sessions.Runs sampleMac ⟨some sampleAuth, 0⟩ sampleVisit ⟨some sampleAuth, 0⟩ := by
  have hserved : sampleAuth.validToken sampleMac 0 sampleToken = true :=
    (Auth.validToken_issueToken rfl (by decide)).mpr (by decide)
  refine .cons ⟨rfl, rfl, rfl, rfl⟩ (.cons ⟨rfl, rfl⟩ (.cons ⟨rfl, rfl, ?_, rfl⟩ (.nil _)))
  simp [authenticated, hserved]

theorem served_iff_before_expiry_sampleVisit :
    Sessions.Runs sampleMac ⟨some sampleAuth, 0⟩ sampleVisit ⟨some sampleAuth, 0⟩ ∧
      (true = true ↔ 0 < (0 + sampleAuth.ttl) / second * second) :=
  ⟨runs_sampleVisit, served_iff_before_expiry runs_sampleVisit (.head _) issued_sampleReply
    (.tail _ (.tail _ (.head _))) List.lookup_cons_self rfl (by decide)⟩

/-- A token with this payload was issued under this secret. -/
def Issued (es : List SessionEvent) (secret : List UInt8) (exp : String) : Prop :=
  ∃ a₀ t₀ form reply token sig, .login (some a₀) t₀ form reply ∈ es ∧ a₀.secret = secret ∧
    reply.issued = some token ∧ cut '.' token = some (exp, sig)

/-- No signature is forged: every signature that a request presents is one of a payload that was
    signed before under the secret in force. -/
def Unforged (mac : List UInt8 → List UInt8 → List UInt8) (es : List SessionEvent) : Prop :=
  ∀ before a t cookies served after token exp sig,
    es = before ++ .request (some a) t cookies served :: after →
    cookies.lookup sessionCookieName = some token → cut '.' token = some (exp, sig) →
    rawURLEncoding.decode sig.toList = some (a.sign mac exp) → Issued before a.secret exp

/-- If no signature is forged, then a request that is let through comes after somebody has signed in
    with the right credentials, under the same secret, and less than the lifetime of a session
    later. -/
theorem login_of_served (hrun : Sessions.Runs mac s es s') (hunforged : Unforged mac es)
    (hrange : ∀ a₀ t₀ form reply, .login (some a₀) t₀ form reply ∈ es →
      int64 (t₀ + a₀.ttl) = true)
    (hes : es = before ++ .request (some a) t cookies true :: after) :
    ∃ a₀ t₀ f reply, .login (some a₀) t₀ (some f) reply ∈ before ∧ a₀.secret = a.secret ∧
      f.username = a₀.username ∧ f.password = a₀.password ∧ t₀ ≤ t ∧ t < t₀ + a₀.ttl := by
  subst hes
  obtain ⟨u, u', hbefore, ⟨hu, rfl, hserved, -⟩, -⟩ := hrun.split_cons
  -- the request has a cookie with a valid token
  rw [authenticated] at hserved
  cases hcookie : cookies.lookup sessionCookieName with
  | none => simp [hcookie] at hserved
  | some token =>
    rw [hcookie] at hserved
    obtain ⟨exp, sig, sec, hcut, hsig, hsec, hlt⟩ := Auth.validToken_iff.mp hserved.symm
    -- its payload is that of a token that was issued to somebody
    obtain ⟨a₀, t₀, form, reply, token₀, sig₀, hlogin, hsecret, htoken₀, hcut₀⟩ :=
      hunforged before a u.clock cookies true after token exp sig rfl hcookie hcut hsig
    have hexpiry := hrange a₀ t₀ form reply (List.mem_append_left _ hlogin)
    obtain ⟨early, late, rfl⟩ := List.append_of_mem hlogin
    obtain ⟨w, w', -, ⟨-, rfl, rfl, rfl⟩, hlate⟩ := hbefore.split_cons
    obtain ⟨⟨f, rfl, husername, hpassword⟩, rfl⟩ := token_handleLoginSubmit htoken₀
    rw [Auth.cut_issueToken] at hcut₀
    obtain ⟨rfl, -⟩ := Prod.mk.inj (Option.some.inj hcut₀)
    -- and so its time is the end of that session
    rw [parseInt_formatInt (int64_unix hexpiry)] at hsec
    rw [← Option.some.inj hsec, timeUnix_unix hexpiry] at hlt
    exact ⟨a₀, w'.clock, f, _, hlogin, hsecret, husername, hpassword, Sessions.Runs.clock_le hlate,
      hlt.trans_le (Int.ediv_mul_le _ (by decide))⟩

/-- The token of the sample visit was issued by its login. -/
theorem unforged_sampleVisit : Unforged sampleMac sampleVisit := by
  rintro before a t cookies served after token exp sig hes hcookie hcut -
  -- the only request is the last event
  obtain ⟨login, rfl, rfl, rfl⟩ : ∃ logout,
      before = [.login (some sampleAuth) 0 (some ⟨"operator", "letmein"⟩) sampleReply, logout] ∧
      a = sampleAuth ∧ cookies = [(sessionCookieName, sampleToken)] := by
    rcases before with _ | ⟨e₁, _ | ⟨e₂, _ | ⟨e₃, before⟩⟩⟩ <;> simp [sampleVisit] at hes
    obtain ⟨rfl, rfl, ⟨rfl, -, rfl, -⟩, -⟩ := hes
    exact ⟨_, rfl, rfl, rfl⟩
  rw [List.lookup_cons_self] at hcookie
  obtain rfl := Option.some.inj hcookie
  exact ⟨sampleAuth, 0, _, sampleReply, sampleToken, sig, .head _, rfl, issued_sampleReply, hcut⟩

/-- The request of the sample visit is preceded by its login. -/
theorem login_of_served_sampleVisit :
    Sessions.Runs sampleMac ⟨some sampleAuth, 0⟩ sampleVisit ⟨some sampleAuth, 0⟩ ∧
      ∃ a₀ t₀ f reply, .login (some a₀) t₀ (some f) reply ∈ sampleVisit.take 2 ∧
        a₀.secret = sampleAuth.secret ∧ f.username = a₀.username ∧ f.password = a₀.password ∧
        t₀ ≤ 0 ∧ 0 < t₀ + a₀.ttl := by
  have hes : sampleVisit = sampleVisit.take 2 ++
      [.request (some sampleAuth) 0 [(sessionCookieName, sampleToken)] true] := rfl
  refine ⟨runs_sampleVisit, login_of_served runs_sampleVisit unforged_sampleVisit ?_ hes⟩
  intro a₀ t₀ form reply hmem
  obtain ⟨rfl, rfl, -⟩ : a₀ = sampleAuth ∧ t₀ = 0 ∧ form = some ⟨"operator", "letmein"⟩ := by
    simp_all [sampleVisit]
  decide

end Runs

end Web

end Rcptto.Native
