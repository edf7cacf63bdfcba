import Rcptto.Native.Routes

/-!
# Who reaches a handler

The tables of routes are searched by the path as it was sent, segment by segment, and the checks of
the API and of the dashboard look at the beginning of the decoded path. The two views agree on what
is open: a path that gets around a check leads to a handler that needs none.

`dispatch_eq_handle_iff` says when a handler is reached. `foldl_serve_trusted` looks at whole
sequences of requests: those that bring neither a key nor a session leave the state alone.
-/

namespace Rcptto.Native.Http

open Routing UrlPath

/-! ## The tables -/

/-- The handlers that are meant to be open: health checks, signing in, and static files. -/
def Handler.isOpen : Handler → Bool
  | .api .handleHealth | .api .handleReady => true
  | .web .handleLoginForm | .web .handleLoginSubmit | .web .fileServer => true
  | _ => false

/-- No path of one of the two tables is ambiguous in it or in the table above. -/
theorem unambiguous_tables : (Route.Unambiguous Api.routes ∧ Route.Unambiguous Web.routes) ∧
    ∀ enabled, Route.Slashed Api.routes (rootRoutes enabled) ∧
      Route.Slashed Web.routes (rootRoutes enabled) := by
  decide +kernel

/-- The first words of the routes of the dashboard that are not open. -/
def Web.closedWords : List (List UInt8) :=
  ["/", "verify", "jobs", "upload", "egress", "servers", "settings", "policies", "logout"].map
    String.utf8Bytes

/-- The routes of the API are below `/v1/`, but for the two that are open. Those of the dashboard
    begin with words of their own, but for signing in and the files. -/
theorem path_cases :
    (∀ route ∈ Api.routes,
      ((Handler.api route.handler).isOpen = false ∧
          route.path.head? = some (.lit "v1".utf8Bytes) ∧ route.path.length ≠ 1) ∨
        ((Handler.api route.handler).isOpen = true ∧
          (route.path = [.lit "healthz".utf8Bytes] ∨
            route.path = [.lit "readyz".utf8Bytes]))) ∧
    ∀ route ∈ Web.routes,
      ((Handler.web route.handler).isOpen = false ∧
          ∃ word ∈ Web.closedWords, route.path.head? = some (.lit word)) ∨
        ((Handler.web route.handler).isOpen = true ∧
          (route.path = [.lit "login".utf8Bytes] ∨
            route.path = [.lit "assets".utf8Bytes, .multi])) := by
  decide +kernel

/-! ## The checks -/

variable {r : Request} {values : List (List UInt8)}

/-- A canonical path begins with a slash, encoded and decoded. -/
theorem Request.exists_slash (hclean : cleanPath r.escapedPath = r.escapedPath) :
    ∃ p, r.escapedPath = slash :: p ∧ unescape (slash :: p) = some r.path := by
  obtain ⟨p, hp⟩ : ∃ p, r.escapedPath = slash :: p := hclean ▸ exists_cleanPath r.escapedPath
  exact ⟨p, hp, hp ▸ r.decodes⟩

/-- A word with which the decoded path begins is the beginning of the first segment. -/
theorem Request.prefix_of_pathStarts (hclean : cleanPath r.escapedPath = r.escapedPath)
    {text : String} {seg word : List UInt8} {rest : List (List UInt8)}
    (hstarts : r.pathStarts text = true) (hsegs : segments r.escapedPath = seg :: rest)
    (htext : slash :: word <+: text.utf8Bytes) (hword : slash ∉ word) : word <+: seg := by
  obtain ⟨p, hp, hpath⟩ := Request.exists_slash hclean
  exact prefix_of_decoded hpath (hp ▸ hsegs) hword
    (htext.trans (List.isPrefixOf_iff_prefix.mp hstarts))

/-- A path with more than one segment begins with the first one and a slash. -/
theorem Request.pathStarts_of_ne_nil (hclean : cleanPath r.escapedPath = r.escapedPath)
    {text : String} {seg : List UInt8} {rest : List (List UInt8)}
    (hsegs : segments r.escapedPath = seg :: rest) (hrest : rest ≠ [])
    (htext : text.utf8Bytes = slash :: (seg ++ [slash])) : r.pathStarts text = true := by
  obtain ⟨p, hp, hpath⟩ := Request.exists_slash hclean
  rw [hp] at hsegs
  rcases decoded_cases hpath hsegs with ⟨-, -, h⟩ | ⟨-, h⟩ | ⟨tail, h, -⟩
  · exact absurd h hrest
  · exact absurd h hrest
  · rw [Request.pathStarts, htext, h, List.isPrefixOf_iff_prefix]
    exact ⟨tail, by simp⟩

/-- A path begins with its first segment, unless that is the slash of the root. -/
theorem Request.pathStarts_of_ne_slash (hclean : cleanPath r.escapedPath = r.escapedPath)
    {text : String} {seg : List UInt8} {rest : List (List UInt8)}
    (hsegs : segments r.escapedPath = seg :: rest) (hseg : seg ≠ [slash])
    (htext : text.utf8Bytes = slash :: seg) : r.pathStarts text = true := by
  obtain ⟨p, hp, hpath⟩ := Request.exists_slash hclean
  rw [hp] at hsegs
  rw [Request.pathStarts, htext, List.isPrefixOf_iff_prefix]
  rcases decoded_cases hpath hsegs with ⟨-, h, -⟩ | ⟨h, -⟩ | ⟨tail, h, -⟩
  · exact absurd h hseg
  · rw [h]
  · exact ⟨slash :: tail, by rw [h, List.cons_append]⟩

/-- Both views of a path agree for the API: the check is made for what is not open. -/
theorem Api.pathStarts_iff {route : Route Api.Handler} (hroute : route ∈ Api.routes)
    (hclean : cleanPath r.escapedPath = r.escapedPath)
    (hmatch : Matches route.path (segments r.escapedPath) values) :
    r.pathStarts "/v1/" = !(Handler.api route.handler).isOpen := by
  -- a route below `/v1/`, or one of the two health checks
  rcases path_cases.1 route hroute with ⟨hopen, hhead, hlength⟩ | ⟨hopen, hwords⟩
  · obtain ⟨rest, hsegs, hrest⟩ := hmatch.exists_cons hhead
    rw [hopen]
    exact Request.pathStarts_of_ne_nil hclean hsegs (mt hrest.mp hlength) (by decide)
  · obtain ⟨word, hword, hhead⟩ : ∃ word ∈ ["healthz".utf8Bytes, "readyz".utf8Bytes],
        route.path.head? = some (.lit word) := by
      rcases hwords with h | h <;> simp [h]
    obtain ⟨rest, hsegs, -⟩ := hmatch.exists_cons hhead
    rw [hopen, Bool.not_true, ← Bool.not_eq_true]
    intro hstarts
    have hneither : ∀ word ∈ ["healthz".utf8Bytes, "readyz".utf8Bytes],
        ¬ "v1".utf8Bytes <+: word := by decide
    exact hneither word hword
      (Request.prefix_of_pathStarts hclean hstarts hsegs (by decide) (by decide))

/-- Both views agree for the dashboard: what is let through without a session is open. -/
theorem Web.pathStarts_iff {route : Route Web.Handler} (hroute : route ∈ Web.routes)
    (hclean : cleanPath r.escapedPath = r.escapedPath)
    (hmatch : Matches route.path (segments r.escapedPath) values) :
    (r.pathStarts "/login" || r.pathStarts "/assets/") = (Handler.web route.handler).isOpen := by
  -- a closed page, the login page, or an asset
  rcases path_cases.2 route hroute with ⟨hopen, word, hword, hhead⟩ | ⟨hopen, hpath | hpath⟩
  · obtain ⟨rest, hsegs, -⟩ := hmatch.exists_cons hhead
    have hclosed : ∀ word ∈ Web.closedWords,
        ¬ "login".utf8Bytes <+: word ∧ ¬ "assets".utf8Bytes <+: word := by decide
    rw [hopen, ← Bool.not_eq_true, Bool.or_eq_true]
    rintro (hstarts | hstarts)
    · exact (hclosed word hword).1
        (Request.prefix_of_pathStarts hclean hstarts hsegs (by decide) (by decide))
    · exact (hclosed word hword).2
        (Request.prefix_of_pathStarts hclean hstarts hsegs (by decide) (by decide))
  · rw [hpath] at hmatch
    obtain ⟨rest, hsegs, -⟩ := hmatch.exists_cons rfl
    have hlogin : r.pathStarts "/login" = true :=
      Request.pathStarts_of_ne_slash hclean hsegs (by decide) (by decide)
    rw [hopen, hlogin, Bool.true_or]
  · rw [hpath] at hmatch
    obtain ⟨rest, hsegs, hrest⟩ := hmatch.exists_cons rfl
    have hassets : r.pathStarts "/assets/" = true :=
      Request.pathStarts_of_ne_nil hclean hsegs (mt hrest.mp (by simp)) (by decide)
    rw [hopen, hassets, Bool.or_true]

/-! ## The table above -/

/-- The top-level routes take every method. -/
theorem find_rootRoutes (enabled : Bool) (method : String) (path : List UInt8) :
    Route.find (rootRoutes enabled) method path = matchPath (segments path)
      ((rootRoutes enabled).map fun above => (above.path, above)) := by
  refine Route.find_of_method_eq_none ?_ method path
  revert enabled
  decide

/-- The top-level routes, with those of the dashboard if it is enabled. -/
theorem rootRoutes_eq (enabled : Bool) : rootRoutes enabled =
    [⟨none, [.lit "v1".utf8Bytes, .multi], .apiHandler⟩,
     ⟨none, [.lit "healthz".utf8Bytes], .apiHandler⟩,
     ⟨none, [.lit "readyz".utf8Bytes], .apiHandler⟩] ++
      if enabled then [⟨none, [.multi], .dashboard⟩] else [] := by
  revert enabled
  decide +kernel

/-- The routes of the API are found below the handler of the API. -/
theorem Api.find_rootRoutes {route : Route Api.Handler} (hroute : route ∈ Api.routes)
    (hmatch : Matches route.path (segments r.escapedPath) values) (enabled : Bool) :
    ∃ above, Route.find (rootRoutes enabled) r.method r.escapedPath = some (above, []) ∧
      above.handler = .apiHandler := by
  have hhealthz : "healthz".utf8Bytes ≠ "v1".utf8Bytes := by decide
  have hreadyz : "readyz".utf8Bytes ≠ "v1".utf8Bytes := by decide
  rw [Http.find_rootRoutes, rootRoutes_eq]
  -- a route below `/v1/`, or one of the two health checks
  rcases path_cases.1 route hroute with ⟨-, hhead, hlength⟩ | ⟨-, hpath | hpath⟩
  · obtain ⟨rest, hsegs, hrest⟩ := hmatch.exists_cons hhead
    obtain ⟨seg, rest, rfl⟩ := List.exists_cons_of_ne_nil (mt hrest.mp hlength)
    rw [hsegs]
    cases enabled <;> simp [matchPath, afterWord, afterWild, hhealthz, hreadyz]
  · rw [hpath] at hmatch
    obtain ⟨rest, hsegs, hrest⟩ := hmatch.exists_cons rfl
    rw [hsegs, hrest.mpr rfl]
    cases enabled <;> exact ⟨_, rfl, rfl⟩
  · rw [hpath] at hmatch
    obtain ⟨rest, hsegs, hrest⟩ := hmatch.exists_cons rfl
    rw [hsegs, hrest.mpr rfl]
    cases enabled <;> exact ⟨_, rfl, rfl⟩

/-- The routes of the dashboard are found below the handler of the dashboard. -/
theorem Web.find_rootRoutes {route : Route Web.Handler} (hroute : route ∈ Web.routes)
    (hmatch : Matches route.path (segments r.escapedPath) values) :
    ∃ above, Route.find (rootRoutes true) r.method r.escapedPath = some (above, []) ∧
      above.handler = .dashboard := by
  -- no route of the dashboard begins with a word of the API
  obtain ⟨word, hword, hhead⟩ :
      ∃ word ∈ "login".utf8Bytes :: "assets".utf8Bytes :: Web.closedWords,
        route.path.head? = some (.lit word) := by
    rcases path_cases.2 route hroute with ⟨-, word, hword, hhead⟩ | ⟨-, hpath | hpath⟩
    · exact ⟨word, by simp [hword], hhead⟩
    · exact ⟨"login".utf8Bytes, by simp, by rw [hpath]; rfl⟩
    · exact ⟨"assets".utf8Bytes, by simp, by rw [hpath]; rfl⟩
  obtain ⟨rest, hsegs, -⟩ := hmatch.exists_cons hhead
  have hother : ∀ word ∈ "login".utf8Bytes :: "assets".utf8Bytes :: Web.closedWords,
      "v1".utf8Bytes ≠ word ∧ "healthz".utf8Bytes ≠ word ∧ "readyz".utf8Bytes ≠ word := by decide
  obtain ⟨hv1, hhealthz, hreadyz⟩ := hother word hword
  rw [Http.find_rootRoutes, rootRoutes_eq, hsegs]
  simp [matchPath, afterWord, afterWild, hv1, hhealthz, hreadyz]

/-! ## When a handler is reached -/

variable {mac : List UInt8 → List UInt8 → List UInt8}

/-- A mux answers with a handler if it finds one that does. -/
theorem serveMux_eq_handle {H : Type} {routes : List (Route H)}
    {next : H → List (List UInt8) → Reply} {h : Handler} :
    serveMux routes r next = .handle h values ↔ ∃ h' values',
      Route.findHandler routes r.method r.escapedPath r.path = .handle h' values' ∧
        next h' values' = .handle h values := by
  unfold serveMux
  cases Route.findHandler routes r.method r.escapedPath r.path <;> simp

/-- What the API key check lets through. -/
theorem authMiddleware_eq_handle {keys : List String} {next : Reply} {h : Handler} :
    Api.authMiddleware keys r next = .handle h values ↔ next = .handle h values ∧
      (r.pathStarts "/v1/" = true → keys = [] ∨ r.apiKey ∈ keys) := by
  unfold Api.authMiddleware
  cases keys with
  | nil => simp
  | cons key keys =>
    cases r.pathStarts "/v1/"
    · simp
    · by_cases hkey : r.apiKey ∈ key :: keys <;> simp [hkey]

/-- What the session check lets through. -/
theorem requireAuth_eq_handle {auth : Option Web.Auth} {now : Int} {next : Reply} {h : Handler} :
    Web.requireAuth mac auth now r next = .handle h values ↔ next = .handle h values ∧
      ((r.pathStarts "/login" || r.pathStarts "/assets/") = true ∨
        Web.authenticated mac auth now r.cookies = true) := by
  unfold Web.requireAuth
  -- without users everything is let through
  cases auth with
  | none => simp [Web.authenticated]
  | some a =>
    cases r.pathStarts "/login" || r.pathStarts "/assets/"
    · cases Web.authenticated mac (some a) now r.cookies
      · by_cases hhx : r.hxRequest = "true" <;> simp [hhx]
      · simp
    · simp

/-- What the API serves. -/
theorem serves_api_iff {keys : List String} {h : Handler} :
    Api.authMiddleware keys r (serveMux Api.routes r fun h values => .handle (.api h) values)
        = .handle h values ↔
      cleanPath r.escapedPath = r.escapedPath ∧ ∃ route ∈ Api.routes, route.Accepts r.method ∧
        .api route.handler = h ∧ Matches route.path (segments r.escapedPath) values ∧
        (h.isOpen = true ∨ keys = [] ∨ r.apiKey ∈ keys) := by
  rw [authMiddleware_eq_handle, serveMux_eq_handle]
  -- on a clean path the check, which knows the path only, agrees with `isOpen`
  constructor
  · rintro ⟨⟨h', values', hfind, heq⟩, hcheck⟩
    cases heq
    obtain ⟨hclean, route, hroute, haccepts, rfl, hmatch⟩ :=
      (Route.findHandler_eq_handle_iff unambiguous_tables.1.1).mp hfind
    rw [Api.pathStarts_iff hroute hclean hmatch, Bool.not_eq_true'] at hcheck
    refine ⟨hclean, route, hroute, haccepts, rfl, hmatch, ?_⟩
    cases hopen : (Handler.api route.handler).isOpen
    · exact .inr (hcheck hopen)
    · exact .inl rfl
  · rintro ⟨hclean, route, hroute, haccepts, rfl, hmatch, hpermitted⟩
    refine ⟨⟨route.handler, values, ?_, rfl⟩, ?_⟩
    · exact (Route.findHandler_eq_handle_iff unambiguous_tables.1.1).mpr
        ⟨hclean, route, hroute, haccepts, rfl, hmatch⟩
    · rw [Api.pathStarts_iff hroute hclean hmatch, Bool.not_eq_true']
      intro hopen
      exact hpermitted.resolve_left (by simp [hopen])

/-- What the dashboard serves. -/
theorem serves_web_iff {auth : Option Web.Auth} {now : Int} {h : Handler} :
    Web.requireAuth mac auth now r (serveMux Web.routes r fun h values => .handle (.web h) values)
        = .handle h values ↔
      cleanPath r.escapedPath = r.escapedPath ∧ ∃ route ∈ Web.routes, route.Accepts r.method ∧
        .web route.handler = h ∧ Matches route.path (segments r.escapedPath) values ∧
        (h.isOpen = true ∨ Web.authenticated mac auth now r.cookies = true) := by
  rw [requireAuth_eq_handle, serveMux_eq_handle]
  -- on a clean path the check, which knows the path only, agrees with `isOpen`
  constructor
  · rintro ⟨⟨h', values', hfind, heq⟩, hcheck⟩
    cases heq
    obtain ⟨hclean, route, hroute, haccepts, rfl, hmatch⟩ :=
      (Route.findHandler_eq_handle_iff unambiguous_tables.1.2).mp hfind
    rw [Web.pathStarts_iff hroute hclean hmatch] at hcheck
    exact ⟨hclean, route, hroute, haccepts, rfl, hmatch, hcheck⟩
  · rintro ⟨hclean, route, hroute, haccepts, rfl, hmatch, hpermitted⟩
    refine ⟨⟨route.handler, values, ?_, rfl⟩, ?_⟩
    · exact (Route.findHandler_eq_handle_iff unambiguous_tables.1.2).mpr
        ⟨hclean, route, hroute, haccepts, rfl, hmatch⟩
    · rw [Web.pathStarts_iff hroute hclean hmatch]
      exact hpermitted

/-- The request has the method and the path of a route of this handler, with these values for the
    wildcards. -/
def Request.Fits (r : Request) : Handler → List (List UInt8) → Prop
  | .api h, values => ∃ route ∈ Api.routes, route.Accepts r.method ∧ route.handler = h ∧
      Matches route.path (segments r.escapedPath) values
  | .web h, values => ∃ route ∈ Web.routes, route.Accepts r.method ∧ route.handler = h ∧
      Matches route.path (segments r.escapedPath) values

namespace Server

/-- The server has this handler: the dashboard can be disabled. -/
def Offers (s : Server) : Handler → Prop
  | .api _ => True
  | .web _ => s.dashboard.isSome = true

/-- The request may reach this handler: it is open, or the request has a key of the API, if there
    are any, or a session of the dashboard, if it has users. -/
def Permits (mac : List UInt8 → List UInt8 → List UInt8) (s : Server) (now : Int) (r : Request) :
    Handler → Prop
  | .api h => (Handler.api h).isOpen = true ∨ s.apiKeys = [] ∨ r.apiKey ∈ s.apiKeys
  | .web h => (Handler.web h).isOpen = true ∨
      Web.authenticated mac s.dashboard.join now r.cookies = true

/-- The part of the server above a route that was found is not missing. -/
theorem isSome_of_dashboard {enabled : Bool} {above : Route Part}
    (hmem : above ∈ rootRoutes enabled) (habove : above.handler = .dashboard) : enabled = true := by
  have hnever : ∀ above ∈ rootRoutes false, above.handler ≠ .dashboard := by decide
  cases enabled
  · exact absurd habove (hnever above hmem)
  · rfl

/-- A handler is reached exactly by the requests that have a canonical path which fits one of its
    routes, if the server has it and the request may reach it. -/
theorem dispatch_eq_handle_iff {s : Server} {now : Int} {h : Handler} :
    s.dispatch mac now r = .handle h values ↔ cleanPath r.escapedPath = r.escapedPath ∧
      r.Fits h values ∧ s.Offers h ∧ s.Permits mac now r h := by
  rw [dispatch, serveMux_eq_handle]
  constructor
  · rintro ⟨part, above', hroot, hserve⟩
    -- the API and the dashboard have a check of their own each
    cases part with
    | apiHandler =>
      obtain ⟨hclean, route, hroute, haccepts, rfl, hmatch, hpermitted⟩ := serves_api_iff.mp hserve
      exact ⟨hclean, ⟨route, hroute, haccepts, rfl, hmatch⟩, trivial, hpermitted⟩
    | dashboard =>
      obtain ⟨hclean, route, hroute, haccepts, rfl, hmatch, hpermitted⟩ := serves_web_iff.mp hserve
      obtain ⟨-, -, above, hfind, habove⟩ := Route.findHandler_eq_handle.mp hroot
      exact ⟨hclean, ⟨route, hroute, haccepts, rfl, hmatch⟩,
        isSome_of_dashboard (Route.find_sound hfind).1 habove, hpermitted⟩
  · rintro ⟨hclean, hfits, hoffers, hpermits⟩
    cases h with
    | api h =>
      obtain ⟨route, hroute, haccepts, rfl, hmatch⟩ := hfits
      obtain ⟨above, hfind, habove⟩ := Api.find_rootRoutes hroute hmatch s.dashboard.isSome
      have hslash := Route.slashMissing_eq_false (unambiguous_tables.2 s.dashboard.isSome).1 hroute
        r.method hclean hmatch
      refine ⟨.apiHandler, [], Route.findHandler_eq_handle.mpr
        ⟨.inr hclean, hslash, above, hfind, habove⟩, serves_api_iff.mpr ?_⟩
      exact ⟨hclean, route, hroute, haccepts, rfl, hmatch, hpermits⟩
    | web h =>
      obtain ⟨route, hroute, haccepts, rfl, hmatch⟩ := hfits
      obtain ⟨above, hfind, habove⟩ := Web.find_rootRoutes hroute hmatch
      have hslash := Route.slashMissing_eq_false (unambiguous_tables.2 s.dashboard.isSome).2 hroute
        r.method hclean hmatch
      have henabled : s.dashboard.isSome = true := hoffers
      rw [henabled] at hslash ⊢
      refine ⟨.dashboard, [], Route.findHandler_eq_handle.mpr
        ⟨.inr hclean, hslash, above, hfind, habove⟩, serves_web_iff.mpr ?_⟩
      exact ⟨hclean, route, hroute, haccepts, rfl, hmatch, hpermits⟩

end Server

/-! ## Links -/

/-- The handler has a route with this method and pattern. -/
def Handler.HasRoute (method : String) (pattern : List Segment) : Handler → Prop
  | .api h => ⟨some method, pattern, h⟩ ∈ Api.routes
  | .web h => ⟨some method, pattern, h⟩ ∈ Web.routes

/-- No route has an empty pattern. -/
theorem Handler.HasRoute.ne_nil {h : Handler} {method : String} {pattern : List Segment}
    (hroute : h.HasRoute method pattern) : pattern ≠ [] := by
  rintro rfl
  cases h with
  | api h => rcases path_cases.1 _ hroute with h | h <;> simp at h
  | web h => rcases path_cases.2 _ hroute with h | h <;> simp at h

/-- The page of a job asks for its status under a link with the identifier of the job. -/
def statusLink : List (List UInt8) :=
  ["jobs", "job_000000000000000000000000", "status"].map String.utf8Bytes

def statusRequest : Request where
  method := "GET"
  escapedPath := ofWords statusLink
  path := ofWords statusLink
  decodes := by decide +kernel

/-- The environment asks for restricted access: it has a key that is not blank, and a user for the
    dashboard unless that is disabled. -/
def AccessEnv.restricted (env : AccessEnv) : Bool :=
  splitAndTrim env.apiKeys ≠ [] && (!env.dashboard || env.dashboardUser ≠ "")

theorem Web.newAuth_ne_none {cfg : Web.AuthConfig} {random : Option (List UInt8)} :
    Web.newAuth (some cfg) random ≠ .ok none := by
  cases random <;> simp only [Web.newAuth] <;> split_ifs <;> simp

namespace Server

/-- The request brings a key of the API, or a session of a user of the dashboard. -/
def trusts (mac : List UInt8 → List UInt8 → List UInt8) (s : Server) (visit : Int × Request) :
    Bool :=
  visit.2.apiKey ∈ s.apiKeys ||
    s.dashboard.join.any fun a => Web.authenticated mac (some a) visit.1 visit.2.cookies

/-- There are keys, and the dashboard has a user or is disabled. -/
structure Restricted (s : Server) : Prop where
  keys : s.apiKeys ≠ []
  users : s.dashboard ≠ some none

/-- No key in the environment is empty. -/
theorem apiKeys_splitAndTrim (csv : String) :
    Api.apiKeys (splitAndTrim csv) = splitAndTrim csv := by
  rw [Api.apiKeys, List.filter_eq_self]
  intro key hkey
  unfold splitAndTrim at hkey
  split_ifs at hkey
  · cases hkey
  · exact (List.mem_filter.mp hkey).2

/-- What the environment asks for is what the server does. -/
theorem restricted_of_start {env : AccessEnv} {random : Option (List UInt8)} {s : Server}
    (hstart : start env random = .ok s) (henv : env.restricted = true) : s.Restricted := by
  rw [AccessEnv.restricted, Bool.and_eq_true, decide_eq_true_eq] at henv
  obtain ⟨hkeys, husers⟩ := henv
  rw [start, apiKeys_splitAndTrim] at hstart
  -- without the dashboard only the keys matter
  cases hdashboard : env.dashboard
  · rw [hdashboard] at hstart
    cases hstart
    exact ⟨hkeys, by simp⟩
  · have huser : env.dashboardUser ≠ "" := by simpa [hdashboard] using husers
    simp only [hdashboard, Bool.not_true, Bool.false_eq_true, if_false, if_pos huser] at hstart
    split_ifs at hstart
    split at hstart
    · cases hstart
    · rename_i auth hauth
      cases hstart
      refine ⟨hkeys, fun hnone => Web.newAuth_ne_none (hauth.trans ?_)⟩
      rw [Option.some.inj hnone]

variable {s : Server} {σ : Type*} {effect : Handler → List (List UInt8) → Request → σ → σ}

/-- A request without a key or a session leaves the state alone. -/
theorem serve_of_not_trusts (hs : s.Restricted)
    (hopen : ∀ h, h.isOpen = true → ∀ values r state, effect h values r state = state)
    {visit : Int × Request} (hvisit : s.trusts mac visit = false) (state : σ) :
    s.serve mac effect state visit = state := by
  unfold serve
  split
  · rename_i h values hdispatch
    obtain ⟨-, -, hoffers, hpermits⟩ := dispatch_eq_handle_iff.mp hdispatch
    rw [trusts, Bool.or_eq_false_iff, decide_eq_false_iff_not] at hvisit
    obtain ⟨hkey, hsession⟩ := hvisit
    -- without a key and without a session only the open handlers are left
    cases h with
    | api h => exact hopen _ (hpermits.resolve_right (not_or.mpr ⟨hs.keys, hkey⟩)) _ _ _
    | web h =>
      obtain ⟨auth, hauth⟩ := Option.isSome_iff_exists.mp hoffers
      obtain ⟨a, rfl⟩ : ∃ a, auth = some a :=
        Option.ne_none_iff_exists'.mp fun hnone => hs.users (by rw [hauth, hnone])
      rw [Permits, hauth] at hpermits
      rw [hauth] at hsession
      exact hopen _ (hpermits.resolve_right (by simpa using hsession)) _ _ _
  · rfl

/-- Requests without a key or a session make no difference: the state after any sequence of requests
    is that after those with one. -/
theorem foldl_serve_trusted {env : AccessEnv} {random : Option (List UInt8)}
    (hstart : start env random = .ok s) (henv : env.restricted = true)
    (hopen : ∀ h, h.isOpen = true → ∀ values r state, effect h values r state = state)
    (visits : List (Int × Request)) (state : σ) : visits.foldl (s.serve mac effect) state =
      (visits.filter (s.trusts mac)).foldl (s.serve mac effect) state := by
  have hs := restricted_of_start hstart henv
  induction visits generalizing state with
  | nil => rfl
  | cons visit visits ih =>
    cases hvisit : s.trusts mac visit
    · rw [List.filter_cons_of_neg (by simp [hvisit]), List.foldl_cons,
        serve_of_not_trusts hs hopen hvisit, ih]
    · rw [List.filter_cons_of_pos hvisit, List.foldl_cons, List.foldl_cons, ih]

/-- An environment with a key and a user. -/
def sampleEnv : AccessEnv where
  apiKeys := " k1 , "
  dashboardUser := "admin"
  dashboardPassword := "pw"
  sessionSecret := "s"

def sampleServer : Server where
  apiKeys := ["k1"]
  dashboard := some (some
    { username := "admin"
      password := "pw"
      secret := "s".utf8Bytes
      ttl := Web.defaultSessionTTL
      secureCookie := false })

/-- A request to create a job. -/
def createJob (key : String) : Request where
  method := "POST"
  escapedPath := "/v1/jobs".utf8Bytes
  path := "/v1/jobs".utf8Bytes
  decodes := by decide +kernel
  apiKey := key

/-- A log of the handlers that were reached, but for the open ones. -/
def logHandler (h : Handler) (_ : List (List UInt8)) (_ : Request) (log : List Handler) :
    List Handler :=
  if h.isOpen then log else log ++ [h]

/-- Two requests for a new job, one of them with a key. -/
theorem foldl_serve_createJob : start sampleEnv none = .ok sampleServer ∧
    sampleEnv.restricted = true ∧
    [(0, createJob ""), (0, createJob "k1")].foldl
        (sampleServer.serve (fun _ _ => []) logHandler) [] =
      ([(0, createJob ""), (0, createJob "k1")].filter (sampleServer.trusts fun _ _ => [])).foldl
        (sampleServer.serve (fun _ _ => []) logHandler) [] := by
  have hstart : start sampleEnv none = .ok sampleServer := by decide +kernel
  have henv : sampleEnv.restricted = true := by decide +kernel
  have hopen : ∀ h : Handler, h.isOpen = true →
      ∀ values r log, logHandler h values r log = log := by
    intro h hopen values r log
    rw [logHandler, if_pos hopen]
  exact ⟨hstart, henv, foldl_serve_trusted hstart henv hopen _ _⟩

end Server

end Rcptto.Native.Http
