import Rcptto.ForStd.UrlPath

/-!
# Choosing a handler by method and path

A table of routes, each with a pattern for the segments of a path and possibly a method. A pattern
is a sequence of words, of wildcards for one segment, and at its end of a wildcard for all that
follows. The table is searched from the first segment on: for a segment the patterns that go on with
that word come before those that go on with a wildcard. Paths that are not canonical are redirected,
and so is a path for which only the one with a slash at the end has a route.

## Key results

- `matchPath_sound`, `isSome_matchPath`: what the search returns matches, and it finds what matches
- `find_eq_some_of_unique`: the only route that matches is found
- `findHandler_eq_handle_iff`: when a handler is reached
-/

namespace Routing

open UrlPath

/-! ## Patterns -/

/-- A part of a pattern. -/
inductive Segment where
  | lit (word : Bytes)
  | wild
  | multi
  deriving DecidableEq

/-- The part of a pattern that is written like this. -/
def parseSegment (part : List Char) : Segment :=
  if part = "{$}".toList then .lit [slash]
  else if part.head? = some '{' then .wild
  else .lit (part.map fun c => c.toUInt8)

/-- The parts of a pattern between its slashes. Nothing after the last slash stands for all that
    follows. -/
def parseSegments : List (List Char) → List Segment
  | [] => []
  | [part] => [if part = [] then .multi else parseSegment part]
  | part :: next :: parts => parseSegment part :: parseSegments (next :: parts)

/-- What a wildcard records of a segment; an empty one leaves nothing. -/
def captured (seg : Bytes) : List Bytes := if seg = [] then [] else [seg]

/-- A pattern matches the segments of a path, with these values for its wildcards. -/
inductive Matches : List Segment → List Bytes → List Bytes → Prop where
  | nil : Matches [] [] []
  | lit {word : Bytes} {pattern : List Segment} {segs values : List Bytes} :
      Matches pattern segs values → Matches (.lit word :: pattern) (word :: segs) values
  | wild {seg : Bytes} {pattern : List Segment} {segs values : List Bytes} : seg ≠ [slash] →
      Matches pattern segs values →
        Matches (.wild :: pattern) (seg :: segs) (captured seg ++ values)
  | multi {seg : Bytes} {segs : List Bytes} : Matches [.multi] (seg :: segs) []

/-- The values are determined by the pattern and the path. -/
theorem Matches.values_unique {pattern : List Segment} {segs values values' : List Bytes}
    (h : Matches pattern segs values) (h' : Matches pattern segs values') : values = values' := by
  induction h generalizing values' with
  | nil => cases h'; rfl
  | lit _ ih => cases h' with | lit h' => exact ih h'
  | wild _ _ ih => cases h' with | wild _ h' => rw [ih h']
  | multi => cases h'; rfl

/-- Some path can match both patterns. -/
def overlap : List Segment → List Segment → Bool
  | [], [] => true
  | .lit a :: p, .lit b :: q => a = b && overlap p q
  | .lit a :: p, .wild :: q => a ≠ [slash] && overlap p q
  | .wild :: p, .lit b :: q => b ≠ [slash] && overlap p q
  | .wild :: p, .wild :: q => overlap p q
  | .multi :: _, _ :: _ => true
  | _ :: _, .multi :: _ => true
  | _, _ => false

/-- A pattern that begins with a word matches paths that do. -/
theorem Matches.exists_cons {pattern : List Segment} {segs values : List Bytes} {word : Bytes}
    (h : Matches pattern segs values) (hhead : pattern.head? = some (.lit word)) :
    ∃ rest, segs = word :: rest ∧ (rest = [] ↔ pattern.length = 1) := by
  cases h with
  | nil | wild | multi => cases hhead
  | @lit _ _ segs _ h =>
    cases hhead
    refine ⟨segs, rfl, ?_⟩
    cases h <;> simp

/-- Two patterns that match the same path overlap. -/
theorem Matches.overlap {p q : List Segment} {segs values values' : List Bytes}
    (hp : Matches p segs values) (hq : Matches q segs values') : overlap p q = true := by
  -- both patterns are read along the path
  induction hp generalizing q values' with
  | nil => cases hq; rfl
  | lit _ ih =>
    cases hq with
    | lit hq => simp [Routing.overlap, ih hq]
    | wild hne hq => simp [Routing.overlap, hne, ih hq]
    | multi => rfl
  | wild hne _ ih =>
    cases hq with
    | lit hq => simp [Routing.overlap, hne, ih hq]
    | wild _ hq => simp [Routing.overlap, ih hq]
    | multi => rfl
  | multi =>
    cases hq <;> rfl

/-- What is left of a pattern for paths with a slash at the end when that slash is taken away. -/
def stem : List Segment → Option (List Segment)
  | [] => none
  | [seg] => if seg = .multi ∨ seg = .lit [slash] then some [] else none
  | seg :: next :: pattern => (stem (next :: pattern)).map (seg :: ·)

theorem stem_cons {seg : Segment} {pattern init : List Segment} (h : stem pattern = some init) :
    stem (seg :: pattern) = some (seg :: init) := by
  cases pattern with
  | nil => cases h
  | cons => rw [stem, h, Option.map_some]

/-- If a pattern matches a path with a slash at the end and nothing follows, what is left of it
    matches the path without the slash. -/
theorem Matches.exists_stem {pattern : List Segment} {segs values : List Bytes}
    (h : Matches pattern (segs ++ [[slash]]) values)
    (hexact : pattern.getLast? = some .multi → pattern.length = segs.length + 1) :
    ∃ init, stem pattern = some init ∧ Matches init segs values := by
  induction segs generalizing pattern values with
  | nil =>
    cases h with
    | lit h => cases h; exact ⟨[], by simp [stem], .nil⟩
    | wild hne _ => exact absurd rfl hne
    | multi => exact ⟨[], by simp [stem], .nil⟩
  | cons seg segs ih =>
    -- the rest of the pattern ends as the pattern does
    have hrest : ∀ first rest, pattern = first :: rest → rest.getLast? = some .multi →
        rest.length = segs.length + 1 := by
      rintro first rest rfl hlast
      have hne : rest ≠ [] := by
        rintro rfl
        cases hlast
      have := hexact (by rw [List.getLast?_cons_of_ne_nil hne, hlast])
      simpa using this
    cases h with
    | lit h =>
      obtain ⟨init, hstem, hinit⟩ := ih h (hrest _ _ rfl)
      exact ⟨_, stem_cons hstem, .lit hinit⟩
    | wild hne h =>
      obtain ⟨init, hstem, hinit⟩ := ih h (hrest _ _ rfl)
      exact ⟨_, stem_cons hstem, .wild hne hinit⟩
    | multi => simpa using hexact rfl

/-- The words of a path that is written from a pattern, with these values for its wildcards. -/
def fill : List Segment → List Bytes → Option (List Bytes)
  | [], [] => some []
  | .lit word :: pattern, values => (fill pattern values).map (word :: ·)
  | .wild :: pattern, value :: values => (fill pattern values).map (value :: ·)
  | _, _ => none

/-- The pattern matches the path that is written from it. -/
theorem matches_fill {pattern : List Segment} {values words : List Bytes}
    (h : fill pattern values = some words) (hplain : ∀ w ∈ words, Plain w) :
    Matches pattern words values := by
  induction pattern, values using fill.induct generalizing words with
  | case1 => cases h; exact .nil
  | case2 word pattern values ih =>
    obtain ⟨rest, hrest, rfl⟩ := Option.map_eq_some_iff.mp h
    exact .lit (ih hrest fun w hw => hplain w (List.mem_cons_of_mem _ hw))
  | case3 pattern value values ih =>
    obtain ⟨rest, hrest, rfl⟩ := Option.map_eq_some_iff.mp h
    have hvalue := hplain value List.mem_cons_self
    -- a plain value is not the segment for a slash at the end
    have hne : value ≠ [slash] := by
      rintro rfl
      exact hvalue.slash_notMem List.mem_cons_self
    have hmatch := ih hrest fun w hw => hplain w (List.mem_cons_of_mem _ hw)
    simpa [captured, hvalue.ne_nil] using Matches.wild hne hmatch
  | case4 => simp [fill] at h

/-- A pattern with segments is filled with words. -/
theorem ne_nil_of_fill {pattern : List Segment} {values words : List Bytes}
    (h : fill pattern values = some words) (hne : pattern ≠ []) : words ≠ [] := by
  rintro rfl
  cases pattern with
  | nil => exact hne rfl
  | cons seg pattern => cases seg <;> cases values <;> simp [fill] at h

/-! ## The search -/

section Search

variable {R : Type*}

/-- The patterns that go on with this word, without it. -/
def afterWord (seg : Bytes) (entries : List (List Segment × R)) : List (List Segment × R) :=
  entries.filterMap fun
    | (.lit word :: pattern, r) => if word = seg then some (pattern, r) else none
    | _ => none

/-- The patterns that go on with a wildcard, without it. -/
def afterWild (entries : List (List Segment × R)) : List (List Segment × R) :=
  entries.filterMap fun
    | (.wild :: pattern, r) => some (pattern, r)
    | _ => none

/-- Search for the segments of a path. -/
def matchPath : List Bytes → List (List Segment × R) → Option (R × List Bytes)
  | [], entries => (entries.find? (·.1.isEmpty)).map fun e => (e.2, [])
  | seg :: segs, entries =>
    (matchPath segs (afterWord seg entries)).or
      ((if seg = [slash] then none
        else (matchPath segs (afterWild entries)).map fun m => (m.1, captured seg ++ m.2)).or
      ((entries.find? (·.1 = [.multi])).map fun e => (e.2, [])))

@[simp] theorem matchPath_nil (segs : List Bytes) : matchPath (R := R) segs [] = none := by
  induction segs with
  | nil => rfl
  | cons seg segs ih => simp [matchPath, afterWord, afterWild, ih]

/-- The entries that go on after a word. -/
theorem mem_afterWord {seg : Bytes} {entries : List (List Segment × R)} {pattern : List Segment}
    {r : R} : (pattern, r) ∈ afterWord seg entries ↔ (.lit seg :: pattern, r) ∈ entries := by
  constructor
  · intro h
    obtain ⟨⟨p, r'⟩, hmem, he⟩ := List.mem_filterMap.mp h
    split at he
    · split_ifs at he with hword
      cases he
      cases hword
      simp_all
    · cases he
  · intro h
    exact List.mem_filterMap.mpr ⟨_, h, by simp⟩

/-- The entries that go on after a wildcard. -/
theorem mem_afterWild {entries : List (List Segment × R)} {pattern : List Segment} {r : R} :
    (pattern, r) ∈ afterWild entries ↔ (.wild :: pattern, r) ∈ entries := by
  constructor
  · intro h
    obtain ⟨⟨p, r'⟩, hmem, he⟩ := List.mem_filterMap.mp h
    split at he
    · cases he
      simp_all
    · cases he
  · intro h
    exact List.mem_filterMap.mpr ⟨_, h, rfl⟩

/-- What the search returns is in the table and matches. -/
theorem matchPath_sound {segs values : List Bytes} {entries : List (List Segment × R)} {r : R}
    (h : matchPath segs entries = some (r, values)) :
    ∃ pattern, (pattern, r) ∈ entries ∧ Matches pattern segs values := by
  -- the word is tried first, then a wildcard, then a pattern for all that is left
  induction segs generalizing entries values with
  | nil =>
    obtain ⟨⟨p, r'⟩, hfind, he⟩ := Option.map_eq_some_iff.mp h
    cases he
    have hnil : p = [] := by simpa using List.find?_some hfind
    exact ⟨p, List.mem_of_find?_eq_some hfind, hnil ▸ .nil⟩
  | cons seg segs ih =>
    rw [matchPath, Option.or_eq_some_iff] at h
    rcases h with h | ⟨-, h⟩
    · obtain ⟨pattern, hmem, hmatch⟩ := ih h
      exact ⟨_, mem_afterWord.mp hmem, .lit hmatch⟩
    rw [Option.or_eq_some_iff] at h
    rcases h with h | ⟨-, h⟩
    · split_ifs at h with hslash
      obtain ⟨⟨r', values'⟩, hrest, he⟩ := Option.map_eq_some_iff.mp h
      cases he
      obtain ⟨pattern, hmem, hmatch⟩ := ih hrest
      exact ⟨_, mem_afterWild.mp hmem, .wild hslash hmatch⟩
    · obtain ⟨⟨p, r'⟩, hfind, he⟩ := Option.map_eq_some_iff.mp h
      cases he
      have hmulti : p = [.multi] := by simpa using List.find?_some hfind
      exact ⟨p, List.mem_of_find?_eq_some hfind, hmulti ▸ .multi⟩

/-- The search finds something if something matches. -/
theorem isSome_matchPath {pattern : List Segment} {segs values : List Bytes}
    (h : Matches pattern segs values) {entries : List (List Segment × R)} {r : R}
    (hmem : (pattern, r) ∈ entries) : (matchPath segs entries).isSome = true := by
  -- the pattern stays among the entries as the path is read
  induction h generalizing entries with
  | nil =>
    rw [matchPath, Option.isSome_map, List.find?_isSome]
    exact ⟨_, hmem, rfl⟩
  | lit _ ih => simp [matchPath, ih (mem_afterWord.mpr hmem)]
  | wild hne _ ih => simp [matchPath, hne, ih (mem_afterWild.mpr hmem)]
  | multi =>
    have hfind : (entries.find? (·.1 = [.multi])).isSome = true := by
      rw [List.find?_isSome]
      exact ⟨_, hmem, by simp⟩
    simp only [matchPath, Option.isSome_or, Option.isSome_map, hfind, Bool.or_true]

end Search

/-! ## Tables of routes -/

/-- A route. Without a method it takes requests of every method. -/
structure Route (H : Type*) where
  method : Option String
  path : List Segment
  handler : H
  deriving DecidableEq

/-- The route with a pattern that is written like this, `METHOD /path` or `/path`. -/
def Route.parse {H : Type*} (pattern : String) (handler : H) : Route H :=
  let (method, path) :=
    match pattern.toList.span (· ≠ ' ') with
    | (method, _ :: path) => (some (String.ofList method), path)
    | (path, []) => (none, path)
  { method := method
    path := parseSegments (path.tail.splitOn '/')
    handler := handler }

/-- What comes of a request: a redirect to a path, an error, or a handler with the values of the
    wildcards. -/
inductive Outcome (H : Type*) where
  | redirect (path : Bytes)
  | methodNotAllowed
  | notFound
  | handle (handler : H) (values : List Bytes)
  deriving DecidableEq

namespace Route

variable {H : Type*}

/-- The route takes requests of this method. A route for `GET` takes those of `HEAD` too. -/
def Accepts (r : Route H) (method : String) : Prop :=
  r.method = some method ∨ (method = "HEAD" ∧ r.method = some "GET") ∨ r.method = none

/-- The routes with this method, or without one. -/
def entries (routes : List (Route H)) (method : Option String) : List (List Segment × Route H) :=
  (routes.filter (·.method = method)).map fun r => (r.path, r)

/-- The route for a method and a path, and the values of its wildcards. -/
def find (routes : List (Route H)) (method : String) (path : Bytes) :
    Option (Route H × List Bytes) :=
  (matchPath (segments path) (entries routes (some method))).or
    ((if method = "HEAD" then matchPath (segments path) (entries routes (some "GET"))
      else none).or
    (matchPath (segments path) (entries routes none)))

/-- The route does not match more than it says: if it ends with a wildcard for all that follows,
    nothing follows. -/
def exactMatch (r : Route H) (path : Bytes) : Bool :=
  if r.path.getLast? ≠ some .multi then true
  else path.getLast? = some slash && r.path.length = path.count slash

/-- Only the path with a slash at the end has a route of its own. -/
def slashMissing (routes : List (Route H)) (method : String) (path : Bytes) : Bool :=
  !((find routes method path).any fun m => m.1.exactMatch path) &&
    path.getLast? ≠ some slash && path ≠ [] &&
    (find routes method (path ++ [slash])).any fun m => m.1.exactMatch (path ++ [slash])

/-- Some route with a method matches the path. -/
def methodMissing (routes : List (Route H)) (path : Bytes) : Bool :=
  routes.any fun r => r.method.isSome && (matchPath (segments path) [(r.path, r)]).isSome

/-- What comes of a request for a path, given as it was sent and decoded. -/
def findHandler (routes : List (Route H)) (method : String) (escapedPath path : Bytes) :
    Outcome H :=
  let clean := if method = "CONNECT" then escapedPath else cleanPath escapedPath
  if slashMissing routes method clean then .redirect (cleanPath path ++ [slash])
  else if clean ≠ escapedPath then .redirect clean
  else
    match find routes method clean with
    | some (r, values) => .handle r.handler values
    | none =>
      if methodMissing routes clean ||
          (clean.getLast? ≠ some slash && methodMissing routes (clean ++ [slash])) then
        .methodNotAllowed
      else .notFound

theorem mem_entries {routes : List (Route H)} {method : Option String} {pattern : List Segment}
    {r : Route H} : (pattern, r) ∈ entries routes method ↔
      r ∈ routes ∧ r.method = method ∧ r.path = pattern := by
  simp only [entries, List.mem_map, List.mem_filter, Prod.mk.injEq, decide_eq_true_eq]
  grind

/-- The route that is found takes the method and matches the path. -/
theorem find_sound {routes : List (Route H)} {method : String} {path : Bytes} {r : Route H}
    {values : List Bytes} (h : find routes method path = some (r, values)) :
    r ∈ routes ∧ r.Accepts method ∧ Matches r.path (segments path) values := by
  have hkey : ∀ key, matchPath (segments path) (entries routes key) = some (r, values) →
      r ∈ routes ∧ r.method = key ∧ Matches r.path (segments path) values := by
    intro key hfound
    obtain ⟨pattern, hmem, hmatch⟩ := matchPath_sound hfound
    obtain ⟨hr, hmethod, rfl⟩ := mem_entries.mp hmem
    exact ⟨hr, hmethod, hmatch⟩
  rw [find, Option.or_eq_some_iff, Option.or_eq_some_iff] at h
  -- the method itself, `GET` in the place of `HEAD`, or any method
  rcases h with h | ⟨-, h | ⟨-, h⟩⟩
  · obtain ⟨hr, hmethod, hmatch⟩ := hkey _ h
    exact ⟨hr, .inl hmethod, hmatch⟩
  · split_ifs at h with hhead
    obtain ⟨hr, hmethod, hmatch⟩ := hkey _ h
    exact ⟨hr, .inr (.inl ⟨hhead, hmethod⟩), hmatch⟩
  · obtain ⟨hr, hmethod, hmatch⟩ := hkey _ h
    exact ⟨hr, .inr (.inr hmethod), hmatch⟩

/-- In a table without methods only the path matters. -/
theorem find_of_method_eq_none {routes : List (Route H)} (h : ∀ r ∈ routes, r.method = none)
    (method : String) (path : Bytes) :
    find routes method path = matchPath (segments path) (routes.map fun r => (r.path, r)) := by
  have hsome : ∀ key, entries routes (some key) = [] := by
    intro key
    rw [entries, List.filter_eq_nil_iff.mpr, List.map_nil]
    intro r hr
    simp [h r hr]
  have hnone : entries routes none = routes.map fun r => (r.path, r) := by
    rw [entries, List.filter_eq_self.mpr]
    intro r hr
    simp [h r hr]
  simp [find, hsome, hnone]

/-- The only route that takes the method and matches the path is found. -/
theorem find_eq_some_of_unique {routes : List (Route H)} {method : String} {path : Bytes}
    {r : Route H} {values : List Bytes} (hr : r ∈ routes) (hmethod : r.Accepts method)
    (hmatch : Matches r.path (segments path) values)
    (hunique : ∀ r' ∈ routes, ∀ values', r'.Accepts method →
      Matches r'.path (segments path) values' → r' = r) :
    find routes method path = some (r, values) := by
  have hsome : (find routes method path).isSome = true := by
    have hentry := isSome_matchPath hmatch (mem_entries.mpr ⟨hr, rfl, rfl⟩)
    rcases hmethod with h | ⟨hhead, h⟩ | h <;> rw [h] at hentry
    · simp [find, hentry]
    · simp [find, hhead, hentry]
    · simp [find, hentry]
  -- something is found, and it can only be this route
  obtain ⟨⟨r', values'⟩, hfound⟩ := Option.isSome_iff_exists.mp hsome
  obtain ⟨hr', hmethod', hmatch'⟩ := find_sound hfound
  obtain rfl := hunique r' hr' values' hmethod' hmatch'
  rw [hfound, hmatch.values_unique hmatch']

/-- A path for which only the one with a slash at the end has a route. -/
theorem exists_stem_of_slashMissing {routes : List (Route H)} {method : String} {p : Bytes}
    (h : slashMissing routes method (slash :: p) = true) : ∃ r ∈ routes, r.Accepts method ∧
      ∃ init values, stem r.path = some init ∧ Matches init (segments (slash :: p)) values := by
  simp only [slashMissing, Bool.and_eq_true, decide_eq_true_eq, Option.any_eq_true] at h
  obtain ⟨⟨⟨-, hlast⟩, -⟩, ⟨r, values⟩, hfound, hexact⟩ := h
  obtain ⟨hr, hmethod, hmatch⟩ := find_sound hfound
  rw [List.cons_append, segments_append_slash hlast] at hmatch
  obtain ⟨init, hstem, hinit⟩ := hmatch.exists_stem fun hmulti => by
    rw [exactMatch, if_neg (by simp [hmulti])] at hexact
    simp only [Bool.and_eq_true, decide_eq_true_eq] at hexact
    rw [hexact.2, List.count_append, length_segments, List.count_singleton_self]
  exact ⟨r, hr, hmethod, init, values, hstem, hinit⟩

/-- A handler is found on a clean path that no redirection applies to. -/
theorem findHandler_eq_handle {routes : List (Route H)} {method : String} {escapedPath path : Bytes}
    {h : H} {values : List Bytes} : findHandler routes method escapedPath path = .handle h values ↔
      (method = "CONNECT" ∨ cleanPath escapedPath = escapedPath) ∧
      slashMissing routes method escapedPath = false ∧
      ∃ r, find routes method escapedPath = some (r, values) ∧ r.handler = h := by
  have hclean : (if method = "CONNECT" then escapedPath else cleanPath escapedPath) = escapedPath ↔
      method = "CONNECT" ∨ cleanPath escapedPath = escapedPath := by
    split_ifs with hconnect <;> simp [hconnect]
  rw [← hclean, findHandler]
  generalize (if method = "CONNECT" then escapedPath else cleanPath escapedPath) = clean
  -- no handler is returned for a path that is not clean
  by_cases heq : clean = escapedPath
  · subst heq
    cases hslash : slashMissing routes method clean
    · cases hfind : find routes method clean with
      | none => grind
      | some m => simp [Prod.ext_iff, and_comm]
    · simp
  · grind

section Tables

/-- Every route has a method, and none of those that the search treats in a way of their own. -/
def Plain (routes : List (Route H)) : Prop :=
  ∀ r ∈ routes, r.method ≠ none ∧ r.method ≠ some "HEAD" ∧ r.method ≠ some "CONNECT"

/-- No path matches two routes with one method. -/
def Separated (routes : List (Route H)) : Prop :=
  ∀ r ∈ routes, ∀ r' ∈ routes, r.method = r'.method → overlap r.path r'.path = true → r = r'

/-- No path that matches a route of the first table lacks a slash for one of the second. -/
def Slashed {K : Type*} (routes : List (Route H)) (routes' : List (Route K)) : Prop :=
  ∀ r ∈ routes, ∀ r' ∈ routes', (stem r'.path).all (!overlap r.path ·) = true

/-- A path that a route matches is not redirected to one with a slash. -/
theorem slashMissing_eq_false {K : Type*} {routes : List (Route H)} {routes' : List (Route K)}
    (hslashed : Slashed routes routes') {r : Route H} (hr : r ∈ routes) (method : String)
    {path : Bytes} (hclean : cleanPath path = path) {values : List Bytes}
    (hmatch : Matches r.path (segments path) values) :
    slashMissing routes' method path = false := by
  obtain ⟨p, rfl⟩ : ∃ p, path = slash :: p := hclean ▸ exists_cleanPath path
  rw [← Bool.not_eq_true]
  intro hmissing
  obtain ⟨r', hr', -, init, values', hstem, hinit⟩ := exists_stem_of_slashMissing hmissing
  have hall := hslashed r hr r' hr'
  rw [hstem, Option.all_some, hmatch.overlap hinit] at hall
  cases hall

/-- A table where the order of the search does not matter. -/
structure Unambiguous (routes : List (Route H)) : Prop where
  plain : Plain routes
  separated : Separated routes
  slashed : Slashed routes routes

instance {K : Type*} (routes : List (Route H)) (routes' : List (Route K)) :
    Decidable (Slashed routes routes') :=
  inferInstanceAs (Decidable (∀ r ∈ routes, ∀ r' ∈ routes', _))

instance [DecidableEq H] (routes : List (Route H)) : Decidable (Unambiguous routes) :=
  have : Decidable (Plain routes) := inferInstanceAs (Decidable (∀ r ∈ routes, _))
  have : Decidable (Separated routes) :=
    inferInstanceAs (Decidable (∀ r ∈ routes, ∀ r' ∈ routes, _))
  decidable_of_iff (Plain routes ∧ Separated routes ∧ Slashed routes routes)
    ⟨fun h => ⟨h.1, h.2.1, h.2.2⟩, fun h => ⟨h.plain, h.separated, h.slashed⟩⟩

/-- A handler of such a table is reached exactly by the canonical paths that match its pattern. -/
theorem findHandler_eq_handle_iff {routes : List (Route H)} (hroutes : Unambiguous routes)
    {method : String} {escapedPath path : Bytes} {h : H} {values : List Bytes} :
    findHandler routes method escapedPath path = .handle h values ↔
      cleanPath escapedPath = escapedPath ∧ ∃ r ∈ routes, r.Accepts method ∧ r.handler = h ∧
        Matches r.path (segments escapedPath) values := by
  have hconnect : ∀ r ∈ routes, r.Accepts method → method ≠ "CONNECT" := by
    rintro r hr haccepts rfl
    obtain ⟨hnone, -, hmethod⟩ := hroutes.plain r hr
    rcases haccepts with h | ⟨h, -⟩ | h
    · exact hmethod h
    · exact absurd h (by decide)
    · exact hnone h
  -- all routes that accept the method are kept under one key
  have hkey : ∀ r ∈ routes, r.Accepts method →
      r.method = some (if method = "HEAD" then "GET" else method) := by
    intro r hr haccepts
    obtain ⟨hnone, hhead, -⟩ := hroutes.plain r hr
    rcases haccepts with h | ⟨rfl, h⟩ | h
    · rw [h, if_neg]
      rintro rfl
      exact hhead h
    · rw [h, if_pos rfl]
    · exact absurd h hnone
  rw [findHandler_eq_handle]
  constructor
  · rintro ⟨hclean, -, r, hfind, rfl⟩
    obtain ⟨hr, haccepts, hmatch⟩ := find_sound hfind
    exact ⟨hclean.resolve_left (hconnect r hr haccepts), r, hr, haccepts, rfl, hmatch⟩
  · rintro ⟨hclean, r, hr, haccepts, rfl, hmatch⟩
    refine ⟨.inr hclean, slashMissing_eq_false hroutes.slashed hr method hclean hmatch, r, ?_, rfl⟩
    refine find_eq_some_of_unique hr haccepts hmatch fun r' hr' values' haccepts' hmatch' => ?_
    exact hroutes.separated r' hr' r hr ((hkey r' hr' haccepts').trans (hkey r hr haccepts).symm)
      (hmatch'.overlap hmatch)

end Tables

end Route

end Routing
