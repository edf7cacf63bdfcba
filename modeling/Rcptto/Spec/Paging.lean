import Rcptto.Native.JobStore

/-!
# Paging through results

A client of the memory store asks for the results of a job page by page, with the cursor that the
last page came with, while others call the store as they like. The results that it gets are those
of the job at its last request.

## Key results

- `page_eq`: a page of the memory store
- `Paging.Pages.upTo`: what a client has after some requests
- `Paging.pages_exact`: what it has in the end, and that an export ends
-/

namespace Rcptto.Native

variable {F : Type}

/-! ## Calls of others -/

/-- The store after some calls, each at its time. -/
def MemoryJobs.execAll (s : MemoryJobs F) (calls : List (Int × JobCall F)) : MemoryJobs F :=
  calls.foldl (fun s call => (s.exec call.1 call.2).2) s

/-- The store at the `n`-th request of a client, if `calls n` are the calls of others since the
    request before. A request changes nothing (`MemoryJobs.exec_results`). -/
def MemoryJobs.atRequest (s : MemoryJobs F) (calls : Nat → List (Int × JobCall F)) :
    Nat → MemoryJobs F
  | 0 => s.execAll (calls 0)
  | n + 1 => (s.atRequest calls n).execAll (calls (n + 1))

/-- The results of a job. -/
def MemoryJobs.resultsOf (s : MemoryJobs F) (id : String) : List (JobResult F) :=
  match s id with
  | none => []
  | some e => e.results

/-- What happens to a memory store while a client pages through the results of a job. The job is
    there and is not created again, and its results fit into memory: with more than one byte each
    there are less than `2 ^ 62`. -/
structure Paging (F : Type) where
  store : MemoryJobs F
  id : String
  calls : Nat → List (Int × JobCall F)
  found : store id ≠ none
  kept : ∀ n, ∀ call ∈ calls n, ∀ job, call.2 = .createJob job → job.id ≠ id
  fits : ∀ n, ((store.atRequest calls n).resultsOf id).length < 2 ^ 62

namespace MemoryJobs

variable {s : MemoryJobs F} {id : String}

/-- The results after one entry is written. -/
theorem resultsOf_update (s : MemoryJobs F) (id id' : String) (e : StoredEntry F) :
    resultsOf (Function.update s id' (some e)) id =
      if id = id' then e.results else s.resultsOf id := by
  unfold resultsOf
  rw [Function.update_apply]
  by_cases h : id = id'
  · rw [if_pos h, if_pos h]
  · rw [if_neg h, if_neg h]

/-- A write drops no entry. -/
theorem update_ne_none (h : s id ≠ none) (id' : String) (e : StoredEntry F) :
    Function.update s id' (some e) id ≠ none := by
  rw [Function.update_apply]
  split
  · exact Option.some_ne_none e
  · exact h

theorem resultsOf_eq {e : StoredEntry F} (h : s id = some e) : s.resultsOf id = e.results := by
  rw [resultsOf, h]

/-- An update of an entry that loses no result. -/
theorem update_grows (hfound : s id ≠ none) {id' : String} {e e' : StoredEntry F}
    (hentry : s id' = some e) (hresults : e.results <+: e'.results) :
    Function.update s id' (some e') id ≠ none ∧
      s.resultsOf id <+: resultsOf (Function.update s id' (some e')) id := by
  refine ⟨update_ne_none hfound _ _, ?_⟩
  rw [resultsOf_update]
  split
  · next heq =>
    rw [heq, resultsOf_eq hentry]
    exact hresults
  · exact List.prefix_rfl

/-- A call leaves the job there, with more results at most. -/
theorem exec_grows (hfound : s id ≠ none) (now : Int) {call : JobCall F}
    (hkept : ∀ job, call = .createJob job → job.id ≠ id) :
    (s.exec now call).2 id ≠ none ∧ s.resultsOf id <+: (s.exec now call).2.resultsOf id := by
  -- what a call of a job that is not there does, and what one does that only reads
  have hsame : s id ≠ none ∧ s.resultsOf id <+: s.resultsOf id := ⟨hfound, List.prefix_rfl⟩
  cases call with
  | createJob job =>
    refine ⟨update_ne_none hfound _ _, ?_⟩
    rw [exec, resultsOf_update, if_neg (hkept job rfl).symm]
  | getJob id' =>
    rw [exec]
    cases s id' <;> exact hsame
  | appendResult id' r =>
    rw [exec]
    cases hentry : s id' with
    | none => exact hsame
    | some e => exact update_grows hfound hentry (List.prefix_append _ _)
  | setStatus id' status =>
    rw [exec]
    cases hentry : s id' with
    | none => exact hsame
    | some e => exact update_grows hfound hentry List.prefix_rfl
  | results id' cursor limit =>
    rw [exec_results]
    exact hsame
  | stats id' =>
    rw [exec]
    cases s id' <;> exact hsame

/-- Any number of calls that do not create the job anew only add to its results. -/
theorem execAll_grows (hfound : s id ≠ none) {calls : List (Int × JobCall F)}
    (hkept : ∀ call ∈ calls, ∀ job, call.2 = .createJob job → job.id ≠ id) :
    s.execAll calls id ≠ none ∧ s.resultsOf id <+: (s.execAll calls).resultsOf id := by
  induction calls generalizing s with
  | nil => exact ⟨hfound, List.prefix_rfl⟩
  | cons call calls ih =>
    obtain ⟨hfirst, hgrows⟩ := exec_grows hfound call.1 (hkept call (by simp))
    obtain ⟨hlast, hmore⟩ := ih hfirst fun c hc => hkept c (by simp [hc])
    exact ⟨hlast, hgrows.trans hmore⟩

end MemoryJobs

/-! ## A page -/

/-- A page of the memory store: the results from the cursor on, up to the limit. The sum of the two
    does not overflow, since a cursor other than 0 is not less than the limit. -/
theorem page_eq {e : StoredEntry F} {cursor limit : Nat} (hlimit : 1 ≤ limit)
    (hint : limit < 2 ^ 63) (hcursor : cursor = 0 ∨ limit ≤ cursor)
    (hfits : e.results.length < 2 ^ 62) :
    e.page cursor limit =
      if cursor + limit < e.results.length then
        .ok ((e.results.drop cursor).take limit, ((cursor + limit : Nat) : Int))
      else .ok (e.results.drop cursor, 0) := by
  unfold StoredEntry.page
  have hstart : ¬ (cursor : Int) < 0 := by omega
  have hsize : ¬ (limit : Int) ≤ 0 := by omega
  simp only [if_neg hstart, if_neg hsize]
  by_cases hpast : (cursor : Int) ≥ e.results.length
  · -- past the end
    rw [if_pos hpast, if_neg (by omega), List.drop_eq_nil_of_le (by omega)]
  have hstop : wrapInt (cursor + limit) = cursor + limit := by
    unfold wrapInt
    omega
  rw [if_neg hpast, hstop]
  by_cases hmore : cursor + limit < e.results.length
  · -- a full page, with more to come
    rw [if_pos hmore, if_neg (show ¬ (cursor : Int) + limit > e.results.length by omega),
      if_neg (by omega), if_pos (by omega), Int.toNat_natCast, Int.natCast_add,
      show ((cursor : Int) + limit - cursor).toNat = limit by omega]
  · -- the rest
    have hclamp : (if (cursor : Int) + limit > e.results.length then (e.results.length : Int)
        else cursor + limit) = e.results.length := by
      split <;> omega
    rw [if_neg hmore, hclamp, if_neg (by omega), if_neg (Int.lt_irrefl _),
      List.take_of_length_le (by rw [List.length_drop]; omega), Int.toNat_natCast]

/-! ## Following the cursors -/

namespace Paging

variable (p : Paging F)

/-- The results of the job at the `n`-th request. -/
def results (n : Nat) : List (JobResult F) := (p.store.atRequest p.calls n).resultsOf p.id

/-- The `n`-th request. -/
def request (n : Nat) (cursor limit : Int) : Except JobStoreError (List (JobResult F) × Int) :=
  (p.store.atRequest p.calls n).results p.id cursor limit

/-- A client that starts with cursor 0 and asks for pages of this size until the next cursor is 0
    has these pages and this cursor after `n` requests. -/
inductive Pages (limit : Int) : Nat → Int → List (List (JobResult F)) → Prop where
  | start : Pages limit 0 0 []
  | request {n : Nat} {cursor next : Int} {pages : List (List (JobResult F))}
      {page : List (JobResult F)} (h : Pages limit n cursor pages) (hmore : n = 0 ∨ cursor ≠ 0)
      (hpage : p.request n cursor limit = .ok (page, next)) :
      Pages limit (n + 1) next (pages ++ [page])

theorem found_at (n : Nat) : p.store.atRequest p.calls n p.id ≠ none := by
  induction n with
  | zero => exact (MemoryJobs.execAll_grows p.found (p.kept 0)).1
  | succ n ih => exact (MemoryJobs.execAll_grows ih (p.kept (n + 1))).1

/-- Between two requests the results grow. -/
theorem results_grow (n : Nat) : p.results n <+: p.results (n + 1) :=
  (MemoryJobs.execAll_grows (p.found_at n) (p.kept (n + 1))).2

/-- One request returns a full page and a cursor, or the rest. -/
theorem request_eq (n : Nat) {cursor limit : Nat} (hlimit : 1 ≤ limit) (hint : limit < 2 ^ 63)
    (hcursor : cursor = 0 ∨ limit ≤ cursor) :
    p.request n cursor limit =
      if cursor + limit < (p.results n).length then
        .ok (((p.results n).drop cursor).take limit, ((cursor + limit : Nat) : Int))
      else .ok ((p.results n).drop cursor, 0) := by
  obtain ⟨e, hentry⟩ := Option.ne_none_iff_exists'.mp (p.found_at n)
  have hresults : p.results n = e.results := MemoryJobs.resultsOf_eq hentry
  have hfits := p.fits n
  rw [MemoryJobs.resultsOf_eq hentry] at hfits
  rw [request, MemoryJobs.results, hentry, hresults]
  exact page_eq hlimit hint hcursor hfits

/-- What a client has that is about to make its `n`-th request. -/
structure UpTo (limit n cursor : Nat) (out : List (JobResult F)) : Prop where
  cursor_eq : cursor = 0 ∨ limit ≤ cursor
  le_length : cursor ≤ (p.results n).length
  out_eq : out = (p.results n).take cursor

variable {p} {limit n cursor : Nat} {out : List (JobResult F)}

theorem UpTo.start : p.UpTo limit 0 0 [] := ⟨.inl rfl, Nat.zero_le _, rfl⟩

/-- A request returns the next page, or the rest. -/
theorem UpTo.request (h : p.UpTo limit n cursor out) (hlimit : 1 ≤ limit) (hint : limit < 2 ^ 63) :
    (∃ page, p.request n cursor limit = .ok (page, ((cursor + limit : Nat) : Int)) ∧ page ≠ [] ∧
        p.UpTo limit (n + 1) (cursor + limit) (out ++ page) ∧
        cursor + limit < (p.results n).length) ∨
      ∃ page, p.request n cursor limit = .ok (page, 0) ∧ out ++ page = p.results n := by
  have hrequest := p.request_eq n hlimit hint h.cursor_eq
  -- there is more than this page, or this is the last one
  by_cases hmore : cursor + limit < (p.results n).length
  · rw [if_pos hmore] at hrequest
    obtain ⟨more, hgrows⟩ := p.results_grow n
    refine .inl ⟨_, hrequest, ?_, ⟨.inr (Nat.le_add_left _ _), ?_, ?_⟩, hmore⟩
    · rw [← List.length_pos_iff, List.length_take, List.length_drop]
      omega
    · rw [← hgrows, List.length_append]
      omega
    · rw [h.out_eq, ← List.take_add, ← hgrows, List.take_append_of_le_length hmore.le]
  · rw [if_neg hmore] at hrequest
    refine .inr ⟨_, hrequest, ?_⟩
    rw [h.out_eq, List.take_append_drop]

/-- The pages of a client that has not reached the end are the results up to its cursor. -/
theorem Pages.upTo (hlimit : 1 ≤ limit) (hint : limit < 2 ^ 63) {c : Int}
    {pages : List (List (JobResult F))} (h : p.Pages limit n c pages) (hmore : n = 0 ∨ c ≠ 0) :
    ∃ cursor : Nat, c = cursor ∧ p.UpTo limit n cursor pages.flatten := by
  induction h with
  | start => exact ⟨0, rfl, UpTo.start⟩
  | request _ hbefore hpage ih =>
    obtain ⟨cursor, rfl, hupTo⟩ := ih hbefore
    -- the last page sets the cursor to zero, which `hmore` excludes
    rcases hupTo.request hlimit hint with ⟨page, hrequest, -, hnext, -⟩ | ⟨page, hrequest, -⟩
    · cases hpage.symm.trans hrequest
      refine ⟨cursor + limit, rfl, ?_⟩
      simpa using hnext
    · cases hpage.symm.trans hrequest
      simp at hmore

/-- The pages of a client that has reached the end are the results at its last request. -/
theorem Pages.flatten_eq (hlimit : 1 ≤ limit) (hint : limit < 2 ^ 63)
    {pages : List (List (JobResult F))} (h : p.Pages limit (n + 1) 0 pages) :
    pages.flatten = p.results n := by
  cases h with
  | request hbefore hmore hpage =>
    obtain ⟨cursor, rfl, hupTo⟩ := hbefore.upTo hlimit hint hmore
    rcases hupTo.request hlimit hint with ⟨page, hrequest, -⟩ | ⟨page, hrequest, hall⟩
    · -- the next cursor is not 0
      have hzero := congrArg Prod.snd (Except.ok.inj (hpage.symm.trans hrequest))
      simp only at hzero
      omega
    · cases hpage.symm.trans hrequest
      simpa using hall

/-- The loop of an export ends if there are not more than `N` results: every request but the last
    moves the cursor on by the size of a page. -/
theorem allResultsLoop_ends {N : Nat} (hN : ∀ n, (p.results n).length ≤ N)
    (h : p.UpTo 500 n cursor out) :
    ∃ m, n ≤ m ∧ m ≤ n + (N - cursor) / 500 ∧ ∀ fuel, m < n + fuel →
      allResultsLoop p.request fuel n cursor out = some (.ok (p.results m)) := by
  -- by induction on the results that are left, of which each page takes some
  induction hk : N - cursor using Nat.strong_induction_on generalizing n cursor out with
  | _ k ih =>
    subst hk
    have hloop : ∀ fuel, n < n + fuel → ∃ fuel', fuel = fuel' + 1 := fun fuel hfuel =>
      ⟨fuel - 1, by omega⟩
    rcases h.request (by decide) (by decide) with
      ⟨page, hrequest, hpage, hnext, hmore⟩ | ⟨page, hrequest, hall⟩
    · have hle := hN n
      obtain ⟨m, hm, hbound, hends⟩ := ih (N - (cursor + 500)) (by omega) hnext rfl
      refine ⟨m, by omega, by omega, fun fuel hfuel => ?_⟩
      obtain ⟨fuel, rfl⟩ := hloop fuel (by omega)
      rw [allResultsLoop, exportPageSize, show (500 : Int) = ((500 : Nat) : Int) from rfl, hrequest]
      dsimp only
      rw [if_neg]
      · exact hends fuel (by omega)
      · simp [hpage]
        omega
    · refine ⟨n, le_rfl, by omega, fun fuel hfuel => ?_⟩
      obtain ⟨fuel, rfl⟩ := hloop fuel hfuel
      rw [allResultsLoop, exportPageSize, show (500 : Int) = ((500 : Nat) : Int) from rfl, hrequest]
      simp [hall]

/-- For every page size: no request fails, and when the next cursor is 0, the pages together are
    the results at the last request. An export of a job with at most `N` results ends after
    `N / 500 + 1` requests at the latest, with the results at the last one. -/
theorem pages_exact (p : Paging F) {limit : Nat} (hlimit : 1 ≤ limit) (hint : limit < 2 ^ 63) :
    (∀ n c pages, p.Pages limit n c pages → n = 0 ∨ c ≠ 0 →
      ∃ page next, p.request n c limit = .ok (page, next)) ∧
    (∀ n pages, p.Pages limit (n + 1) 0 pages → pages.flatten = p.results n) ∧
    ∀ N, (∀ n, (p.results n).length ≤ N) →
      ∃ m ≤ N / 500, ∀ fuel > m, allResults p.request fuel = some (.ok (p.results m)) := by
  refine ⟨fun n c pages h hmore => ?_, fun n pages => Pages.flatten_eq hlimit hint, fun N hN => ?_⟩
  · obtain ⟨cursor, rfl, hupTo⟩ := h.upTo hlimit hint hmore
    rcases hupTo.request hlimit hint with ⟨page, hrequest, -⟩ | ⟨page, hrequest, -⟩
    · exact ⟨_, _, hrequest⟩
    · exact ⟨_, _, hrequest⟩
  · obtain ⟨m, -, hbound, hends⟩ := allResultsLoop_ends hN UpTo.start
    refine ⟨m, by simpa using hbound, fun fuel hfuel => ?_⟩
    exact hends fuel (by omega)

/-- A result with this label. -/
def labelled (label : String) : JobResult Unit where
  label := label
  verdict :=
    { email := "a@example.org", normalized := "a@example.org", status := .deliverable
      subStatus := .validMailbox, confidence := (), checks := {}, provider := "custom"
      engine := "builtin", egressID := "", checkedAt := 0 }

/-- A job with three results. -/
def threeResults : MemoryJobs Unit :=
  Function.update (fun _ => none) "j" (some
    { job := { id := "j", status := .known .running, total := 4, done := 3, createdAt := 0,
               completedAt := none }
      results := [labelled "1", labelled "2", labelled "3"] })

/-- A fourth result is added between the first two requests. -/
def fourthResult (n : Nat) : List (Int × JobCall Unit) :=
  if n = 1 then [(0, .appendResult "j" (labelled "4"))] else []

/-- After the first request nothing is added. -/
theorem atRequest_fourthResult (n : Nat) :
    threeResults.atRequest fourthResult (n + 1) = threeResults.atRequest fourthResult 1 := by
  induction n with
  | zero => rfl
  | succ n ih =>
    rw [MemoryJobs.atRequest, ih, fourthResult, if_neg (by omega)]
    rfl

/-- A client pages through them. -/
def growingJob : Paging Unit where
  store := threeResults
  id := "j"
  calls := fourthResult
  found := by simp [threeResults]
  kept n call hcall job hcreate := by
    unfold fourthResult at hcall
    split at hcall
    · rw [List.mem_singleton.mp hcall] at hcreate
      cases hcreate
    · simp at hcall
  fits n := by
    cases n with
    | zero => decide
    | succ n =>
      rw [atRequest_fourthResult]
      decide

/-- Two pages of two results: the second one reaches the end that has moved meanwhile. -/
theorem pages_exact_growing : ∃ pages, growingJob.Pages (2 : Nat) 2 0 pages ∧
    pages.flatten = growingJob.results 1 ∧
    pages.flatten.map (·.label) = ["1", "2", "3", "4"] := by
  have hpages : growingJob.Pages (2 : Nat) 2 0
      [[labelled "1", labelled "2"], [labelled "3", labelled "4"]] :=
    .request (.request .start (.inl rfl) rfl) (.inr (by decide)) rfl
  exact ⟨_, hpages, (pages_exact growingJob (by decide) (by decide)).2.1 _ _ hpages, rfl⟩

end Paging

end Rcptto.Native
