import Rcptto.Native.Uploads

/-!
# Confirmations of an upload

A confirmed list becomes a job, and the token of the upload is dropped so that it does not become
another one. Between the lookup of the token and its removal lies the call of `Submit`. If the
confirmations of a token come one after the other, at most one of them submits the list. Two that
overlap both find the token, and both submit.

## Key results

- `Uploads.Orderly.step`: who holds a token
- `submitted_once`: confirmations that do not overlap submit a list at most once
- `submitted_twice`: a list is submitted by two confirmations
-/

namespace Rcptto.Native.Web

/-! ## Holding a token -/

/-- The token of a confirmation between its lookup and its end. -/
def Confirm.holds : Confirm → Option String
  | looking _ => none
  | submitting token _ _ | dropping token => some token

/-- The token that the request `i` holds. -/
def Uploads.holds (s : Uploads) (i : Nat) : Option String := (s.confirms i).bind Confirm.holds

/-- The event is a `Submit` of the upload with this token that succeeds. -/
def UploadEvent.submits (token : String) : UploadEvent → Bool
  | submit _ token' _ _ (.ok _) => token' = token
  | _ => false

namespace Uploads

variable {lower : String → String} {s s' : Uploads} {event : UploadEvent} {token : String}

/-- A token is looked up only while no request holds it. -/
def Exclusive (s : Uploads) : UploadEvent → Prop
  | .lookup _ token _ => ∀ j, s.holds j ≠ some token
  | _ => True

/-- One step, with a lookup only while no request holds the token. -/
def ExclusiveStep (lower : String → String) (s : Uploads) (event : UploadEvent) (s' : Uploads) :
    Prop :=
  s.Exclusive event ∧ s.Step lower event s'

/-- A step of a request changes what this request holds, and nothing else. -/
theorem holds_update (i : Nat) (c : Option Confirm) (items : UploadCache) (j : Nat) :
    Uploads.holds { s with items := items, confirms := Function.update s.confirms i c } j =
      if j = i then c.bind Confirm.holds else s.holds j := by
  unfold holds
  dsimp only
  rw [Function.update_apply]
  split <;> rfl

/-! ## One step -/

theorem mem_of_makesRoom {items items' : UploadCache} (h : items.MakesRoom items')
    {kv : String × PendingUpload} (hkv : kv ∈ items') : kv ∈ items := by
  induction h with
  | done _ => exact hkv
  | drop _ _ _ ih => exact List.mem_of_mem_filter (ih hkv)

/-- Only a new upload comes into the cache. -/
theorem items_of_step (h : s.Step lower event s') {kv : String × PendingUpload}
    (hkv : kv ∈ s'.items) : kv ∈ s.items ∨ event = .stage kv.1 kv.2 := by
  -- only the preview stages an upload
  cases event with
  | tick now =>
    obtain ⟨-, rfl⟩ := h
    exact .inl hkv
  | stage token u =>
    obtain ⟨-, -, items, hroom, rfl⟩ := h
    rcases List.mem_cons.mp hkv with rfl | hkv
    · exact .inr rfl
    · exact .inl (List.mem_of_mem_filter (mem_of_makesRoom hroom hkv))
  | confirm i jobs form =>
    obtain ⟨-, rfl⟩ := h
    left
    split at hkv <;> exact hkv
  | lookup i token out =>
    obtain ⟨form, -, -, -, rfl⟩ := h
    exact .inl (List.mem_of_mem_filter hkv)
  | submit i token r createErr out =>
    obtain ⟨u, rows, -, -, rfl⟩ := h
    exact .inl hkv
  | drop i token out =>
    obtain ⟨-, -, rfl⟩ := h
    exact .inl (List.mem_of_mem_filter hkv)

/-- Only a new upload gets a token, which has not been given out before. -/
theorem issued_of_step (h : s.Step lower event s') :
    s'.issued = s.issued ∨ ∃ token u, event = .stage token u ∧ token ∉ s.issued ∧
      s'.issued = token :: s.issued := by
  -- only the preview gives a token out
  cases event with
  | tick now =>
    obtain ⟨-, rfl⟩ := h
    exact .inl rfl
  | stage token u =>
    obtain ⟨hfresh, -, items, -, rfl⟩ := h
    exact .inr ⟨token, u, rfl, hfresh, rfl⟩
  | confirm i jobs form =>
    obtain ⟨-, rfl⟩ := h
    left
    split <;> rfl
  | lookup i token out =>
    obtain ⟨form, -, -, -, rfl⟩ := h
    exact .inl rfl
  | submit i token r createErr out =>
    obtain ⟨u, rows, -, -, rfl⟩ := h
    exact .inl rfl
  | drop i token out =>
    obtain ⟨-, -, rfl⟩ := h
    exact .inl rfl

/-- A confirmation goes on only if it finds its token. -/
theorem mem_of_confirmLookup {items : UploadCache} {form : ConfirmForm} {u : PendingUpload}
    {rows : List Row} (h : confirmLookup items form = .ok (u, rows)) : (form.token, u) ∈ items := by
  unfold confirmLookup at h
  -- without an upload the request ends here, and with one it goes on to the rows
  cases hfound : items.lookup form.token with
  | none =>
    rw [hfound] at h
    cases h
  | some u' =>
    simp only [hfound] at h
    cases hrows : confirmRows form u' with
    | error answer =>
      rw [hrows] at h
      cases h
    | ok rows' =>
      rw [hrows] at h
      cases h
      obtain ⟨l₁, l₂, rfl, -⟩ := List.lookup_eq_some_iff.mp hfound
      simp

/-- A request gets hold of a token by finding it. -/
theorem holds_of_step (h : s.Step lower event s') {j : Nat} (hj : s'.holds j = some token) :
    s.holds j = some token ∨ (∃ out, event = .lookup j token out) ∧ ∃ u, (token, u) ∈ s.items := by
  cases event with
  | tick now =>
    obtain ⟨-, rfl⟩ := h
    exact .inl hj
  | stage token' u =>
    obtain ⟨-, -, items, -, rfl⟩ := h
    exact .inl hj
  | confirm i jobs form =>
    obtain ⟨-, rfl⟩ := h
    left
    split at hj
    · exact hj
    · rw [s.holds_update i _ s.items j] at hj
      split at hj
      · cases hj
      · exact hj
  | lookup i token' out =>
    obtain ⟨form, -, rfl, rfl, rfl⟩ := h
    rw [holds_update] at hj
    split at hj
    · -- the request of this step holds the token if it has found an upload under it
      next hij =>
      subst hij
      cases hfound : confirmLookup (s.items.evict s.clock) form with
      | error answer =>
        rw [hfound] at hj
        cases hj
      | ok found =>
        obtain ⟨u, rows⟩ := found
        simp only [hfound] at hj
        cases hj
        exact .inr ⟨⟨_, rfl⟩, u, List.mem_of_mem_filter (mem_of_confirmLookup hfound)⟩
    · exact .inl hj
  | submit i token' r createErr out =>
    obtain ⟨u, rows, hi, -, rfl⟩ := h
    left
    rw [s.holds_update i _ s.items j] at hj
    split at hj
    · next hij =>
      subst hij
      cases hresult : submitRows r lower createErr rows with
      | error err =>
        rw [hresult] at hj
        cases hj
      | ok batch =>
        -- the token that is to be dropped is the one that was submitted
        rw [hresult] at hj
        rw [← hj, holds, hi]
        rfl
    · exact hj
  | drop i token' out =>
    obtain ⟨-, -, rfl⟩ := h
    left
    rw [holds_update] at hj
    split at hj
    · cases hj
    · exact hj

/-- A request that is to drop a token does that next. -/
theorem confirms_of_step (h : s.Step lower event s') {i : Nat}
    (hi : s.confirms i = some (.dropping token)) :
    s'.confirms i = some (.dropping token) ∨
      event = .drop i token .jobCreated ∧ s'.holds i = none ∧ ∀ u, (token, u) ∉ s'.items := by
  -- a step of a request in another state is a step of another request
  have hkeep {j : Nat} {c : Option Confirm} (hj : s.confirms j ≠ some (.dropping token)) :
      Function.update s.confirms j c i = some (.dropping token) := by
    have hij : i ≠ j := by
      rintro rfl
      exact hj hi
    rw [Function.update_of_ne hij, hi]
  cases event with
  | tick now =>
    obtain ⟨-, rfl⟩ := h
    exact .inl hi
  | stage token' u =>
    obtain ⟨-, -, items, -, rfl⟩ := h
    exact .inl hi
  | confirm j jobs form =>
    obtain ⟨hj, rfl⟩ := h
    left
    split
    · exact hi
    · exact hkeep (by simp [hj])
  | lookup j token' out =>
    obtain ⟨form, hj, -, -, rfl⟩ := h
    exact .inl (hkeep (by simp [hj]))
  | submit j token' r createErr out =>
    obtain ⟨u, rows, hj, -, rfl⟩ := h
    exact .inl (hkeep (by simp [hj]))
  | drop j token' out =>
    obtain ⟨hj, rfl, rfl⟩ := h
    by_cases hij : i = j
    · subst hij
      obtain rfl : token = token' := by simpa [hi] using hj
      refine .inr ⟨rfl, ?_, fun u hu => ?_⟩
      · rw [holds_update, if_pos rfl]
        rfl
      · simp [UploadCache.delete] at hu
    · left
      show Function.update s.confirms j none i = _
      rw [Function.update_of_ne hij, hi]

/-- A request that has submitted the rows of a token is about to drop it. -/
theorem exists_dropping_of_submits (hsubmits : event.submits token = true)
    (h : s.Step lower event s') :
    ∃ i u rows, s.confirms i = some (.submitting token u rows) ∧
      s'.confirms i = some (.dropping token) := by
  cases event with
  | submit i token' r createErr out =>
    obtain ⟨u, rows, hi, rfl, rfl⟩ := h
    -- a submission that fails does not count
    cases hresult : submitRows r lower createErr rows with
    | error err =>
      rw [hresult] at hsubmits
      cases hsubmits
    | ok batch =>
      rw [hresult] at hsubmits
      obtain rfl : token' = token := by simpa [UploadEvent.submits, Except.mapError] using hsubmits
      exact ⟨i, u, rows, hi, Function.update_self ..⟩
  | _ => cases hsubmits

/-! ## Executions -/

/-- Tokens are held one at a time, and only tokens that were given out are in use. -/
structure Orderly (s : Uploads) : Prop where
  items : ∀ kv ∈ s.items, kv.1 ∈ s.issued
  held : ∀ i token, s.holds i = some token → token ∈ s.issued
  alone : ∀ i j token, s.holds i = some token → s.holds j = some token → i = j

theorem Orderly.init (clock : Int) : (Uploads.init clock).Orderly where
  items _ h := by cases h
  held _ _ h := by cases h
  alone _ _ _ h := by cases h

/-- A token that was given out stays so. -/
theorem issued_subset_of_step (h : s.Step lower event s') {token : String}
    (htoken : token ∈ s.issued) : token ∈ s'.issued := by
  rcases issued_of_step h with hsame | ⟨token', u, -, -, hnew⟩
  · rwa [hsame]
  · rw [hnew]
    exact List.mem_cons_of_mem _ htoken

/-- One step, with one request for each token at a time. -/
theorem Orderly.step (h : s.Orderly) (hstep : s.ExclusiveStep lower event s') : s'.Orderly := by
  obtain ⟨hexclusive, hstep⟩ := hstep
  refine ⟨fun kv hkv => ?_, fun i token hi => ?_, fun i j token hi hj => ?_⟩
  · rcases items_of_step hstep hkv with hold | rfl
    · exact issued_subset_of_step hstep (h.items kv hold)
    · obtain ⟨-, -, items, -, rfl⟩ := hstep
      exact List.mem_cons_self
  · rcases holds_of_step hstep hi with hold | ⟨-, u, hu⟩
    · exact issued_subset_of_step hstep (h.held i token hold)
    · exact issued_subset_of_step hstep (h.items _ hu)
  · -- a request that has just found the token is the only one
    rcases holds_of_step hstep hi with hi | ⟨⟨out, rfl⟩, -⟩
    · rcases holds_of_step hstep hj with hj | ⟨⟨out, rfl⟩, -⟩
      · exact h.alone i j token hi hj
      · exact absurd hi (hexclusive i)
    · rcases holds_of_step hstep hj with hj | ⟨⟨out', heq⟩, -⟩
      · exact absurd hj (hexclusive j)
      · cases heq
        rfl

/-- The token is in use no more: the request that has submitted the list is to drop it, or it is
    dropped. -/
def Spent (s : Uploads) (token : String) : Prop :=
  token ∈ s.issued ∧ ((∃ i, s.confirms i = some (.dropping token)) ∨
    (∀ u, (token, u) ∉ s.items) ∧ ∀ i, s.holds i ≠ some token)

theorem holds_of_confirms {i : Nat} {c : Confirm} (h : s.confirms i = some c) :
    s.holds i = c.holds := by
  rw [holds, h]
  rfl

/-- A token that is spent stays so, and its list is not submitted. -/
theorem Spent.step (h : s.Spent token) (horderly : s.Orderly)
    (hstep : s.ExclusiveStep lower event s') :
    s'.Spent token ∧ event.submits token = false := by
  obtain ⟨hissued, hspent⟩ := h
  have horderly' := horderly.step hstep
  have hstep := hstep.2
  constructor
  · refine ⟨issued_subset_of_step hstep hissued, ?_⟩
    rcases hspent with ⟨i, hi⟩ | ⟨hgone, hfree⟩
    · -- the request that is to drop the token waits, or it does so and nobody else holds it
      rcases confirms_of_step hstep hi with hi' | ⟨rfl, hi', hgone⟩
      · exact .inl ⟨i, hi'⟩
      · refine .inr ⟨hgone, fun j hj => ?_⟩
        rcases holds_of_step hstep hj with hj' | ⟨⟨out, heq⟩, -⟩
        · obtain rfl := horderly.alone i j token (holds_of_confirms hi) hj'
          rw [hi'] at hj
          cases hj
        · cases heq
    · refine .inr ⟨fun u hu => ?_, fun j hj => ?_⟩
      · rcases items_of_step hstep hu with hold | rfl
        · exact hgone u hold
        · -- a new upload has another token
          exact hstep.1 hissued
      · rcases holds_of_step hstep hj with hj' | ⟨-, u, hu⟩
        · exact hfree j hj'
        · exact hgone u hu
  · by_contra hsubmits
    obtain ⟨i, u, rows, hi, -⟩ :=
      exists_dropping_of_submits (Bool.eq_true_of_not_eq_false hsubmits) hstep
    rcases hspent with ⟨j, hj⟩ | ⟨-, hfree⟩
    · -- the only request that holds the token is past its `Submit`
      obtain rfl := horderly.alone i j token (holds_of_confirms hi) (holds_of_confirms hj)
      rw [hi] at hj
      cases hj
    · exact hfree i (holds_of_confirms hi)

/-- How often the list was submitted, and what has become of its token. -/
def Once (events : List UploadEvent) (s : Uploads) (token : String) : Prop :=
  events.countP (·.submits token) = 0 ∨ events.countP (·.submits token) = 1 ∧ s.Spent token

/-- One step: a token is submitted once at most. -/
theorem Once.step {events : List UploadEvent} (h : Once events s token) (horderly : s.Orderly)
    (hstep : s.ExclusiveStep lower event s') : Once (events ++ [event]) s' token := by
  unfold Once
  rw [List.countP_append, List.countP_singleton]
  -- a second submission would find the token spent
  cases hsubmits : event.submits token with
  | true =>
    rcases h with hnone | ⟨-, hspent⟩
    · obtain ⟨i, u, rows, hi, hi'⟩ := exists_dropping_of_submits hsubmits hstep.2
      have hissued := horderly.held i token (holds_of_confirms hi)
      exact .inr ⟨by simp [hnone], issued_subset_of_step hstep.2 hissued, .inl ⟨i, hi'⟩⟩
    · rw [(hspent.step horderly hstep).2] at hsubmits
      cases hsubmits
  | false =>
    rcases h with hnone | ⟨hone, hspent⟩
    · exact .inl (by simp [hnone])
    · exact .inr ⟨by simp [hone], (hspent.step horderly hstep).1⟩

end Uploads

open Uploads in
/-- In every execution in which the confirmations of a token do not overlap, at most one `Submit`
    succeeds for each token. -/
theorem submitted_once {lower : String → String} {clock : Int} {events : List UploadEvent}
    {s : Uploads} (h : Run (ExclusiveStep lower) (.init clock) events s) (token : String) :
    events.countP (·.submits token) ≤ 1 := by
  have honce : s.Orderly ∧ Once events s token := by
    refine Run.history (I := fun events s => s.Orderly ∧ Once events s token) h
      ⟨.init clock, .inl rfl⟩ ?_
    rintro hist a event b - ⟨horderly, hist_once⟩ hstep
    exact ⟨horderly.step hstep, hist_once.step horderly hstep⟩
  rcases honce.2 with hnone | ⟨hone, -⟩
  · omega
  · omega

/-! ## Confirmations of an idle server -/

namespace Uploads

variable {lower : String → String} {s : Uploads} {i : Nat} {form : ConfirmForm}

theorem step_confirm (hi : s.confirms i = none) :
    s.Step lower (.confirm i true (some form))
      { s with confirms := Function.update s.confirms i (some (.looking form)) } :=
  ⟨hi, rfl⟩

/-- A request looks its token up. -/
theorem step_lookup (found : Except UploadAnswer (PendingUpload × List Row))
    (hi : s.confirms i = some (.looking form))
    (hfound : confirmLookup (s.items.evict s.clock) form = found) :
    s.Step lower (.lookup i form.token (found.map (·.2)))
      { s with
        items := s.items.evict s.clock
        confirms := Function.update s.confirms i
          (found.toOption.map fun (u, rows) => .submitting form.token u rows) } := by
  subst hfound
  exact ⟨form, hi, rfl, rfl, rfl⟩

/-- A request submits its rows. -/
theorem step_submit {token : String} {rows : List Row} {r : Runner} {batch : Batch}
    (u : PendingUpload) (hi : s.confirms i = some (.submitting token u rows))
    (hsubmit : submitRows r lower none rows = .ok batch) :
    s.Step lower (.submit i token r none (.ok batch))
      { s with confirms := Function.update s.confirms i (some (.dropping token)) } := by
  refine ⟨u, rows, hi, ?_, ?_⟩
  · rw [hsubmit]
    rfl
  · rw [hsubmit]
    rfl

/-- A token is free while the only request under way is to look it up. -/
theorem exclusive_of_idle (hidle : ∀ j, s.confirms j = none) (i : Nat) (form : ConfirmForm)
    (out : Except UploadAnswer (List Row)) :
    Uploads.Exclusive { s with confirms := Function.update s.confirms i (some (.looking form)) }
      (.lookup i form.token out) := by
  intro j
  rw [s.holds_update i _ s.items j]
  split
  · exact fun h => by cases h
  · simp [holds, hidle]

/-- A confirmation that nothing interrupts submits the list and drops the token. -/
theorem runs_confirm {u : PendingUpload} {rows : List Row} {r : Runner} {batch : Batch}
    (hidle : ∀ j, s.confirms j = none) (i : Nat)
    (hfound : confirmLookup (s.items.evict s.clock) form = .ok (u, rows))
    (hsubmit : submitRows r lower none rows = .ok batch) :
    Run (ExclusiveStep lower) s
      [.confirm i true (some form), .lookup i form.token (.ok rows),
        .submit i form.token r none (.ok batch), .drop i form.token .jobCreated]
      { s with items := (s.items.evict s.clock).delete form.token } := by
  refine .cons ⟨trivial, step_confirm (hidle i)⟩ ?_
  refine .cons ⟨exclusive_of_idle hidle i form _,
    step_lookup (.ok (u, rows)) (Function.update_self ..) hfound⟩ ?_
  refine .cons ⟨trivial, step_submit u (Function.update_self ..) hsubmit⟩ ?_
  refine Run.singleton_iff.mpr ⟨trivial, Function.update_self .., rfl, ?_⟩
  simp [← hidle i]

/-- A confirmation that nothing interrupts and that does not find its token. -/
theorem runs_refused {answer : UploadAnswer} (hidle : ∀ j, s.confirms j = none) (i : Nat)
    (hfound : confirmLookup (s.items.evict s.clock) form = .error answer) :
    Run (ExclusiveStep lower) s
      [.confirm i true (some form), .lookup i form.token (.error answer)]
      { s with items := s.items.evict s.clock } := by
  refine .cons ⟨trivial, step_confirm (hidle i)⟩ (Run.singleton_iff.mpr
    ⟨exclusive_of_idle hidle i form _, form, Function.update_self .., rfl, ?_, ?_⟩)
  · dsimp only
    rw [hfound]
    rfl
  · simp [hfound, Except.toOption, ← hidle i]

theorem evict_evict (items : UploadCache) (now : Int) :
    (items.evict now).evict now = items.evict now := by
  simp [UploadCache.evict]

/-- Two confirmations that both find the token before one of them drops it both submit the list. -/
theorem exists_runs_overlap {u : PendingUpload} {rows : List Row} {r : Runner} {batch : Batch}
    {j : Nat} (hidle : ∀ j, s.confirms j = none) (hij : i ≠ j)
    (hfound : confirmLookup (s.items.evict s.clock) form = .ok (u, rows))
    (hsubmit : submitRows r lower none rows = .ok batch) :
    ∃ s', Uploads.Runs lower s
      [.confirm i true (some form), .confirm j true (some form),
        .lookup i form.token (.ok rows), .lookup j form.token (.ok rows),
        .submit i form.token r none (.ok batch), .submit j form.token r none (.ok batch),
        .drop i form.token .jobCreated, .drop j form.token .jobCreated] s' := by
  have hfound' : confirmLookup ((s.items.evict s.clock).evict s.clock) form = .ok (u, rows) := by
    rw [evict_evict, hfound]
  refine Run.exists_cons (step_confirm (hidle i)) ?_
  refine Run.exists_cons (step_confirm ?_) ?_
  · simp [Function.update_of_ne hij.symm, hidle]
  -- both requests find the upload before either of them drops it
  refine Run.exists_cons (step_lookup (.ok (u, rows)) ?_ hfound) ?_
  · simp [Function.update_of_ne hij]
  refine Run.exists_cons (step_lookup (.ok (u, rows)) ?_ hfound') ?_
  · simp [Function.update_of_ne hij.symm]
  refine Run.exists_cons (step_submit u ?_ hsubmit) ?_
  · simp [Function.update_of_ne hij, Except.toOption]
  refine Run.exists_cons (step_submit u ?_ hsubmit) ?_
  · simp [Function.update_of_ne hij.symm, Except.toOption]
  refine Run.exists_cons ⟨?_, rfl, rfl⟩ ?_
  · simp [Function.update_of_ne hij]
  refine Run.exists_cons ⟨?_, rfl, rfl⟩ ⟨_, .nil _⟩
  · simp [Function.update_of_ne hij.symm]

end Uploads

/-! ## A list that is confirmed twice -/

/-- A list with one address. -/
def sampleUpload : PendingUpload where
  filename := "list.csv"
  sheet := { header := [], rows := [["a@example.net"]] }
  created := 0

/-- The operator confirms that the first column holds the addresses. -/
def sampleForm : ConfirmForm where
  token := "t"
  emailCol := some 0
  labelCol := none

/-- The server after the upload. -/
def sampleStaged : Uploads where
  items := [("t", sampleUpload)]
  clock := 0
  issued := ["t"]
  confirms _ := none

theorem step_sample (lower : String → String) :
    (Uploads.init 0).Step lower (.stage "t" sampleUpload) sampleStaged :=
  ⟨by simp [Uploads.init], le_rfl, [], .done (by decide), rfl⟩

/-- The rows of the list. -/
def sampleRows : List Row := [⟨"", "a@example.net"⟩]

/-- The upload is found, and its column has an address. -/
theorem confirmLookup_sample :
    confirmLookup (UploadCache.evict [("t", sampleUpload)] 0) sampleForm =
      .ok (sampleUpload, sampleRows) := by
  decide +kernel

/-- Its rows are accepted. -/
theorem exists_batch_sample :
    ∃ batch, submitRows (Runner.new 0 0) id none sampleRows = .ok batch := by
  have hok : (submitRows (Runner.new 0 0) id none sampleRows).toOption.isSome = true := by
    decide +kernel
  cases hresult : submitRows (Runner.new 0 0) id none sampleRows with
  | error err => simp [hresult, Except.toOption] at hok
  | ok batch => exact ⟨batch, rfl⟩

/-- Nothing is found once the upload is dropped. -/
theorem confirmLookup_dropped :
    confirmLookup (((UploadCache.evict [("t", sampleUpload)] 0).delete "t").evict 0) sampleForm =
      .error (.verdictError "this upload expired; please choose the file again") := by
  decide +kernel

/-- The operator confirms the list and, when that is done, once more. -/
theorem submitted_once_repeated : ∃ (batch : Batch) (answer : UploadAnswer) (s : Uploads),
    let events : List UploadEvent :=
      [.stage "t" sampleUpload, .confirm 0 true (some sampleForm), .lookup 0 "t" (.ok sampleRows),
        .submit 0 "t" (.new 0 0) none (.ok batch), .drop 0 "t" .jobCreated,
        .confirm 1 true (some sampleForm), .lookup 1 "t" (.error answer)]
    Run (Uploads.ExclusiveStep id) (.init 0) events s ∧ events.countP (·.submits "t") ≤ 1 := by
  obtain ⟨batch, hbatch⟩ := exists_batch_sample
  have hfirst := Uploads.runs_confirm (s := sampleStaged) (fun _ => rfl) 0 confirmLookup_sample
    hbatch
  have hstage : Uploads.ExclusiveStep id (.init 0) (.stage "t" sampleUpload) sampleStaged :=
    ⟨trivial, step_sample id⟩
  -- the second confirmation finds the token dropped
  have hrun := Run.cons hstage
    (hfirst.append (Uploads.runs_refused (fun _ => rfl) 1 confirmLookup_dropped))
  exact ⟨batch, _, _, hrun, submitted_once hrun "t"⟩

/-- The operator confirms the list twice at the same time, and both confirmations create a job. -/
theorem submitted_twice : ∃ (batch : Batch) (s : Uploads),
    let events : List UploadEvent :=
      [.stage "t" sampleUpload, .confirm 0 true (some sampleForm),
        .confirm 1 true (some sampleForm), .lookup 0 "t" (.ok sampleRows),
        .lookup 1 "t" (.ok sampleRows), .submit 0 "t" (.new 0 0) none (.ok batch),
        .submit 1 "t" (.new 0 0) none (.ok batch), .drop 0 "t" .jobCreated,
        .drop 1 "t" .jobCreated]
    Uploads.Runs id (.init 0) events s ∧ events.countP (·.submits "t") = 2 := by
  obtain ⟨batch, hbatch⟩ := exists_batch_sample
  obtain ⟨s, hrun⟩ := Run.exists_cons (step_sample id)
    (Uploads.exists_runs_overlap (fun _ => rfl) Nat.zero_ne_one confirmLookup_sample hbatch)
  exact ⟨batch, s, hrun, by simp [UploadEvent.submits, sampleForm]⟩

end Rcptto.Native.Web
