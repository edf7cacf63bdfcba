import Rcptto.ForStd.Multiset
import Rcptto.Native.Buckets
import Rcptto.Spec.Answers
import Rcptto.Spec.JobStore

/-!
# The counts of the buckets

The counts come from two histograms, of the statuses and of the reasons, and the downloads from the
verdicts themselves. The two agree since both reasons that are looked at stand under the status
`risky` (`Verdict.Regular`), in every verdict that the service can make without an agent.

## Key results

- `Producible.regular`: the verdicts of the service with the builtin engine are regular
- `Web.bucketCounts_eq`: the counts are those of the downloads, which partition the results
-/

namespace Rcptto.Native

/-! ## Regular verdicts -/

/-- The status is one of the four, and it is `risky` for a role account and for a skipped
    provider. -/
structure Verdict.Regular {F : Type} (v : Verdict F) : Prop where
  valid : v.status.valid = true
  role : v.subStatus = .roleAccount → v.status = .risky
  skipped : v.subStatus = .providerSkipped → v.status = .risky

variable {F : Type} [OfScientific F]

omit [OfScientific F] in
/-- A verdict with a reason that is neither of the two is regular. -/
theorem Verdict.Regular.of_plain {v : Verdict F} (hvalid : v.status.valid = true)
    {reasons : List SubStatus} (hsub : v.subStatus ∈ reasons) (hrole : .roleAccount ∉ reasons)
    (hskipped : .providerSkipped ∉ reasons) : v.Regular where
  valid := hvalid
  role h := absurd (h ▸ hsub) hrole
  skipped h := absurd (h ▸ hsub) hskipped

omit [OfScientific F] in
theorem Verdict.Regular.of_temporaryFailure {v : Verdict F} (hstatus : v.status = .unknown)
    (hsub : v.subStatus = .temporaryFailure) : v.Regular :=
  .of_plain (hstatus ▸ rfl) (List.mem_singleton.mpr hsub) (by decide) (by decide)

theorem Pipeline.regular_of_run {disposable : String → Bool} {r : Resolver} {now : Int}
    {email : String} {res : Result F} {v : Verdict F} (h : run disposable r now email = .ok res)
    (hv : res.outcome = .inl v) : v.Regular := by
  obtain ⟨-, hvalid, -⟩ := (run_tells h).2 v hv
  exact .of_plain hvalid (run_reasoned h hv) (by decide) (by decide)

/-- Verdicts of the engine are regular. -/
theorem Engine.verify_regular (cfg : Config) (env : Env) (t : Task) (eg : Binding) :
    (verify (F := F) cfg env t eg).verdict.Regular := by
  obtain ⟨⟨status, sub, code, msg, catchAll, hvalid, hv⟩, -, hreason⟩ :=
    verify_report (F := F) cfg env t eg
  refine .of_plain ?_ hreason (by decide) (by decide)
  rw [hv]
  exact hvalid

/-- A live role account becomes `risky`; other verdicts keep their status and reason. -/
theorem Service.merge_regular (res : Pipeline.Result F) (t : Task) {ev : Verdict F}
    (h : ev.Regular) : (merge res t ev).Regular := by
  unfold merge
  dsimp only
  split
  · exact ⟨rfl, fun _ => rfl, fun _ => rfl⟩
  · exact ⟨h.valid, h.role, h.skipped⟩

/-- All verdicts of a service without agents are regular. -/
theorem VerifyCall.Settles.regular {c : VerifyCall F} {key : String} {v : Verdict F}
    (h : c.Settles key v) (hlocal : ∀ id, c.service.remote id = false) : v.Regular := by
  obtain ⟨res, calls, hrun, -, hsettle⟩ := h
  -- from the funnel, a skip, a deferral, or the engine of the server
  rcases c.service.settle_cases c.outside hsettle with hv | ⟨t, -, hcases⟩
  · exact Pipeline.regular_of_run hrun hv
  · rcases hcases with rfl | rfl | ⟨eg, ev, signals, -, -, -, hask, rfl⟩
    · exact ⟨rfl, fun _ => rfl, fun _ => rfl⟩
    · exact .of_temporaryFailure rfl rfl
    · simp only [Service.askEngine, hlocal, Bool.false_eq_true, if_false] at hask
      cases hask
      exact Service.merge_regular res t (Engine.verify_regular ..)

/-- The verdicts that a job can record without agents: those of the service, at the end of any
    history of its calls, and the one that the runner makes up for an error. -/
def Producible (v : Verdict F) : Prop :=
  (∃ disposable calls cache, ResultStore.Runs disposable (fun _ => none) calls cache ∧
    (∀ c ∈ calls, ∀ id, c.service.remote id = false) ∧ ∃ c ∈ calls, c.result = .ok v) ∨
  ∃ email now, v = outcome email now none

/-- Verdicts that a service can produce are regular. -/
theorem Producible.regular {v : Verdict F} (h : Producible v) : v.Regular := by
  rcases h with ⟨disposable, calls, cache, hruns, hlocal, c, hc, hv⟩ | ⟨email, now, rfl⟩
  · obtain ⟨earlier, later, rfl⟩ := List.append_of_mem hc
    -- a verdict is settled by its own call, or by an earlier one and marked as cached
    obtain ⟨key, -, hsettles | ⟨a, ha, v₀, hsettles, rfl⟩⟩ := hruns.answered hv
    · exact hsettles.regular (hlocal c hc)
    · have h₀ := hsettles.regular (hlocal a (List.mem_append_left _ ha))
      exact ⟨h₀.valid, h₀.role, h₀.skipped⟩
  · exact .of_temporaryFailure rfl rfl

/-! ## Texts -/

/-- The text of a valid status belongs to no other status. -/
theorem Status.toString_eq_iff {s s' : Status} (hs' : s'.valid = true) :
    s.toString = s'.toString ↔ s = s' := by
  refine ⟨fun h => ?_, fun h => h ▸ rfl⟩
  cases s with
  | other text htext =>
    have hmem : s'.toString ∈ ["deliverable", "undeliverable", "risky", "unknown"] := by
      cases s' <;> simp_all [toString, valid]
    exact absurd ((show text = s'.toString from h) ▸ hmem) htext
  | _ => cases s' <;> simp_all [toString, valid]

/-- The text of these reasons belongs to no other reason. -/
theorem SubStatus.toString_eq_iff {s s' : SubStatus} (hs' : s' ∈ [roleAccount, providerSkipped]) :
    s.toString = s'.toString ↔ s = s' := by
  refine ⟨fun h => ?_, fun h => h ▸ rfl⟩
  simp only [List.mem_cons, List.not_mem_nil, or_false] at hs'
  cases s with
  | other text htext =>
    refine absurd ?_ htext
    rw [show text = s'.toString from h]
    rcases hs' with rfl | rfl <;> decide
  | _ => rcases hs' with rfl | rfl <;> simp_all [toString]

namespace Web

/-! ## Counting -/

omit [OfScientific F] in
/-- The pairs of status and bucket of regular verdicts. -/
theorem classify_cases {v : Verdict F} (h : v.Regular) :
    v.subStatus = .roleAccount ∧ v.status = .risky ∧ classify v = .safe ∨
    v.subStatus = .providerSkipped ∧ v.status = .risky ∧ classify v = .skipped ∨
    (v.subStatus ≠ .roleAccount ∧ v.subStatus ≠ .providerSkipped) ∧
      (v.status, classify v) ∈ [(Status.deliverable, Bucket.safe), (.risky, .risky),
        (.undeliverable, .undeliverable), (.unknown, .retry)] := by
  by_cases hrole : v.subStatus = .roleAccount
  · exact .inl ⟨hrole, h.role hrole, by simp [classify, hrole]⟩
  by_cases hskipped : v.subStatus = .providerSkipped
  · exact .inr (.inl ⟨hskipped, h.skipped hskipped, by simp [classify, hskipped]⟩)
  refine .inr (.inr ⟨⟨hrole, hskipped⟩, ?_⟩)
  have hvalid := h.valid
  cases hstatus : v.status with
  | other text htext => simp [hstatus, Status.valid] at hvalid
  | _ => cases hsub : v.subStatus <;> simp_all [classify]

section Cons

variable (r : JobResult F) (results : List (JobResult F))

omit [OfScientific F] in
theorem total_cons :
    (JobStats.ofResults (r :: results)).total = (JobStats.ofResults results).total + 1 := by
  simp [JobStats.ofResults_eq, JobStats.histogram]

omit [OfScientific F] in
/-- A result adds one to the count of its status. -/
theorem byStatus_cons (status : Status) (hstatus : status.valid = true) :
    (JobStats.ofResults (r :: results)).byStatus status.toString =
      (JobStats.ofResults results).byStatus status.toString +
        if r.verdict.status = status then 1 else 0 := by
  simp [JobStats.ofResults_eq, JobStats.histogram, List.countP_cons, Verdict.statsKey,
    Status.toString_eq_iff hstatus]

omit [OfScientific F] in
/-- A result adds one to the count of its reason. -/
theorem bySubStatus_cons (sub : SubStatus) (hsub : sub ∈ [.roleAccount, .providerSkipped]) :
    (JobStats.ofResults (r :: results)).bySubStatus sub.toString =
      (JobStats.ofResults results).bySubStatus sub.toString +
        if r.verdict.subStatus = sub then 1 else 0 := by
  simp [JobStats.ofResults_eq, JobStats.histogram, List.countP_cons, Verdict.statsKey,
    SubStatus.toString_eq_iff hsub]

omit [OfScientific F] in
/-- One more result adds one to the total of its bucket. -/
theorem bucketTotals_cons (h : r.verdict.Regular) (b : Bucket) :
    bucketTotals (.ofResults (r :: results)) b =
      bucketTotals (.ofResults results) b + if b = .all ∨ classify r.verdict = b then 1 else 0 := by
  have hdeliverable := byStatus_cons r results .deliverable rfl
  have hrisky := byStatus_cons r results .risky rfl
  have hundeliverable := byStatus_cons r results .undeliverable rfl
  have hunknown := byStatus_cons r results .unknown rfl
  have hrole := bySubStatus_cons r results .roleAccount (by simp)
  have hskipped := bySubStatus_cons r results .providerSkipped (by simp)
  simp only [Status.toString] at hdeliverable hrisky hundeliverable hunknown
  cases b with
  | all => simp [bucketTotals, total_cons]
  | _ =>
    simp only [bucketTotals, hdeliverable, hrisky, hundeliverable, hunknown, hrole, hskipped]
    rcases classify_cases h with ⟨hsub, hstatus, hb⟩ | ⟨hsub, hstatus, hb⟩ | ⟨⟨hr, hs⟩, hmem⟩
    · -- a role account counts as risky and as a role account
      simp [hsub, hstatus, hb] <;> omega
    · simp [hsub, hstatus, hb] <;> omega
    · simp only [List.mem_cons, Prod.mk.injEq, List.not_mem_nil, or_false] at hmem
      rcases hmem with ⟨hstatus, hb⟩ | ⟨hstatus, hb⟩ | ⟨hstatus, hb⟩ | ⟨hstatus, hb⟩ <;>
        simp [hr, hs, hstatus, hb] <;> omega

omit [OfScientific F] in
/-- A result is in the list of its bucket, and in that of all. -/
theorem filterBucket_cons (b : Bucket) : (filterBucket (r :: results) b).length =
    (filterBucket results b).length + if b = .all ∨ classify r.verdict = b then 1 else 0 := by
  unfold filterBucket
  by_cases hall : b = .all
  · simp [hall]
  · by_cases hb : classify r.verdict = b <;> simp [hall, hb]

end Cons

omit [OfScientific F] in
/-- Before the clamp, the totals are the sizes of the downloads. -/
theorem bucketTotals_eq {results : List (JobResult F)} (h : ∀ r ∈ results, r.verdict.Regular)
    (b : Bucket) : bucketTotals (.ofResults results) b = (filterBucket results b).length := by
  induction results with
  | nil => cases b <;> rfl
  | cons r results ih =>
    rw [bucketTotals_cons r results (h r (by simp)), filterBucket_cons,
      ih fun r' hr' => h r' (List.mem_cons_of_mem r hr')]
    push_cast
    rfl

omit [OfScientific F] in
/-- With regular verdicts the count of a bucket is the size of its list. -/
theorem bucketCounts_of_regular {results : List (JobResult F)}
    (h : ∀ r ∈ results, r.verdict.Regular) (b : Bucket) :
    bucketCounts (.ofResults results) b = (filterBucket results b).length := by
  rw [bucketCounts, bucketTotals_eq h, if_neg (by omega)]

omit [OfScientific F] in
/-- The controls show the sizes of the downloads. -/
theorem bucketViews_of_regular {results : List (JobResult F)}
    (h : ∀ r ∈ results, r.verdict.Regular) :
    bucketViews (.ofResults results) =
      bucketOrder.map fun b => ⟨b, b.label, (filterBucket results b).length⟩ :=
  List.map_congr_left fun b _ => by rw [bucketCounts_of_regular h]

/-! ## The downloads -/

/-- The buckets besides `all`. -/
def parts : List Bucket := [.safe, .risky, .undeliverable, .skipped, .retry]

theorem mem_parts_iff {b : Bucket} : b ∈ parts ↔ b ≠ .all := by
  cases b <;> decide

omit [OfScientific F] in
/-- A verdict belongs to one of the parts. -/
theorem classify_mem_parts (v : Verdict F) : classify v ∈ parts := by
  unfold classify
  split
  · decide
  · decide
  · split <;> decide

omit [OfScientific F] in
/-- Each result, as often as it occurs, is in one of the five downloads. -/
theorem parts_perm (results : List (JobResult F)) :
    (parts.flatMap (filterBucket results)).Perm results := by
  have hfilter : ∀ b ∈ parts, (filterBucket results b : Multiset (JobResult F)) =
      (results : Multiset (JobResult F)).filter fun r => classify r.verdict = b := by
    intro b hb
    rw [filterBucket, if_neg (mem_parts_iff.mp hb)]
    rfl
  -- as multisets, the parts are the filters of one classification
  refine Multiset.coe_eq_coe.mp ?_
  rw [← Multiset.coe_bind, Multiset.bind_congr hfilter]
  have hnodup : parts.Nodup := by decide
  exact Multiset.bind_filter_eq (fun r : JobResult F => classify r.verdict) hnodup
    fun r _ => classify_mem_parts r.verdict

omit [OfScientific F] in
theorem mem_filterBucket_iff {results : List (JobResult F)} {r : JobResult F} {b : Bucket}
    (hb : b ≠ .all) : r ∈ filterBucket results b ↔ r ∈ results ∧ classify r.verdict = b := by
  simp [filterBucket, hb]

/-- The count that is shown for a bucket is the number of rows of its download, also in the controls
    of the page, the five buckets besides `all` partition the results, and no count is clamped. -/
theorem bucketCounts_eq {results : List (JobResult F)}
    (h : ∀ r ∈ results, Producible r.verdict) :
    (∀ b, bucketCounts (.ofResults results) b = (filterBucket results b).length) ∧
      ((parts.flatMap (filterBucket results)).Perm results ∧
        ∀ r ∈ results, ∃! b, b ≠ .all ∧ r ∈ filterBucket results b) ∧
      (∀ b, 0 ≤ bucketTotals (.ofResults results) b) ∧
      bucketViews (.ofResults results) =
        bucketOrder.map fun b => ⟨b, b.label, (filterBucket results b).length⟩ := by
  have hregular : ∀ r ∈ results, r.verdict.Regular := fun r hr => (h r hr).regular
  refine ⟨bucketCounts_of_regular hregular, ⟨parts_perm results, fun r hr => ?_⟩, fun b => ?_,
    bucketViews_of_regular hregular⟩
  · have hne := mem_parts_iff.mp (classify_mem_parts r.verdict)
    refine ⟨classify r.verdict, ⟨hne, (mem_filterBucket_iff hne).mpr ⟨hr, rfl⟩⟩, ?_⟩
    rintro b ⟨hb, hmem⟩
    exact ((mem_filterBucket_iff hb).mp hmem).2.symm
  · rw [bucketTotals_eq hregular]
    omega

/-- A mail server that accepts everything. -/
def openServer : Server := fun sent =>
  if sent = [] then .reply 220 "ready" Response.ready_code else .reply 250 "ok" Response.ok_code

/-- There is an identity, and every mail server accepts everything. -/
def openOutside : Outside ℚ :=
  { plainOutside ℚ with
    binding := .ok { id := "w1", helo := "", mailFrom := "", transport := {} }
    env := { network := fun _ => some openServer, now := 0, random := none } }

/-- A live role account, an address at a provider that is skipped, and an error. -/
theorem bucketCounts_eq_three : ∃ results : List (JobResult ℚ),
    results.map (fun r => classify r.verdict) = [.safe, .skipped, .retry] ∧
      ∀ b, bucketCounts (.ofResults results) b = (filterBucket results b).length := by
  have hsafe : (plainService.call openOutside "info@example.net" fun _ => none).result.toOption.map
      classify = some .safe := by
    decide +kernel
  have hskipped : (plainService.call openOutside "a@gmail.com"
      (plainService.verify openOutside "info@example.net" fun _ => none).cache).result.toOption.map
      classify = some .skipped := by
    decide +kernel
  obtain ⟨v₁, hv₁, hsafe⟩ := VerifyCall.exists_result hsafe
  obtain ⟨v₂, hv₂, hskipped⟩ := VerifyCall.exists_result hskipped
  -- both verdicts come from one run of the service
  have hproducible : ∀ c ∈ plainService.calls openOutside "info@example.net" "a@gmail.com",
      ∀ v, c.result = .ok v → Producible v := by
    intro c hc v hv
    refine .inl ⟨_, _, _, plainService.runs_calls openOutside _ _, ?_, c, hc, hv⟩
    intro c hc id
    simp only [Service.calls, List.mem_cons, List.not_mem_nil, or_false] at hc
    rcases hc with rfl | rfl <;> rfl
  refine ⟨[⟨"", v₁⟩, ⟨"", v₂⟩, ⟨"", outcome "b@example.net" 0 none⟩],
    by simp [hsafe, hskipped]; rfl, (bucketCounts_eq ?_).1⟩
  intro r hr
  simp only [List.mem_cons, List.not_mem_nil, or_false] at hr
  rcases hr with rfl | rfl | rfl
  · exact hproducible _ (by simp [Service.calls]) v₁ hv₁
  · exact hproducible _ (by simp [Service.calls]) v₂ hv₂
  · exact .inr ⟨_, _, rfl⟩

end Web

end Rcptto.Native
