import Rcptto.Native.Migrate

/-!
# Every script once, and in order

Any number of servers may migrate one database at the same time, on binaries of different age, and
each of them may be stopped at any point. A call goes past a script only when its version is
recorded, so whoever applies a script finds all those before it applied, and the primary key lets
only one of them through. The scripts whose effects are in the tables are therefore always the
first ones of the list, each once and in its order.

## Key results

- `Migrating.Steps.migrated`: what one step of a call does to the database and to what it knows
- `migrated_of_runs`: the database after any execution
- `migrate_recovers`: whatever has happened before, one more undisturbed call completes the work
-/

namespace Rcptto.Native

/-! ## The scripts -/

/-- The scripts of the newest server, with their versions, which differ. -/
structure Plan where
  files : List DirEntry
  versions : List Int
  parsed : files.map (fun file => migrationVersion file.name) = versions.map .ok
  nodup : versions.Nodup

namespace Plan

variable (p : Plan) {i n : Nat} {file : DirEntry} {version : Int}

theorem length_versions : p.versions.length = p.files.length := by
  simpa using (congrArg List.length p.parsed).symm

/-- The name of a script has its version. -/
theorem exists_version (h : p.files[i]? = some file) :
    ∃ version, p.versions[i]? = some version ∧ migrationVersion file.name = .ok version := by
  have hparsed : (p.versions[i]?).map Except.ok = some (migrationVersion file.name) := by
    rw [← List.getElem?_map, ← p.parsed, List.getElem?_map, h, Option.map_some]
  obtain ⟨version, hversion, hok⟩ := Option.map_eq_some_iff.mp hparsed
  exact ⟨version, hversion, hok.symm⟩

/-- A version is among the first ones if and only if its place is. -/
theorem mem_take_versions (h : p.versions[i]? = some version) :
    version ∈ p.versions.take n ↔ i < n := by
  constructor
  · intro hmem
    obtain ⟨j, hj⟩ := List.mem_iff_getElem?.mp hmem
    obtain ⟨hjn, hj⟩ : j < n ∧ p.versions[j]? = some version := by
      rw [List.getElem?_take] at hj
      split at hj
      · next hjn => exact ⟨hjn, hj⟩
      · exact absurd hj (by simp)
    have hlt := (List.getElem?_eq_some_iff.mp hj).1
    -- versions are unique, so the two places are the same
    have hij : j = i := (List.getElem?_inj hlt p.nodup).mp (hj.trans h.symm)
    exact hij ▸ hjn
  · intro hin
    exact List.mem_iff_getElem?.mpr ⟨i, by rw [List.getElem?_take, if_pos hin, h]⟩

end Plan

section Migrate

variable {S : Type} (exec : String → S → Option S)

/-- The effects of these scripts, one after the other. -/
def runScripts (files : List DirEntry) (tables : S) : Option S :=
  files.foldlM (fun t file => exec file.content t) tables

theorem runScripts_append (files rest : List DirEntry) (tables : S) :
    runScripts exec (files ++ rest) tables =
      (runScripts exec files tables).bind (runScripts exec rest) :=
  List.foldlM_append

theorem runScripts_cons (file : DirEntry) (rest : List DirEntry) (tables : S) :
    runScripts exec (file :: rest) tables =
      (exec file.content tables).bind (runScripts exec rest) :=
  List.foldlM_cons

/-- The first `n` scripts are recorded, and the tables are what these have made of `t₀`. -/
structure Migrated (p : Plan) (t₀ : S) (n : Nat) (d : Schema S) : Prop where
  le : n ≤ p.files.length
  versions : d.versions = p.versions.take n
  tables : runScripts exec (p.files.take n) t₀ = some d.tables

/-- What a call by a server with the scripts `files` can rely on when `n` scripts are recorded: it
    has gone past recorded ones only, and when it succeeds they are all recorded. -/
def MigratePhase.Knows (p : Plan) (files : List DirEntry) (n : Nat) : MigratePhase → Prop
  | .called => True
  | .checking version file rest | .applying version file rest =>
    ∃ i ≤ n, p.files[i]? = some file ∧ p.versions[i]? = some version ∧ files.drop (i + 1) = rest
  | .returned none => files.length ≤ n
  | .returned (some _) => True

/-- One step of a call, on the database that it finds. -/
inductive Migrating.Steps (files : List DirEntry) (d : Schema S) :
    MigratePhase → Schema S → MigratePhase → Prop where
  | create : Steps files d .called d.create (.next files)
  | skip {version : Int} {file : DirEntry} {rest : List DirEntry} (h : version ∈ d.versions) :
    Steps files d (.checking version file rest) d (.next rest)
  | missing {version : Int} {file : DirEntry} {rest : List DirEntry} :
    Steps files d (.checking version file rest) d (.applying version file rest)
  | apply {version : Int} {file : DirEntry} {rest : List DirEntry} {d' : Schema S}
    (h : applyMigration exec d version file.content = some d') :
    Steps files d (.applying version file rest) d' (.next rest)
  | lost {version : Int} {file : DirEntry} {rest : List DirEntry} {d' : Schema S}
    {err : MigrateError} (h : applyMigration exec d version file.content = some d') :
    Steps files d (.applying version file rest) d' (.returned (some err))
  | fails {phase : MigratePhase} {err : MigrateError} :
    Steps files d phase d (.returned (some err))

variable {exec} {p : Plan} {t₀ t : S} {n m : Nat} {d d' : Schema S} {files : List DirEntry}
  {phase phase' : MigratePhase} {s s' : Migrating S} {a : MigrateAction} {as : List MigrateAction}

/-! ## One step -/

/-- Everything that can happen: a server starts, or one call makes a step. -/
theorem Migrating.step_cases (h : Migrating.Step exec s a s') :
    (∃ entries, a = .start entries ∧ s' = { s with calls := s.calls ++ [{ entries := entries }] }) ∨
    ∃ k c d phase, s.calls[k]? = some c ∧
      Migrating.Steps exec (migrationFiles c.entries) s.schema c.phase d phase ∧
      s' = { schema := d, calls := s.calls.set k { c with phase := phase } } := by
  -- each case of `perform` is one case of `Steps`, unless the call is not where the step takes
  -- place
  cases a with
  | start entries => exact .inl ⟨entries, rfl, (Option.some.inj h).symm⟩
  | create k =>
    right
    simp only [Step, perform] at h
    split at h
    · next entries hk => exact ⟨k, _, _, _, hk, .create, (Option.some.inj h).symm⟩
    · cases h
  | check k =>
    right
    simp only [Step, perform] at h
    split at h
    · next entries version file rest hk =>
      obtain rfl := Option.some.inj h
      split
      · next hmem => exact ⟨k, _, _, _, hk, .skip hmem, rfl⟩
      · exact ⟨k, _, _, _, hk, .missing, rfl⟩
    · cases h
  | apply k =>
    right
    simp only [Step, perform] at h
    split at h
    · next entries version file rest hk =>
      split at h
      · exact ⟨k, _, _, _, hk, .fails, (Option.some.inj h).symm⟩
      · next d hd => exact ⟨k, _, _, _, hk, .apply hd, (Option.some.inj h).symm⟩
    · cases h
  | lost k =>
    right
    simp only [Step, perform] at h
    split at h
    · next entries version file rest hk =>
      obtain ⟨d, hd, rfl⟩ := Option.map_eq_some_iff.mp h
      exact ⟨k, _, _, _, hk, .lost hd, rfl⟩
    · cases h
  | fails k err =>
    right
    simp only [Step, perform] at h
    split at h
    · cases h
    · cases h
    · next entries phase hk => exact ⟨k, _, _, _, hk, .fails, (Option.some.inj h).symm⟩

/-- What a call relies on stays true when more scripts are recorded. -/
theorem MigratePhase.Knows.mono (h : phase.Knows p files n) (hnm : n ≤ m) :
    phase.Knows p files m := by
  cases phase with
  | called => trivial
  | checking | applying =>
    obtain ⟨i, hi, hrest⟩ := h
    exact ⟨i, hi.trans hnm, hrest⟩
  | returned err =>
    cases err with
    | none => exact Nat.le_trans h hnm
    | some err => trivial

/-- The head of the loop, behind scripts that are recorded. -/
theorem MigratePhase.knows_next {i : Nat} (hfiles : files <+: p.files) (hi : i ≤ n) :
    (MigratePhase.next (files.drop i)).Knows p files n := by
  -- the loop is at its end, or at a script of the plan
  cases hrest : files.drop i with
  | nil => exact (List.drop_eq_nil_iff.mp hrest).trans hi
  | cons file rest =>
    have hfile : files[i]? = some file := by rw [← List.head?_drop, hrest, List.head?_cons]
    have hplan : p.files[i]? = some file := by
      obtain ⟨others, hfiles⟩ := hfiles
      rw [← hfiles, List.getElem?_append_left (List.getElem?_eq_some_iff.mp hfile).1, hfile]
    obtain ⟨version, hversion, hok⟩ := p.exists_version hplan
    simp only [MigratePhase.next, hok]
    exact ⟨i, hi, hplan, hversion, by rw [← List.tail_drop, hrest, List.tail_cons]⟩

/-- The transaction that applies the next script. -/
theorem Migrated.apply {i : Nat} {version : Int} {file : DirEntry}
    (h : Migrated exec p t₀ n d) (hi : i ≤ n) (hfile : p.files[i]? = some file)
    (hversion : p.versions[i]? = some version)
    (happly : applyMigration exec d version file.content = some d') :
    i = n ∧ Migrated exec p t₀ (n + 1) d' := by
  unfold applyMigration at happly
  split at happly
  · cases happly
  next tables htables =>
  split at happly
  · cases happly
  next hnew =>
  obtain rfl := Option.some.inj happly
  -- the version is not recorded, so the script is the first that is missing
  have hin : i = n := by
    rw [h.versions, p.mem_take_versions hversion] at hnew
    omega
  subst hin
  have htake : p.files.take (i + 1) = p.files.take i ++ [file] := by
    rw [List.take_add_one, hfile, Option.toList_some]
  refine ⟨rfl, ⟨(List.getElem?_eq_some_iff.mp hfile).1, ?_, ?_⟩⟩
  · rw [List.take_add_one, hversion, Option.toList_some, ← h.versions]
    rfl
  · rw [htake, runScripts_append, h.tables, Option.bind_some, runScripts_cons, htables]
    rfl

/-- A step of a call: the database stays migrated, and what the call relies on is true. -/
theorem Migrating.Steps.migrated (h : Migrating.Steps exec files d phase d' phase')
    (hfiles : files <+: p.files) (hd : Migrated exec p t₀ n d) (hknows : phase.Knows p files n) :
    ∃ m ≥ n, Migrated exec p t₀ m d' ∧ phase'.Knows p files m := by
  -- only a script that is applied moves the database on, and no call passes over a script that is
  -- missing
  cases h with
  | create =>
    exact ⟨n, le_rfl, ⟨hd.le, hd.versions, hd.tables⟩,
      MigratePhase.knows_next (i := 0) hfiles n.zero_le⟩
  | skip hmem =>
    obtain ⟨i, -, -, hversion, rfl⟩ := hknows
    rw [hd.versions, p.mem_take_versions hversion] at hmem
    exact ⟨n, le_rfl, hd, MigratePhase.knows_next hfiles hmem⟩
  | missing => exact ⟨n, le_rfl, hd, hknows⟩
  | apply happly =>
    obtain ⟨i, hi, hfile, hversion, rfl⟩ := hknows
    obtain ⟨rfl, hd'⟩ := hd.apply hi hfile hversion happly
    exact ⟨i + 1, Nat.le_add_right i 1, hd', MigratePhase.knows_next hfiles le_rfl⟩
  | lost happly =>
    obtain ⟨i, hi, hfile, hversion, -⟩ := hknows
    exact ⟨n + 1, Nat.le_add_right n 1, (hd.apply hi hfile hversion happly).2, trivial⟩
  | fails => exact ⟨n, le_rfl, hd, trivial⟩

/-! ## Whole executions -/

/-- The first `n` scripts are applied, and every call is by a server with some of the scripts of
    the plan and relies on nothing else. -/
structure Migrating.Sound (exec : String → S → Option S) (p : Plan) (t₀ : S) (n : Nat)
    (s : Migrating S) : Prop where
  migrated : Migrated exec p t₀ n s.schema
  files : ∀ c ∈ s.calls, migrationFiles c.entries <+: p.files
  knows : ∀ c ∈ s.calls, c.phase.Knows p (migrationFiles c.entries) n

/-- One step: the database has run a first part of the scripts, and each call knows what it has
    seen. -/
theorem Migrating.Sound.step (h : s.Sound exec p t₀ n) (hstep : Migrating.Step exec s a s')
    (hstart : ∀ entries, a = .start entries → migrationFiles entries <+: p.files) :
    ∃ m, s'.Sound exec p t₀ m := by
  -- a new call knows nothing yet; the step of another one may have run a script
  obtain ⟨entries, rfl, rfl⟩ | ⟨k, c, d, phase, hk, hsteps, rfl⟩ := Migrating.step_cases hstep
  · refine ⟨n, h.migrated, ?_, ?_⟩
    · simpa [or_imp, forall_and] using ⟨h.files, hstart entries rfl⟩
    · simpa [or_imp, forall_and] using ⟨h.knows, trivial⟩
  · have hc := List.mem_of_getElem? hk
    obtain ⟨m, hnm, hmigrated, hknows⟩ :=
      hsteps.migrated (h.files c hc) h.migrated (h.knows c hc)
    refine ⟨m, hmigrated, ?_, ?_⟩
    · intro c' hc'
      rcases List.mem_or_eq_of_mem_set hc' with hc' | rfl
      · exact h.files c' hc'
      · exact h.files c hc
    · intro c' hc'
      rcases List.mem_or_eq_of_mem_set hc' with hc' | rfl
      · exact (h.knows c' hc').mono hnm
      · exact hknows

/-- So it is in every execution. -/
theorem Migrating.sound_of_runs (hrun : Migrating.Runs exec s as s') (hs : s.Sound exec p t₀ n)
    (hstart : ∀ entries, .start entries ∈ as → migrationFiles entries <+: p.files) :
    ∃ m, s'.Sound exec p t₀ m := by
  refine hrun.invariant (P := fun s => ∃ m, s.Sound exec p t₀ m) ⟨n, hs⟩ ?_
  rintro s a s' ha ⟨m, hm⟩ hstep
  exact hm.step hstep fun entries hentries => hstart entries (hentries ▸ ha)

/-- An empty database. -/
def Migrating.empty (t₀ : S) : Migrating S := { schema := { migrations := none, tables := t₀ } }

theorem Migrating.sound_empty : (Migrating.empty t₀).Sound exec p t₀ 0 :=
  ⟨⟨Nat.zero_le _, rfl, rfl⟩, by simp [empty], by simp [empty]⟩

/-- After any execution of any number of servers, whose scripts are the first ones of the plan, the
    scripts that have taken effect are the first ones of the plan, each once and in its order, and
    their versions are those that are recorded. The scripts of a server whose call has succeeded
    are all among them. -/
theorem migrated_of_runs (p : Plan) (hrun : Migrating.Runs exec (.empty t₀) as s')
    (hstart : ∀ entries, .start entries ∈ as → migrationFiles entries <+: p.files) :
    ∃ done, done <+: p.files ∧ s'.schema.versions = p.versions.take done.length ∧
      runScripts exec done t₀ = some s'.schema.tables ∧
      ∀ c ∈ s'.calls, c.phase = .returned none → migrationFiles c.entries <+: done := by
  obtain ⟨n, hsound⟩ := Migrating.sound_of_runs hrun (Migrating.sound_empty (p := p)) hstart
  have hlength : (p.files.take n).length = n := List.length_take_of_le hsound.migrated.le
  refine ⟨p.files.take n, List.take_prefix n p.files, ?_, hsound.migrated.tables, ?_⟩
  · rw [hlength, hsound.migrated.versions]
  · intro c hc hreturned
    have hknows := hsound.knows c hc
    rw [hreturned] at hknows
    exact List.prefix_take_iff.mpr ⟨hsound.files c hc, hknows⟩

/-- The scripts of the server, with their contents abbreviated. -/
def embeddedScripts : List DirEntry :=
  [{ name := "0001_init.sql", content := "init" },
    { name := "0002_egress_state.sql", content := "egress_state" },
    { name := "0003_result_labels.sql", content := "result_labels" },
    { name := "0004_settings.sql", content := "settings" }]

/-- The plan of these scripts. -/
def embeddedPlan : Plan where
  files := embeddedScripts
  versions := [1, 2, 3, 4]
  parsed := by decide +kernel
  nodup := by decide

theorem migrationFiles_embeddedScripts : migrationFiles embeddedScripts = embeddedPlan.files := by
  decide +kernel

/-- Two servers start at the same time. Both find the first script missing, and one of them is too
    late; the other one does not learn that it has applied the second script. -/
def racingServers : List MigrateAction :=
  [.start embeddedScripts, .start embeddedScripts, .create 0, .create 1, .check 0, .check 1,
    .apply 0, .apply 1, .check 0, .lost 0]

theorem start_mem_racingServers {entries : List DirEntry} (h : .start entries ∈ racingServers) :
    migrationFiles entries <+: embeddedPlan.files := by
  have hentries : entries = embeddedScripts := by simpa [racingServers] using h
  rw [hentries, migrationFiles_embeddedScripts]

/-- Two servers start at the same time, and both versions are recorded once. -/
theorem exists_racingServers : ∃ s, Migrating.Runs (fun sql log => some (log ++ [sql]))
    (.empty ([] : List String)) racingServers s ∧ s.schema.versions = [1, 2] := by
  have hsome : ((racingServers.foldlM (Migrating.perform fun sql log => some (log ++ [sql]))
      (.empty [])).any fun s => s.schema.versions = [1, 2]) = true := by decide +kernel
  obtain ⟨s, hs, hversions⟩ := (Option.any_eq_true _ _).mp hsome
  exact ⟨s, Run.iff_foldlM.mpr hs, of_decide_eq_true hversions⟩

/-- The two servers have applied the first two scripts, each once. -/
theorem migrated_racingServers : ∃ s, Migrating.Runs (fun sql log => some (log ++ [sql]))
    (.empty ([] : List String)) racingServers s ∧ s.schema.versions = [1, 2] ∧
      ∃ done, done <+: embeddedPlan.files ∧
        s.schema.versions = embeddedPlan.versions.take done.length ∧
        runScripts (fun sql log => some (log ++ [sql])) done [] = some s.schema.tables ∧
        ∀ c ∈ s.calls, c.phase = .returned none → migrationFiles c.entries <+: done := by
  obtain ⟨s, hrun, hversions⟩ := exists_racingServers
  exact ⟨s, hrun, hversions,
    migrated_of_runs embeddedPlan hrun fun _ => start_mem_racingServers⟩

/-! ## A call on its own -/

/-- The call that a step belongs to, unless it is the start of a server. -/
def MigrateAction.call : MigrateAction → Option Nat
  | .start _ => none
  | .create k | .check k | .apply k | .lost k | .fails k _ => some k

namespace Migrating

variable {k : Nat} {entries rest : List DirEntry}

/-- The state after the `k`-th call has gone on to this phase, with this database. -/
def goesOn (s : Migrating S) (k : Nat) (entries : List DirEntry) (d : Schema S)
    (phase : MigratePhase) : Migrating S :=
  { s.setPhase k entries phase with schema := d }

/-- A call that stays where it is. -/
theorem goesOn_self (hk : s.calls[k]? = some ⟨entries, phase⟩) :
    s.goesOn k entries s.schema phase = s := by
  have hset : s.calls.set k ⟨entries, phase⟩ = s.calls := by
    obtain ⟨hlt, hget⟩ := List.getElem?_eq_some_iff.mp hk
    rw [← hget, List.set_getElem_self]
  simp only [goesOn, setPhase, hset]

@[simp] theorem goesOn_goesOn :
    (s.goesOn k entries d phase).goesOn k entries d' phase' = s.goesOn k entries d' phase' := by
  simp [goesOn, setPhase]

theorem getElem?_goesOn {c : MigrateCall} (hk : s.calls[k]? = some c) :
    (s.goesOn k entries d phase).calls[k]? = some ⟨entries, phase⟩ := by
  simp [goesOn, setPhase, List.getElem?_set_self (List.getElem?_eq_some_iff.mp hk).1]

@[simp] theorem schema_goesOn : (s.goesOn k entries d phase).schema = d := rfl

/-- The `k`-th call alone takes the one state to the other. -/
def RunsAlone (exec : String → S → Option S) (k : Nat) (s s' : Migrating S) : Prop :=
  ∃ as, (∀ a ∈ as, a.call = some k) ∧ Migrating.Runs exec s as s'

theorem RunsAlone.cons {t : Migrating S} (hstep : Step exec s a t) (ha : a.call = some k)
    (h : RunsAlone exec k t s') : RunsAlone exec k s s' := by
  obtain ⟨as, has, hrun⟩ := h
  exact ⟨a :: as, by simpa [ha] using has, .cons hstep hrun⟩

/-- A call that has returned. -/
theorem RunsAlone.returned {err : Option MigrateError}
    (hk : s.calls[k]? = some ⟨entries, .returned err⟩) :
    RunsAlone exec k s (s.goesOn k entries s.schema (.returned err)) :=
  ⟨[], by simp, Run.nil_iff.mpr (goesOn_self hk)⟩

/-- The loop of `Migrate`, as steps of one call. -/
theorem runs_migrateLoop (hk : s.calls[k]? = some ⟨entries, .next rest⟩) :
    RunsAlone exec k s (s.goesOn k entries (migrateLoop exec s.schema rest).1
      (.returned (migrateLoop exec s.schema rest).2)) := by
  induction rest generalizing s with
  | nil => exact .returned hk
  | cons file rest ih =>
    rw [migrateLoop]
    cases hversion : migrationVersion file.name with
    | error err =>
      simp only [MigratePhase.next, hversion] at hk
      exact .returned hk
    | ok version =>
      simp only [MigratePhase.next, hversion] at hk
      have hcheck : Step exec s (.check k) (s.goesOn k entries s.schema
          (if version ∈ s.schema.versions then .next rest else .applying version file rest)) := by
        simp only [Step, perform, hk]
        rfl
      refine .cons hcheck rfl ?_
      by_cases hmem : version ∈ s.schema.versions
      · -- the version is recorded, and the loop goes on behind the script
        simp only [hmem, ↓reduceIte]
        simpa using ih (getElem?_goesOn hk)
      · simp only [hmem, ↓reduceIte]
        -- the transaction fails or takes effect
        have happlying : (s.goesOn k entries s.schema (.applying version file rest)).calls[k]? =
          some ⟨entries, .applying version file rest⟩ := getElem?_goesOn hk
        cases happly : applyMigration exec s.schema version file.content with
        | none =>
          have hstep : Step exec (s.goesOn k entries s.schema (.applying version file rest))
              (.apply k) (s.goesOn k entries s.schema (.returned (some (.apply file.name)))) := by
            simp only [Step, perform, happlying, schema_goesOn, happly]
            exact congrArg some goesOn_goesOn
          refine .cons hstep rfl ?_
          have hreturned : RunsAlone exec k
              (s.goesOn k entries s.schema (.returned (some (.apply file.name)))) _ :=
            .returned (getElem?_goesOn hk)
          simpa using hreturned
        | some d =>
          have hstep : Step exec (s.goesOn k entries s.schema (.applying version file rest))
              (.apply k) (s.goesOn k entries d (.next rest)) := by
            simp only [Step, perform, happlying, schema_goesOn, happly]
            exact congrArg some goesOn_goesOn
          refine .cons hstep rfl ?_
          simpa using ih (getElem?_goesOn (d := d) hk)

/-- `Migrate` by a server that starts when nothing else happens. -/
theorem runs_migrate (exec : String → S → Option S) (s : Migrating S) (entries : List DirEntry) :
    ∃ s₀, Step exec s (.start entries) s₀ ∧
      RunsAlone exec s.calls.length s₀
        (s₀.goesOn s.calls.length entries (migrate exec s.schema entries).1
          (.returned (migrate exec s.schema entries).2)) := by
  -- the new call is the last one
  have hk : (s.calls ++ [{ entries := entries }])[s.calls.length]? =
      some (⟨entries, .called⟩ : MigrateCall) := List.getElem?_concat_length
  have hcreate : Step exec { s with calls := s.calls ++ [{ entries := entries }] }
      (.create s.calls.length)
      (goesOn { s with calls := s.calls ++ [{ entries := entries }] } s.calls.length entries
        s.schema.create (.next (migrationFiles entries))) := by
    simp only [Step, perform, hk]
    rfl
  refine ⟨_, rfl, .cons hcreate rfl ?_⟩
  simpa [migrate] using runs_migrateLoop (getElem?_goesOn hk)

end Migrating

/-- What is left to do when the first scripts are applied. -/
theorem Migrated.rest {i : Nat} {rest : List DirEntry} (hd : Migrated exec p t₀ n d)
    (hexists : d.migrations = some d.versions) (ht : runScripts exec p.files t₀ = some t)
    (hi : i ≤ n) (hrest : p.files.drop i = rest) :
    migrateLoop exec d rest = ({ migrations := some p.versions, tables := t }, none) := by
  induction rest generalizing i n d with
  | nil =>
    have hn : p.files.length ≤ n := (List.drop_eq_nil_iff.mp hrest).trans hi
    have hversions : d.versions = p.versions := by
      rw [hd.versions, List.take_of_length_le (p.length_versions.trans_le hn)]
    have htables : d.tables = t := by
      have htables := hd.tables
      rw [List.take_of_length_le hn, ht] at htables
      exact (Option.some.inj htables).symm
    rw [migrateLoop, ← hversions, ← htables, ← hexists]
  | cons file rest ih =>
    have hfile : p.files[i]? = some file := by rw [← List.head?_drop, hrest, List.head?_cons]
    have hrest' : p.files.drop (i + 1) = rest := by rw [← List.tail_drop, hrest, List.tail_cons]
    obtain ⟨version, hversion, hok⟩ := p.exists_version hfile
    rw [migrateLoop, hok]
    have hmem : version ∈ d.versions ↔ i < n := by rw [hd.versions, p.mem_take_versions hversion]
    by_cases hin : i < n
    · simp only [hmem.mpr hin, ↓reduceIte]
      exact ih hd hexists hin hrest'
    · -- the script is the next one, and the tables it finds are those it finds in a full pass
      obtain rfl : i = n := by omega
      obtain ⟨tables, htables⟩ : ∃ tables, exec file.content d.tables = some tables := by
        rw [← List.take_append_drop i p.files, hrest, runScripts_append, hd.tables,
          Option.bind_some, runScripts_cons] at ht
        obtain ⟨tables, htables, -⟩ := Option.bind_eq_some_iff.mp ht
        exact ⟨tables, htables⟩
      have happly : applyMigration exec d version file.content =
          some { migrations := some (d.versions ++ [version]), tables := tables } := by
        simp [applyMigration, htables, hmem]
      simp only [hmem, lt_irrefl, ↓reduceIte, happly]
      exact ih (hd.apply le_rfl hfile hversion happly).2 rfl le_rfl hrest'

/-- Whatever servers have done before, and wherever they were stopped: a server with the scripts of
    the plan that starts when nothing else happens completes the work, if the scripts can be
    applied at all, and a call after that changes nothing. -/
theorem migrate_recovers (p : Plan) (hrun : Migrating.Runs exec (.empty t₀) as s)
    (hstart : ∀ entries, .start entries ∈ as → migrationFiles entries <+: p.files)
    {entries : List DirEntry} (hentries : migrationFiles entries = p.files)
    (ht : runScripts exec p.files t₀ = some t) :
    let d : Schema S := { migrations := some p.versions, tables := t }
    migrate exec s.schema entries = (d, none) ∧ migrate exec d entries = (d, none) ∧
      ∃ s₀, Migrating.Step exec s (.start entries) s₀ ∧
        Migrating.RunsAlone exec s.calls.length s₀
          (s₀.goesOn s.calls.length entries d (.returned none)) := by
  intro d
  obtain ⟨n, hsound⟩ := Migrating.sound_of_runs hrun (Migrating.sound_empty (p := p)) hstart
  have hd : Migrated exec p t₀ p.files.length d := by
    refine ⟨le_rfl, ?_, by rwa [List.take_length]⟩
    rw [← p.length_versions, List.take_length]
    rfl
  -- from whatever the calls have left behind, the rest of the scripts is run
  have hmigrate : ∀ {n d'}, Migrated exec p t₀ n d' → migrate exec d' entries = (d, none) := by
    intro n d' hd'
    rw [migrate, hentries]
    exact Migrated.rest (i := 0) (d := d'.create) ⟨hd'.le, hd'.versions, hd'.tables⟩ rfl ht
      n.zero_le rfl
  obtain ⟨s₀, hs₀, halone⟩ := Migrating.runs_migrate exec s entries
  rw [hmigrate hsound.migrated] at halone
  exact ⟨hmigrate hsound.migrated, hmigrate hd, s₀, hs₀, halone⟩

/-- After the two servers above, a third one completes the work. -/
theorem migrate_recovers_racingServers :
    ∃ s, Migrating.Runs (fun sql log => some (log ++ [sql])) (.empty ([] : List String))
        racingServers s ∧ s.schema.versions = [1, 2] ∧
      migrate (fun sql log => some (log ++ [sql])) s.schema embeddedScripts =
        ({ migrations := some [1, 2, 3, 4],
           tables := ["init", "egress_state", "result_labels", "settings"] }, none) := by
  obtain ⟨s, hrun, hversions⟩ := exists_racingServers
  exact ⟨s, hrun, hversions, (migrate_recovers embeddedPlan hrun
    (fun _ => start_mem_racingServers) migrationFiles_embeddedScripts rfl).1⟩

end Migrate

end Rcptto.Native
