import Rcptto.Native.AgentList
import Rcptto.Spec.FleetView

/-!
# What a list of agents can say

`ParseAgents` is liberal in what it reads: blanks around a name, a URL or a comma do not matter,
and neither do empty parts. What it returns is a list of well-formed agents, every such list can
be written down, and of what it returns `NewRegistry` refuses only a name that is given twice.

## Key results

- `Agent.parseAgents_render`: a list that is written down is read back
- `Agent.wellFormed_of_parseAgents`: what is read is well formed
- `Agent.parseAgents_iff`: the two together, with the registry
-/

namespace Rcptto.Native.Agent

/-- An agent as `ParseAgents` returns it. -/
structure AgentConfig.WellFormed (c : AgentConfig) : Prop where
  id_ne : c.id ≠ ""
  id_trim : trimSpace c.id = c.id
  id_equals : '=' ∉ c.id.toList
  id_comma : ',' ∉ c.id.toList
  url_trim : trimSpace c.baseURL = c.baseURL
  url_comma : ',' ∉ c.baseURL.toList
  url_scheme : hasScheme c.baseURL = true

variable {spec token part : String} {c : AgentConfig} {cfgs : List AgentConfig}

theorem ne_of_hasScheme {url : String} (h : hasScheme url = true) : url ≠ "" := by
  rintro rfl
  exact absurd h (by decide)

/-! ## Writing -/

/-- One agent in the form that is read. -/
private def line (c : AgentConfig) : String := c.id ++ String.singleton '=' ++ c.baseURL

private theorem toList_line (c : AgentConfig) :
    (line c).toList = c.id.toList ++ '=' :: c.baseURL.toList := by
  simp [line]

private theorem line_ne (c : AgentConfig) : line c ≠ "" := by
  intro h
  have := toList_line c
  simp [h] at this

/-- Its ends are those of the name and of the URL. -/
private theorem trimSpace_line (h : c.WellFormed) : trimSpace (line c) = line c := by
  have hid : c.id.toList ≠ [] := by simpa using h.id_ne
  have hurl : c.baseURL.toList ≠ [] := by simpa using ne_of_hasScheme h.url_scheme
  rw [trimSpace_eq_self_iff, toList_line]
  constructor
  · rw [List.head?_append_of_ne_nil _ hid]
    exact (trimSpace_eq_self_iff.mp h.id_trim).1
  · rw [List.getLast?_append_of_ne_nil _ (by simp), List.getLast?_cons_of_ne_nil hurl]
    exact (trimSpace_eq_self_iff.mp h.url_trim).2

private theorem parseAgent_line (h : c.WellFormed) : parseAgent c.token (line c) = .ok c := by
  have hurl := ne_of_hasScheme h.url_scheme
  rw [parseAgent, line, cut_append h.id_equals]
  simp [h.id_trim, h.url_trim, h.id_ne, hurl, h.url_scheme]

private theorem render_eq (cfgs : List AgentConfig) :
    (render cfgs).toList = [','].intercalate (cfgs.map fun c => (line c).toList) := by
  simp only [render, String.toList_ofList, toList_line]

/-- The ends of the list are ends of agents. -/
private theorem trimSpace_render (h : ∀ c ∈ cfgs, c.WellFormed) :
    trimSpace (render cfgs) = render cfgs := by
  have hends : ∀ c ∈ cfgs, (line c).toList ≠ [] ∧
      (∀ x ∈ (line c).toList.head?, isSpace x = false) ∧
      ∀ x ∈ (line c).toList.getLast?, isSpace x = false := by
    intro c hc
    refine ⟨by rw [toList_line]; simp, trimSpace_eq_self_iff.mp (trimSpace_line (h c hc))⟩
  rw [trimSpace_eq_self_iff, render_eq]
  clear h
  -- a list begins where its first line does, and ends where its last line does
  induction cfgs with
  | nil => simp
  | cons c cfgs ih =>
    obtain ⟨hne, hhead, hlast⟩ := hends c List.mem_cons_self
    have hrest := ih fun c hc => hends c (List.mem_cons_of_mem _ hc)
    cases cfgs with
    | nil => simpa using ⟨hhead, hlast⟩
    | cons d cfgs =>
      rw [List.map_cons, List.map_cons, List.intercalate_cons_cons, List.append_assoc,
        ← List.map_cons (f := fun c => (line c).toList)]
      constructor
      · rw [List.head?_append_of_ne_nil _ hne]
        exact hhead
      · rw [List.getLast?_append_of_ne_nil _ (by simp), List.singleton_append, List.getLast?_cons]
        generalize [','].intercalate ((d :: cfgs).map fun c => (line c).toList) = rest at hrest ⊢
        cases hl : rest.getLast? with
        | none => simp [isSpace]
        | some x => simpa using hrest.2 x hl

/-- Lines are read back, one by one. -/
private theorem mapM_line (h : ∀ c ∈ cfgs, c.WellFormed ∧ c.token = token) :
    ((cfgs.map line).filter (· ≠ "")).mapM (parseAgent token) = .ok cfgs := by
  induction cfgs with
  | nil => rfl
  | cons c cfgs ih =>
    have hc := h c List.mem_cons_self
    have hparse : parseAgent token (line c) = .ok c := hc.2 ▸ parseAgent_line hc.1
    rw [List.map_cons, List.filter_cons_of_pos (by simpa using line_ne c), List.mapM_cons, hparse,
      ih fun c hc => h c (List.mem_cons_of_mem _ hc)]
    rfl

/-- A list that is written down is read back. -/
theorem parseAgents_render (h : ∀ c ∈ cfgs, c.WellFormed ∧ c.token = token) :
    parseAgents (render cfgs) token = .ok cfgs := by
  rw [parseAgents, trimSpace_render fun c hc => (h c hc).1]
  -- splitting an empty text would give one empty part
  cases cfgs with
  | nil => rfl
  | cons d rest =>
    have hcomma : ∀ l ∈ (d :: rest).map fun c => (line c).toList, ',' ∉ l := by
      intro l hl
      obtain ⟨c, hc, rfl⟩ := List.mem_map.mp hl
      rw [toList_line]
      simp [(h c hc).1.id_comma, (h c hc).1.url_comma]
    have hparts : (((render (d :: rest)).toList.splitOn ',').map fun p => trimSpace (.ofList p)) =
        (d :: rest).map line := by
      rw [render_eq, List.splitOn_intercalate ',' hcomma (by simp), List.map_map]
      refine List.map_congr_left fun c hc => ?_
      simp [trimSpace_line (h c hc).1]
    have hne : render (d :: rest) ≠ "" := by
      intro hempty
      rw [hempty] at hparts
      have hblank : "" = line d := (List.cons.inj hparts).1
      exact line_ne d hblank.symm
    rw [if_neg hne]
    dsimp only
    rw [hparts]
    exact mapM_line h

/-! ## Reading -/

/-- What is read from one part is well-formed. -/
theorem wellFormed_of_parseAgent (hcomma : ',' ∉ part.toList)
    (h : parseAgent token part = .ok c) : c.WellFormed ∧ c.token = token := by
  unfold parseAgent at h
  split at h
  · cases h
  · next id url hcut =>
    dsimp only at h
    split_ifs at h with hblank hscheme
    cases h
    obtain ⟨hid, hurl⟩ := not_or.mp hblank
    -- both sides are parts of the text, and the name ends at the first equals sign
    unfold cut at hcut
    split at hcut
    · simp only [Option.some.injEq, Prod.mk.injEq] at hcut
      obtain ⟨rfl, rfl⟩ := hcut
      refine ⟨⟨hid, trimSpace_trimSpace _, fun hmem => ?_, fun hmem => hcomma ?_,
        trimSpace_trimSpace _, fun hmem => hcomma ?_, by simpa using hscheme⟩, rfl⟩
      · have := mem_toList_of_mem_trimSpace hmem
        rw [String.toList_ofList] at this
        simpa using List.mem_takeWhile_imp this
      · have := mem_toList_of_mem_trimSpace hmem
        rw [String.toList_ofList] at this
        exact (List.takeWhile_sublist _).subset this
      · have := mem_toList_of_mem_trimSpace hmem
        rw [String.toList_ofList] at this
        exact (List.dropWhile_sublist _).subset (List.mem_of_mem_drop this)
    · cases hcut

/-- What is read from all parts is well-formed. -/
theorem wellFormed_of_mapM {parts : List String} (hparts : ∀ p ∈ parts, ',' ∉ p.toList)
    (h : parts.mapM (parseAgent token) = .ok cfgs) :
    ∀ c ∈ cfgs, c.WellFormed ∧ c.token = token := by
  induction parts generalizing cfgs with
  | nil =>
    cases h
    simp
  | cons p parts ih =>
    rw [List.mapM_cons] at h
    -- one part that cannot be read makes the list fail
    cases hp : parseAgent token p with
    | error err =>
      rw [hp] at h
      cases h
    | ok c =>
      cases hrest : parts.mapM (parseAgent token) with
      | error err =>
        rw [hp, hrest] at h
        cases h
      | ok rest =>
        rw [hp, hrest] at h
        cases h
        rw [List.forall_mem_cons]
        exact ⟨wellFormed_of_parseAgent (hparts p List.mem_cons_self) hp,
          ih (fun p hp => hparts p (List.mem_cons_of_mem _ hp)) hrest⟩

/-- What is read is well formed. -/
theorem wellFormed_of_parseAgents (h : parseAgents spec token = .ok cfgs) :
    ∀ c ∈ cfgs, c.WellFormed ∧ c.token = token := by
  unfold parseAgents at h
  dsimp only at h
  split at h
  · cases h
    simp
  · refine wellFormed_of_mapM (fun p hp => ?_) h
    obtain ⟨piece, hpiece, rfl⟩ := List.mem_map.mp (List.mem_filter.mp hp).1
    intro hmem
    have := mem_toList_of_mem_trimSpace hmem
    rw [String.toList_ofList] at this
    exact List.notMem_of_mem_splitOn hpiece this

-- white space, a slash at the end and empty entries do no harm
example : parseAgents " de=https://mx.example.org:9090/ , us = http://192.0.2.1,," "secret" =
    .ok [⟨"de", "https://mx.example.org:9090/", "secret"⟩,
      ⟨"us", "http://192.0.2.1", "secret"⟩] := by
  decide +kernel

/-! ## The registry -/

/-- `NewRegistry` accepts complete agents with different names. -/
theorem Registry.exists_addAll {r : Registry} (hcfgs : ∀ c ∈ cfgs, c.id ≠ "" ∧ c.baseURL ≠ "")
    (hnodup : (r.order ++ cfgs.map (·.id)).Nodup) : ∃ r', addAll r cfgs = .ok r' := by
  induction cfgs generalizing r with
  | nil => exact ⟨r, rfl⟩
  | cons c cfgs ih =>
    obtain ⟨hid, hurl⟩ := hcfgs c List.mem_cons_self
    -- no agent before this one has its name
    have hnew : ¬ (r.get? c.id).isSome := by
      intro hsome
      have hmem : c.id ∈ r.order := (r.mem_order c.id).mpr hsome
      rw [List.nodup_append] at hnodup
      exact hnodup.2.2 c.id hmem c.id (by simp) rfl
    rw [addAll, if_neg (by simp [hid, hurl]), if_neg hnew]
    refine ih (fun c hc => hcfgs c (List.mem_cons_of_mem _ hc)) ?_
    simpa using hnodup

/-- The lists that `ParseAgents` can return are the lists of well-formed agents with the common
    token, each of which it reads from its written form; and `NewRegistry` accepts one of them
    exactly if no two agents have the same name. -/
theorem parseAgents_iff (token : String) (cfgs : List AgentConfig) :
    ((∃ spec, parseAgents spec token = .ok cfgs) ↔
        ∀ c ∈ cfgs, c.WellFormed ∧ c.token = token) ∧
      (parseAgents (render cfgs) token = .ok cfgs ↔
        ∀ c ∈ cfgs, c.WellFormed ∧ c.token = token) ∧
      ((∃ spec registry, parseAgents spec token = .ok cfgs ∧ Registry.new cfgs = .ok registry) ↔
        (∀ c ∈ cfgs, c.WellFormed ∧ c.token = token) ∧ (cfgs.map (·.id)).Nodup) := by
  have hread : ∀ spec, parseAgents spec token = .ok cfgs →
      ∀ c ∈ cfgs, c.WellFormed ∧ c.token = token := fun spec => wellFormed_of_parseAgents
  refine ⟨⟨fun ⟨spec, h⟩ => hread spec h, fun h => ⟨_, parseAgents_render h⟩⟩,
    ⟨hread _, parseAgents_render⟩, ?_, ?_⟩
  · rintro ⟨spec, registry, h, hnew⟩
    obtain ⟨horder, hnodup, -⟩ := Registry.new_spec hnew
    exact ⟨hread spec h, horder ▸ hnodup⟩
  · rintro ⟨hcfgs, hnodup⟩
    obtain ⟨registry, hnew⟩ := Registry.exists_addAll (r := .empty)
      (fun c hc => ⟨(hcfgs c hc).1.id_ne, ne_of_hasScheme (hcfgs c hc).1.url_scheme⟩)
      (by simpa using hnodup)
    exact ⟨_, registry, parseAgents_render hcfgs, hnew⟩

end Rcptto.Native.Agent
