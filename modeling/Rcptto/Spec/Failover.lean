import Rcptto.Native.Strconv
import Rcptto.Spec.Engine
import Rcptto.Spec.Honest

/-!
# Failover between mail servers

A probe dials the mail exchangers of its task one after the other, until one of them can be
reached, and what it reports is the conversation with that one. A network is free to decide about
a dial as it likes, so the outcome of the dial number `j` is `env.network` of the first `j + 1`
addresses.

## Key results

- `Engine.reached_eq_some_iff`, `Engine.reached_eq_none_iff`: the search for a server
- `Engine.verify_failover`: what is dialled and what is reported, for any list of hosts
-/

namespace Rcptto.Native

namespace Engine

/-- The addresses of the mail exchangers of a task, in the order of the list. -/
def addresses (cfg : Config) (hosts : List String) : List String :=
  hosts.map (joinHostPort · cfg.port)

/-- The host and the port of an address: what is before and what is behind its last colon, without
    the brackets around a host. -/
def splitHostPort (addr : String) : String × String :=
  let host := (addr.toList.rdropWhile (· ≠ ':')).dropLast
  (.ofList (host.filter fun c => c ≠ '[' && c ≠ ']'), .ofList (addr.toList.rtakeWhile (· ≠ ':')))

/-- The host and the port that an address was made of. -/
theorem splitHostPort_joinHostPort {host : String} (hopen : '[' ∉ host.toList)
    (hclose : ']' ∉ host.toList) (port : Nat) :
    splitHostPort (joinHostPort host port) = (host, toString port) := by
  -- the port has no colon
  have hport : ∀ c ∈ (toString port).toList, decide (c ≠ ':') = true := by
    intro c hc
    refine decide_eq_true fun hcolon => ?_
    have hdigit := isDigit_of_mem_toString hc
    rw [hcolon] at hdigit
    exact absurd hdigit (by decide)
  have hhost : host.toList.filter (fun c => c ≠ '[' && c ≠ ']') = host.toList := by
    rw [List.filter_eq_self]
    intro c hc
    have h₁ : c ≠ '[' := fun h => hopen (h ▸ hc)
    have h₂ : c ≠ ']' := fun h => hclose (h ▸ hc)
    simp [h₁, h₂]
  have hsplit : ∀ (addr : String) (front : List Char),
      addr.toList = front ++ ':' :: (toString port).toList →
      front.filter (fun c => c ≠ '[' && c ≠ ']') = host.toList →
      splitHostPort addr = (host, toString port) := by
    intro addr front haddr hfront
    simp only [splitHostPort, haddr]
    rw [List.rdropWhile_append_cons (by decide) hport,
      List.rtakeWhile_append_cons (by decide) hport, List.dropLast_concat, hfront,
      String.ofList_toList, String.ofList_toList]
  rw [joinHostPort]
  split
  · refine hsplit _ ('[' :: (host.toList ++ [']'])) (by simp) ?_
    rw [List.filter_cons_of_neg (by decide), List.filter_append, hhost]
    simp
  · exact hsplit _ host.toList (by simp) hhost

/-- So each address is that of a mail exchanger, at the port of the configuration. -/
theorem map_splitHostPort_addresses (cfg : Config) {hosts : List String}
    (h : ∀ host ∈ hosts, '[' ∉ host.toList ∧ ']' ∉ host.toList) :
    (addresses cfg hosts).map splitHostPort = hosts.map fun host => (host, toString cfg.port) := by
  rw [addresses, List.map_map]
  exact List.map_congr_left fun host hhost =>
    splitHostPort_joinHostPort (h host hhost).1 (h host hhost).2 cfg.port

/-- The dial number `k` reaches the server, and the dials before it have failed. -/
def FirstReached (env : Env) (addrs : List String) (k : Nat) (server : Server) : Prop :=
  k < addrs.length ∧ env.network (addrs.take (k + 1)) = some server ∧
    ∀ j < k, env.network (addrs.take (j + 1)) = none

/-- Every dial has failed. -/
def Unreachable (env : Env) (addrs : List String) : Prop :=
  ∀ j < addrs.length, env.network (addrs.take (j + 1)) = none

/-- The report of a probe that has spoken to nobody. -/
def Report.NoConnect {F : Type} (r : Report F) : Prop :=
  r.verdict.status = .unknown ∧ r.verdict.subStatus = .noConnect ∧
    r.signals.map (·.kind) = [.connRefused]

variable {F : Type} [OfScientific F] {cfg : Config} {env : Env} {t : Task} {eg : Binding}
  {server : Server} {hosts dialled dialled' : List String}

/-! ## The search for a server -/

/-- The dials after the first one are those of the rest, with one more address dialled. -/
theorem take_addresses_cons (host : String) (j : Nat) :
    dialled ++ (addresses cfg (host :: hosts)).take (j + 1) =
      dialled ++ [joinHostPort host cfg.port] ++ (addresses cfg hosts).take j := by
  simp [addresses]

/-- The search ends with the first dial that succeeds. -/
theorem reached_eq_some_iff : reached cfg env hosts dialled = some (dialled', server) ↔
    ∃ k < hosts.length, dialled' = dialled ++ (addresses cfg hosts).take (k + 1) ∧
      env.network dialled' = some server ∧
      ∀ j < k, env.network (dialled ++ (addresses cfg hosts).take (j + 1)) = none := by
  induction hosts generalizing dialled with
  | nil => simp [reached]
  | cons host hosts ih =>
    rw [reached]
    cases hdial : env.network (dialled ++ [joinHostPort host cfg.port]) with
    | none =>
      -- the dial number `k` of the rest is the number `k + 1` of the whole list
      simp only [ih, take_addresses_cons]
      constructor
      · rintro ⟨k, hk, rfl, hserver, hfailed⟩
        refine ⟨k + 1, by simpa using hk, rfl, hserver, ?_⟩
        intro j hj
        cases j with
        | zero => simpa using hdial
        | succ j => exact hfailed j (by omega)
      · rintro ⟨k, hk, rfl, hserver, hfailed⟩
        cases k with
        | zero => simp [hdial] at hserver
        | succ k =>
          exact ⟨k, by simpa using hk, rfl, hserver, fun j hj => hfailed (j + 1) (by omega)⟩
    | some server' =>
      simp only [Option.some.injEq, Prod.mk.injEq, take_addresses_cons]
      constructor
      · rintro ⟨rfl, rfl⟩
        exact ⟨0, by simp, by simp, hdial, by simp⟩
      · rintro ⟨k, hk, rfl, hserver, hfailed⟩
        cases k with
        | zero =>
          rw [List.take_zero, List.append_nil] at hserver ⊢
          exact ⟨rfl, Option.some.inj (hdial.symm.trans hserver)⟩
        | succ k =>
          -- the first dial has succeeded, so no later one is the first to do so
          have hfirst := hfailed 0 (by omega)
          simp [hdial] at hfirst

/-- The search fails only if every dial does. -/
theorem reached_eq_none_iff : reached cfg env hosts dialled = none ↔
    ∀ j < hosts.length,
      env.network (dialled ++ (addresses cfg hosts).take (j + 1)) = none := by
  -- by induction on the hosts that are left to dial
  induction hosts generalizing dialled with
  | nil => simp [reached]
  | cons host hosts ih =>
    rw [reached]
    simp only [take_addresses_cons, List.length_cons]
    cases hdial : env.network (dialled ++ [joinHostPort host cfg.port]) with
    | none =>
      simp only [ih]
      constructor
      · intro h j hj
        cases j with
        | zero => simpa using hdial
        | succ j => exact h j (by omega)
      · intro h j hj
        exact h (j + 1) (by omega)
    | some server' =>
      simp only [reduceCtorEq, false_iff, not_forall]
      exact ⟨0, by omega, by simp [hdial]⟩

/-! ## Reports -/

/-- A conversation is never reported as a failure to connect. -/
theorem not_noConnect_conversation (cfg : Config) (env : Env) (t : Task) (eg : Binding)
    (dialled : List String) (server : Server) :
    ¬ (conversation (F := F) cfg env t eg dialled server).NoConnect := by
  obtain ⟨status, sub, kind, hmem, _, _, _, _, _, hp⟩ :=
    probeHost_concludes (F := F) cfg env t eg { server := server } trivial
  intro h
  have hsub : sub = .noConnect := by
    have hverdict : (conversation (F := F) cfg env t eg dialled server).verdict.subStatus = sub :=
      congrArg (fun p => p.1.subStatus) hp
    exact hverdict.symm.trans h.2.1
  -- none of the ways in which a conversation can end has this sub-status
  have hlist : ∀ c ∈ conclusions, c.2.1 ≠ .noConnect := by decide
  exact hlist _ hmem hsub

/-- A probe without mail exchangers, or one that reaches none of them. -/
theorem verify_of_none (t : Task) (eg : Binding) (h : reached cfg env t.mx [] = none) :
    (verify (F := F) cfg env t eg).dialled = addresses cfg t.mx ∧
      (verify (F := F) cfg env t eg).NoConnect := by
  unfold verify
  split
  · next hmx =>
    rw [List.length_eq_zero_iff.mp hmx]
    exact ⟨rfl, rfl, rfl, rfl⟩
  · rw [probeHosts_of_none t eg h]
    exact ⟨rfl, rfl, rfl, rfl⟩

/-- For every list of mail exchangers and every pattern of failing dials: the hosts are dialled in
    the order of the list, up to and including the first one that can be reached, and the verdict
    and the signals are those of the conversation with it. The report is that nobody could be
    reached if and only if there is no host or every dial has failed. -/
theorem verify_failover (cfg : Config) (env : Env) (t : Task) (eg : Binding) :
    ((∃ k server, FirstReached env (addresses cfg t.mx) k server ∧
        (verify (F := F) cfg env t eg).dialled = (addresses cfg t.mx).take (k + 1) ∧
        ((verify (F := F) cfg env t eg).verdict, (verify (F := F) cfg env t eg).signals) =
          ((probeHost (F := F) cfg env t eg).run { server := server }).1) ∨
      Unreachable env (addresses cfg t.mx) ∧
        (verify (F := F) cfg env t eg).dialled = addresses cfg t.mx) ∧
    ((verify (F := F) cfg env t eg).NoConnect ↔
      t.mx = [] ∨ Unreachable env (addresses cfg t.mx)) := by
  have hlength : (addresses cfg t.mx).length = t.mx.length := List.length_map _
  cases hreached : reached cfg env t.mx [] with
  | none =>
    obtain ⟨hdialled, hreport⟩ := verify_of_none (F := F) t eg hreached
    have hunreachable : Unreachable env (addresses cfg t.mx) := by
      rw [Unreachable, hlength]
      simpa using reached_eq_none_iff.mp hreached
    exact ⟨.inr ⟨hunreachable, hdialled⟩, iff_of_true hreport (.inr hunreachable)⟩
  | some p =>
    obtain ⟨dialled, server⟩ := p
    obtain ⟨k, hk, rfl, hserver, hfailed⟩ := reached_eq_some_iff.mp hreached
    simp only [List.nil_append] at hserver hfailed hreached
    -- a conversation never ends in the report for failed dials
    rw [verify_of_some t eg hreached]
    refine ⟨.inl ⟨k, server, ⟨by omega, hserver, hfailed⟩, rfl, rfl⟩, ?_⟩
    refine iff_of_false (not_noConnect_conversation cfg env t eg _ server) ?_
    rintro (hmx | hunreachable)
    · simp [hmx] at hk
    · cases (hunreachable k (by omega)).symm.trans hserver

end Engine

end Rcptto.Native
