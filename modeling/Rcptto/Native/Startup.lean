import Rcptto.Native.Manager

/-!
# Start-up of the server

The part of `run` in `cmd/rcptto-server/main.go` that builds the egress manager: the local
identity `direct` from the configuration, the persisted reputation from the store, and one
identity for each configured probe agent, in this order. Every call that creates an
identity reads the clock on its own.
-/

namespace Rcptto.Native

variable {F : Type}

/-- The local identity, `direct`. -/
def directSpec (helo mailFrom : String) : Spec where
  id := "direct"
  helo := helo
  mailFrom := mailFrom

/-- The identity of a probe agent: a newly introduced remote address has no reputation yet,
    so it warms up. -/
def agentSpec (id : String) : Spec where
  id := id
  warmUp := true

/-- The configuration `run` passes to `New`: everything but the local identity is left at its
    zero value. -/
def serverConfig [OfScientific F] (helo mailFrom : String) : Config F where
  identities := [directSpec helo mailFrom]
  healthAlpha := 0.0

/-- The registration of one agent. It stays out of routing until a health check reaches it. -/
def Manager.registerAgent (m : Manager F) (agent : String × Int) : Manager F :=
  (m.addIdentity agent.2 (agentSpec agent.1)).setOnline agent.1 false

/-- The manager at the end of start-up: `start` is the clock reading of `New`, `states` what
    the store returned, and `agents` the configured agents, each with the clock reading of
    its `AddIdentity`. -/
def startUp [OfScientific F] [LinearOrder F] (helo mailFrom : String) (start : Int)
    (states : List (EgressState F)) (agents : List (String × Int)) : Manager F :=
  let m := Manager.new (serverConfig helo mailFrom) start
  let m := if states.length > 0 then m.restore states else m
  agents.foldl Manager.registerAgent m

end Rcptto.Native
