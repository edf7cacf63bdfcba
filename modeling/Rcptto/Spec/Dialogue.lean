import Rcptto.Spec.Honest

/-!
# The order of a conversation

`MaySend` says when each command may be sent, in terms of what was sent before and of the answers
of the server. Every conversation keeps to it, whatever the server answers, and so its commands
are the beginning of one of four scripts.

## Key results

- `Engine.probeHost_permitted`: every command of a conversation was permitted
- `Engine.Permitted.isPrefix`: permitted conversations follow the script
- `Engine.conversation_safe`: the connections of a probe
-/

namespace Rcptto.Native

/-- The server answers with a code of the class 2xx. -/
def Response.completed : Response → Bool
  | .reply code _ _ => 200 ≤ code && code < 300
  | .failed _ _ => false

/-- Only an address that was accepted is classified as deliverable. -/
theorem code_of_deliverable {code : Int} {msg : String}
    (h : (classifyRCPT code msg).status = .deliverable) : 200 ≤ code ∧ code < 300 := by
  unfold classifyRCPT at h
  dsimp only at h
  split_ifs at h with hcode
  exact hcode

/-! ## Lines -/

/-- The text does not end a line. -/
def OneLine (text : String) : Prop := '\r' ∉ text.toList ∧ '\n' ∉ text.toList

instance (text : String) : Decidable (OneLine text) := inferInstanceAs (Decidable (_ ∧ _))

theorem OneLine.append {s s' : String} (h : OneLine s) (h' : OneLine s') : OneLine (s ++ s') := by
  simp only [OneLine, String.toList_append, List.mem_append, not_or]
  exact ⟨⟨h.1, h'.1⟩, h.2, h'.2⟩

/-- A text that does not end a line is written as one. -/
theorem OneLine.isLine {text : String} (h : OneLine text) (hne : text ≠ "") :
    Lines.IsLine text.utf8Bytes := by
  refine ⟨fun hnil => hne ?_, fun b hb => ?_⟩
  · have hchars : text.toList = [] := by
      rw [String.utf8Bytes, List.flatMap_eq_nil_iff] at hnil
      exact List.eq_nil_iff_forall_not_mem.mpr fun c hc => String.utf8EncodeChar_ne_nil (hnil c hc)
    simpa using hchars
  · -- both bytes that end a line are ASCII, so they would be characters of the text
    by_contra hend
    simp only [Lines.isLineEnd, Bool.not_eq_false, Bool.or_eq_true, decide_eq_true_eq] at hend
    rcases hend with rfl | rfl
    · exact h.1 (String.mem_toList_of_mem_utf8Bytes hb (by decide))
    · exact h.2 (String.mem_toList_of_mem_utf8Bytes hb (by decide))

/-- The characters of the random local part. -/
theorem mem_randomLocalPart {bytes : Option (Fin 9 → UInt8)} {c : Char}
    (h : c ∈ (randomLocalPart bytes).toList) :
    c ∈ "rcptto-probe-".toList ∨ c ∈ "0123456789abcdef".toList := by
  have hhex : ∀ n, "0123456789abcdef".toList.getD n '0' ∈ "0123456789abcdef".toList := by
    intro n
    rw [List.getD_eq_getElem?_getD]
    cases hn : "0123456789abcdef".toList[n]? with
    | none => decide
    | some d => exact List.mem_of_getElem? hn
  -- without random bytes the local part is fixed
  cases bytes with
  | none =>
    have hall : ("rcptto-probe-000000000000".toList.all fun c =>
        decide (c ∈ "rcptto-probe-".toList ∨ c ∈ "0123456789abcdef".toList)) = true := by decide
    exact of_decide_eq_true (List.all_eq_true.mp hall c h)
  | some b =>
    simp only [randomLocalPart, String.toList_append, List.mem_append] at h
    rcases h with h | h
    · exact .inl h
    · simp only [String.toList_ofList, List.mem_flatMap] at h
      obtain ⟨x, -, hx⟩ := h
      rcases List.mem_pair.mp hx with rfl | rfl
      · exact .inr (hhex _)
      · exact .inr (hhex _)

/-- A random local part has no line end. -/
theorem oneLine_randomLocalPart (bytes : Option (Fin 9 → UInt8)) :
    OneLine (randomLocalPart bytes) := by
  constructor
  · intro h
    exact absurd (mem_randomLocalPart h) (by decide)
  · intro h
    exact absurd (mem_randomLocalPart h) (by decide)

/-- What a command says besides its verb. -/
def Command.argument : Command → String
  | ehlo name => name
  | helo name => name
  | mailFrom sender => sender
  | rcptTo recipient => recipient
  | quit => ""

/-- The first word of a command. -/
def Command.verb (c : Command) : String := .ofList (c.line.toList.take 4)

theorem Command.verb_mem (c : Command) : c.verb ∈ ["EHLO", "HELO", "MAIL", "RCPT", "QUIT"] := by
  cases c <;> simp [verb, line]

/-- A command whose argument does not end a line is one line. -/
theorem Command.isLine {c : Command} (h : OneLine c.argument) :
    Lines.IsLine c.line.utf8Bytes := by
  have hverb : c.line ≠ "" := by
    intro hnil
    have := c.verb_mem
    rw [verb, hnil] at this
    exact absurd this (by decide)
  refine OneLine.isLine ?_ hverb
  -- only the argument comes from outside
  cases c with
  | ehlo name => exact OneLine.append (by decide) h
  | helo name => exact OneLine.append (by decide) h
  | mailFrom sender => exact OneLine.append (OneLine.append (by decide) h) (by decide)
  | rcptTo recipient => exact OneLine.append (OneLine.append (by decide) h) (by decide)
  | quit => decide

namespace Engine

/-- The recipient that almost certainly does not exist. -/
def stranger (env : Env) (t : Task) : String := randomLocalPart env.random ++ "@" ++ t.domain

section Permitted

variable (cfg : Config) (env : Env) (t : Task) (eg : Binding) (server : Server)

/-- The greetings, with or without the fallback. -/
def openings : List (List Command) :=
  [[.ehlo (heloName cfg eg)], [.ehlo (heloName cfg eg), .helo (heloName cfg eg)]]

/-- When a command may be sent after the commands `before`. The answer to the last of them is
    `server before`, and `server []` is the banner. -/
def MaySend (before : List Command) : Command → Prop
  | .ehlo name =>
    before = [] ∧ name = heloName cfg eg ∧ ∃ msg h, server before = .reply 220 msg h
  | .helo name =>
    before = [.ehlo (heloName cfg eg)] ∧ name = heloName cfg eg ∧ (server before).accepted = false
  | .mailFrom sender =>
    before ∈ openings cfg eg ∧ sender = senderName cfg eg ∧ (server before).accepted = true
  | .rcptTo recipient => (server before).completed = true ∧ ∃ opening ∈ openings cfg eg,
    before = opening ++ [.mailFrom (senderName cfg eg)] ∧ recipient = t.email ∨
    before = opening ++ [.mailFrom (senderName cfg eg), .rcptTo t.email] ∧
      recipient = stranger env t ∧ cfg.detectCatchAll = true
  | .quit => ∃ opening ∈ openings cfg eg,
    before = opening ++ [.mailFrom (senderName cfg eg), .rcptTo t.email] ∨
    before = opening ++ [.mailFrom (senderName cfg eg), .rcptTo t.email, .rcptTo (stranger env t)]

/-- Every command was sent when it might be. -/
def Permitted (sent : List Command) : Prop :=
  ∀ before c, before ++ [c] <+: sent → MaySend cfg env t eg server before c

/-- A whole conversation, with or without the fallback and the second recipient. -/
def script (fallback second : Bool) : List Command :=
  .ehlo (heloName cfg eg) :: ((if fallback then [.helo (heloName cfg eg)] else []) ++
    .mailFrom (senderName cfg eg) :: .rcptTo t.email ::
      ((if second then [.rcptTo (stranger env t)] else []) ++ [.quit]))

end Permitted

variable {F : Type} [OfScientific F] {cfg : Config} {env : Env} {t : Task} {eg : Binding}
  {server : Server} {sent : List Command}

theorem permitted_nil : Permitted cfg env t eg server [] := by
  intro before c h
  simp at h

/-- One more command that may be sent. -/
theorem Permitted.snoc {c : Command} (h : Permitted cfg env t eg server sent)
    (hc : MaySend cfg env t eg server sent c) : Permitted cfg env t eg server (sent ++ [c]) := by
  intro before c' hpre
  rcases List.prefix_concat_iff.mp hpre with heq | hpre
  · obtain ⟨rfl, hcc⟩ := List.append_inj' heq rfl
    cases hcc
    exact hc
  · exact h before c' hpre

/-! ## Conversations -/

/-- `EHLO` is sent after a banner with the code 220. -/
theorem permitted_ehlo (h : ((server []).read 220).err = false) :
    Permitted cfg env t eg server [.ehlo (heloName cfg eg)] := by
  refine permitted_nil.snoc (c := .ehlo (heloName cfg eg)) ⟨rfl, rfl, ?_⟩
  -- the reply must have the code 220, and a failed read is an error
  cases hbanner : server [] with
  | reply code msg hcode =>
    rw [hbanner] at h
    have hcode : code = 220 := by simpa [Response.read] using h
    subst hcode
    exact ⟨msg, _, rfl⟩
  | failed code hcode =>
    rw [hbanner] at h
    cases h

/-- `HELO` is sent when `EHLO` has failed. -/
theorem permitted_helo (h : ((server []).read 220).err = false)
    (hehlo : (server [.ehlo (heloName cfg eg)]).accepted = false) :
    Permitted cfg env t eg server [.ehlo (heloName cfg eg), .helo (heloName cfg eg)] :=
  (permitted_ehlo h).snoc (c := .helo (heloName cfg eg)) ⟨rfl, rfl, hehlo⟩

/-- The commands before `MAIL FROM`. -/
theorem permitted_envelope (env : Env) (t : Task)
    (h : server.envelope (heloName cfg eg) = some sent) :
    sent ∈ openings cfg eg ∧ (server sent).accepted = true ∧
      Permitted cfg env t eg server sent := by
  unfold Server.envelope at h
  -- the banner, then `EHLO`, then `HELO`
  split at h
  · cases h
  · rename_i hbanner
    have hbanner : ((server []).read 220).err = false := by simpa using hbanner
    split at h
    · rename_i hehlo
      cases h
      exact ⟨by simp [openings], hehlo, permitted_ehlo hbanner⟩
    · rename_i hehlo
      split at h
      · rename_i hhelo
        cases h
        exact ⟨by simp [openings], hhelo, permitted_helo hbanner (by simpa using hehlo)⟩
      · cases h

/-- A conversation that does not get to `MAIL FROM`. -/
theorem permitted_of_none (h : server.envelope (heloName cfg eg) = none) :
    Permitted cfg env t eg server
      ((probeHost (F := F) cfg env t eg).run { server := server }).2.sent := by
  rcases envelope_eq_none h with hbanner | ⟨hbanner, hehlo, hhelo⟩
  · rw [run_probeHost_of_banner cfg env t eg hbanner]
    exact permitted_nil
  · rw [run_probeHost_of_helo env t hbanner hehlo hhelo]
    exact permitted_helo hbanner hehlo

/-- What is sent to a server that takes the sender. -/
theorem sent_of_recipient (env : Env) (t : Task)
    (h : server.envelope (heloName cfg eg) = some sent) {code : Int} {msg : String}
    (hmail : (mailFrom cfg eg).run { server := server, sent := sent } =
      pure ((code, msg, true),
        { server := server, sent := sent ++ [.mailFrom (senderName cfg eg)] })) :
    let asked := sent ++ [.mailFrom (senderName cfg eg)] ++ [.rcptTo t.email]
    let all := ((probeHost (F := F) cfg env t eg).run { server := server }).2.sent
    all = asked ∨ all = asked ++ [.quit] ∨
      (server asked).completed = true ∧ cfg.detectCatchAll = true ∧
        all = asked ++ [.rcptTo (stranger env t)] ++ [.quit] := by
  intro asked all
  -- the reply to the recipient cannot be read, or it is classified
  rcases run_probeHost_of_recipient (F := F) env t h hmail with
    ⟨-, hp⟩ | ⟨code', msg', hcode', catchAll, rest, hreply, hp, hrest⟩
  · simp only [all, hp]
    exact .inl rfl
  · simp only [all, hp]
    right
    rcases hrest with ⟨-, rfl⟩ | ⟨hdeliverable, hdetect, rfl⟩
    · exact .inl rfl
    · refine .inr ⟨?_, hdetect, List.append_cons asked _ _⟩
      simp only [asked, hreply, Response.completed]
      simpa using code_of_deliverable hdeliverable

/-- Every command of a conversation was permitted. -/
theorem probeHost_permitted (cfg : Config) (env : Env) (t : Task) (eg : Binding)
    (server : Server) : Permitted cfg env t eg server
      ((probeHost (F := F) cfg env t eg).run { server := server }).2.sent := by
  cases henv : server.envelope (heloName cfg eg) with
  | none => exact permitted_of_none henv
  | some sent =>
    obtain ⟨hopening, haccepted, hsent⟩ := permitted_envelope env t henv
    -- the conversation gets one command longer with every reply that lets it go on
    have hsender : Permitted cfg env t eg server (sent ++ [.mailFrom (senderName cfg eg)]) :=
      hsent.snoc (c := .mailFrom _) ⟨hopening, rfl, haccepted⟩
    cases hmail : server (sent ++ [.mailFrom (senderName cfg eg)]) with
    | failed code hcode =>
      rw [run_probeHost_of_sender env t henv (run_mailFrom_of_failed hmail)]
      exact hsender
    | reply code msg hcode =>
      have hrun := run_mailFrom_of_reply hmail
      cases hok : (decide (code ≥ 200) && decide (code < 300)) with
      | false =>
        rw [hok] at hrun
        rw [run_probeHost_of_sender env t henv hrun]
        exact hsender
      | true =>
        rw [hok] at hrun
        have hrecipient := hsender.snoc (c := .rcptTo t.email)
          ⟨by rw [hmail]; exact hok, sent, hopening, .inl ⟨rfl, rfl⟩⟩
        -- nothing, `QUIT`, or the address of a stranger and `QUIT` comes behind the recipient
        rcases sent_of_recipient (F := F) env t henv hrun with
          hall | hall | ⟨hcompleted, hdetect, hall⟩
        · rw [hall]
          exact hrecipient
        · rw [hall]
          exact hrecipient.snoc (c := .quit) ⟨sent, hopening, .inl (by simp)⟩
        · rw [hall]
          have hsecond := hrecipient.snoc (c := .rcptTo (stranger env t))
            ⟨hcompleted, sent, hopening, .inr ⟨by simp, rfl, hdetect⟩⟩
          exact hsecond.snoc (c := .quit) ⟨sent, hopening, .inr (by simp)⟩

/-- A permitted conversation is the beginning of a script. -/
theorem Permitted.isPrefix (h : Permitted cfg env t eg server sent) :
    ∃ fallback second, sent <+: script cfg env t eg fallback second := by
  -- a command that may be sent determines everything before it
  rcases List.eq_nil_or_concat sent with rfl | ⟨before, c, rfl⟩
  · exact ⟨false, false, List.nil_prefix⟩
  have hc := h before c (by simp)
  rw [List.concat_eq_append]
  cases c with
  | ehlo name =>
    obtain ⟨rfl, rfl, -⟩ := hc
    exact ⟨false, false, by simp [script]⟩
  | helo name =>
    obtain ⟨rfl, rfl, -⟩ := hc
    exact ⟨true, false, by simp [script]⟩
  | mailFrom sender =>
    obtain ⟨hopening, rfl, -⟩ := hc
    rcases List.mem_pair.mp hopening with rfl | rfl
    · exact ⟨false, false, by simp [script]⟩
    · exact ⟨true, false, by simp [script]⟩
  | rcptTo recipient =>
    obtain ⟨-, opening, hopening, ⟨rfl, rfl⟩ | ⟨rfl, rfl, -⟩⟩ := hc
    · rcases List.mem_pair.mp hopening with rfl | rfl
      · exact ⟨false, false, by simp [script]⟩
      · exact ⟨true, false, by simp [script]⟩
    · rcases List.mem_pair.mp hopening with rfl | rfl
      · exact ⟨false, true, by simp [script]⟩
      · exact ⟨true, true, by simp [script]⟩
  | quit =>
    obtain ⟨opening, hopening, rfl | rfl⟩ := hc
    · rcases List.mem_pair.mp hopening with rfl | rfl
      · exact ⟨false, false, by simp [script]⟩
      · exact ⟨true, false, by simp [script]⟩
    · rcases List.mem_pair.mp hopening with rfl | rfl
      · exact ⟨false, true, by simp [script]⟩
      · exact ⟨true, true, by simp [script]⟩

/-- The texts that go into a conversation. -/
def texts (cfg : Config) (t : Task) (eg : Binding) : List String :=
  [heloName cfg eg, senderName cfg eg, t.email, t.domain]

theorem mem_script_cases {fallback second : Bool} {c : Command}
    (h : c ∈ script cfg env t eg fallback second) :
    c = .ehlo (heloName cfg eg) ∨ c = .helo (heloName cfg eg) ∨ c = .mailFrom (senderName cfg eg) ∨
      c = .rcptTo t.email ∨ c = .rcptTo (stranger env t) ∨ c = .quit := by
  cases fallback <;> cases second <;> simp [script] at h <;> tauto

/-- The commands of a script are lines if the texts in them are. -/
theorem oneLine_of_mem_script (h : ∀ text ∈ texts cfg t eg, OneLine text) {fallback second : Bool}
    {c : Command} (hc : c ∈ script cfg env t eg fallback second) : OneLine c.argument := by
  have hdomain : OneLine ("@" ++ t.domain) := .append (by decide) (h t.domain (by simp [texts]))
  -- all arguments are among `texts` but the invented recipient and the empty one of `QUIT`
  rcases mem_script_cases hc with rfl | rfl | rfl | rfl | rfl | rfl
  · exact h (heloName cfg eg) (by simp [texts])
  · exact h (heloName cfg eg) (by simp [texts])
  · exact h (senderName cfg eg) (by simp [texts])
  · exact h t.email (by simp [texts])
  · have hstranger : stranger env t = randomLocalPart env.random ++ ("@" ++ t.domain) :=
      String.append_assoc
    show OneLine (stranger env t)
    rw [hstranger]
    exact (oneLine_randomLocalPart _).append hdomain
  · show OneLine ""
    decide

/-! ## Probes -/

/-- One more host, with the dial that it takes. -/
theorem probeHosts_cons (host : String) (hosts dialled : List String) :
    probeHosts (F := F) cfg env t eg (host :: hosts) dialled =
      match env.network (dialled ++ [joinHostPort host cfg.port]) with
      | none => probeHosts cfg env t eg hosts (dialled ++ [joinHostPort host cfg.port])
      | some server => conversation cfg env t eg (dialled ++ [joinHostPort host cfg.port]) server :=
  rfl

/-- What was dialled before is a part of what is dialled in all. -/
theorem prefix_dialled (hosts dialled : List String) :
    dialled <+: (probeHosts (F := F) cfg env t eg hosts dialled).dialled := by
  induction hosts generalizing dialled with
  | nil => exact List.prefix_refl _
  | cons host hosts ih =>
    rw [probeHosts_cons]
    split
    · exact (List.prefix_append _ _).trans (ih _)
    · exact List.prefix_append _ _

/-- The dials before the last one have failed. -/
theorem network_of_prefix_dialled {hosts dialled attempt : List String}
    (hattempt : dialled <+: attempt) (hne : attempt ≠ dialled)
    (h : attempt <+: (probeHosts (F := F) cfg env t eg hosts dialled).dialled)
    (hlast : attempt ≠ (probeHosts (F := F) cfg env t eg hosts dialled).dialled) :
    env.network attempt = none := by
  induction hosts generalizing dialled with
  | nil => exact absurd (hattempt.eq_of_length_le h.length_le).symm hne
  | cons host hosts ih =>
    -- the dial of this host is the first one after `dialled`
    have hfirst : attempt <+: dialled ++ [joinHostPort host cfg.port] →
        attempt = dialled ++ [joinHostPort host cfg.port] := by
      intro hpre
      rcases List.prefix_concat_iff.mp hpre with heq | hpre
      · exact heq
      · exact absurd (hattempt.eq_of_length_le hpre.length_le).symm hne
    rw [probeHosts_cons] at h hlast
    split at h
    · next hdial =>
      rcases List.prefix_or_prefix_of_prefix h (prefix_dialled _ _) with hpre | hpre
      · rw [hfirst hpre]
        exact hdial
      · by_cases heq : attempt = dialled ++ [joinHostPort host cfg.port]
        · rw [heq]
          exact hdial
        · exact ih hpre heq h (by simpa only [hdial] using hlast)
    · next server hdial =>
      simp only [hdial] at hlast
      exact absurd (hfirst h) hlast

/-- A probe that reaches nobody sends nothing. -/
theorem sent_of_none {hosts dialled : List String} (h : reached cfg env hosts dialled = none) :
    (probeHosts (F := F) cfg env t eg hosts dialled).sent = [] := by
  -- by induction on the hosts that are left to dial
  induction hosts generalizing dialled with
  | nil => rfl
  | cons host hosts ih =>
    rw [probeHosts_cons]
    rw [reached] at h
    cases hdial : env.network (dialled ++ [joinHostPort host cfg.port]) with
    | none =>
      simp only [hdial] at h
      exact ih h
    | some server =>
      simp only [hdial] at h
      cases h

/-- A probe sends nothing, or its commands are those of a conversation with the server that it
    has reached with its last dial. -/
theorem verify_sent_cases (cfg : Config) (env : Env) (t : Task) (eg : Binding) :
    (verify (F := F) cfg env t eg).sent = [] ∨
    ∃ server, env.network (verify (F := F) cfg env t eg).dialled = some server ∧
      (verify (F := F) cfg env t eg).sent =
        ((probeHost (F := F) cfg env t eg).run { server := server }).2.sent := by
  unfold verify
  -- a task without hosts is answered at once
  split
  · exact .inl rfl
  · cases hreached : reached cfg env t.mx [] with
    | none => exact .inl (sent_of_none hreached)
    | some p =>
      obtain ⟨dialled, server⟩ := p
      obtain ⟨hnetwork, hprobe⟩ := probeHosts_of_some (F := F) t eg hreached
      right
      rw [hprobe]
      exact ⟨server, hnetwork, rfl⟩

/-- What the connections of a probe see. At most one of its dials succeeds, and that is the last
    one; without a connection nothing is sent. Each command was sent when it might be, so they
    follow the script, and none of them is `DATA`. If the texts that go into the conversation do
    not end a line, then the lines that the server reads are these commands. -/
theorem conversation_safe (cfg : Config) (env : Env) (t : Task) (eg : Binding) :
    let r := verify (F := F) cfg env t eg
    (∀ attempt, attempt ≠ [] → attempt <+: r.dialled → attempt ≠ r.dialled →
      env.network attempt = none) ∧
    (env.network r.dialled = none → r.sent = []) ∧
    (∀ server, env.network r.dialled = some server → Permitted cfg env t eg server r.sent) ∧
    (∃ fallback second, r.sent <+: script cfg env t eg fallback second) ∧
    (∀ c ∈ r.sent, c.verb ∈ ["EHLO", "HELO", "MAIL", "RCPT", "QUIT"]) ∧
    ((∀ text ∈ texts cfg t eg, OneLine text) →
      Lines.linesOf (r.sent.flatMap Command.wire) = r.sent.map (·.line.utf8Bytes)) := by
  intro r
  have hpermitted : ∀ server, env.network r.dialled = some server →
      Permitted cfg env t eg server r.sent := by
    intro server hserver
    rcases verify_sent_cases (F := F) cfg env t eg with hsent | ⟨server', hserver', hsent⟩
    · rw [show r.sent = [] from hsent]
      exact permitted_nil
    · cases hserver.symm.trans hserver'
      rw [show r.sent = _ from hsent]
      exact probeHost_permitted cfg env t eg server
  -- what is permitted can only follow the script
  have hscript : ∃ fallback second, r.sent <+: script cfg env t eg fallback second := by
    rcases verify_sent_cases (F := F) cfg env t eg with hsent | ⟨server, hserver, -⟩
    · exact ⟨false, false, by rw [show r.sent = [] from hsent]; exact List.nil_prefix⟩
    · exact (hpermitted server hserver).isPrefix
  refine ⟨fun attempt hne hpre hlast => ?_, fun hnone => ?_, hpermitted, hscript,
    fun c _ => c.verb_mem, fun htexts => ?_⟩
  · have hr : r = verify cfg env t eg := rfl
    unfold verify at hr
    split at hr
    · rw [hr] at hpre
      exact absurd (List.prefix_nil.mp hpre) hne
    · rw [hr] at hpre hlast
      exact network_of_prefix_dialled List.nil_prefix hne hpre hlast
  · rcases verify_sent_cases (F := F) cfg env t eg with hsent | ⟨server, hserver, -⟩
    · exact hsent
    · cases hnone.symm.trans hserver
  · obtain ⟨fallback, second, hpre⟩ := hscript
    exact Lines.linesOf_flatMap fun c hc =>
      Command.isLine (oneLine_of_mem_script htexts (hpre.subset hc))

end Engine

end Rcptto.Native
