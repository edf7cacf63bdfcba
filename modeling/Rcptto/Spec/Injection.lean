import Rcptto.Spec.Dialogue
import Rcptto.Spec.Funnel

/-!
# No injection of commands

An address that is to be probed is written into the lines of an SMTP conversation as it is. It
went through the syntax stage, so that whatever bytes came in, the line is one command with one
address.

## Key results

- `Pipeline.runBytes_utf8Bytes`: on text, the funnel on bytes is the funnel
- `Pipeline.runBytes_task`: the address of a task, in bytes
- `no_injection`: the recipients of a probe
-/

namespace Rcptto.Native

/-! ## White space -/

/-- White space is one of these runes. -/
theorem isSpace_iff (c : Char) : isSpace c = true ↔ c ∈ spaceRunes := by
  constructor
  · intro h
    rw [← Char.ofNat_toNat c]
    apply List.mem_map_of_mem
    simp only [isSpace, Bool.or_eq_true, decide_eq_true_eq, Bool.and_eq_true] at h
    -- the runes in the list, and a range of them
    rcases h with h | h
    · exact List.mem_append_left _ h
    · exact List.mem_append_right _ (List.mem_range'_1.mpr (by omega))
  · have hall : spaceRunes.all isSpace = true := by decide +kernel
    exact List.all_eq_true.mp hall c

/-- On text, trimming the bytes is trimming the text. -/
theorem trimSpaceBytes_utf8Bytes (s : String) :
    trimSpaceBytes s.utf8Bytes = (trimSpace s).utf8Bytes := by
  have hutf8 : ∀ s : String, s.utf8Bytes = PrefixCode.utf8.encode s.toList := fun _ => rfl
  unfold trimSpaceBytes
  dsimp only
  -- the end is trimmed backwards, with the code words reversed
  rw [hutf8, PrefixCode.utf8.dropWords_encode isSpace_iff _
      (PrefixCode.utf8.length_le_length_encode _), PrefixCode.reverse_encode_utf8,
    PrefixCode.utf8Reverse.dropWords_encode isSpace_iff]
  · rw [hutf8, ← List.reverse_inj, List.reverse_reverse, PrefixCode.reverse_encode_utf8]
    simp [trimSpace, List.rdropWhile]
  · rw [List.length_reverse]
    exact PrefixCode.utf8.length_le_length_encode _

namespace Pipeline

variable {F : Type} [OfScientific F]

/-! ## The funnel on bytes -/

/-- The state with another input. -/
def State.withInput (s : State F) (input : String) : State F := { s with input := input }

/-- A stage after normalization: it does not read the input and leaves the address alone. -/
structure Late (stage : Stage F) : Prop where
  blind : ∀ s input, stage (s.withInput input) = (stage s).map fun p => (p.1, p.2.withInput input)
  keeps : ∀ s stop s', stage s = .ok (stop, s') →
    s'.email = s.email ∧ s'.domain = s.domain ∧ s'.checks.syntaxCheck = s.checks.syntaxCheck

/-- The disposable stage does not look at the input. -/
theorem late_disposableStage (disposable : String → Bool) (now : Int) :
    Late (disposableStage (F := F) disposable now) where
  blind s input := by
    unfold disposableStage
    cases hlisted : disposable s.domain <;> simp [State.withInput, hlisted] <;> rfl
  keeps s stop s' h := by
    unfold disposableStage at h
    split at h <;> cases h <;> exact ⟨rfl, rfl, rfl⟩

omit [OfScientific F] in
/-- The role stage does not look at the input. -/
theorem late_roleStage : Late (roleStage (F := F)) where
  blind s input := by
    unfold roleStage
    cases hrole : isRoleAccount s.localPart <;> simp [State.withInput, hrole] <;> rfl
  keeps s stop s' h := by
    unfold roleStage at h
    split at h <;> cases h <;> exact ⟨rfl, rfl, rfl⟩

omit [OfScientific F] in
/-- The free stage does not look at the input. -/
theorem late_freeStage : Late (freeStage (F := F)) where
  blind s input := by
    unfold freeStage
    cases hfree : isFreeDomain s.domain <;> simp [State.withInput, hfree] <;> rfl
  keeps s stop s' h := by
    unfold freeStage at h
    split at h <;> cases h <;> exact ⟨rfl, rfl, rfl⟩

omit [OfScientific F] in
/-- The fallback to the host itself takes the input along. -/
theorem implicitMX_withInput (r : Resolver) (s : State F) (input : String) :
    implicitMX r (s.withInput input) = (implicitMX r s).map (·.withInput input) := by
  unfold implicitMX
  cases hhost : r.lookupHost s.domain with
  | none => simp [State.withInput, hhost]
  | some addrs => by_cases hlen : addrs.length = 0 <;> simp [State.withInput, hhost, hlen]

/-- The MX stage does not look at the input. -/
theorem late_mxStage (r : Resolver) (now : Int) : Late (mxStage (F := F) r now) where
  blind s input := by
    have hdomain : (s.withInput input).domain = s.domain := rfl
    unfold mxStage
    rw [hdomain, implicitMX_withInput]
    -- every branch asks the resolver for the domain and for nothing else
    cases r.lookupMX s.domain with
    | error err =>
      cases implicitMX r s with
      | some s' => rfl
      | none => cases err with
        | other => rfl
        | dns isNotFound isTemporary isTimeout => cases isNotFound <;> cases isTemporary <;> rfl
    | ok records =>
      dsimp only
      split
      · rfl
      · split
        · cases implicitMX r s <;> rfl
        · have hprovider : (s.withInput input).provider = s.provider := rfl
          rw [hprovider]
          split <;> rfl
  keeps s stop s' h := by
    rcases mxStage_cases h with ⟨hfields, hdomain, -⟩ | ⟨sub, -, confidence, -, rfl⟩
    · exact ⟨congrArg AddressFields.email hfields, hdomain,
        congrArg AddressFields.syntaxCheck hfields⟩
    · exact ⟨rfl, rfl, rfl⟩

/-- The stages after normalization. -/
def lateStages (disposable : String → Bool) (r : Resolver) (now : Int) : List (Stage F) :=
  [disposableStage disposable now, roleStage, freeStage, mxStage r now]

/-- No stage after normalization looks at the input. -/
theorem late_of_mem {disposable : String → Bool} {r : Resolver} {now : Int} {stage : Stage F}
    (h : stage ∈ lateStages disposable r now) : Late stage := by
  simp only [lateStages, List.mem_cons, List.not_mem_nil, or_false] at h
  rcases h with rfl | rfl | rfl | rfl
  · exact late_disposableStage _ _
  · exact late_roleStage
  · exact late_freeStage
  · exact late_mxStage _ _

omit [OfScientific F] in
/-- The stages after normalization take the input along. -/
theorem runStages_withInput {rest : List (Stage F)} (h : ∀ stage ∈ rest, Late stage)
    (s : State F) (input : String) :
    runStages rest (s.withInput input) = (runStages rest s).map (·.withInput input) := by
  induction rest generalizing s with
  | nil => rfl
  | cons stage rest ih =>
    rw [runStages, runStages, (h stage (by simp)).blind]
    cases stage s with
    | error err => rfl
    | ok p =>
      obtain ⟨stop, s'⟩ := p
      have hterminal : (s'.withInput input).terminal = s'.terminal := rfl
      simp only [Except.map, hterminal]
      -- the stage stops the funnel, or the next one follows
      split
      · rfl
      · rw [ih fun stage hstage => h stage (by simp [hstage])]
        rfl

omit [OfScientific F] in
/-- The stages after normalization keep the address, the domain and the syntax check. -/
theorem runStages_keeps {rest : List (Stage F)} (h : ∀ stage ∈ rest, Late stage)
    {s s' : State F} (hrun : runStages rest s = .ok s') :
    s'.email = s.email ∧ s'.domain = s.domain ∧ s'.checks.syntaxCheck = s.checks.syntaxCheck := by
  refine runStages_invariant (P := fun t => t.email = s.email ∧ t.domain = s.domain ∧
    t.checks.syntaxCheck = s.checks.syntaxCheck) ?_ ⟨rfl, rfl, rfl⟩ hrun
  rintro stage hstage t stop t' ⟨hemail, hdomain, hsyntax⟩ hok
  obtain ⟨hemail', hdomain', hsyntax'⟩ := (h stage hstage).keeps t stop t' hok
  exact ⟨hemail'.trans hemail, hdomain'.trans hdomain, hsyntax'.trans hsyntax⟩

/-- The state after normalization. -/
def normalized (localPart domain : Bytes) : State F :=
  let domain := toLower (.ofAscii domain)
  { input := ""
    email := .ofAscii localPart ++ "@" ++ domain
    normalized := canonicalKey (.ofAscii localPart) domain (providerClass domain)
    localPart := .ofAscii localPart
    domain := domain
    provider := providerClass domain
    checks := { syntaxCheck := { valid := true } } }

omit [OfScientific F] in
theorem runStages_cons_of_ok {stage : Stage F} {rest : List (Stage F)} {s s' : State F}
    (h : stage s = .ok (false, s')) (hterminal : s'.terminal = none) :
    runStages (stage :: rest) s = runStages rest s' := by
  simp [runStages, h, hterminal]

/-- `Run` on bytes that are accepted. -/
theorem runBytes_of_parts {disposable : String → Bool} {r : Resolver} {now : Int} {email : Bytes}
    {l d : Bytes} (h : splitAndValidate (trimSpaceBytes email) = some (l, d)) :
    runBytes (F := F) disposable r now email =
      (runStages (lateStages disposable r now) (normalized l d)).map fun s => some s.result := by
  have hnormalize : runStages (stages (F := F) disposable r now).tail (parsed l d) =
      runStages (lateStages disposable r now) (normalized l d) :=
    runStages_cons_of_ok rfl rfl
  rw [runBytes, h]
  dsimp only
  rw [hnormalize]
  cases runStages (lateStages disposable r now) (normalized (F := F) l d) <;> rfl

/-- The state after the syntax stage. -/
def accepted (email : String) (l d : Bytes) : State F where
  input := email
  email := trimSpace email
  normalized := email
  localPart := .ofAscii l
  domain := .ofAscii d
  checks := { syntaxCheck := { valid := true } }

omit [OfScientific F] in
/-- On an accepted address, normalization reads the two parts and takes the input along. -/
theorem normalizeStage_accepted (email : String) (l d : Bytes) :
    normalizeStage (accepted (F := F) email l d) =
      .ok (false, (normalized l d).withInput email) := by
  unfold accepted normalizeStage normalized providerClass State.withInput
  dsimp only

/-- The first two stages on an accepted address. -/
theorem runStages_of_parts {email : String} {l d : Bytes} (h : HasParts email l d) (now : Int)
    (rest : List (Stage F)) :
    runStages (syntaxStage now :: normalizeStage :: rest)
        { input := email, email := email, normalized := email } =
      runStages rest ((normalized l d).withInput email) := by
  have hsyntax : syntaxStage (F := F) now
        { input := email, email := email, normalized := email } =
      .ok (false, accepted email l d) := by
    unfold HasParts at h
    simp only [syntaxStage, h, accepted]
  rw [runStages_cons_of_ok hsyntax rfl,
    runStages_cons_of_ok (normalizeStage_accepted email l d) rfl]

/-- The funnel on an accepted address. -/
theorem run_of_parts (disposable : String → Bool) (r : Resolver) (now : Int) {email : String}
    {l d : Bytes} (h : HasParts email l d) :
    run (F := F) disposable r now email =
      (runStages (lateStages disposable r now) ((normalized l d).withInput email)).map
        State.result := by
  have hlate : runStages (stages (F := F) disposable r now)
        { input := email, email := email, normalized := email } =
      runStages (lateStages disposable r now) ((normalized l d).withInput email) :=
    runStages_of_parts h now _
  rw [run, hlate]
  cases runStages (lateStages disposable r now) ((normalized (F := F) l d).withInput email) with
  | error err => rfl
  | ok s => rfl

/-- On text, the funnel on bytes is the funnel. -/
theorem runBytes_utf8Bytes (disposable : String → Bool) (r : Resolver) (now : Int)
    (email : String) :
    runBytes (F := F) disposable r now email.utf8Bytes =
      (run disposable r now email).map fun res =>
        if res.checks.syntaxCheck.valid then some res else none := by
  cases hsplit : splitAndValidate (trimSpace email).utf8Bytes with
  | none =>
    -- an address that is not accepted ends in the first stage
    rw [runBytes, trimSpaceBytes_utf8Bytes, hsplit]
    simp only [run, stages, localStages, List.cons_append, runStages, syntaxStage, hsplit,
      Bool.true_or, if_true]
    rfl
  | some parts =>
    obtain ⟨l, d⟩ := parts
    rw [runBytes_of_parts (by rw [trimSpaceBytes_utf8Bytes, hsplit])]
    rw [run_of_parts disposable r now hsplit, runStages_withInput fun stage => late_of_mem]
    cases hlate : runStages (lateStages disposable r now) (normalized (F := F) l d) with
    | error err => rfl
    | ok s =>
      have hvalid : s.checks.syntaxCheck.valid = true := by
        rw [(runStages_keeps (fun stage => late_of_mem) hlate).2.2]
        rfl
      simp only [Except.map]
      rw [if_pos (show ((s.withInput email).result).checks.syntaxCheck.valid = true from hvalid)]
      rfl

/-- The address of a task, in bytes: the address that was accepted, with its domain in lower
    case. -/
theorem runBytes_task {disposable : String → Bool} {r : Resolver} {now : Int} {email : Bytes}
    {res : Result F} {t : Task} (h : runBytes disposable r now email = .ok (some res))
    (ht : res.outcome = .inr t) :
    ∃ l d, splitAndValidate (trimSpaceBytes email) = some (l, d) ∧
      t.email = .ofAscii (l ++ '@'.toUInt8 :: d.map lowerByte) ∧
      t.domain = .ofAscii (d.map lowerByte) := by
  cases hsplit : splitAndValidate (trimSpaceBytes email) with
  | none =>
    rw [runBytes, hsplit] at h
    cases h
  | some parts =>
    obtain ⟨l, d⟩ := parts
    refine ⟨l, d, rfl, ?_⟩
    rw [runBytes_of_parts hsplit] at h
    cases hlate : runStages (lateStages disposable r now) (normalized (F := F) l d) with
    | error err =>
      rw [hlate] at h
      cases h
    | ok s =>
      rw [hlate] at h
      cases h
      obtain ⟨hemail, hdomain, -⟩ := runStages_keeps (fun stage => late_of_mem) hlate
      -- the bytes of a domain are ASCII, so both ways of lowering them agree
      have hascii : ∀ b ∈ d, b < 128 := by
        obtain ⟨-, -, -, -, -, hvalid⟩ := splitAndValidate_eq_some_iff.mp hsplit
        exact fun b hb => ((byte_facts b).2 (mem_of_validDomain hvalid b hb)).1
      have hat : "@" = String.ofAscii ['@'.toUInt8] := by decide
      obtain ⟨htask, htaskDomain⟩ := result_outcome_inr ht
      rw [htask, htaskDomain, hemail, hdomain]
      simp only [normalized]
      rw [toLower_ofAscii hascii, hat, ← String.ofAscii_append, ← String.ofAscii_append]
      exact ⟨by simp, rfl⟩

end Pipeline

/-! ## Recipients -/

/-- A printable ASCII character other than space and the angle brackets. -/
def Plain (b : UInt8) : Prop := 32 < b ∧ b < 127 ∧ b ≠ '<'.toUInt8 ∧ b ≠ '>'.toUInt8

instance (b : UInt8) : Decidable (Plain b) := inferInstanceAs (Decidable (_ ∧ _))

theorem plain_of_isAtext_or_isDomainByte (b : UInt8) :
    isAtext b = true ∨ isDomainByte b = true → Plain b := by
  revert b
  exact UInt8.forall_of_lt (by decide +kernel)

/-- The bytes of an accepted address, with its domain in lower case. -/
theorem plain_of_splitAndValidate {addr l d : Bytes} (h : splitAndValidate addr = some (l, d)) :
    (∀ b ∈ l, Plain b ∧ b ≠ '@'.toUInt8) ∧
      ∀ b ∈ d.map lowerByte, Plain b ∧ b ≠ '@'.toUInt8 := by
  obtain ⟨-, -, -, -, hlocal, hdomain⟩ := splitAndValidate_eq_some_iff.mp h
  rw [← validDomain_map_lowerByte] at hdomain
  constructor
  · intro b hb
    -- a dot, or a character of an atom
    rcases mem_of_localPartRe hlocal b hb with rfl | hatext
    · decide
    · exact ⟨plain_of_isAtext_or_isDomainByte b (.inl hatext), ((byte_facts b).1 hatext).2.1⟩
  · intro b hb
    have hbyte := mem_of_validDomain hdomain b hb
    exact ⟨plain_of_isAtext_or_isDomainByte b (.inr hbyte), ((byte_facts b).2 hbyte).2.1⟩

/-- The bytes of a random local part are plain. -/
theorem plain_randomLocalPart {random : Option (Fin 9 → UInt8)} {b : UInt8}
    (h : b ∈ (randomLocalPart random).utf8Bytes) : Plain b := by
  obtain ⟨c, hc, hb⟩ := List.mem_flatMap.mp h
  have hall : (("rcptto-probe-".toList ++ "0123456789abcdef".toList).all fun c =>
      (String.utf8EncodeChar c).all fun b => decide (Plain b)) = true := by decide +kernel
  have hbytes := List.all_eq_true.mp hall c (List.mem_append.mpr (mem_randomLocalPart hc))
  exact of_decide_eq_true (List.all_eq_true.mp hbytes b hb)

/-- The line for a recipient whose characters are plain is one line with one address. -/
theorem rcptTo_of_plain {recipient : String} (h : ∀ b ∈ recipient.utf8Bytes, Plain b) :
    Lines.linesOf (Command.rcptTo recipient).wire = [(Command.rcptTo recipient).line.utf8Bytes] ∧
      Lines.bracketed (Command.rcptTo recipient).line.utf8Bytes = [recipient.utf8Bytes] := by
  have hline : (Command.rcptTo recipient).line.utf8Bytes =
      "RCPT TO:".utf8Bytes ++ '<'.toUInt8 :: (recipient.utf8Bytes ++ ['>'.toUInt8]) := by
    have hopen : "RCPT TO:<".utf8Bytes = "RCPT TO:".utf8Bytes ++ ['<'.toUInt8] := by decide +kernel
    have hclose : ">".utf8Bytes = ['>'.toUInt8] := by decide +kernel
    rw [Command.line, String.utf8Bytes_append, String.utf8Bytes_append, hopen, hclose]
    simp
  have hends : ∀ b : UInt8, Plain b → Lines.isLineEnd b = false :=
    UInt8.forall_of_lt (by decide +kernel)
  have hverb : ∀ b ∈ "RCPT TO:".utf8Bytes, Lines.isLineEnd b = false ∧ b ≠ '<'.toUInt8 := by
    decide +kernel
  -- neither the verb nor the recipient has a byte that ends the line
  have hone : Lines.IsLine (Command.rcptTo recipient).line.utf8Bytes := by
    refine ⟨by simp [hline], fun b hb => ?_⟩
    rw [hline] at hb
    simp only [List.mem_append, List.mem_cons, List.not_mem_nil, or_false] at hb
    rcases hb with hb | rfl | hb | rfl
    · exact (hverb b hb).1
    · decide
    · exact hends b (h b hb)
    · decide
  constructor
  · have hlines : Lines.linesOf ((Command.rcptTo recipient).wire ++ []) = _ :=
      Lines.linesOf_append_crlf hone
    simpa using hlines
  · rw [hline]
    exact Lines.bracketed_append (fun hmem => (hverb _ hmem).2 rfl)
      ⟨fun hmem => (h _ hmem).2.2.1 rfl, fun hmem => (h _ hmem).2.2.2 rfl⟩

/-- Whatever bytes come in, an address to be probed has one at sign, at most 254 bytes and only
    plain characters, and so has its domain. The lines that name it or a random mailbox of its
    domain are one command with one address each. -/
theorem no_injection {F : Type} [OfScientific F] (disposable : String → Bool)
    (r : Pipeline.Resolver) (now : Int) (input : Bytes) (random : Option (Fin 9 → UInt8))
    {res : Pipeline.Result F} {t : Task}
    (h : Pipeline.runBytes disposable r now input = .ok (some res)) (ht : res.outcome = .inr t) :
    (∃ l, l ≠ [] ∧ t.email.utf8Bytes = l ++ '@'.toUInt8 :: t.domain.utf8Bytes) ∧
    t.email.utf8Bytes.count '@'.toUInt8 = 1 ∧
    t.email.utf8Bytes.length ≤ 254 ∧
    (∀ b ∈ t.email.utf8Bytes ++ t.domain.utf8Bytes, Plain b) ∧
    ∀ recipient ∈ [t.email, randomLocalPart random ++ "@" ++ t.domain],
      Lines.linesOf (Command.rcptTo recipient).wire =
          [(Command.rcptTo recipient).line.utf8Bytes] ∧
        Lines.bracketed (Command.rcptTo recipient).line.utf8Bytes = [recipient.utf8Bytes] := by
  obtain ⟨l, d, hsplit, hemail, hdomain⟩ := Pipeline.runBytes_task h ht
  obtain ⟨hl, hd⟩ := plain_of_splitAndValidate hsplit
  obtain ⟨htrim, hlength, hne, -⟩ := splitAndValidate_eq_some_iff.mp hsplit
  have hat : Plain '@'.toUInt8 := by decide
  have hplain : ∀ b ∈ l ++ '@'.toUInt8 :: d.map lowerByte, Plain b := by
    intro b hb
    rcases List.mem_append.mp hb with hb | hb
    · exact (hl b hb).1
    · rcases List.mem_cons.mp hb with rfl | hb
      · exact hat
      · exact (hd b hb).1
  have hascii : ∀ b, Plain b → b < 128 := by
    intro b hb
    exact UInt8.lt_trans hb.2.1 (by decide)
  -- plain bytes come out of the text as they went in
  have hemailBytes : t.email.utf8Bytes = l ++ '@'.toUInt8 :: d.map lowerByte := by
    rw [hemail, String.utf8Bytes_ofAscii fun b hb => hascii b (hplain b hb)]
  have hdomainBytes : t.domain.utf8Bytes = d.map lowerByte := by
    rw [hdomain, String.utf8Bytes_ofAscii fun b hb => hascii b (hd b hb).1]
  refine ⟨⟨l, hne, by rw [hemailBytes, hdomainBytes]⟩, ?_, ?_, ?_, ?_⟩
  · have hcount : ∀ bs : Bytes, (∀ b ∈ bs, Plain b ∧ b ≠ '@'.toUInt8) →
        bs.count '@'.toUInt8 = 0 := fun bs hbs =>
      List.count_eq_zero.mpr fun hmem => (hbs _ hmem).2 rfl
    rw [hemailBytes, List.count_append, List.count_cons_self, hcount l hl, hcount _ hd]
  · rw [hemailBytes]
    rw [htrim] at hlength
    simpa using hlength
  · rw [hemailBytes, hdomainBytes]
    intro b hb
    rcases List.mem_append.mp hb with hb | hb
    · exact hplain b hb
    · exact (hd b hb).1
  · intro recipient hrecipient
    apply rcptTo_of_plain
    rcases List.mem_pair.mp hrecipient with rfl | rfl
    · rw [hemailBytes]
      exact hplain
    · intro b hb
      rw [String.utf8Bytes_append, String.utf8Bytes_append, hdomainBytes] at hb
      have hsign : "@".utf8Bytes = ['@'.toUInt8] := by decide +kernel
      rw [hsign] at hb
      simp only [List.mem_append, List.mem_singleton] at hb
      rcases hb with (hb | rfl) | hb
      · exact plain_randomLocalPart hb
      · exact hat
      · exact (hd b hb).1

/-- The task of a run, if it gives one. -/
def Pipeline.taskOf {F : Type} : Except LookupError (Option (Result F)) → Option Task
  | .ok (some res) => res.outcome.getRight?
  | _ => none

/-- The task of a run is the outcome of its result. -/
theorem Pipeline.exists_of_taskOf {F : Type} {run : Except LookupError (Option (Result F))}
    {t : Task} (h : taskOf run = some t) : ∃ res, run = .ok (some res) ∧ res.outcome = .inr t := by
  unfold taskOf at h
  split at h
  · exact ⟨_, rfl, Sum.getRight?_eq_some_iff.mp h⟩
  · cases h

/-- An address between a line feed and white space of two bytes is accepted; with a byte that is
    no text it is not. -/
theorem no_injection_trimmed :
    let r : Pipeline.Resolver :=
      { lookupMX := fun _ => .ok ["mx.example.com"], lookupHost := fun _ => none }
    let run := fun input => Pipeline.runBytes (F := ℚ) (fun _ => false) r 0 input
    let address := "A.b@Example.com".utf8Bytes
    Pipeline.taskOf (run (10 :: 255 :: address)) = none ∧
    ∃ res t, run (10 :: address ++ [0xc2, 0x85]) = .ok (some res) ∧ res.outcome = .inr t ∧
      Lines.linesOf (Command.rcptTo t.email).wire = ["RCPT TO:<A.b@example.com>".utf8Bytes] := by
  intro r run address
  have htask : Pipeline.taskOf (run (10 :: address ++ [0xc2, 0x85])) =
      some { email := "A.b@example.com", normalized := "a.b@example.com", domain := "example.com",
             mx := ["mx.example.com"], provider := "custom" } := by decide +kernel
  obtain ⟨res, hrun, ht⟩ := Pipeline.exists_of_taskOf htask
  obtain ⟨-, -, -, -, hrecipients⟩ := no_injection (fun _ => false) r 0 _ none hrun ht
  exact ⟨by decide +kernel, res, _, hrun, ht, (hrecipients _ List.mem_cons_self).1⟩

end Rcptto.Native
