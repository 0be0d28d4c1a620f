/-
Variables: which variables make settings, what each setting is then, and which fault of any others is reported.

Twelve of the variables can be invalid: the ten that hold numbers, the word for the read policy, and the list of
spenders. They are looked at in a fixed order (`Variable.order`), and the first invalid one ends the reading.
- `number_eq_ok_iff`, `number_eq_error_iff`: one number.
- `Variable.valid_of_unset`: the defaults.
- `Variable.Fault.not_valid`, `Variable.Fault.unique`: a variable is valid or has a fault, and one fault only.
- `Outcome.bind`: a reading that goes on after one variable.
- `number_outcome`, `policy_outcome`, `spenders_outcome`: each kind of variable.
- `ofLookup_outcome`: all of them.
- `Settled.unique`: the variables leave no choice.
- `accepted_or_first_fault`: all of it.
-/
import ReplicatedOrders.Proofs.Bounded
import ReplicatedOrders.Proofs.Spenders

namespace ReplicatedOrders.Settings

open Text

variable {vars : Lookup} {key : NumberKey} {n m : Nat}

/-! ## Numbers -/

/-- the number of a variable: its default, or the decimal number between blanks, which fits its bits -/
inductive HasNumber (vars : Lookup) (key : NumberKey) : Nat → Prop where
  | unset (h : vars key.name = none) : HasNumber vars key key.default
  | set {raw : String} {core : List Char} {n : Nat} (h : vars key.name = some raw) (hcore : Trims raw.toList core)
    (hn : Numeral.IsBounded (2 ^ key.bits) core n) : HasNumber vars key n

section Trimmed

variable {limit : Nat} {raw : String}

theorem trims_toList_trim (raw : String) : Trims raw.toList (trim raw).toList := by
  rw [trim, String.toList_ofList]
  exact trims_trimList raw.toList

theorem parseBounded_trim_eq_ok_iff (hlimit : 0 < limit) :
    Numeral.parseBounded limit (trim raw) = .ok n ↔
      ∃ core, Trims raw.toList core ∧ Numeral.IsBounded limit core n := by
  rw [Numeral.parseBounded_eq_ok_iff hlimit]
  constructor
  · intro hn
    exact ⟨_, trims_toList_trim raw, hn⟩
  · rintro ⟨core, hcore, hn⟩
    rwa [(trims_toList_trim raw).unique hcore]

theorem parseBounded_trim_eq_error_iff (hlimit : 0 < limit) {cause : NumeralError} :
    Numeral.parseBounded limit (trim raw) = .error cause ↔
      ∃ core, Trims raw.toList core ∧ Numeral.Refused limit core cause := by
  rw [Numeral.parseBounded_eq_error_iff hlimit]
  constructor
  · intro hcause
    exact ⟨_, trims_toList_trim raw, hcause⟩
  · rintro ⟨core, hcore, hcause⟩
    rwa [(trims_toList_trim raw).unique hcore]

end Trimmed

theorem number_of_none (h : vars key.name = none) : number vars key = .ok key.default := by rw [number, h]

theorem number_of_some {raw : String} (h : vars key.name = some raw) :
    number vars key = (Numeral.parseBounded (2 ^ key.bits) (trim raw)).mapError (.number key.name raw) := by
  rw [number, h]
  dsimp only
  cases Numeral.parseBounded (2 ^ key.bits) (trim raw) <;> rfl

theorem number_eq_ok_iff : number vars key = .ok n ↔ HasNumber vars key n := by
  cases hraw : vars key.name with
  | none =>
    rw [number_of_none hraw, Except.ok.injEq]
    constructor
    · rintro rfl
      exact .unset hraw
    · rintro (- | ⟨h, -, -⟩)
      · rfl
      · rw [hraw] at h
        cases h
  | some raw =>
    have hset : HasNumber vars key n ↔ ∃ core, Trims raw.toList core ∧ Numeral.IsBounded (2 ^ key.bits) core n := by
      constructor
      · rintro (h | ⟨h, hcore, hn⟩)
        · rw [hraw] at h
          cases h
        · obtain rfl := Option.some.inj (hraw.symm.trans h)
          exact ⟨_, hcore, hn⟩
      · rintro ⟨core, hcore, hn⟩
        exact .set hraw hcore hn
    rw [number_of_some hraw, hset, ← parseBounded_trim_eq_ok_iff (Nat.two_pow_pos key.bits)]
    cases Numeral.parseBounded (2 ^ key.bits) (trim raw) <;> simp [Except.mapError]

theorem number_eq_error_iff {e : SettingsError} :
    number vars key = .error e ↔
      ∃ raw cause, vars key.name = some raw ∧ (∃ core, Trims raw.toList core ∧
        Numeral.Refused (2 ^ key.bits) core cause) ∧ e = .number key.name raw cause := by
  cases hraw : vars key.name with
  | none => simp [number_of_none hraw]
  | some raw =>
    simp only [number_of_some hraw, ← parseBounded_trim_eq_error_iff (Nat.two_pow_pos key.bits), Option.some.injEq,
      exists_and_left, exists_eq_left']
    generalize Numeral.parseBounded (2 ^ key.bits) (trim raw) = parsed
    cases parsed <;> simp [Except.mapError, eq_comm]

namespace HasNumber

theorem unique (hn : HasNumber vars key n) (hm : HasNumber vars key m) : n = m :=
  Except.ok.inj ((number_eq_ok_iff.2 hn).symm.trans (number_eq_ok_iff.2 hm))

/-- every default fits its bits, and so does every number that is read -/
theorem lt (h : HasNumber vars key n) : n < 2 ^ key.bits := by
  cases h with
  | unset _ => cases key <;> decide
  | set _ _ hn =>
    obtain ⟨_, _, -, -, -, -, -, hlt⟩ := hn
    exact hlt

theorem ofNat16 (h : HasNumber vars key n) (hbits : key.bits = 16) : HasNumber vars key (UInt16.ofNat n).toNat := by
  have hlt : n < 2 ^ 16 := hbits ▸ h.lt
  rwa [UInt16.toNat_ofNat_of_lt' hlt]

theorem ofNat32 (h : HasNumber vars key n) (hbits : key.bits = 32) : HasNumber vars key (UInt32.ofNat n).toNat := by
  have hlt : n < 2 ^ 32 := hbits ▸ h.lt
  rwa [UInt32.toNat_ofNat_of_lt' hlt]

theorem ofNat64 (h : HasNumber vars key n) (hbits : key.bits = 64) : HasNumber vars key (UInt64.ofNat n).toNat := by
  have hlt : n < 2 ^ 64 := hbits ▸ h.lt
  rwa [UInt64.toNat_ofNat_of_lt' hlt]

end HasNumber

/-! ## Words -/

/-- the word for the read policy -/
def policyWord (vars : Lookup) : String := (vars "READ_FAILURE_POLICY").getD "fatal"

/-- the list of spenders -/
def spenderList (vars : Lookup) : String := (vars "ORDER_BOOK_SPENDERS").getD defaultSpenders

/-- the policy that the variables name -/
inductive HasPolicy (vars : Lookup) : ReadPolicy → Prop where
  | fatal (hword : Says (policyWord vars) "fatal") : HasPolicy vars .fatal
  | retry {maxAttempts : UInt32} {baseDelay : Nat} (hword : Says (policyWord vars) "retry")
    (hmax : HasNumber vars .maxAttempts maxAttempts.toNat) (hpos : 0 < maxAttempts.toNat)
    (hbase : HasNumber vars .baseDelay baseDelay) : HasPolicy vars (.retry maxAttempts baseDelay)

theorem HasPolicy.unique {p q : ReadPolicy} (hp : HasPolicy vars p) (hq : HasPolicy vars q) : p = q := by
  cases hp with
  | fatal hword =>
    cases hq with
    | fatal _ => rfl
    | retry hword' _ _ _ => exact absurd (hword.unique hword') (by decide)
  | retry hword hmax _ hbase =>
    cases hq with
    | fatal hword' => exact absurd (hword.unique hword') (by decide)
    | retry _ hmax' _ hbase' =>
      obtain rfl := UInt32.toNat_inj.1 (hmax.unique hmax')
      obtain rfl := hbase.unique hbase'
      rfl

/-- a word for yes -/
def SaysYes (text : String) : Prop := ∃ word ∈ ["true", "1", "yes"], Says text word

theorem isYes_iff {text : String} : isYes text = true ↔ SaysYes text := by
  simp only [SaysYes, says_iff, isYes]
  split
  · next h => simp [h]
  · next h => simp [h]
  · next h => simp [h]
  · next h₁ h₂ h₃ => simpa using ⟨h₁, h₂, h₃⟩

/-! ## Variables that can be invalid -/

inductive Variable where
  | number (key : NumberKey)
  | policy
  | spenders
deriving DecidableEq, Repr

namespace Variable

def name : Variable → String
  | number key => key.name
  | policy => "READ_FAILURE_POLICY"
  | spenders => "ORDER_BOOK_SPENDERS"

/-- the order in which they are looked at -/
def order : List Variable :=
  [number .maxAttempts, number .baseDelay, policy, number .httpPort, number .metricsPort, number .snapshotInterval,
    number .batchSize, number .block, number .batchPause, number .snapshotRetry, number .readinessInterval, spenders]

theorem mem_order (v : Variable) : v ∈ order := by
  cases v with
  | number key => cases key <;> decide
  | policy => decide
  | spenders => decide

/-- a variable, or its default, can be read; `retry` also needs at least one attempt -/
def Valid (vars : Lookup) : Variable → Prop
  | number key => ∃ n, HasNumber vars key n
  | policy =>
    Says (policyWord vars) "fatal" ∨
      Says (policyWord vars) "retry" ∧ ∃ n, HasNumber vars .maxAttempts n ∧ 0 < n
  | spenders => ∃ ps, Spenders.Listed (spenderList vars) ps

/-- every default can be read -/
theorem valid_of_unset {v : Variable} (h : vars v.name = none) : v.Valid vars := by
  cases v with
  | number key => exact ⟨_, .unset h⟩
  | policy =>
    have hword : policyWord vars = "fatal" := congrArg (Option.getD · "fatal") h
    have hmeans : Says "fatal" "fatal" := says_iff.2 (by decide +kernel)
    exact Or.inl (by rwa [hword])
  | spenders =>
    have hlist : spenderList vars = defaultSpenders := congrArg (Option.getD · defaultSpenders) h
    have hread : Spenders.parse defaultSpenders = .ok [("zrx", "0xDef1C0ded9bec7F1a1670819833240f027b25EfF")] := by
      decide +kernel
    exact ⟨_, hlist ▸ Spenders.parse_eq_ok_iff.1 hread⟩

/-- what is reported of a variable that is not valid -/
inductive Fault (vars : Lookup) : Variable → SettingsError → Prop where
  | number {key : NumberKey} {raw : String} {core : List Char} {cause : NumeralError} (h : vars key.name = some raw)
    (hcore : Trims raw.toList core) (hcause : Numeral.Refused (2 ^ key.bits) core cause) :
    Fault vars (.number key) (.number key.name raw cause)
  | noAttempts (hword : Says (policyWord vars) "retry") (hmax : HasNumber vars .maxAttempts 0) :
    Fault vars .policy .noAttempts
  | unknownPolicy {word : String} (hword : Says (policyWord vars) word) (hfatal : word ≠ "fatal")
    (hretry : word ≠ "retry") : Fault vars .policy (.unknownPolicy word)
  | notAPair {segment core : List Char}
    (hfirst : First Spenders.Faulty ((spenderList vars).toList.splitOn ',') segment) (hcore : Trims segment core) :
    Fault vars .spenders (.notAPair (String.ofList core))

variable {v : Variable} {e e' : SettingsError}

theorem fault_number_iff : Fault vars (.number key) e ↔ Settings.number vars key = .error e := by
  rw [number_eq_error_iff]
  constructor
  · rintro ⟨h, hcore, hcause⟩
    exact ⟨_, _, h, ⟨_, hcore, hcause⟩, rfl⟩
  · rintro ⟨raw, cause, h, ⟨core, hcore, hcause⟩, rfl⟩
    exact .number h hcore hcause

theorem fault_spenders_iff : Fault vars .spenders e ↔ Spenders.parse (spenderList vars) = .error e := by
  rw [Spenders.parse_eq_error_iff]
  constructor
  · rintro (- | - | - | ⟨hfirst, hcore⟩)
    exact ⟨_, _, hfirst, hcore, rfl⟩
  · rintro ⟨segment, core, hfirst, hcore, rfl⟩
    exact .notAPair hfirst hcore

namespace Fault

theorem not_valid (h : Fault vars v e) : ¬ Valid vars v := by
  cases v with
  | number key =>
    rintro ⟨n, hn⟩
    have hread := (number_eq_ok_iff.2 hn).symm.trans (fault_number_iff.1 h)
    cases hread
  | policy =>
    rintro (hfatal | ⟨hretry, n, hn, hpos⟩)
    · cases h with
      | noAttempts hword _ => exact absurd (hword.unique hfatal) (by decide)
      | unknownPolicy hword hne _ => exact hne (hword.unique hfatal)
    · cases h with
      | noAttempts _ hmax => exact Nat.ne_of_lt hpos (hmax.unique hn)
      | unknownPolicy hword _ hne => exact hne (hword.unique hretry)
  | spenders =>
    rintro ⟨ps, hps⟩
    have hread := (Spenders.parse_eq_ok_iff.2 hps).symm.trans (fault_spenders_iff.1 h)
    cases hread

theorem unique (h : Fault vars v e) (h' : Fault vars v e') : e = e' := by
  cases v with
  | number key => exact Except.error.inj ((fault_number_iff.1 h).symm.trans (fault_number_iff.1 h'))
  | policy =>
    cases h with
    | noAttempts hword _ =>
      cases h' with
      | noAttempts _ _ => rfl
      | unknownPolicy hword' _ hne => exact absurd (hword'.unique hword) hne
    | unknownPolicy hword _ hne =>
      cases h' with
      | noAttempts hword' _ => exact absurd (hword.unique hword') hne
      | unknownPolicy hword' _ _ => rw [hword.unique hword']
  | spenders => exact Except.error.inj ((fault_spenders_iff.1 h).symm.trans (fault_spenders_iff.1 h'))

end Fault

end Variable

/-! ## Readings -/

/-- variables are read in order: all are valid, and the result is as it should be; or the first that is not valid is
reported -/
inductive Outcome {α : Type} (vars : Lookup) (vs : List Variable) (P : α → Prop) : Except SettingsError α → Prop where
  | accepted {a : α} (hvalid : ∀ v ∈ vs, v.Valid vars) (ha : P a) : Outcome vars vs P (.ok a)
  | refused {v : Variable} {e : SettingsError} (hfirst : First (¬ ·.Valid vars) vs v) (hfault : v.Fault vars e) :
    Outcome vars vs P (.error e)

namespace Outcome

variable {α β : Type} {P : α → Prop} {Q : β → Prop} {v : Variable} {vs : List Variable}

theorem one {x : Except SettingsError α} (hok : ∀ a, x = .ok a → v.Valid vars ∧ P a)
    (herror : ∀ e, x = .error e → v.Fault vars e) : Outcome vars [v] P x := by
  cases x with
  | ok a => exact .accepted (List.forall_mem_singleton.2 (hok a rfl).1) (hok a rfl).2
  | error e => exact .refused (.head (herror e rfl).not_valid) (herror e rfl)

/-- one variable is read, and if it is valid the others after it -/
theorem bind {x : Except SettingsError α} {f : α → Except SettingsError β} (hx : Outcome vars [v] P x)
    (hf : ∀ a, P a → Outcome vars vs Q (f a)) : Outcome vars (v :: vs) Q (x >>= f) := by
  cases hx with
  | @accepted a hvalid ha =>
    have hv : v.Valid vars := hvalid v List.mem_cons_self
    have hrest : Outcome vars vs Q (f a) := hf a ha
    show Outcome vars (v :: vs) Q (f a)
    generalize f a = y at hrest ⊢
    cases hrest with
    | accepted hvalids hb => exact .accepted (List.forall_mem_cons.2 ⟨hv, hvalids⟩) hb
    | refused hfirst hfault => exact .refused (hfirst.cons (not_not.2 hv)) hfault
  | refused hfirst hfault =>
    -- the fault ends the reading, so it comes before any fault of the others
    obtain rfl := List.mem_singleton.1 hfirst.mem
    exact .refused (.head hfirst.holds) hfault

end Outcome

theorem number_outcome (vars : Lookup) (key : NumberKey) :
    Outcome vars [.number key] (HasNumber vars key) (number vars key) := by
  refine .one (fun n hn => ?_) fun e he => Variable.fault_number_iff.2 he
  have hnumber := number_eq_ok_iff.1 hn
  exact ⟨⟨n, hnumber⟩, hnumber⟩

theorem policy_outcome {maxAttempts baseDelay : Nat} (hmax : HasNumber vars .maxAttempts maxAttempts)
    (hbase : HasNumber vars .baseDelay baseDelay) :
    Outcome vars [.policy] (HasPolicy vars)
      (ReadPolicy.parse (policyWord vars) (.ofNat maxAttempts) baseDelay) := by
  -- the number of attempts fits its bits, so it is the number that is read
  have hmax' := hmax.ofNat32 rfl
  rw [ReadPolicy.parse]
  split
  · next hword =>
    have hmeans := says_iff.2 hword
    exact .accepted (List.forall_mem_singleton.2 (Or.inl hmeans)) (.fatal hmeans)
  · next hword =>
    have hmeans := says_iff.2 hword
    split_ifs with hzero
    · rw [hzero] at hmax'
      have hfault : Variable.policy.Fault vars .noAttempts := .noAttempts hmeans hmax'
      exact .refused (.head hfault.not_valid) hfault
    · have hpos : 0 < (UInt32.ofNat maxAttempts).toNat := Nat.pos_of_ne_zero fun h => hzero (UInt32.toNat_inj.1 h)
      exact .accepted (List.forall_mem_singleton.2 (Or.inr ⟨hmeans, _, hmax', hpos⟩)) (.retry hmeans hmax' hpos hbase)
  · next hfatal hretry =>
    have hfault : Variable.policy.Fault vars (.unknownPolicy (lower (trim (policyWord vars)))) :=
      .unknownPolicy (says_iff.2 rfl) hfatal hretry
    exact .refused (.head hfault.not_valid) hfault

theorem spenders_outcome (vars : Lookup) :
    Outcome vars [.spenders] (Spenders.Listed (spenderList vars)) (Spenders.parse (spenderList vars)) := by
  refine .one (fun ps hps => ?_) fun e he => Variable.fault_spenders_iff.2 he
  have hlisted := Spenders.parse_eq_ok_iff.1 hps
  exact ⟨⟨ps, hlisted⟩, hlisted⟩

/-! ## Settings -/

/-- every setting is what its variable says, or its default -/
structure Settled (vars : Lookup) (s : Settings) : Prop where
  redisUrl : s.redisUrl = (vars "REDIS_URL").getD "redis://localhost:6379"
  updateStream : s.updateStream = (vars "UPDATE_STREAM").getD "updateStream"
  snapshotStream : s.snapshotStream = (vars "SNAPSHOT_STREAM").getD "snapshotStream"
  rpcUrl : s.rpcUrl = (vars "RPC_URL").getD "http://localhost:8545"
  httpPort : HasNumber vars .httpPort s.httpPort.toNat
  metricsPort : HasNumber vars .metricsPort s.metricsPort.toNat
  snapshotInterval : HasNumber vars .snapshotInterval s.snapshotInterval.toNat
  batchSize : HasNumber vars .batchSize s.batchSize.toNat
  block : HasNumber vars .block s.block.toNat
  batchPause : HasNumber vars .batchPause s.batchPause.toNat
  policy : HasPolicy vars s.policy
  snapshotRetry : HasNumber vars .snapshotRetry s.snapshotRetry.toNat
  requireSnapshot : s.requireSnapshot = true ↔ SaysYes ((vars "REQUIRE_SNAPSHOT").getD "false")
  readinessInterval : HasNumber vars .readinessInterval s.readinessInterval.toNat
  enrichOnStart : s.enrichOnStart = true ↔ SaysYes ((vars "ENRICH_ON_START").getD "true")
  spenders : Spenders.Listed (spenderList vars) s.spenders

/-- the variables are read in their order -/
theorem ofLookup_outcome (vars : Lookup) : Outcome vars Variable.order (Settled vars) (ofLookup vars) := by
  refine (number_outcome vars .maxAttempts).bind fun maxAttempts hmax => ?_
  refine (number_outcome vars .baseDelay).bind fun baseDelay hbase => ?_
  refine (policy_outcome hmax hbase).bind fun policy hpolicy => ?_
  refine (number_outcome vars .httpPort).bind fun httpPort hhttp => ?_
  refine (number_outcome vars .metricsPort).bind fun metricsPort hmetrics => ?_
  refine (number_outcome vars .snapshotInterval).bind fun snapshotInterval hinterval => ?_
  refine (number_outcome vars .batchSize).bind fun batchSize hsize => ?_
  refine (number_outcome vars .block).bind fun block hblock => ?_
  refine (number_outcome vars .batchPause).bind fun batchPause hpause => ?_
  refine (number_outcome vars .snapshotRetry).bind fun snapshotRetry hretry => ?_
  refine (number_outcome vars .readinessInterval).bind fun readinessInterval hreadiness => ?_
  refine (spenders_outcome vars).bind fun spenders hspenders => ?_
  exact .accepted nofun
    { redisUrl := rfl
      updateStream := rfl
      snapshotStream := rfl
      rpcUrl := rfl
      httpPort := hhttp.ofNat16 rfl
      metricsPort := hmetrics.ofNat16 rfl
      snapshotInterval := hinterval.ofNat64 rfl
      batchSize := hsize.ofNat64 rfl
      block := hblock.ofNat64 rfl
      batchPause := hpause.ofNat64 rfl
      policy := hpolicy
      snapshotRetry := hretry.ofNat64 rfl
      requireSnapshot := isYes_iff
      readinessInterval := hreadiness.ofNat64 rfl
      enrichOnStart := isYes_iff
      spenders := hspenders }

theorem Settled.unique {s t : Settings} (hs : Settled vars s) (ht : Settled vars t) : s = t := by
  have hyes : ∀ {a b : Bool} {p : Prop}, (a = true ↔ p) → (b = true ↔ p) → a = b :=
    fun ha hb => Bool.eq_iff_iff.2 (ha.trans hb.symm)
  have hpairs : ∀ {ps qs}, Spenders.Listed (spenderList vars) ps → Spenders.Listed (spenderList vars) qs → ps = qs :=
    fun hps hqs => Except.ok.inj ((Spenders.parse_eq_ok_iff.2 hps).symm.trans (Spenders.parse_eq_ok_iff.2 hqs))
  cases s
  cases t
  congr
  · exact hs.redisUrl.trans ht.redisUrl.symm
  · exact hs.updateStream.trans ht.updateStream.symm
  · exact hs.snapshotStream.trans ht.snapshotStream.symm
  · exact hs.rpcUrl.trans ht.rpcUrl.symm
  · exact UInt16.toNat_inj.1 (hs.httpPort.unique ht.httpPort)
  · exact UInt16.toNat_inj.1 (hs.metricsPort.unique ht.metricsPort)
  · exact UInt64.toNat_inj.1 (hs.snapshotInterval.unique ht.snapshotInterval)
  · exact UInt64.toNat_inj.1 (hs.batchSize.unique ht.batchSize)
  · exact UInt64.toNat_inj.1 (hs.block.unique ht.block)
  · exact UInt64.toNat_inj.1 (hs.batchPause.unique ht.batchPause)
  · exact hs.policy.unique ht.policy
  · exact UInt64.toNat_inj.1 (hs.snapshotRetry.unique ht.snapshotRetry)
  · exact hyes hs.requireSnapshot ht.requireSnapshot
  · exact UInt64.toNat_inj.1 (hs.readinessInterval.unique ht.readinessInterval)
  · exact hyes hs.enrichOnStart ht.enrichOnStart
  · exact hpairs hs.spenders ht.spenders

theorem ofLookup_eq_ok_iff {s : Settings} :
    ofLookup vars = .ok s ↔ (∀ v : Variable, v.Valid vars) ∧ Settled vars s := by
  have houtcome := ofLookup_outcome vars
  generalize ofLookup vars = x at houtcome
  cases houtcome with
  | @accepted t hvalid ht =>
    constructor
    · rintro ⟨⟩
      exact ⟨fun v => hvalid v v.mem_order, ht⟩
    · rintro ⟨-, hs⟩
      rw [ht.unique hs]
  | refused hfirst _ => exact iff_of_false nofun fun h => hfirst.holds (h.1 _)

theorem ofLookup_eq_error_iff {e : SettingsError} :
    ofLookup vars = .error e ↔ ∃ v, First (¬ ·.Valid vars) Variable.order v ∧ v.Fault vars e := by
  have houtcome := ofLookup_outcome vars
  generalize ofLookup vars = x at houtcome
  cases houtcome with
  | accepted hvalid _ =>
    refine iff_of_false nofun ?_
    rintro ⟨v, hfirst, -⟩
    exact hfirst.holds (hvalid v hfirst.mem)
  | refused hfirst hfault =>
    constructor
    · rintro ⟨⟩
      exact ⟨_, hfirst, hfault⟩
    · rintro ⟨v, hfirst', hfault'⟩
      obtain rfl := hfirst.unique hfirst'
      rw [hfault.unique hfault']

/-- **Settings are made exactly if every variable is valid,** which an unset one is, and then every setting is what its
variable says or its default. Otherwise the fault of the first variable that is not valid is reported. The consumer
gets the batch size, the pause and the policy as they are, and a policy that retries allows at least one attempt. -/
theorem accepted_or_first_fault (vars : Lookup) :
    (∀ v : Variable, vars v.name = none → v.Valid vars) ∧
      ((∃ s, ofLookup vars = .ok s) ↔ ∀ v : Variable, v.Valid vars) ∧
      (∀ s, ofLookup vars = .ok s ↔ (∀ v : Variable, v.Valid vars) ∧ Settled vars s) ∧
      (∀ e, ofLookup vars = .error e ↔ ∃ v, First (¬ ·.Valid vars) Variable.order v ∧ v.Fault vars e) ∧
      ∀ s, ofLookup vars = .ok s →
        s.consumer.batchSize = s.batchSize ∧ s.consumer.pause = s.batchPause.toNat ∧ s.consumer.policy = s.policy ∧
          ∀ maxAttempts baseDelay, s.policy = .retry maxAttempts baseDelay → 0 < maxAttempts.toNat := by
  refine ⟨fun v => Variable.valid_of_unset, ⟨?_, fun hvalid => ?_⟩, fun s => ofLookup_eq_ok_iff,
    fun e => ofLookup_eq_error_iff, fun s hs => ?_⟩
  · rintro ⟨s, hs⟩
    exact (ofLookup_eq_ok_iff.1 hs).1
  · cases hread : ofLookup vars with
    | ok s => exact ⟨s, rfl⟩
    | error e =>
      obtain ⟨v, hfirst, -⟩ := ofLookup_eq_error_iff.1 hread
      exact absurd (hvalid v) hfirst.holds
  · refine ⟨rfl, rfl, rfl, fun maxAttempts baseDelay hretry => ?_⟩
    have hpolicy := (ofLookup_eq_ok_iff.1 hs).2.policy
    rw [hretry] at hpolicy
    cases hpolicy with
    | retry _ _ hpos _ => exact hpos

/-- retrying, with a capital and between blanks, and a plus before the attempts -/
def retrying : Lookup
  | "READ_FAILURE_POLICY" => some " Retry\t"
  | "READ_RETRY_MAX_ATTEMPTS" => some " +03"
  | _ => none

theorem ofLookup_retrying : ∃ s, ofLookup retrying = .ok s ∧ s.policy = .retry 3 500 := by
  have hpolicy : (ofLookup retrying).map policy = .ok (.retry 3 500) := by decide +kernel
  cases hs : ofLookup retrying with
  | error e =>
    rw [hs] at hpolicy
    cases hpolicy
  | ok s =>
    rw [hs] at hpolicy
    exact ⟨s, rfl, Except.ok.inj hpolicy⟩

/-- a list of spenders that is no list, and a port that is too large -/
def misspelt : Lookup
  | "ORDER_BOOK_SPENDERS" => some "zrx"
  | "HTTP_PORT" => some "65536"
  | _ => none

/-- three attempts are made; and of the two faults that of the port comes first -/
theorem accepted_or_first_fault_retrying :
    (∃ s, ofLookup retrying = .ok s ∧ s.consumer.policy = .retry 3 500 ∧ 0 < (3 : UInt32).toNat) ∧
      ofLookup misspelt = .error (.number "HTTP_PORT" "65536" .tooLarge) ∧
      (∃ v, First (¬ ·.Valid misspelt) Variable.order v ∧ v.Fault misspelt (.number "HTTP_PORT" "65536" .tooLarge)) ∧
      Variable.policy.Valid misspelt := by
  obtain ⟨-, -, -, -, haccepted⟩ := accepted_or_first_fault retrying
  obtain ⟨hunset, -, -, hrefused, -⟩ := accepted_or_first_fault misspelt
  obtain ⟨s, hs, hpolicy⟩ := ofLookup_retrying
  obtain ⟨-, -, hconsumer, hpos⟩ := haccepted s hs
  have hmisspelt : ofLookup misspelt = .error (.number "HTTP_PORT" "65536" .tooLarge) := by decide +kernel
  exact ⟨⟨s, hs, hconsumer.trans hpolicy, hpos 3 500 hpolicy⟩, hmisspelt, (hrefused _).1 hmisspelt, hunset .policy rfl⟩

end ReplicatedOrders.Settings
