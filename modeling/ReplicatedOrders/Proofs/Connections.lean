/-
Connections: how a stream log keeps its two connections, and what it reads.

Every operation belongs to one of the two roles, and its command goes over the connection of that role. A `Call` is an
operation together with what is there for it: what becomes of a connection, if one is opened, and the reply.
- `RawEntry.mapM_entry_cases`: all entries of a reply, or the first id that cannot be read.
- `StreamLog.error_answer`: the error that gives a connection up is that of the connection itself.
- `StreamLog.perform_effect`: what one call does to the connections.
- `StreamLog.kept_run_eq_none_iff`: the last call of a role says whether a connection is kept for it.
- `StreamLog.Agree.transcript_filter`: the calls of one role go as if there were no others.
- `StreamLog.Inv.run`: no connection ever serves both roles.
- `StreamLog.connections_apart`: all of it.
-/
import ReplicatedOrders.Proofs.Bytes
import ReplicatedOrders.Proofs.EntryIds
import ReplicatedOrders.Redis.StreamLog

namespace ReplicatedOrders.Redis

/-! ## Entries -/

/-- the text that a value stands for -/
inductive Scalar.Shows : Scalar → String → Prop where
  | bulk (text : String) : Shows (.bulk (Text.bytes text)) text
  | int (n : Int) : Shows (.int n) (toString n)
  | status (text : String) : Shows (.status text) text

theorem Scalar.text?_eq_some_iff {v : Scalar} {text : String} : v.text? = some text ↔ v.Shows text := by
  constructor
  · intro h
    cases v with
    | nil => cases h
    | int n =>
      obtain rfl := Option.some.inj h
      exact .int n
    | bulk bytes =>
      simp only [Scalar.text?, String.fromUTF8?] at h
      split_ifs at h with hvalid
      obtain rfl := Option.some.inj h
      exact .bulk (.fromUTF8 ⟨bytes.toArray⟩ hvalid)
    | status text' =>
      obtain rfl := Option.some.inj h
      exact .status text'
  · rintro (text | n | text)
    · exact dif_pos text.isValidUTF8
    · rfl
    · rfl

namespace RawEntry

/-- the last value under a field shows a text -/
def Carries (e : RawEntry) (field text : String) : Prop :=
  ∃ before v after, e.fields = before ++ (field, v) :: after ∧ (∀ p ∈ after, p.1 ≠ field) ∧ v.Shows text

/-- an entry as it is read: the id that its text names, and the text under the field, if there is one -/
def ReadAs (field : String) (raw : RawEntry) (e : LogEntry) : Prop :=
  EntryId.Names raw.id.toList e.id ∧ ∀ text, e.payload = some text ↔ raw.Carries field text

theorem payload?_eq_some_iff {e : RawEntry} {field text : String} :
    e.payload? field = some text ↔ e.Carries field text := by
  simp only [payload?, Option.bind_eq_some_iff, List.lookup_eq_some_iff, Scalar.text?_eq_some_iff]
  constructor
  · rintro ⟨v, ⟨after, before, hfields, hafter⟩, hv⟩
    refine ⟨before.reverse, v, after.reverse, ?_, fun p hp => ?_, hv⟩
    · rw [← e.fields.reverse_reverse, hfields, List.reverse_append, List.reverse_cons, List.append_assoc]
      rfl
    · exact (bne_iff_ne.1 (hafter p (List.mem_reverse.1 hp))).symm
  · rintro ⟨before, v, after, hfields, hafter, hv⟩
    refine ⟨v, ⟨after.reverse, before.reverse, ?_, fun p hp => ?_⟩, hv⟩
    · rw [hfields, List.reverse_append, List.reverse_cons, List.append_assoc]
      rfl
    · exact bne_iff_ne.2 (hafter p (List.mem_reverse.1 hp)).symm

theorem entry_cases (field : String) (e : RawEntry) :
    (∃ read, e.entry field = .ok read ∧ e.ReadAs field read) ∨
      (∀ id, ¬ EntryId.Names e.id.toList id) ∧ e.entry field = .error (.invalidEntryId e.id) := by
  rw [entry]
  cases hid : EntryId.parse e.id with
  | ok id => exact Or.inl ⟨⟨id, _⟩, rfl, EntryId.parse_eq_ok_iff.1 hid, fun _ => payload?_eq_some_iff⟩
  | error error =>
    obtain ⟨hbad, rfl⟩ := EntryId.parse_eq_error_iff.1 hid
    exact Or.inr ⟨hbad, rfl⟩

theorem mapM_entry_cases (field : String) (es : List RawEntry) :
    (∃ entries, es.mapM (entry field) = .ok entries ∧ List.Forall₂ (ReadAs field) es entries) ∨
      ∃ before bad after, es = before ++ bad :: after ∧ (∀ e ∈ before, ∃ id, EntryId.Names e.id.toList id) ∧
        (∀ id, ¬ EntryId.Names bad.id.toList id) ∧ es.mapM (entry field) = .error (.invalidEntryId bad.id) := by
  induction es with
  | nil => exact Or.inl ⟨[], rfl, .nil⟩
  | cons raw es ih =>
    rw [List.mapM_cons]
    rcases entry_cases field raw with ⟨read, hraw, hread⟩ | ⟨hbad, hraw⟩
    · rw [hraw]
      rcases ih with ⟨entries, hes, hall⟩ | ⟨before, bad, after, rfl, hbefore, hbad, hes⟩
      · refine Or.inl ⟨read :: entries, ?_, .cons hread hall⟩
        rw [hes]
        rfl
      · refine Or.inr ⟨raw :: before, bad, after, rfl, List.forall_mem_cons.2 ⟨⟨_, hread.1⟩, hbefore⟩, hbad, ?_⟩
        rw [hes]
        rfl
    · refine Or.inr ⟨[], raw, es, rfl, nofun, hbad, ?_⟩
      rw [hraw]
      rfl

end RawEntry

/-- the role that a command belongs to -/
def Command.role? : Command → Option Role
  | append .. | newest _ => some .writer
  | read .. => some .reader
  | ping => none

namespace StreamLog

section

variable {l : StreamLog} {role other : Role} {command : Command} {link : Link} {usable : Bool}

/-! ## Roles -/

theorem kept_keep (l : StreamLog) (role : Role) (n : Option Nat) : (l.keep role n).kept role = n := by
  cases role <;> rfl

theorem kept_keep_of_ne (l : StreamLog) (h : other ≠ role) (n : Option Nat) :
    (l.keep role n).kept other = l.kept other := by
  cases role <;> cases other <;> first | rfl | exact absurd rfl h

theorem client_keep (l : StreamLog) (role : Role) (n : Option Nat) : (l.keep role n).client = l.client := by
  cases role <;> rfl

/-- the two logs have the same stream, field and blocking time -/
def SameSettings (l l' : StreamLog) : Prop := l.stream = l'.stream ∧ l.field = l'.field ∧ l.block = l'.block

/-! ## One command -/

/-- the log after an attempt to send a command, whose reply is of use or not -/
def afterExchange (l : StreamLog) (role : Role) (command : Command) (link : Link) (usable : Bool) : StreamLog :=
  match l.connect role link with
  | (l, none) => l
  | (l, some n) =>
    if usable then { l with client := l.client.send n command }
    else ({ l with client := l.client.send n command }).keep role none

/-- there is a connection for the role -/
def connects (l : StreamLog) (role : Role) (link : Link) : Bool := (l.connect role link).2.isSome

/-- what is used of a reply, if the command was sent -/
def taken {α : Type} (sent : Bool) (used : Option α) : Except ServiceError α :=
  match sent, used with
  | true, some a => .ok a
  | _, _ => .error .redis

theorem exchange_eq {α : Type} (l : StreamLog) (role : Role) (command : Command) (use : Reply → Option α) (link : Link)
    (reply : Reply) :
    l.exchange role command use link reply =
      (l.afterExchange role command link (use reply).isSome, taken (l.connects role link) (use reply)) := by
  rw [exchange, afterExchange, connects]
  obtain ⟨l', _ | n⟩ := l.connect role link
  · rfl
  · cases use reply <;> rfl

/-- over a connection that is kept; the connection stays if the reply is of use -/
theorem afterExchange_of_some {n : Nat} (h : l.kept role = some n) :
    l.afterExchange role command link usable =
      ({ l with client := l.client.send n command }).keep role (if usable then some n else none) := by
  have hkept : ({ l with client := l.client.send n command }).keep role (some n) =
      { l with client := l.client.send n command } := by
    cases role <;> simp only [kept] at h <;> simp only [keep, h]
  rw [afterExchange, connect, h]
  cases usable
  · rfl
  · exact hkept.symm

/-- over a connection that is opened for it -/
theorem afterExchange_of_accepted (h : l.kept role = none) :
    l.afterExchange role command .accepted usable =
      ({ l with client := ⟨l.client.opened + 1, ⟨l.client.opened + 1, command⟩ :: l.client.sent⟩ }).keep role
        (if usable then some (l.client.opened + 1) else none) := by
  rw [afterExchange, connect, h]
  cases role <;> cases usable <;> rfl

/-- without a connection -/
theorem afterExchange_of_none (h : l.kept role = none) (hlink : link ≠ .accepted) :
    l.afterExchange role command link usable = { l with client := (l.client.connect link).1 } := by
  have hnone : ∀ client, ({ l with client }).keep role none = { l with client } := by
    intro client
    cases role <;> simp only [kept] at h <;> simp only [keep, h]
  rw [afterExchange, connect, h]
  cases link with
  | accepted => exact absurd rfl hlink
  | refused | unreachable => exact hnone _

theorem connects_iff : l.connects role link = true ↔ l.kept role ≠ none ∨ link = .accepted := by
  rw [connects, connect]
  cases h : l.kept role with
  | some n => simp
  | none => cases link <;> simp [Client.connect]

theorem sameSettings_afterExchange (l : StreamLog) (role : Role) (command : Command) (link : Link) (usable : Bool) :
    (l.afterExchange role command link usable).SameSettings l := by
  rw [afterExchange, connect]
  cases l.kept role with
  | some n => cases usable <;> cases role <;> exact ⟨rfl, rfl, rfl⟩
  | none => cases link <;> cases usable <;> cases role <;> exact ⟨rfl, rfl, rfl⟩

end

/-! ## Calls -/

inductive Operation where
  | append (payload : String)
  | readAfter (after : EntryId) (count : UInt64)
  | latest
deriving DecidableEq, Repr

namespace Operation

def role : Operation → Role
  | readAfter .. => .reader
  | append _ | latest => .writer

def command (l : StreamLog) : Operation → Command
  | append payload => .append l.stream l.field payload
  | readAfter after count => .read l.stream l.block count after
  | latest => .newest l.stream

theorem role?_command (op : Operation) (l : StreamLog) : (op.command l).role? = some op.role := by
  cases op <;> rfl

/-- the command can use the reply -/
def usable : Operation → Reply → Bool
  | append _, reply => reply.text?.isSome
  | readAfter .., reply | latest, reply => reply.entries?.isSome

end Operation

structure Call where
  operation : Operation
  link : Link
  reply : Reply

/-- what a call gives -/
inductive Outcome where
  | appended (result : Except ServiceError EntryId)
  | entries (result : Except ServiceError (List LogEntry))
  | newest (result : Except ServiceError (Option LogEntry))

namespace Outcome

def error? : Outcome → Option ServiceError
  | appended (.error e) | entries (.error e) | newest (.error e) => some e
  | _ => none

variable {e : ServiceError}

theorem error?_appended {result : Except ServiceError EntryId} :
    (appended result).error? = some e ↔ result = .error e := by
  cases result <;> simp [error?]

theorem error?_entries {result : Except ServiceError (List LogEntry)} :
    (entries result).error? = some e ↔ result = .error e := by
  cases result <;> simp [error?]

theorem error?_newest {result : Except ServiceError (Option LogEntry)} :
    (newest result).error? = some e ↔ result = .error e := by
  cases result <;> simp [error?]

end Outcome

def perform (l : StreamLog) (c : Call) : StreamLog × Outcome :=
  match c.operation with
  | .append payload => let (l, result) := l.append payload c.link c.reply; (l, .appended result)
  | .readAfter after count => let (l, result) := l.readAfter after count c.link c.reply; (l, .entries result)
  | .latest => let (l, result) := l.latest c.link c.reply; (l, .newest result)

/-- what a call gives, by whether its command was sent -/
def Call.answer (c : Call) (field : String) (sent : Bool) : Outcome :=
  match c.operation with
  | .append _ => .appended ((taken sent c.reply.text?).bind EntryId.parse)
  | .readAfter .. => .entries ((taken sent c.reply.entries?).bind fun es => es.mapM (RawEntry.entry field))
  | .latest =>
    .newest ((taken sent c.reply.entries?).bind fun es => match es with
      | [] => .ok none
      | e :: _ => (e.entry field).map some)

theorem perform_eq (l : StreamLog) (c : Call) :
    l.perform c =
      (l.afterExchange c.operation.role (c.operation.command l) c.link (c.operation.usable c.reply),
        c.answer l.field (l.connects c.operation.role c.link)) := by
  obtain ⟨operation, link, reply⟩ := c
  cases operation with
  | append payload =>
    simp only [perform, append, exchange_eq]
    rfl
  | readAfter after count =>
    simp only [perform, readAfter, exchange_eq, (sameSettings_afterExchange l _ _ _ _).2.1]
    rfl
  | latest =>
    simp only [perform, latest, exchange_eq, (sameSettings_afterExchange l _ _ _ _).2.1]
    rfl

/-- a reply that is of use is no error of the connection, whatever is made of it -/
theorem bind_taken_eq_iff {α β : Type} {f : α → Except ServiceError β} (hf : ∀ a, f a ≠ .error .redis) (sent : Bool)
    (used : Option α) : (taken sent used).bind f = .error .redis ↔ sent = false ∨ used.isSome = false := by
  cases sent with
  | false => exact iff_of_true rfl (Or.inl rfl)
  | true =>
    cases used with
    | none => exact iff_of_true rfl (Or.inr rfl)
    | some a => exact iff_of_false (hf a) (by simp)

theorem error_answer (c : Call) (field : String) (sent : Bool) :
    (c.answer field sent).error? = some .redis ↔ sent = false ∨ c.operation.usable c.reply = false := by
  obtain ⟨operation, link, reply⟩ := c
  cases operation with
  | append payload =>
    exact Outcome.error?_appended.trans
      (bind_taken_eq_iff (fun text h => nomatch (EntryId.parse_eq_error_iff.1 h).2) sent reply.text?)
  | readAfter after count =>
    refine Outcome.error?_entries.trans (bind_taken_eq_iff (fun es h => ?_) sent reply.entries?)
    rcases RawEntry.mapM_entry_cases field es with ⟨_, hes, _⟩ | ⟨_, _, _, _, _, _, hes⟩ <;> rw [hes] at h <;> cases h
  | latest =>
    refine Outcome.error?_newest.trans (bind_taken_eq_iff (fun es h => ?_) sent reply.entries?)
    cases es with
    | nil => cases h
    | cons e es =>
      simp only at h
      rcases RawEntry.entry_cases field e with ⟨_, he, _⟩ | ⟨_, he⟩ <;> rw [he] at h <;> cases h

section

variable {l : StreamLog} {c : Call}

/-- a call over a connection that is kept -/
theorem perform_of_some {n : Nat} (h : l.kept c.operation.role = some n) :
    (l.perform c).1.client = l.client.send n (c.operation.command l) ∧
      (l.perform c).1.kept c.operation.role = if (l.perform c).2.error? = some .redis then none else some n := by
  have hsent : l.connects c.operation.role c.link = true := connects_iff.2 (Or.inl (by simp [h]))
  simp only [perform_eq, afterExchange_of_some h, hsent, client_keep, kept_keep, error_answer, Bool.true_eq_false,
    false_or, true_and]
  cases c.operation.usable c.reply <;> rfl

/-- a call that opens a connection -/
theorem perform_of_accepted (h : l.kept c.operation.role = none) (hlink : c.link = .accepted) :
    (l.perform c).1.client =
        ⟨l.client.opened + 1, ⟨l.client.opened + 1, c.operation.command l⟩ :: l.client.sent⟩ ∧
      (l.perform c).1.kept c.operation.role =
        if (l.perform c).2.error? = some .redis then none else some (l.client.opened + 1) := by
  have hsent : l.connects c.operation.role .accepted = true := connects_iff.2 (Or.inr rfl)
  simp only [perform_eq, hlink, afterExchange_of_accepted h, hsent, client_keep, kept_keep, error_answer,
    Bool.true_eq_false, false_or, true_and]
  cases c.operation.usable c.reply <;> rfl

/-- a call for which no connection can be opened -/
theorem perform_of_none (h : l.kept c.operation.role = none) (hlink : c.link ≠ .accepted) :
    (l.perform c).1.client = (l.client.connect c.link).1 ∧ (l.perform c).1.kept c.operation.role = none ∧
      (l.perform c).2.error? = some .redis := by
  have hsent : l.connects c.operation.role c.link = false := by
    rw [← Bool.not_eq_true, connects_iff]
    simp [h, hlink]
  rw [perform_eq, afterExchange_of_none h hlink, hsent]
  refine ⟨rfl, ?_, (error_answer c l.field false).2 (Or.inl rfl)⟩
  rw [← h]
  cases c.operation.role <;> rfl

/-- the connection of the other role does not change -/
theorem kept_perform_of_ne {role : Role} (h : role ≠ c.operation.role) :
    (l.perform c).1.kept role = l.kept role := by
  rw [perform_eq]
  cases hkept : l.kept c.operation.role with
  | some n =>
    rw [afterExchange_of_some hkept, kept_keep_of_ne _ h]
    rfl
  | none =>
    by_cases hlink : c.link = .accepted
    · rw [hlink, afterExchange_of_accepted hkept, kept_keep_of_ne _ h]
      rfl
    · rw [afterExchange_of_none hkept hlink]
      rfl

theorem kept_perform_eq_none_iff :
    (l.perform c).1.kept c.operation.role = none ↔ (l.perform c).2.error? = some .redis := by
  cases hkept : l.kept c.operation.role with
  | some n => rw [(perform_of_some hkept).2]; split <;> simp [*]
  | none =>
    by_cases hlink : c.link = .accepted
    · rw [(perform_of_accepted hkept hlink).2]; split <;> simp [*]
    · exact iff_of_true (perform_of_none hkept hlink).2.1 (perform_of_none hkept hlink).2.2

theorem error_perform_iff : (l.perform c).2.error? = some .redis ↔
    (l.kept c.operation.role = none ∧ c.link ≠ .accepted) ∨ c.operation.usable c.reply = false := by
  rw [perform_eq, error_answer, ← Bool.not_eq_true (l.connects _ _), connects_iff, not_or, not_not]

theorem sameSettings_perform (l : StreamLog) (c : Call) : (l.perform c).1.SameSettings l := by
  rw [perform_eq]
  exact sameSettings_afterExchange ..

/-- what one call does to the connections -/
structure Effect (l : StreamLog) (c : Call) (l' : StreamLog) (outcome : Outcome) : Prop where
  other : ∀ role, role ≠ c.operation.role → l'.kept role = l.kept role
  /-- none is opened while one is kept -/
  keeps : ∀ n, l.kept c.operation.role = some n →
    l'.client = l.client.send n (c.operation.command l) ∧
      l'.kept c.operation.role = if outcome.error? = some .redis then none else some n
  accepted : l.kept c.operation.role = none → c.link = .accepted →
    l'.client = ⟨l.client.opened + 1, ⟨l.client.opened + 1, c.operation.command l⟩ :: l.client.sent⟩ ∧
      l'.kept c.operation.role = if outcome.error? = some .redis then none else some (l.client.opened + 1)
  refused : l.kept c.operation.role = none → c.link = .refused →
    l'.client = { l.client with opened := l.client.opened + 1 } ∧ outcome.error? = some .redis
  unreachable : l.kept c.operation.role = none → c.link = .unreachable →
    l'.client = l.client ∧ outcome.error? = some .redis
  /-- a connection is given up for its own errors only -/
  empty_iff : l'.kept c.operation.role = none ↔ outcome.error? = some .redis
  fails_iff : outcome.error? = some .redis ↔
    (l.kept c.operation.role = none ∧ c.link ≠ .accepted) ∨ c.operation.usable c.reply = false

theorem perform_effect (l : StreamLog) (c : Call) : l.Effect c (l.perform c).1 (l.perform c).2 where
  other _ h := kept_perform_of_ne h
  keeps _ h := perform_of_some h
  accepted h hlink := perform_of_accepted h hlink
  refused h hlink := by
    have hne : c.link ≠ .accepted := by simp [hlink]
    exact ⟨(perform_of_none h hne).1.trans (by rw [hlink]; rfl), (perform_of_none h hne).2.2⟩
  unreachable h hlink := by
    have hne : c.link ≠ .accepted := by simp [hlink]
    exact ⟨(perform_of_none h hne).1.trans (by rw [hlink]; rfl), (perform_of_none h hne).2.2⟩
  empty_iff := kept_perform_eq_none_iff
  fails_iff := error_perform_iff

/-- a read whose reply gives entries -/
theorem perform_readAfter {after : EntryId} {count : UInt64} {link : Link} {reply : Reply} {es : List RawEntry}
    (hlink : l.kept .reader ≠ none ∨ link = .accepted) (hreply : reply = .entries es ∨ reply = .scalar .nil ∧ es = []) :
    (l.perform ⟨.readAfter after count, link, reply⟩).2 = .entries (es.mapM (RawEntry.entry l.field)) := by
  have hsent : l.connects .reader link = true := connects_iff.2 hlink
  have hentries : reply.entries? = some es := by
    rcases hreply with rfl | ⟨rfl, rfl⟩ <;> rfl
  simp only [perform_eq, Operation.role, hsent, Call.answer, hentries]
  rfl

end

/-! ## Runs -/

def run (l : StreamLog) (calls : List Call) : StreamLog := calls.foldl (fun l c => (l.perform c).1) l

/-- the calls of a run, each with what it gave -/
def transcript : StreamLog → List Call → List (Call × Outcome)
  | _, [] => []
  | l, c :: calls => (c, (l.perform c).2) :: transcript (l.perform c).1 calls

theorem run_snoc (l : StreamLog) (calls : List Call) (c : Call) :
    l.run (calls ++ [c]) = ((l.run calls).perform c).1 := by
  rw [run, List.foldl_append]
  rfl

theorem transcript_snoc (l : StreamLog) (calls : List Call) (c : Call) :
    l.transcript (calls ++ [c]) = l.transcript calls ++ [(c, ((l.run calls).perform c).2)] := by
  induction calls generalizing l with
  | nil => rfl
  | cons first calls ih => exact congrArg (_ :: ·) (ih _)

theorem sameSettings_run (l : StreamLog) (calls : List Call) : (l.run calls).SameSettings l := by
  induction calls using List.reverseRecOn with
  | nil => exact ⟨rfl, rfl, rfl⟩
  | append_singleton calls c ih =>
    rw [run_snoc]
    exact ⟨(sameSettings_perform _ c).1.trans ih.1, (sameSettings_perform _ c).2.1.trans ih.2.1,
      (sameSettings_perform _ c).2.2.trans ih.2.2⟩

/-- the last call of a role says whether a connection is kept for it -/
theorem kept_run_eq_none_iff {l : StreamLog} {role : Role} (h : l.kept role = none) (calls : List Call) :
    (l.run calls).kept role = none ↔
      ∀ p ∈ ((l.transcript calls).filter (·.1.operation.role = role)).getLast?, p.2.error? = some .redis := by
  induction calls using List.reverseRecOn with
  | nil =>
    refine iff_of_true h fun p hp => ?_
    cases hp
  | append_singleton calls c ih =>
    rw [run_snoc, transcript_snoc, List.filter_append]
    by_cases hrole : c.operation.role = role
    · subst hrole
      rw [kept_perform_eq_none_iff]
      simp
    · rw [kept_perform_of_ne (Ne.symm hrole), ih]
      simp [hrole]

/-! ## The calls of one role -/

/-- the two logs differ in nothing that the calls of a role can tell -/
structure Agree (role : Role) (l l' : StreamLog) : Prop where
  settings : l.SameSettings l'
  kept : l.kept role = none ↔ l'.kept role = none

namespace Agree

variable {role : Role} {l l' : StreamLog} {c : Call}

theorem outcome (h : Agree role l l') (hrole : c.operation.role = role) : (l.perform c).2 = (l'.perform c).2 := by
  subst hrole
  have hsent : l.connects c.operation.role c.link = l'.connects c.operation.role c.link := by
    rw [Bool.eq_iff_iff, connects_iff, connects_iff, ne_eq, ne_eq, h.kept]
  rw [perform_eq, perform_eq, hsent, h.settings.2.1]

theorem perform (h : Agree role l l') (hrole : c.operation.role = role) :
    Agree role (l.perform c).1 (l'.perform c).1 := by
  subst hrole
  refine ⟨?_, by rw [kept_perform_eq_none_iff, kept_perform_eq_none_iff, h.outcome rfl]⟩
  obtain ⟨hstream, hfield, hblock⟩ := sameSettings_perform l c
  obtain ⟨hstream', hfield', hblock'⟩ := sameSettings_perform l' c
  exact ⟨hstream.trans (h.settings.1.trans hstream'.symm), hfield.trans (h.settings.2.1.trans hfield'.symm),
    hblock.trans (h.settings.2.2.trans hblock'.symm)⟩

theorem perform_left (h : Agree role l l') (hrole : c.operation.role ≠ role) : Agree role (l.perform c).1 l' := by
  obtain ⟨hstream, hfield, hblock⟩ := sameSettings_perform l c
  refine ⟨⟨hstream.trans h.settings.1, hfield.trans h.settings.2.1, hblock.trans h.settings.2.2⟩, ?_⟩
  rw [kept_perform_of_ne hrole.symm, h.kept]

/-- the calls of one role go as if there were no others -/
theorem transcript_filter (h : Agree role l l') (calls : List Call) :
    (l.transcript calls).filter (·.1.operation.role = role) =
      l'.transcript (calls.filter (·.operation.role = role)) := by
  induction calls generalizing l l' with
  | nil => rfl
  | cons c calls ih =>
    by_cases hrole : c.operation.role = role
    · rw [transcript, List.filter_cons_of_pos (by simpa using hrole), List.filter_cons_of_pos (by simpa using hrole),
        transcript, ih (h.perform hrole), h.outcome hrole]
    · rw [transcript, List.filter_cons_of_neg (by simpa using hrole), List.filter_cons_of_neg (by simpa using hrole),
        ih (h.perform_left hrole)]

end Agree

/-! ## No connection serves both roles -/

structure Inv (l : StreamLog) : Prop where
  opened : ∀ s ∈ l.client.sent, s.connection ≤ l.client.opened
  apart : ∀ s ∈ l.client.sent, ∀ t ∈ l.client.sent, s.connection = t.connection → s.command.role? = t.command.role?
  used : ∀ role n, l.kept role = some n → ∃ s ∈ l.client.sent, s.connection = n ∧ s.command.role? = some role

namespace Inv

variable {l l' : StreamLog} {role : Role}

/-- a command over a connection that served nothing else than its role -/
theorem send (h : Inv l) {opened n : Nat} {command : Command} (hcommand : command.role? = some role)
    (hclient : l'.client = ⟨opened, ⟨n, command⟩ :: l.client.sent⟩) (hopened : l.client.opened ≤ opened)
    (hn : n ≤ opened)
    (honly : ∀ t ∈ l.client.sent, t.connection = n → t.command.role? = some role)
    (hkept : ∀ m, l'.kept role = some m → m = n) (hother : ∀ other, other ≠ role → l'.kept other = l.kept other) :
    Inv l' where
  opened := by
    rw [hclient]
    exact List.forall_mem_cons.2 ⟨hn, fun s hs => (h.opened s hs).trans hopened⟩
  apart := by
    rw [hclient]
    refine List.forall_mem_cons.2 ⟨List.forall_mem_cons.2 ⟨fun _ => rfl, fun t ht hst => ?_⟩,
      fun s hs => List.forall_mem_cons.2 ⟨fun hst => ?_, h.apart s hs⟩⟩
    · exact hcommand.trans (honly t ht hst.symm).symm
    · exact (honly s hs hst).trans hcommand.symm
  used := by
    rw [hclient]
    intro role' m hm
    by_cases hrole : role' = role
    · subst hrole
      exact ⟨_, List.mem_cons_self, (hkept m hm).symm, hcommand⟩
    · obtain ⟨s, hs, hsm⟩ := h.used role' m (hother role' hrole ▸ hm)
      exact ⟨s, List.mem_cons_of_mem _ hs, hsm⟩

/-- nothing sent -/
theorem silent (h : Inv l) (hsent : l'.client.sent = l.client.sent) (hopened : l.client.opened ≤ l'.client.opened)
    (hkept : l'.kept role = none) (hother : ∀ other, other ≠ role → l'.kept other = l.kept other) : Inv l' where
  opened := by
    rw [hsent]
    exact fun s hs => (h.opened s hs).trans hopened
  apart := by
    rw [hsent]
    exact h.apart
  used := by
    rw [hsent]
    intro role' m hm
    have hrole : role' ≠ role := by
      rintro rfl
      cases hkept.symm.trans hm
    exact h.used role' m (hother role' hrole ▸ hm)

theorem of_fresh (hsent : l.client.sent = []) (hkept : ∀ role, l.kept role = none) : Inv l where
  opened _ hs := by simp [hsent] at hs
  apart _ hs := by simp [hsent] at hs
  used role n hn := by cases (hkept role).symm.trans hn

theorem perform (h : Inv l) (c : Call) : Inv (l.perform c).1 := by
  have heffect := l.perform_effect c
  have hcommand := c.operation.role?_command l
  cases hkept : l.kept c.operation.role with
  | some n =>
    obtain ⟨hclient, hafter⟩ := heffect.keeps n hkept
    obtain ⟨s, hs, rfl, hrole⟩ := h.used _ n hkept
    refine h.send hcommand hclient le_rfl (h.opened s hs) (fun t ht hts => ?_) (fun m hm => ?_) heffect.other
    · exact (h.apart t ht s hs hts).trans hrole
    · rw [hafter] at hm
      split at hm <;> cases hm
      rfl
  | none =>
    cases hlink : c.link with
    | accepted =>
      obtain ⟨hclient, hafter⟩ := heffect.accepted hkept hlink
      refine h.send hcommand hclient (Nat.le_succ _) le_rfl (fun t ht htn => ?_) (fun m hm => ?_) heffect.other
      · exact absurd (h.opened t ht) (by omega)
      · rw [hafter] at hm
        split at hm <;> cases hm
        rfl
    | refused =>
      obtain ⟨hclient, hafter⟩ := heffect.refused hkept hlink
      exact h.silent (by rw [hclient]) (by rw [hclient]; exact Nat.le_succ _) (heffect.empty_iff.2 hafter) heffect.other
    | unreachable =>
      obtain ⟨hclient, hafter⟩ := heffect.unreachable hkept hlink
      exact h.silent (by rw [hclient]) (by rw [hclient]) (heffect.empty_iff.2 hafter) heffect.other

theorem run (h : Inv l) (calls : List Call) : Inv (l.run calls) := by
  induction calls using List.reverseRecOn with
  | nil => exact h
  | append_singleton calls c ih =>
    rw [run_snoc]
    exact ih.perform c

theorem reader_ne_writer (h : Inv l) {n m : Nat} (hreader : l.kept .reader = some n)
    (hwriter : l.kept .writer = some m) : n ≠ m := by
  obtain ⟨s, hs, rfl, hrole⟩ := h.used _ n hreader
  obtain ⟨t, ht, rfl, hrole'⟩ := h.used _ m hwriter
  intro hst
  have := (hrole.symm.trans (h.apart s hs t ht hst)).trans hrole'
  cases this

end Inv

/-- **The two connections of a log are apart.** Whatever was called before and whatever the server did, the calls of one
role went as if there had been no others, the last of them says whether a connection is kept for the role, and no
connection ever served both. The next call changes the connection of its own role only: one is opened exactly if none
is kept, and it is given up exactly if the call fails with an error of the connection. A read whose reply can be used
gives all of its entries in their order, or the first id that cannot be read. -/
theorem connections_apart (stream field : String) (block : UInt64) (calls : List Call) :
    let fresh : StreamLog := { stream, field, block }
    let l := fresh.run calls
    l.SameSettings fresh ∧
      (∀ role, (fresh.transcript calls).filter (·.1.operation.role = role) =
        fresh.transcript (calls.filter (·.operation.role = role))) ∧
      (∀ role, l.kept role = none ↔
        ∀ p ∈ ((fresh.transcript calls).filter (·.1.operation.role = role)).getLast?, p.2.error? = some .redis) ∧
      (∀ s ∈ l.client.sent, ∀ t ∈ l.client.sent, s.connection = t.connection → s.command.role? = t.command.role?) ∧
      (∀ n m, l.kept .reader = some n → l.kept .writer = some m → n ≠ m) ∧
      (∀ c, l.Effect c (l.perform c).1 (l.perform c).2) ∧
      ∀ after count link reply es, (l.kept .reader ≠ none ∨ link = .accepted) →
        (reply = .entries es ∨ reply = .scalar .nil ∧ es = []) →
        (∃ entries, (l.perform ⟨.readAfter after count, link, reply⟩).2 = .entries (.ok entries) ∧
          List.Forall₂ (RawEntry.ReadAs field) es entries) ∨
        ∃ before bad rest, es = before ++ bad :: rest ∧ (∀ e ∈ before, ∃ id, EntryId.Names e.id.toList id) ∧
          (∀ id, ¬ EntryId.Names bad.id.toList id) ∧
          (l.perform ⟨.readAfter after count, link, reply⟩).2 = .entries (.error (.invalidEntryId bad.id)) := by
  intro fresh l
  have hnone : ∀ role, fresh.kept role = none := fun role => by cases role <;> rfl
  have hinv : l.Inv := (Inv.of_fresh rfl hnone).run calls
  have hsettings : l.SameSettings fresh := fresh.sameSettings_run calls
  refine ⟨hsettings, fun role => Agree.transcript_filter ⟨⟨rfl, rfl, rfl⟩, Iff.rfl⟩ calls,
    fun role => kept_run_eq_none_iff (hnone role) calls, hinv.apart, fun n m => hinv.reader_ne_writer,
    l.perform_effect, fun after count link reply es hlink hreply => ?_⟩
  rw [perform_readAfter hlink hreply, hsettings.2.1]
  rcases RawEntry.mapM_entry_cases field es with ⟨entries, hes, hread⟩ | ⟨before, bad, rest, rfl, hbefore, hbad, hes⟩
  · exact Or.inl ⟨entries, by rw [hes], hread⟩
  · exact Or.inr ⟨before, bad, rest, rfl, hbefore, hbad, by rw [hes]⟩

/-- the reader loses its connection, the writer keeps its own, and the next read is over a third one, which stays
although the id of its entry cannot be read -/
theorem connections_apart_lost_read :
    let l := ({ stream := "orders", field := "d" } : StreamLog).run
      [⟨.append "{}", .accepted, .scalar (.status "1-0")⟩, ⟨.readAfter ⟨0, 0⟩ 10, .accepted, .dropped⟩]
    let next : Call := ⟨.readAfter ⟨0, 0⟩ 10, .accepted, .entries [⟨"1-x", []⟩]⟩
    (l.perform ⟨.latest, .unreachable, .dropped⟩).1.client = l.client.send 1 (.newest "orders") ∧
      (l.perform next).1.kept .writer = some 1 ∧ (l.perform next).1.kept .reader = some 3 ∧
      (l.perform next).2 = .entries (.error (.invalidEntryId "1-x")) := by
  intro l next
  obtain ⟨-, -, -, -, -, heffect, hread⟩ := connections_apart "orders" "d" 5000
    [⟨.append "{}", .accepted, .scalar (.status "1-0")⟩, ⟨.readAfter ⟨0, 0⟩ 10, .accepted, .dropped⟩]
  have hwriter : l.kept .writer = some 1 := by decide +kernel
  have hreader : l.kept .reader = none := by decide +kernel
  have hnone : EntryId.parse? "1-x" = none := by decide +kernel
  have hresult : (l.perform next).2 = .entries (.error (.invalidEntryId "1-x")) := by
    rcases hread ⟨0, 0⟩ 10 .accepted (.entries [⟨"1-x", []⟩]) _ (.inr rfl) (.inl rfl) with
      ⟨_, _, hall⟩ | ⟨before, bad, rest, hes, _, _, herror⟩
    · cases hall with
      | cons hone _ => cases hnone.symm.trans (EntryId.parse?_eq_some_iff.2 hone.1)
    · have hmem : bad ∈ [(⟨"1-x", []⟩ : RawEntry)] := hes ▸ List.mem_append_right before List.mem_cons_self
      obtain rfl := List.mem_singleton.1 hmem
      exact herror
  refine ⟨((heffect ⟨.latest, .unreachable, .dropped⟩).keeps 1 hwriter).1, ?_, ?_, hresult⟩
  · exact ((heffect next).other .writer (by decide)).trans hwriter
  · refine ((heffect next).accepted hreader rfl).2.trans ?_
    rw [hresult]
    decide +kernel

end StreamLog

end ReplicatedOrders.Redis
