import SpareNode.Library.LockOrder
import SpareNode.Logging.ConsoleLogSink

/-! # One stream for many loggers

Threads log through loggers, each with its own threshold and mutex, into one console sink. A call takes the mutex of its
logger, formats its record, takes the mutex of the sink, puts out the line and then the newline, and gives both mutexes
back; an exception of the formatting ends it without a line. However the calls interleave, the stream can be read back.
-/
namespace SpareNode.Logging

def LogSeverity.value : LogSeverity → ℕ
  | .debug => 0
  | .info => 1
  | .warning => 2
  | .error => 3

/-- What the loggers and the sink are created with; a logger without a sink has no threshold. -/
structure Console where
  toUtc : ℤ → Option Utc
  colorsEnabled : Bool
  minimumSeverity : ℕ → Option LogSeverity

def Console.isEnabled (console : Console) (logger : ℕ) (severity : LogSeverity) : Bool :=
  match console.minimumSeverity logger with
  | none => false
  | some minimum => minimum.value ≤ severity.value

/-- How far a call has come: what it does next, and which mutexes it holds meanwhile. -/
inductive LogPhase where
  | entered
  | serialized
  | formatted (line : Bytes)
  | writing (line : Bytes)
  | ending
  | written
  | leaving
deriving DecidableEq

def LogPhase.holdsLogger : LogPhase → Bool
  | .entered => false
  | _ => true

def LogPhase.holdsSink : LogPhase → Bool
  | .writing _ | .ending | .written => true
  | _ => false

def LogPhase.pending : LogPhase → Bool
  | .written | .leaving => false
  | _ => true

/-- The steps that a call has still to take. -/
def LogPhase.remaining : LogPhase → ℕ
  | .entered => 7
  | .serialized => 6
  | .formatted _ => 5
  | .writing _ => 4
  | .ending => 3
  | .written => 2
  | .leaving => 1

structure LogCall where
  logger : ℕ
  record : LogRecord
  phase : LogPhase

structure SharedConsole where
  output : Bytes
  sinkMutex : Option ℕ
  loggerMutex : ℕ → Option ℕ
  calls : ℕ → Option LogCall

namespace SharedConsole

inductive Action where
  | log (thread logger : ℕ) (record : LogRecord)
  | lockLogger (thread : ℕ)
  | format (thread : ℕ)
  | lockSink (thread : ℕ)
  | putLine (thread : ℕ)
  | putNewline (thread : ℕ)
  | unlockSink (thread : ℕ)
  | unlockLogger (thread : ℕ)

def Action.begins : Action → Bool
  | .log .. => true
  | _ => false

inductive Outcome where
  | none
  | asked (thread : ℕ) (record : LogRecord)
  | ended (thread : ℕ) (record : LogRecord)

def initial : SharedConsole := ⟨[],none,fun _ => none,fun _ => none⟩

def goOn (st : SharedConsole) (thread : ℕ) (call : LogCall) (phase : LogPhase) : SharedConsole :=
  { st with calls := Function.update st.calls thread (some { call with phase }) }

variable (console : Console)

/-- One step of a thread; no value where it has to wait or has no such step to take. -/
def act (st : SharedConsole) : Action → Option (SharedConsole × Outcome)
  | .log thread logger record =>
    match st.calls thread with
    | some _ => none
    | none =>
      if console.isEnabled logger record.severity then
        some ({ st with calls := Function.update st.calls thread (some ⟨logger,record,.entered⟩) },.asked thread record)
      else some (st,.none)
  | .lockLogger thread =>
    match st.calls thread with
    | some call =>
      if call.phase = .entered ∧ st.loggerMutex call.logger = none then
        some ({ st.goOn thread call .serialized with
          loggerMutex := Function.update st.loggerMutex call.logger (some thread) },.none)
      else none
    | none => none
  | .format thread =>
    match st.calls thread with
    | some call =>
      if call.phase = .serialized then
        match consoleLine console.toUtc console.colorsEnabled call.record with
        | none => some (st.goOn thread call .leaving,.none)
        | some line => some (st.goOn thread call (.formatted line),.none)
      else none
    | none => none
  | .lockSink thread =>
    match st.calls thread with
    | some call =>
      match call.phase,st.sinkMutex with
      | .formatted line,none => some ({ st.goOn thread call (.writing line) with sinkMutex := some thread },.none)
      | _,_ => none
    | none => none
  | .putLine thread =>
    match st.calls thread with
    | some call =>
      match call.phase with
      | .writing line => some ({ st.goOn thread call .ending with output := st.output ++ line },.none)
      | _ => none
    | none => none
  | .putNewline thread =>
    match st.calls thread with
    | some call =>
      if call.phase = .ending then
        some ({ st.goOn thread call .written with output := st.output ++ [lf] },.ended thread call.record)
      else none
    | none => none
  | .unlockSink thread =>
    match st.calls thread with
    | some call =>
      if call.phase = .written then some ({ st.goOn thread call .leaving with sinkMutex := none },.none)
      else none
    | none => none
  | .unlockLogger thread =>
    match st.calls thread with
    | some call =>
      if call.phase = .leaving then
        some ({ st with
          loggerMutex := Function.update st.loggerMutex call.logger none
          calls := Function.update st.calls thread none },.none)
      else none
    | none => none

/-- The states that steps of the threads lead to, with what they came to. -/
inductive Run : List Outcome → SharedConsole → Prop
  | nil : Run [] initial
  | snoc {outcomes : List Outcome} {st st' : SharedConsole} {a : Action} {o : Outcome} (h : Run outcomes st)
      (hact : act console st a = some (st',o)) : Run (outcomes ++ [o]) st'

/-- The steps of a call that has begun, by the phase that they end. -/
inductive Steps (st : SharedConsole) (thread : ℕ) (call : LogCall) : SharedConsole → Outcome → Prop
  | lockLogger (hphase : call.phase = .entered) (hfree : st.loggerMutex call.logger = none) :
      Steps st thread call { st.goOn thread call .serialized with
        loggerMutex := Function.update st.loggerMutex call.logger (some thread) } .none
  | fail (hphase : call.phase = .serialized)
      (hline : consoleLine console.toUtc console.colorsEnabled call.record = none) :
      Steps st thread call (st.goOn thread call .leaving) .none
  | format {line : Bytes} (hphase : call.phase = .serialized)
      (hline : consoleLine console.toUtc console.colorsEnabled call.record = some line) :
      Steps st thread call (st.goOn thread call (.formatted line)) .none
  | lockSink {line : Bytes} (hphase : call.phase = .formatted line) (hfree : st.sinkMutex = none) :
      Steps st thread call { st.goOn thread call (.writing line) with sinkMutex := some thread } .none
  | putLine {line : Bytes} (hphase : call.phase = .writing line) :
      Steps st thread call { st.goOn thread call .ending with output := st.output ++ line } .none
  | putNewline (hphase : call.phase = .ending) :
      Steps st thread call { st.goOn thread call .written with output := st.output ++ [lf] } (.ended thread call.record)
  | unlockSink (hphase : call.phase = .written) :
      Steps st thread call { st.goOn thread call .leaving with sinkMutex := none } .none
  | unlockLogger (hphase : call.phase = .leaving) :
      Steps st thread call { st with
        loggerMutex := Function.update st.loggerMutex call.logger none
        calls := Function.update st.calls thread none } .none

variable {console} {st st' : SharedConsole} {a : Action} {o : Outcome}

theorem act_cases (h : act console st a = some (st',o)) :
    (a.begins = true ∧ st' = st ∧ o = .none) ∨
    (∃ thread logger record, a.begins = true ∧ st.calls thread = none ∧ o = .asked thread record ∧
      st' = { st with calls := Function.update st.calls thread (some ⟨logger,record,.entered⟩) }) ∨
    ∃ thread call, st.calls thread = some call ∧ Steps console st thread call st' o := by
  cases a with
  | log thread logger record =>
    simp only [act] at h
    split at h
    · cases h
    · rename_i hidle
      split at h
      · cases h
        exact .inr (.inl ⟨thread,logger,record,rfl,hidle,rfl,rfl⟩)
      · cases h
        exact .inl ⟨rfl,rfl,rfl⟩
  | lockLogger thread =>
    simp only [act] at h
    split at h
    · rename_i call hcall
      split at h
      · rename_i hready
        cases h
        exact .inr (.inr ⟨thread,call,hcall,.lockLogger hready.1 hready.2⟩)
      · cases h
    · cases h
  | format thread =>
    simp only [act] at h
    split at h
    · rename_i call hcall
      split at h
      · rename_i hphase
        split at h
        · rename_i hline
          cases h
          exact .inr (.inr ⟨thread,call,hcall,.fail hphase hline⟩)
        · rename_i hline
          cases h
          exact .inr (.inr ⟨thread,call,hcall,.format hphase hline⟩)
      · cases h
    · cases h
  | lockSink thread =>
    simp only [act] at h
    split at h
    · rename_i call hcall
      split at h
      · rename_i hphase hfree
        cases h
        exact .inr (.inr ⟨thread,call,hcall,.lockSink hphase hfree⟩)
      · cases h
    · cases h
  | putLine thread =>
    simp only [act] at h
    split at h
    · rename_i call hcall
      split at h
      · rename_i hphase
        cases h
        exact .inr (.inr ⟨thread,call,hcall,.putLine hphase⟩)
      · cases h
    · cases h
  | putNewline thread =>
    simp only [act] at h
    split at h
    · rename_i call hcall
      split at h
      · rename_i hphase
        cases h
        exact .inr (.inr ⟨thread,call,hcall,.putNewline hphase⟩)
      · cases h
    · cases h
  | unlockSink thread =>
    simp only [act] at h
    split at h
    · rename_i call hcall
      split at h
      · rename_i hphase
        cases h
        exact .inr (.inr ⟨thread,call,hcall,.unlockSink hphase⟩)
      · cases h
    · cases h
  | unlockLogger thread =>
    simp only [act] at h
    split at h
    · rename_i call hcall
      split at h
      · rename_i hphase
        cases h
        exact .inr (.inr ⟨thread,call,hcall,.unlockLogger hphase⟩)
      · cases h
    · cases h

@[simp] theorem goOn_self (st : SharedConsole) (thread : ℕ) (call : LogCall) (phase : LogPhase) :
    (st.goOn thread call phase).calls thread = some { call with phase } := Function.update_self _ _ _

theorem steps_of_act (h : act console st a = some (st',o)) (hbegins : a.begins = false) :
    ∃ thread call, st.calls thread = some call ∧ Steps console st thread call st' o := by
  rcases act_cases h with ⟨htrue,-⟩ | ⟨_,_,_,htrue,-⟩ | hstep
  · rw [hbegins] at htrue
    cases htrue
  · rw [hbegins] at htrue
    cases htrue
  · exact hstep

variable {outcomes : List Outcome} {thread : ℕ} {call : LogCall}

/-- The mutex of the sink, or of a logger. -/
def holder (st : SharedConsole) : Option ℕ → Option ℕ
  | none => st.sinkMutex
  | some logger => st.loggerMutex logger

/-- The mutexes that a call holds in its phase. -/
def Holds (call : LogCall) (mutex : Option ℕ) : Prop :=
  (mutex = none ∧ call.phase.holdsSink = true) ∨ (mutex = some call.logger ∧ call.phase.holdsLogger = true)

def ThreadHolds (st : SharedConsole) (t : ℕ) (mutex : Option ℕ) : Prop :=
  ∃ call, st.calls t = some call ∧ Holds call mutex

/-- A step of one call changes what its thread holds. -/
theorem threadHolds_update {next : Option LogCall}
    (hcalls : st'.calls = Function.update st.calls thread next) (t : ℕ) (mutex : Option ℕ) :
    ThreadHolds st' t mutex ↔
      (t = thread ∧ ∃ call, next = some call ∧ Holds call mutex) ∨ (t ≠ thread ∧ ThreadHolds st t mutex) := by
  unfold ThreadHolds
  rw [hcalls]
  by_cases ht : t = thread
  · subst ht
    simp
  · simp [ht]

/-- A mutex is held by the call whose phase says so, and the line of a call is the line of its record. -/
structure Locked (console : Console) (st : SharedConsole) : Prop where
  held : MutexesHeld (holder st) (ThreadHolds st)
  line : ∀ t call line, st.calls t = some call → call.phase = .formatted line ∨ call.phase = .writing line →
    consoleLine console.toUtc console.colorsEnabled call.record = some line
  ending : ∀ t call, st.calls t = some call → call.phase = .ending →
    (consoleLine console.toUtc console.colorsEnabled call.record).isSome = true

theorem locked_initial (console : Console) : Locked console initial := by
  refine ⟨⟨?_⟩,by simp [initial],by simp [initial]⟩
  intro mutex t
  cases mutex <;> simp [holder,initial,ThreadHolds]

theorem threadHolds_self (hcall : st.calls thread = some call) (mutex : Option ℕ) :
    ThreadHolds st thread mutex ↔ Holds call mutex := by
  simp [ThreadHolds,hcall]

/-- The thread of a step goes from what its call held to what it holds next; the others stay. -/
theorem held_same (h : MutexesHeld (holder st) (ThreadHolds st)) {next : LogCall} (hcall : st.calls thread = some call)
    (hcalls : st'.calls = Function.update st.calls thread (some next)) (hholder : holder st' = holder st)
    (hsame : ∀ mutex, Holds next mutex ↔ Holds call mutex) : MutexesHeld (holder st') (ThreadHolds st') := by
  rw [hholder]
  refine h.congr fun t mutex => ?_
  rw [threadHolds_update hcalls]
  by_cases ht : t = thread
  · subst ht
    simp [hsame,threadHolds_self hcall]
  · simp [ht]

theorem held_acquire (h : MutexesHeld (holder st) (ThreadHolds st)) {next : LogCall} (mutex : Option ℕ)
    (hcall : st.calls thread = some call) (hcalls : st'.calls = Function.update st.calls thread (some next))
    (hfree : holder st mutex = none) (hholder : holder st' = Function.update (holder st) mutex (some thread))
    (hnext : ∀ k, Holds next k ↔ Holds call k ∨ k = mutex) : MutexesHeld (holder st') (ThreadHolds st') := by
  rw [hholder]
  refine h.acquire hfree fun t k => ?_
  rw [threadHolds_update hcalls]
  by_cases ht : t = thread
  · subst ht
    simp [hnext,threadHolds_self hcall]
  · simp [ht]

theorem held_release (h : MutexesHeld (holder st) (ThreadHolds st)) {next : Option LogCall} (mutex : Option ℕ)
    (hcall : st.calls thread = some call) (hcalls : st'.calls = Function.update st.calls thread next)
    (hheld : Holds call mutex) (hholder : holder st' = Function.update (holder st) mutex none)
    (hnext : ∀ k, (∃ c, next = some c ∧ Holds c k) ↔ Holds call k ∧ k ≠ mutex) :
    MutexesHeld (holder st') (ThreadHolds st') := by
  rw [hholder]
  refine h.release ((threadHolds_self hcall mutex).mpr hheld) fun t k => ?_
  rw [threadHolds_update hcalls,hnext]
  by_cases ht : t = thread
  · subst ht
    simp [threadHolds_self hcall]
  · simp [ht]

theorem Locked.held_step (h : Locked console st) (hcall : st.calls thread = some call)
    (hstep : Steps console st thread call st' o) : MutexesHeld (holder st') (ThreadHolds st') := by
  cases hstep with
  | lockLogger hphase hfree =>
    refine held_acquire h.held (some call.logger) hcall rfl hfree ?_
      (fun k => by simp [Holds,hphase,LogPhase.holdsLogger,LogPhase.holdsSink])
    funext mutex
    cases mutex <;> simp [holder,goOn,Function.update_apply]
  | fail hphase hline =>
    exact held_same h.held hcall rfl rfl (fun k => by simp [Holds,hphase,LogPhase.holdsLogger,LogPhase.holdsSink])
  | format hphase hline =>
    exact held_same h.held hcall rfl rfl (fun k => by simp [Holds,hphase,LogPhase.holdsLogger,LogPhase.holdsSink])
  | lockSink hphase hfree =>
    refine held_acquire h.held none hcall rfl hfree ?_
      (fun k => by simp [Holds,hphase,LogPhase.holdsLogger,LogPhase.holdsSink,or_comm])
    funext mutex
    cases mutex <;> simp [holder,goOn]
  | putLine hphase =>
    exact held_same h.held hcall rfl rfl (fun k => by simp [Holds,hphase,LogPhase.holdsLogger,LogPhase.holdsSink])
  | putNewline hphase =>
    exact held_same h.held hcall rfl rfl (fun k => by simp [Holds,hphase,LogPhase.holdsLogger,LogPhase.holdsSink])
  | unlockSink hphase =>
    refine held_release h.held none hcall rfl (.inl ⟨rfl,by rw [hphase]; rfl⟩) ?_ ?_
    · funext mutex
      cases mutex <;> simp [holder,goOn]
    · intro k
      cases k <;> simp [Holds,hphase,LogPhase.holdsLogger,LogPhase.holdsSink]
  | unlockLogger hphase =>
    refine held_release h.held (some call.logger) hcall rfl (.inr ⟨rfl,by rw [hphase]; rfl⟩) ?_ ?_
    · funext mutex
      cases mutex <;> simp [holder,Function.update_apply]
    · intro k
      simp only [reduceCtorEq,false_and,exists_false,false_iff]
      rintro ⟨⟨-,hsink⟩ | ⟨hk,-⟩,hne⟩
      · rw [hphase] at hsink
        cases hsink
      · exact hne hk

/-- The calls after a step are those before it, but for the call that took it. -/
theorem Steps.other (hstep : Steps console st thread call st' o) {t : ℕ} (ht : t ≠ thread) :
    st'.calls t = st.calls t := by
  cases hstep <;> exact Function.update_of_ne ht _ _

theorem Steps.self (hstep : Steps console st thread call st' o) (hphase : call.phase ≠ .leaving) :
    ∃ phase, st'.calls thread = some { call with phase } ∧
      (∀ line, phase = .formatted line → consoleLine console.toUtc console.colorsEnabled call.record = some line) ∧
      (∀ line, phase = .writing line → call.phase = .formatted line) ∧
      (phase = .ending → ∃ line, call.phase = .writing line) := by
  cases hstep with
  | format _ hline =>
    refine ⟨_,Function.update_self _ _ _,?_,by simp,by simp⟩
    rintro line hsame
    rw [hline,LogPhase.formatted.inj hsame]
  | lockSink hformatted =>
    refine ⟨_,Function.update_self _ _ _,by simp,?_,by simp⟩
    rintro line hsame
    rw [hformatted,LogPhase.writing.inj hsame]
  | putLine hwriting => exact ⟨_,Function.update_self _ _ _,by simp,by simp,fun _ => ⟨_,hwriting⟩⟩
  | unlockLogger hleaving => exact absurd hleaving hphase
  | _ => exact ⟨_,Function.update_self _ _ _,by simp,by simp,by simp⟩

theorem Locked.step (h : Locked console st) (hcall : st.calls thread = some call)
    (hstep : Steps console st thread call st' o) : Locked console st' := by
  have hself : ∀ c, st'.calls thread = some c → c.record = call.record ∧
      (∀ line, c.phase = .formatted line ∨ c.phase = .writing line →
        consoleLine console.toUtc console.colorsEnabled call.record = some line) ∧
      (c.phase = .ending → (consoleLine console.toUtc console.colorsEnabled call.record).isSome = true) := by
    intro c hc
    by_cases hphase : call.phase = .leaving
    · cases hstep with
      | unlockLogger => exact absurd (hc.symm.trans (Function.update_self _ _ _)) (by simp)
      | _ => simp_all
    · obtain ⟨phase,hnext,hformatted,hwriting,hending⟩ := hstep.self hphase
      rw [hnext] at hc
      obtain rfl := Option.some.inj hc
      refine ⟨rfl,?_,?_⟩
      · rintro line (hline | hline)
        · exact hformatted line hline
        · exact h.line thread call line hcall (.inl (hwriting line hline))
      · intro hend
        obtain ⟨line,hline⟩ := hending hend
        rw [h.line thread call line hcall (.inr hline)]
        rfl
  refine ⟨h.held_step hcall hstep,?_,?_⟩
  · intro t c line hc hphase
    by_cases ht : t = thread
    · subst ht
      obtain ⟨hrecord,hline,-⟩ := hself c hc
      rw [hrecord]
      exact hline line hphase
    · rw [hstep.other ht] at hc
      exact h.line t c line hc hphase
  · intro t c hc hphase
    by_cases ht : t = thread
    · subst ht
      obtain ⟨hrecord,-,hend⟩ := hself c hc
      rw [hrecord]
      exact hend hphase
    · rw [hstep.other ht] at hc
      exact h.ending t c hc hphase

theorem Locked.begins (h : Locked console st) (hidle : st.calls thread = none) (logger : ℕ) (record : LogRecord) :
    Locked console { st with calls := Function.update st.calls thread (some ⟨logger,record,.entered⟩) } := by
  have hcases : ∀ t c, Function.update st.calls thread (some ⟨logger,record,.entered⟩) t = some c →
      c.phase = .entered ∨ st.calls t = some c := by
    intro t c hc
    by_cases ht : t = thread
    · subst ht
      rw [Function.update_self] at hc
      cases hc
      exact .inl rfl
    · rw [Function.update_of_ne ht] at hc
      exact .inr hc
  refine ⟨h.held.congr fun t mutex => ?_,?_,?_⟩
  · rw [threadHolds_update rfl]
    by_cases ht : t = thread
    · subst ht
      simp [ThreadHolds,hidle,Holds,LogPhase.holdsLogger,LogPhase.holdsSink]
    · simp [ht]
  · intro t c line hc hphase
    rcases hcases t c hc with hentered | hold
    · simp [hentered] at hphase
    · exact h.line t c line hold hphase
  · intro t c hc hphase
    rcases hcases t c hc with hentered | hold
    · simp [hentered] at hphase
    · exact h.ending t c hold hphase

theorem run_locked (h : Run console outcomes st) : Locked console st := by
  induction h with
  | nil => exact locked_initial console
  | snoc _ hact ih =>
    rcases act_cases hact with ⟨-,rfl,-⟩ | ⟨thread,logger,record,-,hidle,-,rfl⟩ | ⟨thread,call,hcall,hstep⟩
    · exact ih
    · exact ih.begins hidle logger record
    · exact ih.step hcall hstep

/-- The records that a thread has asked its loggers to write, in order. -/
def asked (outcomes : List Outcome) (thread : ℕ) : List LogRecord :=
  outcomes.filterMap fun
    | .asked t record => if t = thread then some record else none
    | _ => none

/-- The records of a thread whose lines stand in the stream. -/
def endedBy (outcomes : List Outcome) (thread : ℕ) : List LogRecord :=
  outcomes.filterMap fun
    | .ended t record => if t = thread then some record else none
    | _ => none

/-- All records whose lines stand in the stream, in its order. -/
def ended (outcomes : List Outcome) : List LogRecord :=
  outcomes.filterMap fun
    | .ended _ record => some record
    | _ => none

/-- The record that a thread is about to write. -/
def pendingOf (st : SharedConsole) (thread : ℕ) : List LogRecord :=
  match st.calls thread with
  | some call => if call.phase.pending then [call.record] else []
  | none => []

variable (console) in
def formats (record : LogRecord) : Bool := (consoleLine console.toUtc console.colorsEnabled record).isSome

variable (console) in
def lineOf (record : LogRecord) : Bytes := (consoleLine console.toUtc console.colorsEnabled record).getD []

/-- What stands in the stream behind the last newline. -/
def unended (console : Console) (st : SharedConsole) : Bytes :=
  match st.sinkMutex with
  | none => []
  | some thread =>
    match st.calls thread with
    | some call => if call.phase = .ending then lineOf console call.record else []
    | none => []

theorem asked_append (outcomes more : List Outcome) (t : ℕ) :
    asked (outcomes ++ more) t = asked outcomes t ++ asked more t := List.filterMap_append

theorem endedBy_append (outcomes more : List Outcome) (t : ℕ) :
    endedBy (outcomes ++ more) t = endedBy outcomes t ++ endedBy more t := List.filterMap_append

theorem ended_append (outcomes more : List Outcome) : ended (outcomes ++ more) = ended outcomes ++ ended more :=
  List.filterMap_append

/-- Every record of a thread that formats is in the stream or about to be, in the thread's order. -/
def Accounted (console : Console) (outcomes : List Outcome) (st : SharedConsole) : Prop :=
  ∀ thread, (asked outcomes thread).filter (formats console) =
    endedBy outcomes thread ++ (pendingOf st thread).filter (formats console)

/-- The stream consists of the lines of the records that have ended, and of one that has not. -/
def Streamed (console : Console) (outcomes : List Outcome) (st : SharedConsole) : Prop :=
  st.output = (ended outcomes).flatMap (fun record => lineOf console record ++ [lf]) ++ unended console st

theorem pendingOf_other (hstep : Steps console st thread call st' o) {t : ℕ} (ht : t ≠ thread) :
    pendingOf st' t = pendingOf st t := by
  unfold pendingOf
  rw [hstep.other ht]

theorem outcome_other (hstep : Steps console st thread call st' o) {t : ℕ} (ht : t ≠ thread) :
    asked [o] t = [] ∧ endedBy [o] t = [] := by
  cases hstep <;> simp [asked,endedBy,Ne.symm ht]

/-- A step of a call moves its record from what is pending to what has ended, or leaves both as they are. -/
theorem pendingOf_step (h : Locked console st) (hcall : st.calls thread = some call)
    (hstep : Steps console st thread call st' o) : asked [o] thread = [] ∧
      (pendingOf st thread).filter (formats console) =
        endedBy [o] thread ++ (pendingOf st' thread).filter (formats console) := by
  cases hstep with
  | fail hphase hline =>
    refine ⟨rfl,?_⟩
    simp [pendingOf,goOn,hcall,hphase,LogPhase.pending,endedBy,formats,hline]
  | putNewline hphase =>
    refine ⟨rfl,?_⟩
    have hformats : formats console call.record = true := h.ending thread call hcall hphase
    simp [pendingOf,goOn,hcall,hphase,LogPhase.pending,endedBy,hformats]
  | unlockLogger hphase =>
    refine ⟨rfl,?_⟩
    simp [pendingOf,hcall,hphase,LogPhase.pending,endedBy]
  | _ => simp_all [pendingOf,goOn,LogPhase.pending,endedBy,asked]

theorem Accounted.step (h : Accounted console outcomes st) (hlocked : Locked console st)
    (hcall : st.calls thread = some call) (hstep : Steps console st thread call st' o) :
    Accounted console (outcomes ++ [o]) st' := by
  intro t
  rw [asked_append,endedBy_append,List.filter_append,h t]
  by_cases ht : t = thread
  · subst ht
    obtain ⟨hnothing,hmoved⟩ := pendingOf_step hlocked hcall hstep
    rw [hnothing,hmoved,List.filter_nil,List.append_nil,List.append_assoc]
  · obtain ⟨hnothing,hnone⟩ := outcome_other hstep ht
    rw [hnothing,hnone,pendingOf_other hstep ht,List.filter_nil,List.append_nil,List.append_nil]

theorem Accounted.begins (h : Accounted console outcomes st) (hidle : st.calls thread = none) (logger : ℕ)
    (record : LogRecord) : Accounted console (outcomes ++ [.asked thread record])
      { st with calls := Function.update st.calls thread (some ⟨logger,record,.entered⟩) } := by
  intro t
  have hended : endedBy (outcomes ++ [.asked thread record]) t = endedBy outcomes t := by
    simp [endedBy]
  rw [asked_append,hended,List.filter_append,h t,List.append_assoc]
  congr 1
  by_cases ht : t = thread
  · subst ht
    simp [pendingOf,hidle,asked,LogPhase.pending]
  · simp [pendingOf,asked,ht,Ne.symm ht]

theorem Accounted.idle (h : Accounted console outcomes st) : Accounted console (outcomes ++ [.none]) st := by
  intro t
  simpa [asked,endedBy] using h t

theorem Locked.sink_eq (h : Locked console st) (hcall : st.calls thread = some call)
    (hholds : call.phase.holdsSink = true) : st.sinkMutex = some thread :=
  (h.held.iff none thread).mpr ⟨call,hcall,.inl ⟨rfl,hholds⟩⟩

theorem unended_eq (hsink : st.sinkMutex = some thread) (hcall : st.calls thread = some call) :
    unended console st = if call.phase = .ending then lineOf console call.record else [] := by
  unfold unended
  rw [hsink]
  dsimp only
  rw [hcall]

/-- Without the mutex of the sink a call does not touch the stream. -/
theorem unended_same (h : Locked console st) (hcall : st.calls thread = some call)
    (hstep : Steps console st thread call st' o) (hholds : call.phase.holdsSink = false)
    (hsame : st'.sinkMutex = st.sinkMutex) : unended console st' = unended console st := by
  unfold unended
  rw [hsame]
  cases hsink : st.sinkMutex with
  | none => rfl
  | some t =>
    have hother : t ≠ thread := by
      rintro rfl
      obtain ⟨c,hc,hmutex⟩ := (h.held.iff none t).mp hsink
      rw [hcall] at hc
      obtain rfl := Option.some.inj hc
      simp [Holds,hholds] at hmutex
    dsimp only
    rw [hstep.other hother]

theorem Streamed.step (h : Streamed console outcomes st) (hlocked : Locked console st)
    (hcall : st.calls thread = some call) (hstep : Steps console st thread call st' o) :
    Streamed console (outcomes ++ [o]) st' := by
  unfold Streamed at h ⊢
  rw [ended_append,List.flatMap_append]
  cases hstep with
  | lockLogger hphase hfree =>
    rw [unended_same hlocked hcall (.lockLogger hphase hfree) (by rw [hphase]; rfl) rfl]
    simpa [ended,goOn] using h
  | fail hphase hline =>
    rw [unended_same hlocked hcall (.fail hphase hline) (by rw [hphase]; rfl) rfl]
    simpa [ended,goOn] using h
  | format hphase hline =>
    rw [unended_same hlocked hcall (.format hphase hline) (by rw [hphase]; rfl) rfl]
    simpa [ended,goOn] using h
  | lockSink hphase hfree =>
    have hbefore : unended console st = [] := by rw [unended,hfree]
    rw [unended_eq rfl (Function.update_self _ _ _)]
    simpa [ended,goOn,hbefore] using h
  | @putLine line hphase =>
    have hsink := hlocked.sink_eq hcall (by rw [hphase]; rfl)
    have hline := hlocked.line thread call line hcall (.inr hphase)
    have hnext : unended console { st.goOn thread call .ending with output := st.output ++ line } =
        lineOf console call.record :=
      (@unended_eq console { st.goOn thread call .ending with output := st.output ++ line } thread _ hsink
        (goOn_self st thread call .ending)).trans (if_pos rfl)
    rw [unended_eq hsink hcall,hphase] at h
    rw [hnext]
    simpa [ended,goOn,lineOf,hline] using h
  | putNewline hphase =>
    have hsink := hlocked.sink_eq hcall (by rw [hphase]; rfl)
    have hnext : unended console { st.goOn thread call .written with output := st.output ++ [lf] } = [] :=
      (@unended_eq console { st.goOn thread call .written with output := st.output ++ [lf] } thread _ hsink
        (goOn_self st thread call .written)).trans (if_neg (by simp))
    rw [unended_eq hsink hcall,hphase] at h
    rw [hnext]
    simpa [ended,goOn] using congrArg (· ++ [lf]) h
  | unlockSink hphase =>
    have hsink := hlocked.sink_eq hcall (by rw [hphase]; rfl)
    rw [unended_eq hsink hcall,hphase] at h
    simpa [ended,goOn,unended] using h
  | unlockLogger hphase =>
    rw [unended_same hlocked hcall (.unlockLogger hphase) (by rw [hphase]; rfl) rfl]
    simpa [ended] using h

theorem Streamed.quiet (h : Streamed console outcomes st) (hnone : ended [o] = [])
    (hunended : unended console st' = unended console st) (houtput : st'.output = st.output) :
    Streamed console (outcomes ++ [o]) st' := by
  unfold Streamed at h ⊢
  rw [ended_append,hnone,List.append_nil,hunended,houtput]
  exact h

/-- A thread that has no call yet does not hold the sink. -/
theorem unended_begins (h : Locked console st) (hidle : st.calls thread = none) (call : LogCall) :
    unended console { st with calls := Function.update st.calls thread (some call) } = unended console st := by
  unfold unended
  dsimp only
  cases hsink : st.sinkMutex with
  | none => rfl
  | some t =>
    have hother : t ≠ thread := by
      rintro rfl
      obtain ⟨c,hc,-⟩ := (h.held.iff none t).mp hsink
      rw [hidle] at hc
      cases hc
    dsimp only
    rw [Function.update_of_ne hother]

theorem run_accounts (h : Run console outcomes st) : Accounted console outcomes st ∧ Streamed console outcomes st := by
  induction h with
  | nil => exact ⟨fun _ => rfl,rfl⟩
  | snoc hrun hact ih =>
    have hlocked := run_locked hrun
    rcases act_cases hact with ⟨-,rfl,rfl⟩ | ⟨thread,logger,record,-,hidle,rfl,rfl⟩ | ⟨thread,call,hcall,hstep⟩
    · exact ⟨ih.1.idle,ih.2.quiet rfl rfl rfl⟩
    · exact ⟨ih.1.begins hidle logger record,ih.2.quiet rfl (unended_begins hlocked hidle _) rfl⟩
    · exact ⟨ih.1.step hlocked hcall hstep,ih.2.step hlocked hcall hstep⟩

/-- The complete lines of a text, and what has been read of the next one. -/
def lines (current : Bytes) : Bytes → List Bytes
  | [] => []
  | b :: s => if b = lf then current :: lines [] s else lines (current ++ [b]) s

def readStream (output : Bytes) : List (Option LogEntry) := (lines [] output).map readLine

theorem lines_line {line : Bytes} (h : lf ∉ line) (current rest : Bytes) :
    lines current (line ++ lf :: rest) = (current ++ line) :: lines [] rest := by
  induction line generalizing current with
  | nil => simp [lines]
  | cons b line ih =>
    obtain ⟨hb,hline⟩ := not_or.mp (mt List.mem_cons.mpr h)
    rw [List.cons_append,lines,if_neg (Ne.symm hb),ih hline]
    simp

theorem lines_unended {rest : Bytes} (h : lf ∉ rest) (current : Bytes) : lines current rest = [] := by
  induction rest generalizing current with
  | nil => rfl
  | cons b rest ih =>
    obtain ⟨hb,hrest⟩ := not_or.mp (mt List.mem_cons.mpr h)
    rw [lines,if_neg (Ne.symm hb),ih hrest]

theorem lines_stream {records : List LogRecord} {line : LogRecord → Bytes} {rest : Bytes}
    (hlines : ∀ record ∈ records, lf ∉ line record) (hrest : lf ∉ rest) :
    lines [] (records.flatMap (fun record => line record ++ [lf]) ++ rest) = records.map line := by
  induction records with
  | nil => exact lines_unended hrest []
  | cons record records ih =>
    obtain ⟨hfirst,hmore⟩ := List.forall_mem_cons.mp hlines
    have hsplit : (record :: records).flatMap (fun record => line record ++ [lf]) ++ rest =
        line record ++ lf :: (records.flatMap (fun record => line record ++ [lf]) ++ rest) := by simp
    rw [hsplit,lines_line hfirst,ih hmore,List.nil_append,List.map_cons]

theorem lineOf_no_lf (console : Console) (record : LogRecord) : lf ∉ lineOf console record := by
  unfold lineOf
  cases hline : consoleLine console.toUtc console.colorsEnabled record with
  | none => simp
  | some line => exact consoleLine_no_lf hline

theorem unended_cases (console : Console) (st : SharedConsole) :
    unended console st = [] ∨ ∃ record, unended console st = lineOf console record := by
  unfold unended
  split
  · exact .inl rfl
  · split
    · split
      · exact .inr ⟨_,rfl⟩
      · exact .inl rfl
    · exact .inl rfl

theorem mem_ended {record : LogRecord} (h : record ∈ ended outcomes) : ∃ t, record ∈ endedBy outcomes t := by
  obtain ⟨o,ho,hrecord⟩ := List.mem_filterMap.mp h
  cases o with
  | ended t r =>
    refine ⟨t,List.mem_filterMap.mpr ⟨_,ho,?_⟩⟩
    simpa using hrecord
  | _ => cases hrecord

theorem Accounted.ended_asked (h : Accounted console outcomes st) {record : LogRecord} (hrecord : record ∈ ended outcomes) :
    formats console record = true ∧ ∃ t, record ∈ asked outcomes t := by
  obtain ⟨t,ht⟩ := mem_ended hrecord
  have hmem : record ∈ (asked outcomes t).filter (formats console) := by
    rw [h t]
    exact List.mem_append_left _ ht
  obtain ⟨hasked,hformats⟩ := List.mem_filter.mp hmem
  exact ⟨hformats,t,hasked⟩

theorem readLine_lineOf {record : LogRecord} (hformats : formats console record = true)
    (hsubsystem : closing ∉ record.subsystem) : readLine (lineOf console record) = record.entry console.toUtc := by
  obtain ⟨line,hline⟩ := Option.isSome_iff_exists.mp hformats
  rw [lineOf,hline,Option.getD_some]
  exact readLine_consoleLine hline hsubsystem

theorem lineOf_bytes (console : Console) (record : LogRecord) : ∀ b ∈ lineOf console record,
    0x20 ≤ b ∧ b ≠ 0x7F ∨ b = escape ∧ console.colorsEnabled = true := by
  unfold lineOf
  cases hline : consoleLine console.toUtc console.colorsEnabled record with
  | none => simp
  | some line => exact consoleLine_bytes hline

theorem lineOf_colors (console : Console) (record : LogRecord) : OnlyColors (lineOf console record) := by
  unfold lineOf
  cases hline : consoleLine console.toUtc console.colorsEnabled record with
  | none => exact .of_plain List.not_mem_nil
  | some line => exact consoleLine_colors hline

theorem lines_colors (console : Console) (records : List LogRecord) :
    OnlyColors (records.flatMap fun record => lineOf console record ++ [lf]) := by
  induction records with
  | nil => exact .of_plain List.not_mem_nil
  | cons record records ih =>
    rw [List.flatMap_cons]
    exact ((lineOf_colors console record).append (.of_plain (by decide))).append ih

/-- The mutex that a thread is about to take. -/
def wants (st : SharedConsole) (thread : ℕ) : Option (Option ℕ) :=
  match st.calls thread with
  | some ⟨logger,_,.entered⟩ => some (some logger)
  | some ⟨_,_,.formatted _⟩ => some none
  | _ => none

/-- The mutex of the sink comes behind those of the loggers. -/
def mutexRank : Option ℕ → ℕ
  | none => 1
  | some _ => 0

theorem act_of_free (console : Console) (hcall : st.calls thread = some call)
    (hfree : ∀ mutex, wants st thread = some mutex → holder st mutex = none) :
    ∃ a st' o, act console st a = some (st',o) ∧ a.begins = false := by
  obtain ⟨logger,record,phase⟩ := call
  cases phase with
  | entered =>
    have hmutex : st.loggerMutex logger = none := hfree (some logger) (by rw [wants,hcall])
    exact ⟨.lockLogger thread,_,_,by simp only [act,hcall,hmutex]; rfl,rfl⟩
  | serialized =>
    cases hline : consoleLine console.toUtc console.colorsEnabled record with
    | none => exact ⟨.format thread,_,_,by simp only [act,hcall,hline]; rfl,rfl⟩
    | some line => exact ⟨.format thread,_,_,by simp only [act,hcall,hline]; rfl,rfl⟩
  | formatted line =>
    have hmutex : st.sinkMutex = none := hfree none (by rw [wants,hcall])
    exact ⟨.lockSink thread,_,_,by simp only [act,hcall,hmutex]; rfl,rfl⟩
  | writing line => exact ⟨.putLine thread,_,_,by simp only [act,hcall]; rfl,rfl⟩
  | ending => exact ⟨.putNewline thread,_,_,by simp only [act,hcall]; rfl,rfl⟩
  | written => exact ⟨.unlockSink thread,_,_,by simp only [act,hcall]; rfl,rfl⟩
  | leaving => exact ⟨.unlockLogger thread,_,_,by simp only [act,hcall]; rfl,rfl⟩

/-- As long as a call goes on, a step of a call is possible. -/
theorem Locked.progress (h : Locked console st) (hactive : st.calls thread ≠ none) :
    ∃ a st' o, act console st a = some (st',o) ∧ a.begins = false := by
  have hholds : ∀ t mutex, ThreadHolds st t mutex → st.calls t ≠ none := by
    rintro t mutex ⟨c,hc,-⟩ hnone
    rw [hc] at hnone
    cases hnone
  have hordered : ∀ t mutex held, wants st t = some mutex → ThreadHolds st t held →
      mutexRank held < mutexRank mutex := by
    rintro t mutex held hwants ⟨⟨logger,record,phase⟩,hc,hheld⟩
    rw [wants,hc] at hwants
    cases phase with
    | entered => simp [Holds,LogPhase.holdsSink,LogPhase.holdsLogger] at hheld
    | formatted line =>
      obtain rfl := Option.some.inj hwants
      rcases hheld with ⟨-,hsink⟩ | ⟨rfl,-⟩
      · cases hsink
      · exact Nat.zero_lt_one
    | _ => cases hwants
  have hbound : ∀ mutex, mutexRank mutex ≤ 1 := by
    intro mutex
    cases mutex <;> simp [mutexRank]
  obtain ⟨t,ht,hfree⟩ := h.held.exists_unblocked hbound hholds hordered hactive
  obtain ⟨c,hc⟩ := Option.ne_none_iff_exists'.mp ht
  exact act_of_free console hc hfree

/-- Steps of the calls that go on, while no thread begins another. -/
inductive Continues (console : Console) : SharedConsole → List Outcome → SharedConsole → Prop
  | nil {st : SharedConsole} : Continues console st [] st
  | cons {st st' final : SharedConsole} {a : Action} {o : Outcome} {more : List Outcome}
      (hact : act console st a = some (st',o)) (hbegins : a.begins = false) (h : Continues console st' more final) :
      Continues console st (o :: more) final

theorem Run.continues {final : SharedConsole} {more : List Outcome} (h : Run console outcomes st)
    (hmore : Continues console st more final) : Run console (outcomes ++ more) final := by
  induction hmore generalizing outcomes with
  | nil => rwa [List.append_nil]
  | cons hact _ _ ih =>
    have hnext := ih (h.snoc hact)
    rwa [List.append_assoc] at hnext

def stepsLeft (st : SharedConsole) (thread : ℕ) : ℕ := (st.calls thread).elim 0 fun call => call.phase.remaining

theorem stepsLeft_step (hcall : st.calls thread = some call) (hstep : Steps console st thread call st' o) :
    stepsLeft st' thread < stepsLeft st thread := by
  cases hstep <;> simp_all [stepsLeft,goOn,LogPhase.remaining]

theorem bounded_step {bound : ℕ} (hbound : ∀ t, bound ≤ t → st.calls t = none) (hcall : st.calls thread = some call)
    (hstep : Steps console st thread call st' o) : thread < bound ∧ ∀ t, bound ≤ t → st'.calls t = none := by
  have hthread : thread < bound := by
    by_contra hle
    rw [hbound thread (by omega)] at hcall
    cases hcall
  refine ⟨hthread,fun t ht => ?_⟩
  rw [hstep.other (by omega)]
  exact hbound t ht

theorem run_bounded (h : Run console outcomes st) : ∃ bound, ∀ t, bound ≤ t → st.calls t = none := by
  induction h with
  | nil => exact ⟨0,fun _ _ => rfl⟩
  | snoc _ hact ih =>
    obtain ⟨bound,hbound⟩ := ih
    rcases act_cases hact with ⟨-,rfl,-⟩ | ⟨thread,logger,record,-,hidle,-,rfl⟩ | ⟨thread,call,hcall,hstep⟩
    · exact ⟨bound,hbound⟩
    · refine ⟨max bound (thread + 1),fun t ht => ?_⟩
      have hother : t ≠ thread := by omega
      exact (Function.update_of_ne hother _ _).trans (hbound t (by omega))
    · exact ⟨bound,(bounded_step hbound hcall hstep).2⟩

/-- A step of a call brings all calls together nearer to their end. -/
theorem total_step {bound : ℕ} (hbound : ∀ t, bound ≤ t → st.calls t = none) (hcall : st.calls thread = some call)
    (hstep : Steps console st thread call st' o) :
    ∑ t ∈ Finset.range bound, stepsLeft st' t < ∑ t ∈ Finset.range bound, stepsLeft st t := by
  refine Finset.sum_lt_sum (fun t _ => ?_)
    ⟨thread,Finset.mem_range.mpr (bounded_step hbound hcall hstep).1,stepsLeft_step hcall hstep⟩
  by_cases ht : t = thread
  · rw [ht]
    exact (stepsLeft_step hcall hstep).le
  · rw [stepsLeft,stepsLeft,hstep.other ht]

/-- Calls that have begun can all come to their end. -/
theorem run_finishes (h : Run console outcomes st) :
    ∃ more final, Continues console st more final ∧ ∀ t, final.calls t = none := by
  obtain ⟨bound,hbound⟩ := run_bounded h
  induction hn : ∑ t ∈ Finset.range bound, stepsLeft st t using Nat.strong_induction_on generalizing st outcomes with
  | _ n ih =>
    by_cases hidle : ∀ t, st.calls t = none
    · exact ⟨[],st,.nil,hidle⟩
    · push Not at hidle
      obtain ⟨t,ht⟩ := hidle
      obtain ⟨a,st',o,hact,hbegins⟩ := (run_locked h).progress ht
      obtain ⟨thread,call,hcall,hstep⟩ := steps_of_act hact hbegins
      obtain ⟨more,final,hmore,hfinal⟩ := ih _ (hn ▸ total_step hbound hcall hstep) (h.snoc hact)
        (bounded_step hbound hcall hstep).2 rfl
      exact ⟨o :: more,final,.cons hact hbegins hmore,hfinal⟩

/-- No thread asks for anything while calls only go on. -/
theorem Continues.asks_nothing {final : SharedConsole} {more : List Outcome} (h : Continues console st more final)
    (t : ℕ) : asked more t = [] := by
  induction h with
  | nil => rfl
  | @cons st st' final a o more hact hbegins _ ih =>
    have hsplit : asked (o :: more) t = asked [o] t ++ asked more t := asked_append [o] more t
    obtain ⟨thread,call,-,hstep⟩ := steps_of_act hact hbegins
    rw [hsplit,ih,List.append_nil]
    cases hstep <;> rfl

/-- The stream of every state reads back as the records that have ended, in their order; it holds nothing but visible
bytes, newlines and whole colours. What a thread has asked for and can be formatted is in the stream or about
to be, in the order of the thread. The calls can always come to their end, and then all of it is in the stream. -/
theorem log_stream_readable (h : Run console outcomes st) :
    ((∀ t, ∀ record ∈ asked outcomes t, closing ∉ record.subsystem) →
      readStream st.output = (ended outcomes).map (LogRecord.entry console.toUtc)) ∧
    (∀ b ∈ st.output, (0x20 ≤ b ∧ b ≠ 0x7F ∨ b = escape ∧ console.colorsEnabled = true) ∨ b = lf) ∧
    OnlyColors st.output ∧
    (∀ t, (asked outcomes t).filter (formats console) =
      endedBy outcomes t ++ (pendingOf st t).filter (formats console)) ∧
    ∃ more final, Continues console st more final ∧ (∀ t, final.calls t = none) ∧
      ∀ t, (asked outcomes t).filter (formats console) = endedBy (outcomes ++ more) t := by
  obtain ⟨haccounted,hstreamed⟩ := run_accounts h
  refine ⟨fun hsubsystem => ?_,?_,?_,haccounted,?_⟩
  · have hrest : lf ∉ unended console st := by
      rcases unended_cases console st with hnone | ⟨record,hline⟩
      · simp [hnone]
      · rw [hline]
        exact lineOf_no_lf console record
    rw [readStream,hstreamed,lines_stream (fun record _ => lineOf_no_lf console record) hrest,List.map_map]
    refine List.map_congr_left fun record hrecord => ?_
    obtain ⟨hformats,t,hasked⟩ := haccounted.ended_asked hrecord
    exact readLine_lineOf hformats (hsubsystem t record hasked)
  · intro b hb
    rw [hstreamed] at hb
    rcases List.mem_append.mp hb with hb | hb
    · obtain ⟨record,-,hline⟩ := List.mem_flatMap.mp hb
      rcases List.mem_append.mp hline with hline | hline
      · exact .inl (lineOf_bytes console record b hline)
      · exact .inr (List.mem_singleton.mp hline)
    · rcases unended_cases console st with hnone | ⟨record,hline⟩
      · simp [hnone] at hb
      · rw [hline] at hb
        exact .inl (lineOf_bytes console record b hb)
  · rw [hstreamed]
    refine (lines_colors console (ended outcomes)).append ?_
    rcases unended_cases console st with hnone | ⟨record,hline⟩
    · rw [hnone]
      exact .of_plain List.not_mem_nil
    · rw [hline]
      exact lineOf_colors console record
  · obtain ⟨more,final,hmore,hfinal⟩ := run_finishes h
    refine ⟨more,final,hmore,hfinal,fun t => ?_⟩
    have hall := (run_accounts (h.continues hmore)).1 t
    rw [asked_append,hmore.asks_nothing t,List.append_nil] at hall
    rw [hall,pendingOf,hfinal t,List.filter_nil,List.append_nil]

def epoch : Utc := ⟨1970,1,1,0,0,0⟩

def coloured : Console := ⟨fun _ => some epoch,true,fun _ => some .info⟩

def forged : LogRecord := ⟨0,.warning,ascii "http",ascii "lost\n[now] [ERROR] [http] found"⟩

/-- A message that looks like the end of its line and a line of its own is read back as a message. -/
theorem log_stream_readable_forged : ∃ outcomes st, Run coloured outcomes st ∧
    readStream st.output = [some ⟨ascii "1970-01-01T00:00:00.000Z",.warning,ascii "http",forged.message⟩] := by
  obtain ⟨line,hline⟩ : ∃ line, consoleLine coloured.toUtc coloured.colorsEnabled forged = some line :=
    ⟨_,rfl⟩
  have hentered := (@Run.nil coloured).snoc (a := .log 3 0 forged) rfl
  have hserialized := hentered.snoc (a := .lockLogger 3) rfl
  have hformatted := hserialized.snoc (a := .format 3) (by simp only [act,goOn,Function.update_self,hline]; rfl)
  have hwriting := hformatted.snoc (a := .lockSink 3) rfl
  have hending := hwriting.snoc (a := .putLine 3) rfl
  have hwritten := hending.snoc (a := .putNewline 3) rfl
  refine ⟨_,_,hwritten,((log_stream_readable hwritten).1 ?_).trans ?_⟩
  · intro t record hrecord
    obtain ⟨o,ho,hasked⟩ := List.mem_filterMap.mp hrecord
    have hforged : record = forged := by
      simp only [List.nil_append,List.cons_append,List.mem_cons,List.not_mem_nil,or_false] at ho
      rcases ho with rfl | rfl | rfl | rfl | rfl | rfl <;> simp_all
    rw [hforged]
    decide
  · have hentry : LogRecord.entry coloured.toUtc forged =
        some ⟨ascii "1970-01-01T00:00:00.000Z",.warning,ascii "http",forged.message⟩ := by decide +kernel
    exact congrArg (fun entry => [entry]) hentry

end SharedConsole
end SpareNode.Logging
