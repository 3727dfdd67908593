import SpareNode.Filesystem.UploadFinalizer

/-! # The copy loop of a publication

`copy_source` reads the source through one descriptor and writes what it has received to the
stage, in two nested loops. The system answers every round of either loop: it may transfer less
than asked for, interrupt the call or refuse it. A loop that has not ended when the answers do has
no result.
-/
namespace SpareNode.Filesystem
open FileTree Concurrency

def uploadCopyBufferBytes : ℕ := 64 * 1024

/-- What a call of `read` or `write` does, of the bytes that it may transfer. -/
inductive TransferAnswer where
  | interrupted
  | failed (error : Errno)
  | transferred (count : ℕ)
deriving DecidableEq, Repr

/-- The answers to one round of a loop: the check at its head and the call behind it. -/
structure CopyRound where
  moment : Moment
  answer : TransferAnswer
deriving DecidableEq, Repr

/-- Where the two loops are: before a `read`, or before a `write` of what lies behind an offset of
the buffer. -/
inductive CopyPhase where
  | reading (copied : ℕ)
  | writing (copied : ℕ) (received : Bytes) (offset : ℕ)
deriving DecidableEq, Repr

/-- The inner loop is left when all that was received is written. -/
def CopyPhase.settle : CopyPhase → CopyPhase
  | .reading copied => .reading copied
  | .writing copied received offset =>
    if offset < received.length then .writing copied received offset else .reading (copied + received.length)

/-- The loops with the position of the source descriptor and the contents of the stage. -/
structure CopyState where
  phase : CopyPhase := .reading 0
  position : ℕ := 0
  stage : Bytes := []
deriving DecidableEq, Repr

section
variable (content : Bytes) (expected : ℕ) (deadline : Option ℤ)

/-- A round of the outer loop up to the inner one. -/
def readRound (round : CopyRound) (copied : ℕ) (state : CopyState) :
    Except UploadFinalizationError CopyState :=
  match uploadInterruption round.moment deadline with
  | some stopped => .error stopped
  | none =>
    match round.answer with
    | .interrupted => .ok { state with phase := .reading copied }
    | .failed error => .error ⟨.sourceReadFailed,none,some error⟩
    | .transferred count =>
      let requested := min (expected - copied) uploadCopyBufferBytes
      let received := (content.drop state.position).take (min count requested)
      if received = [] then .error ⟨.sourceReadFailed,none,none⟩
      else .ok ⟨.writing copied received 0,state.position + received.length,state.stage⟩

def writeRound (round : CopyRound) (copied : ℕ) (received : Bytes) (offset : ℕ) (state : CopyState) :
    Except UploadFinalizationError CopyState :=
  match uploadInterruption round.moment deadline with
  | some stopped => .error stopped
  | none =>
    match round.answer with
    | .interrupted => .ok { state with phase := .writing copied received offset }
    | .failed error => .error ⟨.stagingWriteFailed,none,some error⟩
    | .transferred count =>
      let written := (received.drop offset).take count
      if written = [] then .error ⟨.stagingWriteFailed,none,none⟩
      else .ok ⟨.writing copied received (offset + written.length),state.position,state.stage ++ written⟩

def copyFinished (state : CopyState) : Bool :=
  match state.phase.settle with
  | .reading copied => expected ≤ copied
  | .writing .. => false

def copyRound (round : CopyRound) (state : CopyState) : Except UploadFinalizationError CopyState :=
  match state.phase.settle with
  | .reading copied => readRound content expected deadline round copied state
  | .writing copied received offset => writeRound deadline round copied received offset state

/-- `copy_source`: its result, when it has one, and what the stage holds. -/
def copySource : List CopyRound → CopyState → Option (Except UploadFinalizationError Unit) × Bytes
  | [],state => (if copyFinished expected state then some (.ok ()) else none,state.stage)
  | round :: rounds,state =>
    if copyFinished expected state then (some (.ok ()),state.stage)
    else
      match copyRound content expected deadline round state with
      | .error e => (some (.error e),state.stage)
      | .ok next => copySource rounds next

end

variable {content : Bytes} {expected : ℕ} {deadline : Option ℤ} {round : CopyRound} {state next : CopyState}

/-- The stage holds what lies in front of the two counters, and the descriptor stands behind what
was received. -/
def Copying (content : Bytes) (state : CopyState) : Prop :=
  match state.phase with
  | .reading copied => state.position = copied ∧ copied ≤ content.length ∧ state.stage = content.take copied
  | .writing copied received offset => state.position = copied + received.length ∧
      copied + received.length ≤ content.length ∧ received <+: content.drop copied ∧
      offset ≤ received.length ∧ state.stage = content.take (copied + offset)

theorem Copying.start (content : Bytes) : Copying content {} := ⟨rfl,Nat.zero_le _,rfl⟩

theorem Copying.settle (h : Copying content state) :
    Copying content { state with phase := state.phase.settle } := by
  obtain ⟨phase,position,stage⟩ := state
  cases phase with
  | reading copied => exact h
  | writing copied received offset =>
    obtain ⟨hposition,hinside,hreceived,hoffset,hstage⟩ := h
    dsimp only [CopyPhase.settle]
    split
    · exact ⟨hposition,hinside,hreceived,hoffset,hstage⟩
    · have hdone : offset = received.length := by omega
      exact ⟨hposition,hinside,hdone ▸ hstage⟩

theorem take_extends {written : Bytes} {n : ℕ} (h : written <+: content.drop n) :
    content.take n ++ written = content.take (n + written.length) := by
  rw [List.take_add,← List.prefix_iff_eq_take.mp h]

theorem readRound_copying {copied : ℕ} (h : Copying content { state with phase := .reading copied })
    (hround : readRound content expected deadline round copied state = .ok next) : Copying content next := by
  obtain ⟨hposition,hinside,hstage⟩ := h
  unfold readRound at hround
  split at hround
  · cases hround
  · split at hround
    · obtain rfl := Except.ok.inj hround
      exact ⟨hposition,hinside,hstage⟩
    · cases hround
    · rename_i count _
      dsimp only at hround hposition hstage
      split at hround
      · cases hround
      · obtain rfl := Except.ok.inj hround
        have hfirst := List.take_prefix (min count (min (expected - copied) uploadCopyBufferBytes))
          (content.drop copied)
        have hlength := hfirst.length_le
        rw [List.length_drop] at hlength
        rw [hposition]
        exact ⟨rfl,by omega,hfirst,Nat.zero_le _,hstage⟩

theorem writeRound_copying {copied offset : ℕ} {received : Bytes}
    (h : Copying content { state with phase := .writing copied received offset })
    (hround : writeRound deadline round copied received offset state = .ok next) : Copying content next := by
  obtain ⟨hposition,hinside,hreceived,hoffset,hstage⟩ := h
  unfold writeRound at hround
  split at hround
  · cases hround
  · split at hround
    · obtain rfl := Except.ok.inj hround
      exact ⟨hposition,hinside,hreceived,hoffset,hstage⟩
    · cases hround
    · rename_i count _
      dsimp only at hround hstage
      split at hround
      · cases hround
      · obtain rfl := Except.ok.inj hround
        have hwritten := List.take_prefix count (received.drop offset)
        have hlength := hwritten.length_le
        rw [List.length_drop] at hlength
        have hbehind : (received.drop offset).take count <+: content.drop (copied + offset) := by
          rw [← List.drop_drop]
          exact hwritten.trans (hreceived.drop offset)
        refine ⟨hposition,hinside,hreceived,by omega,?_⟩
        dsimp only
        rw [hstage,take_extends hbehind,Nat.add_assoc]

theorem copyRound_copying (h : Copying content state)
    (hround : copyRound content expected deadline round state = .ok next) : Copying content next := by
  have hsettled := h.settle
  unfold copyRound at hround
  split at hround
  · rename_i copied hphase
    rw [hphase] at hsettled
    exact readRound_copying hsettled hround
  · rename_i copied received offset hphase
    rw [hphase] at hsettled
    exact writeRound_copying hsettled hround

/-- A loop that ends well has written the whole source. -/
theorem copyFinished_copying (h : Copying content state) (hexpected : expected = content.length)
    (hfinished : copyFinished expected state = true) : state.stage = content := by
  have hsettled := h.settle
  unfold copyFinished at hfinished
  split at hfinished
  · rename_i copied hphase
    rw [hphase] at hsettled
    obtain ⟨-,-,hstage⟩ := hsettled
    rw [decide_eq_true_eq,hexpected] at hfinished
    rw [show state.stage = content.take copied from hstage,List.take_of_length_le hfinished]
  · cases hfinished

theorem copySource_copied (rounds : List CopyRound) (h : Copying content state)
    (hexpected : expected = content.length) {stage : Bytes}
    (hcopied : copySource content expected deadline rounds state = (some (.ok ()),stage)) : stage = content := by
  induction rounds generalizing state with
  | nil =>
    obtain ⟨hresult,rfl⟩ := Prod.mk.inj hcopied
    split at hresult
    · exact copyFinished_copying h hexpected (by assumption)
    · cases hresult
  | cons round rounds ih =>
    rw [copySource] at hcopied
    split at hcopied
    · obtain ⟨-,rfl⟩ := Prod.mk.inj hcopied
      exact copyFinished_copying h hexpected (by assumption)
    · split at hcopied
      · cases hcopied
      · rename_i hround
        exact ih (copyRound_copying h hround) hcopied

/-- What is left to read and write; a byte that is to be read is to be written as well. -/
def copyLeft (expected : ℕ) (phase : CopyPhase) : ℕ :=
  match phase with
  | .reading copied => 2 * (expected - copied)
  | .writing copied received offset => 2 * (expected - (copied + received.length)) + (received.length - offset)

theorem copyLeft_settle (phase : CopyPhase) : copyLeft expected phase.settle = copyLeft expected phase := by
  cases phase with
  | reading copied => rfl
  | writing copied received offset =>
    dsimp only [CopyPhase.settle]
    split
    · rfl
    · dsimp only [copyLeft]
      omega

/-- A round goes on with less to do, unless its call was interrupted. -/
theorem copyRound_left (hfinished : copyFinished expected state = false)
    (hround : copyRound content expected deadline round state = .ok next) :
    copyLeft expected next.phase + (if round.answer = .interrupted then 0 else 1) ≤ copyLeft expected state.phase := by
  rw [← copyLeft_settle state.phase]
  unfold copyFinished at hfinished
  unfold copyRound at hround
  cases hphase : state.phase.settle with
  | reading copied =>
    simp only [hphase,readRound,decide_eq_false_iff_not,not_le] at hfinished hround
    split at hround
    · cases hround
    · split at hround
      · obtain rfl := Except.ok.inj hround
        simp [*]
      · cases hround
      · rename_i count hanswer
        split at hround
        · cases hround
        · rename_i hsome
          obtain rfl := Except.ok.inj hround
          have hlength := List.length_take_le (min count (min (expected - copied) uploadCopyBufferBytes))
            (content.drop state.position)
          have hpos := List.length_pos_iff.mpr hsome
          rw [if_neg (by rw [hanswer]; nofun)]
          dsimp only [copyLeft]
          omega
  | writing copied received offset =>
    simp only [hphase,writeRound] at hround
    split at hround
    · cases hround
    · split at hround
      · obtain rfl := Except.ok.inj hround
        simp [*]
      · cases hround
      · rename_i count hanswer
        split at hround
        · cases hround
        · rename_i hsome
          obtain rfl := Except.ok.inj hround
          have hlength := List.length_take_le' count (received.drop offset)
          have hpos := List.length_pos_iff.mpr hsome
          rw [List.length_drop] at hlength
          rw [if_neg (by rw [hanswer]; nofun)]
          dsimp only [copyLeft]
          omega

/-- A system that interrupts only some of the calls lets the loop end. -/
theorem copySource_ends (rounds : List CopyRound)
    (h : copyLeft expected state.phase < (rounds.filter (fun round => round.answer ≠ .interrupted)).length) :
    (copySource content expected deadline rounds state).1.isSome = true := by
  induction rounds generalizing state with
  | nil => simp at h
  | cons round rounds ih =>
    rw [copySource]
    cases hfinished : copyFinished expected state with
    | true => rfl
    | false =>
      simp only [Bool.false_eq_true,if_false]
      split
      · rfl
      · rename_i next hround
        have hleft := copyRound_left hfinished hround
        apply ih
        by_cases hanswer : round.answer = .interrupted
        · rw [List.filter_cons_of_neg (by simpa using hanswer)] at h
          rw [if_pos hanswer] at hleft
          omega
        · rw [List.filter_cons_of_pos (by simpa using hanswer),List.length_cons] at h
          rw [if_neg hanswer] at hleft
          omega

end SpareNode.Filesystem
