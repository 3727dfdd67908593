import SpareNode.Authentication.CredentialFileProvisioner

/-! # Provisioning processes on one path

Whatever the order of their system calls, the file at the path belongs to one process at most, and
only that process changes it. An existing file is never touched, a process that reports success has
left its complete text on the disk, and one that fails removes what it has written.
-/
namespace SpareNode.Authentication
open SpareNode.Configuration CredentialSourceParser

variable {jobs : ℕ → ProvisioningJob} {before : Option CredentialNode} {s : ProvisioningState}

def ProvisioningJob.Provisionable (job : ProvisioningJob) : Prop :=
  isValidOwnerLogin job.login = true ∧ ∃ encoded, job.verifier.hash job.password = .ok encoded

/-- What holds of the path and the processes between any two calls. -/
structure ProvisioningInvariant (jobs : ℕ → ProvisioningJob) (before : Option CredentialNode)
    (s : ProvisioningState) : Prop where
  holding : ∀ p, holdsFile (s.phase p) = true → ∃ node, s.file = some node ∧ node.owner = some p ∧
    Holds (jobs p).content (jobs p).unlinkRefused node (s.phase p)
  owned : ∀ node p, s.file = some node → node.owner = some p →
    Holds (jobs p).content (jobs p).unlinkRefused node (s.phase p) ∧
      (holdsFile (s.phase p) = true ∨ (jobs p).unlinkRefused = true)
  kept : ∀ node, before = some node → s.file = some node
  refused : ∀ p, ¬(jobs p).Provisionable → ∃ code, s.phase p = .finished (.error code)
  foreign : ∀ node, s.file = some node → node.owner = none → before = some node

theorem start_phase (job : ProvisioningJob) : (job.Provisionable ∧ job.start = .opening) ∨
    ¬job.Provisionable ∧ ∃ code, job.start = .finished (.error code) := by
  unfold ProvisioningJob.start ProvisioningJob.Provisionable
  cases hlogin : isValidOwnerLogin job.login with
  | false => exact .inr ⟨fun h => by simp at h,_,rfl⟩
  | true =>
    cases hhash : job.verifier.hash job.password with
    | error code =>
      refine .inr ⟨?_,_,rfl⟩
      rintro ⟨-,encoded,h⟩
      cases h
    | ok encoded => exact .inl ⟨⟨rfl,encoded,rfl⟩,rfl⟩

theorem start_invariant (hbefore : ∀ node ∈ before, node.owner = none) :
    ProvisioningInvariant jobs before (provisioningStart jobs before) := by
  have hidle (p : ℕ) : holdsFile ((provisioningStart jobs before).phase p) = false := by
    rcases start_phase (jobs p) with ⟨-,h⟩ | ⟨-,code,h⟩ <;> simp [provisioningStart,h,holdsFile]
  constructor
  · intro p h
    rw [hidle p] at h
    cases h
  · intro node p hfile howner
    rw [hbefore node hfile] at howner
    cases howner
  · intro node h
    exact h
  · intro p h
    rcases start_phase (jobs p) with ⟨hprovisionable,-⟩ | ⟨-,code,hphase⟩
    · exact absurd hprovisionable h
    · exact ⟨code,hphase⟩
  · intro node h _
    exact h

theorem step_phase (p q : ℕ) (answer : SystemAnswer) : (provisioningStep jobs s (p,answer)).phase q =
    if q = p then (provisioningCall p (jobs p).content (jobs p).unlinkRefused answer (s.phase p) s.file).1
    else s.phase q := by
  simp only [provisioningStep,Function.update_apply]

/-- A process that has its file is the only one. -/
theorem ProvisioningInvariant.alone (h : ProvisioningInvariant jobs before s) {p q : ℕ}
    (hp : holdsFile (s.phase p) = true) (hq : holdsFile (s.phase q) = true) : q = p := by
  obtain ⟨node,hnode,howner,-⟩ := h.holding p hp
  obtain ⟨other,hother,hothers,-⟩ := h.holding q hq
  rw [hnode] at hother
  cases hother
  rw [howner] at hothers
  exact (Option.some.inj hothers).symm

/-- While a process has its file there was none before. -/
theorem ProvisioningInvariant.fresh (h : ProvisioningInvariant jobs before s)
    (hbefore : ∀ node ∈ before, node.owner = none) {p : ℕ} (hp : holdsFile (s.phase p) = true) : before = none := by
  obtain ⟨node,hnode,howner,-⟩ := h.holding p hp
  cases hold : before with
  | none => rfl
  | some old =>
    have hsame := h.kept old hold
    rw [hnode] at hsame
    obtain rfl := Option.some.inj hsame
    rw [hbefore node hold] at howner
    cases howner

theorem step_refused (h : ProvisioningInvariant jobs before s) (p : ℕ) (answer : SystemAnswer) (q : ℕ)
    (hq : ¬(jobs q).Provisionable) : ∃ code,
      (provisioningStep jobs s (p,answer)).phase q = .finished (.error code) := by
  obtain ⟨code,hphase⟩ := h.refused q hq
  refine ⟨code,?_⟩
  rw [step_phase]
  split
  · rename_i hsame
    subst hsame
    rw [hphase]
    rfl
  · exact hphase

theorem step_invariant_holding (h : ProvisioningInvariant jobs before s)
    (hbefore : ∀ node ∈ before, node.owner = none) {p : ℕ} (hphase : holdsFile (s.phase p) = true)
    (answer : SystemAnswer) : ProvisioningInvariant jobs before (provisioningStep jobs s (p,answer)) := by
  obtain ⟨node,hnode,howner,hholds⟩ := h.holding p hphase
  have hfresh := h.fresh hbefore hphase
  have hothers (q : ℕ) (hq : q ≠ p) : holdsFile ((provisioningStep jobs s (p,answer)).phase q) = false := by
    rw [step_phase,if_neg hq,← Bool.not_eq_true]
    intro hbusy
    exact hq (h.alone hphase hbusy)
  have hown : (provisioningStep jobs s (p,answer)).phase p =
      (provisioningCall p (jobs p).content (jobs p).unlinkRefused answer (s.phase p) (some node)).1 := by
    rw [step_phase,if_pos rfl,hnode]
  have hfile : (provisioningStep jobs s (p,answer)).file =
      (provisioningCall p (jobs p).content (jobs p).unlinkRefused answer (s.phase p) (some node)).2 := by
    rw [← hnode]
    rfl
  have hkept : ∀ old, before = some old → (provisioningStep jobs s (p,answer)).file = some old := by
    intro old hold
    rw [hfresh] at hold
    cases hold
  rcases provisioningCall_holds hphase howner hholds with
    ⟨after,hafter,hafterOwner,hafterHolds,hafterPhase⟩ | ⟨hgone,hidle⟩
  · rw [hafter] at hfile
    rw [← hown] at hafterHolds hafterPhase
    refine ⟨?_,?_,hkept,fun q hq => step_refused h p answer q hq,?_⟩
    · intro q hq
      by_cases hsame : q = p
      · subst hsame
        exact ⟨after,hfile,hafterOwner,hafterHolds⟩
      · rw [hothers q hsame] at hq
        cases hq
    · intro other q hother hq
      rw [hfile] at hother
      obtain rfl := Option.some.inj hother
      rw [hafterOwner] at hq
      obtain rfl := Option.some.inj hq
      exact ⟨hafterHolds,hafterPhase⟩
    · intro other hother hnone
      rw [hfile] at hother
      obtain rfl := Option.some.inj hother
      rw [hafterOwner] at hnone
      cases hnone
  · rw [hgone] at hfile
    rw [← hown] at hidle
    refine ⟨?_,?_,hkept,fun q hq => step_refused h p answer q hq,?_⟩
    · intro q hq
      by_cases hsame : q = p
      · subst hsame
        rw [hidle] at hq
        cases hq
      · rw [hothers q hsame] at hq
        cases hq
    · intro other q hother
      rw [hfile] at hother
      cases hother
    · intro other hother
      rw [hfile] at hother
      cases hother

theorem step_invariant_idle (h : ProvisioningInvariant jobs before s) {p : ℕ}
    (hphase : holdsFile (s.phase p) = false) (answer : SystemAnswer) :
    ProvisioningInvariant jobs before (provisioningStep jobs s (p,answer)) := by
  have hother (q : ℕ) (hq : q ≠ p) : (provisioningStep jobs s (p,answer)).phase q = s.phase q := by
    rw [step_phase,if_neg hq]
  have hown : (provisioningStep jobs s (p,answer)).phase p =
      (provisioningCall p (jobs p).content (jobs p).unlinkRefused answer (s.phase p) s.file).1 := by
    rw [step_phase,if_pos rfl]
  have hfile : (provisioningStep jobs s (p,answer)).file =
      (provisioningCall p (jobs p).content (jobs p).unlinkRefused answer (s.phase p) s.file).2 := rfl
  rcases provisioningCall_opens (p := p) hphase s.file with ⟨hsame,hidle⟩ | ⟨hnone,node,hnode,howner,hholds,hbusy⟩
  · rw [hsame] at hfile
    rw [← hown] at hidle
    refine ⟨?_,?_,?_,fun q hq => step_refused h p answer q hq,?_⟩
    · intro q hq
      by_cases hp : q = p
      · subst hp
        rw [hidle] at hq
        cases hq
      · rw [hother q hp] at hq ⊢
        rw [hfile]
        exact h.holding q hq
    · intro node q hnode hq
      rw [hfile] at hnode
      by_cases hp : q = p
      · subst hp
        obtain ⟨hholds,hleft⟩ := h.owned node q hnode hq
        rw [hown]
        cases hbefore : s.phase q with
        | opening =>
          rw [hbefore] at hholds
          exact absurd hholds not_false
        | finished result =>
          rw [hbefore] at hholds hleft
          exact ⟨hholds,hleft⟩
        | writing | flushing | closing | openingParent | flushingParent | closingParent | unlinking =>
          rw [hbefore] at hphase
          cases hphase
      · rw [hother q hp]
        exact h.owned node q hnode hq
    · intro node hold
      rw [hfile]
      exact h.kept node hold
    · intro node hnode hnone
      rw [hfile] at hnode
      exact h.foreign node hnode hnone
  · rw [hnode] at hfile
    rw [← hown] at hholds hbusy
    refine ⟨?_,?_,?_,fun q hq => step_refused h p answer q hq,?_⟩
    · intro q hq
      by_cases hp : q = p
      · subst hp
        exact ⟨node,hfile,howner,hholds⟩
      · rw [hother q hp] at hq
        obtain ⟨other,hsome,-⟩ := h.holding q hq
        rw [hnone] at hsome
        cases hsome
    · intro other q hsome hq
      rw [hfile] at hsome
      obtain rfl := Option.some.inj hsome
      rw [howner] at hq
      obtain rfl := Option.some.inj hq
      exact ⟨hholds,.inl hbusy⟩
    · intro old hold
      have hsome := h.kept old hold
      rw [hnone] at hsome
      cases hsome
    · intro other hsome hforeign
      rw [hfile] at hsome
      obtain rfl := Option.some.inj hsome
      rw [howner] at hforeign
      cases hforeign

theorem step_invariant (h : ProvisioningInvariant jobs before s) (hbefore : ∀ node ∈ before, node.owner = none)
    (call : ℕ × SystemAnswer) : ProvisioningInvariant jobs before (provisioningStep jobs s call) := by
  cases hphase : holdsFile (s.phase call.1) with
  | true => exact step_invariant_holding h hbefore hphase call.2
  | false => exact step_invariant_idle h hphase call.2

theorem run_invariant (h : ProvisioningInvariant jobs before s) (hbefore : ∀ node ∈ before, node.owner = none)
    (calls : List (ℕ × SystemAnswer)) : ProvisioningInvariant jobs before (provisioningRun jobs s calls) := by
  induction calls generalizing s with
  | nil => exact h
  | cons call calls ih => exact ih (step_invariant h hbefore call)

/-- The calls that a process still makes, interrupted writes apart. -/
def remainingCalls (content : Bytes) : ProvisioningPhase → ℕ
  | .opening => content.length + 8
  | .writing offset => content.length - offset + 7
  | .flushing => 6
  | .closing _ => 5
  | .openingParent => 4
  | .flushingParent => 3
  | .closingParent _ => 2
  | .unlinking => 1
  | .finished _ => 0

theorem nextWrite_remaining (content : Bytes) (offset : ℕ) :
    remainingCalls content (nextWrite content offset) ≤ content.length - offset + 7 := by
  unfold nextWrite
  split <;> simp [remainingCalls]

theorem provisioningCall_remaining (p : ℕ) (content : Bytes) (unlinkRefused : Bool) (answer : SystemAnswer)
    (phase : ProvisioningPhase) (file : Option CredentialNode) (hwriting : ∀ offset, phase = .writing offset →
      offset < content.length) (h : answer.interrupted = false) :
    remainingCalls content (provisioningCall p content unlinkRefused answer phase file).1 ≤
      remainingCalls content phase - 1 := by
  cases phase with
  | writing offset =>
    have hoffset := hwriting offset rfl
    simp only [provisioningCall,h,Bool.false_eq_true,if_false]
    split
    · simp only [remainingCalls]
      omega
    · have hnext := nextWrite_remaining content (offset + min answer.count (content.length - offset))
      simp only [remainingCalls] at hnext ⊢
      omega
  | opening =>
    simp only [provisioningCall]
    split
    · simp [remainingCalls]
    · cases file with
      | some node => simp [remainingCalls]
      | none =>
        have hnext := nextWrite_remaining content 0
        simp only [remainingCalls] at hnext ⊢
        omega
  | flushing => simp only [provisioningCall]; split <;> simp [remainingCalls]
  | closing writeSucceeded => simp only [provisioningCall]; split <;> simp [remainingCalls]
  | openingParent => simp only [provisioningCall]; split <;> simp [remainingCalls]
  | flushingParent => simp only [provisioningCall]; split <;> simp [remainingCalls]
  | closingParent syncSucceeded => simp only [provisioningCall]; split <;> simp [remainingCalls]
  | unlinking => simp [provisioningCall,remainingCalls]
  | finished result => simp [provisioningCall,remainingCalls]

theorem provisioningCall_remaining_le (p : ℕ) (content : Bytes) (unlinkRefused : Bool) (answer : SystemAnswer)
    (phase : ProvisioningPhase) (file : Option CredentialNode) (hwriting : ∀ offset, phase = .writing offset →
      offset < content.length) :
    remainingCalls content (provisioningCall p content unlinkRefused answer phase file).1 ≤
      remainingCalls content phase := by
  cases hinterrupted : answer.interrupted with
  | false =>
    have h := provisioningCall_remaining p content unlinkRefused answer phase file hwriting hinterrupted
    omega
  | true =>
    have hclear := provisioningCall_remaining p content unlinkRefused { answer with interrupted := false } phase file
      hwriting rfl
    cases phase with
    | writing offset => simp [provisioningCall,hinterrupted]
    | opening | flushing | closing | openingParent | flushingParent | closingParent | unlinking | finished =>
      exact hclear.trans (Nat.sub_le _ _)

/-- The calls of a process that no signal interrupts. -/
def callsOf (p : ℕ) (calls : List (ℕ × SystemAnswer)) : ℕ :=
  calls.countP fun call => call.1 = p && !call.2.interrupted

theorem run_remaining (h : ProvisioningInvariant jobs before s) (hbefore : ∀ node ∈ before, node.owner = none)
    (calls : List (ℕ × SystemAnswer)) (p : ℕ) :
    remainingCalls (jobs p).content ((provisioningRun jobs s calls).phase p) ≤
      remainingCalls (jobs p).content (s.phase p) - callsOf p calls := by
  induction calls generalizing s with
  | nil => exact Nat.le_refl _
  | cons call calls ih =>
    obtain ⟨q,answer⟩ := call
    have hrest := ih (step_invariant h hbefore (q,answer))
    have hcount : callsOf p ((q,answer) :: calls) =
        callsOf p calls + if (decide (q = p) && !answer.interrupted) = true then 1 else 0 := List.countP_cons
    have hstep : remainingCalls (jobs p).content ((provisioningStep jobs s (q,answer)).phase p) ≤
        remainingCalls (jobs p).content (s.phase p) -
          if (decide (q = p) && !answer.interrupted) = true then 1 else 0 := by
      rw [step_phase]
      by_cases hsame : p = q
      · subst hsame
        have hwriting : ∀ offset, s.phase p = .writing offset → offset < (jobs p).content.length := by
          intro offset hphase
          obtain ⟨node,-,-,hholds⟩ := h.holding p (by rw [hphase]; rfl)
          rw [hphase] at hholds
          exact hholds.1
        rw [if_pos rfl]
        cases hinterrupted : answer.interrupted with
        | false =>
          simp only [decide_true,Bool.not_false,Bool.and_self,if_true]
          exact provisioningCall_remaining p (jobs p).content (jobs p).unlinkRefused answer (s.phase p) s.file hwriting
            hinterrupted
        | true =>
          simp only [Bool.not_true,Bool.and_false,Bool.false_eq_true,if_false]
          exact provisioningCall_remaining_le p (jobs p).content (jobs p).unlinkRefused answer (s.phase p) s.file hwriting
      · rw [if_neg hsame,decide_eq_false fun heq => hsame heq.symm]
        exact Nat.le_refl _
    change remainingCalls (jobs p).content ((provisioningRun jobs (provisioningStep jobs s (q,answer)) calls).phase p) ≤ _
    rw [hcount]
    omega

/-- The text that a process writes is read back by the provider that loads it. -/
theorem provisioned_text_loads {job : ProvisioningJob} {encoded : Bytes} (hlogin : isValidOwnerLogin job.login = true)
    (hencoded : PlainVerifier encoded) (husable : job.verifier.isUsable encoded = true)
    (hsize : (credentialSource job.login encoded).length ≤ maximumCredentialFileBytes) (hloadable : Loadable job.login) :
    createFromSource (credentialSource job.login encoded) job.verifier = .ok ⟨ascii "owner",job.login,encoded⟩ := by
  have hcreate := create_credentialSource hsize
  have hparse : parseOwnerBlock { cursor := ⟨credentialSource job.login encoded,{}⟩ } =
      some ⟨some job.login,some encoded⟩ :=
    parseOwnerBlock_loadable rfl rfl (spells_escapeLogin (isValidOwnerLogin_printable hlogin) hloadable)
      (spells_plainVerifier hencoded)
  simp [createFromSource,not_lt.mpr hsize,hcreate,parse,hparse,hlogin,husable]

/-- Provisioning on one path, with any number of processes in any order: an existing file stays as it is, a
success has left its whole text under the name on the disk, and is the only one, a failure leaves nothing behind
unless its unlink is refused, and every process comes to its end. -/
theorem provisioning_exclusive (jobs : ℕ → ProvisioningJob) (before : Option CredentialNode)
    (hbefore : ∀ node ∈ before, node.owner = none) (calls : List (ℕ × SystemAnswer)) :
    let s := provisioningRun jobs (provisioningStart jobs before) calls
    (∀ node, before = some node → s.file = some node ∧ ∀ p, s.phase p ≠ .finished (.ok ())) ∧
    (∀ p, s.phase p = .finished (.ok ()) → (∀ q, s.phase q = .finished (.ok ()) → q = p) ∧
      ∃ encoded, (jobs p).verifier.hash (jobs p).password = .ok encoded ∧
        s.file = some ⟨some p,credentialSource (jobs p).login encoded,true,true⟩ ∧
        (PlainVerifier encoded → (jobs p).verifier.isUsable encoded = true → Loadable (jobs p).login →
          (credentialSource (jobs p).login encoded).length ≤ maximumCredentialFileBytes →
          createFromSource (credentialSource (jobs p).login encoded) (jobs p).verifier =
            .ok ⟨ascii "owner",(jobs p).login,encoded⟩)) ∧
    (∀ p code, s.phase p = .finished (.error code) → (jobs p).unlinkRefused = false →
      ∀ node, s.file = some node → node.owner ≠ some p) ∧
    ∀ p, (jobs p).content.length + 8 ≤ callsOf p calls → ∃ result, s.phase p = .finished result := by
  intro s
  have hstart : ProvisioningInvariant jobs before (provisioningStart jobs before) := start_invariant hbefore
  have h : ProvisioningInvariant jobs before s := run_invariant hstart hbefore calls
  have hok (p : ℕ) (hphase : s.phase p = .finished (.ok ())) : holdsFile (s.phase p) = true := by
    rw [hphase]
    rfl
  refine ⟨?_,?_,?_,?_⟩
  · intro node hold
    refine ⟨h.kept node hold,?_⟩
    intro p hphase
    have hfresh := h.fresh hbefore (hok p hphase)
    rw [hold] at hfresh
    cases hfresh
  · intro p hphase
    obtain ⟨⟨owner,content,contentSynced,nameSynced⟩,hfile,howner,hholds⟩ := h.holding p (hok p hphase)
    rw [hphase] at hholds
    obtain ⟨⟨hcontent,hcontentSynced⟩,hnameSynced⟩ := hholds
    have hprovisionable : (jobs p).Provisionable := by
      by_contra hrefused
      obtain ⟨code,herror⟩ := h.refused p hrefused
      rw [hphase] at herror
      cases herror
    obtain ⟨hlogin,encoded,hhash⟩ := hprovisionable
    have htext : (jobs p).content = credentialSource (jobs p).login encoded := by rw [ProvisioningJob.content,hhash]
    refine ⟨fun q hq => h.alone (hok p hphase) (hok q hq),encoded,hhash,?_,?_⟩
    · dsimp only at howner hcontent hcontentSynced hnameSynced
      rw [hfile,howner,hcontent,hcontentSynced,hnameSynced,htext]
    · intro hencoded husable hloadable hsize
      exact provisioned_text_loads hlogin hencoded husable hsize hloadable
  · intro p code hphase hunlink node hfile howner
    obtain ⟨-,hleft⟩ := h.owned node p hfile howner
    rw [hphase,hunlink] at hleft
    rcases hleft with hleft | hleft <;> cases hleft
  · intro p hcalls
    have hremaining := run_remaining hstart hbefore calls p
    have hfirst : remainingCalls (jobs p).content ((provisioningStart jobs before).phase p) ≤
        (jobs p).content.length + 8 := by
      rcases start_phase (jobs p) with ⟨-,hphase⟩ | ⟨-,code,hphase⟩ <;>
        simp [provisioningStart,hphase,remainingCalls]
    have hzero : remainingCalls (jobs p).content (s.phase p) = 0 := Nat.le_zero.mp (hremaining.trans (by omega))
    cases hphase : s.phase p with
    | finished result => exact ⟨result,rfl⟩
    | opening | writing | flushing | closing | openingParent | flushingParent | closingParent | unlinking =>
      rw [hphase] at hzero
      simp [remainingCalls] at hzero

def ownerJobs : ℕ → ProvisioningJob := fun _ => ⟨ascii "owner",ascii "secret",sampleVerifier,false⟩

/-- Process 1 tries while process 0 writes, in two parts, and brings its file to the disk. -/
def ownerCalls : List (ℕ × SystemAnswer) :=
  [(0,{}),(0,{ count := 10 }),(1,{}),(0,{ interrupted := true }),(0,{ count := 4096 }),(0,{}),(0,{}),(0,{}),(0,{}),
    (0,{})]

/-- The file of an earlier provisioning survives both; without one, process 0 leaves a file that loads. -/
theorem provisioning_exclusive_owner :
    (provisioningRun ownerJobs (provisioningStart ownerJobs (some ⟨none,ascii "owner",true,true⟩))
      ownerCalls).file = some ⟨none,ascii "owner",true,true⟩ ∧
    (∀ q, (provisioningRun ownerJobs (provisioningStart ownerJobs none) ownerCalls).phase q = .finished (.ok ()) →
      q = 0) ∧
    ∃ text, (provisioningRun ownerJobs (provisioningStart ownerJobs none) ownerCalls).file =
        some ⟨some 0,text,true,true⟩ ∧
      createFromSource text sampleVerifier = .ok ⟨ascii "owner",ascii "owner",sampleVerifierText⟩ := by
  have hkept := provisioning_exclusive ownerJobs (some ⟨none,ascii "owner",true,true⟩)
    (fun node hnode => by rw [← Option.some.inj hnode]) ownerCalls
  have hfresh := provisioning_exclusive ownerJobs none (fun node hnode => by cases hnode) ownerCalls
  obtain ⟨hsole,encoded,hencoded,hfile,hloads⟩ := hfresh.2.1 0 (by decide +kernel)
  obtain rfl : sampleVerifierText = encoded := Except.ok.inj hencoded
  refine ⟨(hkept.1 _ rfl).1,hsole,_,hfile,hloads ?_ ?_ ?_ ?_⟩
  · decide +kernel
  · decide +kernel
  · exact ⟨by decide +kernel,by decide +kernel⟩
  · decide +kernel

end SpareNode.Authentication
