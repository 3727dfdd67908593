import Mathlib.Logic.Function.Basic
import SpareNode.Authentication.CredentialRoundTrip

/-! # Writing the credential file

`write_exclusive_file` of the POSIX build, one system call at a time, so that any number of
provisioning processes can work on one path at once. The file carries what has been written to
it, and what of it would outlive a loss of power.
-/
namespace SpareNode.Authentication

/-- Where a process is: in front of its next system call, or at its end. -/
inductive ProvisioningPhase where
  | opening
  | writing (offset : ℕ)
  | flushing
  | closing (writeSucceeded : Bool)
  | openingParent
  | flushingParent
  | closingParent (syncSucceeded : Bool)
  | unlinking
  | finished (result : Except CredentialFileProvisioningErrorCode Unit)
deriving DecidableEq

/-- The file at the path: the process that created it, its bytes, and whether they and its name are on
the disk. A file that nobody here created was there before. -/
structure CredentialNode where
  owner : Option ℕ
  content : Bytes
  contentSynced : Bool
  nameSynced : Bool
deriving DecidableEq

/-- What the system answers to a call: whether it refuses it, whether a signal interrupts it, and how many
bytes a write takes. -/
structure SystemAnswer where
  refused : Bool := false
  interrupted : Bool := false
  count : ℕ := 0

def nextWrite (content : Bytes) (offset : ℕ) : ProvisioningPhase :=
  if offset < content.length then .writing offset else .flushing

/-- One system call of `write_exclusive_file` by process `p`; a process whose unlink is refused leaves its
file behind. -/
def provisioningCall (p : ℕ) (content : Bytes) (unlinkRefused : Bool) (answer : SystemAnswer) :
    ProvisioningPhase → Option CredentialNode → ProvisioningPhase × Option CredentialNode
  | .opening,file =>
    if answer.refused then (.finished (.error .openFailed),file)
    else
      match file with
      | some node => (.finished (.error .outputExists),some node)
      | none => (nextWrite content 0,some ⟨some p,[],false,false⟩)
  | .writing offset,file =>
    if answer.interrupted then (.writing offset,file)
    else if answer.refused ∨ answer.count = 0 then (.closing false,file)
    else
      let written := min answer.count (content.length - offset)
      (nextWrite content (offset + written),
        file.map fun node => { node with
          content := node.content ++ (content.drop offset).take written
          contentSynced := false })
  | .flushing,file =>
    if answer.refused then (.closing false,file)
    else (.closing true,file.map fun node => { node with contentSynced := true })
  | .closing writeSucceeded,file =>
    if answer.refused ∨ writeSucceeded = false then (.unlinking,file) else (.openingParent,file)
  | .openingParent,file => if answer.refused then (.unlinking,file) else (.flushingParent,file)
  | .flushingParent,file =>
    if answer.refused then (.closingParent false,file)
    else (.closingParent true,file.map fun node => { node with nameSynced := true })
  | .closingParent syncSucceeded,file =>
    if answer.refused ∨ syncSucceeded = false then (.unlinking,file) else (.finished (.ok ()),file)
  | .unlinking,file => (.finished (.error .writeFailed),if unlinkRefused then file else none)
  | .finished result,file => (.finished result,file)

structure ProvisioningJob where
  login : Bytes
  password : Bytes
  verifier : PasswordVerifier
  unlinkRefused : Bool := false

namespace ProvisioningJob

/-- The text of the file, once the password is hashed. -/
def content (job : ProvisioningJob) : Bytes :=
  match job.verifier.hash job.password with
  | .ok encoded => credentialSource job.login encoded
  | .error _ => []

/-- `provision` up to the first system call. -/
def start (job : ProvisioningJob) : ProvisioningPhase :=
  if !isValidOwnerLogin job.login then .finished (.error .invalidLogin)
  else
    match job.verifier.hash job.password with
    | .error code => .finished (.error (mapVerifierError code))
    | .ok _ => .opening

/-- The first system call comes exactly where `provision` hands the text on. -/
theorem provision_eq (job : ProvisioningJob) (write : Bytes → Except CredentialFileProvisioningErrorCode Unit) :
    provision write job.login job.password job.verifier =
      match job.start with
      | .finished result => result
      | _ => write job.content := by
  unfold provision start content
  split
  · rfl
  · cases job.verifier.hash job.password <;> rfl

end ProvisioningJob

/-- The file at the path and all processes. -/
structure ProvisioningState where
  file : Option CredentialNode
  phase : ℕ → ProvisioningPhase

/-- Process `p` makes its next system call. -/
def provisioningStep (jobs : ℕ → ProvisioningJob) (s : ProvisioningState) (call : ℕ × SystemAnswer) :
    ProvisioningState :=
  let job := jobs call.1
  let after := provisioningCall call.1 job.content job.unlinkRefused call.2 (s.phase call.1) s.file
  ⟨after.2,Function.update s.phase call.1 after.1⟩

def provisioningRun (jobs : ℕ → ProvisioningJob) (s : ProvisioningState) (calls : List (ℕ × SystemAnswer)) :
    ProvisioningState :=
  calls.foldl (provisioningStep jobs) s

def provisioningStart (jobs : ℕ → ProvisioningJob) (file : Option CredentialNode) : ProvisioningState :=
  ⟨file,fun p => (jobs p).start⟩

/-- A part of the content that ends where the writing stopped. -/
def Partial (content : Bytes) (node : CredentialNode) : Prop := node.content <+: content

def Complete (content : Bytes) (node : CredentialNode) : Prop :=
  node.content = content ∧ node.contentSynced = true

/-- The file of a process at each of its phases. -/
def Holds (content : Bytes) (unlinkRefused : Bool) (node : CredentialNode) : ProvisioningPhase → Prop
  | .opening => False
  | .writing offset => offset < content.length ∧ node.content = content.take offset
  | .flushing => node.content = content
  | .closing true => Complete content node
  | .closing false => Partial content node
  | .openingParent => Complete content node
  | .flushingParent => Complete content node
  | .closingParent true => Complete content node ∧ node.nameSynced = true
  | .closingParent false => Partial content node
  | .unlinking => Partial content node
  | .finished (.ok ()) => Complete content node ∧ node.nameSynced = true
  | .finished (.error _) => unlinkRefused = true ∧ Partial content node

def holdsFile : ProvisioningPhase → Bool
  | .opening => false
  | .finished (.error _) => false
  | _ => true

theorem Complete.partial_ {content : Bytes} {node : CredentialNode} (h : Complete content node) :
    Partial content node := by
  rw [Partial,h.1]

theorem nextWrite_holds {content : Bytes} {unlinkRefused : Bool} {node : CredentialNode} {offset : ℕ}
    (hnode : node.content = content.take offset) :
    Holds content unlinkRefused node (nextWrite content offset) ∧ holdsFile (nextWrite content offset) = true := by
  unfold nextWrite
  split
  · rename_i h
    exact ⟨⟨h,hnode⟩,rfl⟩
  · rename_i h
    have hall : content.length ≤ offset := Nat.not_lt.mp h
    rw [List.take_of_length_le hall] at hnode
    exact ⟨hnode,rfl⟩

section Call
variable {p : ℕ} {content : Bytes} {unlinkRefused : Bool} {answer : SystemAnswer} {phase : ProvisioningPhase}

/-- A call of a process that has its file leaves it with the file as the next phase wants it, or without one. -/
theorem provisioningCall_holds {node : CredentialNode} (hphase : holdsFile phase = true)
    (howner : node.owner = some p) (h : Holds content unlinkRefused node phase) :
    (∃ after, (provisioningCall p content unlinkRefused answer phase (some node)).2 = some after ∧
      after.owner = some p ∧
      Holds content unlinkRefused after (provisioningCall p content unlinkRefused answer phase (some node)).1 ∧
      (holdsFile (provisioningCall p content unlinkRefused answer phase (some node)).1 = true ∨
        unlinkRefused = true)) ∨
    (provisioningCall p content unlinkRefused answer phase (some node)).2 = none ∧
      holdsFile (provisioningCall p content unlinkRefused answer phase (some node)).1 = false := by
  cases phase with
  | opening => cases hphase
  | writing offset =>
    have hnode := h.2
    have hpart : Partial content node := by
      rw [Partial,hnode]
      exact List.take_prefix offset content
    left
    simp only [provisioningCall]
    split
    · exact ⟨node,rfl,howner,h,.inl rfl⟩
    · split
      · exact ⟨node,rfl,howner,hpart,.inl rfl⟩
      · have hwritten : node.content ++ (content.drop offset).take (min answer.count (content.length - offset)) =
            content.take (offset + min answer.count (content.length - offset)) := by
          rw [hnode,List.take_add]
        have hnext := @nextWrite_holds _ unlinkRefused _ _
          (show (⟨node.owner,node.content ++ (content.drop offset).take (min answer.count (content.length - offset)),
            false,node.nameSynced⟩ : CredentialNode).content = _ from hwritten)
        exact ⟨_,rfl,howner,hnext.1,.inl hnext.2⟩
  | flushing =>
    left
    simp only [provisioningCall]
    split
    · refine ⟨node,rfl,howner,?_,.inl rfl⟩
      rw [Holds,Partial,show node.content = content from h]
    · exact ⟨_,rfl,howner,⟨h,rfl⟩,.inl rfl⟩
  | closing writeSucceeded =>
    left
    cases writeSucceeded with
    | false =>
      simp only [provisioningCall,or_true,if_true]
      exact ⟨node,rfl,howner,h,.inl rfl⟩
    | true =>
      simp only [provisioningCall]
      split
      · exact ⟨node,rfl,howner,Complete.partial_ h,.inl rfl⟩
      · exact ⟨node,rfl,howner,h,.inl rfl⟩
  | openingParent =>
    left
    simp only [provisioningCall]
    split
    · exact ⟨node,rfl,howner,Complete.partial_ h,.inl rfl⟩
    · exact ⟨node,rfl,howner,h,.inl rfl⟩
  | flushingParent =>
    left
    simp only [provisioningCall]
    split
    · exact ⟨node,rfl,howner,Complete.partial_ h,.inl rfl⟩
    · exact ⟨_,rfl,howner,⟨h,rfl⟩,.inl rfl⟩
  | closingParent syncSucceeded =>
    left
    cases syncSucceeded with
    | false =>
      simp only [provisioningCall,or_true,if_true]
      exact ⟨node,rfl,howner,h,.inl rfl⟩
    | true =>
      simp only [provisioningCall]
      split
      · exact ⟨node,rfl,howner,Complete.partial_ h.1,.inl rfl⟩
      · exact ⟨node,rfl,howner,h,.inl rfl⟩
  | unlinking =>
    cases unlinkRefused with
    | true => exact .inl ⟨node,rfl,howner,⟨rfl,h⟩,.inr rfl⟩
    | false => exact .inr ⟨rfl,rfl⟩
  | finished result =>
    cases result with
    | error code => cases hphase
    | ok done => exact .inl ⟨node,rfl,howner,h,.inl rfl⟩

/-- A call of a process without a file creates one where there is none, or changes nothing. -/
theorem provisioningCall_opens (hphase : holdsFile phase = false) (file : Option CredentialNode) :
    ((provisioningCall p content unlinkRefused answer phase file).2 = file ∧
      holdsFile (provisioningCall p content unlinkRefused answer phase file).1 = false) ∨
    file = none ∧ ∃ node, (provisioningCall p content unlinkRefused answer phase file).2 = some node ∧
      node.owner = some p ∧
      Holds content unlinkRefused node (provisioningCall p content unlinkRefused answer phase file).1 ∧
      holdsFile (provisioningCall p content unlinkRefused answer phase file).1 = true := by
  cases phase with
  | opening =>
    simp only [provisioningCall]
    split
    · exact .inl ⟨rfl,rfl⟩
    · cases file with
      | some node => exact .inl ⟨rfl,rfl⟩
      | none =>
        have hfirst := @nextWrite_holds content unlinkRefused _ _
          (show (⟨some p,[],false,false⟩ : CredentialNode).content = content.take 0 from rfl)
        exact .inr ⟨rfl,_,rfl,rfl,hfirst⟩
  | finished result =>
    cases result with
    | error code => exact .inl ⟨rfl,rfl⟩
    | ok done => cases hphase
  | writing | flushing | closing | openingParent | flushingParent | closingParent | unlinking => cases hphase

end Call
end SpareNode.Authentication
