import SpareNode.Filesystem.UploadCopy

/-! # Publication is all or nothing

Whatever the system answers to the calls of a publication, the directory ends either as it was or
with one new entry that holds the whole source; the cleanup of the stage is assumed to succeed.
-/
namespace SpareNode.Filesystem
open LexicalPath FileTree Concurrency Storage

variable {α : Type} (file : Bytes → α) (answers : PublicationAnswers)

def copies (source : TemporaryFile) (entries : DirectoryEntries α) : Bool :=
  answers.sourceRefused.isNone && answers.sourceRegular && (answers.sourceSize = source.size : Bool) &&
    (createStage file answers maximumUploadStageAttempts entries).1.toBool

/-- `publish_confined_upload` with the contents of the source and the rounds of the copy loop. There
is no result while the loop goes on. -/
def publishUpload (content : Bytes) (rounds : List CopyRound) (source : TemporaryFile) (nativeName : Name)
    (deadline : Option ℤ) (entries : DirectoryEntries α) :
    Option (Except UploadFinalizationError Unit × DirectoryEntries α) :=
  let copied := copySource content source.size deadline rounds {}
  let answersWith (result : Except UploadFinalizationError Unit) : PublicationAnswers :=
    { answers with sourceSize := content.length, copied := (result,copied.2) }
  match copied.1 with
  | some result => some (publishConfinedUpload file (answersWith result) source nativeName deadline entries)
  | none =>
    if copies file (answersWith (.ok ())) source entries then none
    else some (publishConfinedUpload file (answersWith (.ok ())) source nativeName deadline entries)

variable {file answers}
variable {entries entries' : DirectoryEntries α} {name nativeName stage : Name} {object : α} {deadline : Option ℤ}

theorem create_entry {refused : Option Errno} (h : entries.create refused name object = .ok entries') :
    entries.entry name = none ∧ entries'.entry = Function.update entries.entry name (some object) := by
  unfold DirectoryEntries.create at h
  split at h
  · cases h
  · split at h
    · cases h
    · rename_i hfree
      obtain rfl := Except.ok.inj h
      exact ⟨by simpa using hfree,rfl⟩

theorem createStage_entry {left : ℕ} (h : createStage file answers left entries = (.ok stage,entries')) :
    entries.entry stage = none ∧ entries'.entry = Function.update entries.entry stage (some (file [])) := by
  induction left with
  | zero => cases (Prod.mk.inj h).1
  | succ left ih =>
    rw [createStage] at h
    split at h
    · rename_i staged hcreate
      obtain ⟨hstage,rfl⟩ := Prod.mk.inj h
      obtain rfl := Except.ok.inj hstage
      exact create_entry hcreate
    · exact ih h
    · cases (Prod.mk.inj h).1

theorem createStage_error {left : ℕ} {e : UploadFinalizationError}
    (h : createStage file answers left entries = (.error e,entries')) : entries' = entries := by
  rcases createStage_changes h with ⟨_,-,hsame⟩ | ⟨_,hok,-⟩
  · exact hsame
  · cases hok

/-- Both links make the entry that they are asked for, and a refused one makes none. -/
theorem publishStage_entry {written : Bytes} {result : Except UploadFinalizationError Unit}
    (h : publishStage file answers written nativeName entries = (result,entries')) :
    (result = .ok () ∧ entries.entry nativeName = none ∧
        entries'.entry = Function.update entries.entry nativeName (some (file written))) ∨
      ((∃ e, result = .error e) ∧ entries' = entries) := by
  unfold publishStage at h
  split at h
  · rename_i published hcreate
    obtain ⟨rfl,rfl⟩ := Prod.mk.inj h
    exact Or.inl ⟨rfl,create_entry hcreate⟩
  · obtain ⟨rfl,rfl⟩ := Prod.mk.inj h
    exact Or.inr ⟨⟨_,rfl⟩,rfl⟩
  · split at h
    · rename_i published hcreate
      obtain ⟨rfl,rfl⟩ := Prod.mk.inj h
      exact Or.inl ⟨rfl,create_entry hcreate⟩
    · obtain ⟨rfl,rfl⟩ := Prod.mk.inj h
      exact Or.inr ⟨⟨_,rfl⟩,rfl⟩
    · obtain ⟨rfl,rfl⟩ := Prod.mk.inj h
      exact Or.inr ⟨⟨_,rfl⟩,rfl⟩

/-- The stage is filled in every case, and linked only with all that the copy loop has written. -/
theorem fillAndPublish_entry {result : Except UploadFinalizationError Unit}
    (h : fillAndPublish file answers deadline stage nativeName entries = (result,entries')) :
    (result = .ok () ∧ answers.copied.1 = .ok () ∧
        (entries.write stage (file answers.copied.2)).entry nativeName = none ∧
        entries'.entry = Function.update (entries.write stage (file answers.copied.2)).entry nativeName
          (some (file answers.copied.2))) ∨
      ((∃ e, result = .error e) ∧ entries'.entry = (entries.write stage (file answers.copied.2)).entry) := by
  have hrefused (e : UploadFinalizationError)
      (hsame : (.error e,entries.write stage (file answers.copied.2)) = (result,entries')) :
      (∃ e, result = .error e) ∧ entries'.entry = (entries.write stage (file answers.copied.2)).entry := by
    obtain ⟨rfl,rfl⟩ := Prod.mk.inj hsame
    exact ⟨⟨e,rfl⟩,rfl⟩
  unfold fillAndPublish at h
  dsimp only at h
  split at h
  · exact Or.inr (hrefused _ h)
  · rename_i hcopied
    split at h
    · exact Or.inr (hrefused _ h)
    · split at h
      · exact Or.inr (hrefused _ h)
      · split at h
        · exact Or.inr (hrefused _ h)
        · rcases publishStage_entry h with ⟨hok,hfree,hentry⟩ | ⟨herror,hsame⟩
          · exact Or.inl ⟨hok,hcopied,hfree,hentry⟩
          · exact Or.inr ⟨herror,by rw [hsame]⟩

theorem cleanUp_entry (hcleanup : answers.cleanupRefused = none) (stage : Name) (entries : DirectoryEntries α) :
    (cleanUp answers stage entries).entry = Function.update entries.entry stage none := by
  rw [cleanUp,hcleanup]
  rfl

/-- What a successful publication has made of a directory. -/
structure Published (file : Bytes → α) (content : Bytes) (nativeName : Name) (before after : DirectoryEntries α) :
    Prop where
  absent : before.entry nativeName = none
  whole : after.entry nativeName = some (file content)
  others : ∀ name, name ≠ nativeName → after.entry name = before.entry name

theorem publishConfinedUpload_entry {source : TemporaryFile} {result : Except UploadFinalizationError Unit}
    (hcleanup : answers.cleanupRefused = none)
    (h : publishConfinedUpload file answers source nativeName deadline entries = (result,entries')) :
    (result = .ok () ∧ answers.copied.1 = .ok () ∧ answers.sourceSize = source.size ∧
        copies file answers source entries = true ∧ Published file answers.copied.2 nativeName entries entries') ∨
      ((∃ e, result = .error e) ∧ entries'.entry = entries.entry) := by
  have hrefused (e : UploadFinalizationError) (hsame : (.error e,entries) = (result,entries')) :
      (∃ e, result = .error e) ∧ entries'.entry = entries.entry := by
    obtain ⟨rfl,rfl⟩ := Prod.mk.inj hsame
    exact ⟨⟨e,rfl⟩,rfl⟩
  unfold publishConfinedUpload at h
  split at h
  · exact Or.inr (hrefused _ h)
  · rename_i hopened
    split at h
    · exact Or.inr (hrefused _ h)
    · rename_i hsource
      simp only [Bool.or_eq_true,decide_eq_true_eq,not_or,Bool.not_eq_true',Bool.not_eq_false,not_not] at hsource
      obtain ⟨⟨hregular,-⟩,hsize⟩ := hsource
      split at h
      · rename_i e left hstage
        obtain rfl := createStage_error hstage
        exact Or.inr (hrefused _ h)
      · rename_i made staged hstage
        obtain ⟨hnew,hstaged⟩ := createStage_entry hstage
        have hfilled : (staged.write made (file answers.copied.2)).entry =
            Function.update entries.entry made (some (file answers.copied.2)) := by
          rw [DirectoryEntries.write,hstaged,Function.update_idem]
        -- without its own name the stage leaves nothing behind
        have hremoved : Function.update (Function.update entries.entry made (some (file answers.copied.2))) made
            none = entries.entry := by
          rw [Function.update_idem,← hnew,Function.update_eq_self]
        obtain ⟨hresult,hcleaned⟩ : (fillAndPublish file answers deadline made nativeName staged).1 = result ∧
            cleanUp answers made (fillAndPublish file answers deadline made nativeName staged).2 = entries' :=
          Prod.mk.inj h
        rw [← hresult,← hcleaned]
        rcases fillAndPublish_entry (Prod.eta _).symm with ⟨hok,hcopied,hfree,hentry⟩ | ⟨herror,hentry⟩
        · refine Or.inl ⟨hok,hcopied,hsize,?_,?_⟩
          · rw [copies,hopened,hregular,hstage,hsize]
            simp [Except.toBool]
          · rw [hfilled] at hfree hentry
            have hother : nativeName ≠ made := by
              rintro rfl
              rw [Function.update_self] at hfree
              cases hfree
            rw [Function.update_of_ne hother] at hfree
            have hafter := cleanUp_entry hcleanup made
              (fillAndPublish file answers deadline made nativeName staged).2
            rw [hentry,Function.update_comm hother _ _ (Function.update entries.entry made _),hremoved] at hafter
            exact ⟨hfree,by rw [hafter,Function.update_self],
              fun name hname => by rw [hafter,Function.update_of_ne hname]⟩
        · refine Or.inr ⟨herror,?_⟩
          rw [cleanUp_entry hcleanup,hentry,hfilled,hremoved]

/-- A publication either adds the whole source under an absent name or leaves the directory as it
was, and it comes to an end when the system does not interrupt its calls forever. -/
theorem publishUpload_all_or_nothing (file : Bytes → α) (answers : PublicationAnswers)
    (hcleanup : answers.cleanupRefused = none) (content : Bytes) (rounds : List CopyRound)
    (source : TemporaryFile) (nativeName : Name) (deadline : Option ℤ) (entries : DirectoryEntries α) :
    (∀ entries', publishUpload file answers content rounds source nativeName deadline entries =
        some (.ok (),entries') →
      content.length = source.size ∧ Published file content nativeName entries entries') ∧
    (∀ e entries', publishUpload file answers content rounds source nativeName deadline entries =
        some (.error e,entries') → entries'.entry = entries.entry) ∧
    (2 * source.size < (rounds.filter (fun round => round.answer ≠ .interrupted)).length →
      (publishUpload file answers content rounds source nativeName deadline entries).isSome = true) := by
  have hcases (result : Except UploadFinalizationError Unit) (entries' : DirectoryEntries α)
      (h : publishUpload file answers content rounds source nativeName deadline entries = some (result,entries')) :
      (result = .ok () ∧ content.length = source.size ∧ Published file content nativeName entries entries') ∨
        ((∃ e, result = .error e) ∧ entries'.entry = entries.entry) := by
    unfold publishUpload at h
    dsimp only at h
    split at h
    · rename_i copied hcopied
      rcases publishConfinedUpload_entry (by exact hcleanup) (Option.some.inj h) with ⟨hok,hwhole,hsize,-,hpublished⟩ | hrefused
      · left
        have hlength : content.length = source.size := by simpa using hsize
        obtain rfl : copied = .ok () := hwhole
        have hstage := copySource_copied rounds (Copying.start content) hlength.symm (Prod.ext hcopied rfl)
        exact ⟨hok,hlength,hstage ▸ hpublished⟩
      · exact Or.inr hrefused
    · rename_i hcopied
      split at h
      · cases h
      · rename_i hcopies
        rcases publishConfinedUpload_entry (by exact hcleanup) (Option.some.inj h) with ⟨-,-,-,hcopying,-⟩ | hrefused
        · exact absurd hcopying hcopies
        · exact Or.inr hrefused
  refine ⟨?_,?_,?_⟩
  · intro entries' h
    rcases hcases _ _ h with ⟨-,hpublished⟩ | ⟨⟨e,herror⟩,-⟩
    · exact hpublished
    · cases herror
  · intro e entries' h
    rcases hcases _ _ h with ⟨hok,-⟩ | ⟨-,hsame⟩
    · cases hok
    · exact hsame
  · intro hsteady
    have hends := @copySource_ends content source.size deadline {} rounds (by simpa [copyLeft] using hsteady)
    unfold publishUpload
    dsimp only
    split
    · rfl
    · rename_i hnone
      rw [hnone] at hends
      cases hends

/-- A system that interrupts one read and then transfers two bytes at a time. -/
def steadyAnswers : PublicationAnswers where
  lastError := .other 0
  sourceRefused := none
  sourceRegular := true
  sourceSize := 3
  suffix _ := ascii "1"
  stageRefused _ := none
  copied := (.ok (),[])
  beforeFlush := ⟨false,0⟩
  flushRefused := none
  beforePublication := ⟨false,0⟩
  linkRefused := some (.other 22)
  descriptorLinkRefused := none
  cleanupRefused := none

def shortRounds : List CopyRound :=
  ⟨⟨false,0⟩,.interrupted⟩ :: List.replicate 7 ⟨⟨false,0⟩,.transferred 2⟩

theorem publishUpload_all_or_nothing_short :
    ∃ entries', publishUpload id steadyAnswers (ascii "abc") shortRounds ⟨⟨true,[],ascii "t",nofun,by decide⟩,3,true⟩
        (ascii "f") none ⟨fun _ => none,[]⟩ = some (.ok (),entries') ∧
      Published id (ascii "abc") (ascii "f") ⟨fun _ => none,[]⟩ entries' := by
  obtain ⟨hwhole,-,-⟩ := publishUpload_all_or_nothing id steadyAnswers rfl (ascii "abc") shortRounds
    ⟨⟨true,[],ascii "t",nofun,by decide⟩,3,true⟩ (ascii "f") none ⟨fun _ => none,[]⟩
  refine ⟨_,rfl,(hwhole _ rfl).2⟩

end SpareNode.Filesystem
