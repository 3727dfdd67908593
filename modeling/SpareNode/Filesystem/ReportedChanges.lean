import SpareNode.Filesystem.EntryMutations

/-! # Results and changes

An operation that reports success has made its change, and one that reports a failure has changed nothing but
reserved names. For a directory or a removal the change is a single one.
-/
namespace SpareNode.Filesystem
open LexicalPath FileTree Concurrency Storage

variable {fs : Tree} {root : SharedRoot} {request : Bytes}

section Uploads
variable {α : Type} {file : Bytes → α} {answers : PublicationAnswers} {entries entries' : DirectoryEntries α}
variable {nativeName : Name} {deadline : Option ℤ}

def OnlyReserved (changes : List EntryChange) : Prop := ∀ change ∈ changes, isUploadStageComponent change.name = true

theorem cleanUp_created {stage : Name} (h : .created nativeName ∈ entries.changes) :
    .created nativeName ∈ (cleanUp answers stage entries).changes := by
  unfold cleanUp
  split
  · exact h
  · exact List.mem_append_left _ h

theorem cleanUp_reserved {stage : Name} (hstage : isUploadStageComponent stage = true)
    (h : OnlyReserved entries.changes) : OnlyReserved (cleanUp answers stage entries).changes := by
  unfold cleanUp
  split
  · exact h
  · intro change hchange
    rcases List.mem_append.mp hchange with hchange | hchange
    · exact h change hchange
    · rw [List.mem_singleton.mp hchange]
      exact hstage

theorem publishConfinedUpload_result {source : TemporaryFile} {result : Except UploadFinalizationError Unit}
    (hnone : entries.changes = [])
    (h : publishConfinedUpload file answers source nativeName deadline entries = (result,entries')) :
    (result = .ok () ∧ .created nativeName ∈ entries'.changes) ∨
      ((∃ e, result = .error e) ∧ OnlyReserved entries'.changes) := by
  have hnothing : OnlyReserved entries.changes := by simp [hnone,OnlyReserved]
  unfold publishConfinedUpload at h
  split at h
  · obtain ⟨rfl,rfl⟩ := Prod.mk.inj h
    exact Or.inr ⟨⟨_,rfl⟩,hnothing⟩
  · split at h
    · obtain ⟨rfl,rfl⟩ := Prod.mk.inj h
      exact Or.inr ⟨⟨_,rfl⟩,hnothing⟩
    · split at h
      · rename_i e left hstage
        obtain ⟨rfl,rfl⟩ := Prod.mk.inj h
        rcases createStage_changes hstage with ⟨_,-,rfl⟩ | ⟨_,hok,-⟩
        · exact Or.inr ⟨⟨_,rfl⟩,hnothing⟩
        · cases hok
      · rename_i stage staged hstage
        rcases createStage_changes hstage with ⟨_,herror,-⟩ | ⟨made,hok,hreserved,hstaged⟩
        · cases herror
        · cases hok
          obtain ⟨hresult,hcleaned⟩ : (fillAndPublish file answers deadline stage nativeName staged).1 = result ∧
              cleanUp answers stage (fillAndPublish file answers deadline stage nativeName staged).2 = entries' :=
            Prod.mk.inj h
          rw [← hresult,← hcleaned]
          rcases fillAndPublish_changes (Prod.eta _).symm with ⟨herror,hsame⟩ | ⟨hdone,hmore⟩
          · refine Or.inr ⟨herror,cleanUp_reserved hreserved ?_⟩
            rw [hsame,hstaged,hnone]
            intro change hchange
            rw [List.mem_singleton.mp hchange]
            exact hreserved
          · refine Or.inl ⟨hdone,cleanUp_created ?_⟩
            rw [hmore]
            exact List.mem_append_right _ List.mem_cons_self

end Uploads

theorem mutationsOf_reserved {handle : DirectoryHandle fs} {entries : DirectoryEntries Kind}
    (h : OnlyReserved entries.changes) :
    ∀ m ∈ mutationsOf handle entries, isUploadStageComponent m.change.name = true :=
  fun m hm => h m.change (mem_mutationsOf.mp hm).2

/-- The last name of a safe path below the root is not reserved. -/
theorem destination_unreserved {safe : SafePath} (h : SafePath.resolve fs root request = .ok safe)
    (hvalid : invalidDestination root safe.path = false) : isUploadStageComponent safe.path.filename = false := by
  obtain ⟨text,met,missing,E,-,-,hlocated⟩ := resolve_located h
  have hrooted : safe.path.rooted = true := by
    rw [hlocated.path]
    exact (Path.absolute_spec hlocated.pathProper).1
  obtain ⟨hsplit,-⟩ := destination_cases hrooted hlocated.pathNames hlocated.pathProper hvalid
  obtain ⟨rest,hrest⟩ : root.names <+: E ++ missing := hlocated.within.trans (List.prefix_append _ _)
  have hproper : ∀ x ∈ rest, ProperName x := by
    intro x hx
    apply hlocated.pathProper x
    rw [← hrest]
    exact List.mem_append_right _ hx
  have hrelative : (safe.path.lexicallyRelative root.path).elements.filter
      (fun component => !component.isEmpty && decide (component ≠ dot)) = rest := by
    have hnames := Path.lexicallyRelative_names hrooted (hlocated.pathNames.trans hrest.symm) root.proper hproper
    rwa [SharedRoot.names,← root.absolute] at hnames
  have hlast : safe.path.filename ∈ rest := by
    cases rest using List.reverseRecOn with
    | nil =>
      -- the root itself is no destination
      rw [List.append_nil] at hrest
      have hsame : safe.path = root.path := by
        rw [hlocated.path,← hrest,SharedRoot.names,← root.absolute]
      simp [invalidDestination,hsame] at hvalid
    | append_singleton rest last =>
      rw [← hrest,← List.append_assoc] at hsplit
      obtain ⟨-,hlast⟩ := List.append_inj' hsplit rfl
      rw [← List.singleton_inj.mp hlast]
      exact List.mem_append_right _ List.mem_cons_self
  rw [← hrelative] at hlast
  exact hlocated.unstaged _ (List.mem_filter.mp hlast).1

/-- An upload has created its destination, and then only memory keeps it from success, or it has failed and changed
reserved names only. -/
theorem finalizeUpload_result (fs : Tree) (root : SharedRoot) (request : Bytes) (source : TemporaryFile)
    (deadline : Option ℤ) (atEntry : Moment) (answers : PublicationAnswers) (exhausted : Bool) :
    (∃ safe m mutations, finalizeUpload fs root request source deadline atEntry answers exhausted =
        (if exhausted then .error ⟨.resourceFailure,none,none⟩ else .ok safe.path,mutations) ∧
      SafePath.resolve fs root request = .ok safe ∧ m ∈ mutations ∧ m.change = .created safe.path.filename ∧
      m.names = safe.path.names ∧ isUploadStageComponent safe.path.filename = false) ∨
    (∃ e mutations, finalizeUpload fs root request source deadline atEntry answers exhausted = (.error e,mutations) ∧
      ∀ m ∈ mutations, isUploadStageComponent m.change.name = true) := by
  unfold finalizeUpload
  split
  · exact Or.inr ⟨_,_,rfl,by simp⟩
  · split
    · exact Or.inr ⟨_,_,rfl,by simp⟩
    · split
      · exact Or.inr ⟨_,_,rfl,by simp⟩
      · rename_i safe hsafe
        dsimp only
        split
        · exact Or.inr ⟨_,_,rfl,by simp⟩
        · rename_i hvalid
          split
          · exact Or.inr ⟨_,_,rfl,by simp⟩
          · rename_i parent hopen
            have hvalid : invalidDestination root safe.path = false := by simpa using hvalid
            obtain ⟨hnames,-⟩ := destination_opened hsafe hvalid hopen
            split
            · rename_i e entries hpublish
              rcases publishConfinedUpload_result rfl hpublish with ⟨hok,-⟩ | ⟨-,hreserved⟩
              · cases hok
              · exact Or.inr ⟨_,_,rfl,mutationsOf_reserved hreserved⟩
            · rename_i entries hpublish
              rcases publishConfinedUpload_result rfl hpublish with ⟨-,hcreated⟩ | ⟨⟨e,herror⟩,-⟩
              · exact Or.inl ⟨safe,⟨parent.directory.names,.created safe.path.filename⟩,_,rfl,hsafe,
                  mem_mutationsOf.mpr ⟨rfl,hcreated⟩,rfl,hnames.symm,destination_unreserved hsafe hvalid⟩
              · cases herror

theorem createConfinedDirectory_result {refused : Option Errno} {entries entries' : DirectoryEntries Kind} {n : Name}
    {result : Except DirectoryCreationError Unit} (hnone : entries.changes = [])
    (h : createConfinedDirectory refused n entries = (result,entries')) :
    (result = .ok () ∧ entries'.changes = [.created n]) ∨ ((∃ e, result = .error e) ∧ entries'.changes = []) := by
  unfold createConfinedDirectory at h
  split at h
  · obtain ⟨rfl,rfl⟩ := Prod.mk.inj h
    exact Or.inr ⟨⟨_,rfl⟩,hnone⟩
  · split at h
    · obtain ⟨rfl,rfl⟩ := Prod.mk.inj h
      exact Or.inr ⟨⟨_,rfl⟩,hnone⟩
    · rename_i created hcreate
      obtain ⟨rfl,rfl⟩ := Prod.mk.inj h
      refine Or.inl ⟨rfl,?_⟩
      rw [create_changes hcreate,hnone]
      rfl

/-- A directory is created at the safe path of its request, and then only memory keeps the call from success, or
nothing changes. -/
theorem createDirectory_result (fs : Tree) (root : SharedRoot) (request : Bytes) (refused : Option Errno)
    (exhausted : Bool) :
    (∃ safe m, createDirectory fs root request refused exhausted =
        (if exhausted then .error ⟨.resourceFailure,none,none⟩ else .ok safe.path,[m]) ∧
      SafePath.resolve fs root request = .ok safe ∧ m.change = .created safe.path.filename ∧
      m.names = safe.path.names) ∨
    (∃ e, createDirectory fs root request refused exhausted = (.error e,[])) := by
  unfold createDirectory
  split
  · exact Or.inr ⟨_,rfl⟩
  · rename_i safe hsafe
    dsimp only
    split
    · exact Or.inr ⟨_,rfl⟩
    · rename_i hvalid
      split
      · exact Or.inr ⟨_,rfl⟩
      · rename_i parent hopen
        obtain ⟨hnames,-⟩ := destination_opened hsafe (by simpa using hvalid) hopen
        split
        · rename_i e entries hcreate
          rcases createConfinedDirectory_result rfl hcreate with ⟨hok,-⟩ | ⟨-,hnone⟩
          · cases hok
          · refine Or.inr ⟨e,?_⟩
            rw [mutationsOf,hnone]
            rfl
        · rename_i entries hcreate
          rcases createConfinedDirectory_result rfl hcreate with ⟨-,hone⟩ | ⟨⟨e,herror⟩,-⟩
          · refine Or.inl ⟨safe,⟨parent.directory.names,.created safe.path.filename⟩,?_,hsafe,rfl,hnames.symm⟩
            rw [mutationsOf,hone]
            rfl
          · cases herror

theorem removeConfinedEntry_result {answers : RemovalAnswers} {entries entries' : DirectoryEntries Kind} {n : Name}
    {result : Except FilesystemEntryRemovalError Unit} (hnone : entries.changes = [])
    (h : removeConfinedEntry answers n entries = (result,entries')) :
    (result = .ok () ∧ entries'.changes = [.unlinked n]) ∨ ((∃ e, result = .error e) ∧ entries'.changes = []) := by
  have herased : (entries.erase n).changes = [.unlinked n] := by
    rw [DirectoryEntries.erase,hnone]
    rfl
  unfold removeConfinedEntry at h
  split at h
  · obtain ⟨rfl,rfl⟩ := Prod.mk.inj h
    exact Or.inr ⟨⟨_,rfl⟩,hnone⟩
  · split at h
    · obtain ⟨rfl,rfl⟩ := Prod.mk.inj h
      exact Or.inr ⟨⟨_,rfl⟩,hnone⟩
    · split at h
      · rename_i removed hunlink
        obtain ⟨rfl,rfl⟩ := Prod.mk.inj h
        obtain ⟨-,rfl⟩ := unlink_ok hunlink
        exact Or.inl ⟨rfl,herased⟩
      · split at h
        · rename_i removed hunlink
          obtain ⟨rfl,rfl⟩ := Prod.mk.inj h
          obtain ⟨-,rfl⟩ := unlinkDirectory_ok hunlink
          exact Or.inl ⟨rfl,herased⟩
        · obtain ⟨rfl,rfl⟩ := Prod.mk.inj h
          exact Or.inr ⟨⟨_,rfl⟩,hnone⟩
      · obtain ⟨rfl,rfl⟩ := Prod.mk.inj h
        exact Or.inr ⟨⟨_,rfl⟩,hnone⟩

theorem removeFilesystemEntry_result (fs : Tree) (root : SharedRoot) (request : Bytes) (answers : RemovalAnswers) :
    (∃ m, removeFilesystemEntry fs root request answers = (.ok (),[m]) ∧
      m.change = .unlinked (lexicalDestination root request).filename) ∨
    (∃ e, removeFilesystemEntry fs root request answers = (.error e,[])) := by
  unfold removeFilesystemEntry
  split
  · exact Or.inr ⟨_,rfl⟩
  · dsimp only
    split
    · exact Or.inr ⟨_,rfl⟩
    · split
      · exact Or.inr ⟨_,rfl⟩
      · rename_i parent hopen
        split
        · rename_i e entries hremove
          rcases removeConfinedEntry_result rfl hremove with ⟨hok,-⟩ | ⟨-,hnone⟩
          · cases hok
          · refine Or.inr ⟨e,?_⟩
            rw [mutationsOf,hnone]
            rfl
        · rename_i entries hremove
          rcases removeConfinedEntry_result rfl hremove with ⟨-,hone⟩ | ⟨⟨e,herror⟩,-⟩
          · refine Or.inl ⟨⟨parent.directory.names,.unlinked (lexicalDestination root request).filename⟩,?_,rfl⟩
            rw [mutationsOf,hone]
            rfl
          · cases herror

end SpareNode.Filesystem
