import SpareNode.Library.LexicalPath

/-! # Names of normal forms

The names of a normal form are what the stack of the removals holds in the end. Below a root,
a relative path can be normalised first or pushed name by name: the stack ends the same, so
the names of a joined path are the names of the base with those of the relative path pushed
onto them.
-/
namespace LexicalPath

theorem split_ne_nil (text : List UInt8) : split text ≠ [] := by
  cases text with
  | nil => simp [split]
  | cons b text =>
    rw [split]
    split
    · simp
    · split <;> simp

theorem split_append (a b : List UInt8) : split (a ++ separator :: b) = split a ++ split b := by
  induction a with
  | nil => simp [split]
  | cons x a ih =>
    rw [List.cons_append,split,split,ih]
    by_cases hx : x = separator
    · rw [if_pos hx,if_pos hx,List.cons_append]
    · rw [if_neg hx,if_neg hx]
      cases hs : split a with
      | nil => exact absurd hs (split_ne_nil a)
      | cons piece pieces => rfl

/-- A byte of a piece is a byte of the text. -/
theorem mem_of_mem_split {text piece : List UInt8} {b : UInt8} (h : piece ∈ split text)
    (hb : b ∈ piece) : b ∈ text := by
  induction text generalizing piece with
  | nil =>
    rw [List.mem_singleton.mp h] at hb
    exact hb
  | cons x text ih =>
    rw [split] at h
    split at h
    · rcases List.mem_cons.mp h with rfl | h
      · simp at hb
      · exact List.mem_cons_of_mem x (ih h hb)
    · cases hs : split text with
      | nil => exact absurd hs (split_ne_nil text)
      | cons first pieces =>
        rw [hs] at h ih
        rcases List.mem_cons.mp h with rfl | h
        · rcases List.mem_cons.mp hb with rfl | hb
          · exact List.mem_cons_self
          · exact List.mem_cons_of_mem x (ih List.mem_cons_self hb)
        · exact List.mem_cons_of_mem x (ih (List.mem_cons_of_mem first h) hb)

namespace Path

theorem ofText_names (text : List UInt8) :
    (ofText text).names = (split text).filter (fun d => !d.isEmpty) := by
  obtain ⟨init,last,hsplit⟩ : ∃ init last, split text = init ++ [last] :=
    ⟨_,_,(List.dropLast_append_getLast (split_ne_nil text)).symm⟩
  simp only [names,ofText,hsplit,List.dropLast_concat,List.getLast?_concat,Option.getD_some,
    List.filter_append]
  congr 1
  by_cases hempty : last.isEmpty <;> simp [hempty]

theorem ofText_names_append (a b : List UInt8) :
    (ofText (a ++ separator :: b)).names = (ofText a).names ++ (ofText b).names := by
  simp only [ofText_names,split_append,List.filter_append]

theorem ofText_names_plain {n : Name} (h : separator ∉ n) (hne : n ≠ []) : (ofText n).names = [n] := by
  rw [ofText_names,split_of_plain h]
  simp [hne]

section Stack
variable {p q : Path} {n : Name} {ns ds stack s : List Name}

theorem push_proper {rooted : Bool} (h : ProperName n) : push rooted stack n = n :: stack := by
  rw [push.eq_def,if_neg h.dot,if_neg h.dotDot]

theorem foldl_push_proper {rooted : Bool} (h : ∀ n ∈ ns, ProperName n) (stack : List Name) :
    ns.foldl (push rooted) stack = ns.reverse ++ stack := by
  induction ns generalizing stack with
  | nil => rfl
  | cons n ns ih =>
    rw [List.foldl_cons,push_proper (h n List.mem_cons_self),
      ih (fun x hx => h x (List.mem_cons_of_mem n hx))]
    simp

/-- The last name is closed as it would be pushed. -/
theorem close_names {rooted : Bool} {filename : Name} (hne : filename ≠ []) :
    (close rooted stack filename).1.reverse ++
        (if (close rooted stack filename).2.isEmpty then [] else [(close rooted stack filename).2]) =
      (push rooted stack filename).reverse := by
  unfold close push
  split
  · simp
  · split
    · cases stack with
      | nil => cases rooted <;> simp [dotDot]
      | cons x rest =>
        dsimp only
        split
        · simp [dotDot]
        · simp
    · simp [hne]

theorem trim_names (last : List Name × Name) :
    (trim last).1.reverse ++ (if (trim last).2.isEmpty then [] else [(trim last).2]) =
      last.1.reverse ++ (if last.2.isEmpty then [] else [last.2]) := by
  unfold trim
  split
  · split
    · rename_i hx
      simp [hx,dotDot]
    · rfl
  · rfl

/-- The stack and the filename of the normal form together are the stack of all names. -/
theorem reduced_names (p : Path) : p.reduced.1.reverse ++ (if p.reduced.2.isEmpty then [] else [p.reduced.2]) =
    (p.names.foldl (push p.rooted) []).reverse := by
  rw [reduced,trim_names]
  by_cases hf : p.filename = []
  · have hnames : p.names = p.dirs := by simp [names,hf]
    have hclose : close p.rooted (p.dirs.foldl (push p.rooted) []) p.filename =
        (p.dirs.foldl (push p.rooted) [],[]) := by rw [hf]; rfl
    rw [hclose,hnames]
    simp
  · have hnames : p.names = p.dirs ++ [p.filename] := by simp [names,hf]
    rw [close_names hf,hnames,List.foldl_append]
    rfl

theorem lexicallyNormal_names (h : p.isEmpty = false) : p.lexicallyNormal.names =
    if p.rooted = false ∧ p.names.foldl (push p.rooted) [] = [] then [dot]
    else (p.names.foldl (push p.rooted) []).reverse := by
  have hreduced := reduced_names p
  by_cases hdot : p.rooted = false ∧ p.reduced.1 = [] ∧ p.reduced.2 = []
  · obtain ⟨hrelative,hstack,hfilename⟩ := hdot
    have hnil : p.names.foldl (push p.rooted) [] = [] := by
      rw [hstack,hfilename] at hreduced
      simpa using hreduced.symm
    rw [if_pos ⟨hrelative,hnil⟩]
    simp [lexicallyNormal,h,names,hrelative,hstack,hfilename,dot]
  · have hkeep : (!p.rooted && p.reduced.1.isEmpty && p.reduced.2.isEmpty) = false := by
      simpa [and_assoc] using hdot
    have hstack : ¬(p.rooted = false ∧ p.names.foldl (push p.rooted) [] = []) := by
      rintro ⟨hrelative,hnil⟩
      rw [hnil,List.reverse_nil,List.append_eq_nil_iff,List.reverse_eq_nil_iff] at hreduced
      refine hdot ⟨hrelative,hreduced.1,?_⟩
      by_contra hne
      simp [hne] at hreduced
    rw [if_neg hstack,← hreduced]
    simp only [lexicallyNormal,h,names,hkeep,Bool.false_eq_true,↓reduceIte]

theorem push_push {d : Name} (hdots : dot ∉ stack) :
    ((push false stack d).reverse).foldl (push true) s = push true (stack.reverse.foldl (push true) s) d := by
  by_cases hdot : d = dot
  · simp [push,hdot]
  by_cases hdotDot : d = dotDot
  · subst hdotDot
    cases stack with
    | nil => rfl
    | cons x rest =>
      by_cases hx : x = dotDot
      · have hkeep : push false (x :: rest) dotDot = dotDot :: x :: rest := by simp [push,hx,hdot]
        rw [hkeep,List.reverse_cons,List.foldl_append]
        rfl
      · -- the name goes on the stack and the dot-dot takes it off again
        have hxdot : x ≠ dot := fun heq => hdots (heq ▸ List.mem_cons_self)
        have hpop : push false (x :: rest) dotDot = rest := by simp [push,hx,hdot]
        have hpop' : ∀ t, push true (push true t x) dotDot = t := by
          intro t
          simp [push,hx,hxdot,hdot]
        rw [hpop,List.reverse_cons,List.foldl_append,List.foldl_cons,List.foldl_nil,hpop']
  · have hpush : push false stack d = d :: stack := by simp [push,hdot,hdotDot]
    rw [hpush,List.reverse_cons,List.foldl_append]
    rfl

theorem dot_push {rooted : Bool} {d : Name} (hdots : dot ∉ stack) : dot ∉ push rooted stack d := by
  intro h
  exact push_forall (P := fun x => x ≠ dot) (Or.inr (by decide)) (fun hne _ => hne)
    (fun x hx heq => hdots (heq ▸ hx)) dot h rfl

/-- Reducing relative names before they are pushed below a root changes nothing. -/
theorem foldl_push_relative (s ds : List Name) (hdots : dot ∉ stack) :
    ((ds.foldl (push false) stack).reverse).foldl (push true) s =
      ds.foldl (push true) (stack.reverse.foldl (push true) s) := by
  induction ds generalizing stack with
  | nil => rfl
  | cons d ds ih => rw [List.foldl_cons,List.foldl_cons,ih (dot_push hdots),push_push hdots]

theorem foldl_push_normal (h : p.rooted = false) (hne : p.isEmpty = false) :
    p.lexicallyNormal.names.foldl (push true) s = p.names.foldl (push true) s := by
  have hrelative := @foldl_push_relative [] s p.names (by simp)
  rw [lexicallyNormal_names hne,h]
  split
  · rename_i hnil
    rw [hnil.2] at hrelative
    exact hrelative
  · exact hrelative

theorem append_names_relative (h : q.rooted = false) : (p.append q).names = p.names ++ q.names := by
  simp [append,h,names]

/-- Joined to a base of names and normalised, a relative path has its names pushed onto them. -/
theorem append_normal_names (hbase : p.rooted = true) (hproper : ∀ n ∈ p.names, ProperName n)
    (h : q.rooted = false) :
    (p.append q).lexicallyNormal.names = (q.names.foldl (push true) p.names.reverse).reverse := by
  have hrooted : (p.append q).rooted = true := (append_rooted h).trans hbase
  rw [lexicallyNormal_names (by simp [isEmpty,hrooted]),hrooted,if_neg (by simp),append_names_relative h,
    List.foldl_append,foldl_push_proper hproper,List.append_nil]

theorem lexicallyNormal_absolute (h : ∀ n ∈ ns, ProperName n) :
    (absolute ns).lexicallyNormal = absolute ns := by
  cases ns using List.reverseRecOn with
  | nil => decide
  | append_singleton ns n =>
    have hinit : ∀ x ∈ ns, ProperName x := fun x hx => h x (List.mem_append_left _ hx)
    have hn := h n (by simp)
    obtain ⟨habsolute,hnames,-⟩ := absolute_spec hinit
    obtain ⟨hrooted,hdirs,hfilename⟩ := append_plain (p := absolute ns) hn.separator
    rw [← absolute_snoc] at hrooted hdirs hfilename
    rw [habsolute] at hrooted
    rw [hnames] at hdirs
    have hreduced : (absolute (ns ++ [n])).reduced = (ns.reverse,n) := by
      have hclose : close true ns.reverse n = (ns.reverse,n) := by
        rw [close.eq_def,if_neg hn.dot,if_neg hn.dotDot]
      have hstack : dotDot ∉ ns.reverse := fun hmem => (hinit _ (List.mem_reverse.mp hmem)).dotDot rfl
      rw [reduced,hrooted,hdirs,hfilename,foldl_push_proper hinit,List.append_nil,hclose,trim_proper hstack]
    have hempty : (absolute (ns ++ [n])).isEmpty = false := by simp [isEmpty,hrooted]
    apply ext
    · simp [lexicallyNormal,hempty]
    · simp [lexicallyNormal,hempty,hreduced,hdirs]
    · simp [lexicallyNormal,hempty,hreduced,hrooted,hfilename]

/-- What is pushed onto a stack stands above a part of it. -/
theorem foldl_push_suffix (ds : List Name) (s : List Name) :
    ∃ new kept, ds.foldl (push true) s = new ++ kept ∧ kept <:+ s ∧ ∀ x ∈ new, x ∈ ds := by
  induction ds using List.reverseRecOn with
  | nil => exact ⟨[],s,rfl,List.suffix_rfl,by simp⟩
  | append_singleton ds d ih =>
    obtain ⟨new,kept,heq,hkept,hnew⟩ := ih
    have hmono : ∀ x ∈ new, x ∈ ds ++ [d] := fun x hx => List.mem_append_left _ (hnew x hx)
    rw [List.foldl_append,List.foldl_cons,List.foldl_nil,heq,push.eq_def]
    split
    · exact ⟨new,kept,rfl,hkept,hmono⟩
    · split
      · cases new with
        | nil =>
          cases kept with
          | nil => exact ⟨[],[],rfl,List.nil_suffix,by simp⟩
          | cons x kept =>
            dsimp only [List.nil_append]
            split
            · rename_i hdotDot hx
              exact ⟨[dotDot],x :: kept,rfl,hkept,by simp [hdotDot]⟩
            · exact ⟨[],kept,rfl,(List.suffix_cons x kept).trans hkept,by simp⟩
        | cons x new =>
          dsimp only [List.cons_append]
          split
          · rename_i hdotDot hx
            refine ⟨dotDot :: x :: new,kept,rfl,hkept,?_⟩
            intro y hy
            rcases List.mem_cons.mp hy with rfl | hy
            · simp [hdotDot]
            · exact hmono y hy
          · exact ⟨new,kept,rfl,hkept,fun y hy => hmono y (List.mem_cons_of_mem x hy)⟩
      · refine ⟨d :: new,kept,rfl,hkept,?_⟩
        intro y hy
        rcases List.mem_cons.mp hy with rfl | hy
        · simp
        · exact hmono y hy

end Stack
end Path
end LexicalPath
