import Mathlib.Data.List.Basic
import Mathlib.Tactic

/-! # Lexical paths

POSIX paths and the lexical operations that the C++ standard defines on them. A path is a
root marker, the names that a separator follows, and the filename after the last separator,
which is empty when the path ends in a separator. Normalisation is the standard's sequence of
removals, carried out on a stack: dots go, a name goes with the dot-dot after it, dot-dots
directly below the root go.
-/
namespace LexicalPath

abbrev Name := List UInt8

def dot : Name := [0x2E]
def dotDot : Name := [0x2E,0x2E]
def separator : UInt8 := 0x2F

/-- A name that denotes an entry of a directory. -/
structure ProperName (n : Name) : Prop where
  nonempty : n ≠ []
  dot : n ≠ LexicalPath.dot
  dotDot : n ≠ LexicalPath.dotDot
  separator : LexicalPath.separator ∉ n

def split : List UInt8 → List Name
  | [] => [[]]
  | b :: rest =>
    if b = separator then [] :: split rest
    else
      match split rest with
      | [] => [[b]]
      | piece :: pieces => (b :: piece) :: pieces

theorem split_separator (text : List UInt8) : ∀ piece ∈ split text, separator ∉ piece := by
  induction text with
  | nil => simp [split]
  | cons b text ih =>
    intro piece hpiece
    rw [split] at hpiece
    split at hpiece
    · rcases List.mem_cons.mp hpiece with rfl | hpiece
      · simp
      · exact ih piece hpiece
    · rename_i hb
      cases hs : split text with
      | nil =>
        rw [hs] at hpiece
        rw [List.mem_singleton.mp hpiece]
        simpa using Ne.symm hb
      | cons x xs =>
        rw [hs] at hpiece ih
        rcases List.mem_cons.mp hpiece with rfl | hpiece
        · have hx := ih x List.mem_cons_self
          simp [hx,Ne.symm hb]
        · exact ih piece (List.mem_cons_of_mem x hpiece)

theorem split_of_plain {n : Name} (h : separator ∉ n) : split n = [n] := by
  induction n with
  | nil => rfl
  | cons b n ih =>
    have hb : b ≠ separator := fun hb => h (hb ▸ List.mem_cons_self)
    rw [split,if_neg hb,ih (fun hn => h (List.mem_cons_of_mem b hn))]

structure Path where
  rooted : Bool
  dirs : List Name
  filename : Name
  nonempty : ∀ d ∈ dirs, d ≠ []
  plain : ∀ d ∈ filename :: dirs, separator ∉ d
deriving DecidableEq

namespace Path

def ofText (text : List UInt8) : Path where
  rooted := text.head? = some separator
  dirs := (split text).dropLast.filter (fun d => !d.isEmpty)
  filename := (split text).getLast?.getD []
  nonempty := by
    intro d hd
    simpa using (List.mem_filter.mp hd).2
  plain := by
    intro d hd
    rcases List.mem_cons.mp hd with rfl | hd
    · cases hl : (split text).getLast? with
      | none => simp
      | some x => exact split_separator text x (List.mem_of_getLast? hl)
    · exact split_separator text d (List.mem_of_mem_dropLast (List.mem_filter.mp hd).1)

def isEmpty (p : Path) : Bool := !p.rooted && p.dirs.isEmpty && p.filename.isEmpty

/-- The elements that iteration visits: the root directory, the names, and an empty last
element after a trailing separator. -/
def elements (p : Path) : List Name :=
  (if p.rooted then [[separator]] else []) ++ p.dirs ++
    (if p.filename.isEmpty then (if p.dirs.isEmpty then [] else [[]]) else [p.filename])

/-- The names of a path, without the root and a trailing separator. -/
def names (p : Path) : List Name := p.dirs ++ if p.filename.isEmpty then [] else [p.filename]

theorem names_nonempty (p : Path) : ∀ n ∈ p.names, n ≠ [] := by
  intro n hn
  unfold names at hn
  rcases List.mem_append.mp hn with hn | hn
  · exact p.nonempty n hn
  · split at hn
    · simp at hn
    · rename_i hne
      rw [List.mem_singleton.mp hn]
      simpa using hne

theorem names_plain (p : Path) : ∀ n ∈ p.names, separator ∉ n := by
  intro n hn
  unfold names at hn
  rcases List.mem_append.mp hn with hn | hn
  · exact p.plain n (List.mem_cons_of_mem _ hn)
  · split at hn
    · simp at hn
    · rw [List.mem_singleton.mp hn]
      exact p.plain _ List.mem_cons_self

/-- `operator/`. -/
def append (a b : Path) : Path :=
  if b.rooted then b else
    { rooted := a.rooted
      dirs := a.names ++ b.dirs
      filename := b.filename
      nonempty := by
        intro d hd
        rcases List.mem_append.mp hd with hd | hd
        · exact a.names_nonempty d hd
        · exact b.nonempty d hd
      plain := by
        intro d hd
        rcases List.mem_cons.mp hd with rfl | hd
        · exact b.plain _ List.mem_cons_self
        · rcases List.mem_append.mp hd with hd | hd
          · exact a.names_plain d hd
          · exact b.plain d (List.mem_cons_of_mem _ hd) }

def parentPath (p : Path) : Path where
  rooted := p.rooted
  dirs := p.dirs.dropLast
  filename := p.dirs.getLast?.getD []
  nonempty := fun d hd => p.nonempty d (List.mem_of_mem_dropLast hd)
  plain := by
    intro d hd
    rcases List.mem_cons.mp hd with rfl | hd
    · cases hl : p.dirs.getLast? with
      | none => simp
      | some x => exact p.plain x (List.mem_cons_of_mem _ (List.mem_of_getLast? hl))
    · exact p.plain d (List.mem_cons_of_mem _ (List.mem_of_mem_dropLast hd))

/-- One name followed by a separator, on the stack of the names before it. -/
def push (rooted : Bool) (stack : List Name) (d : Name) : List Name :=
  if d = dot then stack
  else if d = dotDot then
    match stack with
    | [] => if rooted then [] else [dotDot]
    | x :: rest => if x = dotDot then dotDot :: stack else rest
  else d :: stack

/-- The stack and the filename once the last name is known. -/
def close (rooted : Bool) (stack : List Name) (filename : Name) : List Name × Name :=
  if filename = dot then (stack,[])
  else if filename = dotDot then
    match stack with
    | [] => if rooted then ([],[]) else ([],dotDot)
    | x :: rest => if x = dotDot then (stack,dotDot) else (rest,[])
  else (stack,filename)

def trim : List Name × Name → List Name × Name
  | (x :: rest,[]) => if x = dotDot then (rest,dotDot) else (x :: rest,[])
  | (stack,filename) => (stack,filename)

theorem push_forall {P : Name → Prop} {rooted : Bool} {stack : List Name} {d : Name}
    (hdots : rooted = true ∨ P dotDot) (hd : d ≠ dot → d ≠ dotDot → P d)
    (h : ∀ x ∈ stack, P x) : ∀ x ∈ push rooted stack d, P x := by
  intro x hx
  unfold push at hx
  split at hx
  · exact h x hx
  · rename_i hdot
    split at hx
    · split at hx
      · split at hx
        · simp at hx
        · rename_i hroot
          rw [List.mem_singleton.mp hx]
          exact hdots.resolve_left hroot
      · split at hx
        · rename_i y rest hy
          rcases List.mem_cons.mp hx with rfl | hx
          · exact hy ▸ h y List.mem_cons_self
          · exact h x hx
        · exact h x (List.mem_cons_of_mem _ hx)
    · rename_i hdotDot
      rcases List.mem_cons.mp hx with rfl | hx
      · exact hd hdot hdotDot
      · exact h x hx

/-- What holds of the names of a path holds of the names of its normal form. -/
theorem foldl_push_forall {P : Name → Prop} {rooted : Bool} (hdots : rooted = true ∨ P dotDot)
    (dirs : List Name) (hd : ∀ d ∈ dirs, d ≠ dot → d ≠ dotDot → P d) :
    ∀ stack : List Name, (∀ x ∈ stack, P x) → ∀ x ∈ dirs.foldl (push rooted) stack, P x := by
  induction dirs with
  | nil => exact fun _ h => h
  | cons d dirs ih =>
    intro stack h
    exact ih (fun x hx => hd x (List.mem_cons_of_mem d hx)) _
      (push_forall hdots (hd d List.mem_cons_self) h)

theorem close_subset (rooted : Bool) (stack : List Name) (filename : Name) :
    ∀ x ∈ (close rooted stack filename).1, x ∈ stack := by
  intro x hx
  unfold close at hx
  repeat' split at hx
  all_goals simp_all

theorem close_filename (rooted : Bool) (stack : List Name) (filename : Name) :
    (close rooted stack filename).2 = [] ∨ (close rooted stack filename).2 = dotDot ∨
      (close rooted stack filename).2 = filename := by
  unfold close
  repeat' split
  all_goals simp

theorem trim_subset (last : List Name × Name) : ∀ x ∈ (trim last).1, x ∈ last.1 := by
  intro x hx
  unfold trim at hx
  repeat' split at hx
  all_goals simp_all

theorem trim_filename (last : List Name × Name) :
    (trim last).2 = dotDot ∨ (trim last).2 = last.2 := by
  unfold trim
  repeat' split
  all_goals simp

/-- The stack and filename of the normal form, before an empty path becomes a dot. -/
def reduced (p : Path) : List Name × Name :=
  trim (close p.rooted (p.dirs.foldl (push p.rooted) []) p.filename)

theorem reduced_forall {P : Name → Prop} (p : Path) (hdots : p.rooted = true ∨ P dotDot)
    (hd : ∀ d ∈ p.dirs, d ≠ dot → d ≠ dotDot → P d) : ∀ x ∈ p.reduced.1, P x := by
  intro x hx
  exact foldl_push_forall hdots p.dirs hd [] (by simp) x (close_subset _ _ _ x (trim_subset _ x hx))

theorem reduced_filename (p : Path) :
    p.reduced.2 = [] ∨ p.reduced.2 = dotDot ∨ p.reduced.2 = p.filename := by
  unfold reduced
  rcases trim_filename (close p.rooted (p.dirs.foldl (push p.rooted) []) p.filename) with h | h
  · exact Or.inr (Or.inl h)
  · rw [h]
    exact close_filename _ _ _

def lexicallyNormal (p : Path) : Path :=
  if p.isEmpty then p else
    { rooted := p.rooted
      dirs := p.reduced.1.reverse
      filename := if !p.rooted && p.reduced.1.isEmpty && p.reduced.2.isEmpty then dot else p.reduced.2
      nonempty := by
        intro d hd
        exact p.reduced_forall (Or.inr (by decide)) (fun d hd _ _ => p.nonempty d hd) d
          (List.mem_reverse.mp hd)
      plain := by
        intro d hd
        rcases List.mem_cons.mp hd with rfl | hd
        · split
          · decide
          · rcases p.reduced_filename with h | h | h
            · simp [h]
            · rw [h]
              decide
            · rw [h]
              exact p.plain _ List.mem_cons_self
        · exact p.reduced_forall (Or.inr (by decide))
            (fun d hd _ _ => p.plain d (List.mem_cons_of_mem _ hd)) d (List.mem_reverse.mp hd) }

/-- What is left of two lists of elements after their common beginning. -/
def mismatch : List Name → List Name → List Name × List Name
  | a :: as, b :: bs => if a = b then mismatch as bs else (a :: as,b :: bs)
  | as, bs => (as,bs)

/-- The directories that lead back out of the rest of the base. -/
def ascents (base : List Name) : ℤ :=
  (base.filter (fun n => !n.isEmpty && n ≠ dot && n ≠ dotDot)).length -
    (base.filter (fun n => n = dotDot)).length

def lexicallyRelative (p base : Path) : Path :=
  if p.rooted ≠ base.rooted then ofText [] else
    match mismatch p.elements base.elements with
    | ([],[]) => ofText dot
    | (rest,baseRest) =>
      if ascents baseRest < 0 then ofText []
      else if ascents baseRest = 0 && (rest.head?.getD []).isEmpty then ofText dot
      else (List.replicate (ascents baseRest).toNat dotDot ++ rest).foldl
        (fun path element => path.append (ofText element)) (ofText [])

def absolute (ns : List Name) : Path :=
  ns.foldl (fun path n => path.append (ofText n)) (ofText [separator])

section Names
variable {p q : Path} {n : Name} {ns ms : List Name}

@[ext] theorem ext (hrooted : p.rooted = q.rooted) (hdirs : p.dirs = q.dirs)
    (hfilename : p.filename = q.filename) : p = q := by
  cases p
  cases q
  simp_all

theorem ofText_plain (h : separator ∉ n) :
    (ofText n).rooted = false ∧ (ofText n).dirs = [] ∧ (ofText n).filename = n := by
  refine ⟨?_,?_,?_⟩
  · cases n with
    | nil => rfl
    | cons b n => simpa [ofText] using fun hb : b = separator => h (hb ▸ List.mem_cons_self)
  · simp [ofText,split_of_plain h]
  · simp [ofText,split_of_plain h]

theorem append_plain (h : separator ∉ n) : (p.append (ofText n)).rooted = p.rooted ∧
    (p.append (ofText n)).dirs = p.names ∧ (p.append (ofText n)).filename = n := by
  obtain ⟨hrooted,hdirs,hfilename⟩ := ofText_plain h
  simp [append,hrooted,hdirs,hfilename]

theorem absolute_snoc : absolute (ns ++ [n]) = (absolute ns).append (ofText n) := by
  simp [absolute]

theorem append_names (h : ProperName n) : (p.append (ofText n)).names = p.names ++ [n] := by
  obtain ⟨-,hdirs,hfilename⟩ := append_plain (p := p) h.separator
  have hne := h.nonempty
  simp [names,hdirs,hfilename,hne]

theorem foldl_append_spec (p : Path) (h : ∀ n ∈ ns, ProperName n) :
    (ns.foldl (fun path n => path.append (ofText n)) p).rooted = p.rooted ∧
    (ns.foldl (fun path n => path.append (ofText n)) p).names = p.names ++ ns ∧
    (ns ≠ [] → (ns.foldl (fun path n => path.append (ofText n)) p).filename ≠ []) := by
  induction ns using List.reverseRecOn with
  | nil => exact ⟨rfl,(List.append_nil _).symm,fun hne => absurd rfl hne⟩
  | append_singleton ns n ih =>
    have hn := h n (by simp)
    obtain ⟨hrooted,hnames,-⟩ := ih (fun x hx => h x (List.mem_append_left _ hx))
    rw [List.foldl_append,List.foldl_cons,List.foldl_nil]
    obtain ⟨hr,-,hf⟩ := append_plain (p := ns.foldl (fun path n => path.append (ofText n)) p) hn.separator
    rw [append_names hn,hnames,hr,hf,List.append_assoc]
    exact ⟨hrooted,rfl,fun _ => hn.nonempty⟩

theorem absolute_spec (h : ∀ n ∈ ns, ProperName n) : (absolute ns).rooted = true ∧
    (absolute ns).names = ns ∧ ((absolute ns).filename = [] → ns = []) := by
  obtain ⟨hrooted,hnames,hfilename⟩ := foldl_append_spec (ofText [separator]) h
  refine ⟨hrooted.trans (by decide),hnames,?_⟩
  intro hnil
  by_contra hne
  exact hfilename hne hnil

/-- Iteration of an absolute path visits the root and its names. -/
theorem absolute_elements (h : ∀ n ∈ ns, ProperName n) :
    (absolute ns).elements = [separator] :: ns := by
  obtain ⟨hrooted,hnames,hfilename⟩ := absolute_spec h
  cases hf : (absolute ns).filename with
  | nil =>
    have hns := hfilename hf
    subst hns
    decide
  | cons b f =>
    simp only [names,hf,List.isEmpty_cons,Bool.false_eq_true,↓reduceIte] at hnames
    simp [elements,hrooted,hf,hnames]

/-- Iteration of a rooted path visits the root, the names and perhaps a last empty element. -/
theorem elements_rooted (h : p.rooted = true) : p.elements = [separator] :: p.names ∨
    p.elements = [separator] :: p.names ++ [[]] := by
  unfold elements names
  rw [h]
  by_cases hf : p.filename.isEmpty
  · by_cases hd : p.dirs.isEmpty
    · simp [hf,hd]
    · simp [hf,hd]
  · simp [hf]

theorem parentPath_length (h : p.parentPath ≠ p) : p.parentPath.elements.length < p.elements.length := by
  cases hdirs : p.dirs using List.reverseRecOn with
  | nil =>
    have hfilename : p.filename ≠ [] := by
      intro hnil
      exact h (ext rfl (by simp [parentPath,hdirs]) (by simp [parentPath,hdirs,hnil]))
    simp [elements,parentPath,hdirs,hfilename]
  | append_singleton ds d =>
    have hd : d ≠ [] := p.nonempty d (by simp [hdirs])
    by_cases hfilename : p.filename = []
    · simp [elements,parentPath,hdirs,hfilename,hd]
    · simp [elements,parentPath,hdirs,hfilename,hd]

/-- The parent of a rooted path is the path of the names before its filename. -/
theorem parentPath_eq_absolute (hrooted : p.rooted = true) (hdirs : p.dirs = ns)
    (hns : ∀ n ∈ ns, ProperName n) : p.parentPath = absolute ns := by
  cases ns using List.reverseRecOn with
  | nil => exact ext hrooted (by simp [parentPath,hdirs,absolute,ofText,split]) (by simp [parentPath,hdirs]; rfl)
  | append_singleton ns n =>
    have hinit : ∀ x ∈ ns, ProperName x := fun x hx => hns x (List.mem_append_left _ hx)
    obtain ⟨hr,hd,hf⟩ := append_plain (p := absolute ns) (hns n (by simp)).separator
    obtain ⟨habsolute,hnames,-⟩ := absolute_spec hinit
    rw [absolute_snoc]
    apply ext
    · rw [hr,habsolute]
      exact hrooted
    · simp [parentPath,hdirs,hd,hnames]
    · simp [parentPath,hdirs,hf]

theorem append_rooted (h : q.rooted = false) : (p.append q).rooted = p.rooted := by
  simp [append,h]

theorem close_proper {stack : List Name} (filename : Name) (hstack : dotDot ∉ stack) :
    (close true stack filename).2 = [] ∨
      (close true stack filename).2 = filename ∧ filename ≠ dot ∧ filename ≠ dotDot := by
  unfold close
  split
  · exact Or.inl rfl
  · rename_i hdot
    split
    · split
      · exact Or.inl rfl
      · split
        · rename_i x rest hx
          exact absurd (hx ▸ List.mem_cons_self) hstack
        · exact Or.inl rfl
    · rename_i hdotDot
      exact Or.inr ⟨rfl,hdot,hdotDot⟩

theorem trim_proper {last : List Name × Name} (h : dotDot ∉ last.1) : trim last = last := by
  unfold trim
  split
  · rename_i x rest
    split
    · rename_i hx
      exact absurd (hx ▸ List.mem_cons_self) h
    · rfl
  · rfl

theorem lexicallyNormal_proper (h : p.rooted = true) : p.lexicallyNormal.rooted = true ∧
    ∀ n ∈ p.lexicallyNormal.names, ProperName n := by
  have hempty : p.isEmpty = false := by simp [isEmpty,h]
  have hdirs : ∀ x ∈ p.reduced.1, ProperName x := by
    refine p.reduced_forall (Or.inl h) ?_
    intro d hd hdot hdotDot
    exact ⟨p.nonempty d hd,hdot,hdotDot,p.plain d (List.mem_cons_of_mem _ hd)⟩
  have hstack : dotDot ∉ p.dirs.foldl (push p.rooted) [] := by
    intro hmem
    have hne := foldl_push_forall (P := fun x => x ≠ dotDot) (Or.inl h) p.dirs
      (fun _ _ _ hne => hne) [] (by simp) dotDot hmem
    exact hne rfl
  have hfilename : p.reduced.2 = [] ∨ ProperName p.reduced.2 := by
    have hclosed : dotDot ∉ (close p.rooted (p.dirs.foldl (push p.rooted) []) p.filename).1 :=
      fun hmem => hstack (close_subset _ _ _ _ hmem)
    rw [reduced,trim_proper hclosed,h] at *
    rcases close_proper p.filename hstack with hnil | ⟨heq,hdot,hdotDot⟩
    · exact Or.inl hnil
    · by_cases hnil : p.filename = []
      · exact Or.inl (heq.trans hnil)
      · rw [heq]
        exact Or.inr ⟨hnil,hdot,hdotDot,p.plain _ List.mem_cons_self⟩
  have hnormal : p.lexicallyNormal.rooted = true ∧ p.lexicallyNormal.dirs = p.reduced.1.reverse ∧
      p.lexicallyNormal.filename = p.reduced.2 := by
    simp [lexicallyNormal,hempty,h]
  refine ⟨hnormal.1,?_⟩
  intro n hn
  rw [names,hnormal.2.1,hnormal.2.2] at hn
  rcases List.mem_append.mp hn with hn | hn
  · exact hdirs n (List.mem_reverse.mp hn)
  · split at hn
    · simp at hn
    · rename_i hne
      rw [List.mem_singleton.mp hn]
      exact hfilename.resolve_left (by simpa using hne)

theorem mismatch_append (as bs : List Name) : mismatch (as ++ bs) as = (bs,[]) := by
  induction as with
  | nil => cases bs <;> rfl
  | cons a as ih =>
    rw [List.cons_append,mismatch,if_pos rfl]
    exact ih

theorem lexicallyRelative_self (p : Path) : p.lexicallyRelative p = ofText dot := by
  have hmismatch := mismatch_append p.elements []
  rw [List.append_nil] at hmismatch
  rw [lexicallyRelative,if_neg (by simp),hmismatch]

/-- The elements that name entries, as opposed to a trailing separator or a dot. -/
def isEntry (element : Name) : Bool := !element.isEmpty && element ≠ dot

theorem filter_isEntry (h : ∀ n ∈ ns, ProperName n) : ns.filter isEntry = ns := by
  rw [List.filter_eq_self]
  intro n hn
  obtain ⟨hne,hdot,-,-⟩ := h n hn
  simp [isEntry,hne,hdot]

theorem relative_elements (h : ∀ n ∈ ms, ProperName n) (hne : ms ≠ []) (trailing : List Name)
    (ht : trailing = [] ∨ trailing = [[]]) :
    ((ms ++ trailing).foldl (fun path n => path.append (ofText n)) (ofText [])).elements =
      ms ++ trailing := by
  obtain ⟨hrooted,hnames,hfilename⟩ := foldl_append_spec (ofText []) h
  have hrooted : (ms.foldl (fun path n => path.append (ofText n)) (ofText [])).rooted = false :=
    hrooted.trans (by decide)
  have hnames : (ms.foldl (fun path n => path.append (ofText n)) (ofText [])).names = ms := hnames
  rcases ht with rfl | rfl
  · rw [List.append_nil]
    have hf := hfilename hne
    simp only [names,List.isEmpty_iff,hf,↓reduceIte] at hnames
    simp [elements,hrooted,hf,hnames]
  · rw [List.foldl_append,List.foldl_cons,List.foldl_nil]
    obtain ⟨hr,hd,hf⟩ := append_plain (p := ms.foldl (fun path n => path.append (ofText n)) (ofText []))
      (n := []) (by simp)
    simp [elements,hr,hrooted,hd,hf,hnames,hne]

/-- Relative to a base of names, a path below it has the names that follow the base. -/
theorem lexicallyRelative_names (hrooted : p.rooted = true) (hnames : p.names = ns ++ ms)
    (hns : ∀ n ∈ ns, ProperName n) (hms : ∀ n ∈ ms, ProperName n) :
    (p.lexicallyRelative (absolute ns)).elements.filter isEntry = ms := by
  obtain ⟨trailing,ht,hp⟩ : ∃ trailing, (trailing = [] ∨ trailing = [[]]) ∧
      p.elements = ([separator] :: ns) ++ (ms ++ trailing) := by
    rcases elements_rooted hrooted with h | h
    · exact ⟨[],Or.inl rfl,by rw [h,hnames]; simp⟩
    · exact ⟨[[]],Or.inr rfl,by rw [h,hnames]; simp⟩
  have hbase := absolute_spec hns
  have hsame : ¬p.rooted ≠ (absolute ns).rooted := by simp [hrooted,hbase.1]
  rw [lexicallyRelative,if_neg hsame,hp,absolute_elements hns,mismatch_append]
  cases ms with
  | nil => rcases ht with rfl | rfl <;> decide
  | cons m ms =>
    have hm := (hms m List.mem_cons_self).nonempty
    have hrel := relative_elements hms (by simp) trailing ht
    rw [List.cons_append] at hrel ⊢
    dsimp only
    rw [if_neg (by decide),if_neg (by simp [hm]),show (ascents []).toNat = 0 from by decide,
      List.replicate_zero,List.nil_append,hrel,← List.cons_append,List.filter_append,filter_isEntry hms]
    rcases ht with rfl | rfl <;> simp [isEntry]

end Names
end Path
end LexicalPath
