import SpareNode.Authentication.LoginStrings
import SpareNode.Foundation.JsonCharacters

/-! # The schema of a login request

The parser accepts the objects with exactly the two members of the schema, in the order in which they come, and
nothing else. It reads the bytes of strings as they are; that they are characters follows from the check of the
whole body.
-/
namespace SpareNode.Authentication
open Json Utf8

namespace LoginJsonParser
variable {members members' : Members} {s t rest : Bytes}

theorem skipWhitespace_eq (s : Bytes) : skipWhitespace s = s.dropWhile isSpace := by
  have hsame : isWhitespace = isSpace := by
    funext b
    exact forall_byte (P := fun b => isWhitespace b = isSpace b) (by decide +kernel) b
  rw [skipWhitespace,hsame]

theorem space_skipWhitespace (s : Bytes) : Space s (skipWhitespace s) := by
  rw [skipWhitespace_eq]
  exact space_dropWhile s

theorem skipWhitespace_of_space (h : Space s t) (ht : Solid t) : skipWhitespace s = t := by
  rw [skipWhitespace_eq]
  exact h.dropWhile ht

theorem consume_skipWhitespace {b : Byte} (hb : isSpace b = false) :
    consume b (skipWhitespace s) = some t ↔ Space s (b :: t) := by
  rw [consume_eq_some]
  constructor
  · intro h
    exact h ▸ space_skipWhitespace s
  · exact fun h => skipWhitespace_of_space h (solid_cons hb)

def StringMember (Raw : Bytes → Prop) : Bytes → Bytes × Bytes → Bytes → Prop := Member Raw (Quoted Raw)

theorem readString_skipWhitespace {text : Bytes} :
    readString (skipWhitespace s) = some (text,t) ↔ ∃ u, Space s u ∧ Quoted Plain u text t := by
  rw [readString_iff]
  constructor
  · exact fun h => ⟨_,space_skipWhitespace s,h⟩
  · rintro ⟨u,hspace,hquoted⟩
    have hsolid : Solid u := by
      obtain ⟨r,rfl,-⟩ := hquoted
      exact solid_cons (by decide)
    rwa [skipWhitespace_of_space hspace hsolid]

theorem parseMember_iff : parseMember members s = some (members',rest) ↔
    ∃ member, StringMember Plain s member rest ∧ store members member.1 member.2 = some members' := by
  simp only [parseMember,Option.bind_eq_bind,Option.bind_eq_some_iff,Prod.exists,
    consume_skipWhitespace (show isSpace (char ':') = false by decide),readString_skipWhitespace,Option.some.injEq,
    Prod.mk.injEq]
  constructor
  · rintro ⟨name,t,hname,u,hcolon,value,w,⟨v,hnext,hvalue⟩,stored,hstore,rfl,rfl⟩
    obtain ⟨r,rfl,hchars⟩ := readString_iff.mp hname
    exact ⟨name,value,.mk hchars hcolon hnext hvalue,hstore⟩
  · rintro ⟨name,value,hmember,hstore⟩
    cases hmember with
    | mk hname hcolon hnext hvalue =>
      exact ⟨name,_,readString_iff.mpr ⟨_,rfl,hname⟩,_,hcolon,value,_,⟨_,hnext,hvalue⟩,members',hstore,rfl,rfl⟩

def storeAll (members : Members) (pairs : List (Bytes × Bytes)) : Option Members :=
  pairs.foldlM (fun members pair => store members pair.1 pair.2) members

theorem storeAll_cons {pair : Bytes × Bytes} {pairs : List (Bytes × Bytes)} : storeAll members (pair :: pairs) =
    (store members pair.1 pair.2).bind fun members => storeAll members pairs := rfl

theorem storeAll_singleton {pair : Bytes × Bytes} : storeAll members [pair] = store members pair.1 pair.2 := by
  rw [storeAll_cons]
  cases store members pair.1 pair.2 <;> rfl

theorem separated_solid {pairs : List (Bytes × Bytes)} (h : Separated (StringMember Plain) s pairs t) : Solid s := by
  obtain ⟨member,u,hmember⟩ := h.head
  exact (Member.solid hmember).1

/-- The members that the loop reads, up to the closing brace. -/
theorem parseMembers_sound (h : parseMembers members s = some (members',rest)) : ∃ pairs t,
    Separated (StringMember Plain) s pairs t ∧ Space t (char '}' :: rest) ∧ storeAll members pairs = some members' := by
  fun_induction parseMembers members s with
  | case1 => cases h
  | case2 members s stored after hread last hbrace =>
    obtain ⟨rfl,rfl⟩ := Prod.mk.inj (Option.some.inj h)
    obtain ⟨member,hmember,hstore⟩ := parseMember_iff.mp hread
    exact ⟨[member],after,.one hmember,(consume_skipWhitespace (by decide)).mp hbrace,storeAll_singleton.trans hstore⟩
  | case3 => cases h
  | case4 members s stored after hread _ next hcomma ih =>
    obtain ⟨member,hmember,hstore⟩ := parseMember_iff.mp hread
    obtain ⟨pairs,t,hpairs,hend,hrest⟩ := ih h
    refine ⟨member :: pairs,t,.cons hmember ((consume_skipWhitespace (by decide)).mp hcomma) (space_skipWhitespace next)
      hpairs,hend,?_⟩
    rw [storeAll_cons,hstore]
    exact hrest

theorem parseMembers_complete {pairs : List (Bytes × Bytes)} (h : Separated (StringMember Plain) s pairs t)
    (hend : Space t (char '}' :: rest)) (hstore : storeAll members pairs = some members') :
    parseMembers members s = some (members',rest) := by
  induction h generalizing members with
  | one hmember =>
    rw [storeAll_singleton] at hstore
    rw [parseMembers.eq_def,parseMember_iff.mpr ⟨_,hmember,hstore⟩]
    dsimp only
    rw [(consume_skipWhitespace (by decide)).mpr hend]
  | @cons s t u v w member pairs hmember hcomma hnext hrest ih =>
    rw [storeAll_cons,Option.bind_eq_some_iff] at hstore
    obtain ⟨stored,hfirst,hmore⟩ := hstore
    have hbrace : consume (char '}') (skipWhitespace t) = none := by
      rw [skipWhitespace_of_space hcomma (solid_cons (by decide))]
      rfl
    rw [parseMembers.eq_def,parseMember_iff.mpr ⟨_,hmember,hfirst⟩]
    dsimp only
    rw [hbrace]
    dsimp only
    rw [(consume_skipWhitespace (by decide)).mpr hcomma]
    dsimp only
    rw [skipWhitespace_of_space hnext (separated_solid hrest)]
    exact ih hend hmore

theorem store_iff {name value : Bytes} : store members name value = some members' ↔ value ≠ [] ∧
    ((name = ascii "login" ∧ members.login = none ∧ value.length ≤ maximumOwnerLoginBytes ∧
        members' = { members with login := some value }) ∨
      name = ascii "password" ∧ members.password = none ∧ value.length ≤ maximumPasswordBytes ∧
        members' = { members with password := some value }) := by
  have hnames : ascii "login" ≠ ascii "password" := by decide
  unfold store
  split
  · rename_i hempty
    rw [List.isEmpty_iff] at hempty
    simp [hempty]
  · rename_i hvalue
    rw [List.isEmpty_iff] at hvalue
    rw [and_iff_right (show value ≠ [] from hvalue)]
    split
    · rename_i hlogin
      simp only [Bool.and_eq_true,decide_eq_true_eq,Option.isNone_iff_eq_none] at hlogin
      obtain ⟨⟨rfl,hunset⟩,hsize⟩ := hlogin
      simp [hunset,hsize,hnames,eq_comm]
    · rename_i hlogin
      simp only [Bool.and_eq_true,decide_eq_true_eq,Option.isNone_iff_eq_none] at hlogin
      rw [or_iff_right fun h => hlogin ⟨⟨h.1,h.2.1⟩,h.2.2.1⟩]
      split
      · rename_i hname
        exact ⟨nofun,fun h => absurd h.1 hname⟩
      · rename_i hname
        rw [and_iff_right (not_not.mp hname)]
        split
        · rename_i hpassword
          simp only [Bool.and_eq_true,decide_eq_true_eq,Option.isNone_iff_eq_none] at hpassword
          rw [and_iff_right hpassword.1,and_iff_right hpassword.2,Option.some.injEq,eq_comm]
        · rename_i hpassword
          simp only [Bool.and_eq_true,decide_eq_true_eq,Option.isNone_iff_eq_none] at hpassword
          exact ⟨nofun,fun h => absurd ⟨h.1,h.2.1⟩ hpassword⟩

/-- The values of the schema within their limits. -/
structure Bounded (request : LoginRequest) : Prop where
  login : request.login ≠ [] ∧ request.login.length ≤ maximumOwnerLoginBytes
  password : request.password ≠ [] ∧ request.password.length ≤ maximumPasswordBytes

/-- The two members of a request, in either order. -/
def Schema {α : Type} (value : Bytes → α) (members : List (Bytes × α)) (request : LoginRequest) : Prop :=
  members = [(ascii "login",value request.login),(ascii "password",value request.password)] ∨
    members = [(ascii "password",value request.password),(ascii "login",value request.login)]

def Members.unset (members : Members) : ℕ := members.login.isNone.toNat + members.password.isNone.toNat

theorem store_unset {name value : Bytes} (h : store members name value = some members') :
    members.unset = members'.unset + 1 := by
  obtain ⟨-,⟨-,hunset,-,rfl⟩ | ⟨-,hunset,-,rfl⟩⟩ := store_iff.mp h
  · simp only [Members.unset,hunset,Option.isNone_none,Option.isNone_some,Bool.toNat_true,Bool.toNat_false]
    omega
  · simp only [Members.unset,hunset,Option.isNone_none,Option.isNone_some,Bool.toNat_true,Bool.toNat_false]

theorem storeAll_unset {pairs : List (Bytes × Bytes)} (h : storeAll members pairs = some members') :
    members.unset = members'.unset + pairs.length := by
  induction pairs generalizing members with
  | nil =>
    obtain rfl := Option.some.inj h
    rfl
  | cons pair pairs ih =>
    rw [storeAll_cons,Option.bind_eq_some_iff] at h
    obtain ⟨stored,hfirst,hmore⟩ := h
    rw [store_unset hfirst,ih hmore,List.length_cons]
    omega

theorem storeAll_iff {pairs : List (Bytes × Bytes)} {request : LoginRequest} :
    storeAll {} pairs = some ⟨some request.login,some request.password⟩ ↔ Schema id pairs request ∧ Bounded request := by
  obtain ⟨login,password⟩ := request
  constructor
  · intro h
    have hlength : pairs.length = 2 := by
      have hunset := storeAll_unset h
      simp only [Members.unset,Option.isNone_none,Option.isNone_some,Bool.toNat_true,Bool.toNat_false] at hunset
      omega
    obtain ⟨⟨name,value⟩,⟨name',value'⟩,rfl⟩ := List.length_eq_two.mp hlength
    rw [storeAll_cons,Option.bind_eq_some_iff] at h
    obtain ⟨stored,hfirst,hsecond⟩ := h
    rw [storeAll_singleton] at hsecond
    obtain ⟨hvalue,hfirst⟩ := store_iff.mp hfirst
    obtain ⟨hvalue',hsecond⟩ := store_iff.mp hsecond
    rcases hfirst with ⟨rfl,-,hsize,rfl⟩ | ⟨rfl,-,hsize,rfl⟩
    · rcases hsecond with ⟨-,hunset,-⟩ | ⟨rfl,-,hsize',hall⟩
      · cases hunset
      · simp only [Members.mk.injEq,Option.some.injEq] at hall
        obtain ⟨rfl,rfl⟩ := hall
        exact ⟨Or.inl rfl,⟨hvalue,hsize⟩,⟨hvalue',hsize'⟩⟩
    · rcases hsecond with ⟨rfl,-,hsize',hall⟩ | ⟨-,hunset,-⟩
      · simp only [Members.mk.injEq,Option.some.injEq] at hall
        obtain ⟨rfl,rfl⟩ := hall
        exact ⟨Or.inr rfl,⟨hvalue',hsize'⟩,⟨hvalue,hsize⟩⟩
      · cases hunset
  · rintro ⟨rfl | rfl,⟨hlogin,hlogin'⟩,⟨hpassword,hpassword'⟩⟩
    · rw [storeAll_cons,Option.bind_eq_some_iff]
      refine ⟨_,store_iff.mpr ⟨hlogin,Or.inl ⟨rfl,rfl,hlogin',rfl⟩⟩,?_⟩
      rw [storeAll_singleton]
      exact store_iff.mpr ⟨hpassword,Or.inr ⟨rfl,rfl,hpassword',rfl⟩⟩
    · rw [storeAll_cons,Option.bind_eq_some_iff]
      refine ⟨_,store_iff.mpr ⟨hpassword,Or.inr ⟨rfl,rfl,hpassword',rfl⟩⟩,?_⟩
      rw [storeAll_singleton]
      exact store_iff.mpr ⟨hlogin,Or.inl ⟨rfl,rfl,hlogin',rfl⟩⟩

/-- The parser reads an object with string members between white space, and keeps their values. -/
theorem parse_iff {input : Bytes} {request : LoginRequest} : parse input = some request ↔ isValid input = true ∧
    ∃ t u pairs, Space input t ∧ Enclosed (char '{') (char '}') (StringMember Plain) t pairs u ∧ Space u [] ∧
      Schema id pairs request ∧ Bounded request := by
  have hbrace : isSpace (char '{') = false ∧ isSpace (char '}') = false := by decide
  constructor
  · intro h
    unfold parse at h
    split at h
    · cases h
    · rename_i hvalid
      rw [Bool.not_eq_true',Bool.not_eq_false] at hvalid
      refine ⟨hvalid,?_⟩
      split at h
      · cases h
      · rename_i s hopen
        split at h
        · cases h
        · split at h
          · cases h
          · rename_i members rest hmembers
            split at h
            · cases h
            · rename_i hend
              split at h
              · rename_i login password hlogin hpassword
                obtain rfl := Option.some.inj h
                obtain ⟨pairs,t,hpairs,hclose,hstore⟩ := parseMembers_sound hmembers
                have hall : members = ⟨some login,some password⟩ := by
                  rw [← hlogin,← hpassword]
                rw [hall] at hstore
                refine ⟨_,rest,pairs,(consume_skipWhitespace hbrace.1).mp hopen,
                  .items (space_skipWhitespace s) hpairs hclose,?_,storeAll_iff.mp hstore⟩
                rw [← not_not.mp hend]
                exact space_skipWhitespace rest
              · cases h
  · rintro ⟨hvalid,t,u,pairs,hstart,henclosed,hend,hschema,hbounded⟩
    cases henclosed with
    | empty => rcases hschema with h | h <;> cases h
    | @items s v w _ _ hopen hpairs hclose =>
      have hfirst : consume (char '{') (skipWhitespace input) = some s := (consume_skipWhitespace hbrace.1).mpr hstart
      have hskip : skipWhitespace s = v := skipWhitespace_of_space hopen (separated_solid hpairs)
      have hnonempty : consume (char '}') v = none := by
        obtain ⟨member,after,hmember⟩ := hpairs.head
        cases hmember
        rfl
      have hmembers := parseMembers_complete hpairs hclose (storeAll_iff.mpr ⟨hschema,hbounded⟩)
      unfold parse
      rw [hvalid,hfirst]
      dsimp only
      rw [hskip,hnonempty,hmembers,Bool.not_true]
      dsimp only
      rw [skipWhitespace_of_space hend solid_nil]
      rfl

/-- An object with string members, in the terms of the grammar. -/
theorem denotes_object_iff {pairs : List (Bytes × Bytes)} :
    Denotes s (.object (pairs.map fun pair => (pair.1,.string pair.2))) t ↔
      Enclosed (char '{') (char '}') (StringMember Unescaped) s pairs t := by
  have hchars : Carries (fun _ => True) (Chars Unescaped) (Chars Unescaped) id := fun _ _ _ h _ => ⟨h,trivial⟩
  constructor
  · intro h
    have hmember : Carries (fun _ => True)
        (fun s (pair : Bytes × Bytes) t => Member Unescaped Denotes s (pair.1,.string pair.2) t)
        (StringMember Unescaped) id := by
      intro s pair t hpair _
      generalize hname : (pair.1,Json.string pair.2) = member at hpair
      cases hpair with
      | mk hchars hcolon hnext hvalue =>
        obtain ⟨rfl,rfl⟩ := Prod.mk.inj hname
        exact ⟨.mk hchars hcolon hnext hvalue.shape,trivial⟩
    have henclosed := hmember.enclosed (char '{') (char '}') (by decide) (by decide)
      advances_true _ _ _ (Enclosed.of_map h.shape) trivial
    simpa only [List.map_id] using henclosed.1
  · intro h
    have hquoted : Carries (fun _ => True) (Quoted Unescaped) Denotes Json.string := by
      rintro s text t ⟨r,rfl,hchars⟩ -
      exact ⟨.string hchars,trivial⟩
    have henclosed := (Carries.member advances_true hchars hquoted).enclosed (char '{') (char '}')
      (by decide) (by decide) advances_true _ _ _ h trivial
    exact .object henclosed.1

/-- The members as the parser reads them are those of the grammar. -/
theorem enclosed_plain_iff {pairs : List (Bytes × Bytes)} (hs : isValid s = true) :
    Enclosed (char '{') (char '}') (StringMember Plain) s pairs t ↔
      Enclosed (char '{') (char '}') (StringMember Unescaped) s pairs t := by
  have hplain : Carries (fun _ => True) (Chars Unescaped) (Chars Plain) id := fun _ _ _ h _ => ⟨h.plain,trivial⟩
  have hid : (fun member : Bytes × Bytes => (member.1,id member.2)) = id := rfl
  constructor
  · intro h
    have hmember := Carries.member advances_isValid chars_unescaped (chars_unescaped.quoted advances_isValid)
    have henclosed := (hmember.enclosed (char '{') (char '}') (by decide) (by decide)
      advances_isValid _ _ _ h hs).1
    rw [hid,List.map_id] at henclosed
    exact henclosed
  · intro h
    have hmember := Carries.member advances_true hplain (hplain.quoted advances_true)
    have henclosed := (hmember.enclosed (char '{') (char '}') (by decide) (by decide)
      advances_true _ _ _ h trivial).1
    rw [hid,List.map_id] at henclosed
    exact henclosed

/-- A JSON text with the two members of a request, in either order. -/
def LoginText (input : Bytes) (request : LoginRequest) : Prop :=
  ∃ members, Text input (.object members) ∧ Schema Json.string members request

theorem loginText_iff {input : Bytes} {request : LoginRequest} (hvalid : isValid input = true) :
    LoginText input request ↔ ∃ t u pairs, Space input t ∧
      Enclosed (char '{') (char '}') (StringMember Plain) t pairs u ∧ Space u [] ∧ Schema id pairs request := by
  constructor
  · rintro ⟨members,⟨t,u,hstart,hobject,hend⟩,hschema⟩
    obtain ⟨pairs,rfl,hpairs⟩ : ∃ pairs : List (Bytes × Bytes),
        members = pairs.map (fun pair => (pair.1,Json.string pair.2)) ∧ Schema id pairs request := by
      rcases hschema with rfl | rfl
      · exact ⟨_,rfl,Or.inl rfl⟩
      · exact ⟨_,rfl,Or.inr rfl⟩
    have ht := advances_isValid.space hstart hvalid
    exact ⟨t,u,pairs,hstart,(enclosed_plain_iff ht).mpr (denotes_object_iff.mp hobject),hend,hpairs⟩
  · rintro ⟨t,u,pairs,hstart,hobject,hend,hschema⟩
    have ht := advances_isValid.space hstart hvalid
    refine ⟨_,⟨t,u,hstart,denotes_object_iff.mpr ((enclosed_plain_iff ht).mp hobject),hend⟩,?_⟩
    rcases hschema with rfl | rfl
    · exact Or.inl rfl
    · exact Or.inr rfl

theorem parse_iff_text {input : Bytes} {request : LoginRequest} : parse input = some request ↔
    isValid input = true ∧ LoginText input request ∧ Bounded request := by
  rw [parse_iff]
  constructor
  · rintro ⟨hvalid,t,u,pairs,hstart,hobject,hend,hschema,hbounded⟩
    exact ⟨hvalid,(loginText_iff hvalid).mpr ⟨t,u,pairs,hstart,hobject,hend,hschema⟩,hbounded⟩
  · rintro ⟨hvalid,htext,hbounded⟩
    obtain ⟨t,u,pairs,hstart,hobject,hend,hschema⟩ := (loginText_iff hvalid).mp htext
    exact ⟨hvalid,t,u,pairs,hstart,hobject,hend,hschema,hbounded⟩

/-- A text has the members of one request at most. -/
theorem loginText_unique {input : Bytes} {request other : LoginRequest} (h : LoginText input request)
    (h' : LoginText input other) : request = other := by
  have hnames : ascii "login" ≠ ascii "password" := by decide
  obtain ⟨login,password⟩ := request
  obtain ⟨login',password'⟩ := other
  obtain ⟨members,htext,hschema⟩ := h
  obtain ⟨members',htext',hschema'⟩ := h'
  have hsame := htext.unique htext'
  rcases hschema with rfl | rfl <;> rcases hschema' with rfl | rfl
  · simp at hsame
    rw [hsame.1,hsame.2]
  · simp [hnames] at hsame
  · simp [hnames.symm] at hsame
  · simp at hsame
    rw [hsame.1,hsame.2]

theorem loginText_valid {input : Bytes} {request : LoginRequest} (h : LoginText input request) :
    isValid request.login = true ∧ isValid request.password = true := by
  obtain ⟨members,⟨t,u,-,hobject,-⟩,hschema⟩ := h
  have hvalue {name text : Bytes} (hmem : (name,Json.string text) ∈ members) : isValid text = true := by
    obtain ⟨s,t,hmember⟩ := Enclosed.item hobject.shape _ hmem
    cases hmember with
    | mk _ _ _ hvalue =>
      obtain ⟨r,-,hchars⟩ := hvalue.shape
      exact hchars.valid
  rcases hschema with rfl | rfl
  · exact ⟨hvalue List.mem_cons_self,hvalue (List.mem_cons_of_mem _ List.mem_cons_self)⟩
  · exact ⟨hvalue (List.mem_cons_of_mem _ List.mem_cons_self),hvalue List.mem_cons_self⟩

/-- Digits of a surrogate without its other half behind them. -/
def Unpaired (value : ℕ) (rest : Bytes) : Prop :=
  0xD800 ≤ value ∧ value ≤ 0xDFFF ∧ (value ≤ 0xDBFF → ∀ low y more, y < 0x400 → HexQuad low (0xDC00 + y) →
    rest ≠ char '\\' :: char 'u' :: (low ++ more))

theorem parseUnicodeEscape_unpaired {quad : Bytes} {value : ℕ} (hquad : HexQuad quad value) (h : Unpaired value rest) :
    parseUnicodeEscape (quad ++ rest) = none := by
  obtain ⟨hfirst,hlast,hapart⟩ := h
  cases hescape : parseUnicodeEscape (quad ++ rest) with
  | none => rfl
  | some result =>
    obtain ⟨codePoint,after⟩ := result
    obtain ⟨quad',value',middle,hquad',hs,hcompleted⟩ :=
      parseUnicodeEscape_iff.mp ⟨⟨codePoint,parseUnicodeEscape_scalar hescape⟩,hescape,rfl⟩
    obtain ⟨rfl,rfl⟩ := hquad.unique hquad' hs
    generalize encode ⟨codePoint,parseUnicodeEscape_scalar hescape⟩ = piece at hcompleted
    cases hcompleted with
    | unit v =>
      have hv := v.property
      simp only [isScalarValue,Bool.and_eq_true,Bool.or_eq_true,decide_eq_true_eq] at hv
      omega
    | pair v hx hy hv hlow => exact absurd rfl (hapart (by omega) _ _ _ hy hlow)

/-- The parser accepts the texts of its schema and nothing else, whichever way they are written, and decodes their
strings without leaving a copy behind. -/
theorem parse_exact (input : Bytes) :
    (∀ request, parse input = some request ↔
      isValid input = true ∧ LoginText input request ∧ Bounded request) ∧
    (∀ request, parse input = some request → isValid request.login = true ∧ isValid request.password = true) ∧
    (∀ other request, isValid input = true → isValid other = true → LoginText input request →
      LoginText other request → parse input = parse other) ∧
    (∀ quad value rest, HexQuad quad value → Unpaired value rest → parseUnicodeEscape (quad ++ rest) = none) ∧
    ∀ s, ReservedText.Fits s.length (parseString (char '"' :: s)).1 0 := by
  have hnone {input : Bytes} {request : LoginRequest} (htext : LoginText input request) (h : ¬Bounded request) :
      parse input = none := by
    cases hparse : parse input with
    | none => rfl
    | some found =>
      obtain ⟨-,hfound,hbounded⟩ := parse_iff_text.mp hparse
      exact absurd (loginText_unique htext hfound ▸ hbounded) h
  refine ⟨fun request => parse_iff_text,?_,?_,fun quad value rest => parseUnicodeEscape_unpaired,parseString_fits⟩
  · intro request h
    exact loginText_valid (parse_iff_text.mp h).2.1
  · intro other request hinput hother htext htext'
    by_cases hbounded : Bounded request
    · rw [parse_iff_text.mpr ⟨hinput,htext,hbounded⟩,parse_iff_text.mpr ⟨hother,htext',hbounded⟩]
    · rw [hnone htext hbounded,hnone htext' hbounded]

end LoginJsonParser
end SpareNode.Authentication
