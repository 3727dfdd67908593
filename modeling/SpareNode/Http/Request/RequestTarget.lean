import SpareNode.Http.Request.HostAuthority
import SpareNode.Http.Request.Types

/-! # Request targets and versions

`parseRequestTarget` and `validateRequestVersion` are the source functions. The
relation `ValidTarget` is the target grammar for a method: asterisk-form only for
OPTIONS, origin-form, and absolute-form over cleartext HTTP, each with the routing
target and the authority it denotes.
-/
namespace SpareNode.Http

/-- `is_path_character`: the unescaped `pchar` set. -/
def isPathCharacter (b : Byte) : Bool :=
  isAsciiDigit b || isAsciiLetter b || (ascii "-._~!$&'()*+,;=:@").contains b

/-- The loop of `valid_request_target` over the bytes not yet inspected. -/
def validTargetBytes (queryStarted : Bool) : Bytes → Bool
  | [] => true
  | b :: rest =>
    if b = char '%' then
      match rest with
      | high :: low :: rest =>
        isAsciiHexadecimalDigit high && isAsciiHexadecimalDigit low &&
          validTargetBytes queryStarted rest
      | _ => false
    else if !queryStarted && b == char '?' then validTargetBytes true rest
    else if b == char '/' || (queryStarted && b == char '?') then validTargetBytes queryStarted rest
    else isPathCharacter b && validTargetBytes queryStarted rest

def validRequestTarget (target : Bytes) : Bool :=
  target.head? == some (char '/') && validTargetBytes false target

/-- `detail::ParsedRequestTarget`. -/
structure ParsedRequestTarget where
  routingTarget : Bytes
  authority : Bytes
  deriving DecidableEq, Repr

/-- The bytes `find_first_of("/?#")` stops at. -/
def isAuthorityEnd (b : Byte) : Bool := b == char '/' || b == char '?' || b == char '#'

/-- The case-insensitive scheme test on the first seven bytes of an absolute target. -/
def hasHttpScheme (target : Bytes) : Bool :=
  match target with
  | h :: t1 :: t2 :: p :: rest =>
    (h == char 'h' || h == char 'H') && (t1 == char 't' || t1 == char 'T') &&
      (t2 == char 't' || t2 == char 'T') && (p == char 'p' || p == char 'P') &&
      rest.take 3 == ascii "://"
  | _ => false

/-- The absolute-form part of `parse_request_target`, after `http://`. A query
directly behind the authority gets the slash its origin-form has. -/
def parseAbsoluteForm (absolute : Bytes) (invalid : HttpRequestParseError) :
    Except HttpRequestParseError ParsedRequestTarget :=
  let authority := absolute.takeWhile (fun b => !isAuthorityEnd b)
  let path := absolute.dropWhile (fun b => !isAuthorityEnd b)
  let routing := if path.head? = some (char '?') then char '/' :: path else path
  if isValidHostAuthority authority = false then .error invalid
  else if path = [] then .ok ⟨[char '/'],authority⟩
  else if validRequestTarget routing then .ok ⟨routing,authority⟩
  else .error invalid

def parseRequestTarget (target : Bytes) (method : HttpMethod) (offset : ℕ) :
    Except HttpRequestParseError ParsedRequestTarget :=
  let invalid : HttpRequestParseError := ⟨.invalidRequestTarget,offset⟩
  if target = [char '*'] then
    if method = .options then .ok ⟨target,[]⟩ else .error invalid
  else if target.head? = some (char '/') then
    if validRequestTarget target then .ok ⟨target,[]⟩ else .error invalid
  else if hasHttpScheme target then parseAbsoluteForm (target.drop 7) invalid
  else .error invalid

def validateRequestVersion (version : Bytes) (offset : ℕ) : Except HttpRequestParseError Unit :=
  match version with
  | [h,t1,t2,p,slash,major,dot,minor] =>
    if [h,t1,t2,p,slash] = ascii "HTTP/" ∧ dot = char '.' ∧
        isAsciiDigit major = true ∧ isAsciiDigit minor = true then
      if major ≠ char '1' ∨ minor = char '0' then .error ⟨.unsupportedHttpVersion,offset⟩
      else .ok ()
    else .error ⟨.malformedHttpVersion,offset⟩
  | _ => .error ⟨.malformedHttpVersion,offset⟩

/-- Path and query bytes: unescaped characters, `/`, `?` and percent escapes. -/
inductive TargetBytes : Bytes → Prop
  | nil : TargetBytes []
  | character {b : Byte} {rest : Bytes} (hb : isPathCharacter b = true ∨ b = char '/' ∨ b = char '?')
      (hr : TargetBytes rest) : TargetBytes (b :: rest)
  | escape {high low : Byte} {rest : Bytes} (hh : isAsciiHexadecimalDigit high = true)
      (hl : isAsciiHexadecimalDigit low = true) (hr : TargetBytes rest) :
      TargetBytes (char '%' :: high :: low :: rest)

/-- The targets a method may carry, with their routing target and authority. -/
inductive ValidTarget : HttpMethod → Bytes → Bytes → Bytes → Prop
  | asterisk : ValidTarget .options [char '*'] [char '*'] []
  | origin (method : HttpMethod) {rest : Bytes} (hr : TargetBytes rest) :
      ValidTarget method (char '/' :: rest) (char '/' :: rest) []
  | absolute (method : HttpMethod) {scheme authority path : Bytes}
      (hs : asciiCaseInsensitiveEqual scheme (ascii "http") = true)
      (ha : isValidHostAuthority authority = true) (he : authority.all (fun b => !isAuthorityEnd b))
      (hp : path = [] ∨ path.head? = some (char '/') ∨ path.head? = some (char '?'))
      (ht : TargetBytes path) :
      ValidTarget method (scheme ++ ascii "://" ++ authority ++ path)
        (if path.head? = some (char '/') then path else char '/' :: path) authority

/-- The accepted versions, `HTTP/1.1` to `HTTP/1.9`. -/
def ValidVersion (version : Bytes) : Prop :=
  ∃ minor, char '1' ≤ minor ∧ minor ≤ char '9' ∧ version = ascii "HTTP/1." ++ [minor]

theorem validTargetBytes_iff (queryStarted : Bool) (s : Bytes) :
    validTargetBytes queryStarted s = true ↔ TargetBytes s := by
  constructor
  · intro h
    fun_induction validTargetBytes queryStarted s with
    | case1 => exact .nil
    | case2 q high low rest ih =>
      simp only [Bool.and_eq_true] at h
      exact .escape h.1.1 h.1.2 (ih h.2)
    | case3 => simp at h
    | case4 q b rest hb hq ih =>
      refine .character (Or.inr (Or.inr ?_)) (ih h)
      simpa using (by simpa using hq : q = false ∧ b = char '?').2
    | case5 q b rest hb hq hs ih =>
      refine .character (Or.inr ?_) (ih h)
      rcases Bool.or_eq_true_iff.mp hs with hs | hs
      · exact Or.inl (by simpa using hs)
      · exact Or.inr (by simpa using (Bool.and_eq_true_iff.mp hs).2)
    | case6 q b rest hb hq hs ih =>
      simp only [Bool.and_eq_true] at h
      exact .character (Or.inl h.1) (ih h.2)
  · intro h
    induction h generalizing queryStarted with
    | nil => rfl
    | @character b rest hb _ ih =>
      have hne : b ≠ char '%' := by
        rintro rfl
        revert hb
        decide
      rw [validTargetBytes.eq_def]
      simp only [if_neg hne]
      rcases hb with hb | rfl | rfl
      · split
        · exact ih _
        · split
          · exact ih _
          · simp [hb,ih]
      · simpa [show (char '/' == char '?') = false by decide] using ih _
      · cases queryStarted <;> simp [ih]
    | escape hh hl _ ih => simp [validTargetBytes,hh,hl,ih]

theorem validRequestTarget_iff {target : Bytes} :
    validRequestTarget target = true ↔ target.head? = some (char '/') ∧ TargetBytes target := by
  simp [validRequestTarget,validTargetBytes_iff]

theorem targetBytes_slash_iff {rest : Bytes} :
    TargetBytes (char '/' :: rest) ↔ TargetBytes rest := by
  refine ⟨?_,fun h => .character (Or.inr (Or.inl rfl)) h⟩
  intro h
  cases h with
  | character _ hr => exact hr

theorem TargetBytes.not_mem {s : Bytes} (h : TargetBytes s) {c : Byte}
    (hc : isPathCharacter c = false) (hx : isAsciiHexadecimalDigit c = false)
    (hs : c ≠ char '/' ∧ c ≠ char '?' ∧ c ≠ char '%') : c ∉ s := by
  induction h with
  | nil => simp
  | character hb _ ih =>
    simp only [List.mem_cons,not_or]
    refine ⟨?_,ih⟩
    rintro rfl
    rcases hb with hb | hb | hb
    · simp [hc] at hb
    · exact hs.1 hb
    · exact hs.2.1 hb
  | escape hh hl _ ih =>
    simp only [List.mem_cons,not_or]
    refine ⟨hs.2.2,?_,?_,ih⟩
    · rintro rfl; simp [hx] at hh
    · rintro rfl; simp [hx] at hl

/-- Only the two cases of a letter fold to its lower-case form. -/
theorem asciiLower_eq_iff {a lower : Byte} (hl : char 'a' ≤ lower ∧ lower ≤ char 'z') :
    asciiLower a = lower ↔ a = lower ∨ a = lower - (char 'a' - char 'A') := by
  unfold asciiLower
  rw [show char 'a' = 97 from rfl,show char 'z' = 122 from rfl] at hl
  rw [show char 'a' = 97 from rfl,show char 'A' = 65 from rfl,show char 'Z' = 90 from rfl]
  split <;> grind

theorem scheme_cases {scheme : Bytes}
    (h : asciiCaseInsensitiveEqual scheme (ascii "http") = true) :
    ∃ a b c d, scheme = [a,b,c,d] ∧ (a = char 'h' ∨ a = char 'H') ∧
      (b = char 't' ∨ b = char 'T') ∧ (c = char 't' ∨ c = char 'T') ∧
      (d = char 'p' ∨ d = char 'P') := by
  rw [asciiCaseInsensitiveEqual_iff,
    show (ascii "http").map asciiLower = [char 'h',char 't',char 't',char 'p'] by decide] at h
  have hlen : scheme.length = 4 := by simpa using congrArg List.length h
  obtain ⟨a,b,c,d,rfl⟩ := List.length_eq_four.mp hlen
  simp only [List.map_cons,List.map_nil,List.cons.injEq,and_true] at h
  obtain ⟨ha,hb,hc,hd⟩ := h
  exact ⟨a,b,c,d,rfl,(asciiLower_eq_iff (by decide)).mp ha,(asciiLower_eq_iff (by decide)).mp hb,
    (asciiLower_eq_iff (by decide)).mp hc,(asciiLower_eq_iff (by decide)).mp hd⟩

theorem hasHttpScheme_iff {target : Bytes} :
    hasHttpScheme target = true ↔
      ∃ scheme absolute, target = scheme ++ ascii "://" ++ absolute ∧
        asciiCaseInsensitiveEqual scheme (ascii "http") = true := by
  constructor
  · intro h
    match target, h with
    | a :: b :: c :: d :: rest, h =>
      simp only [hasHttpScheme,Bool.and_eq_true,Bool.or_eq_true,beq_iff_eq] at h
      obtain ⟨⟨⟨⟨ha,hb⟩,hc⟩,hd⟩,hr⟩ := h
      refine ⟨[a,b,c,d],rest.drop 3,?_,?_⟩
      · rw [← hr,List.append_assoc,List.take_append_drop]
        rfl
      · rcases ha with rfl | rfl <;> rcases hb with rfl | rfl <;> rcases hc with rfl | rfl <;>
          rcases hd with rfl | rfl <;> decide
  · rintro ⟨scheme,rest,rfl,hs⟩
    obtain ⟨a,b,c,d,rfl,ha,hb,hc,hd⟩ := scheme_cases hs
    have ht : (ascii "://" ++ rest).take 3 = ascii "://" := List.take_left' (by decide)
    simp only [List.cons_append,List.nil_append,hasHttpScheme,Bool.and_eq_true,Bool.or_eq_true,
      beq_iff_eq]
    exact ⟨⟨⟨⟨ha,hb⟩,hc⟩,hd⟩,ht⟩

theorem drop_scheme {scheme : Bytes} (absolute : Bytes)
    (hs : asciiCaseInsensitiveEqual scheme (ascii "http") = true) :
    (scheme ++ ascii "://" ++ absolute).drop 7 = absolute := by
  obtain ⟨a,b,c,d,rfl,-⟩ := scheme_cases hs
  rfl

theorem parseAbsoluteForm_eq_ok_iff {absolute routing auth : Bytes}
    (invalid : HttpRequestParseError) :
    parseAbsoluteForm absolute invalid = .ok ⟨routing,auth⟩ ↔
      ∃ path, absolute = auth ++ path ∧ isValidHostAuthority auth = true ∧
        auth.all (fun b => !isAuthorityEnd b) = true ∧
        (path = [] ∨ path.head? = some (char '/') ∨ path.head? = some (char '?')) ∧
        TargetBytes path ∧
        routing = if path.head? = some (char '/') then path else char '/' :: path := by
  constructor
  · intro h
    simp only [parseAbsoluteForm] at h
    have hsplit := (List.takeWhile_append_dropWhile
      (p := fun b => !isAuthorityEnd b) (l := absolute)).symm
    have hall : (absolute.takeWhile (fun b => !isAuthorityEnd b)).all
        (fun b => !isAuthorityEnd b) = true := List.all_takeWhile
    generalize absolute.takeWhile (fun b => !isAuthorityEnd b) = authority at h hsplit hall
    generalize absolute.dropWhile (fun b => !isAuthorityEnd b) = path at h hsplit
    split at h
    · simp at h
    · next ha =>
      have ha : isValidHostAuthority authority = true := by simpa using ha
      split at h
      · next hp =>
        obtain ⟨rfl,rfl⟩ := ParsedRequestTarget.mk.inj (Except.ok.inj h)
        exact ⟨path,hsplit,ha,hall,Or.inl hp,hp ▸ .nil,by simp [hp]⟩
      · by_cases hq : path.head? = some (char '?')
        · have hne : path.head? ≠ some (char '/') := by rw [hq]; decide
          simp only [if_pos hq] at h
          split at h
          · next hv =>
            obtain ⟨rfl,rfl⟩ := ParsedRequestTarget.mk.inj (Except.ok.inj h)
            exact ⟨path,hsplit,ha,hall,Or.inr (Or.inr hq),
              targetBytes_slash_iff.mp (validRequestTarget_iff.mp hv).2,by rw [if_neg hne]⟩
          · simp at h
        · simp only [if_neg hq] at h
          split at h
          · next hv =>
            obtain ⟨rfl,rfl⟩ := ParsedRequestTarget.mk.inj (Except.ok.inj h)
            obtain ⟨hslash,hbytes⟩ := validRequestTarget_iff.mp hv
            exact ⟨path,hsplit,ha,hall,Or.inr (Or.inl hslash),hbytes,by rw [if_pos hslash]⟩
          · simp at h
  · rintro ⟨path,rfl,ha,hall,hp,ht,rfl⟩
    have hstop : ∀ x ∈ path.head?, (!isAuthorityEnd x) = false := by
      intro x hx
      rcases hp with rfl | hp | hp
      · simp at hx
      · obtain rfl := Option.some.inj (hp.symm.trans hx)
        decide
      · obtain rfl := Option.some.inj (hp.symm.trans hx)
        decide
    simp only [parseAbsoluteForm,takeWhile_append_of hall hstop,dropWhile_append_of hall hstop,ha,
      Bool.true_eq_false,↓reduceIte]
    rcases hp with rfl | hp | hp
    · simp
    · have hne : path ≠ [] := by rintro rfl; simp at hp
      have hq : path.head? ≠ some (char '?') := by rw [hp]; decide
      rw [if_neg hne,if_neg hq,if_pos (validRequestTarget_iff.mpr ⟨hp,ht⟩),if_pos hp]
    · have hne : path ≠ [] := by rintro rfl; simp at hp
      have hs : path.head? ≠ some (char '/') := by rw [hp]; decide
      have hv := validRequestTarget_iff.mpr
        ⟨(rfl : (char '/' :: path).head? = _),targetBytes_slash_iff.mpr ht⟩
      rw [if_neg hne,if_pos hp,if_pos hv,if_neg hs]

/-- The source accepts exactly the targets of the grammar, and splits them alike. -/
theorem parseRequestTarget_eq_ok_iff {target routing auth : Bytes} {method : HttpMethod}
    {offset : ℕ} :
    parseRequestTarget target method offset = .ok ⟨routing,auth⟩ ↔
      ValidTarget method target routing auth := by
  constructor
  · intro h
    simp only [parseRequestTarget] at h
    split at h
    · next hstar =>
      split at h
      · next hm =>
        obtain ⟨rfl,rfl⟩ := ParsedRequestTarget.mk.inj (Except.ok.inj h)
        subst hstar hm
        exact .asterisk
      · simp at h
    · split at h
      · next hslash =>
        split at h
        · next hv =>
          obtain ⟨rfl,rfl⟩ := ParsedRequestTarget.mk.inj (Except.ok.inj h)
          cases target with
          | nil => simp at hslash
          | cons b rest =>
            obtain rfl : b = char '/' := by simpa using hslash
            exact .origin method (targetBytes_slash_iff.mp (validRequestTarget_iff.mp hv).2)
        · simp at h
      · split at h
        · next hscheme =>
          obtain ⟨scheme,absolute,rfl,hs⟩ := hasHttpScheme_iff.mp hscheme
          rw [drop_scheme absolute hs] at h
          obtain ⟨path,rfl,ha,hall,hp,ht,rfl⟩ := (parseAbsoluteForm_eq_ok_iff _).mp h
          rw [← List.append_assoc]
          exact .absolute method hs ha hall hp ht
        · simp at h
  · intro h
    cases h with
    | asterisk => rfl
    | origin _ hr =>
      have hv := validRequestTarget_iff.mpr
        ⟨(rfl : (char '/' :: _).head? = _),targetBytes_slash_iff.mpr hr⟩
      have hne : ∀ rest : Bytes, char '/' :: rest ≠ [char '*'] := by
        intro rest h
        exact absurd (List.cons.inj h).1 (by decide)
      simp [parseRequestTarget,hne,hv]
    | @absolute _ scheme _ path hs ha he hp ht =>
      have hscheme := hasHttpScheme_iff.mpr ⟨scheme,auth ++ path,rfl,hs⟩
      have hform := (parseAbsoluteForm_eq_ok_iff ⟨.invalidRequestTarget,offset⟩).mpr
        ⟨path,rfl,ha,he,hp,ht,rfl⟩
      rw [← drop_scheme (auth ++ path) hs] at hform
      obtain ⟨a,b,c,d,rfl,hc,-⟩ := scheme_cases hs
      have hslash : some a ≠ some (char '/') := by rcases hc with rfl | rfl <;> decide
      rw [List.append_assoc,parseRequestTarget]
      rw [if_neg (by simp),if_neg (by simpa using hslash),if_pos hscheme]
      exact hform

/-- The source accepts exactly the versions `HTTP/1.1` to `HTTP/1.9`. -/
theorem validateRequestVersion_eq_ok_iff {version : Bytes} {offset : ℕ} :
    validateRequestVersion version offset = .ok () ↔ ValidVersion version := by
  constructor
  · intro h
    unfold validateRequestVersion at h
    split at h
    · next hd t1 t2 p slash major dot minor =>
      split at h
      · next hform =>
        obtain ⟨hname,rfl,hmaj,hmin⟩ := hform
        split at h
        · simp at h
        · next hsup =>
          obtain ⟨rfl,hz⟩ := by simpa only [ne_eq,not_or,not_not] using hsup
          simp only [isAsciiDigit,Bool.and_eq_true,decide_eq_true_eq] at hmin
          refine ⟨minor,?_,hmin.2,?_⟩
          · rw [show char '1' = 49 from rfl]
            rw [show char '0' = 48 from rfl] at hmin hz
            grind
          · rw [show ascii "HTTP/1." = ascii "HTTP/" ++ [char '1',char '.'] by decide,← hname]
            rfl
      · simp at h
    · simp at h
  · rintro ⟨minor,hlo,hhi,rfl⟩
    rw [show char '1' = 49 from rfl] at hlo
    rw [show char '9' = 57 from rfl] at hhi
    have hdigit : isAsciiDigit minor = true := by
      simp only [isAsciiDigit,show char '0' = 48 from rfl,show char '9' = 57 from rfl,
        Bool.and_eq_true,decide_eq_true_eq]
      grind
    have hz : minor ≠ char '0' := by
      rw [show char '0' = 48 from rfl]
      grind
    rw [show ascii "HTTP/1." = [char 'H',char 'T',char 'T',char 'P',char '/',char '1',char '.']
      by decide]
    simp only [List.cons_append,List.nil_append,validateRequestVersion,hdigit,hz]
    rw [if_pos (by decide),if_neg (by decide)]

end SpareNode.Http
