import SpareNode.Authentication.AuthenticationApi
import SpareNode.Session.SodiumSessionCredentialCodec

/-! # Session cookies come back

The pair that a login sets is read back unchanged from a Cookie field, whatever cookies of other
names stand around it.
-/
namespace SpareNode.Authentication
open Http Session

/-- The pair of a Set-Cookie field: what stands before its attributes. -/
def cookiePair (setCookie : Bytes) : Bytes := setCookie.takeWhile (· != char ';')

theorem credential_byte {credential : Bytes} {b : Byte} (h : validEncodedCredential credential = true)
    (hb : b ∈ credential) : b ≠ char ';' ∧ isOptionalWhitespace b = false := by
  rw [validEncodedCredential,Bool.and_eq_true] at h
  constructor
  · rintro rfl
    exact not_mem_of_all h.2 (by decide) hb
  · cases hw : isOptionalWhitespace b with
    | false => rfl
    | true =>
      rcases (by simpa [isOptionalWhitespace] using hw : b = char ' ' ∨ b = 9) with rfl | rfl
      · exact absurd hb (not_mem_of_all h.2 (by decide))
      · exact absurd hb (not_mem_of_all h.2 (by decide))

theorem credential_ne_nil {credential : Bytes} (h : validEncodedCredential credential = true) : credential ≠ [] := by
  rintro rfl
  exact absurd h (by decide)

theorem cookiePair_sessionCookie {credential : Bytes} (h : validEncodedCredential credential = true) (secure : Bool) :
    cookiePair (sessionCookie credential secure) = sessionCookieName ++ char '=' :: credential := by
  have hname : sessionCookieName.all (· != char ';') = true := by decide
  have hpair : (sessionCookieName ++ char '=' :: credential).all (· != char ';') = true := by
    rw [List.all_append,hname,List.all_cons,Bool.true_and,Bool.and_eq_true]
    refine ⟨by decide,List.all_eq_true.mpr ?_⟩
    intro b hb
    simpa using (credential_byte h hb).1
  rw [cookiePair,sessionCookie,List.append_assoc]
  apply takeWhile_append_of hpair
  intro x hx
  cases secure <;> cases hx <;> rfl

theorem trimmed_pair {credential : Bytes} (h : validEncodedCredential credential = true) :
    Trimmed (sessionCookieName ++ char '=' :: credential) := by
  constructor
  · intro x hx
    cases hx
    decide
  · intro x hx
    rw [List.getLast?_append_cons] at hx
    rcases List.mem_cons.mp (List.mem_of_getLast? hx) with rfl | hx
    · decide
    · exact (credential_byte h hx).2

/-- A pair of the session between cookies of other names is all that the field says of it. -/
theorem namedComponents_pair {before after : List Bytes} {lead trail credential : Bytes} {field : HttpHeaderView}
    {fields : List HttpHeaderView} (hcredential : validEncodedCredential credential = true)
    (hlead : lead.all isOptionalWhitespace = true) (htrail : trail.all isOptionalWhitespace = true)
    (hothers : ∀ other ∈ before ++ after,
      char ';' ∉ other ∧ componentName (trimOptionalWhitespace other) ≠ some sessionCookieName)
    (hfields : cookieFields fields = [field])
    (hvalue : field.value = [char ';'].intercalate
      (before ++ (lead ++ (sessionCookieName ++ char '=' :: credential) ++ trail) :: after)) :
    namedComponents fields = [sessionCookieName ++ char '=' :: credential] := by
  have hspaces {s : Bytes} (hs : s.all isOptionalWhitespace = true) : char ';' ∉ s := not_mem_of_all hs (by decide)
  have hpair : char ';' ∉ lead ++ (sessionCookieName ++ char '=' :: credential) ++ trail := by
    intro hmem
    simp only [List.mem_append,List.mem_cons] at hmem
    rcases hmem with (hmem | hmem | hmem | hmem) | hmem
    · exact hspaces hlead hmem
    · exact absurd hmem (by decide)
    · exact absurd hmem (by decide)
    · exact (credential_byte hcredential hmem).1 rfl
    · exact hspaces htrail hmem
  have hother {others : List Bytes} (h : ∀ other ∈ others, componentName (trimOptionalWhitespace other) ≠
      some sessionCookieName) : ((others.map trimOptionalWhitespace).filter fun c =>
        componentName c = some sessionCookieName) = [] := by
    rw [List.filter_eq_nil_iff]
    intro c hc
    obtain ⟨other,hmem,rfl⟩ := List.mem_map.mp hc
    simpa using h other hmem
  have hname : componentName (sessionCookieName ++ char '=' :: credential) = some sessionCookieName :=
    componentName_iff.mpr (by rw [sessionComponentValue_eq_some.mpr rfl]; rfl)
  have hsplit : field.value.splitOn (char ';') =
      before ++ (lead ++ (sessionCookieName ++ char '=' :: credential) ++ trail) :: after := by
    rw [hvalue]
    apply List.splitOn_intercalate
    · intro part hpart
      rcases List.mem_append.mp hpart with hmem | hmem
      · exact (hothers part (List.mem_append_left _ hmem)).1
      · rcases List.mem_cons.mp hmem with rfl | hmem
        · exact hpair
        · exact (hothers part (List.mem_append_right _ hmem)).1
    · simp
  rw [namedComponents,hfields,List.flatMap_singleton,cookieComponents,hsplit,List.map_append,List.map_cons,
    List.filter_append,List.filter_cons,trimOptionalWhitespace_append hlead htrail (trimmed_pair hcredential),
    hother fun other hmem => (hothers other (List.mem_append_left _ hmem)).2,
    hother fun other hmem => (hothers other (List.mem_append_right _ hmem)).2,hname]
  rfl

/-- A request gives the session's value exactly when it is the only one and not empty, and is
refused otherwise; a credential that the store has issued comes back from the cookie that was
set for it. -/
theorem session_cookie_recovered :
    (∀ fields value, sessionCookieCredential fields = ⟨value,false⟩ ↔ Recovered fields value) ∧
    (∀ fields, (∀ value, ¬Recovered fields value) → sessionCookieCredential fields = ⟨[],true⟩) ∧
    ∀ (sodium : Sodium) (allocates exhausted : ℕ → Bool) (clock : ℕ → ℤ) (principal : Principal) (s s' : SessionStore)
      (credential : Bytes), sodium.Hexadecimal →
      s.createSession (SodiumSessionCredentialCodec.environment sodium allocates exhausted clock) principal =
        (.ok credential,s') →
      ∀ (secure : Bool) (before after : List Bytes) (lead trail : Bytes) (field : HttpHeaderView)
        (fields : List HttpHeaderView),
      lead.all isOptionalWhitespace = true → trail.all isOptionalWhitespace = true →
      (∀ other ∈ before ++ after,
        char ';' ∉ other ∧ componentName (trimOptionalWhitespace other) ≠ some sessionCookieName) →
      cookieFields fields = [field] →
      field.value = [char ';'].intercalate
        (before ++ (lead ++ cookiePair (sessionCookie credential secure) ++ trail) :: after) →
      sessionCookieCredential fields = ⟨credential,false⟩ := by
  refine ⟨fun _ _ => sessionCookieCredential_iff,?_,?_⟩
  · intro fields hnone
    apply sessionCookieCredential_malformed
    cases hcredential : sessionCookieCredential fields with
    | mk value malformed =>
      cases malformed with
      | true => rfl
      | false => exact absurd (sessionCookieCredential_iff.mp hcredential) (hnone value)
  · intro sodium allocates exhausted clock principal s s' credential hhex hissued secure before after lead trail
      field fields hlead htrail hothers hfields hvalue
    obtain ⟨n,d,hgenerate⟩ := SessionStore.createAttempts_generated hissued
    have hvalid := SodiumSessionCredentialCodec.generate_valid hhex hgenerate
    rw [cookiePair_sessionCookie hvalid] at hvalue
    refine sessionCookieCredential_iff.mpr ⟨?_,.inr ⟨?_,credential_ne_nil hvalid⟩⟩
    · rw [hfields]
      exact le_rfl
    · exact namedComponents_pair hvalid hlead htrail hothers hfields hvalue

def lowerHexadecimal (digit : ℕ) : Byte := (ascii "0123456789abcdef").getD digit 0

def readHexadecimal : Bytes → Option Bytes
  | [] => some []
  | [_] => none
  | high :: low :: rest => do
    let high ← digitValue high
    let low ← digitValue low
    return UInt8.ofNat (high * 16 + low) :: (← readHexadecimal rest)

/-- A libsodium whose random bytes are all zero; it hashes nothing else. -/
def zeroSodium : Sodium where
  randombytesBuf _ := Vector.replicate 32 0
  bin2hex bytes := bytes.flatMap fun b => [lowerHexadecimal (b.toNat / 16),lowerHexadecimal (b.toNat % 16)]
  hex2bin := readHexadecimal
  genericHash _ := #v[0x89,0xeb,0x0d,0x6a,0x8a,0x69,0x1d,0xae,0x2c,0xd1,0x5e,0xd0,0x36,0x99,0x31,0xce,0x0a,0x94,0x9e,0xca,0xfa,0x5c,0x3f,0x93,0xf8,0x12,0x18,0x33,0x64,0x6e,0x15,0xc3]

theorem zeroSodium_hexadecimal : zeroSodium.Hexadecimal := by
  have hdigit (digit : Fin 16) : ((char '0' ≤ lowerHexadecimal digit && lowerHexadecimal digit ≤ char '9') ||
      (char 'a' ≤ lowerHexadecimal digit && lowerHexadecimal digit ≤ char 'f')) = true := by
    revert digit
    decide
  intro bytes
  induction bytes with
  | nil => exact ⟨rfl,rfl⟩
  | cons b bytes ih =>
    have hhigh := hdigit ⟨b.toNat / 16,by have := b.toNat_lt; omega⟩
    have hlow := hdigit ⟨b.toNat % 16,Nat.mod_lt _ (by decide)⟩
    simp only [zeroSodium,List.flatMap_cons] at ih ⊢
    constructor
    · rw [List.length_append,ih.1,List.length_cons]
      simp only [List.length_cons,List.length_nil]
      omega
    · rw [List.all_append,ih.2,List.all_cons,List.all_cons,hhigh,hlow]
      rfl

def smallStore : SessionStore := ⟨{ maximumSessions := 1 },by decide,[],wellFormed_nil _,0,0,0⟩

def languageCookie : Bytes := ascii "language=uk"

theorem session_cookie_recovered_second :
    sessionCookieCredential [⟨ascii "Cookie",ascii "language=uk; spnode_session=" ++ List.replicate 64 (char '0')⟩] =
      ⟨List.replicate 64 (char '0'),false⟩ :=
  session_cookie_recovered.2.2 zeroSodium (fun _ => true) (fun _ => false) (fun _ => 0) ⟨ascii "owner"⟩ smallStore _ _
    zeroSodium_hexadecimal rfl true [languageCookie] [] [char ' '] [] _ _ rfl rfl (by decide) rfl (by decide)

end SpareNode.Authentication
