import SpareNode.Session.SessionStore

/-! # The credential codec over libsodium

A credential is thirty-two random bytes in hexadecimal, and its digest is their hash. What the
codec calls of libsodium is its parameter.
-/
namespace SpareNode.Session

def credentialBytes : ℕ := 32
def encodedCredentialBytes : ℕ := credentialBytes * 2

/-- The functions of libsodium, and the random bytes of each call. -/
structure Sodium where
  randombytesBuf : ℕ → Vector UInt8 credentialBytes
  bin2hex : Bytes → Bytes
  hex2bin : Bytes → Option Bytes
  genericHash : Bytes → SessionCredentialDigest

/-- `valid_encoded_credential`: the lower-case representation that the codec emits. -/
def validEncodedCredential (credential : Bytes) : Bool :=
  credential.length = encodedCredentialBytes &&
    credential.all fun byte => (char '0' ≤ byte && byte ≤ char '9') || (char 'a' ≤ byte && byte ≤ char 'f')

namespace SodiumSessionCredentialCodec
variable (sodium : Sodium)

/-- The `n`-th call of `generate`, which may find no memory for the credential. -/
def generate (allocates : ℕ → Bool) (n : ℕ) : GenerateOutcome :=
  let randomBytes := (sodium.randombytesBuf n).toList
  if allocates n then
    .generated ((sodium.bin2hex randomBytes).take encodedCredentialBytes) (sodium.genericHash randomBytes)
  else .failed .resourceAllocationFailed

def digest (credential : Bytes) : Option SessionCredentialDigest :=
  if !validEncodedCredential credential then none
  else
    match sodium.hex2bin credential with
    | none => none
    | some decoded => if decoded.length ≠ credentialBytes then none else some (sodium.genericHash decoded)

/-- The environment that the codec, a clock and the memory make for the store. -/
def environment (allocates exhausted : ℕ → Bool) (clock : ℕ → ℤ) : Environment where
  clock := clock
  generate := generate sodium allocates
  digest := digest sodium
  unavailable _ := false
  exhausted := exhausted

end SodiumSessionCredentialCodec

/-- `sodium_bin2hex` writes two lower-case hexadecimal digits for each byte. -/
def Sodium.Hexadecimal (sodium : Sodium) : Prop :=
  ∀ bytes : Bytes, (sodium.bin2hex bytes).length = bytes.length * 2 ∧
    (sodium.bin2hex bytes).all (fun byte =>
      (char '0' ≤ byte && byte ≤ char '9') || (char 'a' ≤ byte && byte ≤ char 'f')) = true

namespace SodiumSessionCredentialCodec
variable {sodium : Sodium} {allocates : ℕ → Bool} {n : ℕ} {value : Bytes} {d : SessionCredentialDigest}

theorem generate_value (hhex : sodium.Hexadecimal) (h : generate sodium allocates n = .generated value d) :
    value = sodium.bin2hex (sodium.randombytesBuf n).toList ∧
      d = sodium.genericHash (sodium.randombytesBuf n).toList := by
  unfold generate at h
  split at h
  · cases h
    refine ⟨List.take_of_length_le ?_,rfl⟩
    rw [(hhex _).1,Vector.length_toList]
    exact le_rfl
  · cases h

theorem generate_valid (hhex : sodium.Hexadecimal) (h : generate sodium allocates n = .generated value d) :
    validEncodedCredential value = true := by
  obtain ⟨rfl,-⟩ := generate_value hhex h
  obtain ⟨hlength,hdigits⟩ := hhex (sodium.randombytesBuf n).toList
  rw [Vector.length_toList] at hlength
  rw [validEncodedCredential,hlength,hdigits]
  rfl

/-- A generated credential has the digest that comes with it. -/
theorem digest_generate (hhex : sodium.Hexadecimal)
    (hinverse : ∀ bytes, sodium.hex2bin (sodium.bin2hex bytes) = some bytes)
    (h : generate sodium allocates n = .generated value d) : digest sodium value = some d := by
  have hvalid := generate_valid hhex h
  obtain ⟨rfl,rfl⟩ := generate_value hhex h
  unfold digest
  simp [hvalid,hinverse]

end SodiumSessionCredentialCodec

/-- A credential that the store issues comes from a call of its generator. -/
theorem SessionStore.createAttempts_generated {env : Environment} {principal : Principal} {attempts : ℕ}
    {s s' : SessionStore} {credential : Bytes}
    (h : SessionStore.createAttempts env principal attempts s = (.ok credential,s')) :
    ∃ n d, env.generate n = .generated credential d := by
  induction attempts generalizing s with
  | zero => cases h
  | succ attempts ih =>
    rw [SessionStore.createAttempts] at h
    dsimp only at h
    cases hgenerate : env.generate s.generations with
    | failed code => simp [hgenerate] at h
    | badAlloc => simp [hgenerate] at h
    | generated value d =>
      simp only [hgenerate] at h
      split at h
      · exact ih h
      · cases h
        exact ⟨_,_,hgenerate⟩

end SpareNode.Session
