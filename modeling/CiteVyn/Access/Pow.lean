import CiteVyn.Lib.Effects
import CiteVyn.Text.Values

/-! # The proof of work

`app/core/pow.py`: a challenge is signed when it is issued, and a solution is
checked against the signature, the work and the signed expiry. -/
namespace CiteVyn.Access
open CiteVyn.Lib.Effects CiteVyn.Text

/-- The hex digests of `hashlib` and `hmac`. -/
structure Digests where
  sha256 : Str → Str
  /-- under a key -/
  hmacSha256 : Str → Str → Str

/-- What the check raises. -/
inductive Raised where
  | powError (message : String)
  | typeError
  | valueError
  deriving DecidableEq, Repr

/-- A `str` of a decoded payload; one with a lone surrogate has no encoding. -/
inductive PayloadText where
  | plain (s : Str)
  | surrogates
  deriving DecidableEq, Repr

/-- A value of a decoded payload, as far as the check tells them apart. -/
inductive Field where
  | text (t : PayloadText)
  | int (n : Int)
  | other
  deriving DecidableEq, Repr

/-- The fields that the check reads; a missing one is `None`. -/
structure Payload where
  salt : Field
  number : Field
  challenge : Field
  signature : Field
  deriving DecidableEq, Repr

/-- What `make_challenge` returns. -/
structure Challenge where
  algorithm : Str
  salt : Str
  challenge : Str
  maxnumber : Int
  signature : Str
  deriving DecidableEq, Repr

/-- `.encode()`. -/
def PayloadText.encode : PayloadText → Except Raised Str
  | .plain s => .ok s
  | .surrogates => .error .valueError

/-- `hmac.compare_digest` of a digest with a text: only ASCII texts compare. -/
def compareDigest (digest : Str) : PayloadText → Except Raised Bool
  | .plain s =>
    if digest.all (·.toNat < 128) && s.all (·.toNat < 128) then .ok (digest = s) else .error .typeError
  | .surrogates => .error .typeError

variable (d : Digests)

/-- `_hash`. -/
def hash (salt : Str) (number : Int) : Except Raised Str :=
  match intStr number with
  | some digits => .ok (d.sha256 (salt ++ digits))
  | none => .error .valueError

/-- `_sign`. -/
def sign (secret salt challenge : Str) : Str := d.hmacSha256 secret (salt ++ '|' :: challenge)

def expiresMark : Str := "?expires=".toList

/-- `make_challenge`, with the token and the number that it draws. -/
def makeChallenge (secret : Str) (maxNumber ttlS now : Int) (token : Str) (number : Int) :
    Except Raised Challenge := do
  if secret.isEmpty then throw .valueError
  else
    let expires ← (intStr (now + ttlS)).elim (.error .valueError) .ok
    let salt := token ++ expiresMark ++ expires
    let challenge ← hash d salt number
    return ⟨"SHA-256".toList, salt, challenge, maxNumber, sign d secret salt challenge⟩

/-- The check of the signed expiry, in seconds; `now` is in microseconds. -/
def checkExpiry (salt : Str) (now : Int) : Except Raised Unit :=
  let expires := afterLast expiresMark salt
  if isDigitText expires then
    match int expires with
    | .ok n => if 1000000 * (n : Int) ≤ now then .error (.powError "expired") else .ok ()
    | .error _ => .error .valueError
  else .error (.powError "expired")

/-- `verify_solution`. -/
def verifySolution (secret : Str) (payload : Payload) (now : Int) : Except Raised Str :=
  match payload with
  | ⟨.text salt, .int number, .text challenge, .text signature⟩ => do
    let salt ← salt.encode
    let challenge ← challenge.encode
    if ← compareDigest (sign d secret salt challenge) signature then
      if ← compareDigest (← hash d salt number) (.plain challenge) then
        checkExpiry salt now
        return challenge
      else throw (.powError "wrong answer")
    else throw (.powError "not a challenge we issued")
  | _ => .error (.powError "malformed solution")

variable {d} {secret : Str} {payload : Payload} {now : Int} {challenge : Str}

/-! ## What a solution that passes shows -/

theorem checkExpiry_ok {salt : Str} (h : checkExpiry salt now = .ok ()) :
    ∃ n, int (afterLast expiresMark salt) = .ok n ∧ now < 1000000 * (n : Int) := by
  rw [checkExpiry] at h
  split at h
  · split at h
    · rename_i n hint
      split at h
      · cases h
      · rename_i hlate
        exact ⟨n, hint, by omega⟩
    · cases h
  · cases h

theorem encode_ok {t : PayloadText} {s : Str} (h : t.encode = .ok s) : t = .plain s := by
  cases t with
  | plain s' =>
    cases h
    rfl
  | surrogates => cases h

/-- The texts of the payload that passes, and the expiry that its salt states. -/
theorem verifySolution_ok (h : verifySolution d secret payload now = .ok challenge) :
    ∃ salt n, payload.salt = .text (.plain salt) ∧ payload.challenge = .text (.plain challenge) ∧
      int (afterLast expiresMark salt) = .ok n ∧ now < 1000000 * (n : Int) := by
  unfold verifySolution at h
  split at h
  · rename_i saltText number challengeText signature
    obtain ⟨salt, hsalt, h⟩ := bind_eq_ok h
    obtain ⟨issued, hissued, h⟩ := bind_eq_ok h
    obtain ⟨signed, hsigned, h⟩ := bind_eq_ok h
    split at h
    · obtain ⟨work, hwork, h⟩ := bind_eq_ok h
      obtain ⟨solved, hsolved, h⟩ := bind_eq_ok h
      split at h
      · obtain ⟨_, hexpiry, h⟩ := bind_eq_ok h
        obtain ⟨n, hint, hn⟩ := checkExpiry_ok hexpiry
        cases h
        rw [encode_ok hsalt, encode_ok hissued]
        exact ⟨salt, n, rfl, rfl, hint, hn⟩
      · cases h
    · cases h
  · cases h

end CiteVyn.Access
