import CiteVyn.Access.BotCheck
import CiteVyn.Access.Issued
import CiteVyn.Text.Base64
import CiteVyn.Text.JsonLoads

/-! # The header of the bot check

`_decode` and `require_bot_check` of `app/access/bot_check.py`, from the header that a client
sends. What a field of it reaches can raise more than `PowError`; this file says for which
headers it does. -/
namespace CiteVyn.Access.Header
open CiteVyn.Access.BotCheck CiteVyn.Billing CiteVyn.Lib.Effects CiteVyn.Text
open CiteVyn.Text.Base64
open CiteVyn.Text.Json (JsonValue)

/-- What a header comes to that does not pass. -/
inductive HeaderRaised where
  | check (e : Raised)
  | recursionError
  deriving DecidableEq, Repr

abbrev Members := List (PyStr × JsonValue)

/-- `value + "=" * (-len(value) % 4)` -/
def padded (value : Str) : Str := value ++ List.replicate ((4 - value.length % 4) % 4) '='

/-- What `_decode` makes of what `json.loads` comes to. -/
def objectOf : Except JsonLoads.LoadsError JsonValue → Except HeaderRaised Members
  | .ok (.dict members) => .ok members
  | .ok _ => .error (.check (.powError "not a JSON object"))
  | .error .recursionError => .error .recursionError
  | .error .fuel => .error .recursionError
  | .error _ => .error (.check (.powError "not base64url JSON"))

/-- `_decode`, where `limit` containers may be open. -/
def decode (limit : Nat) (value : Str) : Except HeaderRaised Members :=
  match urlsafeB64decode (padded value) with
  | none => .error (.check (.powError "not base64url JSON"))
  | some raw => objectOf (JsonLoads.loads limit raw)

/-- `payload.get(key)`; a key that is there twice has its last value. -/
def get (members : Members) (key : String) : Option JsonValue :=
  (members.reverse.find? fun m => m.1 = codes key.toList).map Prod.snd

/-- A text of code points, unless it has a surrogate. -/
def payloadText (s : PyStr) : PayloadText :=
  match s.mapM CodePoint.char? with
  | some text => .plain text
  | none => .surrogates

def fieldOf : Option JsonValue → Field
  | some (.str s) => .text (payloadText s)
  | some (.int n) => .int n
  | _ => .other

def payloadOf (members : Members) : Payload :=
  ⟨fieldOf (get members "salt"), fieldOf (get members "number"), fieldOf (get members "challenge"),
    fieldOf (get members "signature")⟩

/-- `_decode` and `verify_solution`. -/
def checkHeader (d : Digests) (limit : Nat) (secret value : Str) (now : Int) : Except HeaderRaised Str :=
  match decode limit value with
  | .error e => .error e
  | .ok members =>
    match verifySolution d secret (payloadOf members) now with
    | .ok challenge => .ok challenge
    | .error e => .error (.check e)

/-- `require_bot_check` up to `_use_once`, from the header. -/
def requireHeader (settings : Settings) (limit : Nat) (header : Option Str) (now : Int) : Verdict :=
  if !settings.accessModelEnabled then .off
  else
    match header.filter fun value => !value.isEmpty with
    | none => .refused
    | some value =>
      if settings.botCheckSecret.isEmpty then .refused
      else
        match decode limit value with
        | .ok members => requireBotCheck settings (some (payloadOf members)) now
        | .error (.check (.powError _)) => .refused
        | .error _ => .raised

/-! ## What a payload reaches -/

def Ascii (s : Str) : Prop := ∀ c ∈ s, c.toNat < 128

/-- The fields have the types that are asked for. -/
def Typed (p : Payload) : Prop :=
  ∃ salt number challenge signature, p = ⟨.text salt, .int number, .text challenge, .text signature⟩

/-- The signature is true. -/
def Signed (d : Digests) (secret : Str) (p : Payload) (salt challenge : Str) : Prop :=
  p.salt = .text (.plain salt) ∧ p.challenge = .text (.plain challenge) ∧
    p.signature = .text (.plain (sign d secret salt challenge))

/-- So is the work. -/
def Solved (d : Digests) (p : Payload) (salt challenge : Str) : Prop :=
  ∃ number digits, p.number = .int number ∧ intStr number = some digits ∧ d.sha256 (salt ++ digits) = challenge

/-- The texts of a typed payload have an encoding, the signature and a signed challenge are
ASCII, and the expiry of a solved one is a number if its characters are digits. -/
structure Checkable (d : Digests) (secret : Str) (p : Payload) : Prop where
  salt : Typed p → ∃ s, p.salt = .text (.plain s)
  challenge : Typed p → ∃ c, p.challenge = .text (.plain c)
  signature : Typed p → ∃ g, p.signature = .text (.plain g) ∧ Ascii g
  signed : ∀ s c, Typed p → Signed d secret p s c → Ascii c
  expiry : ∀ s c, Signed d secret p s c → Solved d p s c → isDigitText (afterLast expiresMark s) = true →
    ∃ n, int (afterLast expiresMark s) = .ok n

/-- The expiry of a solution that is still good is a time that `datetime` has. -/
def Dated (d : Digests) (secret : Str) (p : Payload) (now : Int) : Prop :=
  ∀ s c n, Signed d secret p s c → Solved d p s c → int (afterLast expiresMark s) = .ok n →
    now < 1000000 * (n : Int) → (fromTimestamp n).isSome

/-- The digests are hex, as `hexdigest` has them. -/
structure Hex (d : Digests) : Prop where
  sha256 : ∀ text, ∀ c ∈ d.sha256 text, isLowerHex c = true
  hmacSha256 : ∀ key text, ∀ c ∈ d.hmacSha256 key text, isLowerHex c = true

variable {d : Digests} {secret : Str} {p : Payload} {now : Int}

/-- A result, or a `PowError`. -/
def OnlyPow {A : Type} (result : Except Raised A) : Prop :=
  (∃ a, result = .ok a) ∨ ∃ message, result = .error (.powError message)

theorem onlyPow_ok {A : Type} (a : A) : OnlyPow (.ok a : Except Raised A) := .inl ⟨a, rfl⟩

theorem onlyPow_powError {A : Type} (message : String) : OnlyPow (.error (.powError message) : Except Raised A) :=
  .inr ⟨message, rfl⟩

theorem not_onlyPow {A : Type} {e : Raised} (h : ∀ message, e ≠ .powError message) :
    ¬ OnlyPow (.error e : Except Raised A) := by
  intro hp
  rcases hp with ⟨a, ha⟩ | ⟨message, hm⟩
  · cases ha
  · exact h message (Except.error.inj hm)

theorem compareDigest_hex {digest : Str} (text : Str) (h : ∀ c ∈ digest, isLowerHex c = true) :
    (Ascii text → compareDigest digest (.plain text) = .ok (decide (digest = text))) ∧
      (¬ Ascii text → compareDigest digest (.plain text) = .error .typeError) := by
  have hdigest : digest.all (·.toNat < 128) = true :=
    List.all_eq_true.mpr fun c hc => decide_eq_true (isLowerHex_lt (h c hc))
  have htext : text.all (·.toNat < 128) = true ↔ Ascii text := by
    simp [Ascii]
  rw [compareDigest, hdigest, Bool.true_and]
  constructor
  · intro ha
    rw [if_pos (htext.mpr ha)]
  · intro ha
    rw [if_neg fun ht => ha (htext.mp ht)]

theorem checkExpiry_onlyPow (salt : Str) :
    OnlyPow (checkExpiry salt now) ↔
      (isDigitText (afterLast expiresMark salt) = true → ∃ n, int (afterLast expiresMark salt) = .ok n) := by
  rw [checkExpiry]
  by_cases hdigits : isDigitText (afterLast expiresMark salt) = true
  · rw [if_pos hdigits]
    cases hint : int (afterLast expiresMark salt) with
    | ok n =>
      refine iff_of_true ?_ fun _ => ⟨n, rfl⟩
      show OnlyPow (if 1000000 * (n : Int) ≤ now then _ else _)
      split
      · exact onlyPow_powError _
      · exact onlyPow_ok _
    | error e =>
      refine iff_of_false (not_onlyPow fun message h => by cases h) fun h => ?_
      obtain ⟨n, hn⟩ := h hdigits
      cases hn
  · rw [if_neg hdigits]
    exact iff_of_true (onlyPow_powError _) fun h => absurd h hdigits

theorem typed_of_signed {salt challenge : Str} (h : Signed d secret p salt challenge) (hs : Solved d p salt challenge) :
    Typed p := by
  obtain ⟨saltField, numberField, challengeField, signatureField⟩ := p
  obtain ⟨rfl, rfl, rfl⟩ := h
  obtain ⟨number, -, rfl, -⟩ := hs
  exact ⟨_, _, _, _, rfl⟩

/-- A payload that is not typed is malformed. -/
theorem verifySolution_untyped (d : Digests) (secret : Str) (now : Int) (h : ¬ Typed p) :
    verifySolution d secret p now = .error (.powError "malformed solution") ∧ Checkable d secret p := by
  constructor
  · unfold verifySolution
    split
    · exact absurd ⟨_, _, _, _, rfl⟩ h
    · rfl
  · exact ⟨fun ht => absurd ht h, fun ht => absurd ht h, fun ht => absurd ht h, fun _ _ ht => absurd ht h,
      fun s c hs hw => absurd (typed_of_signed hs hw) h⟩

/-- The check once the texts are plain. -/
theorem verifySolution_plain (salt challenge : Str) (number : Int) (signature : PayloadText) :
    verifySolution d secret ⟨.text (.plain salt), .int number, .text (.plain challenge), .text signature⟩ now = (do
      if ← compareDigest (sign d secret salt challenge) signature then
        if ← compareDigest (← hash d salt number) (.plain challenge) then
          checkExpiry salt now
          return challenge
        else throw (.powError "wrong answer")
      else throw (.powError "not a challenge we issued")) := rfl

/-- The fields of a payload with plain texts. -/
theorem checkable_plain {salt challenge signature : Str} {number : Int} :
    Checkable d secret ⟨.text (.plain salt), .int number, .text (.plain challenge), .text (.plain signature)⟩ ↔
      Ascii signature ∧ (sign d secret salt challenge = signature → Ascii challenge ∧
        ∀ digits, intStr number = some digits → d.sha256 (salt ++ digits) = challenge →
          isDigitText (afterLast expiresMark salt) = true → ∃ n, int (afterLast expiresMark salt) = .ok n) := by
  constructor
  · intro h
    have hty : Typed ⟨.text (.plain salt), .int number, .text (.plain challenge), .text (.plain signature)⟩ :=
      ⟨_, _, _, _, rfl⟩
    obtain ⟨g, hg, hascii⟩ := h.signature hty
    cases hg
    refine ⟨hascii, fun he => ?_⟩
    have hsigned : Signed d secret ⟨.text (.plain salt), .int number, .text (.plain challenge),
        .text (.plain signature)⟩ salt challenge := ⟨rfl, rfl, by rw [he]⟩
    exact ⟨h.signed _ _ hty hsigned, fun digits hd hw => h.expiry _ _ hsigned ⟨number, digits, rfl, hd, hw⟩⟩
  · intro h
    refine ⟨fun _ => ⟨_, rfl⟩, fun _ => ⟨_, rfl⟩, fun _ => ⟨_, rfl, h.1⟩, ?_, ?_⟩
    · intro s c _ hs
      obtain ⟨h1, h2, h3⟩ := hs
      cases h1
      cases h2
      exact (h.2 (PayloadText.plain.inj (Field.text.inj h3)).symm).1
    · intro s c hs hw
      obtain ⟨h1, h2, h3⟩ := hs
      obtain ⟨n, digits, hn, hd, hwork⟩ := hw
      cases h1
      cases h2
      cases hn
      exact (h.2 (PayloadText.plain.inj (Field.text.inj h3)).symm).2 digits hd hwork

theorem plain_onlyPow (hhex : Hex d) {salt challenge signature : Str} {number : Int} (hnumber : (intStr number).isSome) :
    OnlyPow (verifySolution d secret
        ⟨.text (.plain salt), .int number, .text (.plain challenge), .text (.plain signature)⟩ now) ↔
      Checkable d secret ⟨.text (.plain salt), .int number, .text (.plain challenge), .text (.plain signature)⟩ := by
  obtain ⟨digits, hdigits⟩ := Option.isSome_iff_exists.mp hnumber
  obtain ⟨hsigned, hnotSigned⟩ := compareDigest_hex signature (hhex.hmacSha256 secret (salt ++ '|' :: challenge))
  obtain ⟨hwork, hnotWork⟩ := compareDigest_hex challenge (hhex.sha256 (salt ++ digits))
  rw [verifySolution_plain, checkable_plain, sign, hash, hdigits]
  by_cases hascii : Ascii signature
  swap
  · rw [hnotSigned hascii]
    exact iff_of_false (not_onlyPow fun message h => by cases h) fun h => hascii h.1
  rw [hsigned hascii, and_iff_right hascii]
  by_cases hsame : d.hmacSha256 secret (salt ++ '|' :: challenge) = signature
  swap
  · rw [decide_eq_false hsame]
    exact iff_of_true (onlyPow_powError _) fun h => absurd h hsame
  rw [decide_eq_true hsame, forall_prop_of_true hsame]
  by_cases hchallenge : Ascii challenge
  swap
  · simp only [bind, Except.bind, hnotWork hchallenge, if_pos]
    exact iff_of_false (not_onlyPow fun message h => by cases h) fun h => hchallenge h.1
  rw [and_iff_right hchallenge]
  have hcondition : (∀ ds, some digits = some ds → d.sha256 (salt ++ ds) = challenge →
      isDigitText (afterLast expiresMark salt) = true → ∃ n, int (afterLast expiresMark salt) = .ok n) ↔
      (d.sha256 (salt ++ digits) = challenge → OnlyPow (checkExpiry salt now)) := by
    rw [checkExpiry_onlyPow]
    constructor
    · exact fun h => h digits rfl
    · intro h ds hds
      cases hds
      exact h
  rw [hcondition]
  simp only [bind, Except.bind, hwork hchallenge, if_pos]
  by_cases hright : d.sha256 (salt ++ digits) = challenge
  swap
  · rw [decide_eq_false hright]
    exact iff_of_true (onlyPow_powError _) fun h => absurd h hright
  rw [decide_eq_true hright, forall_prop_of_true hright, if_pos rfl]
  cases checkExpiry salt now with
  | ok u => exact iff_of_true (onlyPow_ok _) (onlyPow_ok u)
  | error e =>
    constructor
    · intro h
      rcases h with ⟨a, ha⟩ | ⟨message, hm⟩
      · cases ha
      · cases hm
        exact onlyPow_powError _
    · intro h
      rcases h with ⟨a, ha⟩ | ⟨message, hm⟩
      · cases ha
      · cases hm
        exact onlyPow_powError _

/-- The check of a payload raises a `PowError` or nothing exactly when it is checkable. -/
theorem verifySolution_onlyPow (hhex : Hex d) (hnumber : ∀ n, p.number = .int n → (intStr n).isSome) :
    OnlyPow (verifySolution d secret p now) ↔ Checkable d secret p := by
  by_cases htyped : Typed p
  swap
  · obtain ⟨hverify, hcheckable⟩ := verifySolution_untyped d secret now htyped
    rw [hverify]
    exact iff_of_true (onlyPow_powError _) hcheckable
  have hty := htyped
  obtain ⟨saltText, number, challengeText, signatureText, rfl⟩ := htyped
  cases saltText with
  | surrogates =>
    refine iff_of_false (not_onlyPow fun message h => by cases h) fun h => ?_
    obtain ⟨s, hs⟩ := h.salt hty
    cases hs
  | plain salt =>
    cases challengeText with
    | surrogates =>
      refine iff_of_false (not_onlyPow fun message h => by cases h) fun h => ?_
      obtain ⟨c, hc⟩ := h.challenge hty
      cases hc
    | plain challenge =>
      rw [verifySolution_plain]
      cases signatureText with
      | surrogates =>
        refine iff_of_false (not_onlyPow fun message h => by cases h) fun h => ?_
        obtain ⟨g, hg, -⟩ := h.signature hty
        cases hg
      | plain signature => exact plain_onlyPow hhex (hnumber number rfl)

/-! ## What a header reaches -/

/-- The header is base64 of JSON in which too many containers are open at once. -/
def TooDeep (limit : Nat) (value : Str) : Prop :=
  ∃ raw, urlsafeB64decode (padded value) = some raw ∧ JsonLoads.loads limit raw = .error .recursionError

/-- The header is base64 of a JSON object. -/
def Holds (limit : Nat) (value : Str) (members : Members) : Prop :=
  ∃ raw, urlsafeB64decode (padded value) = some raw ∧ JsonLoads.loads limit raw = .ok (.dict members)

/-- A header holds an object, or is nested too deeply, or is refused. -/
theorem decode_cases (limit : Nat) (value : Str) :
    (∃ members, decode limit value = .ok members ∧ ¬ TooDeep limit value ∧
        ∀ other, Holds limit value other ↔ other = members) ∨
      (decode limit value = .error .recursionError ∧ TooDeep limit value) ∨
      (∃ message, decode limit value = .error (.check (.powError message))) ∧ ¬ TooDeep limit value ∧
        ∀ members, ¬ Holds limit value members := by
  unfold decode TooDeep Holds
  cases urlsafeB64decode (padded value) with
  | none => exact .inr (.inr ⟨⟨_, rfl⟩, by simp, by simp⟩)
  | some raw =>
    have hfuel := JsonLoads.loads_ne_fuel limit raw
    simp only [Option.some.injEq, exists_eq_left']
    cases hloads : JsonLoads.loads limit raw with
    | ok v =>
      cases v with
      | dict members => exact .inl ⟨members, rfl, by simp, fun other => by simp [eq_comm]⟩
      | _ => exact .inr (.inr ⟨⟨_, rfl⟩, by simp, by simp⟩)
    | error e =>
      cases e with
      | recursionError => exact .inr (.inl ⟨rfl, rfl⟩)
      | fuel => exact absurd hloads hfuel
      | _ => exact .inr (.inr ⟨⟨_, rfl⟩, by simp, by simp⟩)

/-- An integer that was decoded can be written. -/
theorem intStr_of_holds {limit : Nat} {value : Str} {members : Members} (h : Holds limit value members) {n : Int}
    (hn : (payloadOf members).number = .int n) : (intStr n).isSome := by
  obtain ⟨raw, -, hloads⟩ := h
  have hnumber : get members "number" = some (.int n) := by
    revert hn
    show fieldOf (get members "number") = .int n → _
    unfold fieldOf
    split
    · exact fun h => by cases h
    · rename_i heq
      intro h
      cases h
      exact heq
    · exact fun h => by cases h
  obtain ⟨m, hm, hvalue⟩ := Option.map_eq_some_iff.mp hnumber
  have hmem := List.mem_reverse.mp (List.mem_of_find?_eq_some hm)
  have hlimit : intMaxStrDigits = Json.maxStrDigits := rfl
  rw [intStr_isSome_iff, hlimit]
  cases JsonLoads.loads_built hloads with
  | token htoken => exact absurd rfl (htoken.not_dict members)
  | dict hbuilt =>
    have hint := hbuilt m hmem
    rw [hvalue] at hint
    cases hint with
    | token htoken => exact htoken.small n rfl

/-- A result, or a `PowError`. -/
def OnlyPowHeader (result : Except HeaderRaised Str) : Prop :=
  (∃ challenge, result = .ok challenge) ∨ ∃ message, result = .error (.check (.powError message))

theorem onlyPowHeader_of_verify {result : Except Raised Str} :
    OnlyPowHeader (match result with
      | .ok challenge => .ok challenge
      | .error e => .error (.check e)) ↔ OnlyPow result := by
  cases result with
  | ok challenge => exact iff_of_true (.inl ⟨challenge, rfl⟩) (onlyPow_ok challenge)
  | error e =>
    constructor
    · intro h
      rcases h with ⟨c, hc⟩ | ⟨message, hm⟩
      · cases hc
      · cases hm
        exact onlyPow_powError message
    · intro h
      rcases h with ⟨c, hc⟩ | ⟨message, hm⟩
      · cases hc
      · cases hm
        exact .inr ⟨message, rfl⟩

/-- What is held of the one object that a header holds. -/
theorem forall_holds {limit : Nat} {value : Str} {members : Members} {P : Members → Prop}
    (h : ∀ other, Holds limit value other ↔ other = members) : (∀ other, Holds limit value other → P other) ↔ P members := by
  constructor
  · exact fun hp => hp members ((h members).mpr rfl)
  · intro hp other hother
    rw [(h other).mp hother]
    exact hp

theorem checkHeader_onlyPow (hhex : Hex d) (limit : Nat) (value : Str) :
    OnlyPowHeader (checkHeader d limit secret value now) ↔
      ¬ TooDeep limit value ∧ ∀ members, Holds limit value members → Checkable d secret (payloadOf members) := by
  rw [checkHeader]
  rcases decode_cases limit value with ⟨members, hdecode, hdeep, hholds⟩ | ⟨hdecode, hdeep⟩ |
    ⟨⟨message, hdecode⟩, hdeep, hholds⟩
  · rw [hdecode, forall_holds hholds, and_iff_right hdeep]
    exact onlyPowHeader_of_verify.trans
      (verifySolution_onlyPow hhex fun n hn => intStr_of_holds ((hholds members).mpr rfl) hn)
  · rw [hdecode]
    refine iff_of_false (fun h => ?_) fun h => h.1 hdeep
    rcases h with ⟨c, hc⟩ | ⟨message, hm⟩
    · cases hc
    · cases hm
  · rw [hdecode]
    exact iff_of_true (.inr ⟨message, rfl⟩) ⟨hdeep, fun members h => absurd h (hholds members)⟩

theorem isDigitText_of_int {s : Str} {n : Nat} (h : int s = .ok n) : isDigitText s = true := by
  rw [int] at h
  split at h
  · cases h
  · rename_i hdigits
    rw [Bool.or_eq_true, not_or] at hdigits
    have hall : s.all isDecimal = true := by simpa using hdigits.2
    rw [isDigitText, Bool.and_eq_true, List.all_eq_true]
    refine ⟨by simpa using hdigits.1, fun c hc => ?_⟩
    rw [List.all_eq_true.mp hall c hc, Bool.true_or]

/-- A true solution that is still good passes. -/
theorem verifySolution_of_solved (hhex : Hex d) {salt challenge : Str} {n : Nat} (hsigned : Signed d secret p salt challenge)
    (hsolved : Solved d p salt challenge) (hint : int (afterLast expiresMark salt) = .ok n)
    (hnow : now < 1000000 * (n : Int)) : verifySolution d secret p now = .ok challenge := by
  obtain ⟨saltField, numberField, challengeField, signatureField⟩ := p
  obtain ⟨rfl, rfl, rfl⟩ := hsigned
  obtain ⟨number, digits, rfl, hdigits, hwork⟩ := hsolved
  have hascii : Ascii challenge := fun c hc => isLowerHex_lt (hhex.sha256 _ c (hwork ▸ hc))
  have hascii' : Ascii (sign d secret salt challenge) := fun c hc => isLowerHex_lt (hhex.hmacSha256 _ _ c hc)
  have hsign : compareDigest (sign d secret salt challenge) (.plain (sign d secret salt challenge)) =
      .ok (decide (sign d secret salt challenge = sign d secret salt challenge)) :=
    (compareDigest_hex _ (hhex.hmacSha256 secret (salt ++ '|' :: challenge))).1 hascii'
  have hhash := (compareDigest_hex challenge (hhex.sha256 (salt ++ digits))).1 hascii
  rw [hwork] at hhash
  have hlate : ¬ 1000000 * (n : Int) ≤ now := by omega
  rw [verifySolution_plain, hsign, hash, hdigits]
  simp only [bind, Except.bind, decide_true, if_pos, hhash, hwork, checkExpiry, isDigitText_of_int hint, hint,
    if_neg hlate]
  rfl

theorem requireBotCheck_ne_raised {settings : Settings} (hhex : Hex settings.toDigests)
    (henabled : settings.accessModelEnabled = true) (hsecret : settings.botCheckSecret ≠ []) :
    requireBotCheck settings (some p) now ≠ .raised ↔
      OnlyPow (verifySolution settings.toDigests settings.botCheckSecret p now) ∧
        Dated settings.toDigests settings.botCheckSecret p now := by
  have hne : settings.botCheckSecret.isEmpty = false := by simpa using hsecret
  simp only [requireBotCheck, henabled, hne, Bool.not_true, Bool.false_eq_true, if_false]
  cases hverify : verifySolution settings.toDigests settings.botCheckSecret p now with
  | error e =>
    -- a check that does not pass leaves no expiry to convert
    have hdated : Dated settings.toDigests settings.botCheckSecret p now := by
      intro s c n hsigned hsolved hint hnow
      rw [verifySolution_of_solved hhex hsigned hsolved hint hnow] at hverify
      cases hverify
    rw [and_iff_left hdated]
    cases e with
    | powError message => exact iff_of_true (fun h => by cases h) (onlyPow_powError message)
    | typeError => exact iff_of_false (fun h => h rfl) (not_onlyPow fun message h => by cases h)
    | valueError => exact iff_of_false (fun h => h rfl) (not_onlyPow fun message h => by cases h)
  | ok challenge =>
    obtain ⟨salt, number, digits, n, hsalt, hchallenge, hnumber, hsignature, hdigits, hwork, hint, hnow⟩ :=
      verifySolution_checks hverify
    have hsigned : Signed settings.toDigests settings.botCheckSecret p salt challenge := ⟨hsalt, hchallenge, hsignature⟩
    have hsolved : Solved settings.toDigests p salt challenge := ⟨number, digits, hnumber, hdigits, hwork⟩
    have hexpiry : expiryOf salt = fromTimestamp n := by
      rw [expiryOf, hint]
      rfl
    have hdated : Dated settings.toDigests settings.botCheckSecret p now ↔ (fromTimestamp n).isSome := by
      constructor
      · exact fun h => h salt challenge n hsigned hsolved hint hnow
      · intro h s c m hs _ hm _
        have hsame : salt = s := PayloadText.plain.inj (Field.text.inj (hsalt.symm.trans hs.1))
        subst hsame
        rw [hint] at hm
        rwa [← Except.ok.inj hm]
    rw [and_iff_right (onlyPow_ok challenge), hdated, hsalt]
    dsimp only
    rw [hexpiry]
    cases fromTimestamp n with
    | none => exact iff_of_false (fun h => h rfl) Bool.false_ne_true
    | some expiresAt => exact iff_of_true (fun h => by cases h) rfl

/-- `_decode` and `verify_solution` raise nothing but `PowError` exactly when the header is not
nested too deeply and what it holds is checkable; `require_bot_check` answers with a pass or
a refusal exactly when, in addition, the expiry of a good solution is a time. -/
theorem header_answers (settings : Settings) (hhex : Hex settings.toDigests) (limit : Nat) (value : Str) (now : Int) :
    (OnlyPowHeader (checkHeader settings.toDigests limit settings.botCheckSecret value now) ↔
        ¬ TooDeep limit value ∧ ∀ members, Holds limit value members →
          Checkable settings.toDigests settings.botCheckSecret (payloadOf members)) ∧
      (requireHeader settings limit (some value) now ≠ .raised ↔
        (settings.accessModelEnabled = true → settings.botCheckSecret ≠ [] → value ≠ [] →
          ¬ TooDeep limit value ∧ ∀ members, Holds limit value members →
            Checkable settings.toDigests settings.botCheckSecret (payloadOf members) ∧
              Dated settings.toDigests settings.botCheckSecret (payloadOf members) now)) := by
  refine ⟨checkHeader_onlyPow hhex limit value, ?_⟩
  rw [requireHeader]
  by_cases henabled : settings.accessModelEnabled = true
  swap
  · rw [Bool.not_eq_true] at henabled
    rw [henabled]
    exact iff_of_true (fun h => by cases h) fun h => absurd h Bool.false_ne_true
  by_cases hvalue : value = []
  · subst hvalue
    rw [henabled]
    exact iff_of_true (fun h => by cases h) fun _ _ h => absurd rfl h
  have hfilter : (some value).filter (fun value => !value.isEmpty) = some value := by simp [hvalue]
  by_cases hsecret : settings.botCheckSecret = []
  · rw [henabled, hfilter, hsecret]
    exact iff_of_true (fun h => by cases h) fun _ h => absurd rfl h
  have hne : settings.botCheckSecret.isEmpty = false := by simpa using hsecret
  rw [hfilter, forall_prop_of_true henabled, forall_prop_of_true hsecret, forall_prop_of_true hvalue]
  simp only [henabled, hne, Bool.not_true, Bool.false_eq_true, if_false]
  rcases decode_cases limit value with ⟨members, hdecode, hdeep, hholds⟩ | ⟨hdecode, hdeep⟩ |
    ⟨⟨message, hdecode⟩, hdeep, hholds⟩
  · rw [hdecode, forall_holds hholds, and_iff_right hdeep]
    exact (requireBotCheck_ne_raised hhex henabled hsecret).trans (and_congr_left' (verifySolution_onlyPow hhex
      fun n hn => intStr_of_holds ((hholds members).mpr rfl) hn))
  · rw [hdecode]
    exact iff_of_false (fun h => h rfl) fun h => h.1 hdeep
  · rw [hdecode]
    exact iff_of_true (fun h => by cases h) ⟨hdeep, fun members h => absurd h (hholds members)⟩

def exampleSettings : Settings where
  toDigests := oneChallenge
  accessModelEnabled := true
  botCheckSecret := "secret".toList
  botCheckMaxNumber := 10
  botCheckTtlSeconds := 600

theorem exampleSettings_hex : Hex exampleSettings.toDigests where
  sha256 := oneChallenge_collisionFree.hex
  hmacSha256 _ _ := by
    show ∀ c ∈ "ade4d4ea4a7921e4edf972efeb35dee998168ebaa52d6c76a99343adf0eea916".toList, isLowerHex c = true
    exact List.all_eq_true.mp (by decide)

/-- The header of `{}`. -/
theorem header_answers_empty :
    OnlyPowHeader (checkHeader oneChallenge 1000 "secret".toList "e30".toList 0) ∧
      requireHeader exampleSettings 1000 (some "e30".toList) 0 ≠ .raised := by
  obtain ⟨hcheck, hrequire⟩ := header_answers exampleSettings exampleSettings_hex 1000 "e30".toList 0
  have hraw : urlsafeB64decode (padded "e30".toList) = some [0x7B, 0x7D] := by decide
  have hloads : JsonLoads.loads 1000 [0x7B, 0x7D] = .ok (.dict []) := rfl
  have hdeep : ¬ TooDeep 1000 "e30".toList := by
    intro h
    obtain ⟨raw, hr, hl⟩ := h
    obtain rfl := Option.some.inj (hraw.symm.trans hr)
    rw [hloads] at hl
    cases hl
  have hholds : ∀ members, Holds 1000 "e30".toList members → members = [] := by
    intro members h
    obtain ⟨raw, hr, hl⟩ := h
    obtain rfl := Option.some.inj (hraw.symm.trans hr)
    rw [hloads] at hl
    cases hl
    rfl
  have huntyped : ¬ Typed (payloadOf []) := by
    intro h
    obtain ⟨_, _, _, _, h⟩ := h
    cases h
  have hcheckable := (verifySolution_untyped oneChallenge "secret".toList 0 huntyped).2
  refine ⟨hcheck.mpr ⟨hdeep, fun members hm => ?_⟩, hrequire.mpr fun _ _ _ => ⟨hdeep, fun members hm => ?_⟩⟩
  · rw [hholds members hm]
    exact hcheckable
  · rw [hholds members hm]
    exact ⟨hcheckable, fun s c n hsigned hsolved => absurd (typed_of_signed hsigned hsolved) huntyped⟩

/-- The header of `{"salt":"","challenge":"","signature":"é","number":0}`: `compare_digest` raises
a `TypeError`, and the request ends in a server error. -/
theorem header_answers_signature :
    ¬ OnlyPowHeader (checkHeader oneChallenge 1000 "secret".toList
        "eyJzYWx0IjoiIiwiY2hhbGxlbmdlIjoiIiwic2lnbmF0dXJlIjoiw6kiLCJudW1iZXIiOjB9".toList 0) ∧
      requireHeader exampleSettings 1000
        (some "eyJzYWx0IjoiIiwiY2hhbGxlbmdlIjoiIiwic2lnbmF0dXJlIjoiw6kiLCJudW1iZXIiOjB9".toList) 0 = .raised := by
  have hcheck : checkHeader oneChallenge 1000 "secret".toList
      "eyJzYWx0IjoiIiwiY2hhbGxlbmdlIjoiIiwic2lnbmF0dXJlIjoiw6kiLCJudW1iZXIiOjB9".toList 0 =
        .error (.check .typeError) := by
    decide +kernel
  refine ⟨fun h => ?_, by decide +kernel⟩
  rw [hcheck] at h
  rcases h with ⟨c, hc⟩ | ⟨message, hm⟩
  · cases hc
  · cases hm

end CiteVyn.Access.Header
