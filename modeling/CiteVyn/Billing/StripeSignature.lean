import CiteVyn.Lib.Effects
import CiteVyn.Text.CodePoints
import CiteVyn.Text.Integers

/-! # The signature of a webhook

`app/billing/stripe_signature.py`: the parts of the header, the window around the
timestamp, and the digest that one of the signatures has to be. -/
namespace CiteVyn.Billing.StripeSignature
open CiteVyn.Lib.Effects CiteVyn.Text

/-- What the check raises. -/
inductive Raised where
  | signatureError (message : String)
  /-- with `UnicodeEncodeError` -/
  | valueError
  | typeError
  deriving DecidableEq, Repr

/-- `_HEX.fullmatch`. -/
def isHex (value : Str) : Bool := !value.isEmpty && value.all isLowerHex

/-- `s.partition(sep)` without the separator. -/
def partition (sep : Char) (s : Str) : Str × Str := (s.takeWhile (· != sep), (s.dropWhile (· != sep)).tail)

/-- What the loop has read. -/
structure Parts where
  timestamp : Option Int
  candidates : List Str
  deriving DecidableEq, Repr

/-- The key and the value of one part of the header. -/
def fieldOf (part : Str) : Str × Str := partition '=' (strip part)

/-- What one part adds. -/
def Parts.read (parts : Parts) (field : Str × Str) : Except Raised Parts :=
  if field.1 = "t".toList then
    match parseInt field.2 with
    | .ok n => .ok { parts with timestamp := some n }
    | .error _ => .error (.signatureError "timestamp is not a number")
  else if field.1 = "v1".toList && !field.2.isEmpty then
    if isHex field.2 then .ok { parts with candidates := parts.candidates ++ [field.2] }
    else .error (.signatureError "v1 signature is not hex")
  else .ok parts

/-- The loop over the parts. -/
def readParts (parts : Parts) : List Str → Except Raised Parts
  | [] => .ok parts
  | part :: rest => do readParts (← parts.read (fieldOf part)) rest

/-- `str.encode()` of a text without surrogates. -/
def encodeText (s : Str) : List UInt8 := (codes s).flatMap utf8Bytes

/-- `bytes.hex()`. -/
def hexdigest (digest : List UInt8) : Str := digest.flatMap fun b => hex 2 b.toNat

/-- `hmac.compare_digest` of two texts: only ASCII ones compare. -/
def compareDigest (a b : Str) : Except Raised Bool :=
  if a.all (·.toNat < 128) && b.all (·.toNat < 128) then .ok (a = b) else .error .typeError

/-- `any(hmac.compare_digest(expected, c) for c in candidates)`. -/
def anyMatches (expected : Str) : List Str → Except Raised Bool
  | [] => .ok false
  | candidate :: rest => do
    if ← compareDigest expected candidate then return true
    else anyMatches expected rest

/-- HMAC-SHA256: the digest of a message under a key. -/
abbrev Hmac := List UInt8 → List UInt8 → List UInt8

variable (hmacSha256 : Hmac)

/-- The digest of the payload at a timestamp. -/
def expectedDigest (payload : List UInt8) (secret : PyStr) (timestamp : Int) : Except Raised Str :=
  match encodeUtf8 secret, intStr timestamp with
  | some key, some digits => .ok (hexdigest (hmacSha256 key (encodeText (digits ++ ['.']) ++ payload)))
  | _, _ => .error .valueError

/-- `verify_signature`. A header is decoded from Latin-1 and has no surrogates; the secret
comes from the environment and can. -/
def verifySignature (payload : List UInt8) (header : Str) (secret : PyStr) (toleranceS now : Int) :
    Except Raised Unit :=
  if secret.isEmpty then .error (.signatureError "no webhook secret configured")
  else do
    match ← readParts ⟨none, []⟩ (header.splitOn ',') with
    | ⟨some timestamp, candidate :: candidates⟩ =>
      if toleranceS < (now - timestamp).natAbs then throw (.signatureError "timestamp outside the tolerance window")
      else
        let expected ← expectedDigest hmacSha256 payload secret timestamp
        if ← anyMatches expected (candidate :: candidates) then return ()
        else throw (.signatureError "no signature matches")
    | _ => throw (.signatureError "missing timestamp or v1 signature")

/-! ## What a header says -/

/-- The parts of a header, each with its key and its value. -/
def fields (header : Str) : List (Str × Str) := (header.splitOn ',').map fieldOf

def timestamps (fields : List (Str × Str)) : List Str :=
  (fields.filter fun field => field.1 = "t".toList).map Prod.snd

def signatures (fields : List (Str × Str)) : List Str :=
  (fields.filter fun field => field.1 = "v1".toList && !field.2.isEmpty).map Prod.snd

/-- Every timestamp is an integer and every signature hex, and both are there; `n` is the
last timestamp. -/
structure WellFormed (header : Str) (n : Int) : Prop where
  integers : ∀ value ∈ timestamps (fields header), ∃ m, parseInt value = .ok m
  last : ∃ value, (timestamps (fields header)).getLast? = some value ∧ parseInt value = .ok n
  hex : ∀ value ∈ signatures (fields header), ∀ c ∈ value, isLowerHex c = true
  signed : signatures (fields header) ≠ []

/-- The loop reads all of the header. -/
def Readable (fields : List (Str × Str)) : Prop :=
  (∀ value ∈ timestamps fields, ∃ m, parseInt value = .ok m) ∧ ∀ value ∈ signatures fields, isHex value = true

/-- The timestamp after some more have been read. -/
def lastTimestamp (before : Option Int) (values : List Str) : Option Int :=
  match values.getLast? with
  | some value => (parseInt value).toOption
  | none => before

theorem timestamps_cons (field : Str × Str) (rest : List (Str × Str)) :
    timestamps (field :: rest) = if field.1 = "t".toList then field.2 :: timestamps rest else timestamps rest := by
  rw [timestamps, List.filter_cons]
  by_cases h : field.1 = "t".toList
  · rw [if_pos h, if_pos (decide_eq_true h)]
    rfl
  · rw [if_neg h, if_neg (by simpa using h)]
    rfl

theorem signatures_cons (field : Str × Str) (rest : List (Str × Str)) :
    signatures (field :: rest) =
      if field.1 = "v1".toList && !field.2.isEmpty then field.2 :: signatures rest else signatures rest := by
  rw [signatures, List.filter_cons]
  by_cases h : (field.1 = "v1".toList && !field.2.isEmpty) = true
  · rw [if_pos h, if_pos h]
    rfl
  · rw [if_neg h, if_neg h]
    rfl

theorem lastTimestamp_cons {value : Str} {n : Int} (h : parseInt value = .ok n) (before : Option Int) (values : List Str) :
    lastTimestamp before (value :: values) = lastTimestamp (some n) values := by
  rw [lastTimestamp, lastTimestamp, List.getLast?_cons]
  cases values.getLast? with
  | none =>
    show (parseInt value).toOption = some n
    rw [h]
    rfl
  | some last => rfl

/-- One part is read, and the rest with it, or one of the two is refused. -/
theorem Parts.read_spec (parts : Parts) (field : Str × Str) (rest : List (Str × Str)) :
    (∃ parts', parts.read field = .ok parts' ∧ (Readable (field :: rest) ↔ Readable rest) ∧
        lastTimestamp parts.timestamp (timestamps (field :: rest)) = lastTimestamp parts'.timestamp (timestamps rest) ∧
        parts.candidates ++ signatures (field :: rest) = parts'.candidates ++ signatures rest) ∨
      (∃ message, parts.read field = .error (.signatureError message)) ∧ ¬ Readable (field :: rest) := by
  rw [Parts.read, Readable, Readable, timestamps_cons, signatures_cons]
  by_cases ht : field.1 = "t".toList
  · have hv : ¬ (field.1 = "v1".toList && !field.2.isEmpty) = true := by
      rw [ht]
      exact Bool.false_ne_true
    rw [if_pos ht, if_pos ht, if_neg hv]
    cases hparse : parseInt field.2 with
    | error e =>
      refine .inr ⟨⟨_, rfl⟩, fun h => ?_⟩
      obtain ⟨m, hm⟩ := h.1 field.2 List.mem_cons_self
      rw [hparse] at hm
      cases hm
    | ok n =>
      have hinteger : ∃ m, parseInt field.2 = .ok m := ⟨n, hparse⟩
      refine .inl ⟨_, rfl, ?_, lastTimestamp_cons hparse _ _, rfl⟩
      rw [List.forall_mem_cons, and_iff_right hinteger]
  · rw [if_neg ht, if_neg ht]
    by_cases hv : (field.1 = "v1".toList && !field.2.isEmpty) = true
    · rw [if_pos hv, if_pos hv]
      by_cases hhex : isHex field.2 = true
      · rw [if_pos hhex]
        refine .inl ⟨_, rfl, ?_, rfl, ?_⟩
        · rw [List.forall_mem_cons, and_iff_right hhex]
        · rw [List.append_assoc, List.singleton_append]
      · rw [if_neg hhex]
        exact .inr ⟨⟨_, rfl⟩, fun h => hhex (h.2 field.2 List.mem_cons_self)⟩
    · rw [if_neg hv, if_neg hv]
      exact .inl ⟨parts, rfl, Iff.rfl, rfl, rfl⟩

/-- The loop reads the header to its end, or refuses it. -/
theorem readParts_spec (ps : List Str) : ∀ parts : Parts,
    (Readable (ps.map fieldOf) ∧ readParts parts ps =
        .ok ⟨lastTimestamp parts.timestamp (timestamps (ps.map fieldOf)), parts.candidates ++ signatures (ps.map fieldOf)⟩) ∨
      (∃ message, readParts parts ps = .error (.signatureError message)) ∧ ¬ Readable (ps.map fieldOf) := by
  induction ps with
  | nil =>
    intro parts
    refine .inl ⟨⟨fun v hv => absurd hv List.not_mem_nil, fun v hv => absurd hv List.not_mem_nil⟩, ?_⟩
    show Except.ok parts = .ok ⟨parts.timestamp, parts.candidates ++ []⟩
    rw [List.append_nil]
  | cons part ps ih =>
    intro parts
    rw [List.map_cons, readParts]
    rcases parts.read_spec (fieldOf part) (ps.map fieldOf) with ⟨parts', hread, hreadable, hlast, hsigs⟩ | ⟨⟨message, hread⟩, hnot⟩
    · rw [hread, hreadable, hlast, hsigs]
      exact ih parts'
    · rw [hread]
      exact .inr ⟨⟨message, rfl⟩, hnot⟩

theorem isHex_of_mem_signatures {fs : List (Str × Str)} {value : Str} (h : value ∈ signatures fs) :
    isHex value = true ↔ ∀ c ∈ value, isLowerHex c = true := by
  obtain ⟨field, hfield, rfl⟩ := List.mem_map.mp h
  have hne := (Bool.and_eq_true_iff.mp (List.mem_filter.mp hfield).2).2
  rw [isHex, hne, Bool.true_and, List.all_eq_true]

/-- A well-formed header is one that the loop reads, with a timestamp and a signature. -/
theorem wellFormed_iff (header : Str) (n : Int) :
    WellFormed header n ↔ Readable (fields header) ∧ lastTimestamp none (timestamps (fields header)) = some n ∧
      signatures (fields header) ≠ [] := by
  have hlast : ∀ values : List Str, (∃ value, values.getLast? = some value ∧ parseInt value = .ok n) ↔
      lastTimestamp none values = some n := by
    intro values
    rw [lastTimestamp]
    cases values.getLast? with
    | none => simp
    | some value =>
      cases h : parseInt value with
      | error e => simp [h, Except.toOption]
      | ok m => simp [h, Except.toOption]
  constructor
  · intro h
    exact ⟨⟨h.integers, fun v hv => (isHex_of_mem_signatures hv).mpr (h.hex v hv)⟩, (hlast _).mp h.last, h.signed⟩
  · intro h
    exact ⟨h.1.1, (hlast _).mpr h.2.1, fun v hv => (isHex_of_mem_signatures hv).mp (h.1.2 v hv), h.2.2⟩

/-! ## The comparison -/

theorem ascii_of_hex {s : Str} (h : ∀ c ∈ s, isLowerHex c = true) : s.all (·.toNat < 128) = true :=
  List.all_eq_true.mpr fun c hc => decide_eq_true (isLowerHex_lt (h c hc))

theorem isLowerHex_of_mem_hexdigest (digest : List UInt8) : ∀ c ∈ hexdigest digest, isLowerHex c = true := by
  intro c hc
  obtain ⟨b, -, hb⟩ := List.mem_flatMap.mp hc
  exact isLowerHex_of_mem_hex hb

/-- Hex compares with hex. -/
theorem anyMatches_eq {expected : Str} (hexpected : ∀ c ∈ expected, isLowerHex c = true) (candidates : List Str)
    (h : ∀ value ∈ candidates, ∀ c ∈ value, isLowerHex c = true) :
    anyMatches expected candidates = .ok (decide (expected ∈ candidates)) := by
  induction candidates with
  | nil => rfl
  | cons value rest ih =>
    have hcompare : compareDigest expected value = .ok (decide (expected = value)) := by
      rw [compareDigest, ascii_of_hex hexpected, ascii_of_hex (h value List.mem_cons_self)]
      rfl
    rw [anyMatches, hcompare, ih fun v hv => h v (List.mem_cons_of_mem value hv)]
    by_cases he : expected = value
    · simp [he, bind, Except.bind, pure, Except.pure]
    · simp [he, bind, Except.bind]

/-! ## What is accepted -/

/-- The header is one of a delivery that the tolerance still covers. -/
def Fresh (header : Str) (toleranceS now : Int) : Prop :=
  ∃ n, WellFormed header n ∧ (now - n).natAbs ≤ toleranceS

/-- The delivery is genuine: a signature is the digest of the last timestamp and the payload. -/
def Genuine (payload : List UInt8) (header : Str) (secret : PyStr) (toleranceS now : Int) : Prop :=
  secret ≠ [] ∧ ∃ n, WellFormed header n ∧ (now - n).natAbs ≤ toleranceS ∧
    ∃ key digits, encodeUtf8 secret = some key ∧ intStr n = some digits ∧
      hexdigest (hmacSha256 key (encodeText (digits ++ ['.']) ++ payload)) ∈ signatures (fields header)

/-- A refusal. -/
def Refused (result : Except Raised Unit) : Prop := ∃ message, result = .error (.signatureError message)

variable {hmacSha256} {payload : List UInt8} {header : Str} {secret : PyStr} {toleranceS now : Int}

/-- The loop over a header. -/
theorem readParts_header (header : Str) :
    (Readable (fields header) ∧ readParts ⟨none, []⟩ (header.splitOn ',') =
        .ok ⟨lastTimestamp none (timestamps (fields header)), signatures (fields header)⟩) ∨
      (∃ message, readParts ⟨none, []⟩ (header.splitOn ',') = .error (.signatureError message)) ∧
        ¬ Readable (fields header) :=
  readParts_spec (header.splitOn ',') ⟨none, []⟩

/-- Without a secret, or with a header that is not fresh, the delivery is refused. -/
theorem refused_of_not_fresh (hmacSha256 : Hmac) (payload : List UInt8)
    (h : secret = [] ∨ ¬ Fresh header toleranceS now) :
    Refused (verifySignature hmacSha256 payload header secret toleranceS now) := by
  rw [verifySignature]
  split
  · exact ⟨_, rfl⟩
  · rename_i hsecret
    have hstale := h.resolve_left fun he => hsecret (by rw [he]; rfl)
    rcases readParts_header header with ⟨hreadable, hread⟩ | ⟨⟨message, hread⟩, -⟩
    · rw [hread]
      cases ht : lastTimestamp none (timestamps (fields header)) with
      | none => exact ⟨_, rfl⟩
      | some n =>
        cases hs : signatures (fields header) with
        | nil => exact ⟨_, rfl⟩
        | cons value rest =>
          have hfar : toleranceS < (now - n).natAbs := by
            by_contra hnear
            exact hstale ⟨n, (wellFormed_iff header n).mpr ⟨hreadable, ht, hs ▸ List.cons_ne_nil value rest⟩, by omega⟩
          simp only [bind, Except.bind, if_pos hfar]
          exact ⟨_, rfl⟩
    · rw [hread]
      exact ⟨message, rfl⟩

/-- What comes of a fresh header is the comparison. -/
theorem verifySignature_fresh (hsecret : secret ≠ []) {n : Int} (hformed : WellFormed header n)
    (hnear : (now - n).natAbs ≤ toleranceS) :
    verifySignature hmacSha256 payload header secret toleranceS now = (do
      let expected ← expectedDigest hmacSha256 payload secret n
      if ← anyMatches expected (signatures (fields header)) then return ()
      else throw (.signatureError "no signature matches")) := by
  obtain ⟨hreadable, hlast, hsigned⟩ := (wellFormed_iff header n).mp hformed
  rcases readParts_header header with ⟨-, hread⟩ | ⟨-, hnot⟩
  · obtain ⟨value, rest, hs⟩ := List.exists_cons_of_ne_nil hsigned
    have hne : secret.isEmpty = false := by simpa using hsecret
    have hfar : ¬ toleranceS < (now - n).natAbs := by omega
    rw [verifySignature, hne, if_neg Bool.false_ne_true, hread, hlast, hs]
    simp only [bind, Except.bind, if_neg hfar]
  · exact absurd hreadable hnot

theorem WellFormed.intStr_isSome {n : Int} (h : WellFormed header n) : (intStr n).isSome := by
  obtain ⟨value, -, hparse⟩ := h.last
  exact intStr_isSome_of_parseInt hparse

/-- A header has one last timestamp. -/
theorem WellFormed.unique {m n : Int} (hm : WellFormed header m) (hn : WellFormed header n) : m = n := by
  have hlast := ((wellFormed_iff header m).mp hm).2.1
  rw [((wellFormed_iff header n).mp hn).2.1] at hlast
  exact (Option.some.inj hlast).symm

theorem genuine_iff (hsecret : secret ≠ []) {n : Int} (hformed : WellFormed header n)
    (hnear : (now - n).natAbs ≤ toleranceS) :
    Genuine hmacSha256 payload header secret toleranceS now ↔
      ∃ key digits, encodeUtf8 secret = some key ∧ intStr n = some digits ∧
        hexdigest (hmacSha256 key (encodeText (digits ++ ['.']) ++ payload)) ∈ signatures (fields header) := by
  constructor
  · intro h
    obtain ⟨-, m, hm, -, hdigest⟩ := h
    rwa [hm.unique hformed] at hdigest
  · exact fun h => ⟨hsecret, n, hformed, hnear, h⟩

/-- The check does what it says: it is passed by the genuine deliveries, and refuses the
others. -/
def Verifies (hmacSha256 : Hmac) (payload : List UInt8) (header : Str) (secret : PyStr) (toleranceS now : Int) : Prop :=
  (verifySignature hmacSha256 payload header secret toleranceS now = .ok () ∨
      Refused (verifySignature hmacSha256 payload header secret toleranceS now)) ∧
    (verifySignature hmacSha256 payload header secret toleranceS now = .ok () ↔
      Genuine hmacSha256 payload header secret toleranceS now)

/-- The check does what it says exactly when the secret has an encoding or the header is
not fresh. -/
theorem verifies_iff (hmacSha256 : Hmac) (payload : List UInt8) (header : Str) (secret : PyStr) (toleranceS now : Int) :
    Verifies hmacSha256 payload header secret toleranceS now ↔ Clean secret ∨ ¬ Fresh header toleranceS now := by
  by_cases hstale : secret = [] ∨ ¬ Fresh header toleranceS now
  · obtain ⟨message, hrefused⟩ := refused_of_not_fresh hmacSha256 payload hstale
    have hcondition : Clean secret ∨ ¬ Fresh header toleranceS now :=
      hstale.imp_left fun he : secret = [] => he ▸ clean_nil
    refine iff_of_true ⟨.inr ⟨message, hrefused⟩, ?_⟩ hcondition
    rw [hrefused]
    refine iff_of_false (fun h => by cases h) fun h => ?_
    obtain ⟨hsecret, n, hformed, hnear, -⟩ := h
    exact hstale.elim hsecret fun hnot => hnot ⟨n, hformed, hnear⟩
  · obtain ⟨hsecret, hfresh⟩ := not_or.mp hstale
    obtain ⟨n, hformed, hnear⟩ := not_not.mp hfresh
    have hcondition : Clean secret ∨ ¬ Fresh header toleranceS now ↔ Clean secret := or_iff_left hfresh
    rw [Verifies, verifySignature_fresh hsecret hformed hnear, hcondition, genuine_iff hsecret hformed hnear, Clean,
      ← encodeUtf8_isSome]
    obtain ⟨digits, hdigits⟩ := Option.isSome_iff_exists.mp hformed.intStr_isSome
    cases hkey : encodeUtf8 secret with
    | none =>
      rw [expectedDigest, hkey]
      refine iff_of_false (fun h => ?_) Bool.false_ne_true
      rcases h.1 with h | ⟨message, h⟩
      · cases h
      · cases h
    | some key =>
      have hmatches := anyMatches_eq
        (isLowerHex_of_mem_hexdigest (hmacSha256 key (encodeText (digits ++ ['.']) ++ payload)))
        (signatures (fields header)) hformed.hex
      rw [expectedDigest, hkey, hdigits]
      simp only [bind, Except.bind, hmatches]
      refine iff_of_true ?_ rfl
      by_cases hin : hexdigest (hmacSha256 key (encodeText (digits ++ ['.']) ++ payload)) ∈ signatures (fields header)
      · rw [if_pos (decide_eq_true hin)]
        exact ⟨.inl rfl, iff_of_true rfl ⟨key, digits, rfl, rfl, hin⟩⟩
      · rw [if_neg (by simpa using hin)]
        refine ⟨.inr ⟨_, rfl⟩, iff_of_false (fun h => by cases h) fun h => ?_⟩
        obtain ⟨key', digits', hkey', hdigits', hin'⟩ := h
        obtain rfl := Option.some.inj hkey'
        obtain rfl := Option.some.inj hdigits'
        exact hin hin'

/-- The secret has a byte that is no UTF-8, as `os.environ` hands it on: no digest is computed,
and what is raised is a `UnicodeEncodeError`. -/
theorem verifies_surrogate_secret : ¬ Verifies (fun _ _ => []) [] "t=0,v1=00".toList [0xDCFF] 300 0 := by
  have hraised : verifySignature (fun _ _ => []) [] "t=0,v1=00".toList [0xDCFF] 300 0 = .error .valueError := by
    decide +kernel
  intro h
  rw [Verifies, hraised] at h
  rcases h.1 with h | ⟨message, h⟩
  · cases h
  · cases h

end CiteVyn.Billing.StripeSignature
