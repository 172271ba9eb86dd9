import CiteVyn.Access.Pow
import CiteVyn.Text.Integers

/-! # A solution that passes was issued

What is signed is the salt and the challenge joined by a bar, and what is hashed is the
salt and the number with nothing between. While nobody else can sign, neither can be
taken apart in another way, and the expiry that is checked is the one that was issued. -/
namespace CiteVyn.Access
open CiteVyn.Lib.Effects CiteVyn.Text

/-- What is assumed of SHA-256: hex digests, and no collisions. -/
structure Digests.CollisionFree (d : Digests) : Prop where
  hex : ∀ text, ∀ c ∈ d.sha256 text, isLowerHex c = true
  injective : Function.Injective d.sha256

/-- A call of `make_challenge`, with the token and the number that it draws. -/
structure Issue where
  maxNumber : Int
  ttlS : Int
  now : Int
  token : Str
  number : Int
  deriving DecidableEq, Repr

/-- `token_hex(12)` and `randbelow(max_number + 1)`. -/
structure Issue.Drawn (i : Issue) : Prop where
  length : i.token.length = 24
  token : ∀ c ∈ i.token, isLowerHex c = true
  nonneg : 0 ≤ i.number
  le : i.number ≤ i.maxNumber

def Issue.challenge (d : Digests) (secret : Str) (i : Issue) : Except Raised Challenge :=
  makeChallenge d secret i.maxNumber i.ttlS i.now i.token i.number

/-- What `_sign` signs. -/
def signedText (salt challenge : Str) : Str := salt ++ '|' :: challenge

/-- A payload with a true signature carries what one of the calls signed. -/
def Unforged (d : Digests) (secret : Str) (issued : List Issue) (payload : Payload) : Prop :=
  ∀ salt challenge, payload.salt = .text (.plain salt) → payload.challenge = .text (.plain challenge) →
    payload.signature = .text (.plain (sign d secret salt challenge)) →
      ∃ i ∈ issued, ∃ c, i.challenge d secret = .ok c ∧ signedText c.salt c.challenge = signedText salt challenge

variable {d : Digests} {secret : Str} {payload : Payload} {now : Int}

/-- The one bar of a signed text is where its salt ends. -/
theorem signedText_inj {salt salt' challenge challenge' : Str} (hsalt : '|' ∉ salt) (hchallenge : '|' ∉ challenge)
    (h : signedText salt challenge = signedText salt' challenge') : salt' = salt ∧ challenge' = challenge := by
  rw [signedText, signedText, List.append_eq_append_iff] at h
  rcases h with ⟨w, hw, hrest⟩ | ⟨w, hw, hrest⟩
  · cases w with
    | nil =>
      rw [List.append_nil] at hw
      exact ⟨hw, (List.cons.inj hrest).2.symm⟩
    | cons c w =>
      have hin := (List.cons.inj hrest).2
      exact absurd (hin ▸ List.mem_append_right w List.mem_cons_self) hchallenge
  · cases w with
    | nil =>
      rw [List.append_nil] at hw
      exact ⟨hw.symm, (List.cons.inj hrest).2⟩
    | cons c w =>
      obtain rfl := (List.cons.inj hrest).1
      exact absurd (hw ▸ List.mem_append_right salt' List.mem_cons_self) hsalt

theorem not_mem_of_hex {s : Str} {c : Char} (h : ∀ x ∈ s, isLowerHex x = true) (hc : isLowerHex c = false) : c ∉ s := by
  intro hmem
  rw [h c hmem] at hc
  exact Bool.noConfusion hc

theorem not_mem_of_intStr {s : Str} {n : Int} {c : Char} (h : intStr n = some s) (hdigit : c.isDigit = false)
    (hminus : c ≠ '-') : c ∉ s := by
  intro hmem
  rcases intStr_chars h c hmem with hc | hc
  · rw [hdigit] at hc
    exact Bool.noConfusion hc
  · exact hminus hc

/-- A challenge that is issued: its salt, the text of its expiry, and its work. -/
theorem Issue.challenge_ok {i : Issue} {c : Challenge} (h : i.challenge d secret = .ok c) :
    ∃ expires digits, intStr (i.now + i.ttlS) = some expires ∧ intStr i.number = some digits ∧
      c.salt = i.token ++ expiresMark ++ expires ∧ c.challenge = d.sha256 (c.salt ++ digits) := by
  rw [Issue.challenge, makeChallenge] at h
  split at h
  · cases h
  · obtain ⟨expires, hexpires, h⟩ := bind_eq_ok h
    obtain ⟨challenge, hchallenge, h⟩ := bind_eq_ok h
    obtain rfl := Except.ok.inj h
    rw [hash] at hchallenge
    split at hchallenge
    · rename_i digits hdigits
      refine ⟨expires, digits, ?_, hdigits, rfl, (Except.ok.inj hchallenge).symm⟩
      cases htext : intStr (i.now + i.ttlS) with
      | none =>
        rw [htext] at hexpires
        cases hexpires
      | some text =>
        rw [htext] at hexpires
        exact congrArg some (Except.ok.inj hexpires)
    · cases hchallenge

/-- The expiry is what comes after the last mark of the salt. -/
theorem afterLast_salt (token : Str) {expires : Str} {n : Int} (h : intStr n = some expires) :
    afterLast expiresMark (token ++ expiresMark ++ expires) = expires := by
  have hquery : '?' ∉ "expires=".toList ++ expires := by
    rw [List.mem_append, not_or]
    exact ⟨by decide, not_mem_of_intStr h rfl (by decide)⟩
  exact afterLast_append token hquery

theorem compareDigest_ok {digest : Str} {t : PayloadText} (h : compareDigest digest t = .ok true) :
    t = .plain digest := by
  cases t with
  | plain s =>
    rw [compareDigest] at h
    split at h
    · rw [of_decide_eq_true (Except.ok.inj h)]
    · cases h
  | surrogates => cases h

/-- What a solution that passes consists of. -/
theorem verifySolution_checks {challenge : Str} (h : verifySolution d secret payload now = .ok challenge) :
    ∃ salt number digits n, payload.salt = .text (.plain salt) ∧ payload.challenge = .text (.plain challenge) ∧
      payload.number = .int number ∧ payload.signature = .text (.plain (sign d secret salt challenge)) ∧
      intStr number = some digits ∧ d.sha256 (salt ++ digits) = challenge ∧
      int (afterLast expiresMark salt) = .ok n ∧ now < 1000000 * (n : Int) := by
  unfold verifySolution at h
  split at h
  · rename_i saltText number challengeText signature
    obtain ⟨salt, hsalt, h⟩ := bind_eq_ok h
    obtain ⟨issued, hissued, h⟩ := bind_eq_ok h
    obtain ⟨signed, hsigned, h⟩ := bind_eq_ok h
    split at h
    · rename_i hsame
      rw [hsame] at hsigned
      obtain ⟨work, hwork, h⟩ := bind_eq_ok h
      obtain ⟨solved, hsolved, h⟩ := bind_eq_ok h
      split at h
      · rename_i hright
        rw [hright] at hsolved
        obtain ⟨_, hexpiry, h⟩ := bind_eq_ok h
        obtain ⟨n, hint, hn⟩ := checkExpiry_ok hexpiry
        obtain rfl := Except.ok.inj h
        rw [encode_ok hsalt, encode_ok hissued, compareDigest_ok hsigned]
        rw [hash] at hwork
        split at hwork
        · rename_i digits hdigits
          refine ⟨salt, number, digits, n, rfl, rfl, rfl, rfl, hdigits, ?_, hint, hn⟩
          exact (Except.ok.inj hwork).trans (PayloadText.plain.inj (compareDigest_ok hsolved)).symm
        · cases hwork
      · cases h
    · cases h
  · cases h

/-- A solution passes only if a call issued its salt and its challenge, its number is the
one that the call drew, and the expiry of the call is still to come. -/
theorem verifySolution_issued (d : Digests) (secret : Str) (issued : List Issue) (payload : Payload) (now : Int)
    (challenge : Str) (hfree : d.CollisionFree) (hdrawn : ∀ i ∈ issued, i.Drawn)
    (hunforged : Unforged d secret issued payload) (h : verifySolution d secret payload now = .ok challenge) :
    ∃ i ∈ issued, ∃ c, i.challenge d secret = .ok c ∧ payload.salt = .text (.plain c.salt) ∧
      payload.challenge = .text (.plain c.challenge) ∧ challenge = c.challenge ∧ payload.number = .int i.number ∧
      now < 1000000 * (i.now + i.ttlS) := by
  obtain ⟨salt, number, digits, n, hsalt, hchallenge, hnumber, hsignature, hdigits, hwork, hint, hn⟩ :=
    verifySolution_checks h
  obtain ⟨i, hi, c, hc, hsigned⟩ := hunforged salt challenge hsalt hchallenge hsignature
  obtain ⟨expires, drawn, hexpires, hdrawnDigits, hcsalt, hcwork⟩ := Issue.challenge_ok hc
  have hbar : '|' ∉ c.salt := by
    rw [hcsalt, List.mem_append, List.mem_append, not_or, not_or]
    exact ⟨⟨not_mem_of_hex (hdrawn i hi).token rfl, by decide⟩, not_mem_of_intStr hexpires rfl (by decide)⟩
  have hbar' : '|' ∉ c.challenge := by
    rw [hcwork]
    exact not_mem_of_hex (hfree.hex _) rfl
  obtain ⟨rfl, rfl⟩ := signedText_inj hbar hbar' hsigned
  have hsame : digits = drawn := by
    have := hfree.injective (hwork.trans hcwork)
    exact List.append_cancel_left this
  rw [hcsalt, afterLast_salt i.token hexpires] at hint
  have hexpiry : i.now + i.ttlS = n := int_of_intStr hexpires hint
  refine ⟨i, hi, c, hc, hsalt, hchallenge, rfl, ?_, by omega⟩
  rw [hnumber, intStr_inj hdigits (hsame ▸ hdrawnDigits)]

/-- A text spelt with two digits. -/
def spelt (text : Str) : Str := text.flatMap fun c => List.replicate c.toNat '0' ++ ['1']

theorem replicate_inj {x y : Str} : ∀ {m n : Nat}, List.replicate m '0' ++ '1' :: x = List.replicate n '0' ++ '1' :: y →
    m = n ∧ x = y
  | 0, 0, h => ⟨rfl, (List.cons.inj h).2⟩
  | 0, n + 1, h => by
    rw [List.replicate_succ, List.cons_append, List.replicate_zero, List.nil_append] at h
    exact absurd (List.cons.inj h).1 (by decide)
  | m + 1, 0, h => by
    rw [List.replicate_succ, List.cons_append, List.replicate_zero, List.nil_append] at h
    exact absurd (List.cons.inj h).1 (by decide)
  | m + 1, n + 1, h => by
    rw [List.replicate_succ, List.replicate_succ, List.cons_append, List.cons_append] at h
    obtain ⟨hmn, hxy⟩ := replicate_inj (List.cons.inj h).2
    exact ⟨congrArg (· + 1) hmn, hxy⟩

theorem spelt_injective : Function.Injective spelt := by
  intro s
  induction s with
  | nil =>
    intro t h
    cases t with
    | nil => rfl
    | cons c t => simp [spelt] at h
  | cons c s ih =>
    intro t h
    cases t with
    | nil => simp [spelt] at h
    | cons c' t =>
      simp only [spelt, List.flatMap_cons, List.append_assoc, List.singleton_append] at h
      obtain ⟨hchar, hrest⟩ := replicate_inj h
      rw [Char.toNat_inj.mp hchar, ih hrest]

/-- SHA-256 and HMAC-SHA-256 on one challenge, and no collision with another text. -/
def oneChallenge : Digests where
  sha256 text :=
    if text = "00112233445566778899aabb?expires=6007".toList then
      "d3ea66581edd68a614ebe4c501f7c99f15e73a6e1dbea369996851622952f32d".toList
    else List.replicate 64 'a' ++ 'a' :: spelt text
  hmacSha256 _ _ := "ade4d4ea4a7921e4edf972efeb35dee998168ebaa52d6c76a99343adf0eea916".toList

theorem oneChallenge_collisionFree : oneChallenge.CollisionFree where
  hex text := by
    unfold oneChallenge
    dsimp only
    split
    · exact List.all_eq_true.mp (by decide)
    · intro c hc
      rcases List.mem_append.mp hc with hc | hc
      · rw [(List.mem_replicate.mp hc).2]
        rfl
      · rcases List.mem_cons.mp hc with rfl | hc
        · rfl
        · obtain ⟨x, -, hx⟩ := List.mem_flatMap.mp hc
          rcases List.mem_append.mp hx with hx | hx
          · rw [(List.mem_replicate.mp hx).2]
            rfl
          · rw [List.mem_singleton.mp hx]
            rfl
  injective := by
    -- a digest of another text is longer than 64 characters
    have hlong : ∀ text, "d3ea66581edd68a614ebe4c501f7c99f15e73a6e1dbea369996851622952f32d".toList ≠
        List.replicate 64 'a' ++ 'a' :: spelt text := by
      intro text h
      have := congrArg List.length h
      rw [List.length_append, List.length_cons, List.length_replicate] at this
      have h64 : "d3ea66581edd68a614ebe4c501f7c99f15e73a6e1dbea369996851622952f32d".toList.length = 64 := by decide
      omega
    intro s t h
    unfold oneChallenge at h
    dsimp only at h
    split at h
    · rename_i hs
      split at h
      · rename_i ht
        rw [hs, ht]
      · exact absurd h (hlong t)
    · split at h
      · exact absurd h.symm (hlong s)
      · exact spelt_injective (List.cons.inj (List.append_cancel_left h)).2

/-- The solution of the challenge, five seconds after it was issued. -/
def solved : Payload where
  salt := .text (.plain "00112233445566778899aabb?expires=600".toList)
  number := .int 7
  challenge := .text (.plain "d3ea66581edd68a614ebe4c501f7c99f15e73a6e1dbea369996851622952f32d".toList)
  signature := .text (.plain "ade4d4ea4a7921e4edf972efeb35dee998168ebaa52d6c76a99343adf0eea916".toList)

theorem verifySolution_issued_solved :
    ∃ i ∈ [Issue.mk 10 600 0 "00112233445566778899aabb".toList 7], ∃ c,
      i.challenge oneChallenge "secret".toList = .ok c ∧ solved.salt = .text (.plain c.salt) ∧
        solved.challenge = .text (.plain c.challenge) ∧
        "d3ea66581edd68a614ebe4c501f7c99f15e73a6e1dbea369996851622952f32d".toList = c.challenge ∧
        solved.number = .int i.number ∧ 5000000 < 1000000 * (i.now + i.ttlS) := by
  refine verifySolution_issued oneChallenge "secret".toList _ solved 5000000 _ oneChallenge_collisionFree ?_ ?_
    (by decide +kernel)
  · intro i hi
    rw [List.mem_singleton.mp hi]
    exact ⟨by decide, List.all_eq_true.mp (by decide), by decide, by decide⟩
  · intro salt challenge hsalt hchallenge _
    obtain rfl := PayloadText.plain.inj (Field.text.inj hsalt)
    obtain rfl := PayloadText.plain.inj (Field.text.inj hchallenge)
    exact ⟨_, List.mem_cons_self, ⟨_, _, _, _, _⟩, rfl, by decide +kernel⟩

end CiteVyn.Access
