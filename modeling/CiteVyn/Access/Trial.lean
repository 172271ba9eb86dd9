import CiteVyn.Services.AccountDeletion

/-! # One trial an address

Accounts come, are verified, ask and are deleted, one thing after another. What the
accounts of an address have used is in their rows and, once they are deleted, on the
tombstone of the address. -/
namespace CiteVyn.Access.Trial
open CiteVyn.Billing (Membership)
open CiteVyn.Access.Quota CiteVyn.Lib.Runs CiteVyn.Lib.Threads CiteVyn.Services.AccountDeletion CiteVyn.Text

/-! ## Accounts -/

/-- `_looks_like_email`. -/
def looksLikeEmail (value : Str) : Bool :=
  let name := value.takeWhile fun c => c ≠ '@'
  match value.dropWhile fun c => c ≠ '@' with
  | [] => false
  | _ :: domain =>
    !value.any isSpace && !name.isEmpty && !domain.isEmpty && !domain.contains '@' && domain.contains '.' &&
      !".".toList.isPrefixOf domain && !".".toList.isSuffixOf domain

variable (a : Addressing) (settings : Settings)

/-- The id of a new account. -/
def newId (hex : Str) : Str := "usr_".toList ++ hex

/-- The columns of `users` and its keys take a new account. -/
def insertUser (t : Tables) (userId : Str) (email : Option Str) : Tables :=
  if userId ∈ t.ids then t else { t with users := t.users ++ [⟨userId, email, none⟩] }

def emailTaken (t : Tables) (email : Str) : Bool := t.users.any fun user => user.email = some email

/-- `register`. -/
def register (t : Tables) (raw hex : Str) : Tables :=
  let email := a.normal raw
  if looksLikeEmail email = false || emailTaken t email then t
  else insertUser t (newId hex) (some email)

/-- `email_for_new_user`. -/
def emailForNewUser (t : Tables) (email : Option Str) (verified : Bool) : Option Str :=
  ((email.filter fun email => verified && !email.isEmpty && email.all (·.toNat < 128)).map a.normal).filter
    fun email => !emailTaken t email

/-- The new account of a provider's identity. -/
def createOAuth (t : Tables) (email : Option Str) (verified : Bool) (hex : Str) : Tables :=
  insertUser t (newId hex) (emailForNewUser a t email verified)

/-- `mark_email_verified`. -/
def markEmailVerified (t : Tables) (userId : Str) (provenEmail : Option Str) (now : Int) : Tables :=
  match provenEmail.filter fun email => !email.isEmpty with
  | none => t
  | some proven =>
    { t with users := t.users.map fun user =>
        if user.userId = userId ∧ user.email = some (a.normal proven) then
          { user with emailVerifiedAt := some (user.emailVerifiedAt.getD now) }
        else user }

/-- The address of an account. -/
def addressOf (t : Tables) (userId : Str) : Option Str :=
  (t.users.find? fun user => user.userId = userId).bind User.address

/-- A question of an account that is let through, and its row if the answer counts. -/
def answerRow (t : Tables) (userId : Str) (tier : Tier) (channel : Channel) (response : Value) (now : Int) :
    Option AnswerUsage :=
  match refuseIfUsedUp tier (usageFor settings tier a t.users t.rows t.stones userId now) with
  | .ok () => if userId ∈ t.ids && isCountedAnswer response then some (usageRow tier userId now channel) else none
  | .error _ => none

/-! ## Sequences -/

structure Site where
  server : Server Unit
  /-- the answers so far, each with the address of its account; nothing reads it -/
  asked : List (Option Str × AnswerUsage)

inductive Op where
  | register (raw hex : Str)
  | oauth (email : Option Str) (verified : Bool) (hex : Str)
  | verify (userId : Str) (provenEmail : Option Str) (now : Int)
  | subscribe (memberships : List Membership)
  | ask (userId : Str) (tier : Tier) (channel : Channel) (response : Value) (now : Int)
  /-- a step of a deletion, or of a run of the list -/
  | deletion (l : Label Unit)

variable (stored : Str → Str) (configured : Bool)

/-- The tables change while no deletion goes on. -/
def Site.edit (s : Site) (t : Tables) : Option Site :=
  if s.server.places () = none then some { s with server := { s.server with tables := t } } else none

def act (s : Site) : Op → Option Site
  | .register raw hex => s.edit (register a s.server.tables raw hex)
  | .oauth email verified hex => s.edit (createOAuth a s.server.tables email verified hex)
  | .verify userId provenEmail now => s.edit (markEmailVerified a s.server.tables userId provenEmail now)
  | .subscribe memberships => s.edit { s.server.tables with memberships := memberships }
  | .ask userId tier channel response now =>
    let row := (answerRow a settings s.server.tables userId tier channel response now).toList
    let asked := row.map fun row => (addressOf s.server.tables userId, row)
    { s with asked := s.asked ++ asked }.edit { s.server.tables with rows := s.server.tables.rows ++ row }
  | .deletion (.edit _) => none
  | .deletion l => (step a stored configured s.server l).map fun server => { s with server := server }

/-- No account yet. -/
def Site.new : Site := ⟨Server.new ⟨[], [], [], []⟩, []⟩

/-- The answer is one of the platform's to an account of the address. -/
def paidAt (e : Str) (x : Option Str × AnswerUsage) : Bool := x.1 = some e && x.2.paidBy = platform

/-- No other address that is entered has the hash of this one. -/
def Op.apart (e : Str) : Op → Prop
  | .register raw _ => a.normal raw ≠ e → a.sha (a.normal raw) ≠ a.sha e
  | .oauth email _ _ => ∀ raw, email = some raw → a.normal raw ≠ e → a.sha (a.normal raw) ≠ a.sha e
  | _ => True

/-! ## The books -/

/-- What the tombstone of an address has. -/
def buried (stones : List DeletedAccount) (e : Str) : Nat :=
  (stones.find? fun stone => stone.emailHash = emailHash a e).elim 0 DeletedAccount.trialAnswersUsed

/-- The account has a row for an answer that counts. -/
def usedAt (t : Tables) (e : Str) : Nat := t.rows.countP fun row => paidAt e (addressOf t row.userId, row)

/-- What a deletion that goes on has planned. -/
def Planned (t : Tables) : Place → Prop
  | .found user _ => user ∈ t.users
  | .planned user p _ | .removed user p _ | .recorded user p _ | .again user p _ _ _ =>
    user ∈ t.users ∧ p = plan a t user
  | _ => True

/-- The accounts of the tables, apart from what has been asked. -/
structure Sound (e : Str) (t : Tables) : Prop where
  ids : ∀ user ∈ t.users, ∀ other ∈ t.users, user.userId = other.userId → user = other
  emails : ∀ user ∈ t.users, ∀ other ∈ t.users, ∀ e', user.email = some e' → other.email = some e' →
    user.userId = other.userId
  apart : ∀ user ∈ t.users, ∀ e', user.address = some e' → e' ≠ e → emailHash a e' ≠ emailHash a e
  owned : ∀ row ∈ t.rows, row.userId ∈ t.ids

structure Books (e : Str) (s : Site) : Prop where
  sound : Sound a e s.server.tables
  planned : ∀ p, s.server.places () = some p → Planned a s.server.tables p
  paid : ∀ x ∈ s.asked, x.2.paidBy = platform
  total : s.asked.countP (paidAt e) = buried a s.server.tables.stones e + usedAt s.server.tables e
  trial : s.asked.countP (fun x => x.1 = some e && x.2.tier = Tier.free.value) ≤ settings.accessFreeTrialAnswers

theorem Books.new (e : Str) : Books a settings e Site.new where
  sound := {
    ids := fun _ h => by cases h
    emails := fun _ h => by cases h
    apart := fun _ h => by cases h
    owned := fun _ h => by cases h }
  planned := fun _ h => by cases h
  paid := fun _ h => by cases h
  total := rfl
  trial := Nat.zero_le _

section

variable {a : Addressing} {settings : Settings} {stored : Str → Str} {configured : Bool} {e : Str} {t : Tables}
  {user : User}

theorem find_of_mem (hs : Sound a e t) (h : user ∈ t.users) :
    (t.users.find? fun other => other.userId = user.userId) = some user := by
  obtain ⟨other, hfind⟩ := Option.isSome_iff_exists.mp
    (List.find?_isSome.mpr ⟨user, h, decide_eq_true rfl⟩ : (t.users.find? fun other => other.userId = user.userId).isSome)
  rw [hfind]
  have hid : other.userId = user.userId := by simpa using List.find?_some hfind
  rw [hs.ids other (List.mem_of_find?_eq_some hfind) user h hid]

theorem addressOf_mem (hs : Sound a e t) (h : user ∈ t.users) : addressOf t user.userId = user.address := by
  rw [addressOf, find_of_mem hs h, Option.bind_some]

theorem address_email {e' : Str} (h : user.address = some e') : user.email = some e' :=
  (Option.filter_eq_some_iff.mp h).1

/-- The rows of an address are those of its account. -/
theorem usedAt_mem (hs : Sound a e t) (h : user ∈ t.users) (haddress : user.address = some e) :
    usedAt t e = t.rows.countP (countedRows user.userId none) := by
  refine List.countP_congr fun row hrow => ?_
  obtain ⟨other, hother, hid⟩ := List.mem_map.mp (hs.owned row hrow)
  have hrowAddress : addressOf t row.userId = other.address := by rw [← hid, addressOf_mem hs hother]
  simp only [paidAt, countedRows, hrowAddress, Option.all_none, Bool.and_true, Bool.and_eq_true, decide_eq_true_eq]
  refine and_congr_left fun _ => ⟨fun hmine => ?_, fun hmine => ?_⟩
  · rw [← hid]
    exact hs.emails other hother user h e (address_email hmine) (address_email haddress)
  · rw [hs.ids other hother user h (hid.trans hmine), haddress]

/-! ## Deletions -/

theorem buried_bury (stones : List DeletedAccount) (key : Str) (used : Nat) (when_ : Int) :
    buried a (bury key used when_ stones) e = buried a stones e + if key = emailHash a e then used else 0 := by
  unfold buried bury
  split
  · rename_i hthere
    have hsame : ((fun stone : DeletedAccount => decide (stone.emailHash = emailHash a e)) ∘ fun stone =>
        if stone.emailHash = key then
          { stone with trialAnswersUsed := stone.trialAnswersUsed + used, deletedAt := when_ } else stone) =
        fun stone => decide (stone.emailHash = emailHash a e) := by
      funext stone
      dsimp only [Function.comp_apply]
      split <;> rfl
    rw [List.find?_map, hsame]
    cases hfind : stones.find? fun stone => decide (stone.emailHash = emailHash a e) with
    | none =>
      have hkey : key ≠ emailHash a e := by
        rintro rfl
        obtain ⟨stone, hmem, hhash⟩ := List.any_eq_true.mp hthere
        exact List.find?_eq_none.mp hfind stone hmem hhash
      simp [hkey]
    | some stone =>
      have hhash : stone.emailHash = emailHash a e := by simpa using List.find?_some hfind
      by_cases hkey : key = emailHash a e
      · simp [hhash, hkey]
      · simp [hhash, hkey, Ne.symm hkey]
  · rename_i hnone
    rw [List.find?_append]
    by_cases hkey : key = emailHash a e
    · have hfind : (stones.find? fun stone => decide (stone.emailHash = emailHash a e)) = none := by
        refine List.find?_eq_none.mpr fun stone hmem hhash => hnone (List.any_eq_true.mpr ⟨stone, hmem, ?_⟩)
        rw [hkey]
        exact hhash
      simp [hfind, hkey]
    · simp [hkey]

/-- The rows that a deletion takes are the ones that the plan has counted. -/
theorem usedAt_remove (hs : Sound a e t) (h : user ∈ t.users) (when_ : Int) :
    usedAt (remove a t user (plan a t user) when_) e +
      (if user.address = some e then (plan a t user).trialAnswersUsed else 0) = usedAt t e := by
  have hothers : usedAt (remove a t user (plan a t user) when_) e =
      (t.rows.filter fun row => row.userId ≠ user.userId).countP fun row => paidAt e (addressOf t row.userId, row) := by
    refine List.countP_congr fun row hrow => ?_
    have hother : row.userId ≠ user.userId := of_decide_eq_true (List.mem_filter.mp hrow).2
    have hfind : addressOf (remove a t user (plan a t user) when_) row.userId = addressOf t row.userId := by
      rw [addressOf, addressOf, remove, List.find?_filter]
      congr 2
      funext other
      by_cases hid : other.userId = row.userId
      · simp [hid, hother]
      · simp [hid]
    rw [hfind]
  have hmine : ((t.rows.filter fun row => !decide (row.userId ≠ user.userId)).countP fun row =>
      paidAt e (addressOf t row.userId, row)) =
      if user.address = some e then (plan a t user).trialAnswersUsed else 0 := by
    rw [List.countP_filter]
    split
    · rename_i haddress
      refine List.countP_congr fun row _ => ?_
      by_cases hid : row.userId = user.userId
      · simp [hid, addressOf_mem hs h, haddress, paidAt, countedRows]
      · simp [hid, countedRows]
    · rename_i haddress
      refine List.countP_eq_zero.mpr fun row _ => ?_
      by_cases hid : row.userId = user.userId
      · simp [hid, addressOf_mem hs h, haddress, paidAt]
      · simp [hid]
  rw [hothers, ← hmine]
  exact (List.countP_eq_countP_filter_add t.rows _ _).symm

/-- What an address has used is the same after a deletion, whoever is deleted. -/
theorem total_remove (hs : Sound a e t) (h : user ∈ t.users) (when_ : Int) :
    buried a (remove a t user (plan a t user) when_).stones e + usedAt (remove a t user (plan a t user) when_) e =
      buried a t.stones e + usedAt t e := by
  have hrows := usedAt_remove hs h when_
  have hstones : buried a (remove a t user (plan a t user) when_).stones e =
      buried a t.stones e + if user.address = some e then (plan a t user).trialAnswersUsed else 0 := by
    cases haddress : user.address with
    | none => simp [remove, haddress]
    | some e' =>
      simp only [remove, haddress, Option.elim_some, buried_bury, Option.some.injEq]
      congr 1
      by_cases he : e' = e
      · rw [if_pos he, if_pos (congrArg (emailHash a) he)]
      · rw [if_neg he, if_neg (hs.apart user h e' haddress he)]
  omega

theorem Sound.remove (hs : Sound a e t) (p : DeletionPlan) (when_ : Int) : Sound a e (remove a t user p when_) where
  ids := fun x hx y hy => hs.ids x (List.mem_filter.mp hx).1 y (List.mem_filter.mp hy).1
  emails := fun x hx y hy => hs.emails x (List.mem_filter.mp hx).1 y (List.mem_filter.mp hy).1
  apart := fun x hx => hs.apart x (List.mem_filter.mp hx).1
  owned := by
    intro row hrow
    obtain ⟨hthere, hother⟩ := List.mem_filter.mp hrow
    exact mem_ids_remove a p when_ (hs.owned row hthere) (Ne.symm (of_decide_eq_true hother))

/-! ## A deletion, step by step -/

theorem find_mem {name : Name} (h : find a stored t name = .ok user) : user ∈ t.users := by
  cases name with
  | email email => exact (List.mem_filter.mp (theOne_mem h)).1
  | userId userId =>
    rw [find] at h
    split at h
    · exact (List.mem_filter.mp (theOne_mem h)).1
    · cases h

section

variable {s s' : Server Unit} {p : Place}

theorem planned_goto {q : Option Place} (h : ∀ p, q = some p → Planned a t p) :
    ∀ p, (s.goto () q).places () = some p → Planned a t p := fun p hp =>
  h p ((put_self s.places () q).symm.trans hp)

theorem advance_planned (hp : Planned a s.tables p) (h : s.advance a stored configured () p = some s') :
    s'.tables = s.tables ∧ ∀ q, s'.places () = some q → Planned a s'.tables q := by
  cases p with
  | finding name now =>
    rw [Server.advance] at h
    split at h
    · cases h
      exact ⟨rfl, planned_goto (forall_moved trivial)⟩
    · rename_i user hfind
      split at h
      · cases h
      · cases h
        exact ⟨rfl, planned_goto (forall_moved (find_mem hfind))⟩
  | found user now =>
    rw [Server.advance] at h
    split at h
    · cases h
      exact ⟨rfl, planned_goto (forall_moved ⟨hp, rfl⟩)⟩
    · cases h
      exact ⟨rfl, planned_goto (forall_moved trivial)⟩
  | planned user p now =>
    cases h
    exact ⟨rfl, planned_goto (forall_moved hp)⟩
  | removed user p now =>
    rw [Server.advance] at h
    split at h
    · cases h
    · cases h
      exact ⟨rfl, planned_goto (forall_moved hp)⟩
  | reading entries =>
    cases h
    exact ⟨rfl, planned_goto (forall_moved trivial)⟩
  | looping entries todo =>
    cases todo with
    | nil =>
      cases h
      exact ⟨rfl, planned_goto forall_gone⟩
    | cons next todo =>
      rw [Server.advance] at h
      split at h
      · cases h
        exact ⟨rfl, planned_goto (forall_moved trivial)⟩
      · rename_i user hfind
        split at h
        · cases h
        · cases h
          exact ⟨rfl, planned_goto (forall_moved ⟨find_mem hfind, rfl⟩)⟩
  | recorded _ _ _ | unwinding _ _ | checking _ | forgetting _ | again _ _ _ _ _ => cases h

theorem stumble_planned (h : s.stumble () p = some s') :
    s'.tables = s.tables ∧ ∀ q, s'.places () = some q → Planned a s'.tables q := by
  cases p with
  | looping entries todo =>
    cases todo with
    | nil => cases h
    | cons next todo =>
      cases h
      exact ⟨rfl, planned_goto (forall_moved trivial)⟩
  | finding _ _ | found _ _ | planned _ _ _ | again _ _ _ _ _ =>
    cases h
    exact ⟨rfl, planned_goto (forall_moved trivial)⟩
  | reading _ =>
    cases h
    exact ⟨rfl, planned_goto forall_gone⟩
  | removed _ _ _ | recorded _ _ _ | unwinding _ _ | checking _ | forgetting _ => cases h

/-- A step of a deletion leaves the tables, or it removes an account as it was planned. -/
theorem step_tables {l : Label Unit} (hedit : ∀ t, l ≠ .edit t)
    (hplanned : ∀ p, s.places () = some p → Planned a s.tables p) (h : step a stored configured s l = some s') :
    (s'.tables = s.tables ∨
      ∃ user when_, user ∈ s.tables.users ∧ s'.tables = remove a s.tables user (plan a s.tables user) when_) ∧
      ∀ p, s'.places () = some p → Planned a s'.tables p := by
  cases l with
  | edit t => exact (hedit t rfl).elim
  | request w name now =>
    simp only [step] at h
    split at h
    · cases h
    · cases h
      exact ⟨.inl rfl, planned_goto (forall_moved trivial)⟩
  | reapply w now dropped read =>
    simp only [step] at h
    split at h
    · cases h
    · rename_i hw
      split at h
      · cases h
        exact ⟨.inl rfl, planned_goto (forall_moved trivial)⟩
      · cases h
        exact ⟨.inl rfl, fun p hp => hplanned p hp⟩
  | advance w ok =>
    obtain ⟨p, hw, h⟩ := Option.bind_eq_some_iff.mp h
    cases ok with
    | true =>
      obtain ⟨htables, hnext⟩ := advance_planned (hplanned p hw) h
      exact ⟨.inl htables, hnext⟩
    | false =>
      obtain ⟨htables, hnext⟩ := stumble_planned (a := a) h
      exact ⟨.inl htables, hnext⟩
  | record w reply =>
    simp only [step] at h
    split at h
    · rename_i user p now hw
      have hplan : user ∈ s.tables.users ∧ p = plan a s.tables user := hplanned _ hw
      split at h
      · cases reply with
        | ok =>
          cases h
          exact ⟨.inl rfl, planned_goto (forall_moved hplan)⟩
        | lost =>
          cases h
          exact ⟨.inl rfl, planned_goto (forall_moved trivial)⟩
        | failed =>
          cases h
          exact ⟨.inl rfl, planned_goto (forall_moved trivial)⟩
      · cases h
    · cases h
  | commit w reply =>
    simp only [step] at h
    split at h
    · rename_i user p now hw
      obtain ⟨hmem, rfl⟩ := hplanned _ hw
      cases reply with
      | ok =>
        cases h
        exact ⟨.inr ⟨user, now, hmem, rfl⟩, planned_goto (s := s.unlock (some user.userId)) forall_gone⟩
      | lost =>
        cases h
        exact ⟨.inr ⟨user, now, hmem, rfl⟩, planned_goto (s := s.unlock (some user.userId)) (forall_moved trivial)⟩
      | failed =>
        cases h
        exact ⟨.inl rfl, planned_goto (forall_moved trivial)⟩
    · rename_i user p when_ entries todo hw
      obtain ⟨hmem, rfl⟩ := hplanned _ hw
      split at h
      · cases h
        exact ⟨.inr ⟨user, when_, hmem, rfl⟩, planned_goto (s := s.unlock (some user.userId)) (forall_moved trivial)⟩
      · cases h
        exact ⟨.inl rfl, planned_goto (forall_moved trivial)⟩
    · cases h
  | rollback w ok =>
    simp only [step] at h
    split at h
    · rename_i locked listed hw
      split at h
      · cases h
        exact ⟨.inl rfl, planned_goto (s := s.unlock locked) (forall_moved trivial)⟩
      · cases h
        exact ⟨.inl rfl, planned_goto (s := s.unlock locked) forall_gone⟩
    · cases h
  | check w ok =>
    simp only [step] at h
    split at h
    · split at h
      · cases h
        exact ⟨.inl rfl, planned_goto (forall_moved trivial)⟩
      · cases h
        exact ⟨.inl rfl, planned_goto (s := s) forall_gone⟩
    · cases h
  | forget w reply =>
    simp only [step] at h
    split at h
    · split at h
      · cases h
        exact ⟨.inl rfl, planned_goto (s := s) forall_gone⟩
      · cases h
        exact ⟨.inl rfl, planned_goto (s := s) forall_gone⟩
    · cases h
  | crash w =>
    obtain ⟨p, hw, rfl⟩ := Option.map_eq_some_iff.mp h
    exact ⟨.inl rfl, planned_goto (s := s.unlock p.locked) forall_gone⟩

end

/-! ## The other steps -/

/-- A new account has used nothing. -/
theorem insertUser_sound (hs : Sound a e t) (userId : Str) (email : Option Str)
    (hfree : ∀ e', email = some e' → emailTaken t e' = false)
    (hapart : ∀ e', email = some e' → e' ≠ e → emailHash a e' ≠ emailHash a e) :
    Sound a e (insertUser t userId email) ∧ usedAt (insertUser t userId email) e = usedAt t e := by
  unfold insertUser
  split
  · exact ⟨hs, rfl⟩
  · rename_i hnew
    have hother : ∀ user ∈ t.users, user.userId ≠ userId := fun user hmem heq =>
      hnew (heq ▸ List.mem_map_of_mem hmem)
    have huntaken : ∀ user ∈ t.users, ∀ e', user.email = some e' → email ≠ some e' := by
      rintro user hmem e' huser heq
      exact absurd (List.any_eq_true.mpr ⟨user, hmem, decide_eq_true huser⟩)
        (by rw [show (t.users.any fun user => user.email = some e') = false from hfree e' heq]; exact Bool.false_ne_true)
    refine ⟨⟨?_, ?_, ?_, ?_⟩, ?_⟩
    · intro x hx y hy hid
      rcases List.mem_append.mp hx with hx | hx <;> rcases List.mem_append.mp hy with hy | hy
      · exact hs.ids x hx y hy hid
      · obtain rfl := List.mem_singleton.mp hy
        exact (hother x hx hid).elim
      · obtain rfl := List.mem_singleton.mp hx
        exact (hother y hy hid.symm).elim
      · rw [List.mem_singleton.mp hx, List.mem_singleton.mp hy]
    · intro x hx y hy e' hxe hye
      rcases List.mem_append.mp hx with hx | hx <;> rcases List.mem_append.mp hy with hy | hy
      · exact hs.emails x hx y hy e' hxe hye
      · obtain rfl := List.mem_singleton.mp hy
        exact (huntaken x hx e' hxe hye).elim
      · obtain rfl := List.mem_singleton.mp hx
        exact (huntaken y hy e' hye hxe).elim
      · rw [List.mem_singleton.mp hx, List.mem_singleton.mp hy]
    · intro x hx e' hxe
      rcases List.mem_append.mp hx with hx | hx
      · exact hs.apart x hx e' hxe
      · obtain rfl := List.mem_singleton.mp hx
        exact hapart e' (address_email hxe)
    · intro row hrow
      obtain ⟨user, hmem, hid⟩ := List.mem_map.mp (hs.owned row hrow)
      exact List.mem_map.mpr ⟨user, List.mem_append_left _ hmem, hid⟩
    · refine List.countP_congr fun row hrow => ?_
      obtain ⟨user, hmem, hid⟩ := List.mem_map.mp (hs.owned row hrow)
      have hfind := find_of_mem hs hmem
      rw [hid] at hfind
      rw [addressOf, addressOf, List.find?_append, hfind, Option.some_or]

theorem insertUser_stones (t : Tables) (userId : Str) (email : Option Str) :
    (insertUser t userId email).stones = t.stones := by
  unfold insertUser
  split <;> rfl

/-- The rows of `users` change, but not the ids and the addresses. -/
theorem map_sound (hs : Sound a e t) {f : User → User} (hid : ∀ user, (f user).userId = user.userId)
    (hemail : ∀ user, (f user).email = user.email) :
    Sound a e { t with users := t.users.map f } ∧ usedAt { t with users := t.users.map f } e = usedAt t e := by
  refine ⟨⟨?_, ?_, ?_, ?_⟩, ?_⟩
  · intro x hx y hy heq
    obtain ⟨x, hxt, rfl⟩ := List.mem_map.mp hx
    obtain ⟨y, hyt, rfl⟩ := List.mem_map.mp hy
    rw [hid, hid] at heq
    rw [hs.ids x hxt y hyt heq]
  · intro x hx y hy e' hxe hye
    obtain ⟨x, hxt, rfl⟩ := List.mem_map.mp hx
    obtain ⟨y, hyt, rfl⟩ := List.mem_map.mp hy
    rw [hid, hid]
    exact hs.emails x hxt y hyt e' (by rw [← hemail, hxe]) (by rw [← hemail, hye])
  · intro x hx e' hxe
    obtain ⟨x, hxt, rfl⟩ := List.mem_map.mp hx
    exact hs.apart x hxt e' (by rw [← hxe, User.address, User.address, hemail])
  · intro row hrow
    obtain ⟨user, hmem, heq⟩ := List.mem_map.mp (hs.owned row hrow)
    exact List.mem_map.mpr ⟨f user, List.mem_map_of_mem hmem, (hid user).trans heq⟩
  · refine List.countP_congr fun row _ => ?_
    have hsame : addressOf { t with users := t.users.map f } row.userId = addressOf t row.userId := by
      have hids : (fun user => decide (user.userId = row.userId)) ∘ f = fun user => decide (user.userId = row.userId) := by
        funext user
        rw [Function.comp_apply, hid]
      rw [addressOf, addressOf, List.find?_map, hids]
      cases t.users.find? fun user => user.userId = row.userId with
      | none => rfl
      | some user => exact (by rw [User.address, User.address, hemail] : (f user).address = user.address)
    rw [hsame]

theorem markEmailVerified_sound (hs : Sound a e t) (userId : Str) (provenEmail : Option Str) (now : Int) :
    Sound a e (markEmailVerified a t userId provenEmail now) ∧
      usedAt (markEmailVerified a t userId provenEmail now) e = usedAt t e ∧
      (markEmailVerified a t userId provenEmail now).stones = t.stones := by
  unfold markEmailVerified
  split
  · exact ⟨hs, rfl, rfl⟩
  · obtain ⟨hsound, hused⟩ := map_sound hs (f := fun user =>
      if user.userId = userId ∧ user.email = some _ then
        { user with emailVerifiedAt := some (user.emailVerifiedAt.getD now) } else user)
      (fun user => by split <;> rfl) (fun user => by split <;> rfl)
    exact ⟨hsound, hused, rfl⟩

/-- The limit of the trial counts what every account of the address has used. -/
theorem usageFor_used (settings : Settings) (hs : Sound a e t) (h : user ∈ t.users) (haddress : user.address = some e) (now : Int) :
    (usageFor settings .free a t.users t.rows t.stones user.userId now).used =
      buried a t.stones e + usedAt t e := by
  rw [usedAt_mem hs h haddress, Nat.add_comm]
  unfold usageFor
  rw [find_of_mem hs h]
  simp only [usageOf, Tier.allowance, Allowance.since, carriedOver, Option.bind_some, haddress, buried]

/-! ## The books are kept -/

variable {s s' : Site}

theorem edit_cases (h : s.edit t = some s') :
    s.server.places () = none ∧ s' = { s with server := { s.server with tables := t } } := by
  rw [Site.edit] at h
  split at h
  · rename_i hidle
    exact ⟨hidle, (Option.some.inj h).symm⟩
  · cases h

/-- The accounts change, and what has been used does not. -/
theorem Books.edit (hb : Books a settings e s) (h : s.edit t = some s') (hsound : Sound a e t)
    (hstones : t.stones = s.server.tables.stones) (hused : usedAt t e = usedAt s.server.tables e) :
    Books a settings e s' := by
  obtain ⟨hidle, rfl⟩ := edit_cases h
  exact {
    sound := hsound
    planned := fun p hp => by
      rw [show s.server.places () = some p from hp] at hidle
      cases hidle
    paid := hb.paid
    total := by rw [hb.total, hstones, hused]
    trial := hb.trial }

theorem answerRow_cases {userId : Str} {tier : Tier} {channel : Channel} {response : Value} {now : Int}
    {row : AnswerUsage} (h : answerRow a settings t userId tier channel response now = some row) :
    refuseIfUsedUp tier (usageFor settings tier a t.users t.rows t.stones userId now) = .ok () ∧ userId ∈ t.ids ∧
      row = usageRow tier userId now channel := by
  rw [answerRow] at h
  split at h
  · rename_i hok
    split at h
    · rename_i hcounts
      exact ⟨hok, of_decide_eq_true (Bool.and_eq_true_iff.mp hcounts).1, (Option.some.inj h).symm⟩
    · cases h
  · cases h

/-- An answer to a Free account of the address comes while there is some of the trial left. -/
theorem asked_lt (hb : Books a settings e s) {userId : Str} {now : Int} (hthere : userId ∈ s.server.tables.ids)
    (haddress : addressOf s.server.tables userId = some e)
    (hok : refuseIfUsedUp .free (usageFor settings .free a s.server.tables.users s.server.tables.rows
      s.server.tables.stones userId now) = .ok ()) :
    s.asked.countP (paidAt e) < settings.accessFreeTrialAnswers := by
  obtain ⟨user, hmem, rfl⟩ := List.mem_map.mp hthere
  rw [addressOf_mem hb.sound hmem] at haddress
  rw [hb.total, ← usageFor_used settings hb.sound hmem haddress now]
  refine lt_of_lt_of_le (used_lt_limit_of_ok hok) ?_
  change (if isVerified _ then settings.accessFreeTrialAnswers else 0) ≤ settings.accessFreeTrialAnswers
  split
  · exact le_refl _
  · exact Nat.zero_le _

theorem value_free {tier : Tier} (h : tier.value = Tier.free.value) : tier = .free := by
  cases tier with
  | free => rfl
  | anonymous | pro => exact absurd h (by decide)

/-- An answer is in the books and in the rows of its account. -/
theorem Books.ask (hb : Books a settings e s) {userId : Str} {tier : Tier} {channel : Channel} {response : Value}
    {now : Int} (h : act a settings stored configured s (.ask userId tier channel response now) = some s') :
    Books a settings e s' := by
  cases hrow : answerRow a settings s.server.tables userId tier channel response now with
  | none =>
    simp only [act, hrow, Option.toList_none, List.map_nil, List.append_nil] at h
    exact hb.edit h hb.sound rfl rfl
  | some row =>
    obtain ⟨hok, hthere, rfl⟩ := answerRow_cases hrow
    simp only [act, hrow, Option.toList_some, List.map_cons, List.map_nil] at h
    obtain ⟨hidle, rfl⟩ := edit_cases h
    have hfew : s.asked.countP (fun x => x.1 = some e && x.2.tier = Tier.free.value) ≤ s.asked.countP (paidAt e) := by
      refine List.countP_mono_left fun x hx hfree => ?_
      rw [paidAt, (Bool.and_eq_true_iff.mp hfree).1, hb.paid x hx]
      exact decide_eq_true (Eq.refl platform)
    refine ⟨⟨hb.sound.ids, hb.sound.emails, hb.sound.apart, ?_⟩, ?_, ?_, ?_, ?_⟩
    · intro row hmem
      rcases List.mem_append.mp hmem with hold | hnew
      · exact hb.sound.owned row hold
      · obtain rfl := List.mem_singleton.mp hnew
        exact hthere
    · intro p hp
      rw [show s.server.places () = some p from hp] at hidle
      cases hidle
    · intro x hmem
      rcases List.mem_append.mp hmem with hold | hnew
      · exact hb.paid x hold
      · obtain rfl := List.mem_singleton.mp hnew
        rfl
    · have hcount : ∀ rows : List AnswerUsage, usedAt { s.server.tables with rows := rows } e =
          rows.countP fun row => paidAt e (addressOf s.server.tables row.userId, row) := fun _ => rfl
      have htotal := hb.total
      rw [show usedAt s.server.tables e = _ from hcount s.server.tables.rows] at htotal
      change (s.asked ++ [_]).countP (paidAt e) = _
      rw [hcount, List.countP_append, List.countP_append, List.countP_singleton, List.countP_singleton, htotal,
        Nat.add_assoc]
      rfl
    · change (s.asked ++ [_]).countP _ ≤ _
      rw [List.countP_append, List.countP_singleton]
      split
      · rename_i hmine
        obtain ⟨haddress, hfree⟩ := Bool.and_eq_true_iff.mp hmine
        obtain rfl := value_free (of_decide_eq_true hfree)
        have hleft := asked_lt hb hthere (of_decide_eq_true haddress) hok
        omega
      · exact hb.trial

theorem act_deletion {l : Label Unit} (h : act a settings stored configured s (.deletion l) = some s') :
    (∀ t, l ≠ .edit t) ∧ ∃ server, step a stored configured s.server l = some server ∧ s' = { s with server := server } := by
  have hedit : ∀ t, l ≠ .edit t := by
    rintro t rfl
    cases h
  have hstep : (step a stored configured s.server l).map (fun server => { s with server := server }) = some s' := by
    cases l with
    | edit t => exact (hedit t rfl).elim
    | _ => exact h
  obtain ⟨server, hserver, rfl⟩ := Option.map_eq_some_iff.mp hstep
  exact ⟨hedit, server, hserver, rfl⟩

theorem exec_deletion (ls : List (Label Unit))
    (h : exec (act a settings stored configured) s (ls.map .deletion) = some s') :
    ∃ server, exec (step a stored configured) s.server ls = some server ∧ s' = { s with server := server } := by
  induction ls generalizing s with
  | nil => exact ⟨s.server, rfl, (Option.some.inj h).symm⟩
  | cons l ls ih =>
    obtain ⟨s₁, hl, hrest⟩ := exec_cons h
    obtain ⟨-, server, hserver, rfl⟩ := act_deletion hl
    obtain ⟨server', hserver', rfl⟩ := ih hrest
    exact ⟨server', by rw [exec, hserver]; exact hserver', rfl⟩

theorem Books.act (hb : Books a settings e s) (he : a.normal e = e) {op : Op} (hop : op.apart a e)
    (h : Trial.act a settings stored configured s op = some s') : Books a settings e s' := by
  have hapart : ∀ raw, (a.normal raw ≠ e → a.sha (a.normal raw) ≠ a.sha e) →
      a.normal raw ≠ e → emailHash a (a.normal raw) ≠ emailHash a e := by
    intro raw hraw hne
    rw [emailHash, emailHash, normal_normal, he]
    exact hraw hne
  cases op with
  | register raw hex =>
    by_cases hrefused : (looksLikeEmail (a.normal raw) = false || emailTaken s.server.tables (a.normal raw)) = true
    · simp only [Trial.act, register, if_pos hrefused] at h
      exact hb.edit h hb.sound rfl rfl
    · simp only [Trial.act, register, if_neg hrefused] at h
      obtain ⟨-, huntaken⟩ := Bool.or_eq_false_iff.mp (Bool.eq_false_iff.mpr hrefused)
      obtain ⟨hsound, hused⟩ := insertUser_sound hb.sound (newId hex) (some (a.normal raw))
        (forall_moved huntaken) (forall_moved (hapart raw hop))
      exact hb.edit h hsound (insertUser_stones _ _ _) hused
  | oauth email verified hex =>
    obtain ⟨hsound, hused⟩ := insertUser_sound hb.sound (newId hex)
      (emailForNewUser a s.server.tables email verified)
      (fun e' he' => by simpa using (Option.filter_eq_some_iff.mp he').2)
      fun e' he' => by
        obtain ⟨raw, hraw, rfl⟩ := Option.map_eq_some_iff.mp (Option.filter_eq_some_iff.mp he').1
        exact hapart raw (hop raw (Option.filter_eq_some_iff.mp hraw).1)
    exact hb.edit h hsound (insertUser_stones _ _ _) hused
  | verify userId provenEmail now =>
    obtain ⟨hsound, hused, hstones⟩ := markEmailVerified_sound hb.sound userId provenEmail now
    exact hb.edit h hsound hstones hused
  | subscribe memberships =>
    exact hb.edit h ⟨hb.sound.ids, hb.sound.emails, hb.sound.apart, hb.sound.owned⟩ rfl rfl
  | ask userId tier channel response now => exact hb.ask h
  | deletion l =>
    obtain ⟨hedit, server, hserver, rfl⟩ := act_deletion h
    obtain ⟨htables, hplanned⟩ := step_tables hedit hb.planned hserver
    obtain hsame | ⟨user, when_, hmem, hremoved⟩ := htables
    · exact ⟨by rw [hsame]; exact hb.sound, hplanned, hb.paid, by rw [hsame]; exact hb.total, hb.trial⟩
    · refine ⟨?_, hplanned, hb.paid, ?_, hb.trial⟩
      · rw [hremoved]
        exact hb.sound.remove _ _
      · rw [hremoved, total_remove hb.sound hmem]
        exact hb.total

end

/-! ## A deletion that raises -/

/-- The step is one of a deletion that goes on. -/
def goesOn : Label Unit → Bool
  | .edit _ | .request _ _ _ | .reapply _ _ _ _ => false
  | _ => true

section

variable (t : Tables) (results : List (Unit × Result)) (name : Name) (now : Int) (ls : List (Label Unit))

/-- The tables are as before the call, or the commit has landed and only its reply is lost. -/
def Unchanged (tables : Tables) : Prop :=
  tables = t ∨ .commit () .lost ∈ ls ∧ ∃ user, find a stored t name = .ok user ∧
    tables = remove a t user (plan a t user) now

/-- What holds where a call is. -/
def OnItsWay (tables : Tables) : Place → Prop
  | .finding name' now' => name' = name ∧ now' = now ∧ tables = t
  | .found user now' => find a stored t name = .ok user ∧ now' = now ∧ tables = t
  | .planned user p now' | .removed user p now' | .recorded user p now' =>
    find a stored t name = .ok user ∧ p = plan a t user ∧ now' = now ∧ tables = t
  | .unwinding _ _ | .checking _ | .forgetting _ => Unchanged a stored t name now ls tables
  | .reading _ | .looping _ _ | .again _ _ _ _ _ => False

/-- The call of `delete_account` from the tables `t`, with the steps that it has taken. -/
structure Call (s : Server Unit) : Prop where
  goes : ∀ p, s.places () = some p → s.results = results ∧ OnItsWay a stored t name now ls s.tables p
  raised : s.results = ((), .raised) :: results → Unchanged a stored t name now ls s.tables

variable {a stored configured t results name now ls}

theorem Unchanged.mono {tables : Tables} (h : Unchanged a stored t name now ls tables) (l : Label Unit) :
    Unchanged a stored t name now (ls ++ [l]) tables :=
  h.imp_right (And.imp_left (List.mem_append_left _))

/-- The call goes on. -/
theorem Call.goto {s : Server Unit} (hresults : s.results = results) {p : Place}
    (hp : OnItsWay a stored t name now ls s.tables p) : Call a stored t results name now ls (s.goto () (some p)) where
  goes := fun q hq => by
    obtain rfl : p = q := Option.some.inj ((put_self s.places () (some p)).symm.trans hq)
    exact ⟨hresults, hp⟩
  raised := fun h => absurd (hresults.symm.trans h) (List.cons_ne_self _ _).symm

/-- The call ends. -/
theorem Call.done {s : Server Unit} (hidle : s.places () = none)
    (h : s.results = ((), .raised) :: results → Unchanged a stored t name now ls s.tables) :
    Call a stored t results name now ls s where
  goes := fun p hp => by
    rw [hp] at hidle
    cases hidle
  raised := h

theorem Call.advance {s s' : Server Unit} {p : Place} (hresults : s.results = results)
    (hp : OnItsWay a stored t name now ls s.tables p) (h : s.advance a stored configured () p = some s') :
    Call a stored t results name now ls s' := by
  cases p with
  | finding name' now' =>
    obtain ⟨rfl, rfl, htables⟩ := hp
    rw [Server.advance] at h
    split at h
    · cases h
      exact Call.goto hresults (.inl htables)
    · rename_i user hfind
      split at h
      · cases h
      · cases h
        rw [htables] at hfind
        exact Call.goto (s := s.lock user.userId) hresults ⟨hfind, rfl, htables⟩
  | found user now' =>
    obtain ⟨hfind, rfl, htables⟩ := hp
    rw [Server.advance] at h
    split at h
    · cases h
      exact Call.goto hresults ⟨hfind, by rw [htables], rfl, htables⟩
    · cases h
      exact Call.goto hresults (.inl htables)
  | planned user p now' =>
    cases h
    exact Call.goto hresults hp
  | removed user p now' =>
    rw [Server.advance] at h
    split at h
    · cases h
    · cases h
      exact Call.goto hresults hp
  | reading _ | looping _ _ | again _ _ _ _ _ => exact hp.elim
  | recorded _ _ _ | unwinding _ _ | checking _ | forgetting _ => cases h

theorem Call.stumble {s s' : Server Unit} {p : Place} (hresults : s.results = results)
    (hp : OnItsWay a stored t name now ls s.tables p) (h : s.stumble () p = some s') :
    Call a stored t results name now ls s' := by
  cases p with
  | finding name' now' =>
    obtain ⟨-, -, htables⟩ := hp
    cases h
    exact Call.goto hresults (.inl htables)
  | found user now' =>
    obtain ⟨-, -, htables⟩ := hp
    cases h
    exact Call.goto hresults (.inl htables)
  | planned user p now' =>
    obtain ⟨-, -, -, htables⟩ := hp
    cases h
    exact Call.goto hresults (.inl htables)
  | reading _ | looping _ _ | again _ _ _ _ _ => exact hp.elim
  | removed _ _ _ | recorded _ _ _ | unwinding _ _ | checking _ | forgetting _ => cases h

theorem OnItsWay.mono {tables : Tables} {p : Place} (h : OnItsWay a stored t name now ls tables p) (l : Label Unit) :
    OnItsWay a stored t name now (ls ++ [l]) tables p := by
  cases p with
  | unwinding _ _ | checking _ | forgetting _ => exact Unchanged.mono h l
  | _ => exact h

theorem Call.kept {s s' : Server Unit} {l : Label Unit} (hc : Call a stored t results name now ls s)
    (hl : goesOn l = true) (h : step a stored configured s l = some s') :
    Call a stored t results name now (ls ++ [l]) s' := by
  cases l with
  | edit _ | request _ _ _ | reapply _ _ _ _ => cases hl
  | advance w ok =>
    obtain ⟨p, hw, h⟩ := Option.bind_eq_some_iff.mp h
    obtain ⟨hresults, hp⟩ := hc.goes p hw
    cases ok with
    | true => exact Call.advance hresults (hp.mono _) h
    | false => exact Call.stumble hresults (hp.mono _) h
  | record w reply =>
    simp only [step] at h
    split at h
    · rename_i user p now' hw
      obtain ⟨hresults, hp⟩ := hc.goes _ hw
      split at h
      · cases reply with
        | ok =>
          cases h
          exact Call.goto (s := { s with list := listAdd s.list user.userId now' }) hresults
            (hp.mono (.record w .ok))
        | lost =>
          cases h
          exact Call.goto (s := { s with list := listAdd s.list user.userId now' }) hresults (Or.inl hp.2.2.2)
        | failed =>
          cases h
          exact Call.goto hresults (Or.inl hp.2.2.2)
      · cases h
    · cases h
  | commit w reply =>
    simp only [step] at h
    split at h
    · rename_i user p now' hw
      obtain ⟨hresults, hfind, rfl, rfl, htables⟩ := hc.goes _ hw
      cases reply with
      | ok =>
        cases h
        refine Call.done (put_self s.places () none) fun hraised => ?_
        cases (List.cons.inj hraised).1
      | lost =>
        cases h
        refine Call.goto (s := { s.unlock (some user.userId) with tables := remove a s.tables user (plan a t user) now' })
          hresults (Or.inr ⟨?_, user, hfind, ?_⟩)
        · exact List.mem_append_right _ (List.mem_singleton_self _)
        · exact congrArg (fun tables => remove a tables user (plan a t user) now') htables
      | failed =>
        cases h
        exact Call.goto hresults (.inl htables)
    · rename_i hw
      exact (hc.goes _ hw).2.elim
    · cases h
  | rollback w ok =>
    simp only [step] at h
    split at h
    · rename_i locked listed hw
      obtain ⟨hresults, hp⟩ := hc.goes _ hw
      split at h
      · cases h
        exact Call.goto (s := s.unlock locked) hresults (hp.mono _)
      · cases h
        exact Call.done (put_self s.places () none) fun _ => hp.mono _
    · cases h
  | check w ok =>
    simp only [step] at h
    split at h
    · rename_i userId hw
      obtain ⟨hresults, hp⟩ := hc.goes _ hw
      split at h
      · cases h
        exact Call.goto hresults (hp.mono _)
      · cases h
        exact Call.done (put_self s.places () none) fun _ => hp.mono _
    · cases h
  | forget w reply =>
    simp only [step] at h
    split at h
    · rename_i userId hw
      obtain ⟨hresults, hp⟩ := hc.goes _ hw
      split at h
      · cases h
        exact Call.done (put_self s.places () none) fun _ => hp.mono _
      · cases h
        exact Call.done (put_self s.places () none) fun _ => hp.mono _
    · cases h
  | crash w =>
    obtain ⟨p, hw, rfl⟩ := Option.map_eq_some_iff.mp h
    obtain ⟨hresults, -⟩ := hc.goes _ hw
    refine Call.done (put_self s.places () none) fun hraised => ?_
    exact absurd (hresults.symm.trans hraised) (List.cons_ne_self _ _).symm

end

/-- A call alone that raises has changed nothing, unless its commit has landed. -/
theorem raised_unchanged {a : Addressing} {stored : Str → Str} {configured : Bool} {s s' : Server Unit} {name : Name}
    {now : Int} {ls : List (Label Unit)} (hls : ∀ l ∈ ls, goesOn l = true)
    (hrun : exec (step a stored configured) s (.request () name now :: ls) = some s')
    (hraised : s'.results = ((), .raised) :: s.results) : Unchanged a stored s.tables name now ls s'.tables := by
  obtain ⟨s₁, hrequest, hrest⟩ := exec_cons hrun
  have hstart : Call a stored s.tables s.results name now [] s₁ := by
    simp only [step] at hrequest
    split at hrequest
    · cases hrequest
    · cases hrequest
      exact Call.goto rfl ⟨rfl, rfl, rfl⟩
  have hcall : (∀ l ∈ ls, goesOn l = true) → Call a stored s.tables s.results name now ls s' :=
    exec_history (I := fun ls s' => (∀ l ∈ ls, goesOn l = true) → Call a stored s.tables s.results name now ls s')
      (fun _ => hstart)
      (fun ls s₂ l s₃ _ hc h hgo => (hc fun l' hl' => hgo l' (List.mem_append_left _ hl')).kept
        (hgo l (List.mem_append_right _ (List.mem_singleton_self l))) h) hrest
  exact (hcall hls).raised hraised

/-- For accounts that come, are verified, ask and are deleted, in any sequence: what the
Free allowance of an account counts as used is all the answers that the platform has paid
for to accounts of its address, deleted or not; the answers to Free accounts of one address
are no more than one trial has; and a deletion that raises leaves the tables as they were,
unless its commit has landed and only the reply is lost: then the account is deleted and
its answers are on the tombstone. -/
theorem one_trial (a : Addressing) (settings : Settings) (stored : Str → Str) (configured : Bool) (email : Str)
    (ops : List Op) (s : Site) (hapart : ∀ op ∈ ops, op.apart a (a.normal email))
    (hrun : exec (act a settings stored configured) Site.new ops = some s) :
    (∀ user ∈ s.server.tables.users, user.address = some (a.normal email) → ∀ now,
      (usageFor settings .free a s.server.tables.users s.server.tables.rows s.server.tables.stones user.userId now).used =
        s.asked.countP (paidAt (a.normal email))) ∧
      s.asked.countP (fun x => x.1 = some (a.normal email) && x.2.tier = Tier.free.value) ≤
        settings.accessFreeTrialAnswers ∧
      ∀ name now (ls : List (Label Unit)) s', (∀ l ∈ ls, goesOn l = true) →
        exec (act a settings stored configured) s (.deletion (.request () name now) :: ls.map .deletion) = some s' →
        s'.server.results = ((), .raised) :: s.server.results →
        s'.server.tables = s.server.tables ∨ .commit () .lost ∈ ls ∧
          ∃ user, find a stored s.server.tables name = .ok user ∧
            s'.server.tables = remove a s.server.tables user (plan a s.server.tables user) now := by
  have hbooks : Books a settings (a.normal email) s :=
    exec_invariant (fun _ _ _ hb hop h => hb.act (normal_normal a email) hop h) (Books.new a settings _)
      (along_of_mem ops _ fun op hop _ => hapart op hop) hrun
  refine ⟨fun user hmem haddress now => ?_, hbooks.trial, fun name now ls s' hls hcall hraised => ?_⟩
  · rw [usageFor_used settings hbooks.sound hmem haddress, hbooks.total]
  · obtain ⟨server, hserver, rfl⟩ := exec_deletion (.request () name now :: ls) hcall
    exact raised_unchanged hls hserver hraised

def exampleSettings : Settings := ⟨true, 2, 0⟩

def exampleAnswer : Value :=
  .dict [("no_answer".toList, .bool false), ("unsupported".toList, .bool false),
    ("citations".toList, .list [.str "https://example.com".toList])]

/-- A visitor registers the address, verifies it and asks. -/
def visit (raw hex : Str) : List Op :=
  [.register raw hex, .verify (newId hex) (some raw) 1, .ask (newId hex) .free .chat exampleAnswer 2,
    .ask (newId hex) .free .chat exampleAnswer 3]

/-- A call of `delete_account` without a list, from its first statement. -/
def exampleDeletion (ended : List (Label Unit)) : List Op :=
  .deletion (.request () (.email "a@example.com".toList) 10) :: .deletion (.advance () true) ::
    .deletion (.advance () true) :: .deletion (.advance () true) :: .deletion (.advance () true) :: ended.map .deletion

/-- The trial is used up by the first account, so the second gets no answer. -/
theorem one_trial_again :
    ∃ s, exec (act exampleAddressing exampleSettings id false) Site.new
        (visit " A@example.com".toList "1".toList ++ exampleDeletion [.commit () .ok] ++ visit "a@Example.com ".toList "2".toList) = some s ∧
      s.server.tables.ids = [newId "2".toList] ∧ s.asked.countP (paidAt "a@example.com".toList) = 2 ∧
      (usageFor exampleSettings .free exampleAddressing s.server.tables.users s.server.tables.rows s.server.tables.stones
        (newId "2".toList) 20).used = 2 := by
  have hrun : ∃ s ∈ exec (act exampleAddressing exampleSettings id false) Site.new
      (visit " A@example.com".toList "1".toList ++ exampleDeletion [.commit () .ok] ++ visit "a@Example.com ".toList "2".toList),
      s.server.tables.users = [⟨newId "2".toList, some "a@example.com".toList, some 1⟩] ∧
        s.asked.countP (paidAt "a@example.com".toList) = 2 := by
    decide +kernel
  obtain ⟨s, hs, husers, hasked⟩ := hrun
  have hnormal : exampleAddressing.normal "a@example.com".toList = "a@example.com".toList := by decide
  have hapart : ∀ op ∈ visit " A@example.com".toList "1".toList ++ exampleDeletion [.commit () .ok] ++
      visit "a@Example.com ".toList "2".toList, op.apart exampleAddressing (exampleAddressing.normal "a@example.com".toList) := by
    simp only [visit, exampleDeletion, List.cons_append, List.nil_append, List.map_cons, List.map_nil,
      List.forall_mem_cons, List.not_mem_nil, false_imp_iff, implies_true, Op.apart, and_true, true_and]
    exact ⟨fun h => (h (by decide)).elim, fun h => (h (by decide)).elim⟩
  obtain ⟨hused, -, -⟩ := one_trial exampleAddressing exampleSettings id false "a@example.com".toList _ s hapart hs
  rw [hnormal] at hused
  refine ⟨s, hs, by rw [Tables.ids, husers]; rfl, hasked, ?_⟩
  rw [← hasked]
  exact hused ⟨newId "2".toList, some "a@example.com".toList, some 1⟩ (by rw [husers]; exact List.mem_singleton_self _)
    (by decide) 20

/-- A call whose commit lands and whose reply is lost raises, and the account is gone. -/
theorem raised_changed :
    ∃ s, exec (act exampleAddressing exampleSettings id false) Site.new (visit " A@example.com".toList "1".toList) = some s ∧
      s.server.tables.rows.length = 2 ∧ s.server.tables.stones = [] ∧
      ∃ s', exec (act exampleAddressing exampleSettings id false) s
          (exampleDeletion [.commit () .lost, .rollback () true]) = some s' ∧
        s'.server.results = ((), .raised) :: s.server.results ∧ s'.server.tables.rows = [] ∧
        s'.server.tables.stones.map DeletedAccount.trialAnswersUsed = [2] := by
  decide +kernel

end CiteVyn.Access.Trial
