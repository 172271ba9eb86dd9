import CiteVyn.Services.Unsubscribe

/-! # Out of the digest

Who takes an account out of the digest, and for how long it stays out. -/
namespace CiteVyn.Services.Unsubscribe
open CiteVyn.Lib.Runs CiteVyn.Lib.Threads CiteVyn.Services.Digest CiteVyn.Text

variable {W V : Type} [DecidableEq W] [DecidableEq V]

/-- The account, if it is there, has not opted in. -/
def Out (users : List User) (userId : Str) : Prop := ∀ user ∈ users, user.userId = userId → user.digestOptInAt = none

instance (users : List User) (userId : Str) : Decidable (Out users userId) :=
  inferInstanceAs (Decidable (∀ user ∈ users, user.userId = userId → user.digestOptInAt = none))

/-- The step commits an opt-in of the account. -/
def optsIn (userId : Str) (s : Office W V) : Label W V → Bool
  | .advance v _ =>
    match s.requests v with
    | some (.saving other (some (some _)) _ _) => other = userId
    | _ => false
  | _ => false

/-- The accounts that a run has yet to come to, or is writing to. -/
def ahead : Place → List Str
  | .started _ _ => []
  | .listed _ _ rcpts | .checked _ _ rcpts _ => rcpts.map Prod.fst
  | .looping _ todo | .releasing _ _ _ _ todo => todo.map Prod.fst
  | .claiming _ userId _ _ todo | .sending _ userId _ _ _ todo => userId :: todo.map Prod.fst

/-- No run has the account ahead of it. -/
def Unlisted (server : Server W) (userId : Str) : Prop := ∀ w p, server.places w = some p → userId ∉ ahead p

def mailsTo (server : Server W) (userId : Str) : List Mail := server.mails.filter fun m => m.userId = userId

section

variable {config : Config} {s s' : Office W V} {l : Label W V} {userId : Str}

theorem out_written {users : List User} {other : Str} {write : Option (Option Int)} (h : Out users userId)
    (hwrite : other = userId → write ≠ none → write = some none) : Out (written users other write) userId := by
  cases write with
  | none => exact h
  | some optIn =>
    intro user huser hid
    obtain ⟨user', huser', rfl⟩ := List.mem_map.mp huser
    by_cases hother : user'.userId = other
    · rw [if_pos hother] at hid ⊢
      exact Option.some.inj (hwrite (hother.symm.trans hid) (Option.some_ne_none _))
    · rw [if_neg hother] at hid ⊢
      exact h user' huser' hid

theorem written_out (users : List User) (userId : Str) : Out (written users userId (some none)) userId := by
  intro user huser hid
  obtain ⟨user', huser', rfl⟩ := List.mem_map.mp huser
  by_cases hother : user'.userId = userId
  · rw [if_pos hother]
  · rw [if_neg hother] at hid
    exact absurd hid hother

omit [DecidableEq W] [DecidableEq V] in
theorem out_next {v : V} {request : Request} {users : List User} (h : Out s.server.users userId)
    (hin : optsIn userId s l = false) (hnext : Next config s l v request users) : Out users userId := by
  cases hnext with
  | @saved v now other write subscribed verified hv =>
    refine out_written h ?_
    rintro rfl hsome
    cases write with
    | none => exact absurd rfl hsome
    | some optIn =>
      cases optIn with
      | none => rfl
      | some optIn => simp [optsIn, hv] at hin
  | @stopped v now row unsubscribedAt t user hv =>
    refine out_written h fun _ hsome => ?_
    cases user with
    | none => exact absurd rfl hsome
    | some user =>
      rw [Option.bind_some] at hsome ⊢
      split at hsome
      · rename_i hopted
        exact if_pos hopted
      · exact absurd rfl hsome
  | _ => exact h

omit [DecidableEq V] in
theorem digest_users {l : Digest.Label W} {server : Server W} (hedit : ∀ users, l ≠ .edit users)
    (h : Digest.Turn config.digestMaxPerRun config.sha s.server l server) : server.users = s.server.users := by
  cases h with
  | edit users => exact absurd rfl (hedit users)
  | _ => rfl

theorem out_step (h : Out s.server.users userId) (hin : optsIn userId s l = false)
    (hstep : step config s l = some s') : Out s'.server.users userId := by
  cases step_turn hstep with
  | run hedit _ hturn =>
    rw [digest_users hedit hturn]
    exact h
  | claimed _ _ _ _ _ => exact h
  | refused _ => exact h
  | register _ hout => exact List.forall_mem_cons.mpr ⟨fun _ => hout, h⟩
  | change other email emailVerifiedAt =>
    intro user huser hid
    obtain ⟨user', huser', rfl⟩ := List.mem_map.mp huser
    by_cases hother : user'.userId = other
    · rw [if_pos hother] at hid ⊢
      exact h user' huser' hid
    · rw [if_neg hother] at hid ⊢
      exact h user' huser' hid
  | delete other => exact fun user huser => h user (List.mem_of_mem_filter huser)
  | request _ hnext => exact out_next h hin hnext

theorem not_mem_recipients {users : List User} (h : Out users userId) : userId ∉ (recipients users).map Prod.fst := by
  intro hmem
  obtain ⟨⟨_, email⟩, hrcpt, rfl⟩ := List.mem_map.mp hmem
  obtain ⟨user, huser, hfound⟩ := List.mem_filterMap.mp hrcpt
  split at hfound
  · rename_i hopted
    obtain ⟨_, _, heq⟩ := Option.map_eq_some_iff.mp hfound
    cases heq
    rw [h user ((List.perm_insertionSort _ _).mem_iff.mp huser) rfl] at hopted
    cases hopted
  · cases hfound

/-- What a run has ahead of it after its step. -/
theorem unlisted_goto {server : Server W} (h : Unlisted server userId) (w : W) {p : Option Place}
    (hp : ∀ p', p = some p' → userId ∉ ahead p') : Unlisted (server.goto w p) userId :=
  forall_put h hp

omit [DecidableEq V] in
theorem unlisted_run {l : Digest.Label W} {server : Server W} (hout : Out s.server.users userId)
    (h : Unlisted s.server userId) (hturn : Digest.Turn config.digestMaxPerRun config.sha s.server l server) :
    Unlisted server userId ∧ mailsTo server userId = mailsTo s.server userId := by
  cases hturn with
  | visit _ => exact ⟨h, rfl⟩
  | edit _ => exact ⟨h, rfl⟩
  | nothing _ _ => exact ⟨h, rfl⟩
  | start _ _ => exact ⟨unlisted_goto h _ (forall_moved List.not_mem_nil), rfl⟩
  | read hw hreads =>
    have hahead := h _ _ hw
    refine ⟨unlisted_goto h _ (forall_moved ?_), rfl⟩
    cases hreads with
    | recipients => exact not_mem_recipients hout
    | claimed => exact hahead
    | sends => exact hahead
  | @advance w r todo hw =>
    refine ⟨unlisted_goto h _ ?_, rfl⟩
    have hahead := h w _ hw
    cases todo with
    | nil => exact forall_gone
    | cons next todo =>
      have htail : userId ∉ todo.map Prod.fst := fun hmem => hahead (List.mem_cons_of_mem _ hmem)
      rw [Run.advance]
      split_ifs
      · exact forall_moved htail
      · exact forall_moved htail
      · rintro _ ⟨⟩
      · exact forall_moved hahead
  | claim hw _ _ =>
    have hahead := h _ _ hw
    exact ⟨unlisted_goto h _ (forall_moved hahead), rfl⟩
  | refused hw _ => exact ⟨unlisted_goto h _ (forall_moved fun hmem => h _ _ hw (List.mem_cons_of_mem _ hmem)), rfl⟩
  | @returned w r other email mine sendId todo hw =>
    have hahead := h w _ hw
    have hother : other ≠ userId := fun heq => hahead (heq ▸ List.mem_cons_self)
    refine ⟨unlisted_goto h w (forall_moved fun hmem => hahead (List.mem_cons_of_mem _ hmem)), ?_⟩
    exact List.filter_cons_of_neg (by simpa using hother)
  | raised raised hw _ =>
    exact ⟨unlisted_goto h _ (forall_moved fun hmem => h _ _ hw (List.mem_cons_of_mem _ hmem)), rfl⟩
  | @release w r other sendId raised todo hw =>
    have hahead := h w _ hw
    refine ⟨unlisted_goto h w ?_, rfl⟩
    cases raised with
    | true => exact forall_gone
    | false => exact forall_moved hahead
  | fail _ => exact ⟨unlisted_goto h _ forall_gone, rfl⟩

theorem unlisted_step (hout : Out s.server.users userId) (h : Unlisted s.server userId)
    (hstep : step config s l = some s') :
    Unlisted s'.server userId ∧ mailsTo s'.server userId = mailsTo s.server userId := by
  cases step_turn hstep with
  | run _ _ hturn => exact unlisted_run hout h hturn
  | claimed hw _ _ _ _ =>
    have hahead := h _ _ hw
    exact ⟨unlisted_goto h _ (forall_moved hahead), rfl⟩
  | refused hw => exact ⟨unlisted_goto h _ (forall_moved fun hmem => h _ _ hw (List.mem_cons_of_mem _ hmem)), rfl⟩
  | _ => exact ⟨h, rfl⟩

/-- What a request that is not answered yet has asked for, some time before. -/
theorem asked {ls : List (Label W V)} (hrun : exec (step config) Office.new ls = some s) :
    ∀ v request, s.requests v = some request →
      Took (step config) Office.new ls (fun _ l => Asks l v request) ∨ ∃ reply, request = .answered reply := by
  refine exec_history (I := fun ls s => ∀ v request, s.requests v = some request →
    Took (step config) Office.new ls (fun _ l => Asks l v request) ∨ ∃ reply, request = .answered reply)
    (fun _ _ h => by cases h) ?_ hrun
  intro ls s l s' hrun ih hstep v request hv
  have hbefore : s.requests v = some request → Took (step config) Office.new (ls ++ [l])
      (fun _ l => Asks l v request) ∨ ∃ reply, request = .answered reply := by
    intro hthere
    rcases ih v request hthere with htook | hanswered
    · exact .inl (htook.append [l])
    · exact .inr hanswered
  cases step_turn hstep with
  | @request _ v' next users unsubscribedAt hnext =>
    rcases put_cases hv with ⟨rfl, heq⟩ | ⟨-, hthere⟩
    · cases heq
      cases hnext with
      | arrived _ hasks _ _ _ => exact .inl (Took.last hrun hasks)
      | loaded hfound =>
        rcases ih _ _ hfound with htook | ⟨reply, heq⟩
        · exact .inl (htook.append _)
        · cases heq
      | saved _ => exact .inr ⟨_, rfl⟩
      | stopped _ => exact .inr ⟨_, rfl⟩
      | raised _ _ => exact .inr ⟨_, rfl⟩
    · exact hbefore hthere
  | _ => exact hbefore hv

/-- A request whose answer is not that the account is out, or has the account's row to write. -/
def Pending (userId : Str) : Request → Prop
  | .saving _ _ _ _ | .found _ _ _ => True
  | .loaded row _ _ user => row.userId = userId → ∃ u, user = some u ∧ u.digestOptInAt.isSome
  | .answered reply => reply ≠ .stopped userId

/-- The account is out, or the request has not answered that it is. -/
def Stopping (s : Office W V) (v : V) (userId : Str) : Prop :=
  Out s.server.users userId ∨ ∃ request, s.requests v = some request ∧ Pending userId request

omit [DecidableEq W] in
theorem stopping_next {v v' : V} {request : Request} {users : List User} {unsubscribedAt : Nat → Option Int}
    (hnodup : s.accounts.Nodup) {pending : Request} (hv : s.requests v = some pending) (hpending : Pending userId pending)
    (h : Next config s l v' request users) :
    Stopping { s with
      server := { s.server with users := users }
      unsubscribedAt := unsubscribedAt
      requests := put s.requests v' (some request) } v userId := by
  by_cases hsame : v = v'
  · subst hsame
    have hnow : ∀ next users, Pending userId next → Stopping (W := W) { s with
        server := { s.server with users := users }
        unsubscribedAt := unsubscribedAt
        requests := put s.requests v (some next) } v userId := fun next _ hnext =>
      .inr ⟨next, put_self _ _ _, hnext⟩
    cases h with
    | arrived hnew _ _ _ _ =>
      rw [hv] at hnew
      cases hnew
    | @loaded _ _ row at_ t hfound =>
      by_cases hout : Out s.server.users userId
      · exact .inl hout
      · refine hnow _ _ ?_
        rintro rfl
        -- some row of the account has opted in, and there is one row only
        simp only [Out, not_forall] at hout
        obtain ⟨user, huser, hid, hopted⟩ := hout
        cases hloaded : s.user row.userId with
        | none => exact absurd (decide_eq_true hid) (List.find?_eq_none.mp hloaded user huser)
        | some user' =>
          obtain ⟨huser', hid'⟩ := user_some hloaded
          obtain rfl := List.inj_on_of_nodup_map hnodup huser' huser (hid'.trans hid.symm)
          exact ⟨user', rfl, Option.isSome_iff_ne_none.mpr hopted⟩
    | saved _ => exact hnow _ _ fun heq => by cases heq
    | @stopped _ _ row at_ t user hloaded =>
      cases hv.symm.trans hloaded
      by_cases hid : row.userId = userId
      · obtain ⟨u, rfl, hopted⟩ := hpending hid
        subst hid
        left
        rw [Option.bind_some, if_pos hopted]
        exact written_out _ _
      · exact hnow _ _ fun heq => hid (Reply.stopped.inj heq)
    | raised _ _ => exact hnow _ _ fun heq => by cases heq
  · exact .inr ⟨pending, (put_of_ne _ _ hsame).trans hv, hpending⟩

theorem stopping_step {v : V} (hi : Inv config s) (h : Stopping s v userId) (hin : optsIn userId s l = false)
    (hstep : step config s l = some s') : Stopping s' v userId := by
  rcases h with hout | ⟨pending, hv, hpending⟩
  · exact .inl (out_step hout hin hstep)
  · cases step_turn hstep with
    | request _ hnext => exact stopping_next hi.accounts_nodup hv hpending hnext
    | _ => exact .inr ⟨pending, hv, hpending⟩

omit [DecidableEq W] in
/-- The request has come in, and has not said that an account is out. -/
theorem stopping_open {v : V} {request : Request} (h : s.open v request = some s') (hpending : Pending userId request) :
    Stopping s' v userId := by
  simp only [Office.open] at h
  split at h
  · cases h
  · cases h
    exact .inr ⟨request, put_self _ _ _, hpending⟩

theorem stopping_unsubscribe {v : V} {t : Str} (h : step config s (.unsubscribe v t) = some s') :
    Stopping s' v userId := by
  refine stopping_open h ?_
  split_ifs
  · exact fun heq => by cases heq
  · exact fun heq => by cases heq
  · split
    · trivial
    · exact fun heq => by cases heq

end

/-- An account that is there goes out of the digest by its own `PUT`, or by a `POST` of a
link with the id of a mail to it and a token with the hash of the mail's. -/
theorem out_by (config : Config) {ls : List (Label W V)} {s s' : Office W V} {l : Label W V} {userId : Str}
    (hrun : exec (step config) Office.new ls = some s) (hstep : step config s l = some s')
    (hthere : userId ∈ s'.accounts) (hin : ¬Out s.server.users userId) (hout : Out s'.server.users userId) :
    ∃ v now, l = .advance v now ∧
      (Took (step config) Office.new ls (fun _ l => ∃ now, l = .put v userId false now) ∨
        ∃ t, Took (step config) Office.new ls (fun _ l => l = .unsubscribe v t) ∧
          ∃ letter ∈ s.letters, letter.userId = userId ∧ sendIdOf t = some letter.sendId ∧
            config.hashToken (tokenOf t) = config.hashToken letter.token) := by
  have hi := Inv.of_run hrun
  have hasked := asked hrun
  obtain ⟨user, huser, hid, hopted⟩ : ∃ user ∈ s.server.users, user.userId = userId ∧ user.digestOptInAt ≠ none := by
    simpa [Out] using hin
  -- a commit to the row of the account clears the column
  have hcleared : ∀ other write, Out (written s.server.users other write) userId → other = userId ∧ write = some none := by
    intro other write hwritten
    cases write with
    | none => exact absurd hwritten hin
    | some optIn =>
      have hnew := hwritten _ (List.mem_map_of_mem huser)
      by_cases hother : user.userId = other
      · rw [if_pos hother] at hnew
        exact ⟨hother.symm.trans hid, congrArg some (hnew hid)⟩
      · rw [if_neg hother] at hnew
        exact absurd (hnew hid) hopted
  cases step_turn hstep with
  | run hedit _ hturn => exact absurd (digest_users hedit hturn ▸ hout) hin
  | claimed _ _ _ _ _ => exact absurd hout hin
  | refused _ => exact absurd hout hin
  | register _ _ => exact absurd (fun user huser => hout user (List.mem_cons_of_mem _ huser)) hin
  | change other email emailVerifiedAt =>
    have hnew := hout _ (List.mem_map_of_mem huser)
    by_cases hother : user.userId = other
    · rw [if_pos hother] at hnew
      exact absurd (hnew hid) hopted
    · rw [if_neg hother] at hnew
      exact absurd (hnew hid) hopted
  | delete other =>
    obtain ⟨left, hleft, hleftId⟩ := List.mem_map.mp hthere
    have hne : user.userId ≠ other := by
      rw [hid, ← hleftId]
      exact of_decide_eq_true (List.mem_filter.mp hleft).2
    exact absurd (hout user (List.mem_filter.mpr ⟨huser, decide_eq_true hne⟩) hid) hopted
  | request unsubscribedAt hnext =>
    cases hnext with
    | arrived _ _ _ _ _ => exact absurd hout hin
    | loaded _ => exact absurd hout hin
    | raised _ _ => exact absurd hout hin
    | @saved v now other write subscribed verified hv =>
      obtain ⟨rfl, rfl⟩ := hcleared _ _ hout
      refine ⟨_, _, rfl, .inl ?_⟩
      rcases hasked _ _ hv with ⟨pre, l, post, s₁, heq, hpre, ⟨now', hput⟩, hwrite⟩ | ⟨reply, heq⟩
      · exact ⟨pre, l, post, s₁, heq, hpre, now', hwrite rfl ▸ hput⟩
      · cases heq
    | @stopped v now row at_ t loaded hv =>
      obtain ⟨rfl, -⟩ := hcleared _ _ hout
      refine ⟨_, _, rfl, .inr ⟨t, ?_, ?_⟩⟩
      · rcases hasked _ _ hv with htook | ⟨reply, heq⟩
        · exact htook
        · cases heq
      · obtain ⟨letter, hletter, -, hrest⟩ := (hi.requests _ _ hv).1
        exact ⟨letter, hletter, hrest⟩

theorem out_by_link :
    ∃ s s', exec (step exampleConfig) Office.new
        (digestSent ++ [.unsubscribe false exampleLetter.link, .advance false 20]) = some s ∧
      step exampleConfig s (.advance false 20) = some s' ∧
      ∃ v now, (Label.advance false 20 : Label Bool Bool) = .advance v now ∧
        (Took (step exampleConfig) Office.new (digestSent ++ [.unsubscribe false exampleLetter.link, .advance false 20])
            (fun _ l => ∃ now, l = .put v exampleLetter.userId false now) ∨
          ∃ t, Took (step exampleConfig) Office.new (digestSent ++ [.unsubscribe false exampleLetter.link, .advance false 20])
              (fun _ l => l = .unsubscribe v t) ∧
            ∃ letter ∈ s.letters, letter.userId = exampleLetter.userId ∧ sendIdOf t = some letter.sendId ∧
              exampleConfig.hashToken (tokenOf t) = exampleConfig.hashToken letter.token) := by
  have hrun : ∃ s ∈ exec (step exampleConfig) Office.new
        (digestSent ++ [.unsubscribe false exampleLetter.link, .advance false 20]),
      ∃ s' ∈ step exampleConfig s (.advance false 20),
        exampleLetter.userId ∈ s'.accounts ∧ ¬Out s.server.users exampleLetter.userId ∧
        Out s'.server.users exampleLetter.userId := by
    decide +kernel
  obtain ⟨s, hs, s', hs', hthere, hin, hout⟩ := hrun
  exact ⟨s, s', hs, hs', out_by exampleConfig hs hs' hthere hin hout⟩

/-- A `POST` of a link that has answered that an account gets no more digests holds:
unless an opt-in of the account is committed after the `POST` came in, the account stays
out, and once no run has it on its list no mail to it follows. -/
theorem stopped_stays (config : Config) {before after later : List (Label W V)} {s₀ s₁ s₂ s₃ : Office W V}
    {v : V} {t userId : Str}
    (hbefore : exec (step config) Office.new before = some s₀) (hpost : step config s₀ (.unsubscribe v t) = some s₁)
    (hafter : exec (step config) s₁ after = some s₂) (hanswer : s₂.requests v = some (.answered (.stopped userId)))
    (hlater : exec (step config) s₂ later = some s₃)
    (hafterIn : Along (step config) (fun s l => optsIn userId s l = false) s₁ after)
    (hlaterIn : Along (step config) (fun s l => optsIn userId s l = false) s₂ later) :
    Out s₂.server.users userId ∧ Out s₃.server.users userId ∧
      (Unlisted s₂.server userId → mailsTo s₃.server userId = mailsTo s₂.server userId) := by
  have hi₁ : Inv config s₁ := (Inv.of_run hbefore).step hpost
  have hstopping : Inv config s₂ ∧ Stopping s₂ v userId := exec_invariant
    (I := fun s => Inv config s ∧ Stopping s v userId)
    (fun _ _ _ hs hok h => ⟨hs.1.step h, stopping_step hs.1 hs.2 hok h⟩) ⟨hi₁, stopping_unsubscribe hpost⟩ hafterIn hafter
  have hout : Out s₂.server.users userId := by
    rcases hstopping.2 with hout | ⟨request, hv, hpending⟩
    · exact hout
    · cases hanswer.symm.trans hv
      exact absurd rfl hpending
  refine ⟨hout, exec_invariant (I := fun s => Out s.server.users userId)
    (fun _ _ _ hs hok h => out_step hs hok h) hout hlaterIn hlater, fun hunlisted => ?_⟩
  have hall := exec_invariant
    (I := fun s => Out s.server.users userId ∧ Unlisted s.server userId ∧ mailsTo s.server userId = mailsTo s₂.server userId)
    (fun _ _ _ hs hok h => ⟨out_step hs.1 hok h, (unlisted_step hs.1 hs.2.1 h).1,
      (unlisted_step hs.1 hs.2.1 h).2.trans hs.2.2⟩) ⟨hout, hunlisted, rfl⟩ hlaterIn hlater
  exact hall.2.2

/-- The next digest, a week later, has nobody to go to. -/
theorem stopped_stays_stopped :
    ∃ s₂ s₃, exec (step exampleConfig) Office.new
        (digestSent ++ [.unsubscribe false exampleLetter.link, .advance false 20, .advance false 20]) = some s₂ ∧
      exec (step exampleConfig) s₂
        [.run (.visit 30 (exampleVisit ['c'] 2)), .run (.start true 604800000010), .run (.read true)] = some s₃ ∧
      Out s₂.server.users exampleLetter.userId ∧ Out s₃.server.users exampleLetter.userId ∧
      (Unlisted s₂.server exampleLetter.userId →
        mailsTo s₃.server exampleLetter.userId = mailsTo s₂.server exampleLetter.userId) := by
  have hrun : ∃ s₀ ∈ exec (step exampleConfig) Office.new digestSent,
      ∃ s₁ ∈ step exampleConfig s₀ (.unsubscribe false exampleLetter.link),
      ∃ s₂ ∈ exec (step exampleConfig) s₁ [.advance false 20, .advance false 20],
      ∃ s₃ ∈ exec (step exampleConfig) s₂
        [.run (.visit 30 (exampleVisit ['c'] 2)), .run (.start true 604800000010), .run (.read true)],
        s₂.requests false = some (.answered (.stopped exampleLetter.userId)) ∧
        Along (step exampleConfig) (fun s l => optsIn exampleLetter.userId s l = false) s₁
          [.advance false 20, .advance false 20] ∧
        Along (step exampleConfig) (fun s l => optsIn exampleLetter.userId s l = false) s₂
          [.run (.visit 30 (exampleVisit ['c'] 2)), .run (.start true 604800000010), .run (.read true)] := by
    decide +kernel
  obtain ⟨s₀, h₀, s₁, h₁, s₂, h₂, s₃, h₃, hanswer, hafter, hlater⟩ := hrun
  refine ⟨s₂, s₃, ?_, h₃, stopped_stays exampleConfig h₀ h₁ h₂ hanswer h₃ hafter hlater⟩
  rw [exec_append, h₀, Option.bind_some, exec_of_step h₁]
  exact h₂

end CiteVyn.Services.Unsubscribe
