import CiteVyn.Lib.SlidingWindow
import CiteVyn.Text.Python
import Mathlib.Algebra.Order.Field.Rat
import Mathlib.Tactic.Linarith

/-! # The rate limiters

`RateLimiter` and `RedisRateLimiter` of `app/core/rate_limit.py`: a deque for each
key in the memory of the process, and a sorted set for each key in Redis, which the
script reads and writes in one step. Times are in seconds, exact, on one clock. -/
namespace CiteVyn.Core.RateLimit
open CiteVyn.Lib.SlidingWindow CiteVyn.Text

/-! ## Limits -/

/-- The arguments of both constructors. -/
structure Arguments where
  windowSeconds : ℕ
  demoUserPerWindow : ℕ
  adminPerWindow : ℕ
  globalPerWindow : ℕ := 600
  authLoginPerWindow : ℕ := 10
  demoUserRegisteredPerWindow : ℕ := 100
  magicLinkPerWindow : ℕ := 5
  passwordChangePerWindow : ℕ := 3
  magicLinkIntervalSeconds : ℕ := 60
  deriving DecidableEq, Repr

/-- What the constructors raise, if anything. -/
def Arguments.error (a : Arguments) : Option String :=
  if a.windowSeconds < 1 then some "window_seconds must be >= 1"
  else if a.demoUserPerWindow < 1 ∨ a.adminPerWindow < 1 then some "per-window limits must be >= 1"
  else if a.globalPerWindow < 1 then some "global_per_window must be >= 1"
  else if a.authLoginPerWindow < 1 then some "auth_login_per_window must be >= 1"
  else if a.demoUserRegisteredPerWindow < 1 then some "demo_user_registered_per_window must be >= 1"
  else if a.magicLinkPerWindow < 1 then some "magic_link_per_window must be >= 1"
  else if a.passwordChangePerWindow < 1 then some "password_change_per_window must be >= 1"
  else if a.magicLinkIntervalSeconds < 1 then some "magic_link_interval_seconds must be >= 1"
  else none

/-- Arguments that a constructor accepts. -/
structure Limits extends Arguments where
  accepted : toArguments.error = none

/-- `_limits`. -/
def Limits.limits (p : Limits) : List (Str × ℕ) :=
  [("demo_user".toList, p.demoUserPerWindow),
    ("admin".toList, p.adminPerWindow),
    ("global".toList, p.globalPerWindow),
    ("auth_login".toList, p.authLoginPerWindow),
    ("demo_user_registered".toList, p.demoUserRegisteredPerWindow),
    ("magic_link".toList, p.magicLinkPerWindow),
    ("email_notice".toList, p.magicLinkPerWindow),
    ("password_change".toList, p.passwordChangePerWindow),
    ("magic_link_interval".toList, 1)]

/-- `_windows`. -/
def Limits.windows (p : Limits) : List (Str × ℕ) :=
  [("magic_link_interval".toList, p.magicLinkIntervalSeconds)]

/-- `limit_for`. -/
def Limits.limitFor (p : Limits) (role : Str) : ℕ :=
  ((p.limits.find? fun entry => entry.1 = role).map Prod.snd).getD p.demoUserPerWindow

/-- `window_for`. -/
def Limits.windowFor (p : Limits) (role : Str) : ℕ :=
  ((p.windows.find? fun entry => entry.1 = role).map Prod.snd).getD p.windowSeconds

theorem Arguments.windows_pos {a : Arguments} (h : a.error = none) :
    0 < a.windowSeconds ∧ 0 < a.magicLinkIntervalSeconds := by
  unfold Arguments.error at h
  split_ifs at h
  omega

theorem Limits.windowFor_pos (p : Limits) (role : Str) : 0 < p.windowFor role := by
  obtain ⟨hwindow, hinterval⟩ := Arguments.windows_pos p.accepted
  rw [windowFor, windows, List.find?_cons]
  split
  · exact hinterval
  · exact hwindow

/-! ## Checks -/

/-- A check, the reading of the clock that it takes and the id that it draws. -/
structure Check where
  userId : Str
  role : Str
  now : ℚ
  uuid : ℕ
  /-- a clock counts up from zero -/
  nonneg : 0 ≤ now

/-- `_buckets`. -/
abbrev Buckets := Str → List ℚ

/-- `cutoff`. -/
def Check.cutoff (p : Limits) (c : Check) : ℚ := c.now - p.windowFor c.role

/-- `popleft` while the first hit is not past the cutoff. -/
def popExpired (bucket : List ℚ) (cutoff : ℚ) : List ℚ := bucket.dropWhile (· ≤ cutoff)

/-- `RateLimiter.check`; a check that does not pass raises. -/
def memoryCheck (p : Limits) (buckets : Buckets) (c : Check) : Bool × Buckets :=
  if p.limitFor c.role ≤ (popExpired (buckets c.userId) (c.cutoff p)).length then
    (false, Function.update buckets c.userId (popExpired (buckets c.userId) (c.cutoff p)))
  else (true, Function.update buckets c.userId (popExpired (buckets c.userId) (c.cutoff p) ++ [c.now]))

/-! ## Redis -/

/-- A sorted set: its members with their scores, and when the key expires. -/
structure SortedSet where
  members : List (ℕ × ℚ)
  expireAt : Option ℚ
  deriving DecidableEq, Repr

abbrev Store := Str → Option SortedSet

/-- The sorted set at a key; one that has expired is gone. -/
def Store.live (store : Store) (now : ℚ) (key : Str) : SortedSet :=
  ((store key).filter fun z => z.expireAt.all (now ≤ ·)).getD ⟨[], none⟩

/-- `ZREMRANGEBYSCORE`. -/
def SortedSet.zremrangebyscore (z : SortedSet) (low high : ℚ) : SortedSet :=
  { z with members := z.members.filter fun m => ¬ (low ≤ m.2 ∧ m.2 ≤ high) }

/-- `ZADD`: a member that is there has its score replaced. -/
def SortedSet.zadd (z : SortedSet) (score : ℚ) (member : ℕ) : SortedSet :=
  { z with members := z.members.filter (fun m => m.1 ≠ member) ++ [(member, score)] }

/-- A sorted set is put back; an empty one is no key. -/
def Store.put (store : Store) (key : Str) (z : SortedSet) : Store :=
  Function.update store key (if z.members.isEmpty then none else some z)

/-- `_SLIDING_WINDOW_LUA`, at the server's time. -/
def slidingWindow (serverTime : ℚ) (store : Store) (key : Str) (cutoff : ℚ) (member : ℕ) (now : ℚ)
    (limit ttl : ℕ) : Bool × Store :=
  let z := (store.live serverTime key).zremrangebyscore 0 cutoff
  if limit ≤ z.members.length then (false, store.put key z)
  else (true, store.put key { z.zadd now member with expireAt := some (serverTime + ttl) })

/-- `key_prefix.rstrip(":")`. -/
def rstripColons (keyPrefix : Str) : Str := (keyPrefix.reverse.dropWhile (· = ':')).reverse

/-- `_bucket_key`. -/
def bucketKey (keyPrefix userId : Str) : Str := rstripColons keyPrefix ++ ':' :: userId

/-- `RedisRateLimiter.check`. The member is told by the id it ends in. -/
def redisCheck (p : Limits) (keyPrefix : Str) (store : Store) (c : Check) : Bool × Store :=
  slidingWindow c.now store (bucketKey keyPrefix c.userId) (c.cutoff p) c.uuid c.now (p.limitFor c.role)
    (p.windowFor c.role + 1)

/-! ## The record of all hits -/

/-- Every hit that has passed, by its key. -/
abbrev Hits := Str → List ℚ

/-- A check against the record. -/
def recordCheck (p : Limits) (hits : Hits) (c : Check) : Bool × Hits :=
  let limit := p.limitFor c.role
  let window : ℚ := p.windowFor c.role
  (admits limit window (hits c.userId) c.now,
    Function.update hits c.userId (record limit window (hits c.userId) c.now))

theorem recordCheck_self (p : Limits) (hits : Hits) (c : Check) : (recordCheck p hits c).2 c.userId =
    record (p.limitFor c.role) (p.windowFor c.role : ℚ) (hits c.userId) c.now := Function.update_self ..

theorem recordCheck_of_ne (p : Limits) (hits : Hits) {c : Check} {k : Str} (h : k ≠ c.userId) :
    (recordCheck p hits c).2 k = hits k := Function.update_of_ne h ..

/-- A check that does not pass leaves the record alone. -/
theorem recordCheck_refused {p : Limits} {hits : Hits} {c : Check} (h : (recordCheck p hits c).1 = false) :
    recordCheck p hits c = (false, hits) := by
  have hadmits : admits (p.limitFor c.role) (p.windowFor c.role : ℚ) (hits c.userId) c.now = false := h
  rw [recordCheck, record, hadmits, if_neg (by decide), Function.update_eq_self]

/-- The checks to come: in order of time from `last` on, each key under its role. -/
structure Upcoming (roleOf : Str → Str) (last : ℚ) (cs : List Check) : Prop where
  later : ∀ c ∈ cs, last ≤ c.now
  sorted : cs.Pairwise fun c c' => c.now ≤ c'.now
  roles : ∀ c ∈ cs, c.role = roleOf c.userId

/-- The hits so far: in order of time up to `last`. -/
structure Past (last : ℚ) (hits : Hits) : Prop where
  past : ∀ k, ∀ hit ∈ hits k, hit ≤ last
  nonneg : ∀ k, ∀ hit ∈ hits k, 0 ≤ hit
  sorted : ∀ k, (hits k).Pairwise (· ≤ ·)

theorem Upcoming.tail {roleOf : Str → Str} {last : ℚ} {c : Check} {cs : List Check}
    (h : Upcoming roleOf last (c :: cs)) : Upcoming roleOf c.now cs where
  later := (List.pairwise_cons.mp h.sorted).1
  sorted := (List.pairwise_cons.mp h.sorted).2
  roles c' hmem := h.roles c' (List.mem_cons_of_mem _ hmem)

theorem Past.record {last : ℚ} {hits : Hits} (h : Past last hits) (p : Limits) {c : Check}
    (hlater : last ≤ c.now) : Past c.now (recordCheck p hits c).2 := by
  have hpast : ∀ k, ∀ hit ∈ hits k, hit ≤ c.now := fun k hit hmem => (h.past k hit hmem).trans hlater
  have hcases : ∀ k, (recordCheck p hits c).2 k = hits k ∨ (recordCheck p hits c).2 k = hits k ++ [c.now] := by
    intro k
    by_cases hk : k = c.userId
    · subst hk
      rw [recordCheck_self, Lib.SlidingWindow.record]
      split
      · exact .inr rfl
      · exact .inl rfl
    · exact .inl (recordCheck_of_ne p hits hk)
  constructor
  · intro k hit hmem
    rcases hcases k with heq | heq <;> rw [heq] at hmem
    · exact hpast k hit hmem
    · rcases List.mem_append.mp hmem with hmem | hmem
      · exact hpast k hit hmem
      · exact (List.mem_singleton.mp hmem).le
  · intro k hit hmem
    rcases hcases k with heq | heq <;> rw [heq] at hmem
    · exact h.nonneg k hit hmem
    · rcases List.mem_append.mp hmem with hmem | hmem
      · exact h.nonneg k hit hmem
      · exact (List.mem_singleton.mp hmem).ge.trans' c.nonneg
  · intro k
    rcases hcases k with heq | heq <;> rw [heq]
    · exact h.sorted k
    · exact List.pairwise_append.mpr ⟨h.sorted k, List.pairwise_singleton _ _, fun hit hmem now hnow =>
        (hpast k hit hmem).trans (List.mem_singleton.mp hnow).ge⟩

/-! ## The deques -/

/-- Each deque holds the hits that a later window can reach. -/
def Remembers (p : Limits) (roleOf : Str → Str) (last : ℚ) (buckets : Buckets) (hits : Hits) : Prop :=
  ∀ k, Pruned (p.windowFor (roleOf k) : ℚ) last (hits k) (buckets k)

/-- One deque changes. -/
theorem Remembers.update {p : Limits} {roleOf : Str → Str} {last : ℚ} {buckets : Buckets} {hits : Hits}
    {c : Check} (h : Remembers p roleOf last buckets hits) (hlater : last ≤ c.now)
    (hrole : c.role = roleOf c.userId) {bucket : List ℚ}
    (hbucket : Pruned (p.windowFor c.role : ℚ) c.now ((recordCheck p hits c).2 c.userId) bucket) :
    Remembers p roleOf c.now (Function.update buckets c.userId bucket) (recordCheck p hits c).2 := by
  intro k
  by_cases hk : k = c.userId
  · subst hk
    rwa [Function.update_self, ← hrole]
  · rw [recordCheck_of_ne p hits hk, Function.update_of_ne hk]
    exact (h k).mono hlater

theorem memoryCheck_step {p : Limits} {roleOf : Str → Str} {last : ℚ} {buckets : Buckets} {hits : Hits}
    {c : Check} (hkept : Remembers p roleOf last buckets hits) (hpast : Past last hits)
    (hlater : last ≤ c.now) (hrole : c.role = roleOf c.userId) :
    (memoryCheck p buckets c).1 = (recordCheck p hits c).1 ∧
      Remembers p roleOf c.now (memoryCheck p buckets c).2 (recordCheck p hits c).2 := by
  have hwindow : (0 : ℚ) < p.windowFor c.role := by exact_mod_cast p.windowFor_pos c.role
  have hthere := hkept c.userId
  rw [← hrole] at hthere
  have hsorted : (buckets c.userId).Pairwise (· ≤ ·) := by
    obtain ⟨cut, -, heq⟩ := hthere
    rw [heq]
    exact (hpast.sorted c.userId).filter _
  have hbucket : popExpired (buckets c.userId) (c.cutoff p) =
      (hits c.userId).filter (c.now - p.windowFor c.role < ·) := by
    rw [popExpired, dropWhile_eq_filter hsorted]
    exact hthere.prune hlater
  obtain ⟨hadmits, hnext⟩ := pruned_record (p.limitFor c.role) hwindow
    (fun hit hmem => (hpast.past c.userId hit hmem).trans hlater) hbucket
  rw [← recordCheck_self] at hnext
  rw [recordCheck, hadmits]
  by_cases hfull : p.limitFor c.role ≤ (popExpired (buckets c.userId) (c.cutoff p)).length
  · rw [if_pos hfull] at hnext
    rw [memoryCheck, if_pos hfull]
    exact ⟨(decide_eq_false (not_lt.mpr hfull)).symm, hkept.update hlater hrole hnext⟩
  · rw [if_neg hfull] at hnext
    rw [memoryCheck, if_neg hfull]
    exact ⟨(decide_eq_true (not_le.mp hfull)).symm, hkept.update hlater hrole hnext⟩

/-! ## The sorted sets -/

def SortedSet.scores (z : SortedSet) : List ℚ := z.members.map Prod.snd

/-- A sorted set holds the hits that a later window can reach, outlives them, and has
none of the members to come. -/
structure SortedSet.Holds (window last : ℚ) (hits : List ℚ) (cs : List Check) (z : SortedSet) : Prop where
  pruned : Pruned window last hits z.scores
  lasting : ∀ e, z.expireAt = some e → ∀ hit ∈ hits, hit + window ≤ e
  fresh : ∀ c ∈ cs, ∀ m ∈ z.members, m.1 ≠ c.uuid

/-- What is at a key, if only an empty set. -/
def Store.at (store : Store) (key : Str) : SortedSet := (store key).getD ⟨[], none⟩

def Stores (p : Limits) (roleOf : Str → Str) (keyPrefix : Str) (last : ℚ) (cs : List Check) (store : Store)
    (hits : Hits) : Prop :=
  ∀ k, (store.at (bucketKey keyPrefix k)).Holds (p.windowFor (roleOf k)) last (hits k) cs

theorem bucketKey_inj {keyPrefix k k' : Str} : bucketKey keyPrefix k = bucketKey keyPrefix k' ↔ k = k' := by
  simp [bucketKey]

theorem live_cases (store : Store) (now : ℚ) (key : Str) :
    store.live now key = store.at key ∨ store.live now key = ⟨[], none⟩ := by
  unfold Store.live Store.at
  cases store key with
  | none => exact .inl rfl
  | some z =>
    rw [Option.filter_some]
    split
    · exact .inl rfl
    · exact .inr rfl

/-- The expiry takes nothing that the window at `now` reaches. -/
theorem SortedSet.Holds.live {store : Store} {key : Str} {window last now : ℚ} {hits : List ℚ}
    {cs : List Check} (h : (store.at key).Holds window last hits cs) (hlater : last ≤ now) :
    (store.live now key).scores.filter (now - window < ·) = hits.filter (now - window < ·) := by
  have hthere := h.pruned.prune hlater
  unfold Store.at at h hthere
  unfold Store.live
  cases hstore : store key with
  | none =>
    rw [hstore] at hthere
    exact hthere
  | some z =>
    rw [hstore] at h hthere
    by_cases hlive : z.expireAt.all (now ≤ ·) = true
    · rw [Option.filter_some_pos (by exact hlive)]
      exact hthere
    · obtain ⟨e, he, hgone⟩ : ∃ e, z.expireAt = some e ∧ e < now := by
        cases hexpire : z.expireAt with
        | none => simp [hexpire] at hlive
        | some e => exact ⟨e, rfl, by simpa [hexpire] using hlive⟩
      rw [Option.filter_some_neg (by simpa using hlive)]
      refine (List.filter_eq_nil_iff.mpr fun hit hmem => ?_).symm
      have := h.lasting e he hit hmem
      rw [decide_eq_true_eq, not_lt]
      linarith

theorem zremrangebyscore_scores {z : SortedSet} {cutoff : ℚ} (hnonneg : ∀ score ∈ z.scores, 0 ≤ score) :
    (z.zremrangebyscore 0 cutoff).scores = z.scores.filter (cutoff < ·) := by
  rw [SortedSet.scores, SortedSet.zremrangebyscore, SortedSet.scores, List.filter_map]
  congr 1
  refine List.filter_congr fun m hmem => ?_
  have := hnonneg m.2 (List.mem_map_of_mem hmem)
  simp [this]

theorem zadd_members {z : SortedSet} {member : ℕ} (score : ℚ) (hfresh : ∀ m ∈ z.members, m.1 ≠ member) :
    (z.zadd score member).members = z.members ++ [(member, score)] := by
  rw [SortedSet.zadd, List.filter_eq_self.mpr fun m hmem => by simpa using hfresh m hmem]

theorem SortedSet.Holds.empty {window last : ℚ} {hits : List ℚ} {cs : List Check}
    (hpruned : Pruned window last hits []) : (⟨[], none⟩ : SortedSet).Holds window last hits cs where
  pruned := hpruned
  lasting _ he := by cases he
  fresh _ _ _ hm := by cases hm

theorem SortedSet.Holds.mono {z : SortedSet} {window last now : ℚ} {hits : List ℚ} {c : Check}
    {cs : List Check} (h : z.Holds window last hits (c :: cs)) (hlater : last ≤ now) :
    z.Holds window now hits cs where
  pruned := h.pruned.mono hlater
  lasting := h.lasting
  fresh c' hmem := h.fresh c' (List.mem_cons_of_mem _ hmem)

/-- A sorted set put back; one without members leaves nothing. -/
theorem SortedSet.Holds.put {z : SortedSet} {window last : ℚ} {hits : List ℚ} {cs : List Check}
    (h : z.Holds window last hits cs) (store : Store) (key : Str) :
    ((store.put key z).at key).Holds window last hits cs := by
  rw [Store.at, Store.put, Function.update_self]
  split
  · rename_i hempty
    have hscores : z.scores = [] := by rw [SortedSet.scores, List.isEmpty_iff.mp hempty, List.map_nil]
    have hpruned := h.pruned
    rw [hscores] at hpruned
    exact .empty hpruned
  · exact h

/-- One sorted set changes. -/
theorem Stores.put {p : Limits} {roleOf : Str → Str} {keyPrefix : Str} {last : ℚ} {c : Check}
    {cs : List Check} {store : Store} {hits : Hits} (h : Stores p roleOf keyPrefix last (c :: cs) store hits)
    (hlater : last ≤ c.now) (hrole : c.role = roleOf c.userId) {z : SortedSet}
    (hz : z.Holds (p.windowFor c.role) c.now ((recordCheck p hits c).2 c.userId) cs) :
    Stores p roleOf keyPrefix c.now cs (store.put (bucketKey keyPrefix c.userId) z) (recordCheck p hits c).2 := by
  intro k
  by_cases hk : k = c.userId
  · subst hk
    rw [← hrole]
    exact hz.put store _
  · rw [recordCheck_of_ne p hits hk, Store.at, Store.put,
      Function.update_of_ne (fun heq => hk (bucketKey_inj.mp heq))]
    exact (h k).mono hlater

theorem redisCheck_step {p : Limits} {roleOf : Str → Str} {keyPrefix : Str} {last : ℚ} {c : Check}
    {cs : List Check} {store : Store} {hits : Hits}
    (hstored : Stores p roleOf keyPrefix last (c :: cs) store hits) (hpast : Past last hits)
    (hlater : last ≤ c.now) (hrole : c.role = roleOf c.userId) (hdrawn : ∀ c' ∈ cs, c.uuid ≠ c'.uuid) :
    (redisCheck p keyPrefix store c).1 = (recordCheck p hits c).1 ∧
      Stores p roleOf keyPrefix c.now cs (redisCheck p keyPrefix store c).2 (recordCheck p hits c).2 := by
  have hwindow : (0 : ℚ) < p.windowFor c.role := by exact_mod_cast p.windowFor_pos c.role
  have hthere := hstored c.userId
  rw [← hrole] at hthere
  have hlive := live_cases store c.now (bucketKey keyPrefix c.userId)
  have hnonneg : ∀ score ∈ (store.live c.now (bucketKey keyPrefix c.userId)).scores, 0 ≤ score := by
    intro score hmem
    rcases hlive with heq | heq <;> rw [heq] at hmem
    · obtain ⟨cut, -, hscores⟩ := hthere.pruned
      rw [hscores] at hmem
      exact hpast.nonneg c.userId score (List.mem_filter.mp hmem).1
    · cases hmem
  generalize hz : (store.live c.now (bucketKey keyPrefix c.userId)).zremrangebyscore 0 (c.cutoff p) = z
  have hscores : z.scores = (hits c.userId).filter (c.now - p.windowFor c.role < ·) := by
    rw [← hz, zremrangebyscore_scores hnonneg]
    exact hthere.live hlater
  have hfresh : ∀ c' ∈ c :: cs, ∀ m ∈ z.members, m.1 ≠ c'.uuid := by
    intro c' hc' m hm
    rw [← hz] at hm
    have hmem := (List.mem_filter.mp hm).1
    rcases hlive with heq | heq <;> rw [heq] at hmem
    · exact hthere.fresh c' hc' m hmem
    · cases hmem
  have hexpire : ∀ e, z.expireAt = some e → ∀ hit ∈ hits c.userId, hit + p.windowFor c.role ≤ e := by
    intro e he
    rw [← hz] at he
    replace he : (store.live c.now (bucketKey keyPrefix c.userId)).expireAt = some e := he
    rcases hlive with heq | heq <;> rw [heq] at he
    · exact hthere.lasting e he
    · cases he
  obtain ⟨hadmits, hnext⟩ := pruned_record (p.limitFor c.role) hwindow
    (fun hit hmem => (hpast.past c.userId hit hmem).trans hlater) hscores
  have hlength : z.scores.length = z.members.length := List.length_map _
  rw [← recordCheck_self, hlength] at hnext
  rw [hlength] at hadmits
  rw [redisCheck, slidingWindow, hz]
  dsimp only
  by_cases hfull : p.limitFor c.role ≤ z.members.length
  · have hrefused := recordCheck_refused (hadmits.trans (decide_eq_false (not_lt.mpr hfull)))
    rw [if_pos hfull] at hnext
    rw [if_pos hfull]
    refine ⟨by rw [hrefused], hstored.put hlater hrole ⟨hnext, ?_, ?_⟩⟩
    · rw [hrefused]
      exact hexpire
    · exact fun c' hc' => hfresh c' (List.mem_cons_of_mem _ hc')
  · rw [if_neg hfull] at hnext
    rw [if_neg hfull]
    have hmembers := zadd_members (z := z) c.now fun m hm => hfresh c List.mem_cons_self m hm
    refine ⟨(hadmits.trans (decide_eq_true (not_le.mp hfull))).symm, hstored.put hlater hrole ⟨?_, ?_, ?_⟩⟩
    · rw [SortedSet.scores, hmembers, List.map_append]
      exact hnext
    · intro e he hit hmem
      obtain rfl : c.now + ((p.windowFor c.role + 1 : ℕ) : ℚ) = e := Option.some.inj he
      have := (hpast.record p hlater).past c.userId hit hmem
      push_cast
      linarith
    · intro c' hc' m hm
      rw [hmembers] at hm
      rcases List.mem_append.mp hm with hm | hm
      · exact hfresh c' (List.mem_cons_of_mem _ hc') m hm
      · rw [List.mem_singleton.mp hm]
        exact hdrawn c' hc'

/-! ## Histories -/

def memoryAnswers (p : Limits) (checks : List Check) : List Bool :=
  answers (memoryCheck p) (fun _ => []) checks

def redisAnswers (p : Limits) (keyPrefix : Str) (checks : List Check) : List Bool :=
  answers (redisCheck p keyPrefix) (fun _ => none) checks

def recordAnswers (p : Limits) (checks : List Check) : List Bool :=
  answers (recordCheck p) (fun _ => []) checks

/-- When a key's checks have passed. -/
def passedHits (checks : List Check) (passed : List Bool) (k : Str) : List ℚ :=
  ((checks.zip passed).filter fun entry => entry.1.userId = k && entry.2).map fun entry => entry.1.now

/-- A history of checks in order of time, each key under one role, each with an id of its own. -/
structure History (roleOf : Str → Str) (checks : List Check) : Prop where
  sorted : checks.Pairwise fun c c' => c.now ≤ c'.now
  roles : ∀ c ∈ checks, c.role = roleOf c.userId
  drawn : (checks.map Check.uuid).Nodup

theorem History.sublist {roleOf : Str → Str} {checks checks' : List Check} (h : History roleOf checks)
    (hsub : checks'.Sublist checks) : History roleOf checks' where
  sorted := h.sorted.sublist hsub
  roles c hmem := h.roles c (hsub.subset hmem)
  drawn := h.drawn.sublist (hsub.map _)

theorem History.upcoming {roleOf : Str → Str} {checks : List Check} (h : History roleOf checks) :
    Upcoming roleOf 0 checks where
  later c _ := c.nonneg
  sorted := h.sorted
  roles := h.roles

theorem Past.nil : Past 0 fun _ => [] where
  past _ _ h := by cases h
  nonneg _ _ h := by cases h
  sorted _ := List.Pairwise.nil

theorem memoryAnswers_eq (p : Limits) {roleOf : Str → Str} {checks : List Check}
    (h : History roleOf checks) : memoryAnswers p checks = recordAnswers p checks := by
  refine answers_eq (R := fun buckets hits cs => ∃ last, Upcoming roleOf last cs ∧ Past last hits ∧
    Remembers p roleOf last buckets hits) ?_ checks
    ⟨0, h.upcoming, Past.nil, fun k => ⟨_, le_rfl, rfl⟩⟩
  rintro buckets hits c cs ⟨last, hnext, hpast, hkept⟩
  have hlater := hnext.later c List.mem_cons_self
  obtain ⟨hanswer, hremembers⟩ :=
    memoryCheck_step hkept hpast hlater (hnext.roles c List.mem_cons_self)
  exact ⟨hanswer, c.now, hnext.tail, hpast.record p hlater, hremembers⟩

theorem redisAnswers_eq (p : Limits) (keyPrefix : Str) {roleOf : Str → Str} {checks : List Check}
    (h : History roleOf checks) : redisAnswers p keyPrefix checks = recordAnswers p checks := by
  have hstart : Stores p roleOf keyPrefix 0 checks (fun _ => none) fun _ => [] :=
    fun k => .empty ⟨_, le_rfl, rfl⟩
  refine answers_eq (R := fun store hits cs => ∃ last, Upcoming roleOf last cs ∧ (cs.map Check.uuid).Nodup ∧
    Past last hits ∧ Stores p roleOf keyPrefix last cs store hits) ?_ checks
    ⟨0, h.upcoming, h.drawn, Past.nil, hstart⟩
  rintro store hits c cs ⟨last, hnext, hdrawn, hpast, hstored⟩
  have hlater := hnext.later c List.mem_cons_self
  rw [List.map_cons, List.nodup_cons] at hdrawn
  obtain ⟨hanswer, hstores⟩ := redisCheck_step hstored hpast hlater (hnext.roles c List.mem_cons_self)
    fun c' hc' heq => hdrawn.1 (heq ▸ List.mem_map_of_mem hc')
  exact ⟨hanswer, c.now, hnext.tail, hdrawn.2, hpast.record p hlater, hstores⟩

/-- The record holds what has passed. -/
theorem after_record (p : Limits) (hits : Hits) (cs : List Check) (k : Str) :
    after (recordCheck p) hits cs k = hits k ++ passedHits cs (answers (recordCheck p) hits cs) k := by
  induction cs generalizing hits with
  | nil => exact (List.append_nil _).symm
  | cons c cs ih =>
    have hhead : (recordCheck p hits c).2 k =
        hits k ++ if c.userId = k ∧ (recordCheck p hits c).1 = true then [c.now] else [] := by
      by_cases hk : k = c.userId
      · subst hk
        rw [recordCheck_self, record, recordCheck]
        split <;> simp [*]
      · rw [recordCheck_of_ne p hits hk, if_neg (fun h => hk h.1.symm), List.append_nil]
    rw [after, ih, hhead, List.append_assoc, answers]
    congr 1
    rw [passedHits, passedHits, List.zip_cons_cons]
    by_cases hpassed : c.userId = k ∧ (recordCheck p hits c).1 = true
    · rw [if_pos hpassed, List.filter_cons_of_pos (by simpa using hpassed)]
      rfl
    · rw [if_neg hpassed, List.filter_cons_of_neg (by simpa using hpassed), List.nil_append]

theorem after_bounded (p : Limits) {roleOf : Str → Str} {cs : List Check} {last : ℚ} {hits : Hits}
    (hnext : Upcoming roleOf last cs) (hpast : Past last hits)
    (h : ∀ k, Bounded (p.limitFor (roleOf k)) (p.windowFor (roleOf k) : ℚ) (hits k)) (k : Str) :
    Bounded (p.limitFor (roleOf k)) (p.windowFor (roleOf k) : ℚ) (after (recordCheck p) hits cs k) := by
  induction cs generalizing hits last with
  | nil => exact h k
  | cons c cs ih =>
    have hlater := hnext.later c List.mem_cons_self
    refine ih hnext.tail (hpast.record p hlater) fun k => ?_
    by_cases hk : k = c.userId
    · subst hk
      rw [recordCheck_self, hnext.roles c List.mem_cons_self]
      exact (h c.userId).record fun hit hmem => (hpast.past c.userId hit hmem).trans hlater
    · rw [recordCheck_of_ne p hits hk]
      exact h k

theorem recordAnswers_bounded (p : Limits) {roleOf : Str → Str} {checks : List Check}
    (h : History roleOf checks) (k : Str) : Bounded (p.limitFor (roleOf k)) (p.windowFor (roleOf k) : ℚ)
      (passedHits checks (recordAnswers p checks) k) := by
  have := after_bounded p h.upcoming Past.nil (fun k => Bounded.nil _ _) k
  rwa [after_record, List.nil_append] at this

theorem recordAnswers_erase (p : Limits) {pre post : List Check} {c : Check}
    (hrefused : (recordAnswers p (pre ++ c :: post))[pre.length]? = some false) :
    (recordAnswers p (pre ++ c :: post)).eraseIdx pre.length = recordAnswers p (pre ++ post) := by
  have hanswer : (recordCheck p (after (recordCheck p) (fun _ => []) pre) c).1 = false := by
    rw [recordAnswers, answers_append, List.getElem?_append_right (answers_length _ _).le,
      answers_length, Nat.sub_self, answers, List.getElem?_cons_zero] at hrefused
    exact Option.some.inj hrefused
  exact answers_erase (recordCheck_refused hanswer)

/-! ## The two limiters -/

/-- Both limiters answer the same, whatever the history; no window of a key holds more
hits that have passed than its limit; and without a check that was refused every other
answer is what it was. -/
theorem limiters_agree {p : Limits} {roleOf : Str → Str} {checks : List Check} (keyPrefix : Str)
    (h : History roleOf checks) :
    memoryAnswers p checks = redisAnswers p keyPrefix checks ∧
    (∀ k, Bounded (p.limitFor (roleOf k)) (p.windowFor (roleOf k) : ℚ)
        (passedHits checks (memoryAnswers p checks) k) ∧
      Bounded (p.limitFor (roleOf k)) (p.windowFor (roleOf k) : ℚ)
        (passedHits checks (redisAnswers p keyPrefix checks) k)) ∧
    ∀ pre c post, checks = pre ++ c :: post →
      ((memoryAnswers p checks)[pre.length]? = some false →
        (memoryAnswers p checks).eraseIdx pre.length = memoryAnswers p (pre ++ post)) ∧
      ((redisAnswers p keyPrefix checks)[pre.length]? = some false →
        (redisAnswers p keyPrefix checks).eraseIdx pre.length = redisAnswers p keyPrefix (pre ++ post)) := by
  refine ⟨(memoryAnswers_eq p h).trans (redisAnswers_eq p keyPrefix h).symm, fun k => ?_, ?_⟩
  · rw [memoryAnswers_eq p h, redisAnswers_eq p keyPrefix h]
    exact ⟨recordAnswers_bounded p h k, recordAnswers_bounded p h k⟩
  · intro pre c post heq
    subst heq
    have hwithout : History roleOf (pre ++ post) :=
      h.sublist ((List.Sublist.refl pre).append (List.sublist_cons_self c post))
    rw [memoryAnswers_eq p h, redisAnswers_eq p keyPrefix h, memoryAnswers_eq p hwithout,
      redisAnswers_eq p keyPrefix hwithout]
    exact ⟨recordAnswers_erase p, recordAnswers_erase p⟩

def exampleLimits : Limits where
  windowSeconds := 10
  demoUserPerWindow := 2
  adminPerWindow := 60
  accepted := by decide

/-- Two hits at once, a refusal, a hit whose window starts with the first, and one after a pause. -/
def bursts : List Check :=
  [⟨"ip:a".toList, "demo_user".toList, 0, 1, by decide⟩, ⟨"ip:a".toList, "demo_user".toList, 5, 2, by decide⟩,
    ⟨"ip:a".toList, "demo_user".toList, 5, 3, by decide⟩, ⟨"ip:a".toList, "demo_user".toList, 10, 4, by decide⟩,
    ⟨"ip:a".toList, "demo_user".toList, 63 / 2, 5, by norm_num⟩]

theorem limiters_agree_bursts :
    memoryAnswers exampleLimits bursts = [true, true, false, true, true] ∧
    memoryAnswers exampleLimits bursts = redisAnswers exampleLimits "citevyn:".toList bursts ∧
    (∀ k, Bounded 2 (10 : ℚ) (passedHits bursts (memoryAnswers exampleLimits bursts) k)) := by
  have hhistory : History (fun _ => "demo_user".toList) bursts := by
    refine ⟨?_, ?_, ?_⟩
    · decide +kernel
    · intro c hmem
      simp only [bursts, List.mem_cons, List.not_mem_nil, or_false] at hmem
      rcases hmem with rfl | rfl | rfl | rfl | rfl <;> rfl
    · decide +kernel
  obtain ⟨hagree, hbounded, -⟩ := limiters_agree (p := exampleLimits) "citevyn:".toList hhistory
  exact ⟨by decide +kernel, hagree, fun k => (hbounded k).1⟩

end CiteVyn.Core.RateLimit
