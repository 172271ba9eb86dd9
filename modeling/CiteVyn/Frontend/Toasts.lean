import CiteVyn.Lib.Runs
import CiteVyn.Text.Python
import Mathlib.Data.List.DropRight
import Mathlib.Data.List.Nodup

/-! # Toasts

`useToast` of `frontend/src/hooks/useToast.ts`. A state update is queued and applied at
the next render; the effects of a render run some time after it, and before the next.
What the hook arms are timers of the page, which fire some time after they are due. -/
namespace CiteVyn.Frontend.Toasts
open CiteVyn.Lib.Runs CiteVyn.Text

inductive Kind where
  | info
  | success
  | warning
  | error
  deriving DecidableEq, Repr

/-- `Omit<Toast, "id">`. -/
structure Content where
  kind : Kind
  title : Str
  message : Str
  deriving DecidableEq, Repr

/-- `Toast`; the number is that of its id. -/
structure Toast where
  id : Nat
  content : Content
  deriving DecidableEq, Repr

/-- `DISMISS_AFTER_MS`. -/
def dismissAfterMs : Nat := 5000

/-- `MAX_VISIBLE_TOASTS`. -/
def maxVisibleToasts : Nat := 3

/-- What `setToasts` is called with. -/
inductive Update where
  | add (toast : Toast)
  | remove (id : Nat)
  deriving DecidableEq, Repr

def Update.apply (toasts : List Toast) : Update → List Toast
  | .add toast => ((toasts.filter fun t => t.content ≠ toast.content) ++ [toast]).rtake maxVisibleToasts
  | .remove id => toasts.filter fun t => t.id ≠ id

/-- A timer of the page, by its handle, with the toast that its callback removes. -/
structure Timer where
  handle : Nat
  id : Nat
  due : Nat
  deriving DecidableEq, Repr

structure Hook where
  now : Nat
  /-- `counter.current` -/
  counter : Nat
  /-- the toasts that are rendered -/
  toasts : List Toast
  /-- the state updates that are queued -/
  updates : List Update
  /-- `pending.current` -/
  pending : List (Nat × Nat)
  /-- the timers of the page that are live -/
  timers : List Timer
  /-- the handle of the next timer -/
  handles : Nat
  /-- the effects of the last render have run -/
  flushed : Bool
  mounted : Bool
  deriving Repr

inductive Label where
  | tick (elapsed : Nat)
  | addToast (content : Content)
  | removeToast (id : Nat)
  | render
  /-- the effect of the rendered toasts runs -/
  | flush
  /-- a timer that is due fires -/
  | fire (handle : Nat)
  /-- every effect is cleaned up and set up again -/
  | remount
  | unmount
  deriving DecidableEq, Repr

/-- An update of a tree that is gone is dropped. -/
def Hook.queue (h : Hook) (u : Update) : Hook := if h.mounted then { h with updates := h.updates ++ [u] } else h

/-- A toast gets its timer, unless it has one. -/
def Hook.armOne (h : Hook) (t : Toast) : Hook :=
  if h.pending.any fun p => p.1 = t.id then h
  else
    { h with
      pending := h.pending ++ [(t.id, h.handles)]
      timers := h.timers ++ [⟨h.handles, t.id, h.now + dismissAfterMs⟩]
      handles := h.handles + 1 }

/-- Some pending timers are cleared and forgotten. -/
def Hook.drop (h : Hook) (gone : Nat → Bool) : Hook :=
  { h with
    pending := h.pending.filter fun p => !gone p.1
    timers := h.timers.filter fun t => (h.pending.filter fun p => gone p.1).all fun p => p.2 ≠ t.handle }

/-- The effect of the rendered toasts. -/
def Hook.arm (h : Hook) : Hook :=
  { (h.toasts.foldl Hook.armOne h).drop fun id => h.toasts.all fun t => t.id ≠ id with flushed := true }

/-- The cleanup of the other effect. -/
def Hook.clear (h : Hook) : Hook := h.drop fun _ => true

def step (h : Hook) : Label → Option Hook
  | .tick elapsed => some { h with now := h.now + elapsed }
  | .addToast content =>
    some ({ h with counter := h.counter + 1 }.queue (.add ⟨h.counter + 1, content⟩))
  | .removeToast id => some (h.queue (.remove id))
  | .render =>
    if h.mounted ∧ h.flushed ∧ h.updates ≠ [] then
      some { h with toasts := h.updates.foldl Update.apply h.toasts, updates := [], flushed := false }
    else none
  | .flush => if h.mounted ∧ h.flushed = false then some h.arm else none
  | .fire handle =>
    match h.timers.find? fun t => t.handle = handle with
    | none => none
    | some timer =>
      if timer.due ≤ h.now then
        some ({ h with
          timers := h.timers.filter fun t => t.handle ≠ handle
          pending := h.pending.filter fun p => p.1 ≠ timer.id }.queue (.remove timer.id))
      else none
  | .remount => if h.mounted ∧ h.flushed then some h.clear.arm else none
  | .unmount => if h.mounted ∧ h.flushed then some { h.clear with mounted := false } else none

/-- The hook is mounted, and its effects are to run. -/
def Hook.mount (now : Nat) : Hook := ⟨now, 0, [], [], [], [], 0, false, true⟩

/-! ## What is on screen -/

/-- The ids of the toasts that are to be added. -/
def addIds (us : List Update) : List Nat :=
  us.filterMap fun
    | .add toast => some toast.id
    | .remove _ => none

/-- Few toasts, all different, and different from those to come. -/
structure Shown (counter : Nat) (toasts : List Toast) (updates : List Update) : Prop where
  few : toasts.length ≤ maxVisibleToasts
  contents : (toasts.map Toast.content).Nodup
  ids : (toasts.map Toast.id ++ addIds updates).Nodup
  counted : ∀ id ∈ toasts.map Toast.id ++ addIds updates, id ≤ counter

theorem rtake_suffix (n : Nat) (toasts : List Toast) : toasts.rtake n <:+ toasts :=
  List.drop_suffix _ _

theorem Shown.apply {counter : Nat} {toasts : List Toast} {u : Update} {us : List Update}
    (h : Shown counter toasts (u :: us)) : Shown counter (u.apply toasts) us := by
  cases u with
  | remove id =>
    have hsub : (toasts.filter fun t => t.id ≠ id).Sublist toasts := List.filter_sublist
    have hids : List.Sublist ((toasts.filter fun t => t.id ≠ id).map Toast.id ++ addIds us)
        (toasts.map Toast.id ++ addIds (.remove id :: us)) :=
      (hsub.map Toast.id).append_right _
    exact ⟨hsub.length_le.trans h.few, h.contents.sublist (hsub.map _), h.ids.sublist hids,
      fun x hx => h.counted x (hids.subset hx)⟩
  | add toast =>
    have hsub : ((Update.add toast).apply toasts).Sublist ((toasts.filter fun t => t.content ≠ toast.content) ++ [toast]) :=
      (rtake_suffix _ _).sublist
    have hids : List.Sublist (((Update.add toast).apply toasts).map Toast.id ++ addIds us)
        (toasts.map Toast.id ++ addIds (.add toast :: us)) := by
      have hall : ((Update.add toast).apply toasts).Sublist (toasts ++ [toast]) :=
        hsub.trans (List.filter_sublist.append_right _)
      have happend := (hall.map Toast.id).append_right (addIds us)
      rwa [List.map_append, List.append_assoc] at happend
    refine ⟨?_, ?_, h.ids.sublist hids, fun x hx => h.counted x (hids.subset hx)⟩
    · rw [Update.apply, List.rtake, List.length_drop]
      omega
    · refine List.Nodup.sublist (hsub.map Toast.content) ?_
      rw [List.map_append, List.nodup_append]
      refine ⟨h.contents.sublist (List.filter_sublist.map _), (by simp), ?_⟩
      intro a ha b hb
      obtain ⟨t, ht, rfl⟩ := List.mem_map.mp ha
      rw [List.map_singleton, List.mem_singleton] at hb
      have hne := (List.mem_filter.mp ht).2
      rw [hb]
      exact of_decide_eq_true hne

theorem Shown.applyAll {counter : Nat} : ∀ {us : List Update} {toasts : List Toast},
    Shown counter toasts us → Shown counter (us.foldl Update.apply toasts) []
  | [], _, h => h
  | u :: us, toasts, h => by
    rw [List.foldl_cons]
    exact Shown.applyAll h.apply

/-- A toast that is removed, and not to be added, is gone once the updates are applied. -/
theorem removed_of_applyAll {id : Nat} : ∀ {us : List Update} {toasts : List Toast}, id ∉ addIds us →
    (.remove id ∈ us ∨ id ∉ toasts.map Toast.id) → id ∉ (us.foldl Update.apply toasts).map Toast.id
  | [], toasts, _, h => by simpa using h
  | u :: us, toasts, hnew, h => by
    have hrest : id ∉ addIds us := fun hmem => hnew (by
      cases u with
      | add toast => exact List.mem_cons_of_mem _ hmem
      | remove _ => exact hmem)
    rw [List.foldl_cons]
    refine removed_of_applyAll hrest ?_
    rcases h with hremove | hgone
    · rcases List.mem_cons.mp hremove with rfl | hremove
      · refine .inr fun hmem => ?_
        obtain ⟨t, ht, heq⟩ := List.mem_map.mp hmem
        exact of_decide_eq_true (List.mem_filter.mp ht).2 heq
      · exact .inl hremove
    · refine .inr fun hmem => ?_
      obtain ⟨t, ht, heq⟩ := List.mem_map.mp hmem
      cases u with
      | remove id' => exact hgone (List.mem_map.mpr ⟨t, List.mem_of_mem_filter ht, heq⟩)
      | add toast =>
        rcases List.mem_append.mp ((rtake_suffix _ _).subset ht) with hold | hadded
        · exact hgone (List.mem_map.mpr ⟨t, List.mem_of_mem_filter hold, heq⟩)
        · rw [List.mem_singleton] at hadded
          exact hnew (heq ▸ hadded ▸ List.mem_cons_self)

/-! ## Timers -/

/-- The live timers are those that are pending, one for an id. -/
structure Linked (h : Hook) : Prop where
  live : h.timers.map (fun t => (t.id, t.handle)) = h.pending
  single : (h.timers.map Timer.id).Nodup
  distinct : (h.timers.map Timer.handle).Nodup
  set : ∀ t ∈ h.timers, t.handle < h.handles
  due : ∀ t ∈ h.timers, t.due ≤ h.now + dismissAfterMs

variable {h h' : Hook}

theorem Linked.pending_ids (hl : Linked h) : h.pending.map Prod.fst = h.timers.map Timer.id := by
  rw [← hl.live, List.map_map]
  rfl

/-- The timer of an id. -/
theorem Linked.timer (hl : Linked h) {id : Nat} (hid : id ∈ h.pending.map Prod.fst) : ∃ t ∈ h.timers, t.id = id := by
  rw [hl.pending_ids] at hid
  exact List.mem_map.mp hid

theorem any_pending (h : Hook) (id : Nat) : (h.pending.any fun p => p.1 = id) = true ↔ id ∈ h.pending.map Prod.fst := by
  rw [List.any_eq_true, List.mem_map]
  simp only [decide_eq_true_eq]

/-- A toast that has been armed has its timer, and no other toast gets one. -/
theorem mem_armOne (h : Hook) (t : Toast) (id : Nat) :
    id ∈ (h.armOne t).pending.map Prod.fst ↔ id ∈ h.pending.map Prod.fst ∨ id = t.id := by
  unfold Hook.armOne
  split
  · rename_i harmed
    rw [any_pending] at harmed
    exact ⟨.inl, fun hid => hid.elim (fun hold => hold) fun heq => heq ▸ harmed⟩
  · simp

theorem Linked.armOne (hl : Linked h) (t : Toast) : Linked (h.armOne t) := by
  unfold Hook.armOne
  split
  · exact hl
  · rename_i hunarmed
    rw [any_pending, hl.pending_ids] at hunarmed
    exact {
      live := by simp [hl.live]
      single := by
        rw [List.map_append, List.nodup_append]
        refine ⟨hl.single, by simp, fun a ha b hb heq => hunarmed ?_⟩
        rw [List.map_singleton, List.mem_singleton] at hb
        rwa [heq, hb] at ha
      distinct := by
        rw [List.map_append, List.nodup_append]
        refine ⟨hl.distinct, by simp, fun a ha b hb heq => ?_⟩
        rw [List.map_singleton, List.mem_singleton] at hb
        obtain ⟨t', ht', rfl⟩ := List.mem_map.mp ha
        exact Nat.lt_irrefl _ (hb ▸ heq ▸ hl.set t' ht')
      set := by
        intro t' ht'
        rcases List.mem_append.mp ht' with hold | hnew
        · exact Nat.lt_succ_of_lt (hl.set t' hold)
        · rw [List.mem_singleton.mp hnew]
          exact Nat.lt_succ_self _
      due := by
        intro t' ht'
        rcases List.mem_append.mp ht' with hold | hnew
        · exact hl.due t' hold
        · rw [List.mem_singleton.mp hnew] }

/-- Under the link a timer is cleared exactly when its id is dropped. -/
theorem Linked.timers_drop (hl : Linked h) (gone : Nat → Bool) :
    (h.drop gone).timers = h.timers.filter fun t => !gone t.id := by
  refine List.filter_congr fun t ht => ?_
  rw [Bool.eq_iff_iff, List.all_eq_true, Bool.not_eq_true']
  constructor
  · intro hall
    by_contra hgone
    have hmem : (t.id, t.handle) ∈ h.pending.filter fun p => gone p.1 := by
      refine List.mem_filter.mpr ⟨?_, by simpa using hgone⟩
      rw [← hl.live]
      exact List.mem_map.mpr ⟨t, ht, rfl⟩
    exact of_decide_eq_true (hall _ hmem) rfl
  · intro hkept p hp
    obtain ⟨hmem, hgone⟩ := List.mem_filter.mp hp
    rw [← hl.live] at hmem
    obtain ⟨t', ht', rfl⟩ := List.mem_map.mp hmem
    refine decide_eq_true fun hhandle => ?_
    obtain rfl := List.inj_on_of_nodup_map hl.distinct ht' ht hhandle
    rw [hkept] at hgone
    cases hgone

theorem Linked.drop (hl : Linked h) (gone : Nat → Bool) : Linked (h.drop gone) := by
  have htimers := hl.timers_drop gone
  have hsub : (h.drop gone).timers.Sublist h.timers := htimers ▸ List.filter_sublist
  exact {
    live := by
      rw [htimers]
      show _ = h.pending.filter fun p => !gone p.1
      rw [← hl.live, List.filter_map]
      rfl
    single := hl.single.sublist (hsub.map _)
    distinct := hl.distinct.sublist (hsub.map _)
    set := fun t ht => hl.set t (hsub.subset ht)
    due := fun t ht => hl.due t (hsub.subset ht) }

theorem mem_drop (h : Hook) (gone : Nat → Bool) (id : Nat) :
    id ∈ (h.drop gone).pending.map Prod.fst ↔ id ∈ h.pending.map Prod.fst ∧ gone id = false := by
  simp [Hook.drop, List.mem_map, List.mem_filter]

theorem Linked.armAll : ∀ (toasts : List Toast) {h : Hook}, Linked h → Linked (toasts.foldl Hook.armOne h) ∧
    ∀ id, id ∈ (toasts.foldl Hook.armOne h).pending.map Prod.fst ↔
      id ∈ h.pending.map Prod.fst ∨ id ∈ toasts.map Toast.id
  | [], _, hl => ⟨hl, fun id => by simp⟩
  | t :: toasts, h, hl => by
    obtain ⟨hlinked, hids⟩ := Linked.armAll toasts (hl.armOne t)
    refine ⟨hlinked, fun id => ?_⟩
    rw [List.foldl_cons, hids, mem_armOne, List.map_cons, List.mem_cons, or_assoc]

/-- The effect leaves every toast on screen with a timer, and no other. -/
theorem Linked.arm (hl : Linked h) : Linked h.arm ∧ ∀ id, id ∈ h.arm.pending.map Prod.fst ↔ id ∈ h.toasts.map Toast.id := by
  obtain ⟨hall, hids⟩ := Linked.armAll h.toasts hl
  have hdrop := hall.drop fun id => h.toasts.all fun t => t.id ≠ id
  refine ⟨{ hdrop with }, fun id => ?_⟩
  have hmem := mem_drop (h.toasts.foldl Hook.armOne h) (fun id => h.toasts.all fun t => t.id ≠ id) id
  have hlive : (h.toasts.all fun t => t.id ≠ id) = false ↔ id ∈ h.toasts.map Toast.id := by
    rw [List.all_eq_false, List.mem_map]
    simp only [ne_eq, decide_not, Bool.not_eq_true', decide_eq_false_iff_not, not_not]
  rw [hids, hlive] at hmem
  exact hmem.trans ⟨And.right, fun hid => ⟨.inr hid, hid⟩⟩

/-- The effect changes the timers alone. -/
theorem arm_eq (h : Hook) : ∃ pending timers handles,
    h.arm = { h with pending := pending, timers := timers, handles := handles, flushed := true } := by
  have hall : ∀ (toasts : List Toast) (h : Hook), ∃ pending timers handles,
      toasts.foldl Hook.armOne h = { h with pending := pending, timers := timers, handles := handles } := by
    intro toasts
    induction toasts with
    | nil => exact fun h => ⟨h.pending, h.timers, h.handles, rfl⟩
    | cons t toasts ih =>
      intro h
      obtain ⟨pending, timers, handles, heq⟩ := ih (h.armOne t)
      refine ⟨pending, timers, handles, ?_⟩
      rw [List.foldl_cons, heq]
      unfold Hook.armOne
      split <;> rfl
  obtain ⟨pending, timers, handles, heq⟩ := hall h.toasts h
  rw [Hook.arm, heq]
  exact ⟨_, _, _, rfl⟩

/-! ## Runs -/

/-- The timers follow what is on screen once the effects have run, but for the toasts
whose removal is queued. -/
structure Inv (h : Hook) : Prop where
  linked : Linked h
  shown : Shown h.counter h.toasts h.updates
  gone : h.mounted = false → h.timers = []
  armed : h.mounted = true → h.flushed = true → ∀ t ∈ h.toasts, t.id ∈ h.timers.map Timer.id ∨ .remove t.id ∈ h.updates
  needed : h.mounted = true → h.flushed = true → ∀ t ∈ h.timers, t.id ∈ h.toasts.map Toast.id

theorem Inv.mount (now : Nat) : Inv (Hook.mount now) where
  linked := ⟨rfl, List.nodup_nil, List.nodup_nil, (fun _ ht => by cases ht), fun _ ht => by cases ht⟩
  shown := ⟨Nat.zero_le _, List.nodup_nil, List.nodup_nil, fun _ hid => by cases hid⟩
  gone hgone := by cases hgone
  armed _ hflushed := by cases hflushed
  needed _ hflushed := by cases hflushed

theorem clear_timers (hl : Linked h) : h.clear.timers = [] := by
  rw [Hook.clear, hl.timers_drop]
  simp

theorem Inv.arm (hl : Linked h) (hs : Shown h.counter h.toasts h.updates) (hmounted : h.mounted = true) : Inv h.arm := by
  obtain ⟨hlinked, hids⟩ := hl.arm
  obtain ⟨pending, timers, handles, heq⟩ := arm_eq h
  have hon : ∀ id, id ∈ timers.map Timer.id ↔ id ∈ h.toasts.map Toast.id := by
    intro id
    rw [← hids, hlinked.pending_ids, heq]
  rw [heq] at hlinked ⊢
  exact {
    linked := hlinked
    shown := hs
    gone := fun hgone => by cases hmounted.symm.trans hgone
    armed := fun _ _ t ht => .inl ((hon t.id).mpr (List.mem_map_of_mem ht))
    needed := fun _ _ t ht => (hon t.id).mp (List.mem_map_of_mem ht) }

theorem Linked.fire (hl : Linked h) {timer : Timer} (htimer : timer ∈ h.timers) :
    Linked { h with
      timers := h.timers.filter fun t => t.handle ≠ timer.handle
      pending := h.pending.filter fun p => p.1 ≠ timer.id } := by
  have hsub : (h.timers.filter fun t => t.handle ≠ timer.handle).Sublist h.timers := List.filter_sublist
  exact {
    live := by
      rw [← hl.live, List.filter_map]
      refine congrArg _ (List.filter_congr fun t ht => ?_)
      show decide (t.handle ≠ timer.handle) = decide (t.id ≠ timer.id)
      refine decide_eq_decide.mpr (not_congr ⟨fun heq => ?_, fun heq => ?_⟩)
      · rw [List.inj_on_of_nodup_map hl.distinct ht htimer heq]
      · rw [List.inj_on_of_nodup_map hl.single ht htimer heq]
    single := hl.single.sublist (hsub.map _)
    distinct := hl.distinct.sublist (hsub.map _)
    set := fun t ht => hl.set t (hsub.subset ht)
    due := fun t ht => hl.due t (hsub.subset ht) }

theorem addIds_append (us us' : List Update) : addIds (us ++ us') = addIds us ++ addIds us' := List.filterMap_append

/-- The removal of a toast is queued. -/
theorem Shown.remove {counter : Nat} {toasts : List Toast} {us : List Update} (h : Shown counter toasts us) (id : Nat) :
    Shown counter toasts (us ++ [.remove id]) := by
  have heq : addIds (us ++ [.remove id]) = addIds us := by
    rw [addIds_append]
    exact List.append_nil _
  exact ⟨h.few, h.contents, heq ▸ h.ids, heq ▸ h.counted⟩

/-- A toast with the next id is to be added. -/
theorem Shown.add {counter : Nat} {toasts : List Toast} {us : List Update} (h : Shown counter toasts us)
    (content : Content) : Shown (counter + 1) toasts (us ++ [.add ⟨counter + 1, content⟩]) := by
  have heq : toasts.map Toast.id ++ addIds (us ++ [.add ⟨counter + 1, content⟩]) =
      (toasts.map Toast.id ++ addIds us) ++ [counter + 1] := by
    rw [addIds_append, List.append_assoc]
    rfl
  refine ⟨h.few, h.contents, ?_, ?_⟩
  · rw [heq, List.nodup_append]
    refine ⟨h.ids, by simp, fun a ha b hb => ?_⟩
    have hle := h.counted a ha
    rw [List.mem_singleton] at hb
    omega
  · rw [heq]
    intro id hid
    rcases List.mem_append.mp hid with hold | hnew
    · exact (h.counted id hold).trans (Nat.le_succ _)
    · exact (List.mem_singleton.mp hnew).le

theorem Inv.step {l : Label} (hi : Inv h) (hstep : step h l = some h') : Inv h' := by
  cases l with
  | tick elapsed =>
    cases hstep
    exact { hi with linked := { hi.linked with due := fun t ht => (hi.linked.due t ht).trans (by simp) } }
  | addToast content =>
    cases hstep
    unfold Hook.queue
    split
    · exact { hi with
        linked := { hi.linked with }
        shown := hi.shown.add content
        armed := fun hm hf t ht => (hi.armed hm hf t ht).imp_right (List.mem_append_left _) }
    · exact { hi with
        linked := { hi.linked with }
        shown := { hi.shown with counted := fun id hid => (hi.shown.counted id hid).trans (Nat.le_succ _) } }
  | removeToast id =>
    cases hstep
    unfold Hook.queue
    split
    · exact { hi with
        linked := { hi.linked with }
        shown := hi.shown.remove id
        armed := fun hm hf t ht => (hi.armed hm hf t ht).imp_right (List.mem_append_left _) }
    · exact hi
  | render =>
    simp only [Toasts.step] at hstep
    split at hstep
    · rename_i hready
      cases hstep
      exact {
        linked := { hi.linked with }
        shown := hi.shown.applyAll
        gone := fun hgone => by cases hready.1.symm.trans hgone
        armed := fun _ hf => by cases hf
        needed := fun _ hf => by cases hf }
    · cases hstep
  | flush =>
    simp only [Toasts.step] at hstep
    split at hstep
    · rename_i hready
      cases hstep
      exact Inv.arm hi.linked hi.shown hready.1
    · cases hstep
  | fire handle =>
    simp only [Toasts.step] at hstep
    split at hstep
    · cases hstep
    · rename_i timer hfind
      have htimer := List.mem_of_find?_eq_some hfind
      obtain rfl : timer.handle = handle := of_decide_eq_true (List.find?_some (p := fun t : Timer => t.handle = handle) hfind)
      split at hstep
      · cases hstep
        have hmounted : h.mounted = true := by
          by_contra hgone
          rw [hi.gone (Bool.eq_false_iff.mpr hgone)] at htimer
          cases htimer
        unfold Hook.queue
        rw [if_pos hmounted]
        exact {
          linked := { hi.linked.fire htimer with }
          shown := hi.shown.remove timer.id
          gone := fun hgone => by cases hmounted.symm.trans hgone
          armed := by
            intro hm hf t ht
            by_cases hid : t.id = timer.id
            · rw [hid]
              exact .inr (List.mem_append_right _ List.mem_cons_self)
            · refine (hi.armed hm hf t ht).imp (fun htimed => ?_) (List.mem_append_left _)
              obtain ⟨t', ht', heq⟩ := List.mem_map.mp htimed
              refine List.mem_map.mpr ⟨t', List.mem_filter.mpr ⟨ht', decide_eq_true fun hhandle => hid ?_⟩, heq⟩
              rw [← heq, List.inj_on_of_nodup_map hi.linked.distinct ht' htimer hhandle]
          needed := fun hm hf t ht => hi.needed hm hf t (List.mem_of_mem_filter ht) }
      · cases hstep
  | remount =>
    simp only [Toasts.step] at hstep
    split at hstep
    · rename_i hready
      cases hstep
      exact Inv.arm (hi.linked.drop _) hi.shown hready.1
    · cases hstep
  | unmount =>
    simp only [Toasts.step] at hstep
    split at hstep
    · cases hstep
      exact {
        linked := { hi.linked.drop fun _ => true with }
        shown := hi.shown
        gone := fun _ => clear_timers hi.linked
        armed := fun hm => by cases hm
        needed := fun hm => by cases hm }
    · cases hstep

theorem inv_exec {now : Nat} {ls : List Label} (hrun : exec step (Hook.mount now) ls = some h) : Inv h := by
  have hall : Along step (fun _ _ => True) (Hook.mount now) ls := along_of_mem ls _ fun _ _ _ => trivial
  exact exec_invariant (fun _ _ _ hi _ hstep => hi.step hstep) (Inv.mount now) hall hrun

/-- Only time passes, timers fire and the hook renders. -/
def Label.isIdle : Label → Bool
  | .tick _ | .fire _ | .render => true
  | _ => false

theorem step_render (hmounted : h.mounted = true) (hflushed : h.flushed = true) (hsome : h.updates ≠ []) :
    step h .render =
      some { h with toasts := h.updates.foldl Update.apply h.toasts, updates := [], flushed := false } :=
  if_pos ⟨hmounted, hflushed, hsome⟩

theorem step_fire (hl : Linked h) (hmounted : h.mounted = true) {timer : Timer} (htimer : timer ∈ h.timers)
    (hdue : timer.due ≤ h.now) :
    step h (.fire timer.handle) =
      some { h with
        timers := h.timers.filter fun t => t.handle ≠ timer.handle
        pending := h.pending.filter fun p => p.1 ≠ timer.id
        updates := h.updates ++ [.remove timer.id] } := by
  have hfind : h.timers.find? (fun t => t.handle = timer.handle) = some timer := by
    cases hfound : h.timers.find? fun t => t.handle = timer.handle with
    | none => exact absurd (decide_eq_true rfl) (List.find?_eq_none.mp hfound timer htimer)
    | some t =>
      have hhandle : t.handle = timer.handle :=
        of_decide_eq_true (List.find?_some (p := fun t : Timer => t.handle = timer.handle) hfound)
      rw [List.inj_on_of_nodup_map hl.distinct (List.mem_of_find?_eq_some hfound) htimer hhandle]
  simp only [step, hfind, if_pos hdue, Hook.queue, if_pos hmounted]

/-- No toast is stuck: from wherever the effects have run, a toast on screen can go within
five seconds without anyone doing anything. -/
theorem toasts_leave {now : Nat} {ls : List Label} (hrun : exec step (Hook.mount now) ls = some h)
    (hmounted : h.mounted = true) (hflushed : h.flushed = true) {t : Toast} (ht : t ∈ h.toasts) :
    ∃ idle h', exec step h idle = some h' ∧ (∀ l ∈ idle, l.isIdle = true) ∧ h'.now ≤ h.now + dismissAfterMs ∧
      t.id ∉ h'.toasts.map Toast.id := by
  have hi := inv_exec hrun
  have hnew : t.id ∉ addIds h.updates := fun hmem =>
    (List.nodup_append.mp hi.shown.ids).2.2 t.id (List.mem_map_of_mem ht) t.id hmem rfl
  rcases hi.armed hmounted hflushed t ht with htimed | hqueued
  · obtain ⟨timer, htimer, hid⟩ := List.mem_map.mp htimed
    have hdue := hi.linked.due timer htimer
    let later : Hook := { h with now := h.now + (timer.due - h.now) }
    have hlater : Linked later := { hi.linked with due := fun t' ht' => (hi.linked.due t' ht').trans (by simp [later]) }
    have hfire := step_fire hlater hmounted htimer (show timer.due ≤ h.now + (timer.due - h.now) by omega)
    have hrender := step_render (h := { later with
      timers := later.timers.filter fun t => t.handle ≠ timer.handle
      pending := later.pending.filter fun p => p.1 ≠ timer.id
      updates := later.updates ++ [.remove timer.id] }) hmounted hflushed (by simp)
    have hidle := (exec_of_step (show step h (.tick (timer.due - h.now)) = some later from rfl)
      [.fire timer.handle, .render]).trans (exec_of_step hfire [.render])
    refine ⟨_, _, hidle.trans ((exec_singleton step _ .render).trans hrender), by simp [Label.isIdle], ?_, ?_⟩
    · show h.now + (timer.due - h.now) ≤ h.now + dismissAfterMs
      omega
    · refine removed_of_applyAll ?_ (.inl (List.mem_append_right _ (hid ▸ List.mem_cons_self)))
      rw [addIds_append]
      exact fun hmem => hnew ((List.mem_append.mp hmem).resolve_right List.not_mem_nil)
  · have hrender := step_render hmounted hflushed (List.ne_nil_of_mem hqueued)
    refine ⟨[.render], _, (exec_singleton step h .render).trans hrender, by simp [Label.isIdle], Nat.le_add_right _ _, ?_⟩
    exact removed_of_applyAll hnew (.inl hqueued)

/-- A toast is added twice, and dismissed by its timer. -/
def dismissed : List Label :=
  [.flush, .addToast ⟨.info, "Saved".toList, []⟩, .render, .flush, .addToast ⟨.info, "Saved".toList, []⟩, .render, .flush]

theorem toasts_leave_dismissed : ∃ h, exec step (Hook.mount 0) dismissed = some h ∧ ∃ idle h', exec step h idle = some h' ∧
    2 ∉ h'.toasts.map Toast.id := by
  have hrun : ∃ h, exec step (Hook.mount 0) dismissed = some h ∧ h.mounted = true ∧ h.flushed = true ∧
      (⟨2, ⟨.info, "Saved".toList, []⟩⟩ : Toast) ∈ h.toasts := by
    decide +kernel
  obtain ⟨h, hh, hmounted, hflushed, ht⟩ := hrun
  obtain ⟨idle, h', hidle, -, -, hgone⟩ := toasts_leave hh hmounted hflushed ht
  exact ⟨h, hh, idle, h', hidle, hgone⟩

end CiteVyn.Frontend.Toasts
