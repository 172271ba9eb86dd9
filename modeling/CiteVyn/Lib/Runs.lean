import Mathlib.Data.List.Induction
import Mathlib.Logic.Function.Basic

/-! # Runs of a labelled transition function

A step takes a state and a label and may refuse. What the environment chooses
is in the label, so a run is a list of labels. A condition on the steps of a
run speaks about the state before each of them. -/
namespace CiteVyn.Lib.Runs

variable {S L : Type*}

/-- The steps of a run, one after the other. -/
def exec (step : S → L → Option S) : S → List L → Option S
  | s, [] => some s
  | s, l :: ls => (step s l).bind fun s' => exec step s' ls

/-- What a run ends in can be looked at. -/
instance decidableExistsSome {A : Type*} {o : Option A} {P : A → Prop} [∀ a, Decidable (P a)] :
    Decidable (∃ a, o = some a ∧ P a) :=
  inferInstanceAs (Decidable (∃ a ∈ o, P a))

/-- Every step of the run meets `ok`. -/
def Along (step : S → L → Option S) (ok : S → L → Prop) : S → List L → Prop
  | _, [] => True
  | s, l :: ls =>
    ok s l ∧ match step s l with
      | some s' => Along step ok s' ls
      | none => True

theorem exec_cons {step : S → L → Option S} {s s' : S} {l : L} {ls : List L}
    (h : exec step s (l :: ls) = some s') : ∃ s₁, step s l = some s₁ ∧ exec step s₁ ls = some s' :=
  Option.bind_eq_some_iff.mp h

theorem exec_of_step {step : S → L → Option S} {s s₁ : S} {l : L} (h : step s l = some s₁)
    (ls : List L) : exec step s (l :: ls) = exec step s₁ ls := by
  rw [exec, h, Option.bind_some]

@[simp] theorem exec_singleton (step : S → L → Option S) (s : S) (l : L) :
    exec step s [l] = step s l := by
  rw [exec]
  cases step s l <;> rfl

theorem exec_append (step : S → L → Option S) (s : S) (ls ls' : List L) :
    exec step s (ls ++ ls') = (exec step s ls).bind fun s' => exec step s' ls' := by
  induction ls generalizing s with
  | nil => rfl
  | cons l ls ih =>
    rw [List.cons_append, exec, exec]
    cases step s l with
    | none => rfl
    | some s' => exact ih s'

theorem Along.tail {step : S → L → Option S} {ok : S → L → Prop} {s s₁ : S} {l : L} {ls : List L}
    (h : Along step ok s (l :: ls)) (hstep : step s l = some s₁) : Along step ok s₁ ls := by
  have := h.2
  rwa [hstep] at this

/-- What a step relates, a run relates. -/
theorem exec_relates {step : S → L → Option S} {ok : S → L → Prop} {R : S → S → Prop}
    (hrefl : ∀ s, R s s) (htrans : ∀ a b c, R a b → R b c → R a c)
    (hstep : ∀ s l s', ok s l → step s l = some s' → R s s') :
    ∀ (ls : List L) (s s' : S), Along step ok s ls → exec step s ls = some s' → R s s'
  | [], s, s', _, h => by
    obtain rfl : s = s' := Option.some.inj h
    exact hrefl s
  | l :: ls, s, s', hok, h => by
    obtain ⟨s₁, hl, hrest⟩ := exec_cons h
    exact htrans s s₁ s' (hstep s l s₁ hok.1 hl)
      (exec_relates hrefl htrans hstep ls s₁ s' (hok.tail hl) hrest)

/-- An invariant of every step that meets `ok` holds along every such run. -/
theorem exec_invariant {step : S → L → Option S} {ok : S → L → Prop} {I : S → Prop}
    (hstep : ∀ s l s', I s → ok s l → step s l = some s' → I s')
    {ls : List L} {s s' : S} (hs : I s) (hok : Along step ok s ls)
    (h : exec step s ls = some s') : I s' :=
  exec_relates (R := fun a b => I a → I b) (fun _ h => h) (fun _ _ _ hab hbc ha => hbc (hab ha))
    (fun s l s' hok h hI => hstep s l s' hI hok h) ls s s' hok h hs

/-- What an invariant gives at a step holds along every such run. -/
theorem along_of_invariant {step : S → L → Option S} {ok P : S → L → Prop} {I : S → Prop}
    (hstep : ∀ s l s', I s → ok s l → step s l = some s' → I s') (hP : ∀ s l, I s → ok s l → P s l) :
    ∀ {ls : List L} {s : S}, I s → Along step ok s ls → Along step P s ls
  | [], _, _, _ => trivial
  | l :: ls, s, hs, hok => by
    refine ⟨hP s l hs hok.1, ?_⟩
    cases hnext : step s l with
    | none => trivial
    | some s₁ =>
      exact along_of_invariant hstep hP (hstep s l s₁ hs hok.1 hnext) (hok.tail hnext)

/-- A condition on the labels alone. -/
theorem along_of_mem {step : S → L → Option S} {ok : S → L → Prop} :
    ∀ (ls : List L) (s : S), (∀ l ∈ ls, ∀ s, ok s l) → Along step ok s ls
  | [], _, _ => trivial
  | l :: ls, s, h => by
    refine ⟨h l List.mem_cons_self s, ?_⟩
    split
    · exact along_of_mem ls _ fun l' hl' => h l' (List.mem_cons_of_mem _ hl')
    · trivial

instance decidableAlong {step : S → L → Option S} {ok : S → L → Prop} [∀ s l, Decidable (ok s l)] :
    ∀ (s : S) (ls : List L), Decidable (Along step ok s ls)
  | _, [] => isTrue trivial
  | s, l :: ls =>
    have : Decidable (match step s l with
        | some s' => Along step ok s' ls
        | none => True) :=
      match step s l with
      | some s' => decidableAlong s' ls
      | none => isTrue trivial
    inferInstanceAs (Decidable (_ ∧ _))

/-! ## What a run has been through -/

/-- A run step by step, with the run so far. -/
theorem exec_history {step : S → L → Option S} {s : S} {I : List L → S → Prop} (hnil : I [] s)
    (hsnoc : ∀ ls s₁ l s₂, exec step s ls = some s₁ → I ls s₁ → step s₁ l = some s₂ → I (ls ++ [l]) s₂)
    {ls : List L} {s' : S} (h : exec step s ls = some s') : I ls s' := by
  induction ls using List.reverseRecOn generalizing s' with
  | nil =>
    obtain rfl := Option.some.inj h
    exact hnil
  | append_singleton ls l ih =>
    rw [exec_append] at h
    obtain ⟨s₁, hrun, hstep⟩ := Option.bind_eq_some_iff.mp h
    rw [exec_singleton] at hstep
    exact hsnoc ls s₁ l s' hrun (ih hrun) hstep

/-- The run has taken a step that meets `P`. -/
def Took (step : S → L → Option S) (s : S) (ls : List L) (P : S → L → Prop) : Prop :=
  ∃ pre l post s₁, ls = pre ++ l :: post ∧ exec step s pre = some s₁ ∧ P s₁ l

theorem Took.last {step : S → L → Option S} {s s' : S} {ls : List L} {l : L} {P : S → L → Prop}
    (h : exec step s ls = some s') (hP : P s' l) : Took step s (ls ++ [l]) P :=
  ⟨ls, l, [], s', rfl, h, hP⟩

theorem Took.append {step : S → L → Option S} {s : S} {ls : List L} {P : S → L → Prop}
    (h : Took step s ls P) (ls' : List L) : Took step s (ls ++ ls') P := by
  obtain ⟨pre, l, post, s₁, rfl, hrun, hP⟩ := h
  exact ⟨pre, l, post ++ ls', s₁, by simp, hrun, hP⟩

theorem took_nil {step : S → L → Option S} {s : S} {P : S → L → Prop} : ¬Took step s [] P := by
  intro ⟨pre, l, post, s₁, heq, _⟩
  simp at heq

/-- What a run has been through, its last step apart. -/
theorem took_snoc {step : S → L → Option S} {s s' : S} {ls : List L} {l : L} {P : S → L → Prop}
    (h : exec step s ls = some s') : Took step s (ls ++ [l]) P ↔ Took step s ls P ∨ P s' l := by
  constructor
  · intro ⟨pre, l', post, s₁, heq, hrun, hP⟩
    rcases List.eq_nil_or_concat post with rfl | ⟨post, last, rfl⟩
    · obtain ⟨rfl, hlast⟩ := List.append_inj' heq rfl
      obtain rfl : s' = s₁ := Option.some.inj (h.symm.trans hrun)
      exact .inr (List.singleton_inj.mp hlast ▸ hP)
    · rw [List.concat_eq_append, ← List.cons_append, ← List.append_assoc] at heq
      exact .inl ⟨pre, l', post, s₁, (List.append_inj' heq rfl).1, hrun, hP⟩
  · intro htook
    rcases htook with htook | hP
    · exact htook.append [l]
    · exact Took.last h hP

end CiteVyn.Lib.Runs
