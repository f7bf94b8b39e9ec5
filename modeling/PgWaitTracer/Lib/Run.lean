import Mathlib.Algebra.BigOperators.Group.List.Basic
import Mathlib.Data.List.Basic

/-!
# Runs of a step function

A run is a list of inputs folded through a step function. An input may be constrained in the state
it meets, either by what the environment does or by the condition under which a property is
claimed; `Run.Allowed` says that every input of a run meets its constraint. A step may also fail,
which ends the run.

## Main definitions

* `Run.Allowed`: every input of the run is allowed in the state it meets.
* `Run.Follows`: a computation that may fail follows one that does not.

## Main results

* `Run.Allowed.invariant`: what allowed steps preserve holds at the end of every allowed run.
* `Run.Allowed.of_append_left`: a run is allowed up to every point it passes.
* `Run.Allowed.of_split`: what an input of a run meets.
* `Run.Allowed.imp`: a weaker constraint.
* `Run.Allowed.forall_state_iff`: a property of every state of a run, by a condition on its steps.
* `Run.foldlM_adds`: a run without a failure adds up what its steps add.
* `Run.foldlM_succeeds`: a run whose steps do not fail.
* `Run.Follows.foldlM`: a run follows another one if its steps do.
-/

namespace Run

variable {σ ι : Type*}

/-- Every input of the run is allowed in the state it meets. -/
def Allowed (step : σ → ι → σ) (ok : σ → ι → Prop) : σ → List ι → Prop
  | _, [] => True
  | s, i :: is => ok s i ∧ Allowed step ok (step s i) is

variable {step : σ → ι → σ} {ok : σ → ι → Prop}

/-- **Invariant rule.** What allowed steps preserve holds at the end of every allowed run. -/
theorem Allowed.invariant {inv : σ → Prop} (hstep : ∀ s i, inv s → ok s i → inv (step s i)) :
    (is : List ι) → (s : σ) → Allowed step ok s is → inv s → inv (is.foldl step s)
  | [], _, _, h => h
  | i :: is, s, hrun, h => Allowed.invariant hstep is (step s i) hrun.2 (hstep s i h hrun.1)

theorem Allowed.of_append_left : (pre : List ι) → (s : σ) → (post : List ι) →
    Allowed step ok s (pre ++ post) → Allowed step ok s pre
  | [], _, _, _ => trivial
  | j :: pre, s, post, h => ⟨h.1, Allowed.of_append_left pre (step s j) post h.2⟩

theorem Allowed.of_split : (pre : List ι) → (s : σ) → {i : ι} → {post : List ι} →
    Allowed step ok s (pre ++ i :: post) → ok (pre.foldl step s) i
  | [], _, _, _, h => h.1
  | j :: pre, s, _, _, h => Allowed.of_split pre (step s j) h.2

theorem Allowed.of_forall : (is : List ι) → (s : σ) → (∀ s, ∀ i ∈ is, ok s i) →
    Allowed step ok s is
  | [], _, _ => trivial
  | i :: is, s, h => ⟨h s i List.mem_cons_self,
      Allowed.of_forall is (step s i) fun t j hj => h t j (List.mem_cons_of_mem i hj)⟩

theorem Allowed.imp {ok' : σ → ι → Prop} : (is : List ι) → (s : σ) →
    (∀ s, ∀ i ∈ is, ok s i → ok' s i) → Allowed step ok s is → Allowed step ok' s is
  | [], _, _, _ => trivial
  | i :: is, s, h, hrun => ⟨h s i List.mem_cons_self hrun.1,
      Allowed.imp is (step s i) (fun t j hj => h t j (List.mem_cons_of_mem i hj)) hrun.2⟩

/-- **A property of every state of a run.** Under an invariant that allowed steps keep as long as
they meet `Q`, a property that holds at once and that a step reaches exactly under `Q` holds in
every state of the run exactly when every step meets `Q`. -/
theorem Allowed.forall_state_iff {inv P : σ → Prop} {Q : σ → ι → Prop}
    (hstep : ∀ s i, inv s → ok s i → Q s i → inv (step s i)) (hinv : ∀ s, inv s → P s)
    (hout : ∀ s i, inv s → ok s i → P (step s i) → Q s i) :
    (is : List ι) → (s : σ) → Allowed step ok s is → inv s →
      ((∀ pre post, is = pre ++ post → P (pre.foldl step s)) ↔ Allowed step Q s is)
  | [], s, _, h => by
    refine iff_of_true (fun pre post hs => ?_) trivial
    rw [(List.append_eq_nil_iff.mp hs.symm).1]
    exact hinv s h
  | i :: is, s, hrun, h => by
    rw [Allowed]
    constructor
    · intro hall
      have hQ := hout s i h hrun.1 (hall [i] is rfl)
      refine ⟨hQ, (forall_state_iff hstep hinv hout is (step s i) hrun.2
        (hstep s i h hrun.1 hQ)).mp fun pre post hs => ?_⟩
      exact hall (i :: pre) post (by rw [hs]; rfl)
    · rintro ⟨hQ, hrest⟩ pre post hs
      cases pre with
      | nil => exact hinv s h
      | cons j pre =>
        obtain ⟨rfl, rfl⟩ := List.cons.inj hs
        exact (forall_state_iff hstep hinv hout _ (step s i) hrun.2
          (hstep s i h hrun.1 hQ)).mpr hrest pre post rfl

/-! ### Steps that may fail -/

universe u

variable {ε M : Type*} {f : σ → ι → Except ε σ}

theorem bind_eq_ok {α β : Type u} {x : Except ε α} {g : α → Except ε β} {b : β} :
    (x >>= g) = .ok b ↔ ∃ a, x = .ok a ∧ g a = .ok b := by
  cases x with
  | error e => simp [bind, Except.bind]
  | ok a => simp [bind, Except.bind]

/-- **A run without a failure adds up what its steps add.** -/
theorem foldlM_adds [AddMonoid M] {P : σ → M → Prop} {w : ι → M} : (is : List ι) →
    (∀ i ∈ is, ∀ s s' m, P s m → f s i = .ok s' → P s' (m + w i)) → (s s' : σ) → (m : M) →
    P s m → is.foldlM f s = .ok s' → P s' (m + (is.map w).sum)
  | [], _, s, s', m, h, hrun => by
    obtain rfl : s = s' := Except.ok.inj hrun
    simpa using h
  | i :: is, hstep, s, s', m, h, hrun => by
    rw [List.foldlM_cons] at hrun
    obtain ⟨s₁, hi, hrun⟩ := bind_eq_ok.1 hrun
    have hrest := foldlM_adds is (fun j hj => hstep j (List.mem_cons_of_mem _ hj)) s₁ s' _
      (hstep i List.mem_cons_self s s₁ m h hi) hrun
    rwa [List.map_cons, List.sum_cons, ← add_assoc]

theorem foldlM_invariant {P : σ → Prop} (is : List ι)
    (hstep : ∀ i ∈ is, ∀ s s', P s → f s i = .ok s' → P s') (s s' : σ) (h : P s)
    (hrun : is.foldlM f s = .ok s') : P s' :=
  foldlM_adds (M := ℕ) (P := fun s _ => P s) (w := fun _ => 0) is
    (fun i hi s s' _ => hstep i hi s s') s s' 0 h hrun

theorem exists_of_foldlM : (is : List ι) → (s s' : σ) → is.foldlM f s = .ok s' → ∀ i ∈ is,
    ∃ t t', f t i = .ok t'
  | [], _, _, _, _, hi => absurd hi List.not_mem_nil
  | j :: is, s, s', hrun, i, hi => by
    rw [List.foldlM_cons] at hrun
    obtain ⟨s₁, hj, hrun⟩ := bind_eq_ok.1 hrun
    rcases List.mem_cons.1 hi with rfl | hi
    · exact ⟨s, s₁, hj⟩
    · exact exists_of_foldlM is s₁ s' hrun i hi

theorem foldlM_succeeds {P : σ → Prop} : (is : List ι) →
    (∀ i ∈ is, ∀ s, P s → ∃ s', f s i = .ok s' ∧ P s') → (s : σ) → P s →
    ∃ s', is.foldlM f s = .ok s' ∧ P s'
  | [], _, s, h => ⟨s, rfl, h⟩
  | i :: is, hstep, s, h => by
    obtain ⟨s₁, hi, h₁⟩ := hstep i List.mem_cons_self s h
    obtain ⟨s', hrun, h'⟩ :=
      foldlM_succeeds is (fun j hj => hstep j (List.mem_cons_of_mem _ hj)) s₁ h₁
    exact ⟨s', by rw [List.foldlM_cons]; exact bind_eq_ok.2 ⟨s₁, hi, hrun⟩, h'⟩

/-! ### Steps that follow others -/

section Follows

variable {τ σ' τ' : Type*} {F : Prop} {R : σ → τ → Prop} {R' : σ' → τ' → Prop}

/-- A computation that may fail, and does so only for the reason `F`, follows one that does not. -/
def Follows (F : Prop) (R : σ → τ → Prop) (x : Option σ) (t : τ) : Prop :=
  x = none ∧ F ∨ ∃ s, x = some s ∧ R s t

theorem Follows.of_some {s : σ} {t : τ} (h : R s t) : Follows F R (some s) t := Or.inr ⟨s, rfl, h⟩

theorem Follows.bind {x : Option σ} {t : τ} (h : Follows F R x t) {g : σ → Option σ'} {t' : τ'}
    (hg : ∀ s, R s t → Follows F R' (g s) t') : Follows F R' (x.bind g) t' := by
  rcases h with ⟨rfl, hF⟩ | ⟨s, rfl, hR⟩
  · exact Or.inl ⟨rfl, hF⟩
  · exact hg s hR

/-- **A run follows another one** if its steps do. -/
theorem Follows.foldlM {f : σ → ι → Option σ} {g : τ → ι → τ} : (is : List ι) →
    (∀ i ∈ is, ∀ s t, R s t → Follows F R (f s i) (g t i)) → (s : σ) → (t : τ) → R s t →
    Follows F R (is.foldlM f s) (is.foldl g t)
  | [], _, _, _, h => Follows.of_some h
  | i :: is, hstep, s, t, h => by
    rw [List.foldlM_cons, List.foldl_cons]
    exact (hstep i List.mem_cons_self s t h).bind fun s' h' =>
      Follows.foldlM is (fun j hj => hstep j (List.mem_cons_of_mem _ hj)) s' _ h'

end Follows

end Run
