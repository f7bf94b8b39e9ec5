import Mathlib.Logic.Function.Basic
import Mathlib.Data.List.Basic

/-!
# Passes with a state for every key

A pass walks a list once and keeps a state for every key; an event is answered from the state of
its own key and moves only that state. The table of states is a total function.

## Main definitions

* `Keyed.after`, `Keyed.pass`: the table after a pass and its answers.
* `Keyed.passBack`: the same from the last event to the first.
* `Keyed.Always`: every event of a pass meets a condition on the state it finds.

## Main results

* `Keyed.after_eq_foldl`: the state of a key is the fold over the events of that key.
* `Keyed.map_pass_eq_iff`: two passes in step give the same answers exactly when every
  event meets the condition under which one answer agrees.
-/

namespace PgWaitTracer.Keyed

variable {κ ε σ τ β β' γ : Type*} [DecidableEq κ]

/-- The table after one event. -/
def move (key : ε → κ) (step : σ → ε → σ × β) (tbl : κ → σ) (e : ε) : κ → σ :=
  Function.update tbl (key e) (step (tbl (key e)) e).1

/-- The table after a pass. -/
def after (key : ε → κ) (step : σ → ε → σ × β) (tbl : κ → σ) : List ε → κ → σ
  | [] => tbl
  | e :: es => after key step (move key step tbl e) es

/-- The answers of a pass. -/
def pass (key : ε → κ) (step : σ → ε → σ × β) (tbl : κ → σ) : List ε → List β
  | [] => []
  | e :: es => (step (tbl (key e)) e).2 :: pass key step (move key step tbl e) es

/-- A pass from the last event to the first: the table it leaves and its answers, in the order of
the list. -/
def passBack (key : ε → κ) (step : σ → ε → σ × β) (tbl : κ → σ) : List ε → (κ → σ) × List β
  | [] => (tbl, [])
  | e :: es =>
    let r := passBack key step tbl es
    (move key step r.1 e, (step (r.1 (key e)) e).2 :: r.2)

/-- Every event of the pass finds its key in a state that meets `Q`. -/
def Always (key : ε → κ) (step : σ → ε → σ × β) (Q : σ → ε → Prop) (tbl : κ → σ) :
    List ε → Prop
  | [] => True
  | e :: es => Q (tbl (key e)) e ∧ Always key step Q (move key step tbl e) es

instance Always.decidable (key : ε → κ) (step : σ → ε → σ × β) (Q : σ → ε → Prop)
    [∀ s e, Decidable (Q s e)] : ∀ tbl es, Decidable (Always key step Q tbl es)
  | _, [] => inferInstanceAs (Decidable True)
  | tbl, e :: es =>
    have := Always.decidable key step Q (move key step tbl e) es
    inferInstanceAs (Decidable (_ ∧ _))

variable {key : ε → κ} {step : σ → ε → σ × β} {tbl : κ → σ}

@[simp] theorem move_self (e : ε) :
    move key step tbl e (key e) = (step (tbl (key e)) e).1 := by
  simp [move]

theorem move_of_ne {e : ε} {k : κ} (h : k ≠ key e) : move key step tbl e k = tbl k := by
  simp [move, h]

theorem forall_move {step' : τ → ε → τ × β'} {tbl' : κ → τ} {R : κ → σ → τ → Prop} {e : ε}
    (hstep : R (key e) (step (tbl (key e)) e).1 (step' (tbl' (key e)) e).1)
    (hrest : ∀ k, R k (tbl k) (tbl' k)) (k : κ) :
    R k (move key step tbl e k) (move key step' tbl' e k) := by
  by_cases hk : k = key e
  · subst hk
    rw [move_self, move_self]
    exact hstep
  · rw [move_of_ne hk, move_of_ne hk]
    exact hrest k

section Prod

variable {ε' : Type*} {key' : ε' → κ} {step' : τ → ε' → τ × β'} {f : ε → ε'}

theorem move_prod (hkey : ∀ e, key' (f e) = key e) (tbl : κ → σ) (tbl' : κ → τ) (e : ε) :
    move key (fun st e => (((step st.1 e).1, (step' st.2 (f e)).1), ()))
        (fun k => (tbl k, tbl' k)) e =
      fun k => (move key step tbl e k, move key' step' tbl' (f e) k) := by
  funext k
  by_cases hk : k = key e
  · subst hk
    rw [move_self, move_self, ← hkey e, move_self]
  · rw [move_of_ne hk, move_of_ne hk, move_of_ne (hkey e ▸ hk)]

theorem after_prod (hkey : ∀ e, key' (f e) = key e) (tbl : κ → σ) (tbl' : κ → τ) (es : List ε) :
    after key (fun st e => (((step st.1 e).1, (step' st.2 (f e)).1), ()))
        (fun k => (tbl k, tbl' k)) es =
      fun k => (after key step tbl es k, after key' step' tbl' (es.map f) k) := by
  induction es generalizing tbl tbl' with
  | nil => rfl
  | cons e es ih =>
    rw [after, move_prod hkey, ih]
    rfl

end Prod

theorem after_append (P W : List ε) :
    after key step tbl (P ++ W) = after key step (after key step tbl P) W := by
  induction P generalizing tbl with
  | nil => rfl
  | cons e P ih => exact ih

theorem pass_append (P W : List ε) :
    pass key step tbl (P ++ W) = pass key step tbl P ++ pass key step (after key step tbl P) W := by
  induction P generalizing tbl with
  | nil => rfl
  | cons e P ih => exact congrArg _ ih

@[simp] theorem length_pass (es : List ε) : (pass key step tbl es).length = es.length := by
  induction es generalizing tbl with
  | nil => rfl
  | cons e es ih => simp [pass, ih]

/-- **The state of a key is the fold over its own events.** -/
theorem after_eq_foldl (es : List ε) (k : κ) :
    after key step tbl es k =
      (es.filter fun e => key e = k).foldl (fun s e => (step s e).1) (tbl k) := by
  induction es generalizing tbl with
  | nil => rfl
  | cons e es ih =>
    rw [after, ih]
    by_cases h : key e = k
    · subst h
      simp
    · simp [h, move_of_ne (Ne.symm h)]

theorem after_rel (R : σ → τ → Prop) (key : ε → κ) (step : σ → ε → σ × β)
    (step' : τ → ε → τ × β') (tbl : κ → σ) (tbl' : κ → τ) {k : κ} (es : List ε)
    (hstep : ∀ e ∈ es, key e = k → ∀ {s t}, R s t → R (step s e).1 (step' t e).1)
    (h : R (tbl k) (tbl' k)) : R (after key step tbl es k) (after key step' tbl' es k) := by
  induction es generalizing tbl tbl' with
  | nil => exact h
  | cons e es ih =>
    refine ih _ _ (fun e' he' => hstep e' (List.mem_cons_of_mem _ he')) ?_
    by_cases hk : k = key e
    · subst hk
      rw [move_self, move_self]
      exact hstep e List.mem_cons_self rfl h
    · rwa [move_of_ne hk, move_of_ne hk]

theorem getElem?_pass (es : List ε) (i : ℕ) :
    (pass key step tbl es)[i]? =
      es[i]?.map fun e => (step (after key step tbl (es.take i) (key e)) e).2 := by
  induction es generalizing tbl i with
  | nil => simp [pass]
  | cons e es ih =>
    cases i with
    | zero => rfl
    | succ i => simpa [pass, after] using ih i

/-- **Two passes in step.** If a relation between the states of a key survives every event, and one
answer agrees exactly under `Q`, then all answers agree exactly when every event meets `Q`. The
relation may speak of the events still to come; the answers are compared through `f` and `f'`. -/
theorem map_pass_eq_iff {step' : τ → ε → τ × β'} {tbl' : κ → τ} {Q : σ → ε → Prop} {f : β → γ}
    {f' : β' → γ} (R : List ε → σ → τ → Prop)
    (tail : ∀ {e es s t}, R (e :: es) s t → R es s t)
    (hstep : ∀ {e es s t}, R (e :: es) s t → R es (step s e).1 (step' t e).1)
    (hout : ∀ {e es s t}, R (e :: es) s t → (f (step s e).2 = f' (step' t e).2 ↔ Q s e))
    (es : List ε) (h : ∀ k, R es (tbl k) (tbl' k)) :
    (pass key step tbl es).map f = (pass key step' tbl' es).map f' ↔
      Always key step Q tbl es := by
  induction es generalizing tbl tbl' with
  | nil => simp [pass, Always]
  | cons e es ih =>
    have hnext : ∀ k, R es (move key step tbl e k) (move key step' tbl' e k) :=
      forall_move (R := fun _ => R es) (hstep (h _)) fun k => tail (h k)
    rw [pass, pass, Always, List.map_cons, List.map_cons, List.cons.injEq, hout (h _), ih hnext]

theorem getElem?_passBack (es : List ε) (i : ℕ) :
    (passBack key step tbl es).2[i]? =
      es[i]?.map fun e => (step ((passBack key step tbl (es.drop (i + 1))).1 (key e)) e).2 := by
  induction es generalizing i with
  | nil => simp [passBack]
  | cons e es ih =>
    cases i with
    | zero => rfl
    | succ i => simpa [passBack] using ih i

theorem drop_passBack_append (key : ε → κ) (step : σ → ε → σ × β) (tbl : κ → σ) (A B : List ε) :
    (passBack key step tbl (A ++ B)).2.drop A.length = (passBack key step tbl B).2 := by
  induction A with
  | nil => rfl
  | cons e A ih => rwa [List.cons_append, passBack, List.length_cons, List.drop_succ_cons]

theorem passBack_congr {es es' : List ε} (h : List.Forall₂ (fun e e' => key e = key e' ∧
      ∀ s, (step s e).1 = (step s e').1) es es') :
    (passBack key step tbl es).1 = (passBack key step tbl es').1 := by
  induction h with
  | nil => rfl
  | cons he _ ih => rw [passBack, passBack, move, move, ih, he.1, he.2]

theorem map_passBack {f : β → γ} {g : ε → γ} (h : ∀ s e, f (step s e).2 = g e) (es : List ε) :
    (passBack key step tbl es).2.map f = es.map g := by
  induction es with
  | nil => rfl
  | cons e es ih => rw [passBack, List.map_cons, List.map_cons, h, ih]

end PgWaitTracer.Keyed
