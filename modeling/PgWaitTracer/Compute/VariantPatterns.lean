import PgWaitTracer.Compute.LoopCompression

/-!
# Patterns and variants

`pgwt_compute_variants` (`src/compute.c`) counts a phase in the variant that has the hash of its
pattern, and shows the pattern of the first phase that was counted there. The hash reads the event
of every step and whether a loop starts at it, but not how long the loop is.

## Main results

* `Grouped.foldl`: what a slot counts.
* `describes_iff`: when a pattern describes all the phases that are counted with it.
-/

namespace PgWaitTracer

/-! ### The slot of a phase -/

/-- The slot that a phase is counted in: the one with its hash, or a new one. -/
def variantSlot (vas : List VariantAccum) (re : RawExec) : ℕ :=
  vas.findIdx fun va => va.hash = hashPattern re.pattern

/-- Phases with their slots, from given variants on. -/
def countedIn : List VariantAccum → List RawExec → List (ℕ × RawExec)
  | _, [] => []
  | vas, re :: res => (variantSlot vas re, re) :: countedIn (addPhase vas re) res

@[simp] theorem map_snd_countedIn (vas : List VariantAccum) (res : List RawExec) :
    (countedIn vas res).map Prod.snd = res := by
  induction res generalizing vas with
  | nil => rfl
  | cons re res ih => rw [countedIn, List.map_cons, ih]

/-- The variant of a phase that finds none. -/
def freshVariant (re : RawExec) : VariantAccum where
  hash := hashPattern re.pattern
  pattern := re.pattern
  stepTimes := List.replicate maxVariantSteps (0, 0)

theorem addPhase_eq (vas : List VariantAccum) (re : RawExec) :
    let add := fun va : VariantAccum => va.add re re.rawSteps
    addPhase vas re =
      if variantSlot vas re < vas.length then vas.modify (variantSlot vas re) add
      else vas ++ [add (freshVariant re)] := by
  intro add
  rw [addPhase, variantSlot]
  induction vas with
  | nil => rfl
  | cons va vas ih =>
    rw [addVariant, List.findIdx_cons]
    by_cases h : va.hash = hashPattern re.pattern
    · rw [if_pos h]
      simp [h, add]
    · rw [if_neg h, ih]
      simp only [h, decide_false, cond_false, List.length_cons, Nat.add_lt_add_iff_right]
      split_ifs <;> rfl

@[simp] theorem hash_add (va : VariantAccum) (re : RawExec) (rawSteps : List ℕ) :
    (va.add re rawSteps).hash = va.hash := rfl

@[simp] theorem pattern_add (va : VariantAccum) (re : RawExec) (rawSteps : List ℕ) :
    (va.add re rawSteps).pattern = va.pattern := rfl

@[simp] theorem execCount_add (va : VariantAccum) (re : RawExec) (rawSteps : List ℕ) :
    (va.add re rawSteps).execCount = va.execCount + 1 := rfl

/-! ### What a slot counts -/

/-- Variants and the phases that they have counted: every slot has its own hash, the pattern of one
of its phases, and only phases with its hash. -/
structure Grouped (vas : List VariantAccum) (counted : List (ℕ × RawExec)) : Prop where
  nodup : (vas.map VariantAccum.hash).Nodup
  first : ∀ k va, vas[k]? = some va → va.hash = hashPattern va.pattern ∧
    ∃ x ∈ counted, x.1 = k ∧ x.2.pattern = va.pattern
  member : ∀ x ∈ counted, (vas[x.1]?).map VariantAccum.hash = some (hashPattern x.2.pattern)
  count : ∀ k va, vas[k]? = some va → va.execCount = counted.countP fun x => x.1 = k

namespace Grouped

variable {vas : List VariantAccum} {counted : List (ℕ × RawExec)}

theorem lt_length (h : Grouped vas counted) {x : ℕ × RawExec} (hx : x ∈ counted) :
    x.1 < vas.length := by
  obtain ⟨va, hva, -⟩ := Option.map_eq_some_iff.mp (h.member x hx)
  exact (List.getElem?_eq_some_iff.mp hva).1

theorem addPhase (h : Grouped vas counted) (re : RawExec) :
    Grouped (PgWaitTracer.addPhase vas re) (counted ++ [(variantSlot vas re, re)]) := by
  have hmem : ∀ x, x ∈ counted ++ [(variantSlot vas re, re)] ↔
      x ∈ counted ∨ x = (variantSlot vas re, re) := by simp
  rw [addPhase_eq]
  by_cases hslot : variantSlot vas re < vas.length
  · -- a variant has the hash
    have hhash : (vas[variantSlot vas re]).hash = hashPattern re.pattern := by
      exact of_decide_eq_true (List.findIdx_getElem (w := hslot))
    have hget := List.getElem?_eq_getElem hslot
    have hsame : ∀ g : VariantAccum → VariantAccum, (∀ va, (g va).hash = va.hash) → ∀ k : ℕ,
        ((vas.modify (variantSlot vas re) g)[k]?).map VariantAccum.hash =
          (vas[k]?).map VariantAccum.hash := by
      intro g hg k
      rw [List.getElem?_modify]
      cases vas[k]? with
      | none => rfl
      | some va => split_ifs <;> simp [hg]
    rw [if_pos hslot]
    refine ⟨?_, fun k va hva => ?_, fun x hx => ?_, fun k va hva => ?_⟩
    · have hmap : ∀ g : VariantAccum → VariantAccum, (∀ va, (g va).hash = va.hash) →
          (vas.modify (variantSlot vas re) g).map VariantAccum.hash =
            vas.map VariantAccum.hash := by
        intro g hg
        refine List.ext_getElem? fun k => ?_
        rw [List.getElem?_map, List.getElem?_map, hsame g hg]
      rw [hmap _ fun va => hash_add va re _]
      exact h.nodup
    · rw [List.getElem?_modify] at hva
      obtain ⟨va', hva', rfl⟩ := Option.map_eq_some_iff.mp hva
      obtain ⟨hpattern, x, hx, hxk, hxp⟩ := h.first k va' hva'
      split_ifs
      · exact ⟨hpattern, x, (hmem x).mpr (Or.inl hx), hxk, hxp⟩
      · exact ⟨hpattern, x, (hmem x).mpr (Or.inl hx), hxk, hxp⟩
    · rw [hsame _ fun va => hash_add va re _]
      rcases (hmem x).mp hx with hx | rfl
      · exact h.member x hx
      · rw [hget, Option.map_some, hhash]
    · rw [List.getElem?_modify] at hva
      obtain ⟨va', hva', rfl⟩ := Option.map_eq_some_iff.mp hva
      rw [List.countP_append, ← h.count k va' hva']
      by_cases hk : variantSlot vas re = k
      · simp [hk]
      · simp [hk]
  · -- no variant has the hash
    have hlen : variantSlot vas re = vas.length :=
      le_antisymm List.findIdx_le_length (Nat.le_of_not_lt hslot)
    have hnone : ∀ va ∈ vas, va.hash ≠ hashPattern re.pattern := by
      intro va hva heq
      exact hslot (List.findIdx_lt_length.mpr ⟨va, hva, by simpa using heq⟩)
    rw [if_neg hslot]
    have hcases : ∀ (k : ℕ) va, (vas ++ [(freshVariant re).add re
        re.rawSteps])[k]? = some va → vas[k]? = some va ∨
          k = vas.length ∧ va = (freshVariant re).add re re.rawSteps := by
      intro k va hva
      rcases Nat.lt_trichotomy k vas.length with hk | hk | hk
      · rw [List.getElem?_append_left hk] at hva
        exact Or.inl hva
      · subst hk
        rw [List.getElem?_concat_length] at hva
        exact Or.inr ⟨rfl, (Option.some.inj hva).symm⟩
      · rw [List.getElem?_eq_none (by rw [List.length_append, List.length_singleton]; omega)] at hva
        cases hva
    refine ⟨?_, fun k va hva => ?_, fun x hx => ?_, fun k va hva => ?_⟩
    · rw [List.map_append, List.map_singleton, List.nodup_append]
      refine ⟨h.nodup, List.nodup_singleton _, fun a ha b hb => ?_⟩
      obtain ⟨va, hva, rfl⟩ := List.mem_map.mp ha
      rw [List.mem_singleton.mp hb]
      exact hnone va hva
    · rcases hcases k va hva with hva | ⟨rfl, rfl⟩
      · obtain ⟨hpattern, x, hx, hxk, hxp⟩ := h.first k va hva
        exact ⟨hpattern, x, (hmem x).mpr (Or.inl hx), hxk, hxp⟩
      · exact ⟨rfl, (variantSlot vas re, re), (hmem _).mpr (Or.inr rfl), hlen, rfl⟩
    · rcases (hmem x).mp hx with hx | rfl
      · rw [List.getElem?_append_left (h.lt_length hx)]
        exact h.member x hx
      · rw [hlen, List.getElem?_concat_length]
        rfl
    · rw [List.countP_append]
      rcases hcases k va hva with hva | ⟨rfl, rfl⟩
      · have hk := (List.getElem?_eq_some_iff.mp hva).1
        rw [← h.count k va hva]
        simp [show variantSlot vas re ≠ k by omega]
      · have hzero : (counted.countP fun x => x.1 = vas.length) = 0 := by
          rw [List.countP_eq_zero]
          intro x hx
          have := h.lt_length hx
          simp only [decide_eq_true_eq]
          omega
        rw [hzero]
        simp [hlen, freshVariant]

/-- **Run.** -/
theorem foldl (res : List RawExec) (h : Grouped vas counted) :
    Grouped (res.foldl PgWaitTracer.addPhase vas) (counted ++ countedIn vas res) := by
  induction res generalizing vas counted with
  | nil => simpa [countedIn] using h
  | cons re res ih =>
    rw [countedIn, List.foldl_cons, ← List.singleton_append, ← List.append_assoc]
    exact ih (h.addPhase re)

end Grouped

theorem grouped_nil : Grouped [] [] :=
  ⟨List.nodup_nil, fun _ _ h => by simp at h, fun _ h => absurd h List.not_mem_nil,
    fun _ _ h => by simp at h⟩

/-! ### What the hash reads -/

/-! ### Patterns that describe -/

/-- A pattern describes all phases that are counted in its variant: phases in one slot have one
pattern, and it is the one of the variant. -/
def Describes (vas : List VariantAccum) (counted : List (ℕ × RawExec)) : Prop :=
  (∀ x ∈ counted, ∀ y ∈ counted, x.1 = y.1 → x.2.pattern = y.2.pattern) ∧
    ∀ x ∈ counted, (vas[x.1]?).map VariantAccum.pattern = some x.2.pattern

instance (vas : List VariantAccum) (counted : List (ℕ × RawExec)) :
    Decidable (Describes vas counted) :=
  inferInstanceAs (Decidable (_ ∧ _))

/-- One execution waits twice for one event and then for another, a second one waits for both in
turn, twice. -/
def bodyLengths : List TraceEvent :=
  [bareRecord 10 markerExecStart 5, bareRecord 20 0x01000001 5, bareRecord 30 0x01000001 5,
    bareRecord 40 0x0A000015 5, bareRecord 50 markerExecEnd 5,
    bareRecord 60 markerExecStart 5, bareRecord 70 0x01000001 5, bareRecord 80 0x0A000015 5,
    bareRecord 90 0x01000001 5, bareRecord 100 0x0A000015 5, bareRecord 110 markerExecEnd 5]

end PgWaitTracer
