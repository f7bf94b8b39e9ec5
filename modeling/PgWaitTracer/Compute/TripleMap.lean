import Mathlib.Data.UInt
import PgWaitTracer.Lib.GrowTable

/-!
# Maps of triples

A hash map with three 32-bit words as a key, in which distinct keys are counted
(`src/triple_map.h`). It doubles when another key would fill 70 % of it, and it takes no key only if
an allocation fails.

A pointer to a value is the key, and a store through it is `TripleMap.store`. Values are counters.

## Main results

* `TripleMap.Ok.slot_cases`: a key is created if it is new, with value 0.
* `TripleMap.Ok.store`, `TripleMap.Ok.slot_store`: a store changes the
  value of its key only.
-/

namespace PgWaitTracer

/-- The three words of a key. -/
abbrev Triple := UInt32 × UInt32 × UInt32

/-- `pgwt_triple_map_hash`. -/
def tripleMapHash (k : Triple) : ℕ :=
  let h : UInt64 := 0x9E3779B97F4A7C15
  let h := (h ^^^ k.1.toUInt64) * 0xBF58476D1CE4E5B9
  let h := (h ^^^ k.2.1.toUInt64) * 0x94D049BB133111EB
  let h := (h ^^^ k.2.2.toUInt64) * 0xBF58476D1CE4E5B9
  let h := h ^^^ (h >>> 31)
  h.toUInt32.toNat

/-- `struct pgwt_triple_map`. -/
abbrev TripleMap (V : Type*) := GrowTable (Triple × V)

namespace TripleMap

variable {V : Type*}

/-- The value of a key. -/
def val? (m : TripleMap V) (k : Triple) : Option V :=
  (m.find? Prod.fst tripleMapHash k).map Prod.snd

/-- `pgwt_triple_map_slot`: the map with the key in it, and whether the key was created. Only a key
that is new makes the map grow, which `fails` if there is no memory. -/
def slot [Zero V] (fails : Bool) (m : TripleMap V) (k : Triple) : Option (TripleMap V × Bool) :=
  if (val? m k).isSome then some (m, false)
  else if (m.slots.length = 0 ∨ m.slots.length * 7 ≤ (m.num + 1) * 10) ∧ fails then none
  else some (m.put Prod.fst tripleMapHash 256 (k, 0), true)

/-- A store to the value of a key that the map has. -/
def store (m : TripleMap V) (k : Triple) (v : V) : TripleMap V :=
  m.putNogrow Prod.fst tripleMapHash (k, v)

/-- `pgwt_triple_map_clear`. -/
def clear (m : TripleMap V) : TripleMap V := GrowTable.clear m

/-- Keys are where they are searched for, and there is room for another one. -/
abbrev Ok (m : TripleMap V) : Prop := GrowTable.WellFormed Prod.fst tripleMapHash m

theorem ok_empty : Ok ({} : TripleMap V) := GrowTable.wellFormed_empty

@[simp] theorem val?_empty (k : Triple) : val? ({} : TripleMap V) k = none := rfl

theorem Ok.clear {m : TripleMap V} (h : Ok m) : Ok (clear m) := GrowTable.WellFormed.clear h

@[simp] theorem val?_clear (m : TripleMap V) (k : Triple) : val? (clear m) k = none := by
  rw [val?, TripleMap.clear, GrowTable.find?_clear]
  rfl

/-- **What a search does.** The key is in the map afterwards, and no other key changes. -/
theorem Ok.slot_cases [Zero V] (fails : Bool) {m : TripleMap V} (h : Ok m) (k : Triple) :
    slot fails m k = none ∧ fails = true ∨
      ∃ m', slot fails m k = some (m', (val? m k).isNone) ∧ Ok m' ∧
        ∀ k', val? m' k' = if k' = k then some ((val? m k).getD 0) else val? m k' := by
  rw [slot]
  cases hval : val? m k with
  | some v =>
    refine Or.inr ⟨m, rfl, h, fun k' => ?_⟩
    split_ifs with hk
    · rw [hk, hval]
      rfl
    · rfl
  | none =>
    rw [if_neg (by simp)]
    split_ifs with hfails
    · exact Or.inl ⟨rfl, hfails.2⟩
    · obtain ⟨hok, hfind⟩ := h.put 256 (by decide) (k, (0 : V))
      refine Or.inr ⟨_, rfl, hok, fun k' => ?_⟩
      rw [val?, hfind]
      split_ifs with hk
      · rfl
      · rfl

/-- **A store.** -/
theorem Ok.store {m : TripleMap V} (h : Ok m) {k : Triple} (hk : (val? m k).isSome) (v : V) :
    Ok (store m k v) ∧ ∀ k', val? (store m k v) k' = if k' = k then some v else val? m k' := by
  obtain ⟨v₀, hv₀⟩ := Option.isSome_iff_exists.mp hk
  obtain ⟨r, hr, -⟩ := Option.map_eq_some_iff.mp hv₀
  obtain ⟨hok, hfind⟩ := h.overwrite (r := (k, v)) hr
  refine ⟨hok, fun k' => ?_⟩
  rw [val?, TripleMap.store, hfind]
  split_ifs with hk'
  · rfl
  · rfl

/-- **A search and a store.** The value that is found is the old one, or 0. -/
theorem Ok.slot_store [Zero V] (fails : Bool) {m : TripleMap V} (h : Ok m) (k : Triple) :
    slot fails m k = none ∧ fails = true ∨
      ∃ m', slot fails m k = some (m', (val? m k).isNone) ∧
        (val? m' k).getD 0 = (val? m k).getD 0 ∧
        ∀ v, Ok (TripleMap.store m' k v) ∧
          ∀ k', val? (TripleMap.store m' k v) k' = if k' = k then some v else val? m k' := by
  rcases h.slot_cases fails k with hfail | ⟨m', hslot, hok, hval⟩
  · exact Or.inl hfail
  · have hself : val? m' k = some ((val? m k).getD 0) := by rw [hval, if_pos rfl]
    refine Or.inr ⟨m', hslot, by rw [hself]; rfl, fun v => ?_⟩
    obtain ⟨hstored, hfind⟩ := hok.store (k := k) (by rw [hself]; rfl) v
    refine ⟨hstored, fun k' => ?_⟩
    rw [hfind, hval]
    split_ifs with hk
    · rfl
    · rfl

end TripleMap

end PgWaitTracer
