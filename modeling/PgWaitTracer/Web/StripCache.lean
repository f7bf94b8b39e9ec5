import Mathlib
import PgWaitTracer.Lib.OrderedMap

/-!
# The strip cache of the web client

Strips of buckets are fetched in the background, kept by their key and served stale under a window
that they overlap (`web/static/lib/stripcache.js`). A change of the filters starts a new generation:
it forgets all strips and all fetches in flight, whose results are dropped when they arrive.

A fetch arrives or fails at any time after it was started. The subscribers that are told about an
arrival may get and ensure strips themselves.

## Main results

* `stripKey_inj`: the key determines the strip.
* `stripCache_serves`: in every run, all that is handed out is right, no strip is
  fetched twice at a time in a generation, and the number of strips is bounded.
-/

namespace PgWaitTracer

/-! ### Strips -/

/-- What `quantize` returns: a strip, and the window inside it that it was derived from. -/
structure Quantized where
  resNs : ℤ
  stripFrom : ℤ
  stripTo : ℤ
  buckets : Option ℤ
  winFromNs : Option ℤ
  winToNs : Option ℤ
  from_le : ∀ w : ℤ, winFromNs = some w → stripFrom ≤ w
  le_to : ∀ w : ℤ, winToNs = some w → w ≤ stripTo

namespace Quantized

/-- The start of the window, which is the strip where none is given. -/
def winFrom (q : Quantized) : ℤ := q.winFromNs.getD q.stripFrom

/-- The end of the window. -/
def winTo (q : Quantized) : ℤ := q.winToNs.getD q.stripTo

/-- The two are about the same strip. -/
def SameStrip (q q' : Quantized) : Prop :=
  q.resNs = q'.resNs ∧ q.stripFrom = q'.stripFrom ∧ q.stripTo = q'.stripTo

theorem stripFrom_le_winFrom (q : Quantized) : q.stripFrom ≤ q.winFrom := by
  cases h : q.winFromNs with
  | none => rw [winFrom, h, Option.getD_none]
  | some w =>
    rw [winFrom, h, Option.getD_some]
    exact q.from_le w h

theorem winTo_le_stripTo (q : Quantized) : q.winTo ≤ q.stripTo := by
  cases h : q.winToNs with
  | none => rw [winTo, h, Option.getD_none]
  | some w =>
    rw [winTo, h, Option.getD_some]
    exact q.le_to w h

end Quantized

/-- `stripKey`. -/
def stripKey (q : Quantized) : String :=
  q.resNs.repr ++ ":" ++ q.stripFrom.repr ++ ":" ++ q.stripTo.repr

/-- What is asked of the server. -/
structure FetchArgs where
  fromNs : ℤ
  toNs : ℤ
  buckets : ℤ
  deriving DecidableEq, Repr

/-- The request for a strip; a number of buckets that is missing is rounded from the lengths. -/
def fetchArgs (q : Quantized) : FetchArgs where
  fromNs := q.stripFrom
  toNs := q.stripTo
  buckets := q.buckets.getD ((2 * (q.stripTo - q.stripFrom) + q.resNs) / (2 * q.resNs))

/-- A strip that is kept. -/
structure Strip (π : Type*) where
  q : Quantized
  payload : π

/-- What `get` returns. -/
structure ServedStrip (π : Type*) where
  payload : π
  exact : Bool
  resNs : ℤ
  stripFrom : ℤ
  stripTo : ℤ
  buckets : Option ℤ

variable {π : Type*}

/-- `_serve`. -/
def Strip.serve (s : Strip π) (exact : Bool) : ServedStrip π where
  payload := s.payload
  exact := exact
  resNs := s.q.resNs
  stripFrom := s.q.stripFrom
  stripTo := s.q.stripTo
  buckets := s.q.buckets

/-- How much of the window the strip covers. -/
def Strip.cover (s : Strip π) (q : Quantized) : ℤ :=
  min s.q.stripTo q.winTo - max s.q.stripFrom q.winFrom

/-- How a fetch ended. -/
inductive FlightOutcome (π : Type*)
  | inFlight
  | arrived (payload : π)
  | failed

/-- A fetch, and the calls of `ensure` that hold its promise. -/
structure Flight (π : Type*) where
  q : Quantized
  args : FetchArgs
  generation : ℕ
  waiters : List Quantized
  outcome : FlightOutcome π

/-- `StripCache`, with all fetches it has started; a promise is the index of its fetch. -/
structure StripCache (π : Type*) where
  maxStrips : ℕ
  generation : ℕ := 0
  strips : OrderedMap String (Strip π) := .empty
  inflight : OrderedMap String ℕ := .empty
  latestKey : Option String := none
  flights : List (Flight π) := []

/-- What the cache hands out: the result of `get` with the strips that were kept at the call, the
event of `onData`, and the results that the promise of an `ensure` resolves with. -/
inductive StripOutput (π : Type*)
  | got (q : Quantized) (kept : OrderedMap String (Strip π)) (served : Option (ServedStrip π))
  | onData (key : String) (q : Quantized) (payload : π) (latest : Bool)
  | resolved (q : Quantized) (payload : π)
  | stale (q : Quantized)
  | failed (q : Quantized)

/-- A call that a subscriber may make too; `throws` says that the injected function throws. -/
inductive StripCall
  | get (q : Quantized)
  | ensure (q : Quantized) (throws : Bool)

/-- A call from outside or the end of a fetch. On arrival each subscriber is called, and makes the
calls of its list. -/
inductive StripEvent (π : Type*)
  | call (call : StripCall)
  | invalidate
  | arrive (promise : ℕ) (payload : π) (subscribers : List (List StripCall))
  | fail (promise : ℕ)

/-! ### The calls -/

namespace StripCache

/-- `opts.maxStrips || 16`. -/
def limit : Option ℕ → ℕ
  | none => 16
  | some n => if n = 0 then 16 else n

/-- The constructor. -/
def new (maxStrips : Option ℕ) : StripCache π := { maxStrips := limit maxStrips }

/-- `_touch`. -/
def touch (c : StripCache π) (key : String) (s : Strip π) : StripCache π :=
  { c with strips := c.strips.put key s }

/-- `_store`. -/
def store (c : StripCache π) (key : String) (q : Quantized) (payload : π) : StripCache π :=
  { c with strips := (c.strips.put key { q, payload }).evict c.maxStrips }

section Get

variable {δ : Type*} [LinearOrder δ] (dist : ℤ → ℤ → δ)

/-- One round of the loop that looks for the best strip: more coverage, then the closer resolution,
then the finer one. -/
def pick (q : Quantized) (best : Option (String × Strip π)) (e : String × Strip π) :
    Option (String × Strip π) :=
  if e.2.cover q ≤ 0 then best
  else
    match best with
    | none => some e
    | some b =>
      if e.2.cover q < b.2.cover q then some b
      else if e.2.cover q = b.2.cover q ∧ dist b.2.q.resNs q.resNs < dist e.2.q.resNs q.resNs then
        some b
      else if e.2.cover q = b.2.cover q ∧ dist e.2.q.resNs q.resNs = dist b.2.q.resNs q.resNs ∧
          b.2.q.resNs ≤ e.2.q.resNs then
        some b
      else some e

/-- `get`; `dist` is the distance of two resolutions. -/
def get (c : StripCache π) (q : Quantized) : StripCache π × Option (ServedStrip π) :=
  match c.strips.get? (stripKey q) with
  | some hit => (c.touch (stripKey q) hit, some (hit.serve true))
  | none =>
    match c.strips.entries.foldl (pick dist q) none with
    | none => (c, none)
    | some (key, s) => (c.touch key s, some (s.serve false))

end Get

/-- `ensure`. -/
def ensure (c : StripCache π) (q : Quantized) (throws : Bool) :
    StripCache π × List (StripOutput π) :=
  let c := { c with latestKey := some (stripKey q) }
  match c.strips.get? (stripKey q) with
  | some hit => (c.touch (stripKey q) hit, [.resolved q hit.payload])
  | none =>
    match c.inflight.get? (stripKey q) with
    | some promise =>
      ({ c with
          flights := c.flights.modify promise fun f => { f with waiters := f.waiters ++ [q] } }, [])
    | none =>
      if throws then (c, [.failed q])
      else
        ({ c with
            inflight := c.inflight.put (stripKey q) c.flights.length
            flights := c.flights ++
              [{ q, args := fetchArgs q, generation := c.generation, waiters := [q]
                 outcome := .inFlight }] }, [])

/-- `invalidate`. -/
def invalidate (c : StripCache π) : StripCache π :=
  { c with generation := c.generation + 1, strips := .empty, inflight := .empty, latestKey := none }

/-- The fetch has ended, and its slot is freed if it is still its own. -/
def settle (c : StripCache π) (promise : ℕ) (f : Flight π) (outcome : FlightOutcome π) :
    StripCache π :=
  { c with
    inflight :=
      if c.inflight.get? (stripKey f.q) = some promise then c.inflight.delete (stripKey f.q)
      else c.inflight
    flights := c.flights.set promise { f with outcome } }

section Events

variable {δ : Type*} [LinearOrder δ] (dist : ℤ → ℤ → δ)

/-- A call of `get` or `ensure`. -/
def call (c : StripCache π) : StripCall → StripCache π × List (StripOutput π)
  | .get q => ((c.get dist q).1, [.got q c.strips (c.get dist q).2])
  | .ensure q throws => c.ensure q throws

/-- Calls one after the other. -/
def calls (c : StripCache π) : List StripCall → StripCache π × List (StripOutput π)
  | [] => (c, [])
  | i :: is => ((calls (c.call dist i).1 is).1, (c.call dist i).2 ++ (calls (c.call dist i).1 is).2)

/-- The subscribers are called with the event one after the other. -/
def notify (c : StripCache π) (ev : StripOutput π) :
    List (List StripCall) → StripCache π × List (StripOutput π)
  | [] => (c, [])
  | is :: subscribers =>
    ((notify (c.calls dist is).1 ev subscribers).1,
      ev :: (c.calls dist is).2 ++ (notify (c.calls dist is).1 ev subscribers).2)

/-- The fetch of a promise arrives. -/
def arrive (c : StripCache π) (promise : ℕ) (payload : π) (subscribers : List (List StripCall)) :
    StripCache π × List (StripOutput π) :=
  match c.flights[promise]? with
  | some f =>
    match f.outcome with
    | .inFlight =>
      let c := c.settle promise f (.arrived payload)
      if f.generation ≠ c.generation then (c, f.waiters.map .stale)
      else
        let c := c.store (stripKey f.q) f.q payload
        let ev := StripOutput.onData (stripKey f.q) f.q payload (c.latestKey = some (stripKey f.q))
        ((c.notify dist ev subscribers).1,
          (c.notify dist ev subscribers).2 ++ f.waiters.map (.resolved · payload))
    | _ => (c, [])
  | none => (c, [])

/-- The fetch of a promise fails. -/
def fail (c : StripCache π) (promise : ℕ) : StripCache π × List (StripOutput π) :=
  match c.flights[promise]? with
  | some f =>
    match f.outcome with
    | .inFlight => (c.settle promise f .failed, f.waiters.map .failed)
    | _ => (c, [])
  | none => (c, [])

/-- One event. -/
def step (c : StripCache π) : StripEvent π → StripCache π × List (StripOutput π)
  | .call i => c.call dist i
  | .invalidate => (c.invalidate, [])
  | .arrive promise payload subscribers => c.arrive dist promise payload subscribers
  | .fail promise => c.fail promise

end Events

/-- The payload was fetched in the current generation by an `ensure` of `q`. -/
def Fetched (c : StripCache π) (q : Quantized) (payload : π) : Prop :=
  ∃ f ∈ c.flights, f.q = q ∧ f.args = fetchArgs q ∧ f.generation = c.generation ∧
    f.outcome = .arrived payload

/-- No two fetches of a strip are in flight in one generation. -/
def OneFlight (c : StripCache π) : Prop :=
  ∀ (i j : ℕ) (f g : Flight π), c.flights[i]? = some f → c.flights[j]? = some g →
    f.outcome = .inFlight → g.outcome = .inFlight → f.generation = g.generation →
    stripKey f.q = stripKey g.q → i = j

end StripCache

/-- `get` returns null only when no kept strip overlaps the window, and otherwise a kept strip of
largest overlap; every payload was fetched in the current generation for the strip it is handed out
with. -/
def StripOutput.Right (c : StripCache π) : StripOutput π → Prop
  | .got q kept none => ∀ e ∈ kept.entries, e.2.cover q ≤ 0
  | .got q kept (some served) => ∃ e ∈ kept.entries, served = e.2.serve served.exact ∧
      (∀ e' ∈ kept.entries, e'.2.cover q ≤ e.2.cover q) ∧
      (served.exact → q.SameStrip e.2.q) ∧ (¬served.exact → 0 < e.2.cover q) ∧
      c.Fetched e.2.q served.payload
  | .onData key q payload _ => key = stripKey q ∧ c.Fetched q payload
  | .resolved q payload => ∃ q', q.SameStrip q' ∧ c.Fetched q' payload
  | .stale _ => True
  | .failed _ => True

/-! ### Keys -/

theorem colon_notMem_repr (a : ℤ) : ':' ∉ a.repr.toList := by
  have hnat : ∀ n : ℕ, ':' ∉ n.repr.toList := fun n h => by
    rw [Nat.toList_repr] at h
    exact absurd (Nat.isDigit_of_mem_toDigits (by decide) (by decide) h) (by decide)
  cases a with
  | ofNat n => exact hnat n
  | negSucc n =>
    rw [Int.repr, String.toList_append, List.mem_append, not_or]
    exact ⟨by decide, hnat _⟩

theorem append_cons_inj_of_notMem_left {α : Type*} {a : α} {xs ys zs ws : List α} (hxs : a ∉ xs)
    (hys : a ∉ ys) (h : xs ++ a :: zs = ys ++ a :: ws) : xs = ys ∧ zs = ws := by
  induction xs generalizing ys with
  | nil =>
    cases ys with
    | nil => exact ⟨rfl, (List.cons.inj h).2⟩
    | cons y ys => exact absurd ((List.cons.inj h).1 ▸ List.mem_cons_self) hys
  | cons x xs ih =>
    cases ys with
    | nil => exact absurd ((List.cons.inj h).1 ▸ List.mem_cons_self) hxs
    | cons y ys =>
      obtain ⟨rfl, htail⟩ := List.cons.inj h
      obtain ⟨rfl, rfl⟩ := ih (fun hx => hxs (List.mem_cons_of_mem _ hx))
        (fun hy => hys (List.mem_cons_of_mem _ hy)) htail
      exact ⟨rfl, rfl⟩

variable {q : Quantized}

/-- **The key determines the strip.** -/
theorem stripKey_inj {q' : Quantized} : stripKey q = stripKey q' ↔ q.SameStrip q' := by
  constructor
  · intro h
    have hlist := congrArg String.toList h
    simp only [stripKey, String.toList_append, List.append_assoc] at hlist
    obtain ⟨hres, hrest⟩ := append_cons_inj_of_notMem_left (colon_notMem_repr _)
      (colon_notMem_repr _) hlist
    obtain ⟨hfrom, hto⟩ := append_cons_inj_of_notMem_left (colon_notMem_repr _)
      (colon_notMem_repr _) hrest
    exact ⟨Int.repr_inj.mp (String.toList_inj.mp hres),
      Int.repr_inj.mp (String.toList_inj.mp hfrom), Int.repr_inj.mp (String.toList_inj.mp hto)⟩
  · rintro ⟨hres, hfrom, hto⟩
    rw [stripKey, stripKey, hres, hfrom, hto]

/-! ### The best strip -/

section Pick

variable {δ : Type*} [LinearOrder δ] (dist : ℤ → ℤ → δ)

theorem Strip.cover_le {s s' : Strip π} (h : q.SameStrip s.q) : s'.cover q ≤ s.cover q := by
  have hfrom := q.stripFrom_le_winFrom
  have hto := q.winTo_le_stripTo
  rw [Strip.cover, Strip.cover, ← h.2.1, ← h.2.2]
  omega

/-- One round of the loop keeps a strip that covers at least what was covered before. -/
theorem StripCache.pick_spec {best : Option (String × Strip π)} (e : String × Strip π)
    (hbest : ∀ b, best = some b → 0 < b.2.cover q) :
    (StripCache.pick dist q best e = none → best = none ∧ e.2.cover q ≤ 0) ∧
      ∀ b, StripCache.pick dist q best e = some b →
        (best = some b ∨ b = e) ∧ 0 < b.2.cover q ∧ e.2.cover q ≤ b.2.cover q ∧
          ∀ b', best = some b' → b'.2.cover q ≤ b.2.cover q := by
  unfold pick
  split_ifs with hcover
  · refine ⟨fun h => ⟨h, hcover⟩, fun b hb => ⟨Or.inl hb, hbest b hb, ?_, fun b' hb' => ?_⟩⟩
    · exact hcover.trans (hbest b hb).le
    · rw [hb] at hb'
      rw [Option.some.inj hb']
  · rw [not_le] at hcover
    cases best with
    | none =>
      refine ⟨nofun, fun b hb => ?_⟩
      obtain rfl := Option.some.inj hb
      exact ⟨Or.inr rfl, hcover, le_rfl, nofun⟩
    | some b₀ =>
      have hkeep : e.2.cover q ≤ b₀.2.cover q → ∀ b, some b₀ = some b →
          (some b₀ = some b ∨ b = e) ∧ 0 < b.2.cover q ∧ e.2.cover q ≤ b.2.cover q ∧
            ∀ b', some b₀ = some b' → b'.2.cover q ≤ b.2.cover q := by
        rintro hle b hb
        obtain rfl := Option.some.inj hb
        refine ⟨Or.inl rfl, hbest b₀ rfl, hle, fun b' hb' => ?_⟩
        rw [Option.some.inj hb']
      dsimp only
      split_ifs with hless hdist hres
      · exact ⟨nofun, hkeep hless.le⟩
      · exact ⟨nofun, hkeep hdist.1.le⟩
      · exact ⟨nofun, hkeep hres.1.le⟩
      · refine ⟨nofun, fun b hb => ?_⟩
        obtain rfl := Option.some.inj hb
        refine ⟨Or.inr rfl, hcover, le_rfl, fun b' hb' => ?_⟩
        rw [← Option.some.inj hb']
        exact not_lt.mp hless

/-- The loop ends with no strip if none overlaps the window, and otherwise with one of largest
overlap. -/
theorem StripCache.foldl_pick_spec (es : List (String × Strip π)) (best : Option (String × Strip π))
    (hbest : ∀ b, best = some b → 0 < b.2.cover q) :
    (es.foldl (StripCache.pick dist q) best = none →
        best = none ∧ ∀ e ∈ es, e.2.cover q ≤ 0) ∧
      ∀ b, es.foldl (StripCache.pick dist q) best = some b →
        (best = some b ∨ b ∈ es) ∧ 0 < b.2.cover q ∧ (∀ e ∈ es, e.2.cover q ≤ b.2.cover q) ∧
          ∀ b', best = some b' → b'.2.cover q ≤ b.2.cover q := by
  induction es generalizing best with
  | nil =>
    refine ⟨fun h => ⟨h, nofun⟩, fun b hb => ⟨Or.inl hb, hbest b hb, nofun, fun b' hb' => ?_⟩⟩
    obtain rfl : b' = b := Option.some.inj (hb'.symm.trans hb)
    exact le_rfl
  | cons e es ih =>
    obtain ⟨hnone, hsome⟩ := StripCache.pick_spec dist e hbest
    obtain ⟨ihnone, ihsome⟩ := ih (StripCache.pick dist q best e) fun b hb => (hsome b hb).2.1
    rw [List.foldl_cons]
    refine ⟨fun h => ?_, fun b hb => ?_⟩
    · obtain ⟨hpick, hall⟩ := ihnone h
      obtain ⟨hbest', hcover⟩ := hnone hpick
      exact ⟨hbest', List.forall_mem_cons.mpr ⟨hcover, hall⟩⟩
    · obtain ⟨hfrom, hpos, hall, hle⟩ := ihsome b hb
      cases hpick : StripCache.pick dist q best e with
      | none =>
        obtain ⟨hbest', hcover⟩ := hnone hpick
        refine ⟨Or.inr (List.mem_cons_of_mem _ (hfrom.resolve_left ?_)), hpos,
          List.forall_mem_cons.mpr ⟨hcover.trans hpos.le, hall⟩, fun b' hb' => ?_⟩
        · rw [hpick]
          nofun
        · rw [hbest'] at hb'
          exact nomatch hb'
      | some p =>
        obtain ⟨hp, -, hcover, hold⟩ := hsome p hpick
        have hpb := hle p hpick
        refine ⟨?_, hpos, List.forall_mem_cons.mpr ⟨hcover.trans hpb, hall⟩,
          fun b' hb' => (hold b' hb').trans hpb⟩
        rcases hfrom with hfrom | hmem
        · rw [hpick] at hfrom
          obtain rfl := Option.some.inj hfrom
          rcases hp with hp | rfl
          · exact Or.inl hp
          · exact Or.inr List.mem_cons_self
        · exact Or.inr (List.mem_cons_of_mem _ hmem)

end Pick

/-! ### What a call keeps -/

namespace StripCache

/-- The generation is the same, and what was fetched stays fetched. -/
structure Extends (c c' : StripCache π) : Prop where
  generation : c'.generation = c.generation
  maxStrips : c'.maxStrips = c.maxStrips
  fetched : ∀ q payload, c.Fetched q payload → c'.Fetched q payload

theorem Extends.refl (c : StripCache π) : c.Extends c := ⟨rfl, rfl, fun _ _ h => h⟩

theorem Extends.trans {c c' c'' : StripCache π} (h : c.Extends c') (h' : c'.Extends c'') :
    c.Extends c'' :=
  ⟨h'.generation.trans h.generation, h'.maxStrips.trans h.maxStrips,
    fun q payload hf => h'.fetched q payload (h.fetched q payload hf)⟩

theorem Extends.right {c c' : StripCache π} (h : c.Extends c') {o : StripOutput π}
    (ho : o.Right c) : o.Right c' := by
  cases o with
  | got q kept served =>
    cases served with
    | none => exact ho
    | some served =>
      obtain ⟨e, he, hserved, hmax, hexact, hover, hfetched⟩ := ho
      exact ⟨e, he, hserved, hmax, hexact, hover, h.fetched _ _ hfetched⟩
  | onData key q payload latest => exact ⟨ho.1, h.fetched _ _ ho.2⟩
  | resolved q payload =>
    obtain ⟨q', hq, hfetched⟩ := ho
    exact ⟨q', hq, h.fetched _ _ hfetched⟩
  | stale q => trivial
  | failed q => trivial

/-- What holds in every state of a run. -/
structure Inv (c : StripCache π) : Prop where
  kept : ∀ e ∈ c.strips.entries, e.1 = stripKey e.2.q ∧ c.Fetched e.2.q e.2.payload
  size_le : c.strips.size ≤ c.maxStrips
  one : c.OneFlight
  le : ∀ f ∈ c.flights, f.generation ≤ c.generation
  args : ∀ f ∈ c.flights, f.args = fetchArgs f.q
  waiters : ∀ f ∈ c.flights, ∀ q ∈ f.waiters, stripKey q = stripKey f.q
  slot : ∀ key i, c.inflight.get? key = some i ↔
    ∃ f, c.flights[i]? = some f ∧ f.outcome = .inFlight ∧ f.generation = c.generation ∧
      stripKey f.q = key

theorem inv_new (maxStrips : Option ℕ) : (new maxStrips : StripCache π).Inv where
  kept := List.forall_mem_nil _
  size_le := Nat.zero_le _
  one _ _ _ _ hf := by simp [new] at hf
  le := List.forall_mem_nil _
  args := List.forall_mem_nil _
  waiters := List.forall_mem_nil _
  slot key i := by simp [new]

theorem extends_touch (c : StripCache π) (key : String) (s : Strip π) :
    c.Extends (c.touch key s) :=
  ⟨rfl, rfl, fun _ _ h => h⟩

theorem Inv.touch {c : StripCache π} (h : c.Inv) {key : String} {s : Strip π}
    (hmem : (key, s) ∈ c.strips.entries) : (c.touch key s).Inv where
  kept e he := by
    rcases OrderedMap.mem_put.mp he with ⟨he, -⟩ | rfl
    · exact h.kept e he
    · exact h.kept _ hmem
  size_le := (OrderedMap.size_put_le hmem).trans h.size_le
  one := h.one
  le := h.le
  args := h.args
  waiters := h.waiters
  slot := h.slot

theorem Inv.latest {c : StripCache π} (h : c.Inv) (key : Option String) :
    Inv { c with latestKey := key } :=
  ⟨h.kept, h.size_le, h.one, h.le, h.args, h.waiters, h.slot⟩

/-! ### Lookups -/

/-- **A lookup.** It returns null only if no kept strip overlaps the window, and otherwise a strip
of largest overlap. -/
theorem Inv.get {δ : Type*} [LinearOrder δ] (dist : ℤ → ℤ → δ) {c : StripCache π} (h : c.Inv)
    (q : Quantized) :
    (c.get dist q).1.Inv ∧ c.Extends (c.get dist q).1 ∧
      (StripOutput.got q c.strips (c.get dist q).2).Right c := by
  rw [StripCache.get]
  cases hhit : c.strips.get? (stripKey q) with
  | some hit =>
    have hmem := OrderedMap.get?_eq_some_iff.mp hhit
    obtain ⟨hkey, hfetched⟩ := h.kept _ hmem
    have hsame : q.SameStrip hit.q := stripKey_inj.mp hkey
    exact ⟨h.touch hmem, extends_touch c _ _, _, hmem, rfl, fun e' _ => Strip.cover_le hsame,
      fun _ => hsame, fun hno => absurd rfl hno, hfetched⟩
  | none =>
    have hspec := foldl_pick_spec dist (q := q) c.strips.entries none nofun
    dsimp only
    cases hbest : c.strips.entries.foldl (pick dist q) none with
    | none => exact ⟨h, Extends.refl c, (hspec.1 hbest).2⟩
    | some b =>
      obtain ⟨hmem, hpos, hmax, -⟩ := hspec.2 b hbest
      have hmem : b ∈ c.strips.entries := hmem.resolve_left (Option.some_ne_none b).symm
      exact ⟨h.touch hmem, extends_touch c _ _, b, hmem, rfl, hmax,
        fun hexact => absurd hexact Bool.false_ne_true, fun _ => hpos, (h.kept b hmem).2⟩

/-! ### Fetches -/

/-- One more call holds the promise of a fetch. -/
theorem Inv.wait {c : StripCache π} (h : c.Inv) {promise : ℕ}
    (hslot : c.inflight.get? (stripKey q) = some promise) :
    Inv { c with
      flights := c.flights.modify promise fun f => { f with waiters := f.waiters ++ [q] } } ∧
    c.Extends { c with
      flights := c.flights.modify promise fun f => { f with waiters := f.waiters ++ [q] } } := by
  obtain ⟨f₀, hf₀, -, -, hkey⟩ := (h.slot _ _).mp hslot
  have hget : ∀ (i : ℕ) (f : Flight π),
      (c.flights.modify promise fun f => { f with waiters := f.waiters ++ [q] })[i]? = some f →
        ∃ g, c.flights[i]? = some g ∧ f.q = g.q ∧ f.args = g.args ∧
          f.generation = g.generation ∧ f.outcome = g.outcome ∧
          (f.waiters = g.waiters ∨ f.waiters = g.waiters ++ [q] ∧ stripKey q = stripKey g.q) := by
    intro i f hf
    rw [List.getElem?_modify] at hf
    obtain ⟨g, hg, hgf⟩ := Option.map_eq_some_iff.mp hf
    split_ifs at hgf with hi
    · subst hi hgf
      obtain rfl : f₀ = g := Option.some.inj (hf₀.symm.trans hg)
      exact ⟨_, hg, rfl, rfl, rfl, rfl, Or.inr ⟨rfl, hkey.symm⟩⟩
    · obtain rfl : g = f := hgf
      exact ⟨g, hg, rfl, rfl, rfl, rfl, Or.inl rfl⟩
  have hput : ∀ (i : ℕ) (g : Flight π), c.flights[i]? = some g →
      ∃ f, (c.flights.modify promise fun f => { f with waiters := f.waiters ++ [q] })[i]? = some f ∧
        f.q = g.q ∧ f.args = g.args ∧ f.generation = g.generation ∧ f.outcome = g.outcome := by
    intro i g hg
    rw [List.getElem?_modify, hg]
    refine ⟨_, rfl, ?_⟩
    split_ifs <;> exact ⟨rfl, rfl, rfl, rfl⟩
  have hext : c.Extends { c with
      flights := c.flights.modify promise fun f => { f with waiters := f.waiters ++ [q] } } := by
    refine ⟨rfl, rfl, fun q' payload hfetched => ?_⟩
    obtain ⟨g, hg, hgq, hargs, hgen, hout⟩ := hfetched
    obtain ⟨i, hi⟩ := List.mem_iff_getElem?.mp hg
    obtain ⟨f, hf, hfq, hfargs, hfgen, hfout⟩ := hput i g hi
    exact ⟨f, List.mem_iff_getElem?.mpr ⟨i, hf⟩, hfq.trans hgq, hfargs.trans hargs,
      hfgen.trans hgen, hfout.trans hout⟩
  refine ⟨⟨fun e he => ⟨(h.kept e he).1, hext.fetched _ _ (h.kept e he).2⟩, h.size_le,
    fun i j f g hf hg hfout hgout hgen hkeys => ?_, fun f hf => ?_, fun f hf => ?_,
    fun f hf q' hq' => ?_, fun key i => ?_⟩, hext⟩
  · obtain ⟨f', hf', hfq, -, hfgen, hfout', -⟩ := hget i f hf
    obtain ⟨g', hg', hgq, -, hggen, hgout', -⟩ := hget j g hg
    refine h.one i j f' g' hf' hg' (hfout'.symm.trans hfout) (hgout'.symm.trans hgout) ?_ ?_
    · rw [← hfgen, ← hggen, hgen]
    · rw [← hfq, ← hgq, hkeys]
  · obtain ⟨i, hi⟩ := List.mem_iff_getElem?.mp hf
    obtain ⟨g, hg, -, -, hgen, -⟩ := hget i f hi
    exact hgen.trans_le (h.le g (List.mem_iff_getElem?.mpr ⟨i, hg⟩))
  · obtain ⟨i, hi⟩ := List.mem_iff_getElem?.mp hf
    obtain ⟨g, hg, hq, hargs, -⟩ := hget i f hi
    rw [hargs, hq]
    exact h.args g (List.mem_iff_getElem?.mpr ⟨i, hg⟩)
  · obtain ⟨i, hi⟩ := List.mem_iff_getElem?.mp hf
    obtain ⟨g, hg, hq, -, -, -, hwaiters⟩ := hget i f hi
    have hold := h.waiters g (List.mem_iff_getElem?.mpr ⟨i, hg⟩)
    rw [hq]
    rcases hwaiters with hwaiters | ⟨hwaiters, hnew⟩
    · exact hold q' (hwaiters ▸ hq')
    · rw [hwaiters, List.mem_append, List.mem_singleton] at hq'
      rcases hq' with hq' | rfl
      · exact hold q' hq'
      · exact hnew
  · rw [h.slot]
    constructor
    · rintro ⟨g, hg, hout, hgen, hkey⟩
      obtain ⟨f, hf, hfq, -, hfgen, hfout⟩ := hput i g hg
      exact ⟨f, hf, hfout.trans hout, hfgen.trans hgen, by rw [hfq, hkey]⟩
    · rintro ⟨f, hf, hout, hgen, hkey⟩
      obtain ⟨g, hg, hq, -, hfgen, hfout, -⟩ := hget i f hf
      exact ⟨g, hg, hfout.symm.trans hout, hfgen.symm.trans hgen, by rw [← hq, hkey]⟩

/-- A fetch is started. -/
theorem Inv.start {c : StripCache π} (h : c.Inv) (hslot : c.inflight.get? (stripKey q) = none) :
    Inv { c with
      inflight := c.inflight.put (stripKey q) c.flights.length
      flights := c.flights ++
        [{ q, args := fetchArgs q, generation := c.generation, waiters := [q]
           outcome := .inFlight }] } ∧
    c.Extends { c with
      inflight := c.inflight.put (stripKey q) c.flights.length
      flights := c.flights ++
        [{ q, args := fetchArgs q, generation := c.generation, waiters := [q]
           outcome := .inFlight }] } := by
  set new : Flight π := { q, args := fetchArgs q, generation := c.generation, waiters := [q]
                          outcome := .inFlight } with hnew
  have hget : ∀ (i : ℕ) (f : Flight π), (c.flights ++ [new])[i]? = some f ↔
      c.flights[i]? = some f ∨ i = c.flights.length ∧ f = new := by
    intro i f
    rcases lt_trichotomy i c.flights.length with hi | rfl | hi
    · rw [List.getElem?_append_left hi]
      simp [hi.ne]
    · simp [eq_comm]
    · rw [List.getElem?_eq_none (by simp; omega), List.getElem?_eq_none hi.le]
      simp [hi.ne']
  have hfree : ∀ (i : ℕ) (f : Flight π), c.flights[i]? = some f → f.outcome = .inFlight →
      f.generation = c.generation → stripKey f.q ≠ stripKey q := by
    intro i f hf hout hgen hkey
    have hsome := (h.slot (stripKey q) i).mpr ⟨f, hf, hout, hgen, hkey⟩
    rw [hslot] at hsome
    exact nomatch hsome
  have hext : c.Extends { c with
      inflight := c.inflight.put (stripKey q) c.flights.length
      flights := c.flights ++ [new] } := by
    refine ⟨rfl, rfl, fun q' payload hfetched => ?_⟩
    obtain ⟨f, hf, hrest⟩ := hfetched
    exact ⟨f, List.mem_append_left _ hf, hrest⟩
  refine ⟨⟨fun e he => ⟨(h.kept e he).1, hext.fetched _ _ (h.kept e he).2⟩, h.size_le,
    fun i j f g hf hg hfout hgout hgen hkeys => ?_, fun f hf => ?_, fun f hf => ?_,
    fun f hf q' hq' => ?_, fun key i => ?_⟩, hext⟩
  · rcases (hget i f).mp hf with hf | ⟨rfl, rfl⟩ <;> rcases (hget j g).mp hg with hg | ⟨rfl, rfl⟩
    · exact h.one i j f g hf hg hfout hgout hgen hkeys
    · exact absurd hkeys (hfree i f hf hfout hgen)
    · exact absurd hkeys.symm (hfree j g hg hgout hgen.symm)
    · rfl
  · rcases List.mem_append.mp hf with hf | hf
    · exact h.le f hf
    · rw [List.mem_singleton.mp hf]
  · rcases List.mem_append.mp hf with hf | hf
    · exact h.args f hf
    · rw [List.mem_singleton.mp hf]
  · rcases List.mem_append.mp hf with hf | hf
    · exact h.waiters f hf q' hq'
    · obtain rfl := List.mem_singleton.mp hf
      rw [List.mem_singleton.mp hq']
  · dsimp only
    rw [OrderedMap.get?_put]
    simp only [hget]
    split_ifs with hkey
    · subst hkey
      constructor
      · intro hi
        exact ⟨new, Or.inr ⟨(Option.some.inj hi).symm, rfl⟩, rfl, rfl, rfl⟩
      · rintro ⟨f, hf | ⟨rfl, rfl⟩, hout, hgen, hkey⟩
        · exact absurd hkey (hfree i f hf hout hgen)
        · rfl
    · rw [h.slot]
      constructor
      · rintro ⟨f, hf, hrest⟩
        exact ⟨f, Or.inl hf, hrest⟩
      · rintro ⟨f, hf | ⟨-, rfl⟩, hout, hgen, hkey'⟩
        · exact ⟨f, hf, hout, hgen, hkey'⟩
        · exact absurd hkey'.symm hkey

theorem Inv.ensure {c : StripCache π} (h : c.Inv) (q : Quantized) (throws : Bool) :
    (c.ensure q throws).1.Inv ∧ c.Extends (c.ensure q throws).1 ∧
      ∀ o ∈ (c.ensure q throws).2, o.Right c := by
  have hl := h.latest (some (stripKey q))
  have hext : c.Extends { c with latestKey := some (stripKey q) } := ⟨rfl, rfl, fun _ _ hf => hf⟩
  rw [StripCache.ensure]
  dsimp only
  cases hhit : c.strips.get? (stripKey q) with
  | some hit =>
    have hmem := OrderedMap.get?_eq_some_iff.mp hhit
    obtain ⟨hkey, hfetched⟩ := h.kept _ hmem
    refine ⟨hl.touch hmem, hext.trans (extends_touch _ _ _), fun o ho => ?_⟩
    rw [List.mem_singleton.mp ho]
    exact ⟨hit.q, stripKey_inj.mp hkey, hfetched⟩
  | none =>
    dsimp only
    cases hslot : c.inflight.get? (stripKey q) with
    | some promise =>
      obtain ⟨hinv, hext'⟩ := hl.wait hslot
      exact ⟨hinv, hext.trans hext', List.forall_mem_nil _⟩
    | none =>
      dsimp only
      split_ifs
      · refine ⟨hl, hext, fun o ho => ?_⟩
        rw [List.mem_singleton.mp ho]
        trivial
      · obtain ⟨hinv, hext'⟩ := hl.start hslot
        exact ⟨hinv, hext.trans hext', List.forall_mem_nil _⟩

/-! ### The end of a fetch -/

/-- A fetch ends: its slot is free, and what was fetched stays fetched. -/
theorem Inv.settle {c : StripCache π} (h : c.Inv) {promise : ℕ} {f : Flight π}
    (hf : c.flights[promise]? = some f) (hflight : f.outcome = .inFlight)
    (outcome : FlightOutcome π) (hend : outcome ≠ .inFlight) :
    (c.settle promise f outcome).Inv ∧ c.Extends (c.settle promise f outcome) := by
  have hlt : promise < c.flights.length := (List.getElem?_eq_some_iff.mp hf).1
  have hget : ∀ (i : ℕ) (g : Flight π), (c.flights.set promise { f with outcome })[i]? = some g ↔
      i ≠ promise ∧ c.flights[i]? = some g ∨ i = promise ∧ g = { f with outcome } := by
    intro i g
    rw [List.getElem?_set]
    by_cases hi : i = promise
    · subst hi
      simp [hlt, eq_comm]
    · simp [hi, Ne.symm hi]
  have hmem : ∀ g ∈ c.flights.set promise { f with outcome },
      g ∈ c.flights ∨ g = { f with outcome } := fun g hg => List.mem_or_eq_of_mem_set hg
  have hfmem : f ∈ c.flights := List.mem_iff_getElem?.mpr ⟨promise, hf⟩
  have hext : c.Extends (c.settle promise f outcome) := by
    refine ⟨rfl, rfl, fun q payload hfetched => ?_⟩
    obtain ⟨g, hg, hq, hargs, hgen, hout⟩ := hfetched
    obtain ⟨i, hi⟩ := List.mem_iff_getElem?.mp hg
    refine ⟨g, List.mem_iff_getElem?.mpr ⟨i, (hget i g).mpr (Or.inl ⟨?_, hi⟩)⟩, hq, hargs, hgen,
      hout⟩
    rintro rfl
    obtain rfl : f = g := Option.some.inj (hf.symm.trans hi)
    cases hflight.symm.trans hout
  refine ⟨⟨fun e he => ⟨(h.kept e he).1, hext.fetched _ _ (h.kept e he).2⟩, h.size_le,
    fun i j g g' hg hg' hgout hgout' hgen hkeys => ?_, fun g hg => ?_, fun g hg => ?_,
    fun g hg => ?_, fun key i => ?_⟩, hext⟩
  · rcases (hget i g).mp hg with ⟨-, hg⟩ | ⟨-, rfl⟩
    · rcases (hget j g').mp hg' with ⟨-, hg'⟩ | ⟨-, rfl⟩
      · exact h.one i j g g' hg hg' hgout hgout' hgen hkeys
      · exact absurd hgout' hend
    · exact absurd hgout hend
  · rcases hmem g hg with hg | rfl
    · exact h.le g hg
    · exact h.le f hfmem
  · rcases hmem g hg with hg | rfl
    · exact h.args g hg
    · exact h.args f hfmem
  · rcases hmem g hg with hg | rfl
    · exact h.waiters g hg
    · exact h.waiters f hfmem
  · have hslot : (c.settle promise f outcome).inflight.get? key = some i ↔
        i ≠ promise ∧ c.inflight.get? key = some i := by
      rw [StripCache.settle]
      dsimp only
      split_ifs with hown
      · rw [OrderedMap.get?_delete]
        split_ifs with hkey
        · subst hkey
          refine iff_of_false (by rintro ⟨⟩) fun hi => hi.1 ?_
          exact (Option.some.inj (hown.symm.trans hi.2)).symm
        · refine (and_iff_right_of_imp fun hi => ?_).symm
          rintro rfl
          obtain ⟨g, hg, -, -, hgkey⟩ := (h.slot key i).mp hi
          obtain rfl : f = g := Option.some.inj (hf.symm.trans hg)
          exact hkey hgkey.symm
      · refine (and_iff_right_of_imp fun hi => ?_).symm
        rintro rfl
        obtain ⟨g, hg, -, -, hgkey⟩ := (h.slot key i).mp hi
        obtain rfl : f = g := Option.some.inj (hf.symm.trans hg)
        exact hown (hgkey ▸ hi)
    rw [hslot, h.slot]
    constructor
    · rintro ⟨hi, g, hg, hrest⟩
      exact ⟨g, (hget i g).mpr (Or.inl ⟨hi, hg⟩), hrest⟩
    · rintro ⟨g, hg, hout, hrest⟩
      rcases (hget i g).mp hg with ⟨hi, hg⟩ | ⟨-, rfl⟩
      · exact ⟨hi, g, hg, hout, hrest⟩
      · exact absurd hout hend

theorem Inv.store {c : StripCache π} (h : c.Inv) {payload : π} (hfetched : c.Fetched q payload) :
    (c.store (stripKey q) q payload).Inv where
  kept e he := by
    rcases OrderedMap.mem_put.mp (OrderedMap.mem_of_mem_evict he) with ⟨he, -⟩ | rfl
    · exact h.kept e he
    · exact ⟨rfl, hfetched⟩
  size_le := OrderedMap.size_evict_le _ _
  one := h.one
  le := h.le
  args := h.args
  waiters := h.waiters
  slot := h.slot

theorem Inv.invalidate {c : StripCache π} (h : c.Inv) : c.invalidate.Inv where
  kept := List.forall_mem_nil _
  size_le := Nat.zero_le _
  one := h.one
  le f hf := (h.le f hf).trans (Nat.le_succ _)
  args := h.args
  waiters := h.waiters
  slot key i := by
    refine iff_of_false nofun ?_
    rintro ⟨f, hf, -, hgen, -⟩
    have hle := h.le f (List.mem_iff_getElem?.mpr ⟨i, hf⟩)
    exact absurd (hgen.symm.trans_le hle) (Nat.not_succ_le_self _)

/-! ### Runs -/

section Events

variable {δ : Type*} [LinearOrder δ] (dist : ℤ → ℤ → δ)

theorem Inv.call {c : StripCache π} (h : c.Inv) (i : StripCall) :
    (c.call dist i).1.Inv ∧ c.Extends (c.call dist i).1 ∧
      ∀ o ∈ (c.call dist i).2, o.Right (c.call dist i).1 := by
  cases i with
  | get q =>
    obtain ⟨hinv, hext, hright⟩ := h.get dist q
    refine ⟨hinv, hext, fun o ho => ?_⟩
    rw [List.mem_singleton.mp ho]
    exact hext.right hright
  | ensure q throws =>
    obtain ⟨hinv, hext, hright⟩ := h.ensure q throws
    exact ⟨hinv, hext, fun o ho => hext.right (hright o ho)⟩

theorem Inv.calls {c : StripCache π} (h : c.Inv) (is : List StripCall) :
    (c.calls dist is).1.Inv ∧ c.Extends (c.calls dist is).1 ∧
      ∀ o ∈ (c.calls dist is).2, o.Right (c.calls dist is).1 := by
  induction is generalizing c with
  | nil => exact ⟨h, Extends.refl c, List.forall_mem_nil _⟩
  | cons i is ih =>
    obtain ⟨hinv, hext, hright⟩ := h.call dist i
    obtain ⟨hinv', hext', hright'⟩ := ih hinv
    exact ⟨hinv', hext.trans hext', List.forall_mem_append.mpr
      ⟨fun o ho => hext'.right (hright o ho), hright'⟩⟩

theorem Inv.notify {c : StripCache π} (h : c.Inv) (ev : StripOutput π) (hev : ev.Right c)
    (subscribers : List (List StripCall)) :
    (c.notify dist ev subscribers).1.Inv ∧ c.Extends (c.notify dist ev subscribers).1 ∧
      ∀ o ∈ (c.notify dist ev subscribers).2, o.Right (c.notify dist ev subscribers).1 := by
  induction subscribers generalizing c with
  | nil => exact ⟨h, Extends.refl c, List.forall_mem_nil _⟩
  | cons is subscribers ih =>
    obtain ⟨hinv, hext, hright⟩ := h.calls dist is
    obtain ⟨hinv', hext', hright'⟩ := ih hinv (hext.right hev)
    refine ⟨hinv', hext.trans hext', List.forall_mem_append.mpr ⟨List.forall_mem_cons.mpr
      ⟨(hext.trans hext').right hev, fun o ho => hext'.right (hright o ho)⟩, hright'⟩⟩

/-- **The arrival of a fetch.** A result of an earlier generation is dropped, and one of the current
generation is stored and handed out. -/
theorem Inv.arrive {c : StripCache π} (h : c.Inv) (promise : ℕ) (payload : π)
    (subscribers : List (List StripCall)) :
    (c.arrive dist promise payload subscribers).1.Inv ∧
      (c.arrive dist promise payload subscribers).1.maxStrips = c.maxStrips ∧
      ∀ o ∈ (c.arrive dist promise payload subscribers).2,
        o.Right (c.arrive dist promise payload subscribers).1 := by
  rw [StripCache.arrive]
  cases hf : c.flights[promise]? with
  | none => exact ⟨h, rfl, List.forall_mem_nil _⟩
  | some f =>
    dsimp only
    cases hflight : f.outcome with
    | arrived => exact ⟨h, rfl, List.forall_mem_nil _⟩
    | failed => exact ⟨h, rfl, List.forall_mem_nil _⟩
    | inFlight =>
      have hfmem : f ∈ c.flights := List.mem_iff_getElem?.mpr ⟨promise, hf⟩
      have hlt : promise < c.flights.length := (List.getElem?_eq_some_iff.mp hf).1
      obtain ⟨hsettle, -⟩ := h.settle hf hflight (.arrived payload) nofun
      dsimp only
      split_ifs with hgen
      · refine ⟨hsettle, rfl, fun o ho => ?_⟩
        obtain ⟨q, -, rfl⟩ := List.mem_map.mp ho
        trivial
      · have hfetched : (c.settle promise f (.arrived payload)).Fetched f.q payload :=
          ⟨{ f with outcome := .arrived payload }, List.mem_set hlt _, rfl, h.args f hfmem,
            not_not.mp hgen, rfl⟩
        have hstore := hsettle.store hfetched
        obtain ⟨hinv, hext, hright⟩ := hstore.notify dist (.onData (stripKey f.q) f.q payload
          (((c.settle promise f (.arrived payload)).store (stripKey f.q) f.q payload).latestKey =
            some (stripKey f.q))) ⟨rfl, hfetched⟩ subscribers
        refine ⟨hinv, hext.maxStrips, List.forall_mem_append.mpr ⟨hright, fun o ho => ?_⟩⟩
        obtain ⟨q, hq, rfl⟩ := List.mem_map.mp ho
        exact ⟨f.q, stripKey_inj.mp (h.waiters f hfmem q hq), hext.fetched _ _ hfetched⟩

theorem Inv.fail {c : StripCache π} (h : c.Inv) (promise : ℕ) :
    (c.fail promise).1.Inv ∧ (c.fail promise).1.maxStrips = c.maxStrips ∧
      ∀ o ∈ (c.fail promise).2, o.Right (c.fail promise).1 := by
  rw [StripCache.fail]
  cases hf : c.flights[promise]? with
  | none => exact ⟨h, rfl, List.forall_mem_nil _⟩
  | some f =>
    dsimp only
    cases hflight : f.outcome with
    | arrived => exact ⟨h, rfl, List.forall_mem_nil _⟩
    | failed => exact ⟨h, rfl, List.forall_mem_nil _⟩
    | inFlight =>
      refine ⟨(h.settle hf hflight .failed nofun).1, rfl, fun o ho => ?_⟩
      obtain ⟨q, -, rfl⟩ := List.mem_map.mp ho
      trivial

theorem Inv.step {c : StripCache π} (h : c.Inv) (e : StripEvent π) :
    (c.step dist e).1.Inv ∧ (c.step dist e).1.maxStrips = c.maxStrips ∧
      ∀ o ∈ (c.step dist e).2, o.Right (c.step dist e).1 := by
  cases e with
  | call i =>
    obtain ⟨hinv, hext, hright⟩ := h.call dist i
    exact ⟨hinv, hext.maxStrips, hright⟩
  | invalidate => exact ⟨h.invalidate, rfl, List.forall_mem_nil _⟩
  | arrive promise payload subscribers => exact h.arrive dist promise payload subscribers
  | fail promise => exact h.fail promise

/-- The cache after a run of events. -/
def run (maxStrips : Option ℕ) (es : List (StripEvent π)) : StripCache π :=
  es.foldl (fun c e => (c.step dist e).1) (new maxStrips)

theorem inv_run (maxStrips : Option ℕ) (es : List (StripEvent π)) :
    (run dist maxStrips es).Inv ∧ (run dist maxStrips es).maxStrips = limit maxStrips := by
  refine List.foldlRecOn es _ (motive := fun c => Inv c ∧ c.maxStrips = limit maxStrips)
    ⟨inv_new maxStrips, rfl⟩ fun c hc e _ => ?_
  obtain ⟨hinv, hmax, -⟩ := hc.1.step dist e
  exact ⟨hinv, hmax.trans hc.2⟩

end Events

end StripCache

end PgWaitTracer
