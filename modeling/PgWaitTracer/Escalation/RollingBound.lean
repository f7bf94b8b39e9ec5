import PgWaitTracer.Lib.Run
import PgWaitTracer.Escalation.Budget

/-!
# The rolling-hour bound

Over every run of the escalation engine under a monotone clock in which no window outlives its
armed deadline, the full-fidelity time inside `[t - R, t]` never exceeds the budget, at any
instant `t`.

The engine decides against its ledger, which forgets, merges and clamps windows, while the bound is
about the windows that were really open. `Account` is the part of the engine the argument depends
on; `AccountOk` relates it to the real windows: the ledger bills at least what they spent, from now
on, and what they spend up to the armed deadline stays within the budget.

## Main results

* `spentAt_le_budget`: the bound over every run, at every instant.
-/

namespace PgWaitTracer

open Rolling

/-! ### Accounts -/

/-- The part of the engine that the budget depends on. -/
structure Account where
  active : Bool
  startNs : ℕ
  deadlineNs : ℕ
  budgetNs : ℕ
  unlimited : Bool
  rollingNs : ℕ
  ledger : List Segment

/-- The account of an engine. -/
def Escalation.account (e : Escalation) : Account where
  active := e.active
  startNs := e.windowStartNs
  deadlineNs := e.windowDeadlineNs
  budgetNs := e.budgetNs
  unlimited := e.budgetUnlimited
  rollingNs := e.rollingWindowNs
  ledger := e.ledger

namespace Account

/-- Forget the stale segments. -/
def prune (a : Account) (now : ℕ) : Account :=
  { a with ledger := a.ledger.filter fun sg => now - a.rollingNs < sg.endAt now }

/-- The time billed for the rolling window that ends at `now`. -/
def consumed (a : Account) (now : ℕ) : ℕ :=
  (a.ledger.map (Segment.since (now - a.rollingNs) now)).sum

/-- Move the deadline of a live window on. -/
def extend (a : Account) (deadline : ℕ) : Account :=
  { a with deadlineNs := max a.deadlineNs deadline }

/-- The ledger with room for one more segment. -/
def roomy (l : List Segment) : List Segment :=
  if ledgerMax ≤ l.length then coalesceOldest l else l

/-- Open a window at `boundary` until `deadline`. -/
def openWindow (a : Account) (boundary deadline : ℕ) : Account :=
  { a.prune boundary with
    active := true
    startNs := boundary
    deadlineNs := deadline
    ledger := roomy (a.prune boundary).ledger ++ [⟨boundary, 0⟩] }

/-- Close the live window. -/
def closeWindow (a : Account) (now : ℕ) : Account :=
  { a with active := false, ledger := (closeFirstOpen now a.ledger.reverse).reverse }

end Account

theorem account_consumedNs (e : Escalation) (now : ℕ) :
    (consumedNs e now).1.account = e.account.prune now := by
  rw [consumedNs_ledger]
  rfl

theorem length_roomy_lt (l : List Segment) (h : l.length ≤ ledgerMax) :
    (Account.roomy l).length < ledgerMax := by
  unfold Account.roomy
  split_ifs with hfull
  · have h2 : 2 ≤ l.length := le_trans (by decide) hfull
    have hlen := length_coalesceOldest_lt h2
    omega
  · omega

theorem account_ledgerOpen (e : Escalation) (now : ℕ) (h : e.ledger.length ≤ ledgerMax) :
    (ledgerOpen e now).account =
      { e.account.prune now with
        ledger := Account.roomy (e.account.prune now).ledger ++ [⟨now, 0⟩] } := by
  have hlen : (e.account.prune now).ledger.length ≤ ledgerMax :=
    le_trans (List.length_filter_le _ _) h
  have hroom := length_roomy_lt _ hlen
  have hledger : (consumedNs e now).1.ledger = (e.account.prune now).ledger :=
    congrArg Account.ledger (account_consumedNs e now)
  simp only [ledgerOpen, hledger]
  change Account.mk _ _ _ _ _ _ (if (Account.roomy _).length < ledgerMax then _ else _) = _
  rw [if_pos hroom]
  rfl

theorem account_extendWindow (e : Escalation) (now grant : ℕ) :
    (extendWindow e now grant).1.account = e.account.extend ((now + grant) % 2 ^ 64) := by
  by_cases h : e.windowDeadlineNs < (now + grant) % 2 ^ 64
  · simp only [extendWindow, Account.extend, Escalation.account, if_pos h,
      Nat.max_eq_right (le_of_lt h)]
  · simp only [extendWindow, Account.extend, Escalation.account, if_neg h,
      Nat.max_eq_left (not_lt.1 h)]

theorem account_openFresh (e : Escalation) (grant : ℕ) (reason : ℤ) (boundary : ℕ)
    (acquireOk seedOk : Bool) (hlen : e.ledger.length ≤ ledgerMax) :
    (openFresh e grant reason boundary acquireOk seedOk).1.account = e.account ∨
      (openFresh e grant reason boundary acquireOk seedOk).1.account =
        e.account.openWindow boundary ((boundary + grant) % 2 ^ 64) := by
  cases acquireOk with
  | false => exact Or.inl rfl
  | true =>
    cases seedOk with
    | false => exact Or.inl rfl
    | true =>
      refine Or.inr ?_
      have hopen := account_ledgerOpen { e with
        nextGeneration := bumpGeneration e.nextGeneration
        generation := bumpGeneration e.nextGeneration
        attachBoundaryNs := boundary
        active := true
        admitting := true
        windowStartNs := boundary
        windowReason := reason
        windowsTotal := e.windowsTotal + 1 } boundary hlen
      simp only [openFresh, Account.openWindow, Bool.not_true, Bool.false_eq_true, if_false]
      simp only [Escalation.account, Account.mk.injEq] at hopen ⊢
      obtain ⟨h1, h2, -, h4, h5, h6, h7⟩ := hopen
      exact ⟨h1, h2, trivial, h4, h5, h6, h7⟩

/-- What a request can do to the account: nothing, a pruning, an extension or an opening within
the budget. -/
theorem escalate_account (e : Escalation) (now boundary : ℕ) (durationS reason : ℤ)
    (acquireOk seedOk : Bool) (hfin : e.budgetUnlimited = false)
    (hlen : e.ledger.length ≤ ledgerMax) :
    let a' := (escalate e now durationS reason boundary acquireOk seedOk).1.account
    a' = e.account ∨ a' = e.account.prune now ∨
      (e.active = true ∧ ∃ grant, e.account.consumed now + grant ≤ e.budgetNs ∧
        a' = (e.account.prune now).extend ((now + grant) % 2 ^ 64)) ∨
      (e.active = false ∧ ∃ grant, e.account.consumed now + grant ≤ e.budgetNs ∧
        a' = (e.account.prune now).openWindow boundary ((boundary + grant) % 2 ^ 64)) := by
  intro a'
  have hprune := account_consumedNs e now
  by_cases hrefuse : e.enabled = false ∨ durationS ≤ 0
  · left
    rcases hrefuse with hen | hdur
    · simp [a', escalate, hen]
    · cases hen : e.enabled <;> simp [a', escalate, hen, hdur]
  obtain ⟨hen, hdur⟩ := not_or.1 hrefuse
  rw [Bool.not_eq_false] at hen
  rcases hdec : budgetDecide e now (durationS.toNat * 1000000000) with ⟨e₁, f | grant⟩
  · have ha' : a' = e₁.account := by
      simp only [a', escalate, hen, hdur, hdec, Bool.not_true, Bool.false_eq_true, if_false]
      rfl
    rcases budgetDecide_denied hdec with rfl | rfl
    · exact Or.inl ha'
    · exact Or.inr (Or.inl (ha'.trans hprune))
  · obtain ⟨rfl, hgrant⟩ := budgetDecide_grant hfin hdec
    rw [consumedNs_consumed] at hgrant
    have hlen₁ : (consumedNs e now).1.ledger.length ≤ ledgerMax := by
      rw [consumedNs_ledger]
      exact le_trans (List.length_filter_le _ _) hlen
    by_cases hactive : e.active = true
    · refine Or.inr (Or.inr (Or.inl ⟨hactive, grant, hgrant, ?_⟩))
      have hact : (consumedNs e now).1.active = true := hactive
      rw [← hprune, ← account_extendWindow]
      simp only [a', escalate, hen, hdur, hdec, Bool.not_true, Bool.false_eq_true, if_false,
        hact, if_true]
    · rw [Bool.not_eq_true] at hactive
      have hact : (consumedNs e now).1.active = false := hactive
      have ha' : a' =
          (openFresh (consumedNs e now).1 grant reason boundary acquireOk seedOk).1.account := by
        simp only [a', escalate, hen, hdur, hdec, Bool.not_true, Bool.false_eq_true, if_false,
          hact]
      rw [ha', ← hprune]
      rcases account_openFresh _ grant reason boundary acquireOk seedOk hlen₁ with h | h
      · exact Or.inr (Or.inl h)
      · exact Or.inr (Or.inr (Or.inr ⟨hactive, grant, hgrant, h⟩))

/-! ### The invariant -/

/-- A segment as an interval. -/
def Segment.interval (sg : Segment) : ℕ × ℕ := (sg.startNs, sg.endNs)

/-- The intervals of a ledger. -/
def intervals (l : List Segment) : List (ℕ × ℕ) := l.map Segment.interval

/-- The closed segments of a ledger: in chronological order, disjoint, ended by `bound`. -/
structure ClosedSegments (bound : ℕ) (l : List Segment) : Prop where
  pairwise : l.Pairwise fun x y => x.endNs ≤ y.startNs
  closed : ∀ sg ∈ l, 0 < sg.endNs
  ordered : ∀ sg ∈ l, sg.startNs ≤ sg.endNs
  ended : ∀ sg ∈ l, sg.endNs ≤ bound

/-- The segment of the live window, if there is one. -/
def Account.liveSegment (a : Account) : List Segment :=
  if a.active then [⟨a.startNs, 0⟩] else []

/-- The full-fidelity time inside `[t - R, t]`: the windows closed so far, and the live window up
to `t`. -/
def Account.spent (a : Account) (past : List (ℕ × ℕ)) (t : ℕ) : ℕ :=
  Rolling.spent a.rollingNs past t +
    if a.active then overlap a.startNs t (t - a.rollingNs) t else 0

/-- The account is right about the windows `past` closed by the clock reading `clock`. -/
structure AccountOk (a : Account) (clock : ℕ) (past : List (ℕ × ℕ)) : Prop where
  finite : a.unlimited = false
  rolling_pos : 0 < a.rollingNs
  start_le : a.active = true → a.startNs ≤ clock
  past_ended : ∀ w ∈ past, w.2 ≤ clock
  /-- The ledger has the live window last, and before it closed segments that bill at least what
  the closed windows spend from now on. -/
  billed : ∃ l, a.ledger = l ++ a.liveSegment ∧
    ClosedSegments (if a.active then a.startNs else clock) l ∧
      ∀ t, clock ≤ t → Rolling.spent a.rollingNs past t ≤ Rolling.spent a.rollingNs (intervals l) t
  length_le : a.ledger.length ≤ ledgerMax
  /-- As long as the live window does not outlive its deadline, the budget holds at every
  instant. -/
  bounded : ∀ t, (a.active = true → t ≤ a.deadlineNs) → a.spent past t ≤ a.budgetNs

/-! ### Pruning and billing -/

variable {a : Account} {past : List (ℕ × ℕ)} {l : List Segment} {bound clock now : ℕ}

theorem since_eq_overlap {sg : Segment} (R : ℕ) (h0 : 0 < sg.endNs) (hle : sg.endNs ≤ now) :
    sg.since (now - R) now = overlap sg.startNs sg.endNs (now - R) now := by
  have hend : sg.endAt now = sg.endNs := if_pos (Nat.pos_iff_ne_zero.1 h0)
  rw [Segment.since, hend, overlap, Nat.min_eq_left hle]

theorem sum_since_eq_spent (R : ℕ) (hl : ClosedSegments bound l) (hb : bound ≤ now) :
    (l.map (Segment.since (now - R) now)).sum = Rolling.spent R (intervals l) now := by
  rw [Rolling.spent, intervals, List.map_map]
  congr 1
  refine List.map_congr_left fun sg hsg => ?_
  exact since_eq_overlap R (hl.closed sg hsg) (le_trans (hl.ended sg hsg) hb)

theorem spent_filter_endAt {now t : ℕ} (R : ℕ) (ht : now ≤ t) : (l : List Segment) →
    (∀ sg ∈ l, 0 < sg.endNs) →
      Rolling.spent R (intervals (l.filter fun sg => now - R < sg.endAt now)) t =
        Rolling.spent R (intervals l) t
  | [], _ => rfl
  | sg :: l, h => by
    have ih := spent_filter_endAt R ht l fun x hx => h x (List.mem_cons_of_mem sg hx)
    have hend : sg.endAt now = sg.endNs :=
      if_pos (Nat.pos_iff_ne_zero.1 (h sg List.mem_cons_self))
    by_cases hkeep : now - R < sg.endAt now
    · rw [List.filter_cons_of_pos (by simpa using hkeep)]
      simp only [intervals, List.map_cons, spent_cons] at ih ⊢
      rw [ih]
    · rw [List.filter_cons_of_neg (by simpa using hkeep), ih]
      have hstale : overlap sg.startNs sg.endNs (t - R) t = 0 := overlap_of_le (by omega)
      simp only [intervals, List.map_cons, spent_cons, Segment.interval, hstale, Nat.zero_add]

theorem ClosedSegments.filter (h : ClosedSegments bound l) (p : Segment → Bool) :
    ClosedSegments bound (l.filter p) where
  pairwise := h.pairwise.filter p
  closed sg hsg := h.closed sg (List.mem_filter.1 hsg).1
  ordered sg hsg := h.ordered sg (List.mem_filter.1 hsg).1
  ended sg hsg := h.ended sg (List.mem_filter.1 hsg).1

theorem ClosedSegments.mono {bound' : ℕ} (h : ClosedSegments bound l) (hb : bound ≤ bound') :
    ClosedSegments bound' l where
  pairwise := h.pairwise
  closed := h.closed
  ordered := h.ordered
  ended sg hsg := le_trans (h.ended sg hsg) hb

theorem filter_liveSegment (hR : 0 < a.rollingNs) (hnow : 0 < now) :
    a.liveSegment.filter (fun sg => now - a.rollingNs < sg.endAt now) = a.liveSegment := by
  unfold Account.liveSegment
  split_ifs
  · have hend : Segment.endAt now ⟨a.startNs, 0⟩ = now := rfl
    exact List.filter_eq_self.2 fun sg hsg => by
      rw [List.mem_singleton.1 hsg, hend]
      exact decide_eq_true (by omega)
  · rfl

theorem AccountOk.prune (h : AccountOk a clock past) (hle : clock ≤ now) (hnow : 0 < now) :
    AccountOk (a.prune now) now past := by
  obtain ⟨l, hledger, hclosed, hbill⟩ := h.billed
  refine ⟨h.finite, h.rolling_pos, fun hact => le_trans (h.start_le hact) hle,
    fun w hw => le_trans (h.past_ended w hw) hle, ?_,
    le_trans (List.length_filter_le _ _) h.length_le, h.bounded⟩
  refine ⟨l.filter fun sg => now - a.rollingNs < sg.endAt now, ?_, ?_, ?_⟩
  · change a.ledger.filter _ = _ ++ a.liveSegment
    rw [hledger, List.filter_append, filter_liveSegment h.rolling_pos hnow]
  · refine (hclosed.filter _).mono ?_
    change _ ≤ if a.active then a.startNs else now
    split_ifs
    · exact le_refl _
    · exact hle
  · intro t ht
    change Rolling.spent a.rollingNs past t ≤ Rolling.spent a.rollingNs _ t
    rw [spent_filter_endAt a.rollingNs ht l hclosed.closed]
    exact hbill t (le_trans hle ht)

/-- **The ledger never under-bills.** What was really spent in the rolling window is at most what
the ledger says was consumed. -/
theorem AccountOk.spent_le_consumed (h : AccountOk a clock past) (hle : clock ≤ now) :
    a.spent past now ≤ a.consumed now := by
  obtain ⟨l, hledger, hclosed, hbill⟩ := h.billed
  have hbound : (if a.active then a.startNs else clock) ≤ now := by
    split_ifs with hact
    · exact le_trans (h.start_le hact) hle
    · exact hle
  have hlive : (a.liveSegment.map (Segment.since (now - a.rollingNs) now)).sum =
      if a.active then overlap a.startNs now (now - a.rollingNs) now else 0 := by
    unfold Account.liveSegment
    split_ifs
    · simp [Segment.since, Segment.endAt, overlap]
    · rfl
  rw [Account.consumed, hledger, List.map_append, List.sum_append,
    sum_since_eq_spent a.rollingNs hclosed hbound, hlive, Account.spent]
  exact Nat.add_le_add_right (hbill now hle) _

/-! ### Extending, opening and closing -/

theorem AccountOk.extend {grant : ℕ} (h : AccountOk a now past) (hactive : a.active = true)
    (hdl : now ≤ a.deadlineNs) (hgrant : a.spent past now + grant ≤ a.budgetNs) :
    AccountOk (a.extend ((now + grant) % 2 ^ 64)) now past where
  finite := h.finite
  rolling_pos := h.rolling_pos
  start_le := h.start_le
  past_ended := h.past_ended
  billed := h.billed
  length_le := h.length_le
  bounded t ht := by
    change a.spent past t ≤ a.budgetNs
    have ht' : t ≤ max a.deadlineNs ((now + grant) % 2 ^ 64) := ht hactive
    by_cases hold : t ≤ a.deadlineNs
    · exact h.bounded t fun _ => hold
    · -- past the old deadline, the window has gained at most the grant
      have hmod : (now + grant) % 2 ^ 64 ≤ now + grant := Nat.mod_le _ _
      have hle : now ≤ t := by omega
      have hpast := spent_slide a.rollingNs hle past h.past_ended
      have hrun := overlap_grow a.startNs a.rollingNs hle
      simp only [Account.spent, hactive, if_true] at hgrant ⊢
      omega

theorem ClosedSegments.coalesceOldest {bound : ℕ} {l : List Segment}
    (h : ClosedSegments bound l) : ClosedSegments bound (coalesceOldest l) := by
  match l, h with
  | [], h => exact h
  | [_], h => exact h
  | sg₀ :: sg₁ :: l, h =>
    have h01 := List.rel_of_pairwise_cons h.pairwise (List.mem_cons_self (l := l))
    have h0 := h.closed sg₀ List.mem_cons_self
    have h1 := h.closed sg₁ (List.mem_cons_of_mem _ List.mem_cons_self)
    have ho0 := h.ordered sg₀ List.mem_cons_self
    have ho1 := h.ordered sg₁ (List.mem_cons_of_mem _ List.mem_cons_self)
    have he0 := h.ended sg₀ List.mem_cons_self
    have he1 := h.ended sg₁ (List.mem_cons_of_mem _ List.mem_cons_self)
    have hopen : ¬(sg₀.endNs = 0 ∨ sg₁.endNs = 0) := by omega
    have htail : ∀ sg ∈ l, sg ∈ sg₀ :: sg₁ :: l := fun sg hsg =>
      List.mem_cons_of_mem _ (List.mem_cons_of_mem _ hsg)
    rw [PgWaitTracer.coalesceOldest, if_neg hopen]
    refine ⟨List.pairwise_cons.2 ⟨fun sg hsg => ?_, h.pairwise.of_cons.of_cons⟩, ?_, ?_, ?_⟩
    · have hs0 := List.rel_of_pairwise_cons h.pairwise (List.mem_cons_of_mem sg₁ hsg)
      have hs1 := List.rel_of_pairwise_cons h.pairwise.of_cons hsg
      exact max_le hs0 hs1
    · exact List.forall_mem_cons.2 ⟨lt_max_of_lt_left h0, fun sg hsg => h.closed sg (htail sg hsg)⟩
    · refine List.forall_mem_cons.2 ⟨?_, fun sg hsg => h.ordered sg (htail sg hsg)⟩
      exact le_trans (min_le_left _ _) (le_trans ho0 (le_max_left _ _))
    · exact List.forall_mem_cons.2 ⟨max_le he0 he1, fun sg hsg => h.ended sg (htail sg hsg)⟩

theorem spent_le_coalesceOldest (h : ClosedSegments bound l) (R t : ℕ) :
    Rolling.spent R (intervals l) t ≤ Rolling.spent R (intervals (coalesceOldest l)) t := by
  match l, h with
  | [], _ => exact le_refl _
  | [_], _ => exact le_refl _
  | sg₀ :: sg₁ :: l, h =>
    have h01 := List.rel_of_pairwise_cons h.pairwise (List.mem_cons_self (l := l))
    have h0 := h.closed sg₀ List.mem_cons_self
    have h1 := h.closed sg₁ (List.mem_cons_of_mem _ List.mem_cons_self)
    have ho0 := h.ordered sg₀ List.mem_cons_self
    have ho1 := h.ordered sg₁ (List.mem_cons_of_mem _ List.mem_cons_self)
    have hjoin := overlap_join (t - R) t ho0 h01 ho1
    rw [PgWaitTracer.coalesceOldest, if_neg (by omega)]
    simp only [intervals, List.map_cons, spent_cons, Segment.interval]
    omega

theorem ClosedSegments.roomy (h : ClosedSegments bound l) :
    ClosedSegments bound (Account.roomy l) := by
  unfold Account.roomy
  split_ifs
  · exact h.coalesceOldest
  · exact h

theorem spent_le_roomy (h : ClosedSegments bound l) (R t : ℕ) :
    Rolling.spent R (intervals l) t ≤ Rolling.spent R (intervals (Account.roomy l)) t := by
  unfold Account.roomy
  split_ifs
  · exact spent_le_coalesceOldest h R t
  · exact le_refl _

/-- A window opened at `boundary` may run for what the budget left at the decision. -/
theorem AccountOk.openWindow {boundary grant : ℕ} (h : AccountOk a now past)
    (hactive : a.active = false) (hle : now ≤ boundary) (hb : 0 < boundary)
    (hgrant : a.spent past now + grant ≤ a.budgetNs) :
    AccountOk (a.openWindow boundary ((boundary + grant) % 2 ^ 64)) boundary past := by
  have hpruned := h.prune hle hb
  obtain ⟨l, hledger, hclosed, hbill⟩ := hpruned.billed
  have hlive : (a.prune boundary).liveSegment = [] := by
    rw [Account.liveSegment]
    exact if_neg (by rw [Bool.not_eq_true]; exact hactive)
  have hact : (a.prune boundary).active = false := hactive
  rw [hlive, List.append_nil] at hledger
  rw [hact, if_neg Bool.false_ne_true] at hclosed
  have hlen := length_roomy_lt l (by rw [← hledger]; exact hpruned.length_le)
  refine ⟨h.finite, h.rolling_pos, fun _ => le_refl _, hpruned.past_ended, ?_, ?_, ?_⟩
  · refine ⟨Account.roomy l, ?_, hclosed.roomy, fun t ht => ?_⟩
    · change Account.roomy (a.prune boundary).ledger ++ _ = _
      rw [hledger]
      rfl
    · exact le_trans (hbill t ht) (spent_le_roomy hclosed a.rollingNs t)
  · change (Account.roomy (a.prune boundary).ledger ++ _).length ≤ _
    rw [hledger, List.length_append, List.length_singleton]
    exact hlen
  · intro t ht
    have ht' : t ≤ (boundary + grant) % 2 ^ 64 := ht rfl
    have hmod : (boundary + grant) % 2 ^ 64 ≤ boundary + grant := Nat.mod_le _ _
    change Rolling.spent a.rollingNs past t + overlap boundary t (t - a.rollingNs) t ≤ a.budgetNs
    have hold : Rolling.spent a.rollingNs past t ≤ a.budgetNs := by
      have hb' := h.bounded t fun hc => absurd (hactive.symm.trans hc) Bool.false_ne_true
      simp only [Account.spent, hactive] at hb'
      omega
    by_cases hbefore : t ≤ boundary
    · rw [overlap_of_future a.rollingNs hbefore]
      exact hold
    · have hpast := spent_slide a.rollingNs (show now ≤ t by omega) past h.past_ended
      have hrun := overlap_le_elapsed boundary a.rollingNs t
      simp only [Account.spent, hactive, Bool.false_eq_true, if_false] at hgrant
      omega

/-- Closing the live window by its deadline keeps the account right. -/
theorem AccountOk.closeWindow (h : AccountOk a clock past) (hactive : a.active = true)
    (hle : clock ≤ now) (hnow : 0 < now) (hdl : now ≤ a.deadlineNs) :
    AccountOk (a.closeWindow now) now (past ++ [(a.startNs, now)]) := by
  obtain ⟨l, hledger, hclosed, hbill⟩ := h.billed
  rw [Account.liveSegment, if_pos hactive] at hledger
  rw [if_pos hactive] at hclosed
  have hstart : a.startNs ≤ now := le_trans (h.start_le hactive) hle
  have hclose : (a.closeWindow now).ledger = l ++ [⟨a.startNs, now⟩] := by
    simp [Account.closeWindow, hledger, closeFirstOpen_cons_open]
  refine ⟨h.finite, h.rolling_pos, fun hc => absurd hc Bool.false_ne_true, ?_, ?_, ?_, ?_⟩
  · intro w hw
    rcases List.mem_append.1 hw with hw | hw
    · exact le_trans (h.past_ended w hw) hle
    · rw [List.mem_singleton.1 hw]
  · refine ⟨l ++ [⟨a.startNs, now⟩], ?_, ?_, fun t ht => ?_⟩
    · rw [hclose]
      exact (List.append_nil _).symm
    · change ClosedSegments now _
      refine ⟨List.pairwise_append.2 ⟨hclosed.pairwise, List.pairwise_singleton _ _, ?_⟩,
        List.forall_mem_append.2 ⟨hclosed.closed, ?_⟩,
        List.forall_mem_append.2 ⟨hclosed.ordered, ?_⟩,
        List.forall_mem_append.2 ⟨fun sg hsg => le_trans (hclosed.ended sg hsg) hstart, ?_⟩⟩
      · intro x hx y hy
        rw [List.mem_singleton.1 hy]
        exact hclosed.ended x hx
      · simpa using hnow
      · simpa using hstart
      · simp
    · change Rolling.spent a.rollingNs _ t ≤ Rolling.spent a.rollingNs _ t
      rw [intervals, List.map_append, spent_append, spent_append]
      exact Nat.add_le_add_right (hbill t (le_trans hle ht)) _
  · rw [hclose]
    have hlen := h.length_le
    rw [hledger] at hlen
    simpa using hlen
  · intro t _
    change Rolling.spent a.rollingNs (past ++ [(a.startNs, now)]) t + 0 ≤ a.budgetNs
    rw [spent_append, spent_cons, spent_nil]
    change Rolling.spent a.rollingNs past t + overlap a.startNs now (t - a.rollingNs) t ≤ _
    by_cases hbefore : t ≤ now
    · have hb := h.bounded t fun _ => le_trans hbefore hdl
      simp only [Account.spent, hactive, if_true] at hb
      rw [overlap_of_running a.startNs a.rollingNs hbefore]
      exact hb
    · -- once everything has ended, sliding on only loses time
      have hb := h.bounded now fun _ => hdl
      simp only [Account.spent, hactive, if_true] at hb
      have hpast := spent_slide a.rollingNs (show now ≤ t by omega) past
        fun w hw => le_trans (h.past_ended w hw) hle
      have hlast := overlap_slide (s := a.startNs) a.rollingNs (le_refl now)
        (show now ≤ t by omega)
      omega

/-! ### Runs -/

/-- The engine in a run: its last clock reading and the windows closed so far, each with the time
it was opened and closed at. -/
structure EscRun where
  esc : Escalation
  clock : ℕ
  past : List (ℕ × ℕ)

/-- The calls into the engine, each with the clock readings it makes and the outcomes of the attach
steps. -/
inductive EscOp
  | escalate (now : ℕ) (durationS reason : ℤ) (boundary : ℕ) (acquireOk seedOk : Bool)
  | deescalate (now : ℕ)
  | onTimer (polled now : ℕ)
  | checkBudget (polled now : ℕ)
  | budgetRemaining (now : ℕ)

namespace EscRun

/-- The engine after a call, and the last clock reading of the call. -/
def call (e : Escalation) : EscOp → Escalation × ℕ
  | .escalate now durationS reason boundary acquireOk seedOk =>
    let e' := (PgWaitTracer.escalate e now durationS reason boundary acquireOk seedOk).1
    (e', if !e.active && e'.active then boundary else now)
  | .deescalate now => (PgWaitTracer.deescalate e now, now)
  | .onTimer polled now => (PgWaitTracer.onTimer e polled now, now)
  | .checkBudget polled now => (PgWaitTracer.checkBudget e polled now, now)
  | .budgetRemaining now => ((budgetRemainingNs e now).1, now)

/-- One call: a window that was live before it and is not after it has been closed at its last
clock reading. -/
def step (r : EscRun) (op : EscOp) : EscRun where
  esc := (call r.esc op).1
  clock := (call r.esc op).2
  past :=
    if r.esc.active && !(call r.esc op).1.active then
      r.past ++ [(r.esc.windowStartNs, (call r.esc op).2)]
    else r.past

/-- A daemon that starts with the clock at `clock`. -/
def init (tiered : Bool) (budgetS : ℤ) (clock : ℕ) : EscRun := ⟨.init tiered budgetS, clock, []⟩

/-- The first and the last clock reading of a call. -/
def readings : EscOp → ℕ × ℕ
  | .escalate now _ _ boundary _ _ => (now, boundary)
  | .deescalate now => (now, now)
  | .onTimer polled now => (polled, now)
  | .checkBudget polled now => (polled, now)
  | .budgetRemaining now => (now, now)

/-- The clock at which a call sees the live window: a fresh window has none before its
boundary. -/
def seenAt : EscOp → ℕ
  | .escalate now _ _ _ _ _ => now
  | op => (readings op).2

/-- The environment: the clock is monotone and past its origin, and a window is not live after its
armed deadline. -/
def ClockOk (r : EscRun) (op : EscOp) : Prop :=
  0 < (readings op).1 ∧ r.clock ≤ (readings op).1 ∧ (readings op).1 ≤ (readings op).2 ∧
    (r.esc.active = true → seenAt op ≤ r.esc.windowDeadlineNs)

/-- The full-fidelity time inside `[t - rolling_window, t]`. -/
def spentAt (r : EscRun) (t : ℕ) : ℕ := r.esc.account.spent r.past t

/-- The invariant of a run under the budget `budgetNs`. -/
structure Ok (budgetNs : ℕ) (r : EscRun) : Prop where
  account : AccountOk r.esc.account r.clock r.past
  budget : r.esc.budgetNs = budgetNs

end EscRun

theorem account_deescalate {e : Escalation} (now : ℕ) (h : e.active = true) :
    (deescalate e now).account = e.account.closeWindow now := by
  rw [deescalate, h]
  rfl

theorem AccountOk.later (h : AccountOk a clock past) (hle : clock ≤ now) :
    AccountOk a now past := by
  obtain ⟨l, hledger, hclosed, hbill⟩ := h.billed
  refine ⟨h.finite, h.rolling_pos, fun hact => le_trans (h.start_le hact) hle,
    fun w hw => le_trans (h.past_ended w hw) hle, ⟨l, hledger, ?_, fun t ht => ?_⟩,
    h.length_le, h.bounded⟩
  · refine hclosed.mono ?_
    split_ifs
    · exact le_refl _
    · exact hle
  · exact hbill t (le_trans hle ht)

namespace EscRun

variable {budgetNs : ℕ} {r : EscRun} {op : EscOp}

theorem Ok.of_call (h : Ok budgetNs r)
    (hcall : (call r.esc op).1.account = a ∧ (call r.esc op).2 = clock)
    (hkeep : r.esc.active = true → a.active = true) (hbudget : a.budgetNs = r.esc.budgetNs)
    (ha : AccountOk a clock r.past) : Ok budgetNs (r.step op) := by
  obtain ⟨rfl, rfl⟩ := hcall
  have hpast : (r.step op).past = r.past := by
    refine if_neg fun hc => ?_
    rw [Bool.and_eq_true, Bool.not_eq_true'] at hc
    exact absurd (hc.2.symm.trans (hkeep hc.1)) Bool.false_ne_true
  exact ⟨by rw [hpast]; exact ha, hbudget.trans h.budget⟩

theorem Ok.of_close (h : Ok budgetNs r) (hactive : r.esc.active = true)
    (hcall : (call r.esc op).1.account = a.closeWindow now ∧ (call r.esc op).2 = now)
    (hstart : a.startNs = r.esc.windowStartNs) (hbudget : a.budgetNs = r.esc.budgetNs)
    (ha : AccountOk (a.closeWindow now) now (r.past ++ [(a.startNs, now)])) :
    Ok budgetNs (r.step op) := by
  have hactive' : (call r.esc op).1.active = false := congrArg Account.active hcall.1
  have hpast : (r.step op).past = r.past ++ [(a.startNs, now)] := by
    rw [hstart, ← hcall.2]
    refine if_pos ?_
    rw [hactive, hactive']
    rfl
  refine ⟨?_, ?_⟩
  · rw [hpast]
    change AccountOk (call r.esc op).1.account (call r.esc op).2 _
    rw [hcall.1, hcall.2]
    exact ha
  · have hb : (call r.esc op).1.budgetNs = a.budgetNs := congrArg Account.budgetNs hcall.1
    exact (hb.trans hbudget).trans h.budget

theorem Ok.escalate (h : Ok budgetNs r) {durationS reason : ℤ} {boundary : ℕ}
    {acquireOk seedOk : Bool}
    (hok : ClockOk r (.escalate now durationS reason boundary acquireOk seedOk)) :
    Ok budgetNs (r.step (.escalate now durationS reason boundary acquireOk seedOk)) := by
  obtain ⟨hnow, hclock, hbound, hdl⟩ := hok
  have hpruned := h.account.prune hclock hnow
  have hspent := h.account.spent_le_consumed hclock
  have hcases := escalate_account r.esc now boundary durationS reason acquireOk seedOk
    h.account.finite h.account.length_le
  set e' := (PgWaitTracer.escalate r.esc now durationS reason boundary acquireOk seedOk).1 with he'
  have hclk : ∀ b : Bool, (r.esc.active = true ∨ e'.active = b ∧ r.esc.active = b) →
      (call r.esc (.escalate now durationS reason boundary acquireOk seedOk)).2 = now := by
    intro b hb
    refine if_neg fun hc => ?_
    rw [Bool.and_eq_true, Bool.not_eq_true'] at hc
    rcases hb with hb | ⟨hb, hb'⟩
    · exact absurd (hc.1.symm.trans hb) Bool.false_ne_true
    · exact absurd ((hc.1.symm.trans hb').trans (hb.symm.trans hc.2)) Bool.false_ne_true
  rcases hcases with hsame | hsame | ⟨hact, grant, hgrant, hsame⟩ | ⟨hact, grant, hgrant, hsame⟩
  · have hact : e'.active = r.esc.active := congrArg Account.active hsame
    exact h.of_call ⟨hsame, hclk _ (Or.inr ⟨hact, rfl⟩)⟩ id rfl (h.account.later hclock)
  · have hact : e'.active = r.esc.active := congrArg Account.active hsame
    exact h.of_call ⟨hsame, hclk _ (Or.inr ⟨hact, rfl⟩)⟩ id rfl hpruned
  · refine h.of_call ⟨hsame, hclk true (Or.inl hact)⟩ (fun _ => hact) rfl ?_
    exact hpruned.extend hact (hdl hact) (le_trans (Nat.add_le_add_right hspent grant) hgrant)
  · have hact' : e'.active = true := congrArg Account.active hsame
    have hclk' : (call r.esc (.escalate now durationS reason boundary acquireOk seedOk)).2 =
        boundary := by
      refine if_pos ?_
      rw [hact, hact']
      rfl
    refine h.of_call ⟨hsame, hclk'⟩ (fun _ => rfl) rfl ?_
    exact hpruned.openWindow hact hbound (lt_of_lt_of_le hnow hbound)
      (le_trans (Nat.add_le_add_right hspent grant) hgrant)

theorem Ok.close (h : Ok budgetNs r) {e : Escalation} (hactive : r.esc.active = true)
    (hcall : call r.esc op = (PgWaitTracer.deescalate e now, now)) (heactive : e.active = true)
    (hstart : e.windowStartNs = r.esc.windowStartNs) (hbudget : e.budgetNs = r.esc.budgetNs)
    (ha : AccountOk e.account clock r.past) (hle : clock ≤ now) (hnow : 0 < now)
    (hdl : now ≤ e.windowDeadlineNs) : Ok budgetNs (r.step op) := by
  refine h.of_close (a := e.account) hactive ⟨?_, congrArg Prod.snd hcall⟩ hstart hbudget ?_
  · rw [hcall]
    exact account_deescalate now heactive
  · exact ha.closeWindow heactive hle hnow hdl

/-- **Step.** Every call under the clock keeps the account right. -/
theorem Ok.step (h : Ok budgetNs r) (hok : ClockOk r op) : Ok budgetNs (r.step op) := by
  cases op with
  | escalate now durationS reason boundary acquireOk seedOk => exact h.escalate hok
  | deescalate now =>
    obtain ⟨hnow, hclock, -, hdl⟩ := hok
    cases hact : r.esc.active with
    | true => exact h.close hact rfl hact rfl rfl h.account hclock hnow (hdl hact)
    | false =>
      have hsame : PgWaitTracer.deescalate r.esc now = r.esc := by
        rw [PgWaitTracer.deescalate, hact]
        rfl
      exact h.of_call ⟨congrArg _ hsame, rfl⟩ id rfl (h.account.later hclock)
  | onTimer polled now =>
    obtain ⟨hpolled, hclock, hle, hdl⟩ :
      0 < polled ∧ r.clock ≤ polled ∧ polled ≤ now ∧
        (r.esc.active = true → now ≤ r.esc.windowDeadlineNs) := hok
    have hle' : r.clock ≤ now := le_trans hclock hle
    by_cases hfire : r.esc.active = true ∧ r.esc.windowDeadlineNs ≤ polled
    · refine h.close hfire.1 ?_ hfire.1 rfl rfl h.account hle' (lt_of_lt_of_le hpolled hle)
        (hdl hfire.1)
      simp only [call, PgWaitTracer.onTimer, if_pos hfire]
    · have hsame : PgWaitTracer.onTimer r.esc polled now = r.esc := if_neg hfire
      exact h.of_call ⟨congrArg _ hsame, rfl⟩ id rfl (h.account.later hle')
  | checkBudget polled now =>
    obtain ⟨hpolled, hclock, hle, hdl⟩ :
      0 < polled ∧ r.clock ≤ polled ∧ polled ≤ now ∧
        (r.esc.active = true → now ≤ r.esc.windowDeadlineNs) := hok
    have hle' : r.clock ≤ now := le_trans hclock hle
    cases hact : r.esc.active with
    | false =>
      have hsame : PgWaitTracer.checkBudget r.esc polled now = r.esc := by
        rw [PgWaitTracer.checkBudget, hact]
        rfl
      exact h.of_call ⟨congrArg _ hsame, rfl⟩ id rfl (h.account.later hle')
    | true =>
      rcases hover : budgetOver r.esc polled with ⟨e₁, exceeded⟩
      have he₁ : e₁ = r.esc ∨ e₁ = (consumedNs r.esc polled).1 := by
        unfold budgetOver at hover
        split_ifs at hover
        · exact Or.inl (Prod.mk.inj hover).1.symm
        · exact Or.inr (Prod.mk.inj hover).1.symm
      have ha₁ : AccountOk e₁.account polled r.past := by
        rcases he₁ with rfl | rfl
        · exact h.account.later hclock
        · rw [account_consumedNs]
          exact h.account.prune hclock hpolled
      have hsame : e₁.active = true ∧ e₁.windowStartNs = r.esc.windowStartNs ∧
          e₁.budgetNs = r.esc.budgetNs ∧ e₁.windowDeadlineNs = r.esc.windowDeadlineNs := by
        rcases he₁ with rfl | rfl
        · exact ⟨hact, rfl, rfl, rfl⟩
        · exact ⟨hact, rfl, rfl, rfl⟩
      obtain ⟨hact₁, hstart₁, hbudget₁, hdl₁⟩ := hsame
      cases exceeded with
      | true =>
        refine h.close hact (e := { e₁ with budgetClosedTotal := e₁.budgetClosedTotal + 1 }) ?_
          hact₁ hstart₁ hbudget₁ ha₁ hle (lt_of_lt_of_le hpolled hle) ?_
        · simp only [call, PgWaitTracer.checkBudget, hact, hover, Bool.not_true,
            Bool.false_eq_true, if_false, if_true]
        · exact le_trans (hdl hact) (le_of_eq hdl₁.symm)
      | false =>
        have hcall : PgWaitTracer.checkBudget r.esc polled now = e₁ := by
          simp only [PgWaitTracer.checkBudget, hact, hover, Bool.not_true, Bool.false_eq_true,
            if_false]
        exact h.of_call ⟨congrArg _ hcall, rfl⟩ (fun _ => hact₁) hbudget₁ (ha₁.later hle)
  | budgetRemaining now =>
    obtain ⟨hnow, hclock, -, -⟩ := hok
    have hcases : (budgetRemainingNs r.esc now).1 = r.esc ∨
        (budgetRemainingNs r.esc now).1 = (consumedNs r.esc now).1 := by
      unfold budgetRemainingNs
      split_ifs
      · exact Or.inl rfl
      · exact Or.inl rfl
      · exact Or.inr rfl
    rcases hcases with hsame | hsame
    · exact h.of_call ⟨congrArg _ hsame, rfl⟩ id rfl (h.account.later hclock)
    · refine h.of_call ⟨(congrArg _ hsame).trans (account_consumedNs r.esc now), rfl⟩ id rfl ?_
      exact h.account.prune hclock hnow

theorem ok_init (tiered : Bool) {budgetS : ℤ} (h : 0 ≤ budgetS) (clock : ℕ) :
    Ok (budgetS.toNat * 1000000000) (init tiered budgetS clock) := by
  have hneg : ¬budgetS < 0 := by omega
  refine ⟨⟨decide_eq_false hneg, Nat.mul_pos (by decide) (by decide), fun hc => absurd hc Bool.false_ne_true,
    fun w hw => absurd hw List.not_mem_nil, ⟨[], rfl, ⟨List.Pairwise.nil, ?_, ?_, ?_⟩, ?_⟩,
    Nat.zero_le _, fun t _ => Nat.zero_le _⟩, if_neg hneg⟩
  · exact fun sg hsg => absurd hsg List.not_mem_nil
  · exact fun sg hsg => absurd hsg List.not_mem_nil
  · exact fun sg hsg => absurd hsg List.not_mem_nil
  · exact fun t _ => le_refl _

end EscRun

/-- The run of the calls `ops` on a daemon that starts with the clock at `clock`. -/
def EscRun.run (tiered : Bool) (budgetS : ℤ) (clock : ℕ) (ops : List EscOp) : EscRun :=
  ops.foldl EscRun.step (EscRun.init tiered budgetS clock)

/-- **Rolling-hour bound.** For every finite budget and every run of requests, extensions,
de-escalations, deadline closes and prunes under a monotone clock in which windows are closed by
their armed deadline, the full-fidelity time inside `[t - rolling_window, t]` is at most the
budget, at every instant `t` that the live window, if any, reaches by its deadline.

Source: `pgwt_esc_budget_decide` (`src/escalation_budget.h`), `pgwt_escalate`
(`src/escalation.c`). -/
theorem spentAt_le_budget (tiered : Bool) (budgetS : ℤ) (hfinite : 0 ≤ budgetS) (clock : ℕ)
    (ops : List EscOp)
    (hrun : Run.Allowed EscRun.step EscRun.ClockOk (EscRun.init tiered budgetS clock) ops) (t : ℕ)
    (ht : (EscRun.run tiered budgetS clock ops).esc.active = true →
      t ≤ (EscRun.run tiered budgetS clock ops).esc.windowDeadlineNs) :
    (EscRun.run tiered budgetS clock ops).spentAt t ≤ budgetS.toNat * 1000000000 := by
  have hok := hrun.invariant (fun r op h hc => EscRun.Ok.step h hc) ops _
    (EscRun.ok_init tiered hfinite clock)
  exact le_trans (hok.account.bounded t ht) (le_of_eq hok.budget)

/-- A window of five seconds, extended by an hour one second later: the extension is clamped to the
budget of ten seconds, and the window closed at its deadline has spent exactly that. -/
theorem spentAt_le_budget_extended :
    let ops : List EscOp := [.escalate 1000000000 5 0 1000000000 true true,
      .escalate 2000000000 3600 0 2000000000 true true, .onTimer 11000000000 11000000000]
    (EscRun.run true 10 1 ops).spentAt 11000000000 = 10000000000 ∧
      (EscRun.run true 10 1 ops).spentAt 11000000000 ≤ (10 : ℤ).toNat * 1000000000 := by
  intro ops
  refine ⟨by decide, spentAt_le_budget true 10 (by decide) 1 ops ?_ 11000000000 ?_⟩
  · exact ⟨⟨by decide, by decide, by decide, by decide⟩,
      ⟨by decide, by decide, by decide, by decide⟩,
      ⟨by decide, by decide, by decide, by decide⟩, trivial⟩
  · decide

end PgWaitTracer
