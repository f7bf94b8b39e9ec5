import Mathlib.Data.List.TakeWhile
import PgWaitTracer.SyntheticQuery.Normalize

/-!
# Blanks and comments between two tokens

A run of blanks and comments between two tokens may be written in many ways. A run of blanks
leaves a blank in the output unless one of its neighbours is punctuation, and a run with a comment
always leaves one, which only punctuation behind it takes away. The normalised text is therefore
the same for two runs if both have a comment or neither has, and otherwise only where the two
rules agree.

## Main results

* `normalizeQuery_layout_iff`: when two texts that differ in one run have the same
  normalised text and the same keys.
* `layout_splits`: a query that a comment takes out of its group.
-/

namespace PgWaitTracer

namespace QueryLexeme

/-- Blanks and comments. -/
def isLayout (p : QueryLexeme) : Bool := p.isSpace || p.isComment

/-- A byte of punctuation around which blanks are dropped. -/
def isTight : QueryLexeme → Bool
  | punct c => tightPunctuation c
  | _ => false

/-- A number that starts with its point. -/
def isDotted : QueryLexeme → Bool
  | literal w => w.head? = some '.'
  | _ => false

/-- What the bytes of a piece are like. -/
def Formed : QueryLexeme → Prop
  | space _ => True
  | line w => w.head? = some '-'
  | block w => w.head? = some '/'
  | quoted w => w.head? = some dquoteChar ∧ w.getLast? = some dquoteChar
  | literal w => ∃ c, w.head? = some c ∧ (tightPunctuation c = true → c = '.')
  | word w => w ≠ [] ∧ ∀ c ∈ w, tightPunctuation c = false ∧ c ≠ ' '
  | punct c => c ≠ ' '

end QueryLexeme

/-- Tokens between which a comment leaves a blank and a run of blanks does not: punctuation in front
of anything else, and anything in front of a number that starts with its point. -/
def layoutMatters (a b : QueryLexeme) : Bool := (a.isTight && !b.isTight) || b.isDotted

/-! ### The bytes of a piece -/

variable {c : Char} {out out' : List Char} {ls ps : List QueryLexeme} {next : Option Char}
  {b p : QueryLexeme} {size : ℕ}

theorem tightPunctuation_eq (h : tightPunctuation c = true) :
    identifierCont c = false ∧ c ≠ ' ' := by
  have hmem : c ∈ ",()[]=<>+-*/%^;:.".toList := by simpa [tightPunctuation] using h
  have hall := List.all_eq_true.mp
    (by decide : (",()[]=<>+-*/%^;:.".toList.all fun d => !identifierCont d && d != ' ') = true)
    c hmem
  simpa using hall

theorem identifierCont_of_start (h : identifierStart c = true) : identifierCont c = true := by
  rw [identifierStart] at h
  rw [identifierCont, Char.isAlphanum]
  revert h
  cases c.isAlpha <;> cases decide (128 ≤ c.toNat) <;> cases decide (c = '_') <;> simp

theorem not_tight_of_identifierCont (h : identifierCont c = true) :
    tightPunctuation c = false ∧ c ≠ ' ' := by
  constructor
  · by_contra ht
    rw [Bool.not_eq_false] at ht
    exact absurd h (by rw [(tightPunctuation_eq ht).1]; exact Bool.false_ne_true)
  · rintro rfl
    exact absurd h (by decide)

theorem getLast?_take_quotedEnd {cs : List Char} {n : ℕ} (h : quotedEnd cs = some n) :
    (cs.take n).getLast? = some dquoteChar := by
  induction cs using quotedEnd.induct generalizing n with
  | case1 => cases h
  | case2 =>
    rw [quotedEnd, if_pos rfl] at h
    rw [← Option.some.inj h]
    rfl
  | case3 c hc =>
    rw [quotedEnd, if_neg hc] at h
    cases h
  | case4 cs ih =>
    rw [quotedEnd, if_pos rfl, if_pos rfl] at h
    obtain ⟨m, hm, rfl⟩ := Option.map_eq_some_iff.mp h
    rw [List.take_succ_cons, List.take_succ_cons, List.getLast?_cons, List.getLast?_cons, ih hm]
    rfl
  | case5 d cs hd =>
    rw [quotedEnd, if_pos rfl, if_neg hd] at h
    rw [← Option.some.inj h]
    rfl
  | case6 c d cs hc ih =>
    rw [quotedEnd, if_neg hc] at h
    obtain ⟨m, hm, rfl⟩ := Option.map_eq_some_iff.mp h
    rw [List.take_succ_cons, List.getLast?_cons, ih hm]
    rfl

/-- The pieces that a text can begin with are formed. -/
def Forms (x : Option (QueryLexeme × ℕ)) : Prop := ∀ p, x = some p → p.1.Formed

theorem Forms.some {p : QueryLexeme × ℕ} (h : p.1.Formed) : Forms (some p) := by
  intro q hq
  rwa [← Option.some.inj hq]

theorem Forms.map {x : Option ℕ} {f : ℕ → QueryLexeme × ℕ} (h : ∀ n, x = .some n → (f n).1.Formed) :
    Forms (x.map f) := by
  intro q hq
  obtain ⟨n, hn, rfl⟩ := Option.map_eq_some_iff.mp hq
  exact h n hn

theorem forms_lexPiece (prev : Option Char) (c : Char) (cs : List Char) :
    Forms (lexPiece prev c cs) := by
  have hliteral : tightPunctuation c = false → ∀ n,
      (QueryLexeme.literal ((c :: cs).take (n + 1))).Formed :=
    fun hc n => ⟨c, rfl, fun ht => absurd ht (by rw [hc]; exact Bool.false_ne_true)⟩
  have hmem : ∀ l : List Char, l.all (fun d => !tightPunctuation d) = true → c ∈ l →
      tightPunctuation c = false := fun l hl hc => by simpa using List.all_eq_true.mp hl c hc
  unfold lexPiece
  refine iteInduction (fun h => .some ?_) fun _ => ?_
  · rw [h.1]
    rfl
  refine iteInduction (fun h => .map fun k _ => ?_) fun _ => ?_
  · rw [h.1]
    rfl
  refine iteInduction (fun h => .some trivial) fun hspace => ?_
  refine iteInduction (fun h => .map fun n hn => ⟨congrArg some h, ?_⟩) fun _ => ?_
  · have hlast := getLast?_take_quotedEnd hn
    dsimp only
    rw [List.take_succ_cons, List.getLast?_cons, hlast]
    rfl
  refine iteInduction (fun h => .some (hliteral ?_ _)) fun _ => ?_
  · exact hmem _ (by decide) h.1
  refine iteInduction (fun h => .some (hliteral ?_ _)) fun _ => ?_
  · exact hmem _ (by decide) h.1
  refine iteInduction (fun h => .some (hliteral ?_ _)) fun _ => ?_
  · rw [h]
    decide
  refine iteInduction (fun h => .map fun k _ => hliteral ?_ _) fun _ => ?_
  · by_contra ht
    refine h ?_
    have hc : c ≠ '$' := by
      rintro rfl
      exact ht (by decide)
    cases cs <;> simp [dollarTagLen, hc]
  refine iteInduction (fun h => .some (hliteral ?_ _)) fun _ => ?_
  · refine (not_tight_of_identifierCont ?_).1
    rw [identifierCont, Char.isAlphanum, h.1]
    simp
  refine iteInduction (fun h => .some ⟨c, rfl, fun _ => h.1⟩) fun _ => ?_
  refine iteInduction (fun h => .some ⟨List.cons_ne_nil _ _, ?_⟩) fun _ => .some ?_
  · intro d hd
    rcases List.mem_cons.mp hd with rfl | hd
    · exact not_tight_of_identifierCont (identifierCont_of_start h)
    · exact not_tight_of_identifierCont (List.mem_takeWhile_imp hd)
  · rintro rfl
    exact hspace (by decide)

theorem formed_lexFrom {n : ℕ} {prev : Option Char} {cs : List Char}
    (h : lexFrom n prev cs = some ps) : ∀ p ∈ ps, p.Formed := by
  induction n generalizing prev cs ps with
  | zero =>
    cases cs with
    | nil =>
      obtain rfl := Option.some.inj h
      exact List.forall_mem_nil _
    | cons c cs => exact nomatch h
  | succ n ih =>
    cases cs with
    | nil =>
      obtain rfl := Option.some.inj h
      exact List.forall_mem_nil _
    | cons c cs =>
      rw [lexFrom] at h
      obtain ⟨p, hp, h⟩ := Option.bind_eq_some_iff.mp h
      obtain ⟨qs, hqs, rfl⟩ := Option.map_eq_some_iff.mp h
      exact List.forall_mem_cons.mpr ⟨forms_lexPiece prev c cs p hp, ih hqs⟩

/-! ### The end of the output -/

theorem appendChar_eq_some :
    appendChar size c out = some out' ↔ out.length + 1 < size ∧ out' = c :: out := by
  rw [appendChar]
  split_ifs with h
  · exact iff_of_false nofun fun h' => absurd h'.1 (by omega)
  · rw [Option.some.injEq, eq_comm]
    exact (and_iff_right (by omega)).symm

theorem appendAll_eq_some {w : List Char} (h : appendAll size w out = some out') :
    out' = w.reverse ++ out := by
  induction w generalizing out with
  | nil => exact (Option.some.inj h).symm
  | cons c w ih =>
    rw [appendAll] at h
    obtain ⟨mid, hmid, h⟩ := Option.bind_eq_some_iff.mp h
    rw [ih h, (appendChar_eq_some.mp hmid).2, List.reverse_cons, List.append_assoc]
    rfl

theorem appendPlaceholder_head (h : appendPlaceholder size out = some out') :
    out'.head? = some '?' := by
  rw [appendPlaceholder] at h
  split_ifs at h with hq
  · rwa [← Option.some.inj h]
  · rw [(appendChar_eq_some.mp h).2]
    rfl

/-- **What a token leaves at the end of the output**: never a blank, and punctuation only if the
token is punctuation. -/
theorem QueryLexeme.emit_head (hp : p.isLayout = false) (hformed : p.Formed)
    (h : p.emit size next out = some out') :
    ∃ c, out'.head? = some c ∧ c ≠ ' ' ∧ tightPunctuation c = p.isTight := by
  have hquestion : appendPlaceholder size out = some out' →
      ∃ c, out'.head? = some c ∧ c ≠ ' ' ∧ tightPunctuation c = false := fun h =>
    ⟨'?', appendPlaceholder_head h, by decide, by decide⟩
  cases p with
  | space c => exact nomatch hp
  | line w => exact nomatch hp
  | block w => exact nomatch hp
  | quoted w =>
    refine ⟨dquoteChar, ?_, by decide, rfl⟩
    rw [appendAll_eq_some h, List.head?_append, List.head?_reverse, hformed.2]
    rfl
  | literal w => exact hquestion h
  | word w =>
    rw [emit] at h
    split_ifs at h
    · exact hquestion h
    · obtain ⟨hne, hall⟩ := hformed
      have hlast := List.getLast?_eq_some_getLast hne
      obtain ⟨htight, hblank⟩ := hall _ (List.getLast_mem hne)
      refine ⟨w.getLast hne, ?_, hblank, htight⟩
      rw [appendAll_eq_some h, List.head?_append, List.head?_reverse, hlast]
      rfl
  | punct c =>
    refine ⟨c, ?_, hformed, rfl⟩
    rw [(appendChar_eq_some.mp h).2]
    rfl

/-! ### A run of blanks and comments -/

theorem QueryLexeme.emit_of_not_space (hp : p.isSpace = false) (size : ℕ) (next next' : Option Char)
    (out : List Char) : p.emit size next out = p.emit size next' out := by
  cases p with
  | space c => exact nomatch hp
  | _ => rfl

theorem visible_append (hp : p.isSpace = false) (ps qs : List QueryLexeme) :
    visible (ps ++ p :: qs) = visible (ps ++ [p]) := by
  induction ps with
  | nil => simp [visible, hp]
  | cons q ps ih => simp only [List.cons_append, visible, ih]

theorem emitLexemes_append (hp : p.isSpace = false) (size : ℕ) (ps qs : List QueryLexeme)
    (out : List Char) :
    emitLexemes size (ps ++ p :: qs) out =
      (emitLexemes size (ps ++ [p]) out).bind (emitLexemes size qs) := by
  induction ps generalizing out with
  | nil =>
    simp only [List.nil_append, emitLexemes, p.emit_of_not_space hp size (visible qs) (visible [])]
    cases p.emit size (visible []) out <;> rfl
  | cons q ps ih =>
    simp only [List.cons_append, emitLexemes, visible_append hp ps qs]
    cases q.emit size (visible (ps ++ [p])) out with
    | none => rfl
    | some mid => exact ih mid

theorem exists_emit_of_emitLexemes (h : emitLexemes size (ps ++ [p]) out = some out') :
    ∃ next mid, p.emit size next mid = some out' := by
  induction ps generalizing out with
  | nil =>
    rw [List.nil_append, emitLexemes] at h
    obtain ⟨mid, hmid, h⟩ := Option.bind_eq_some_iff.mp h
    obtain rfl := Option.some.inj h
    exact ⟨_, out, hmid⟩
  | cons q ps ih =>
    rw [List.cons_append, emitLexemes] at h
    obtain ⟨mid, -, h⟩ := Option.bind_eq_some_iff.mp h
    exact ih h

theorem appendSpace_head (hne : out ≠ []) (h : appendSpace size out = some out') :
    out'.head? = some ' ' := by
  rw [appendSpace] at h
  split_ifs at h with hq
  · rw [← Option.some.inj h]
    exact hq.resolve_left hne
  · rw [(appendChar_eq_some.mp h).2]
    rfl

theorem spaceAction_eq (hc : out.head? = some c) (size : ℕ) (d : Char) :
    QueryScanner.spaceAction size out (some d) =
      if tightPunctuation c || tightPunctuation d then some out else appendSpace size out := by
  unfold QueryScanner.spaceAction
  rw [hc]
  cases hlast : tightPunctuation c <;> cases hnext : tightPunctuation d <;> simp [hlast, hnext]

theorem emitLexemes_layout (hps : ∀ p ∈ ps, p.isLayout = true) (qs : List QueryLexeme)
    (hout : out.head? = some ' ') : emitLexemes size (ps ++ qs) out = emitLexemes size qs out := by
  have hspace : appendSpace size out = some out := if_pos (Or.inr hout)
  induction ps with
  | nil => rfl
  | cons p ps ih =>
    obtain ⟨hp, hps⟩ := List.forall_mem_cons.mp hps
    have hemit : ∀ next, p.emit size next out = some out := by
      intro next
      cases p with
      | space c =>
        cases next with
        | none =>
          rw [QueryLexeme.emit]
          unfold QueryScanner.spaceAction
          rw [hout]
        | some d =>
          rw [QueryLexeme.emit, spaceAction_eq hout, hspace, ite_self]
      | line w => exact hspace
      | block w => exact hspace
      | _ => cases hp
    rw [List.cons_append, emitLexemes, hemit, Option.bind_some, ih hps]

theorem visible_of_spaces (hb : b.isSpace = false) (after : List QueryLexeme)
    (hls : ∀ p ∈ ls, p.isLayout = true) (hcomment : ls.any QueryLexeme.isComment = false) :
    visible (ls ++ b :: after) = b.text.head? := by
  induction ls with
  | nil => simp [visible, hb]
  | cons p ls ih =>
    obtain ⟨hp, hls⟩ := List.forall_mem_cons.mp hls
    rw [List.any_cons, Bool.or_eq_false_iff] at hcomment
    have hspace : p.isSpace = true := by
      rwa [QueryLexeme.isLayout, hcomment.1, Bool.or_false] at hp
    rw [List.cons_append, visible, if_pos hspace, ih hls hcomment.2]

theorem visible_of_comment (qs : List QueryLexeme) (hls : ∀ p ∈ ls, p.isLayout = true)
    (hformed : ∀ p ∈ ls, p.Formed) (hcomment : ls.any QueryLexeme.isComment = true) :
    ∃ d, visible (ls ++ qs) = some d ∧ tightPunctuation d = true := by
  induction ls with
  | nil => exact nomatch hcomment
  | cons p ls ih =>
    obtain ⟨hp, hls'⟩ := List.forall_mem_cons.mp hls
    obtain ⟨hpf, hformed'⟩ := List.forall_mem_cons.mp hformed
    cases p with
    | space c => exact ih hls' hformed' hcomment
    | line w => exact ⟨'-', hpf, by decide⟩
    | block w => exact ⟨'/', hpf, by decide⟩
    | _ => exact nomatch hp

/-- **A run between two tokens.** With a comment it leaves a blank, without one only between two
bytes that are not punctuation. -/
theorem emitLexemes_run (hne : ls ≠ []) (hls : ∀ p ∈ ls, p.isLayout = true)
    (hformed : ∀ p ∈ ls, p.Formed) (hb : b.isSpace = false) (after : List QueryLexeme) {d : Char}
    (hc : out.head? = some c) (hd : b.text.head? = some d) :
    emitLexemes size (ls ++ b :: after) out =
      (if ls.any QueryLexeme.isComment then appendSpace size out
        else QueryScanner.spaceAction size out (some d)).bind (emitLexemes size (b :: after)) := by
  have hout : out ≠ [] := by
    rintro rfl
    cases hc
  -- Once a blank is written, the rest of the run leaves no trace.
  have hblank : ∀ ps : List QueryLexeme, (∀ p ∈ ps, p.isLayout = true) →
      (appendSpace size out).bind (emitLexemes size (ps ++ b :: after)) =
        (appendSpace size out).bind (emitLexemes size (b :: after)) := by
    intro ps hps
    cases hspace : appendSpace size out with
    | none => rfl
    | some mid => exact emitLexemes_layout hps _ (appendSpace_head hout hspace)
  induction ls with
  | nil => exact absurd rfl hne
  | cons p ls ih =>
    obtain ⟨hp, hls'⟩ := List.forall_mem_cons.mp hls
    obtain ⟨-, hformed'⟩ := List.forall_mem_cons.mp hformed
    rw [List.cons_append, emitLexemes]
    cases p with
    | line w => exact hblank ls hls'
    | block w => exact hblank ls hls'
    | space e =>
      have hany : (QueryLexeme.space e :: ls).any QueryLexeme.isComment =
          ls.any QueryLexeme.isComment := rfl
      rw [hany, QueryLexeme.emit]
      by_cases hcomment : ls.any QueryLexeme.isComment = true
      · obtain ⟨d', hd', htight⟩ := visible_of_comment (b :: after) hls' hformed' hcomment
        have hne' : ls ≠ [] := by
          rintro rfl
          cases hcomment
        rw [hd', spaceAction_eq hc, htight, Bool.or_true, if_pos rfl, Option.bind_some,
          ih hne' hls' hformed']
      · rw [Bool.not_eq_true] at hcomment
        rw [visible_of_spaces hb after hls' hcomment, hd, hcomment, if_neg Bool.false_ne_true,
          spaceAction_eq hc]
        split_ifs with htight
        · rw [Option.bind_some, Option.bind_some]
          by_cases hne' : ls = []
          · rw [hne', List.nil_append]
          · rw [ih hne' hls' hformed', hcomment, if_neg Bool.false_ne_true, spaceAction_eq hc,
              if_pos htight, Option.bind_some]
        · exact hblank ls hls'
    | _ => cases hp

/-! ### Outputs that differ -/

/-- Two outputs that end with the same bytes and have different lengths before them. -/
def Diverge (o o' : List Char) : Prop :=
  ∃ x u v, x ≠ [] ∧ x.getLast? ≠ some ' ' ∧ o = x ++ u ∧ o' = x ++ v ∧ u.length ≠ v.length

namespace Diverge

variable {size : ℕ} {o o' r r' : List Char}

theorem head_eq (h : Diverge o o') : o.head? = o'.head? := by
  obtain ⟨x, u, v, hx, -, rfl, rfl, -⟩ := h
  rw [List.head?_append_of_ne_nil _ hx, List.head?_append_of_ne_nil _ hx]

theorem ne_nil (h : Diverge o o') : o ≠ [] ∧ o' ≠ [] := by
  obtain ⟨x, u, v, hx, -, rfl, rfl, -⟩ := h
  exact ⟨List.append_ne_nil_of_left_ne_nil hx u, List.append_ne_nil_of_left_ne_nil hx v⟩

theorem cons (h : Diverge o o') (c : Char) : Diverge (c :: o) (c :: o') := by
  obtain ⟨x, u, v, hx, hlast, rfl, rfl, huv⟩ := h
  refine ⟨c :: x, u, v, List.cons_ne_nil _ _, ?_, rfl, rfl, huv⟩
  rwa [List.getLast?_cons_of_ne_nil hx]

theorem appendChar (h : Diverge o o') (hr : PgWaitTracer.appendChar size c o = some r)
    (hr' : PgWaitTracer.appendChar size c o' = some r') : Diverge r r' := by
  rw [(appendChar_eq_some.mp hr).2, (appendChar_eq_some.mp hr').2]
  exact h.cons c

theorem appendAll {w : List Char} (h : Diverge o o')
    (hr : PgWaitTracer.appendAll size w o = some r)
    (hr' : PgWaitTracer.appendAll size w o' = some r') : Diverge r r' := by
  induction w generalizing o o' with
  | nil =>
    rw [← Option.some.inj hr, ← Option.some.inj hr']
    exact h
  | cons c w ih =>
    obtain ⟨mid, hmid, hr⟩ := Option.bind_eq_some_iff.mp hr
    obtain ⟨mid', hmid', hr'⟩ := Option.bind_eq_some_iff.mp hr'
    exact ih (h.appendChar hmid hmid') hr hr'

theorem appendSpace (h : Diverge o o') (hr : PgWaitTracer.appendSpace size o = some r)
    (hr' : PgWaitTracer.appendSpace size o' = some r') : Diverge r r' := by
  rw [PgWaitTracer.appendSpace] at hr hr'
  rw [← h.head_eq] at hr'
  simp only [h.ne_nil.1, h.ne_nil.2, false_or] at hr hr'
  split_ifs at hr hr'
  · rw [← Option.some.inj hr, ← Option.some.inj hr']
    exact h
  · exact h.appendChar hr hr'

theorem appendPlaceholder (h : Diverge o o') (hr : PgWaitTracer.appendPlaceholder size o = some r)
    (hr' : PgWaitTracer.appendPlaceholder size o' = some r') : Diverge r r' := by
  rw [PgWaitTracer.appendPlaceholder] at hr hr'
  rw [← h.head_eq] at hr'
  split_ifs at hr hr'
  · rw [← Option.some.inj hr, ← Option.some.inj hr']
    exact h
  · exact h.appendChar hr hr'

theorem dropSpace (h : Diverge o o') :
    Diverge (PgWaitTracer.dropSpace o) (PgWaitTracer.dropSpace o') := by
  have hhead := h.head_eq
  rw [PgWaitTracer.dropSpace, PgWaitTracer.dropSpace, ← hhead]
  split_ifs with hblank
  · obtain ⟨x, u, v, hx, hlast, rfl, rfl, huv⟩ := h
    rw [List.head?_append_of_ne_nil _ hx] at hblank
    obtain ⟨c, x, rfl⟩ := List.exists_cons_of_ne_nil hx
    obtain rfl : c = ' ' := Option.some.inj hblank
    have hx' : x ≠ [] := by
      rintro rfl
      exact hlast rfl
    refine ⟨x, u, v, hx', ?_, rfl, rfl, huv⟩
    rwa [List.getLast?_cons_of_ne_nil hx'] at hlast
  · exact h

theorem spaceAction (h : Diverge o o') (hr : QueryScanner.spaceAction size o next = some r)
    (hr' : QueryScanner.spaceAction size o' next = some r') : Diverge r r' := by
  unfold QueryScanner.spaceAction at hr hr'
  rw [← h.head_eq] at hr'
  cases hlast : o.head? with
  | none => exact absurd (List.head?_eq_none_iff.mp hlast) h.ne_nil.1
  | some c =>
    rw [hlast] at hr hr'
    cases next with
    | none =>
      rw [← Option.some.inj hr, ← Option.some.inj hr']
      exact h
    | some d =>
      dsimp only at hr hr'
      split_ifs at hr hr'
      · exact h.appendSpace hr hr'
      · rw [← Option.some.inj hr, ← Option.some.inj hr']
        exact h

theorem emit (h : Diverge o o') (hr : p.emit size next o = some r)
    (hr' : p.emit size next o' = some r') : Diverge r r' := by
  cases p with
  | space c => exact h.spaceAction hr hr'
  | line w => exact h.appendSpace hr hr'
  | block w => exact h.appendSpace hr hr'
  | quoted w => exact h.appendAll hr hr'
  | literal w => exact h.appendPlaceholder hr hr'
  | word w =>
    rw [QueryLexeme.emit] at hr hr'
    split_ifs at hr hr'
    · exact h.appendPlaceholder hr hr'
    · exact h.appendAll hr hr'
  | punct c =>
    rw [QueryLexeme.emit] at hr hr'
    split_ifs at hr hr'
    · exact h.dropSpace.appendChar hr hr'
    · exact h.appendChar hr hr'

theorem emitLexemes (h : Diverge o o') (hr : PgWaitTracer.emitLexemes size ps o = some r)
    (hr' : PgWaitTracer.emitLexemes size ps o' = some r') : Diverge r r' := by
  induction ps generalizing o o' with
  | nil =>
    rw [← Option.some.inj hr, ← Option.some.inj hr']
    exact h
  | cons p ps ih =>
    obtain ⟨mid, hmid, hr⟩ := Option.bind_eq_some_iff.mp hr
    obtain ⟨mid', hmid', hr'⟩ := Option.bind_eq_some_iff.mp hr'
    exact ih (h.emit hmid hmid') hr hr'

theorem trim_ne (h : Diverge o o') :
    (o.dropWhile (· = ' ')).reverse ≠ (o'.dropWhile (· = ' ')).reverse := by
  obtain ⟨x, u, v, hx, hlast, rfl, rfl, huv⟩ := h
  have hdrop : x.dropWhile (· = ' ') ≠ [] := by
    intro hnil
    have hall := List.dropWhile_eq_nil_iff.mp hnil _ (List.getLast_mem hx)
    rw [List.getLast?_eq_some_getLast hx] at hlast
    exact hlast (congrArg some (of_decide_eq_true hall))
  have happend : ∀ w : List Char, (x ++ w).dropWhile (· = ' ') = x.dropWhile (· = ' ') ++ w := by
    intro w
    rw [List.dropWhile_append, if_neg (by simpa using hdrop)]
  rw [happend, happend]
  intro heq
  have hlen := congrArg List.length heq
  simp only [List.length_reverse, List.length_append] at hlen
  omega

end Diverge

/-! ### Runs of two kinds -/

theorem head?_of_formed (hb : b.isLayout = false) (hformed : b.Formed) :
    ∃ d, b.text.head? = some d ∧ tightPunctuation d = (b.isTight || b.isDotted) := by
  cases b with
  | space c => exact nomatch hb
  | line w => exact nomatch hb
  | block w => exact nomatch hb
  | quoted w => exact ⟨dquoteChar, hformed.1, rfl⟩
  | literal w =>
    obtain ⟨c, hc, htight⟩ := hformed
    refine ⟨c, hc, ?_⟩
    have hdotted : ((QueryLexeme.literal w).isTight || (QueryLexeme.literal w).isDotted) =
        decide (w.head? = some '.') := rfl
    rw [hdotted, hc]
    by_cases hdot : c = '.'
    · rw [hdot]
      decide
    · rw [Bool.eq_false_iff.mpr (mt htight hdot)]
      simp [hdot]
  | word w =>
    obtain ⟨hne, hall⟩ := hformed
    obtain ⟨c, w, rfl⟩ := List.exists_cons_of_ne_nil hne
    exact ⟨c, rfl, (hall c List.mem_cons_self).1⟩
  | punct c =>
    exact ⟨c, rfl, (Bool.or_false _).symm⟩

/-- **A blank in front of a token stays**, unless the token is punctuation. -/
theorem diverge_of_blank (hb : b.isLayout = false) (hformed : b.Formed) (htight : b.isTight = false)
    {r r' : List Char} (hr : b.emit size next out = some r)
    (hr' : b.emit size next (' ' :: out) = some r') : Diverge r r' := by
  have hlen : out.length ≠ (' ' :: out).length := (Nat.succ_ne_self _).symm
  have hplaceholder : appendPlaceholder size out = some r →
      appendPlaceholder size (' ' :: out) = some r' → Diverge r r' := by
    intro hr hr'
    rw [appendPlaceholder, if_neg (by simp)] at hr'
    rw [(appendChar_eq_some.mp hr').2]
    rw [appendPlaceholder] at hr
    split_ifs at hr with hq
    · obtain ⟨t, rfl⟩ := List.head?_eq_some_iff.mp hq
      rw [← Option.some.inj hr]
      exact ⟨['?'], t, ' ' :: '?' :: t, by simp, by simp, rfl, rfl, by simp; omega⟩
    · rw [(appendChar_eq_some.mp hr).2]
      exact ⟨['?'], out, ' ' :: out, by simp, by simp, rfl, rfl, hlen⟩
  have hall : ∀ w : List Char, w ≠ [] → w.head? ≠ some ' ' → appendAll size w out = some r →
      appendAll size w (' ' :: out) = some r' → Diverge r r' := by
    intro w hw hhead hr hr'
    rw [appendAll_eq_some hr, appendAll_eq_some hr']
    exact ⟨w.reverse, out, ' ' :: out, by simpa using hw, by rwa [List.getLast?_reverse], rfl, rfl,
      hlen⟩
  cases b with
  | space c => exact nomatch hb
  | line w => exact nomatch hb
  | block w => exact nomatch hb
  | quoted w =>
    obtain ⟨hhead, -⟩ := hformed
    refine hall w ?_ ?_ hr hr'
    · rintro rfl
      exact nomatch hhead
    · rw [hhead]
      decide
  | literal w => exact hplaceholder hr hr'
  | word w =>
    rw [QueryLexeme.emit] at hr hr'
    split_ifs at hr hr'
    · exact hplaceholder hr hr'
    · obtain ⟨hne, hbytes⟩ := hformed
      refine hall w hne ?_ hr hr'
      obtain ⟨c, w, rfl⟩ := List.exists_cons_of_ne_nil hne
      exact fun h => (hbytes c List.mem_cons_self).2 (Option.some.inj h)
  | punct c =>
    have hc : tightPunctuation c = false := htight
    rw [QueryLexeme.emit, hc, if_neg Bool.false_ne_true] at hr hr'
    rw [(appendChar_eq_some.mp hr).2, (appendChar_eq_some.mp hr').2]
    exact ⟨[c], out, ' ' :: out, by simp, fun h => hformed (Option.some.inj h), rfl, rfl, hlen⟩

theorem emit_of_blank (htight : b.isTight = true) (size : ℕ) (next : Option Char)
    (hout : out.head? ≠ some ' ') : b.emit size next (' ' :: out) = b.emit size next out := by
  cases b with
  | punct c =>
    have hc : tightPunctuation c = true := htight
    rw [QueryLexeme.emit, QueryLexeme.emit, hc, if_pos rfl, if_pos rfl, dropSpace, dropSpace,
      if_neg hout]
    rfl
  | _ => cases htight

theorem normalizeQuery_eq_some {input : List Char} {r : List Char} (hps : lexQuery input = some ps)
    (h : normalizeQuery input size = some r) :
    ∃ o, emitLexemes size ps [] = some o ∧ r = (o.dropWhile (· = ' ')).reverse := by
  rw [normalizeQuery_eq] at h
  split_ifs at h
  rw [hps, Option.bind_some] at h
  obtain ⟨o, ho, rfl⟩ := Option.map_eq_some_iff.mp h
  exact ⟨o, ho, rfl⟩

theorem syntheticQuery_congr {input input' : List Char}
    (h : normalizeQuery input size = normalizeQuery input' size) (databaseid userid : UInt32) :
    syntheticQuery databaseid userid input size = syntheticQuery databaseid userid input' size := by
  rw [syntheticQuery, syntheticQuery, h]

/-- **A run with a comment and a run without one** give the same text exactly if it does not matter
between the two tokens. -/
theorem trim_eq_iff {a : QueryLexeme} {after : List QueryLexeme} {o o' : List Char}
    (hb : b.isLayout = false) (hformed : b.Formed) (hc : out.head? = some c) (hblank : c ≠ ' ')
    (hctight : tightPunctuation c = a.isTight)
    (ho : (appendSpace size out).bind (emitLexemes size (b :: after)) = some o)
    (ho' : (QueryScanner.spaceAction size out b.text.head?).bind (emitLexemes size (b :: after)) =
      some o') :
    (o.dropWhile (· = ' ')).reverse = (o'.dropWhile (· = ' ')).reverse ↔
      layoutMatters a b = false := by
  obtain ⟨d, hd, hdtight⟩ := head?_of_formed hb hformed
  have hhead : out.head? ≠ some ' ' := by
    rw [hc]
    exact fun h => hblank (Option.some.inj h)
  have hne : out ≠ [] := by
    rintro rfl
    cases hc
  have hspace : appendSpace size out = appendChar size ' ' out := if_neg (not_or.mpr ⟨hne, hhead⟩)
  rw [hd, spaceAction_eq hc, hctight, hdtight] at ho'
  by_cases hkept : (a.isTight || (b.isTight || b.isDotted)) = true
  · rw [if_pos hkept, Option.bind_some] at ho'
    obtain ⟨mid, hmid, ho⟩ := Option.bind_eq_some_iff.mp ho
    rw [hspace] at hmid
    rw [(appendChar_eq_some.mp hmid).2] at ho
    rw [emitLexemes] at ho ho'
    by_cases htight : b.isTight = true
    · rw [emit_of_blank htight size _ hhead] at ho
      have hdotted : b.isDotted = false := by
        cases b with
        | punct e => rfl
        | _ => cases htight
      rw [layoutMatters, htight, hdotted, Option.some.inj (ho.symm.trans ho')]
      simp
    · rw [Bool.not_eq_true] at htight
      obtain ⟨r, hr, ho⟩ := Option.bind_eq_some_iff.mp ho
      obtain ⟨r', hr', ho'⟩ := Option.bind_eq_some_iff.mp ho'
      have hdiverge := (diverge_of_blank hb hformed htight hr' hr).emitLexemes ho' ho
      refine iff_of_false hdiverge.trim_ne.symm ?_
      rw [htight, Bool.false_or] at hkept
      rw [layoutMatters, htight, Bool.not_false, Bool.and_true, hkept]
      exact Bool.true_eq_false.mp
  · rw [if_neg hkept, ho] at ho'
    rw [Bool.not_eq_true] at hkept
    obtain ⟨hatight, hbtight⟩ := Bool.or_eq_false_iff.mp hkept
    rw [layoutMatters, hatight, (Bool.or_eq_false_iff.mp hbtight).2, Option.some.inj ho']
    simp

/-- **Layout does not split a query group, except where a comment and a blank are not the same.**
Two texts have the same tokens, and between two of them two runs of blanks and comments. If the
output is large enough for both, the normalised texts and the keys are the same exactly if both
runs have a comment, or neither has, or it does not matter between these tokens. -/
theorem normalizeQuery_layout_iff {input input' : List Char} {size : ℕ}
    {before after run run' : List QueryLexeme} {a b : QueryLexeme}
    (hlex : lexQuery input = some (before ++ a :: (run ++ b :: after)))
    (hlex' : lexQuery input' = some (before ++ a :: (run' ++ b :: after)))
    (ha : a.isLayout = false) (hb : b.isLayout = false)
    (hrun : run ≠ [] ∧ ∀ p ∈ run, p.isLayout = true)
    (hrun' : run' ≠ [] ∧ ∀ p ∈ run', p.isLayout = true)
    (hsize : (normalizeQuery input size).isSome) (hsize' : (normalizeQuery input' size).isSome) :
    (normalizeQuery input size = normalizeQuery input' size ∧
        ∀ databaseid userid, syntheticQuery databaseid userid input size =
          syntheticQuery databaseid userid input' size) ↔
      run.any QueryLexeme.isComment = run'.any QueryLexeme.isComment ∨
        layoutMatters a b = false := by
  have haspace : a.isSpace = false := (Bool.or_eq_false_iff.mp ha).1
  have hbspace : b.isSpace = false := (Bool.or_eq_false_iff.mp hb).1
  have hformed := formed_lexFrom hlex
  have hformed' := formed_lexFrom hlex'
  have hbf : b.Formed := hformed b (by simp)
  have haf : a.Formed := hformed a (by simp)
  obtain ⟨r, hr⟩ := Option.isSome_iff_exists.mp hsize
  obtain ⟨r', hr'⟩ := Option.isSome_iff_exists.mp hsize'
  obtain ⟨o, ho, rfl⟩ := normalizeQuery_eq_some hlex hr
  obtain ⟨o', ho', rfl⟩ := normalizeQuery_eq_some hlex' hr'
  -- Up to the run the two outputs are the same.
  rw [emitLexemes_append haspace] at ho ho'
  obtain ⟨out, hout, ho⟩ := Option.bind_eq_some_iff.mp ho
  obtain ⟨out', hout', ho'⟩ := Option.bind_eq_some_iff.mp ho'
  obtain rfl : out = out' := Option.some.inj (hout.symm.trans hout')
  obtain ⟨next, mid, hemit⟩ := exists_emit_of_emitLexemes hout
  obtain ⟨c, hc, hblank, hctight⟩ := QueryLexeme.emit_head ha haf hemit
  obtain ⟨d, hd, hdtight⟩ := head?_of_formed hb hbf
  rw [emitLexemes_run hrun.1 hrun.2 (fun p hp => hformed p (by simp [hp])) hbspace after hc hd]
    at ho
  rw [emitLexemes_run hrun'.1 hrun'.2 (fun p hp => hformed' p (by simp [hp])) hbspace after hc hd]
    at ho'
  have hkeys : (normalizeQuery input size = normalizeQuery input' size ∧
      ∀ databaseid userid, syntheticQuery databaseid userid input size =
        syntheticQuery databaseid userid input' size) ↔
      (o.dropWhile (· = ' ')).reverse = (o'.dropWhile (· = ' ')).reverse := by
    rw [and_iff_left_of_imp fun h => syntheticQuery_congr h, hr, hr', Option.some.injEq]
  rw [hkeys]
  rw [← hd] at ho ho'
  cases hany : run.any QueryLexeme.isComment <;> cases hany' : run'.any QueryLexeme.isComment <;>
    rw [hany] at ho <;> rw [hany'] at ho'
  · rw [Option.some.inj (ho.symm.trans ho')]
    simp
  · rw [eq_comm, trim_eq_iff hb hbf hc hblank hctight ho' ho]
    simp
  · rw [trim_eq_iff hb hbf hc hblank hctight ho ho']
    simp
  · rw [Option.some.inj (ho.symm.trans ho')]
    simp

/-- The theorem at a sum whose operands a blank or a comment separates from the sign. -/
theorem normalizeQuery_layout_iff_sum :
    ¬(normalizeQuery "a+ b".toList 100 = normalizeQuery "a+/**/b".toList 100 ∧
      ∀ databaseid userid, syntheticQuery databaseid userid "a+ b".toList 100 =
        syntheticQuery databaseid userid "a+/**/b".toList 100) :=
  mt (@normalizeQuery_layout_iff "a+ b".toList "a+/**/b".toList 100 [.word ['a']] [] [.space ' ']
    [.block "/**/".toList] (.punct '+') (.word ['b']) (by decide +kernel) (by decide +kernel) rfl
    rfl ⟨by simp, by decide⟩ ⟨by simp, by decide⟩ (by decide +kernel) (by decide +kernel)).mp
    (by decide +kernel)

/-- A comment behind an operator takes a query out of its group. -/
theorem layout_splits :
    lexQuery "a+ b".toList =
        some [.word ['a'], .punct '+', .space ' ', .word ['b']] ∧
      lexQuery "a+/**/b".toList =
        some [.word ['a'], .punct '+', .block "/**/".toList, .word ['b']] ∧
      normalizeQuery "a+ b".toList 100 = some "a+b".toList ∧
      normalizeQuery "a+/**/b".toList 100 = some "a+ b".toList ∧
      syntheticQuery 1 10 "a+ b".toList 100 ≠ syntheticQuery 1 10 "a+/**/b".toList 100 := by
  decide +kernel

end PgWaitTracer
