import Mathlib.Order.RelClasses
import TomP2P.Foundation.Runs
import TomP2P.Theory.Rounds

/-!
# Rounds of Requests Come to an End

A round that takes over the requests of the one before has as much to do as that one
had at first. What is less then is the number of requests that are still to be
evaluated: a round is over only after it has evaluated one (`Moves.unevaluated_lt`).
The number is looked at in two ways, since a round counts what it evaluates only when
it is over (`unevaluated`).

So there is no run without end if the number of peers that can be asked is bounded.
This holds whoever runs the rounds.

## Main definitions

* `Rounds.unevaluated`: The requests that no round has evaluated.
* `Rounds.Lasts`: What the rounds keep while they last.

## Theorems

* `Rounds.progress`: Every event asks a peer or leaves less to do.
* `Rounds.finite`: There is no run without end.
-/

namespace TomP2P

open FutureResponse List

namespace Rounds

variable {σ P A : Type} {k : Client σ P A} {s s' : Rounds σ P A}

/-- The requests that were evaluated by a round that is over. -/
def settled (s : Rounds σ P A) : List Nat := if s.position = none then s.evaluated else s.past

/-- The number of requests that no round has evaluated. -/
def unevaluated (s : Rounds σ P A) : Nat := s.requests.length - s.settled.length

/-- How much there is left to do in a round that may take over requests. -/
def toGo (s : Rounds σ P A) : Nat :=
  s.listeners.length +
    match s.control with
    | .fill i _ => left s.slots.length (.fill i 1)
    | control => left s.slots.length control

/-- What the rounds keep while they last. -/
structure Lasts (k : Client σ P A) (s : Rounds σ P A) : Prop where
  round : Round s
  fits : Fits k s
  /-- A fork join has requests, but no more than there are slots. -/
  active : s.position ≠ none → s.active ≠ 0 ∧ s.active ≤ s.slots.length

theorem Lasts.settled_le (h : Lasts k s) : s.settled.length ≤ s.requests.length := by
  have hle (l : List Nat) (hnodup : l.Nodup) (hlt : ∀ r ∈ l, r ∈ s.evaluated) :
      l.length ≤ s.requests.length := by
    have hsub : l ⊆ List.range s.requests.length := by
      intro r hr
      rcases returned_iff.mp (h.round.sound.done r (hlt r hr)) with ⟨f, hf, -⟩
      exact List.mem_range.mpr (List.getElem?_eq_some_iff.mp hf).1
    simpa using (subperm_of_subset hnodup hsub).length_le
  have hnodup := h.round.sound.nodup
  unfold settled
  split
  · exact hle _ hnodup fun r hr => hr
  · rw [evaluated, nodup_append] at hnodup
    exact hle _ hnodup.1 fun r hr => mem_append_left _ hr

/-! ### What is settled -/

-- A round that is over has evaluated one of its requests.
theorem Lasts.forksCopy_pos (h : Lasts k s) (hcontrol : s.control = .react) : 0 < s.join.forksCopy.length := by
  have hpos : s.position = some s.slots.length := by rw [position, hcontrol]
  have hactive := (h.active (by rw [hpos]; simp)).1
  have hclosed := (h.round.forked _ hpos).closed (h.round.reacting hcontrol)
  rcases FutureForkJoin.completed_iff.mp hclosed.done with hok | hfailed
  · rcases (hclosed.ok hok).2 with ⟨r, hlast, -⟩
    exact length_pos_of_mem (mem_of_getLast? hlast)
  · have hnone : s.slots.countP Option.isSome = 0 := by
      rw [countP_eq_zero]
      rintro x hx hsome
      rcases Option.isSome_iff_exists.mp hsome with ⟨r, rfl⟩
      rcases mem_iff_getElem?.mp hx with ⟨i, hi⟩
      exact (hclosed.failed hfailed).1 i r hi
    have htotal := (h.round.counted _ hpos).total
    omega

theorem settled_eq (hpos : s'.position = none ↔ s.position = none) (hpast : s'.past = s.past)
    (hjoin : s.position = none → s'.join = s.join) : s'.settled = s.settled := by
  unfold settled evaluated
  by_cases hnone : s.position = none
  · rw [if_pos hnone, if_pos (hpos.mpr hnone), hpast, hjoin hnone]
  · rw [if_neg hnone, if_neg (fun h => hnone (hpos.mp h)), hpast]

theorem length_requests (h : s'.asked = s.asked) : s'.requests.length = s.requests.length := by
  have hlength := congrArg List.length h
  rwa [asked, asked, length_map, length_map] at hlength

/-- What is settled stays settled. -/
theorem Moves.settled_le (h : Moves k s s') : s.settled.length ≤ s'.settled.length := by
  have hfill {i active : Nat} (hcontrol : s.control = .fill i active) : s.position = none := by
    rw [position, hcontrol]
  -- a round that is over settles what it has evaluated
  have hover (hcontrol : s.control = .react) (hnone : s'.position = none) (hpast : s'.past = s.past)
      (hjoin : s'.join = s.join) : s.settled.length ≤ s'.settled.length := by
    rw [settled, settled, if_pos hnone, if_neg (by rw [position, hcontrol]; simp), evaluated, hpast, hjoin]
    simp
  have hsame (heq : s'.settled = s.settled) : s.settled.length ≤ s'.settled.length :=
    Nat.le_of_eq (congrArg List.length heq.symm)
  cases h with
  | keep hquiet hcontrol hslots hjoin =>
      exact hsame (settled_eq (by rw [position, position, hcontrol, hslots]) hquiet.past fun _ => hjoin)
  | inner hquiet hpos hpos' _ =>
      exact hsame (settled_eq (iff_of_false hpos' hpos) hquiet.past fun hnone => absurd hnone hpos)
  | busy i active r hcontrol _ _ heq =>
      subst heq
      exact hsame (settled_eq (iff_of_true rfl (hfill hcontrol)) rfl fun _ => rfl)
  | nobody i active pick hcontrol _ _ _ heq =>
      subst heq
      exact hsame (settled_eq (iff_of_true rfl (hfill hcontrol)) rfl fun _ => rfl)
  | ask i active pick peer client outcome hcontrol _ _ _ heq =>
      subst heq
      exact hsame (settled_eq (iff_of_true rfl (hfill hcontrol)) rfl fun _ => rfl)
  | idle i hcontrol _ heq =>
      rcases quiet_finish (k := k) s (k.idle s.client) with ⟨hquiet, hended, -, hjoin⟩
      rw [← heq] at hquiet hended hjoin
      exact hsame (settled_eq (iff_of_true (by rw [position, hended]) (hfill hcontrol)) hquiet.past fun _ => hjoin)
  | fork i active hcontrol _ _ heq =>
      subst heq
      refine hsame ?_
      rw [settled, settled, if_pos (hfill hcontrol), if_neg (by rintro ⟨⟩)]
      rfl
  | last hcontrol _ heq =>
      rcases quiet_finish (k := k) s (k.react s.client s.active s.join s.completed).2 with ⟨hquiet, hended, -, hjoin⟩
      rw [← heq] at hquiet hended hjoin
      exact hover hcontrol (by rw [position, hended]) hquiet.past hjoin
  | again hcontrol _ heq =>
      subst heq
      exact hover hcontrol rfl rfl rfl

-- The next round begins with more that is settled.
theorem Lasts.settled_lt (h : Lasts k s) (hcontrol : s.control = .react) {client : σ} :
    s.settled.length < { s with client := client, control := .fill 0 0 : Rounds σ P A }.settled.length := by
  have hpos := h.forksCopy_pos hcontrol
  have hnone : ({ s with client := client, control := .fill 0 0 } : Rounds σ P A).position = none := rfl
  rw [settled, settled, if_pos hnone, if_neg (by rw [position, hcontrol]; simp), evaluated]
  dsimp only
  rw [length_append]
  omega

theorem Moves.width (h : Moves k s s') : s'.slots.length = s.slots.length := by
  cases h with
  | keep hquiet _ _ _ => exact hquiet.width
  | inner hquiet _ _ _ => exact hquiet.width
  | busy _ _ _ _ _ _ heq => rw [heq]
  | nobody _ _ _ _ _ _ _ heq => rw [heq]
  | ask _ _ _ _ _ _ _ _ _ _ heq =>
      rw [heq]
      exact length_set
  | idle _ _ _ heq => rw [heq, (quiet_finish _ _).2.2.1]
  | fork _ _ _ _ _ heq =>
      rw [heq]
      rfl
  | last _ _ heq => rw [heq, (quiet_finish _ _).2.2.1]
  | again _ _ heq => rw [heq]

/-- A fork join has requests. -/
theorem Moves.active (h : Moves k s s') (hround : Round s)
    (hactive : s.position ≠ none → s.active ≠ 0 ∧ s.active ≤ s.slots.length) :
    s'.position ≠ none → s'.active ≠ 0 ∧ s'.active ≤ s'.slots.length := by
  rw [h.width]
  intro hpos'
  cases h with
  | keep hquiet hcontrol hslots _ =>
      rw [hquiet.active]
      exact hactive (by rwa [position, hcontrol, hslots] at hpos')
  | inner hquiet hpos _ _ =>
      rw [hquiet.active]
      exact hactive hpos
  | busy _ _ _ _ _ _ heq =>
      rw [heq] at hpos'
      exact absurd rfl hpos'
  | nobody _ _ _ _ _ _ _ heq =>
      rw [heq] at hpos'
      exact absurd rfl hpos'
  | ask _ _ _ _ _ _ _ _ _ _ heq =>
      rw [heq] at hpos'
      exact absurd rfl hpos'
  | idle _ _ _ heq =>
      rw [heq, position, (quiet_finish _ _).2.1] at hpos'
      exact absurd rfl hpos'
  | fork i active hcontrol _ hne heq =>
      have hfilled := (hround.filling i active hcontrol).2
      have hcount := countP_le_length (l := s.slots.take i) (p := Option.isSome)
      have htake := length_take_le' i s.slots
      rw [heq]
      refine ⟨hne, ?_⟩
      change active ≤ s.slots.length
      omega
  | last _ _ heq =>
      rw [heq, position, (quiet_finish _ _).2.1] at hpos'
      exact absurd rfl hpos'
  | again _ _ heq =>
      rw [heq] at hpos'
      exact absurd rfl hpos'

/-! ### One event -/

/-- Less is left of a round whose thread is filling slots before and after, or neither
    before nor after. -/
theorem Less.toGo (h : Less s' s) (hwidth : s'.slots.length = s.slots.length)
    (hsame : s'.control = s.control ∨
      (∀ i active, s.control ≠ .fill i active) ∧ ∀ i active, s'.control ≠ .fill i active) :
    s'.pending < s.pending ∨ s'.pending ≤ s.pending ∧ s'.toGo < s.toGo := by
  rcases h with hpending | ⟨hpending, hless⟩
  · exact .inl hpending
  · refine .inr ⟨hpending, ?_⟩
    unfold remaining at hless
    unfold Rounds.toGo
    rcases hsame with hsame | ⟨hno, hno'⟩
    · rw [hsame, hwidth] at hless ⊢
      cases s.control <;> simp only [left] at hless ⊢ <;> omega
    · cases hcontrol : s.control <;> cases hcontrol' : s'.control <;>
        first
        | exact absurd hcontrol (hno _ _)
        | exact absurd hcontrol' (hno' _ _)
        | (rw [hcontrol, hcontrol'] at hless; exact hless)

theorem control_complete {r : Nat} {answer : Option A} (hstep : s.step k (.complete r answer) = some s') :
    s'.control = s.control := by
  simp only [Rounds.step] at hstep
  split at hstep
  · cases hstep
    rfl
  · cases hstep

-- A request that has come back may call the listener of the fork join.
theorem control_notify {r i : Nat} (hstep : s.step k (.notify r i : Event A) = some s') :
    s'.control = s.control ∨
      (∀ i active, s.control ≠ .fill i active) ∧ ∀ i active, s'.control ≠ .fill i active := by
  simp only [Rounds.step] at hstep
  split at hstep
  · cases hstep
    unfold Rounds.evaluate
    dsimp only
    split
    · exact .inl rfl
    · dsimp only
      split
      · next hcall => exact .inr ⟨by rw [hcall.2]; simp, (by rintro _ _ ⟨⟩)⟩
      · exact .inl rfl
  · cases hstep

-- Requests that come back do not begin a round.
theorem go_of_fill (hno : ∀ i active, s.control ≠ .fill i active) {e : Event A} {i active : Nat}
    (hstep : s.step k e = some s') (hfill : s'.control = .fill i active) : ∃ pick outcome, e = .go pick outcome := by
  cases e with
  | go pick outcome => exact ⟨pick, outcome, rfl⟩
  | complete r answer => exact absurd ((control_complete hstep).symm.trans hfill) (hno i active)
  | notify r slot =>
      rcases control_notify hstep with hsame | ⟨-, hno'⟩
      · exact absurd (hsame.symm.trans hfill) (hno i active)
      · exact absurd hfill (hno' i active)

/-- A thread that was not filling slots and now is has begun another round. -/
theorem Lasts.settled_again (h : Lasts k s) (hno : ∀ i active, s.control ≠ .fill i active) {i active : Nat}
    (hcontrol' : s'.control = .fill i active) (hmoves : Moves k s s') : s.settled.length < s'.settled.length := by
  cases hmoves with
  | keep _ hcontrol _ _ => exact absurd (hcontrol.symm.trans hcontrol') (hno i active)
  | inner _ _ hpos' _ =>
      rw [position, hcontrol'] at hpos'
      exact absurd rfl hpos'
  | busy _ _ _ hcontrol _ _ _ => exact absurd hcontrol (hno _ _)
  | nobody _ _ _ hcontrol _ _ _ _ => exact absurd hcontrol (hno _ _)
  | ask _ _ _ _ _ _ hcontrol _ _ _ _ => exact absurd hcontrol (hno _ _)
  | idle _ hcontrol _ _ => exact absurd hcontrol (hno _ _)
  | fork _ _ hcontrol _ _ _ => exact absurd hcontrol (hno _ _)
  | last _ _ heq =>
      rw [heq, (quiet_finish _ _).2.1] at hcontrol'
      cases hcontrol'
  | again hcontrol _ heq =>
      rw [heq]
      exact h.settled_lt hcontrol

/-- A thread that is filling slots asks a peer or leaves less to do. -/
theorem Lasts.fill_less (h : Lasts k s) {i active : Nat} (hcontrol : s.control = .fill i active) {pick : Nat}
    {outcome : Option (Option A)} (hstep : s.step k (.go pick outcome) = some s') :
    s'.asked.length = s.asked.length + 1 ∨
      s'.asked = s.asked ∧ s'.pending ≤ s.pending ∧ s'.toGo < s.toGo := by
  rcases h.round.filling i active hcontrol with ⟨hle, -⟩
  simp only [Rounds.step, Rounds.go, hcontrol] at hstep
  split at hstep
  · next hi =>
      cases hstep
      have hwidth := h.fits.width i active hcontrol
      unfold Rounds.fill
      rcases hslot : s.slots[i]? with _ | _ | r
      · rw [getElem?_eq_none_iff] at hslot
        omega
      · dsimp only
        rcases hnext : k.next s.client pick with _ | ⟨peer, client⟩
        · refine .inr ⟨rfl, Nat.le_refl _, ?_⟩
          unfold toGo
          simp only [hcontrol, left]
          omega
        · refine .inl ?_
          unfold asked
          rw [length_map, length_map, length_append]
          rfl
      · refine .inr ⟨rfl, Nat.le_refl _, ?_⟩
        unfold toGo
        simp only [hcontrol, left]
        omega
  · split at hstep
    · cases hstep
      rcases quiet_finish (k := k) s (k.idle s.client) with ⟨hquiet, hended, -, -⟩
      refine .inr ⟨hquiet.asked, pending_finish s _, ?_⟩
      have hremaining := remaining_finish (k := k) s (k.idle s.client)
      unfold remaining at hremaining
      unfold toGo
      simp only [hcontrol, hended, left] at hremaining ⊢
      omega
    · cases hstep
      refine .inr ⟨rfl, Nat.le_refl _, ?_⟩
      unfold toGo Rounds.fork
      simp only [hcontrol, left, length_nil, Nat.one_ne_zero, if_false]
      omega

/-- An event that makes a request asks whom there is to ask. -/
theorem Round.asks_of_go (h : Round s) {pick : Nat} {outcome : Option (Option A)}
    (hstep : s.step k (.go pick outcome) = some s') :
    s'.requests.length = s.requests.length ∨
      ∃ i active peer client, s.control = .fill i active ∧ k.next s.client pick = some (peer, client) ∧
        s' = { s with
          client := client
          requests := s.requests ++ [⟨peer, outcome⟩]
          slots := s.slots.set i (some s.requests.length)
          control := .fill (i + 1) (active + 1) } := by
  by_cases hfill : ∃ i active, s.control = .fill i active
  · rcases hfill with ⟨i, active, hcontrol⟩
    simp only [Rounds.step, Rounds.go, hcontrol] at hstep
    split at hstep
    · cases hstep
      unfold Rounds.fill
      split
      · exact .inl rfl
      · exact .inl rfl
      · split
        · exact .inl rfl
        · next hnext => exact .inr ⟨i, active, _, _, hcontrol, hnext, rfl⟩
    · split at hstep
      · cases hstep
        exact .inl (length_requests (quiet_finish _ _).1.asked)
      · cases hstep
        exact .inl rfl
  · exact .inl (length_requests (h.less_go (fun i active hcontrol => hfill ⟨i, active, hcontrol⟩) hstep).1)

/-- A round that begins asks somebody at once, if there is anybody. -/
theorem asks_first (hcontrol : s.control = .fill 0 0) (hslots : 0 < k.slots s.client)
    (hslot : s.slots[0]? = some none) {pick : Nat} {peer : P} {client : σ}
    (hnext : k.next s.client pick = some (peer, client)) (outcome : Option (Option A)) :
    ∃ t, s.step k (.go pick outcome) = some t ∧ t.requests.length = s.requests.length + 1 := by
  refine ⟨Rounds.fill k s 0 0 pick outcome, ?_, ?_⟩
  · simp only [Rounds.step, Rounds.go, hcontrol]
    rw [if_pos hslots]
  · simp [Rounds.fill, hslot, hnext]

/-- What there is left to do, without regard to the peers that can be asked. -/
def LessToDo (s' s : Rounds σ P A) : Prop :=
  s'.unevaluated < s.unevaluated ∨
    s'.unevaluated ≤ s.unevaluated ∧ (s'.pending < s.pending ∨ s'.pending ≤ s.pending ∧ s'.toGo < s.toGo)

/-- Every event asks a peer or leaves less to do. -/
theorem progress (h : Lasts k s) (h' : Lasts k s') {e : Event A} (hstep : s.step k e = some s') :
    s'.asked.length = s.asked.length + 1 ∨ s'.asked.length = s.asked.length ∧ LessToDo s' s := by
  have hmoves := h.round.moves h.fits hstep
  have hunevaluated (hasked : s'.asked = s.asked) : s'.unevaluated ≤ s.unevaluated := by
    have hle := hmoves.settled_le
    unfold unevaluated
    rw [length_requests hasked]
    omega
  have hless (hasked : s'.asked = s.asked) (htodo : s'.pending < s.pending ∨
      s'.pending ≤ s.pending ∧ s'.toGo < s.toGo) :
      s'.asked.length = s.asked.length + 1 ∨ s'.asked.length = s.asked.length ∧ LessToDo s' s :=
    .inr ⟨congrArg List.length hasked, .inr ⟨hunevaluated hasked, htodo⟩⟩
  cases e with
  | complete r answer =>
      rcases less_complete hstep with ⟨hasked, hpending⟩
      exact hless hasked (hpending.toGo hmoves.width (.inl (control_complete hstep)))
  | notify r i =>
      rcases less_notify hstep with ⟨hasked, hpending⟩
      exact hless hasked (hpending.toGo hmoves.width (control_notify hstep))
  | go pick outcome =>
      by_cases hfill : ∃ i active, s.control = .fill i active
      · rcases hfill with ⟨i, active, hcontrol⟩
        rcases h.fill_less hcontrol hstep with hmore | ⟨hasked, htodo⟩
        · exact .inl hmore
        · exact hless hasked (.inr htodo)
      · have hno (i active : Nat) (hcontrol : s.control = .fill i active) : False := hfill ⟨i, active, hcontrol⟩
        rcases h.round.less_go hno hstep with ⟨hasked, hpending⟩
        by_cases hfill' : ∃ i active, s'.control = .fill i active
        · -- another round begins
          rcases hfill' with ⟨i, active, hcontrol'⟩
          have hlt := h.settled_again hno hcontrol' hmoves
          have hle := h'.settled_le
          refine .inr ⟨congrArg List.length hasked, .inl ?_⟩
          unfold unevaluated
          rw [length_requests hasked] at hle ⊢
          omega
        · refine hless hasked (hpending.toGo hmoves.width (.inr ⟨hno, ?_⟩))
          exact fun i active hcontrol' => hfill' ⟨i, active, hcontrol'⟩

theorem lex_of_le {β : Type} {r : β → β → Prop} {m n : Nat} {b c : β} (hle : m ≤ n) (h : r b c) :
    Prod.Lex (· < ·) r (m, b) (n, c) := by
  rcases Nat.lt_or_eq_of_le hle with hlt | rfl
  · exact Prod.Lex.left _ _ hlt
  · exact Prod.Lex.right _ h

/-- There is no run without end if so many peers can be asked at most. -/
theorem finite {I : Rounds σ P A → Prop} {bound : Nat}
    (hkeep : ∀ s e s', I s → s.step k e = some s' → I s') (hlasts : ∀ s, I s → Lasts k s)
    (hbound : ∀ s, I s → s.asked.length ≤ bound) (hs : I s) :
    ¬ ∃ run : Nat → Rounds σ P A, run 0 = s ∧ ∀ n, ∃ e, (run n).step k e = some (run (n + 1)) := by
  have hwf : WellFounded (Prod.Lex (· < ·) (Prod.Lex (· < ·) (Prod.Lex (· < ·) (· < ·))) :
      Nat × Nat × Nat × Nat → Nat × Nat × Nat × Nat → Prop) :=
    WellFounded.prod_lex Nat.lt_wfRel.wf
      (WellFounded.prod_lex Nat.lt_wfRel.wf (WellFounded.prod_lex Nat.lt_wfRel.wf Nat.lt_wfRel.wf))
  refine no_endless_run hwf (fun t => (bound - t.asked.length, t.unevaluated, t.pending, t.toGo)) (P := I) ?_ hs
  intro t e t' ht hstep
  have ht' := hkeep t e t' ht hstep
  have hle := hbound t' ht'
  refine ⟨ht', ?_⟩
  rcases progress (hlasts t ht) (hlasts t' ht') hstep with hmore | ⟨hsame, hless⟩
  · exact Prod.Lex.left _ _ (by omega)
  · rw [hsame]
    refine Prod.Lex.right _ ?_
    rcases hless with hless | ⟨hle, hpending | ⟨hpending, hless⟩⟩
    · exact Prod.Lex.left _ _ hless
    · exact lex_of_le hle (Prod.Lex.left _ _ hpending)
    · exact lex_of_le hle (lex_of_le hpending hless)

end Rounds

end TomP2P
