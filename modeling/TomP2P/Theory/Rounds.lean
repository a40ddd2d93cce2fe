import TomP2P.Theory.ForkJoin

/-!
# What Rounds of Requests Keep

No request is lost and none is evaluated twice, whoever runs the rounds.

Where the thread is determines what is known of the fork join (`Rounds.Round`), and
every event keeps it, as long as who runs the rounds fills slots that exist and looks
at all that are in use (`Rounds.Fits`). A thread that waits is called back as soon as
the requests have completed (`Rounds.Round.stuck`).

A thread that is attaching a listener may find that the request has completed
meanwhile. Evaluating it on the spot is the same as attaching the listener and
calling it at once, so one lemma serves both (`Rounds.Round.evaluate`).

Who runs the rounds sees little of this: `Rounds.Moves` has the kinds of events as far
as they matter to it.

## Main definitions

* `Rounds.Round`: What holds in every state.
* `Rounds.Fits`: What the rounds ask of who runs them.
* `Rounds.Moves`: What an event is to who runs the rounds.

## Theorems

* `Rounds.Round.step`: Every event keeps what holds of the rounds.
* `Rounds.Round.stuck`: Rounds in which nothing can happen any more are over.
* `Rounds.Round.moves`: The kinds of events.
* `Rounds.Round.decreases`: Without another peer being asked there is less to do.
-/

namespace TomP2P

open FutureResponse List

namespace Rounds

variable {σ P A : Type} {k : Client σ P A} {s s' : Rounds σ P A}

/-- How many slots the fork join has gone past. -/
def position (s : Rounds σ P A) : Option Nat :=
  match s.control with
  | .check i => some i
  | .attach i => some i
  | .listen => some s.slots.length
  | .wait => some s.slots.length
  | .react => some s.slots.length
  | .fill _ _ => none
  | .ended => none
  | .thrown => none

/-- What holds in every state, whoever runs the rounds. -/
structure Round (s : Rounds σ P A) : Prop where
  sound : Sound s.requests s.slots s.evaluated
  counted : ∀ n, s.position = some n → Counted s.requests s.slots s.join s.active
  forked : ∀ n, s.position = some n → Forked s.requests s.slots s.join s.listeners n
  filling : ∀ i active, s.control = .fill i active →
    i ≤ s.slots.length ∧ active = (s.slots.take i).countP Option.isSome
  checking : ∀ i, s.control = .check i → i ≤ s.slots.length
  attaching : ∀ i, s.control = .attach i → i < s.slots.length
  waiting : s.control = .wait → s.join.completed = false
  reacting : s.control = .react → s.join.completed = true
  resting : s.position = none → s.join.completed = true
  safe : s.control ≠ .thrown

/-- What the rounds ask of who runs them, where the slots are being filled: the slots
    exist, those that are not looked at are empty, and no success is never enough. -/
structure Fits (k : Client σ P A) (s : Rounds σ P A) : Prop where
  width : ∀ i active, s.control = .fill i active → k.slots s.client ≤ s.slots.length
  rest : ∀ i active, s.control = .fill i active → k.slots s.client ≤ i →
    ∀ j r : Nat, i ≤ j → s.slots[j]? ≠ some (some r)
  enough : ∀ i active, s.control = .fill i active → 0 < active → 0 < k.enough s.client active

theorem Round.done (h : Round s) : ∀ r ∈ s.join.forksCopy, returned s.requests r = true :=
  fun r hr => h.sound.done r (mem_append_right _ hr)

/-- A request is evaluated by a fork join that has not completed and has had a
    listener for it. -/
theorem Round.evaluate {l : List (Nat × Nat)} {i r : Nat} (h : Round { s with listeners := l })
    (hopen : s.join.completed = false) (hin : (r, i) ∈ l) (herase : s.listeners = l.erase (r, i))
    (hr : returned s.requests r = true) : Round (s.evaluate r i) := by
  have hreact : s.control ≠ .react := by
    intro hcontrol
    rw [h.reacting hcontrol] at hopen
    cases hopen
  obtain ⟨n, hpos⟩ : ∃ n, s.position = some n := by
    rw [← Option.isSome_iff_exists, Option.isSome_iff_ne_none]
    intro hnone
    rw [h.resting hnone] at hopen
    cases hopen
  have hj : Joining s.slots s.join l n := (h.forked n hpos).joining hopen
  have hslot := (hj.listened i r hin).2
  have hforked : Forked s.requests (s.slots.set i none)
      (s.join.evaluate s.slots.length r (succeeded s.requests r)) s.listeners n := by
    rw [herase]
    exact hj.notify hin
  have hcounted : Counted s.requests (s.slots.set i none)
      (s.join.evaluate s.slots.length r (succeeded s.requests r)) s.active :=
    (h.counted n hpos).evaluate hj.fresh hslot
  have hevaluated : s.evaluated ++ [r] =
      s.past ++ (s.join.evaluate s.slots.length r (succeeded s.requests r)).forksCopy := by
    rw [(FutureForkJoin.evaluate_cases hj.fresh s.slots.length r (succeeded s.requests r)).1,
      Rounds.evaluated, append_assoc]
  have hsound : Sound s.requests (s.slots.set i none) (s.evaluated ++ [r]) := h.sound.evaluate hslot hr
  rw [hevaluated] at hsound
  rw [Rounds.evaluate, if_neg (by rw [hj.fresh]; exact Bool.false_ne_true)]
  dsimp only
  generalize hjoin : s.join.evaluate s.slots.length r (succeeded s.requests r) = join at *
  -- a thread that waits is called if this was the last request that was needed
  by_cases hcall : join.completed = true ∧ s.control = .wait
  · rw [if_pos hcall]
    have hn : n = s.slots.length := by
      rw [position, hcall.2] at hpos
      exact (Option.some.inj hpos).symm
    refine ⟨hsound, fun m _ => hcounted, ?_, nofun, nofun, nofun, nofun, fun _ => hcall.1, nofun, nofun⟩
    intro m hm
    cases hm
    dsimp only
    rw [length_set, ← hn]
    exact hforked
  · rw [if_neg hcall]
    have hposition : ∀ t : Rounds σ P A, t.control = s.control → t.slots.length = s.slots.length →
        t.position = s.position := by
      intro t hcontrol hlength
      rw [position, position, hcontrol, hlength]
    have hpos' := hposition { s with slots := s.slots.set i none, join := join } rfl length_set
    refine ⟨hsound, fun _ _ => hcounted, ?_, ?_, ?_, ?_, ?_, ?_, ?_, h.safe⟩
    · intro m hm
      rw [hpos', hpos] at hm
      cases hm
      exact hforked
    · intro j active hcontrol
      rw [position] at hpos
      have hcontrol : s.control = .fill j active := hcontrol
      rw [hcontrol] at hpos
      cases hpos
    · intro j hcontrol
      dsimp only
      rw [length_set]
      exact h.checking j hcontrol
    · intro j hcontrol
      dsimp only
      rw [length_set]
      exact h.attaching j hcontrol
    · intro hwait
      rw [← Bool.not_eq_true]
      exact fun hdone => hcall ⟨hdone, hwait⟩
    · exact fun hcontrol => absurd hcontrol hreact
    · intro hnone
      rw [hpos', hpos] at hnone
      cases hnone

/-- Requests complete or are cancelled. -/
theorem Round.later {requests : List (FutureResponse P A)} (h : Round s) (hl : Later s.requests requests)
    (hlen : requests.length = s.requests.length) : Round { s with requests := requests } where
  sound := h.sound.later hl hlen
  counted := fun n hn => (h.counted n hn).later hl h.done
  forked := fun n hn => (h.forked n hn).later hl h.done
  filling := h.filling
  checking := h.checking
  attaching := h.attaching
  waiting := h.waiting
  reacting := h.reacting
  resting := h.resting
  safe := h.safe

theorem Round.notify (h : Round s) {r i : Nat} (hin : (r, i) ∈ s.listeners)
    (hr : returned s.requests r = true) :
    Round ({ s with listeners := s.listeners.erase (r, i) }.evaluate r i) := by
  by_cases hdone : s.join.completed = true
  · -- listeners of a fork join that has completed do nothing
    rw [Rounds.evaluate, if_pos hdone]
    exact ⟨h.sound, h.counted, fun n hn => .inr ((h.forked n hn).closed hdone), h.filling, h.checking,
      h.attaching, h.waiting, h.reacting, h.resting, h.safe⟩
  · rw [Bool.not_eq_true] at hdone
    exact Round.evaluate (s := { s with listeners := s.listeners.erase (r, i) }) h hdone hin rfl hr

/-- The fork join looks at a slot. -/
theorem Round.attach (h : Round s) {i : Nat} (hcontrol : s.control = .attach i) : Round (s.attach i) := by
  have hpos : s.position = some i := by rw [position, hcontrol]
  have hlt := h.attaching i hcontrol
  have hcounted := h.counted i hpos
  have hforked := h.forked i hpos
  rw [Rounds.attach]
  rcases hslot : s.slots[i]? with _ | _ | r
  · rw [getElem?_eq_none_iff] at hslot
    omega
  · -- an empty slot
    obtain ⟨hcopy, hsucc, -⟩ := s.join.miss_keeps s.slots.length
    have hmiss : Forked s.requests s.slots (s.join.miss s.slots.length) s.listeners (i + 1) := by
      rcases hforked with hj | hclosed
      · exact hj.miss hslot
      · exact .inr (hclosed.miss s.slots.length)
    have hcounted' : Counted s.requests s.slots (s.join.miss s.slots.length) s.active := by
      refine ⟨?_, ?_⟩
      · rw [hsucc, hcopy]
        exact hcounted.success
      · rw [hcopy]
        exact hcounted.total
    have hsound : Sound s.requests s.slots (s.past ++ (s.join.miss s.slots.length).forksCopy) := by
      rw [hcopy]
      exact h.sound
    dsimp only
    split
    · next hnow =>
        rw [Bool.and_eq_true] at hnow
        exact ⟨hsound, fun _ _ => hcounted', fun _ _ => .inr (hmiss.closed hnow.1), nofun, nofun, nofun,
          nofun, nofun, nofun, nofun⟩
    · refine ⟨hsound, fun _ _ => hcounted', ?_, nofun, ?_, nofun, nofun, nofun, nofun, nofun⟩
      · intro n hn
        cases hn
        exact hmiss
      · intro j hj
        cases hj
        exact hlt
  · -- A request that is on its way gets a listener, and one that has returned is evaluated.
    have hattached (hopen : s.join.completed = false) :
        Round { s with listeners := s.listeners ++ [(r, i)], control := .check (i + 1) } := by
      refine ⟨h.sound, fun _ _ => hcounted, ?_, nofun, ?_, nofun, nofun, nofun, nofun, nofun⟩
      · intro n hn
        cases hn
        exact .inl ((hforked.joining hopen).attach hslot)
      · intro j hj
        cases hj
        exact hlt
    have hclosed (l : List (Nat × Nat)) (hdone : s.join.completed = true) :
        Round { s with listeners := l, control := .check (i + 1) } := by
      refine ⟨h.sound, fun _ _ => hcounted, fun _ _ => .inr (hforked.closed hdone), nofun, ?_, nofun, nofun,
        nofun, nofun, nofun⟩
      intro j hj
      cases hj
      exact hlt
    dsimp only
    by_cases hdone : s.join.completed = true
    · split
      · rw [Rounds.evaluate, if_pos (by exact hdone)]
        exact hclosed s.listeners hdone
      · exact hclosed _ hdone
    · rw [Bool.not_eq_true] at hdone
      split
      · next hr =>
          refine Round.evaluate (hattached hdone) hdone (mem_append_right _ (mem_singleton_self _))
            ?_ hr
          have hnew : (r, i) ∉ s.listeners := fun hin =>
            Nat.lt_irrefl _ ((hforked.joining hdone).listened i r hin).1
          rw [erase_append_right _ hnew, erase_cons_head, append_nil]
      · exact hattached hdone

/-- A slot is filled. -/
theorem Round.fill (h : Round s) {i active : Nat} (hcontrol : s.control = .fill i active)
    (hi : i < s.slots.length) (pick : Nat) (outcome : Option (Option A)) :
    Round (Rounds.fill k s i active pick outcome) := by
  have hdone := h.resting (by rw [position, hcontrol])
  have hactive := (h.filling i active hcontrol).2
  have htake (x : Option Nat) (hx : s.slots[i]? = some x) :
      (s.slots.take (i + 1)).countP Option.isSome = active + [x].countP Option.isSome := by
    rw [take_add_one, hx, countP_append, hactive]
    rfl
  have hnext (client : σ) (active' : Nat) (hcount : active' = (s.slots.take (i + 1)).countP Option.isSome) :
      Round { s with client := client, control := .fill (i + 1) active' } := by
    refine ⟨h.sound, nofun, nofun, ?_, nofun, nofun, nofun, nofun, fun _ => hdone, nofun⟩
    intro j m hj
    cases hj
    exact ⟨hi, hcount⟩
  unfold Rounds.fill
  rcases hslot : s.slots[i]? with _ | _ | r
  · rw [getElem?_eq_none_iff] at hslot
    omega
  · dsimp only
    split
    · exact hnext s.client active (htake _ hslot).symm
    · next peer client _ =>
        refine ⟨h.sound.fill hslot _, nofun, nofun, ?_, nofun, nofun, nofun, nofun, fun _ => hdone, nofun⟩
        intro j m hj
        cases hj
        dsimp only
        refine ⟨by rw [length_set]; exact hi, ?_⟩
        rw [take_add_one, getElem?_set_self hi, countP_append, take_set_of_le (Nat.le_refl _),
          hactive]
        rfl
  · exact hnext s.client (active + 1) (htake _ hslot).symm

/-- The rounds are over. -/
theorem Round.finish (h : Round s) (hdone : s.join.completed = true) (client : σ) :
    Round (Rounds.finish k s client) := by
  have hended : Round { s with client := client, control := .ended } :=
    ⟨h.sound, nofun, nofun, nofun, nofun, nofun, nofun, nofun, fun _ => hdone, nofun⟩
  unfold Rounds.finish
  dsimp only
  split
  · exact hended.later (later_mapIdx _ _) length_mapIdx
  · exact hended

/-- A fork join of all requests. -/
theorem Round.fork (h : Round s) (hfits : Fits k s) {i active : Nat} (hcontrol : s.control = .fill i active)
    (hi : k.slots s.client ≤ i) (hactive : active ≠ 0) : Round (Rounds.fork k s active) := by
  obtain ⟨hle, hcount⟩ := h.filling i active hcontrol
  have hrest : (s.slots.drop i).countP Option.isSome = 0 := by
    rw [countP_eq_zero]
    intro x hx
    obtain ⟨j, hj⟩ := mem_iff_getElem?.mp hx
    rw [getElem?_drop] at hj
    cases x with
    | none => exact Bool.false_ne_true
    | some r => exact absurd hj (hfits.rest i active hcontrol hi (i + j) r (Nat.le_add_right _ _))
  have htotal : s.slots.countP Option.isSome = active := by
    rw [← take_append_drop i s.slots, countP_append, hrest, hcount]
    simp
  have hlength : s.slots.length ≠ 0 := by
    have hle := countP_le_length (p := Option.isSome) (l := s.slots)
    omega
  refine ⟨?_, fun _ _ => ⟨rfl, ?_⟩, ?_, nofun, ?_, nofun, nofun, nofun, nofun, nofun⟩
  · unfold Rounds.fork Rounds.evaluated
    rw [append_nil]
    exact h.sound
  · rw [← htotal]
    exact Nat.zero_add _
  · intro n hn
    cases hn
    exact .inl (Joining.start hlength (hfits.enough i active hcontrol (Nat.pos_of_ne_zero hactive)))
  · intro j hj
    cases hj
    exact Nat.zero_le _

/-- The thread goes on. -/
theorem Round.go (h : Round s) (hfits : Fits k s) {pick : Nat} {outcome : Option (Option A)}
    (hgo : s.go k pick outcome = some s') : Round s' := by
  unfold Rounds.go at hgo
  rcases hcontrol : s.control with ⟨i, active⟩ | i | i | _ | _ | _ | _ | _ <;> rw [hcontrol] at hgo <;>
    dsimp only at hgo
  · -- The slots are filled, and there is no join yet.
    have hdone := h.resting (by rw [position, hcontrol])
    have hwidth := hfits.width i active hcontrol
    split at hgo
    · cases hgo
      exact h.fill hcontrol (by omega) pick outcome
    · next hi =>
        split at hgo
        · cases hgo
          exact h.finish hdone _
        · next hactive =>
            cases hgo
            exact h.fork hfits hcontrol (Nat.le_of_not_lt hi) hactive
  · have hpos : s.position = some i := by rw [position, hcontrol]
    have hcounted := h.counted i hpos
    have hforked := h.forked i hpos
    have hle := h.checking i hcontrol
    split at hgo
    · next hi =>
        cases hgo
        refine ⟨h.sound, fun _ _ => hcounted, ?_, nofun, nofun, ?_, nofun, nofun, nofun, nofun⟩
        · intro n hn
          cases hn
          exact hforked
        · intro j hj
          cases hj
          exact hi.1
    · next hi =>
        cases hgo
        refine ⟨h.sound, fun _ _ => hcounted, ?_, nofun, nofun, nofun, nofun, nofun, nofun, nofun⟩
        intro n hn
        cases hn
        rcases hforked with hj | hclosed
        · -- A join that is open has looked at all slots.
          have heq : i = s.slots.length := by
            by_contra hne
            exact hi ⟨by omega, by rw [hj.fresh]; exact Bool.false_ne_true⟩
          exact .inl (heq ▸ hj)
        · exact .inr hclosed
  · cases hgo
    exact h.attach hcontrol
  · have hpos : s.position = some s.slots.length := by rw [position, hcontrol]
    have hcounted := h.counted _ hpos
    have hforked := h.forked _ hpos
    cases hgo
    by_cases hdone : s.join.completed = true
    · rw [if_pos hdone]
      refine ⟨h.sound, fun _ _ => hcounted, ?_, nofun, nofun, nofun, nofun, fun _ => hdone, nofun, nofun⟩
      intro n hn
      cases hn
      exact hforked
    · rw [if_neg hdone]
      rw [Bool.not_eq_true] at hdone
      refine ⟨h.sound, fun _ _ => hcounted, ?_, nofun, nofun, nofun, fun _ => hdone, nofun, nofun, nofun⟩
      intro n hn
      cases hn
      exact hforked
  · cases hgo
  · have hdone := h.reacting hcontrol
    split at hgo
    · cases hgo
      exact h.finish hdone _
    · cases hgo
      refine ⟨h.sound, nofun, nofun, ?_, nofun, nofun, nofun, nofun, fun _ => hdone, nofun⟩
      intro i active hfill
      cases hfill
      exact ⟨Nat.zero_le _, rfl⟩
  · cases hgo
  · cases hgo

/-- Every event keeps what holds of the rounds. -/
theorem Round.step (h : Round s) (hfits : Fits k s) {e : Event A} (hstep : s.step k e = some s') :
    Round s' := by
  cases e with
  | go pick outcome => exact h.go hfits hstep
  | complete r answer =>
      simp only [Rounds.step] at hstep
      split at hstep
      · cases hstep
        exact h.later (later_modify _ _ _) (length_modify _ _ _)
      · cases hstep
  | notify r i =>
      simp only [Rounds.step] at hstep
      split at hstep
      · next hin =>
          cases hstep
          exact h.notify hin.1 hin.2
      · cases hstep

/-! ### The kinds of events -/

/-- The peers that were asked, in order. -/
def asked (s : Rounds σ P A) : List P := s.requests.map (·.peer)

/-- What changes at most while requests complete: who runs the rounds sees none of
    it. -/
structure Quiet (s s' : Rounds σ P A) : Prop where
  client : s'.client = s.client
  asked : s'.asked = s.asked
  later : Later s.requests s'.requests
  past : s'.past = s.past
  active : s'.active = s.active
  width : s'.slots.length = s.slots.length

theorem Quiet.refl (s : Rounds σ P A) : Quiet s s := ⟨rfl, rfl, Later.refl _, rfl, rfl, rfl⟩

/-- What an event is to who runs the rounds. -/
inductive Moves (k : Client σ P A) (s s' : Rounds σ P A) : Prop
  /-- Requests complete, the fork join stays as it is. -/
  | keep (hquiet : Quiet s s') (hcontrol : s'.control = s.control) (hslots : s'.slots = s.slots)
      (hjoin : s'.join = s.join)
  /-- The fork join goes on. -/
  | inner (hquiet : Quiet s s') (hpos : s.position ≠ none) (hpos' : s'.position ≠ none)
      (henough : s'.join.nrFinishFuturesSuccess = s.join.nrFinishFuturesSuccess)
  /-- A slot is in use. -/
  | busy (i active r : Nat) (hcontrol : s.control = .fill i active) (hi : i < k.slots s.client)
      (hslot : s.slots[i]? = some (some r)) (heq : s' = { s with control := .fill (i + 1) (active + 1) })
  /-- There is nobody to ask. -/
  | nobody (i active pick : Nat) (hcontrol : s.control = .fill i active) (hi : i < k.slots s.client)
      (hslot : s.slots[i]? = some none) (hnext : k.next s.client pick = none)
      (heq : s' = { s with control := .fill (i + 1) active })
  /-- A peer is asked. -/
  | ask (i active pick : Nat) (peer : P) (client : σ) (outcome : Option (Option A))
      (hcontrol : s.control = .fill i active) (hi : i < k.slots s.client) (hslot : s.slots[i]? = some none)
      (hnext : k.next s.client pick = some (peer, client))
      (heq : s' = { s with
        client := client
        requests := s.requests ++ [⟨peer, outcome⟩]
        slots := s.slots.set i (some s.requests.length)
        control := .fill (i + 1) (active + 1) })
  /-- There is no request. -/
  | idle (i : Nat) (hcontrol : s.control = .fill i 0) (hi : k.slots s.client ≤ i)
      (heq : s' = finish k s (k.idle s.client))
  /-- All slots are filled. -/
  | fork (i active : Nat) (hcontrol : s.control = .fill i active) (hi : k.slots s.client ≤ i)
      (hactive : active ≠ 0) (heq : s' = Rounds.fork k s active)
  /-- The last round. -/
  | last (hcontrol : s.control = .react) (hlast : (k.react s.client s.active s.join s.completed).1 = true)
      (heq : s' = finish k s (k.react s.client s.active s.join s.completed).2)
  /-- Another round. -/
  | again (hcontrol : s.control = .react)
      (hlast : (k.react s.client s.active s.join s.completed).1 = false)
      (heq : s' = { s with
        client := (k.react s.client s.active s.join s.completed).2, control := .fill 0 0 })

/-- Cancelling keeps everything but what becomes of the requests. -/
theorem quiet_finish (s : Rounds σ P A) (client : σ) :
    Quiet { s with client := client, control := .ended } (finish k s client) ∧
      (finish k s client).control = .ended ∧ (finish k s client).slots = s.slots ∧
        (finish k s client).join = s.join := by
  unfold finish
  dsimp only
  split
  · refine ⟨⟨rfl, ?_, later_mapIdx _ _, rfl, rfl, rfl⟩, rfl, rfl, rfl⟩
    unfold asked cancel
    apply ext_getElem?
    intro i
    rw [getElem?_map, getElem?_map, getElem?_mapIdx, Option.map_map]
    refine Option.map_congr ?_
    intro f _
    rw [Function.comp]
    split
    · exact complete_peer f none
    · rfl
  · exact ⟨Quiet.refl _, rfl, rfl, rfl⟩

theorem quiet_evaluate (s : Rounds σ P A) (r i : Nat) :
    Quiet s (s.evaluate r i) ∧
      (s.evaluate r i).join.nrFinishFuturesSuccess = s.join.nrFinishFuturesSuccess ∧
        (s.position ≠ none → (s.evaluate r i).position ≠ none) := by
  unfold Rounds.evaluate
  by_cases hdone : s.join.completed = true
  · rw [if_pos hdone]
    exact ⟨Quiet.refl s, rfl, id⟩
  · rw [if_neg hdone]
    rw [Bool.not_eq_true] at hdone
    refine ⟨⟨rfl, rfl, Later.refl _, rfl, rfl, length_set⟩,
      (FutureForkJoin.evaluate_cases hdone _ _ _).2.2.1, ?_⟩
    intro hpos
    by_cases hcall : (s.join.evaluate s.slots.length r (succeeded s.requests r)).completed = true ∧
        s.control = .wait
    · rw [position]
      dsimp only
      rw [if_pos hcall]
      exact nofun
    · rw [position] at hpos ⊢
      dsimp only
      rw [if_neg hcall]
      cases hcontrol : s.control <;> rw [hcontrol] at hpos <;> first | exact hpos | exact nofun

theorem quiet_attach (h : Round s) {i : Nat} (hcontrol : s.control = .attach i) :
    Quiet s (s.attach i) ∧ (s.attach i).position ≠ none ∧
      (s.attach i).join.nrFinishFuturesSuccess = s.join.nrFinishFuturesSuccess := by
  have hlt := h.attaching i hcontrol
  unfold Rounds.attach
  rcases hslot : s.slots[i]? with _ | _ | r
  · rw [getElem?_eq_none_iff] at hslot
    omega
  · refine ⟨⟨rfl, rfl, Later.refl _, rfl, rfl, rfl⟩, ?_, (s.join.miss_keeps _).2.2⟩
    unfold position
    dsimp only
    cases ((s.join.miss s.slots.length).completed && !s.join.completed) <;> exact nofun
  · dsimp only
    split
    · obtain ⟨hquiet, henough, hpos⟩ := quiet_evaluate { s with control := .check (i + 1) } r i
      exact ⟨⟨hquiet.client, hquiet.asked, hquiet.later, hquiet.past, hquiet.active, hquiet.width⟩, hpos nofun,
        henough⟩
    · exact ⟨⟨rfl, rfl, Later.refl _, rfl, rfl, rfl⟩, nofun, rfl⟩

-- Completing a request does not change whom it was sent to.
theorem map_modify_complete (requests : List (FutureResponse P A)) (r : Nat) (answer : Option A) :
    (requests.modify r (·.complete answer)).map (·.peer) = requests.map (·.peer) := by
  apply ext_getElem?
  intro i
  rw [getElem?_map, getElem?_map, getElem?_modify, Option.map_eq_map, Option.map_map]
  refine Option.map_congr ?_
  intro f _
  rw [Function.comp]
  split
  · exact complete_peer f answer
  · rfl

/-- Every event is one of these kinds. -/
theorem Round.moves (h : Round s) (hfits : Fits k s) {e : Event A} (hstep : s.step k e = some s') :
    Moves k s s' := by
  cases e with
  | complete r answer =>
      simp only [Rounds.step] at hstep
      split at hstep
      · cases hstep
        refine .keep ⟨rfl, ?_, later_modify _ _ _, rfl, rfl, rfl⟩ rfl rfl rfl
        exact map_modify_complete _ _ _
      · cases hstep
  | notify r i =>
      simp only [Rounds.step] at hstep
      split at hstep
      · cases hstep
        -- A listener evaluates its request, unless the join has completed.
        obtain ⟨hquiet, henough, hpos⟩ :=
          quiet_evaluate { s with listeners := s.listeners.erase (r, i) } r i
        have hquiet' : Quiet s ({ s with listeners := s.listeners.erase (r, i) }.evaluate r i) :=
          ⟨hquiet.client, hquiet.asked, hquiet.later, hquiet.past, hquiet.active, hquiet.width⟩
        by_cases hdone : s.join.completed = true
        · -- the listener is late
          rw [Rounds.evaluate, if_pos (by exact hdone)]
          exact .keep ⟨rfl, rfl, Later.refl _, rfl, rfl, rfl⟩ rfl rfl rfl
        · have hsome : s.position ≠ none := fun hnone => hdone (h.resting hnone)
          exact .inner hquiet' hsome (hpos hsome) henough
      · cases hstep
  | go pick outcome =>
      simp only [Rounds.step, Rounds.go] at hstep
      rcases hcontrol : s.control with ⟨i, active⟩ | i | i | _ | _ | _ | _ | _ <;> rw [hcontrol] at hstep <;>
        dsimp only at hstep
      · split at hstep
        · next hi =>
            cases hstep
            -- A slot is filled if it is empty and there is somebody to ask.
            have hwidth := hfits.width i active hcontrol
            unfold Rounds.fill
            rcases hslot : s.slots[i]? with _ | _ | r
            · rw [getElem?_eq_none_iff] at hslot
              omega
            · dsimp only
              rcases hnext : k.next s.client pick with _ | ⟨peer, client⟩
              · exact .nobody i active pick hcontrol hi hslot hnext rfl
              · exact .ask i active pick peer client outcome hcontrol hi hslot hnext rfl
            · exact .busy i active r hcontrol hi hslot rfl
        · next hi =>
            split at hstep
            · next hactive =>
                cases hstep
                subst hactive
                exact .idle i hcontrol (Nat.le_of_not_lt hi) rfl
            · next hactive =>
                cases hstep
                exact .fork i active hcontrol (Nat.le_of_not_lt hi) hactive rfl
      · have hpos : s.position ≠ none := by
          rw [position, hcontrol]
          exact nofun
        split at hstep <;> cases hstep <;>
          exact .inner ⟨rfl, rfl, Later.refl _, rfl, rfl, rfl⟩ hpos nofun rfl
      · cases hstep
        obtain ⟨hquiet, hpos', henough⟩ := quiet_attach h hcontrol
        exact .inner hquiet (by rw [position, hcontrol]; exact nofun) hpos' henough
      · cases hstep
        refine .inner ⟨rfl, rfl, Later.refl _, rfl, rfl, rfl⟩ (by rw [position, hcontrol]; exact nofun) ?_ rfl
        unfold position
        dsimp only
        cases s.join.completed <;> exact nofun
      · cases hstep
      · split at hstep
        · next hlast =>
            cases hstep
            exact .last hcontrol hlast rfl
        · next hlast =>
            cases hstep
            rw [Bool.not_eq_true] at hlast
            exact .again hcontrol hlast rfl
      · cases hstep
      · cases hstep

/-- Nothing has happened yet, or nothing will. -/
theorem Round.start (client : σ) (width : Nat) {control : Control}
    (hcontrol : control = .fill 0 0 ∨ control = .ended) :
    Round ({ client := client, slots := List.replicate width none, control := control } : Rounds σ P A) := by
  have hnone (i r : Nat) : (List.replicate width (none : Option Nat))[i]? ≠ some (some r) := by
    rw [getElem?_replicate]
    split <;> exact nofun
  have hsound : Sound ([] : List (FutureResponse P A)) (List.replicate width none) [] :=
    ⟨fun i r hi => absurd hi (hnone i r), fun i j r hi => absurd hi (hnone i r), nodup_nil, nofun,
      fun r hr => absurd hr (Nat.not_lt_zero r), nofun⟩
  rcases hcontrol with rfl | rfl
  · refine ⟨hsound, nofun, nofun, ?_, nofun, nofun, nofun, nofun, fun _ => rfl, nofun⟩
    intro i active hfill
    cases hfill
    exact ⟨Nat.zero_le _, rfl⟩
  · exact ⟨hsound, nofun, nofun, nofun, nofun, nofun, nofun, nofun, fun _ => rfl, nofun⟩

/-- If all requests have completed and nothing can happen any more the rounds are
    over: a thread that waits has a listener that can be called. -/
theorem Round.stuck (h : Round s) (hreturned : ∀ r < s.requests.length, returned s.requests r = true)
    (hstuck : ∀ e : Event A, s.step k e = none) : s.control = .ended := by
  have hgo := hstuck (.go 0 none)
  simp only [Rounds.step, Rounds.go] at hgo
  rcases hcontrol : s.control with ⟨i, active⟩ | i | i | _ | _ | _ | _ | _ <;> rw [hcontrol] at hgo <;>
    dsimp only at hgo
  · split at hgo
    · cases hgo
    · split at hgo <;> cases hgo
  · split at hgo <;> cases hgo
  · cases hgo
  · cases hgo
  · have hj := (h.forked _ (by rw [position, hcontrol])).joining (h.waiting hcontrol)
    obtain ⟨i, r, hslot⟩ : ∃ i r : Nat, s.slots[i]? = some (some r) := by
      by_contra hno
      -- otherwise all slots would have been counted
      have hall : s.slots.count none = s.slots.length := by
        rw [count_eq_length]
        intro x hx
        obtain ⟨i, hi⟩ := mem_iff_getElem?.mp hx
        cases x with
        | none => rfl
        | some r => exact absurd ⟨i, r, hi⟩ hno
      have hshort := hj.short
      rw [hj.counter, take_length, hall] at hshort
      exact Nat.lt_irrefl _ hshort
    have hlt := (List.getElem?_eq_some_iff.mp hslot).1
    have hnotify := hstuck (.notify r i)
    simp only [Rounds.step] at hnotify
    rw [if_pos ⟨hj.listening i r hlt hslot, hreturned r (h.sound.valid i r hslot)⟩] at hnotify
    cases hnotify
  · split at hgo <;> cases hgo
  · exact absurd hcontrol h.safe

/-- What a sequence of events leads to is reached. -/
theorem reach_of_play {t : Rounds σ P A} (ht : Reach k s t) {es : List (Event A)} (h : play k t es = some s') :
    Reach k s s' := by
  induction es generalizing t with
  | nil =>
      cases h
      exact ht
  | cons e es ih =>
      unfold play at h
      rw [foldlM_cons] at h
      obtain ⟨u, hu, hplay⟩ := Option.bind_eq_some_iff.mp h
      exact ih (.step e ht hu) hplay

/-! ### Coming to an end -/

/-- Where nothing can happen nothing happens. -/
theorem reach_of_stuck (hstuck : ∀ e : Event A, s.step k e = none) (h : Reach k s s') : s' = s := by
  induction h with
  | start => rfl
  | step e _ hstep ih =>
      rw [ih, hstuck e] at hstep
      cases hstep

/-- The requests that are on their way. -/
def pending (s : Rounds σ P A) : Nat := s.requests.countP fun f => !f.isCompleted

/-- How much a thread has left to do in its round. One that has seen no request yet
    has less to do than one that is about to end its round, since its own round ends
    without a fork join. -/
def left (width : Nat) : Control → Nat
  | .fill i active => (if active = 0 then 0 else 4 * width + 5) + (width + 1 - i)
  | .check i => width + 4 + 3 * (width - i)
  | .attach i => width + 3 + 3 * (width - i)
  | .listen => width + 3
  | .wait => width + 2
  | .react => width + 2
  | .ended => 0
  | .thrown => 0

/-- How much there is left to do in a round. -/
def remaining (s : Rounds σ P A) : Nat := s.listeners.length + left s.slots.length s.control

theorem countP_pending_mapIdx (requests : List (FutureResponse P A)) (slots : List (Option Nat)) :
    (requests.mapIdx fun r f => if some r ∈ slots then f.complete none else f).countP
      (fun f => !f.isCompleted) ≤ requests.countP fun f => !f.isCompleted := by
  rw [mapIdx_eq_zipIdx_map, countP_map]
  have hzip : requests.countP (fun f => !f.isCompleted) =
      requests.zipIdx.countP fun e => !e.1.isCompleted := by
    conv_lhs => rw [← zipIdx_map_fst 0 requests]
    rw [countP_map]
    rfl
  rw [hzip]
  refine countP_mono_left fun e _ he => ?_
  simp only [Function.comp] at he
  split at he
  · unfold complete at he
    split at he
    · exact he
    · cases he
  · exact he

theorem pending_finish (s : Rounds σ P A) (client : σ) : (finish k s client).pending ≤ s.pending := by
  unfold finish pending
  dsimp only
  split
  · exact countP_pending_mapIdx _ _
  · exact Nat.le_refl _

theorem remaining_finish (s : Rounds σ P A) (client : σ) :
    (finish k s client).remaining = s.listeners.length := by
  unfold finish remaining
  dsimp only
  split <;> rfl

theorem pending_modify {r : Nat} (hr : r < s.requests.length) (hno : ¬ returned s.requests r = true)
    (answer : Option A) :
    (s.requests.modify r (·.complete answer)).countP (fun f => !f.isCompleted) < s.pending := by
  obtain ⟨before, f, after, hsplit, hlength, hmodify⟩ :=
    exists_of_modify (fun f : FutureResponse P A => f.complete answer) hr
  have hget : s.requests[r]? = some f := by
    rw [hsplit, ← hlength, getElem?_append_right (Nat.le_refl _), Nat.sub_self]
    rfl
  have hopen : f.isCompleted = false := by
    rw [← Bool.not_eq_true]
    exact fun hdone => hno (returned_iff.mpr ⟨f, hget, hdone⟩)
  have hdone : (f.complete answer).isCompleted = true := by
    unfold complete
    rw [hopen]
    rfl
  rw [hmodify, pending, hsplit]
  simp [hopen, hdone]

theorem pending_evaluate (s : Rounds σ P A) (r i : Nat) : (s.evaluate r i).pending = s.pending := by
  unfold pending Rounds.evaluate
  split <;> rfl

theorem remaining_evaluate (s : Rounds σ P A) (r i : Nat) : (s.evaluate r i).remaining ≤ s.remaining := by
  unfold Rounds.evaluate
  split
  · exact Nat.le_refl _
  · unfold remaining
    dsimp only
    rw [length_set]
    by_cases hcall : (s.join.evaluate s.slots.length r (succeeded s.requests r)).completed = true ∧
        s.control = .wait
    · rw [if_pos hcall, hcall.2]
      exact Nat.le_refl _
    · exact Nat.le_of_eq (by rw [if_neg hcall])

/-- A slot that the fork join has looked at is done, but for a listener. -/
theorem attach_decreases (h : Round s) {i : Nat} (hcontrol : s.control = .attach i) :
    (s.attach i).pending ≤ s.pending ∧ (s.attach i).remaining < s.remaining := by
  have hlt := h.attaching i hcontrol
  have hremaining : s.remaining = s.listeners.length + (s.slots.length + 3 + 3 * (s.slots.length - i)) := by
    rw [remaining, hcontrol]
    rfl
  rw [hremaining]
  unfold Rounds.attach
  rcases hslot : s.slots[i]? with _ | _ | r
  · rw [getElem?_eq_none_iff] at hslot
    omega
  · refine ⟨Nat.le_refl _, ?_⟩
    unfold remaining
    dsimp only
    cases ((s.join.miss s.slots.length).completed && !s.join.completed) <;> simp [left] <;> omega
  · dsimp only
    split
    · rw [pending_evaluate]
      refine ⟨Nat.le_refl _, Nat.lt_of_le_of_lt (remaining_evaluate _ r i) ?_⟩
      unfold remaining
      simp only [left]
      omega
    · refine ⟨Nat.le_refl _, ?_⟩
      unfold remaining
      simp only [left, length_append, length_singleton]
      omega

/-- There is less to do after an event: fewer requests are on their way, or as many and
    less is left of the round. -/
def Less (s' s : Rounds σ P A) : Prop :=
  s'.pending < s.pending ∨ s'.pending ≤ s.pending ∧ s'.remaining < s.remaining

theorem less_complete {r : Nat} {answer : Option A} (hstep : s.step k (.complete r answer) = some s') :
    s'.asked = s.asked ∧ Less s' s := by
  simp only [Rounds.step] at hstep
  split at hstep
  · next hr =>
      cases hstep
      refine ⟨?_, .inl (pending_modify hr.1 hr.2 answer)⟩
      exact map_modify_complete _ _ _
  · cases hstep

theorem less_notify {r i : Nat} (hstep : s.step k (.notify r i : Event A) = some s') :
    s'.asked = s.asked ∧ Less s' s := by
  simp only [Rounds.step] at hstep
  split at hstep
  · next hin =>
      cases hstep
      obtain ⟨hquiet, -⟩ := quiet_evaluate { s with listeners := s.listeners.erase (r, i) } r i
      refine ⟨hquiet.asked, .inr ⟨?_, ?_⟩⟩
      · rw [pending_evaluate]
        exact Nat.le_refl _
      · refine Nat.lt_of_le_of_lt (remaining_evaluate _ r i) ?_
        unfold remaining
        dsimp only
        rw [length_erase_of_mem hin.1]
        have hpos : 0 < s.listeners.length := length_pos_of_mem hin.1
        omega
  · cases hstep

/-- A thread that is not filling slots has less to do. -/
theorem Round.less_go (h : Round s) (hno : ∀ i active, s.control ≠ .fill i active) {pick : Nat}
    {outcome : Option (Option A)} (hstep : s.step k (.go pick outcome) = some s') :
    s'.asked = s.asked ∧ Less s' s := by
  simp only [Rounds.step, Rounds.go] at hstep
  rcases hcontrol : s.control with ⟨i, active⟩ | i | i | _ | _ | _ | _ | _ <;> rw [hcontrol] at hstep <;>
    dsimp only at hstep
  · exact absurd hcontrol (hno i active)
  · split at hstep
    · next hi =>
        cases hstep
        refine ⟨rfl, .inr ⟨Nat.le_refl _, ?_⟩⟩
        unfold remaining
        rw [hcontrol]
        simp only [left]
        omega
    · cases hstep
      refine ⟨rfl, .inr ⟨Nat.le_refl _, ?_⟩⟩
      unfold remaining
      rw [hcontrol]
      simp only [left]
      omega
  · cases hstep
    exact ⟨(quiet_attach h hcontrol).1.asked, .inr (attach_decreases h hcontrol)⟩
  · cases hstep
    refine ⟨rfl, .inr ⟨Nat.le_refl _, ?_⟩⟩
    unfold remaining
    rw [hcontrol]
    dsimp only
    cases s.join.completed <;> simp [left]
  · cases hstep
  · split at hstep
    · cases hstep
      obtain ⟨hquiet, -⟩ := quiet_finish (k := k) s (k.react s.client s.active s.join s.completed).2
      refine ⟨hquiet.asked, .inr ⟨pending_finish s _, ?_⟩⟩
      rw [remaining_finish, remaining, hcontrol]
      simp only [left]
      omega
    · cases hstep
      refine ⟨rfl, .inr ⟨Nat.le_refl _, ?_⟩⟩
      unfold remaining
      rw [hcontrol]
      simp only [left, if_true]
      omega
  · cases hstep
  · cases hstep

/-- Without another peer being asked, requests complete or the round has less to do.
    Slots that are still to be filled are empty. -/
theorem Round.decreases (h : Round s) (hfits : Fits k s)
    (hempty : ∀ i active, s.control = .fill i active → ∀ r : Nat, s.slots[i]? ≠ some (some r)) {e : Event A}
    (hstep : s.step k e = some s') :
    s'.asked.length = s.asked.length + 1 ∨ s'.asked.length = s.asked.length ∧ Less s' s := by
  have hquiet (hless : s'.asked = s.asked ∧ Less s' s) :
      s'.asked.length = s.asked.length + 1 ∨ s'.asked.length = s.asked.length ∧ Less s' s :=
    .inr ⟨congrArg List.length hless.1, hless.2⟩
  cases e with
  | complete r answer => exact hquiet (less_complete hstep)
  | notify r i => exact hquiet (less_notify hstep)
  | go pick outcome =>
      -- Only a slot that is filled asks somebody.
      by_cases hfill : ∃ i active, s.control = .fill i active
      · obtain ⟨i, active, hcontrol⟩ := hfill
        simp only [Rounds.step, Rounds.go, hcontrol] at hstep
        obtain ⟨hle, -⟩ := h.filling i active hcontrol
        split at hstep
        · next hi =>
            cases hstep
            have hwidth := hfits.width i active hcontrol
            unfold Rounds.fill
            rcases hslot : s.slots[i]? with _ | _ | r
            · rw [getElem?_eq_none_iff] at hslot
              omega
            · dsimp only
              rcases hnext : k.next s.client pick with _ | ⟨peer, client⟩
              · -- nobody to ask: one slot less is left
                refine .inr ⟨rfl, .inr ⟨Nat.le_refl _, ?_⟩⟩
                unfold remaining
                rw [hcontrol]
                simp only [left]
                omega
              · refine .inl ?_
                unfold asked
                rw [length_map, length_map, length_append]
                rfl
            · exact absurd hslot (hempty i active hcontrol r)
        · split at hstep
          · next hactive =>
              cases hstep
              -- no request is active, so the loop is over
              obtain ⟨hsame, -⟩ := quiet_finish (k := k) s (k.idle s.client)
              refine hquiet ⟨hsame.asked, .inr ⟨pending_finish s _, ?_⟩⟩
              rw [remaining_finish, remaining, hcontrol]
              simp only [left, hactive, if_true]
              omega
          · next hactive =>
              cases hstep
              refine hquiet ⟨rfl, .inr ⟨Nat.le_refl _, ?_⟩⟩
              unfold remaining Rounds.fork
              rw [hcontrol]
              simp only [left, if_neg hactive, length_nil]
              omega
      · rw [not_exists] at hfill
        exact hquiet (h.less_go (fun i active hcontrol => hfill i ⟨active, hcontrol⟩) hstep)

end Rounds

end TomP2P
