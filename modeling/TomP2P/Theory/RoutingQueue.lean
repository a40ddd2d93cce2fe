import TomP2P.Core.RoutingQueue
import TomP2P.Foundation.Runs
import TomP2P.Theory.RttComparator

/-!
# One Entry for Each Peer

A queue that is sorted by latency has no two entries of a peer as long as its lookups lead to what is
there. They do while the tree is in order (`InOrder`) and a statistic that is looked up compares to
the others as the one of the same peer that is in the tree (`Alike`).

A round trip time that comes in changes a statistic where it is. If another entry is overtaken by
that, the tree is out of order, a lookup of the peer may turn off too early, and the peer is added
once more. The same happens with a new object for a peer whose entry has been measured: it compares
as if it had not been.

## Main definitions

* `Identifies`: A comparator tells elements apart by their ids.
* `Alike`: Elements with one id compare alike.
* `RoutingQueue.Distinct`: No peer is in the queue twice, nor was asked twice.
* `RoutingQueue.Keeps`: A step leaves the order as it is.

## Theorems

* `steers`: A lookup in a tree in order is led.
* `UpdatableTreeSet.inOrder_add`, `UpdatableTreeSet.inOrder_addAll`: What is added comes in order.
* `RoutingQueue.Sorted.step`: Such a step keeps the queue in order.
* `RoutingQueue.distinct_of_keeps`: No peer is asked twice, if every step does.
-/

namespace TomP2P

open List

variable {α β : Type}

/-- Elements are equal for the comparator if their ids are, and in an order otherwise. -/
structure Identifies (id : α → β) (compare : α → α → Ordering) : Prop where
  eq_iff : ∀ a b, compare a b = .eq ↔ id a = id b
  swap : ∀ a b, compare a b = .lt ↔ compare b a = .gt
  trans : ∀ a b c, id a ≠ id c → compare a b = .lt → compare b c = .lt → compare a c = .lt

/-- Elements with one id compare alike to all others. -/
def Alike (id : α → β) (compare : α → α → Ordering) (l : List α) : Prop :=
  ∀ x ∈ l, ∀ y ∈ l, id x = id y → ∀ a ∈ l, id a ≠ id x → compare x a = compare y a

/-- The order of a tree. -/
def InOrder (compare : α → α → Ordering) (l : List α) : Prop := l.Pairwise fun a b => compare a b = .lt

section Order

variable {id : α → β} {compare : α → α → Ordering} {l u : List α} {x : α}

theorem Identifies.ne_of_lt (h : Identifies id compare) {a b : α} (hlt : compare a b = .lt) : id a ≠ id b := by
  intro heq
  rw [← h.eq_iff, hlt] at heq
  cases heq

/-- In order, there is one element for each id. -/
theorem InOrder.nodup (h : Identifies id compare) (hl : InOrder compare l) : (l.map id).Nodup := by
  rw [List.Nodup, pairwise_map]
  exact hl.imp fun hlt => h.ne_of_lt hlt

/-- A lookup in order is led, if what is looked up compares as what is there. -/
theorem steers (h : Identifies id compare) (hl : InOrder compare l) (hu : Alike id compare u) (hsub : l ⊆ u)
    (hx : x ∈ u) : Steers (compare x) l := by
  refine List.Pairwise.imp_of_mem ?_ hl
  intro a b ha hb hab hgt
  have hne := h.ne_of_lt hab
  by_cases hxa : id x = id a
  · rw [hu x hx a (hsub ha) hxa b (hsub hb) (hxa ▸ hne.symm)]
    exact hab
  · have hlt : compare x a = .lt := by
      cases hcompare : compare x a with
      | lt => rfl
      | gt => exact absurd hcompare hgt
      | eq => exact absurd ((h.eq_iff x a).1 hcompare) hxa
    by_cases hxb : id x = id b
    · -- The entry itself comes behind, and so does what compares alike.
      have halike := hu x hx b (hsub hb) hxb a (hsub ha) (Ne.symm hxa)
      rw [(h.swap a b).1 hab] at halike
      exact absurd halike hgt
    · exact h.trans x a b hxb hlt hab

theorem InOrder.sublist (hl : InOrder compare l) {l' : List α} (h : l'.Sublist l) : InOrder compare l' :=
  List.Pairwise.sublist h hl

/-- What is led goes up to a place and down from there. -/
theorem filter_append_filter {c : α → Ordering} (h : Steers c l) (hne : ∀ a ∈ l, c a ≠ .eq) :
    l.filter (fun a => c a = .gt) ++ l.filter (fun a => c a = .lt) = l := by
  induction l with
  | nil => rfl
  | cons a l ih =>
      obtain ⟨hfirst, hrest⟩ := pairwise_cons.1 h
      have hne' : ∀ b ∈ l, c b ≠ .eq := fun b hb => hne b (mem_cons_of_mem _ hb)
      cases ha : c a with
      | gt => simpa [filter_cons, ha] using ih hrest hne'
      | eq => exact absurd ha (hne a mem_cons_self)
      | lt =>
          have hlt : ∀ b ∈ l, c b = .lt := fun b hb => hfirst b hb (by simp [ha])
          have hnone : l.filter (fun a => c a = .gt) = [] :=
            filter_eq_nil_iff.2 fun b hb => by simp [hlt b hb]
          have hall : l.filter (fun a => c a = .lt) = l :=
            filter_eq_self.2 fun b hb => decide_eq_true (hlt b hb)
          simp [ha, hnone, hall]

end Order

namespace UpdatableTreeSet

variable {id : α → β} {compare : α → α → Ordering} (balance : Rebalancing α) {s : TreeSet α} {u : List α} {x : α}

theorem filter_of_not_contains (h : Steers (compare x) s.toList) (hnot : ¬ s.contains compare x = true) :
    (s.toList.filter fun a => compare x a ≠ .eq) = s.toList := by
  refine filter_eq_self.2 fun a ha => ?_
  have hne : compare x a ≠ .eq := fun heq => hnot ((SearchTree.contains_iff h).2 ⟨a, ha, heq⟩)
  simpa using hne

theorem toList_remove (h : Steers (compare x) s.toList) :
    (s.remove balance compare x).toList = s.toList.filter fun a => compare x a ≠ .eq := by
  unfold TreeSet.remove
  split
  · rw [TreeSet.toList_change]
    exact SearchTree.toList_erase h
  · next hnot =>
      exact (filter_of_not_contains h hnot).symm

/-- The loop takes out what compares equal. -/
theorem toList_removeWhile (n : Nat) (h : Steers (compare x) s.toList) (hn : s.toList.length ≤ n) :
    (removeWhile balance compare n s x).toList = s.toList.filter fun a => compare x a ≠ .eq := by
  induction n generalizing s with
  | zero =>
      have hnil : s.toList = [] := length_eq_zero_iff.1 (by omega)
      rw [removeWhile, hnil, filter_nil]
  | succ n ih =>
      rw [removeWhile]
      split
      · next hfound =>
          have hremove := toList_remove balance h
          obtain ⟨a, ha, heq⟩ := (SearchTree.contains_iff h).1 hfound
          have hlt : (s.toList.filter fun a => compare x a ≠ .eq).length < s.toList.length :=
            length_filter_lt_length_iff_exists.2 ⟨a, ha, by simp [heq]⟩
          rw [ih (hremove ▸ h.sublist filter_sublist) (by rw [hremove]; omega), hremove, filter_filter]
          simp
      · next hnot => exact (filter_of_not_contains h hnot).symm

theorem toList_add (h : Steers (compare x) s.toList) :
    (add balance compare s x).toList =
      s.toList.filter (fun a => compare x a = .gt) ++ x :: s.toList.filter (fun a => compare x a = .lt) := by
  have hlist := toList_removeWhile balance s.size h (SearchTree.length_toList s.root).le
  set t := removeWhile balance compare s.size s x with ht
  have hsteers : Steers (compare x) t.toList := hlist ▸ h.sublist filter_sublist
  have hnone : ∀ a ∈ t.toList, compare x a ≠ .eq := by
    intro a ha
    rw [hlist] at ha
    exact of_decide_eq_true (mem_filter.1 ha).2
  have hnot : ¬ t.contains compare x = true := by
    intro hfound
    obtain ⟨a, ha, heq⟩ := (SearchTree.contains_iff hsteers).1 hfound
    exact hnone a ha heq
  rw [add, ← ht, TreeSet.add, if_neg hnot, TreeSet.toList_change]
  have hinsert := SearchTree.toList_insert hsteers hnone x
  rw [hinsert]
  change t.toList.filter _ ++ x :: t.toList.filter _ = _
  rw [hlist, filter_filter, filter_filter]
  congr 2
  · funext a
    cases compare x a <;> rfl
  · congr 1
    funext a
    cases compare x a <;> rfl

/-- What is added comes in order, in the place of what has its id. -/
theorem inOrder_add (h : Identifies id compare) (hs : InOrder compare s.toList) (hu : Alike id compare u)
    (hsub : s.toList ⊆ u) (hx : x ∈ u) :
    InOrder compare (add balance compare s x).toList ∧
      ∀ a, a ∈ (add balance compare s x).toList ↔ a = x ∨ a ∈ s.toList ∧ id a ≠ id x := by
  have hsteers := steers h hs hu hsub hx
  have hlist := toList_add balance hsteers
  have hrest : InOrder compare (s.toList.filter fun a => compare x a ≠ .eq) := hs.sublist filter_sublist
  have hsplit := filter_append_filter (hsteers.sublist (filter_sublist (p := fun a => compare x a ≠ .eq)))
    fun a ha => of_decide_eq_true (mem_filter.1 ha).2
  constructor
  · -- What is less, the element, and what is greater.
    rw [← hsplit] at hrest
    obtain ⟨hless, hgreater, hcross⟩ := pairwise_append.1 hrest
    simp only [filter_filter] at hless hgreater hcross
    rw [hlist]
    refine pairwise_append.2 ⟨?_, pairwise_cons.2 ⟨?_, ?_⟩, ?_⟩
    · exact hs.sublist filter_sublist
    · intro b hb
      exact of_decide_eq_true (mem_filter.1 hb).2
    · exact hs.sublist filter_sublist
    · intro a ha b hb
      obtain ⟨hmem, hgt⟩ := mem_filter.1 ha
      have hgt : compare x a = .gt := of_decide_eq_true hgt
      rcases mem_cons.1 hb with rfl | hb
      · exact (h.swap a b).2 hgt
      · obtain ⟨hmem', hlt⟩ := mem_filter.1 hb
        have hlt : compare x b = .lt := of_decide_eq_true hlt
        refine hcross a (mem_filter.2 ⟨hmem, ?_⟩) b (mem_filter.2 ⟨hmem', ?_⟩)
        · simp [hgt]
        · simp [hlt]
  · intro a
    rw [hlist, mem_append, mem_cons, mem_filter, mem_filter, decide_eq_true_eq, decide_eq_true_eq,
      ne_comm, Ne, ← h.eq_iff x a]
    cases compare x a <;> simp [or_comm]

theorem subset_add (h : Identifies id compare) (hs : InOrder compare s.toList) (hu : Alike id compare u)
    (hsub : s.toList ⊆ u) (hx : x ∈ u) : (add balance compare s x).toList ⊆ u := by
  intro a ha
  rcases ((inOrder_add balance h hs hu hsub hx).2 a).1 ha with rfl | ⟨hmem, -⟩
  · exact hx
  · exact hsub hmem

theorem inOrder_foldl_add (h : Identifies id compare) (hu : Alike id compare u) (xs : List α) (hxs : xs ⊆ u)
    (hs : InOrder compare s.toList) (hsub : s.toList ⊆ u) :
    InOrder compare (xs.foldl (add balance compare) s).toList ∧ (xs.foldl (add balance compare) s).toList ⊆ u := by
  induction xs generalizing s with
  | nil => exact ⟨hs, hsub⟩
  | cons x xs ih =>
      have hx := hxs mem_cons_self
      exact ih (fun a ha => hxs (mem_cons_of_mem _ ha)) (inOrder_add balance h hs hu hsub hx).1
        (subset_add balance h hs hu hsub hx)

theorem inOrder_addAll (h : Identifies id compare) (hu : Alike id compare u) {c : TreeSet α}
    (hc : InOrder compare c.toList) (hcu : c.toList ⊆ u) (hs : InOrder compare s.toList) (hsub : s.toList ⊆ u) :
    InOrder compare (addAll balance compare s c).toList ∧ (addAll balance compare s c).toList ⊆ u := by
  unfold addAll
  split
  · split
    · exact ⟨hs, hsub⟩
    · have hlist : TreeSet.toList { root := SearchTree.ofSorted c.toList, modCount := s.modCount + 1 } = c.toList :=
        SearchTree.toList_ofSorted c.toList
      rw [hlist]
      exact ⟨hc, hcu⟩
  · exact inOrder_foldl_add balance h hu c.toList hcu hs hsub

end UpdatableTreeSet

/-- A merge comes in order, and everything in it is old or was reported. -/
theorem RoutingMechanism.inOrder_mergeStatistics {id : α → β} {compare : α → α → Ordering} (balance : Rebalancing α)
    {queueToAsk : TreeSet α} {newPeers : List α} {alreadyAsked : α → Bool} (h : Identifies id compare)
    (hqueue : InOrder compare queueToAsk.toList)
    (halike : Alike id compare (queueToAsk.toList ++ newPeers.filter fun newPeer => !alreadyAsked newPeer)) :
    InOrder compare (mergeStatistics balance compare queueToAsk newPeers alreadyAsked).2.toList ∧
      (mergeStatistics balance compare queueToAsk newPeers alreadyAsked).2.toList ⊆
        queueToAsk.toList ++ newPeers.filter fun newPeer => !alreadyAsked newPeer := by
  have hsub : queueToAsk.toList ⊆ queueToAsk.toList ++ newPeers.filter fun newPeer => !alreadyAsked newPeer :=
    subset_append_left _ _
  have hresult := UpdatableTreeSet.inOrder_foldl_add balance (s := {}) h halike _
    (subset_append_right _ _) List.Pairwise.nil (nil_subset _)
  unfold mergeStatistics
  dsimp only
  split
  · exact ⟨hqueue, hsub⟩
  · exact UpdatableTreeSet.inOrder_addAll balance h halike hresult.1 hresult.2 hqueue hsub

namespace RTTPeerStatisticComparator

/-- Whatever the statistics hold, the comparator tells peers apart. -/
theorem identifies (location : Number160) (statistics : Nat → RttStatistic) :
    Identifies (fun o => (statistics o).peerId)
      fun o1 o2 => RTTPeerStatisticComparator.compare location (statistics o1) (statistics o2) where
  eq_iff := fun _ _ => compare_eq_eq_iff
  swap := by
    intro a b
    by_cases hid : (statistics a).peerId = (statistics b).peerId
    · rw [compare_of_peerId hid, compare_of_peerId hid.symm]
      simp
    · have hne : key location (statistics a) ≠ key location (statistics b) := fun heq => hid (key_inj heq)
      rw [compare_eq hid, compare_eq (Ne.symm hid)]
      rcases lt_or_gt_of_ne hne with hlt | hgt
      · rw [if_pos (before_iff_key_lt.2 hlt), if_neg fun hb => (before_iff_key_lt.1 hb).not_gt hlt]
        simp
      · rw [if_neg fun hb => (before_iff_key_lt.1 hb).not_gt hgt, if_pos (before_iff_key_lt.2 hgt)]
        simp
  trans := by
    intro a b c hid hab hbc
    have hlt {x y : RttStatistic} (h : RTTPeerStatisticComparator.compare location x y = .lt) :
        key location x < key location y := by
      have hne : x.peerId ≠ y.peerId := by
        intro heq
        rw [compare_of_peerId heq] at h
        cases h
      rw [compare_eq hne] at h
      by_contra hnot
      rw [if_neg (fun hb => hnot (before_iff_key_lt.1 hb))] at h
      cases h
    have hac := (hlt hab).trans (hlt hbc)
    rw [compare_eq hid, if_pos (before_iff_key_lt.2 hac)]

end RTTPeerStatisticComparator

namespace RoutingQueue

variable (location : Number160) (balance : Rebalancing Nat)

/-- No peer is in the queue twice, and nobody in it was asked. Nobody was asked twice. -/
def Distinct (s : RoutingQueue) : Prop := (s.alreadyAsked ++ s.ids).Nodup

/-- A step leaves the order as it is. An update does not change how entries compare, and what is
    reported compares as the entry of the same peer. -/
def Keeps (s : RoutingQueue) : QueueEvent → Prop
  | .merge newPeers => Alike s.peerId (s.compare location) (s.queueToAsk.toList ++ s.notAsked newPeers)
  | .addRTT statistic rtt =>
      ∀ o1 ∈ s.queueToAsk.toList, ∀ o2 ∈ s.queueToAsk.toList,
        (s.step location balance (.addRTT statistic rtt)).compare location o1 o2 = s.compare location o1 o2
  | _ => True

/-- A step, which can always be taken. -/
def run (s : RoutingQueue) (e : QueueEvent) : Option RoutingQueue := some (s.step location balance e)

/-- An empty queue, with the peers that count as asked from the beginning. -/
def Fresh (s : RoutingQueue) : Prop := s.queueToAsk.toList = [] ∧ s.alreadyAsked.Nodup

/-- The tree is in order, and nobody in it was asked. -/
structure Sorted (s : RoutingQueue) : Prop where
  inOrder : InOrder (s.compare location) s.queueToAsk.toList
  asked : s.alreadyAsked.Nodup
  disjoint : ∀ o ∈ s.queueToAsk.toList, s.peerId o ∉ s.alreadyAsked

variable {location balance} {s : RoutingQueue}

theorem identifies (location : Number160) (s : RoutingQueue) : Identifies s.peerId (s.compare location) :=
  RTTPeerStatisticComparator.identifies location s.statistics

theorem Sorted.distinct (h : s.Sorted location) : s.Distinct := by
  unfold Distinct ids
  refine nodup_append.2 ⟨h.asked, h.inOrder.nodup (s.identifies location), ?_⟩
  intro a ha b hb hab
  obtain ⟨o, ho, rfl⟩ := mem_map.1 hb
  exact h.disjoint o ho (hab ▸ ha)

/-- Whoever is asked leaves the queue. -/
theorem Sorted.ask (h : s.Sorted location) {o : Nat} {queueToAsk : TreeSet Nat} (ho : o ∈ s.queueToAsk.toList)
    (hsub : queueToAsk.toList.Sublist s.queueToAsk.toList) (hne : ∀ a ∈ queueToAsk.toList, s.peerId a ≠ s.peerId o) :
    (s.ask o queueToAsk).Sorted location where
  inOrder := h.inOrder.sublist hsub
  asked := by
    refine nodup_append.2 ⟨h.asked, nodup_singleton _, ?_⟩
    intro a ha b hb hab
    rw [mem_singleton.1 hb] at hab
    exact h.disjoint o ho (hab ▸ ha)
  disjoint := by
    intro a ha hmem
    rcases mem_append.1 hmem with hmem | hmem
    · exact h.disjoint a (hsub.mem ha) hmem
    · exact hne a ha (mem_singleton.1 hmem)

theorem Sorted.merge (h : s.Sorted location) {newPeers : List Nat} (hkeeps : s.Keeps location balance (.merge newPeers)) :
    (s.step location balance (.merge newPeers)).Sorted location := by
  obtain ⟨horder, hsub⟩ := RoutingMechanism.inOrder_mergeStatistics balance (s.identifies location) h.inOrder hkeeps
  refine ⟨horder, h.asked, fun o ho => ?_⟩
  rcases mem_append.1 (hsub ho) with hold | hnew
  · exact h.disjoint o hold
  · have hnot := (mem_filter.1 hnew).2
    have hasked : s.peerId o ∉ s.alreadyAsked := by simpa using hnot
    exact hasked

theorem Sorted.pollFirst (h : s.Sorted location) : (s.step location balance .pollFirst).Sorted location := by
  have hpoll := s.queueToAsk.toList_pollFirst balance
  rw [step]
  cases hfirst : s.queueToAsk.pollFirst balance with
  | none => exact h
  | some p =>
      rw [hfirst] at hpoll
      have hlist : s.queueToAsk.toList = p.1 :: p.2.toList := by
        split at hpoll
        · cases hpoll
        · exact (Option.some.inj hpoll).symm
      refine h.ask (hlist ▸ mem_cons_self) (hlist ▸ sublist_cons_self _ _) fun a ha => ?_
      have horder := h.inOrder
      rw [hlist] at horder
      exact ((identifies location s).ne_of_lt (rel_of_pairwise_cons horder ha)).symm

theorem Sorted.pollRandom (h : s.Sorted location) (index : Nat) :
    (s.step location balance (.pollRandom index)).Sorted location := by
  rw [step]
  cases hget : s.queueToAsk.toList[index]? with
  | none => exact h
  | some o =>
      have ho : o ∈ s.queueToAsk.toList := mem_of_getElem? hget
      -- In order, an entry has no other of its id.
      have halike : Alike s.peerId (s.compare location) s.queueToAsk.toList := by
        intro x hx y hy hid a _ _
        rw [inj_on_of_nodup_map (h.inOrder.nodup (s.identifies location)) hx hy hid]
      have hremove := UpdatableTreeSet.toList_remove balance
        (steers (s.identifies location) h.inOrder halike (List.Subset.refl _) ho)
      refine h.ask ho (hremove ▸ filter_sublist) fun a ha hid => ?_
      rw [hremove] at ha
      exact of_decide_eq_true (mem_filter.1 ha).2 (((s.identifies location).eq_iff o a).2 hid.symm)

theorem peerId_addRTT (s : RttStatistic) (rtt : RTT) : (s.addRTT rtt).peerId = s.peerId := by
  unfold RttStatistic.addRTT
  split_ifs <;> rfl

theorem Sorted.addRTT (h : s.Sorted location) {statistic : Nat} {rtt : RTT}
    (hkeeps : s.Keeps location balance (.addRTT statistic rtt)) :
    (s.step location balance (.addRTT statistic rtt)).Sorted location where
  inOrder := by
    refine h.inOrder.imp_of_mem fun {a b} ha hb hab => ?_
    exact (hkeeps a ha b hb).trans hab
  asked := h.asked
  disjoint := by
    intro o ho
    have hid : (s.step location balance (.addRTT statistic rtt)).peerId o = s.peerId o := by
      change (Function.update s.statistics statistic ((s.statistics statistic).addRTT rtt) o).peerId = _
      by_cases heq : o = statistic
      · subst heq
        rw [Function.update_self, peerId_addRTT]
        rfl
      · rw [Function.update_of_ne heq]
        rfl
    rw [hid]
    exact h.disjoint o ho

/-- A step that leaves the order keeps the queue in order. -/
theorem Sorted.step {e : QueueEvent} (h : s.Sorted location) (hkeeps : s.Keeps location balance e) :
    (s.step location balance e).Sorted location := by
  cases e with
  | merge newPeers => exact h.merge hkeeps
  | pollFirst => exact h.pollFirst
  | pollRandom index => exact h.pollRandom index
  | addRTT statistic rtt => exact h.addRTT hkeeps

/-- No peer is in the queue twice or asked twice, as long as every step leaves the order. -/
theorem distinct_of_keeps (location : Number160) (balance : Rebalancing Nat) {s : RoutingQueue}
    (h : Reached (run location balance) (fun s e => s.Keeps location balance e) Fresh s) :
    s.Distinct := by
  have hsorted : s.Sorted location := by
    refine h.invariant (Sorted location) ?_ ?_
    · rintro s ⟨hempty, hasked⟩
      refine ⟨?_, hasked, fun o ho => ?_⟩
      · rw [hempty]
        exact List.Pairwise.nil
      · rw [hempty] at ho
        cases ho
    · intro s e s' hs hkeeps hstep
      cases hstep
      exact hs.step hkeeps
  exact hsorted.distinct

instance {γ : Type} [DecidableEq γ] (id : α → γ) (compare : α → α → Ordering) (l : List α) :
    Decidable (Alike id compare l) := by
  unfold Alike
  infer_instance

instance (s : RoutingQueue) (e : QueueEvent) : Decidable (s.Keeps location balance e) := by
  cases e <;> unfold Keeps <;> infer_instance

/-- A peer that was measured and one that was not, in one bag. -/
def pair (o : Nat) : RttStatistic :=
  if o = 0 then ⟨{ peerId := ⟨0, 0, 0, 0, 4⟩ }, [{ rtt := 50 }]⟩ else ⟨{ peerId := ⟨0, 0, 0, 0, 5⟩ }, []⟩

/-- No tree is changed, as none of so few entries is. -/
def asItIs : Rebalancing Nat := ⟨fun _ t => t, fun _ _ => rfl⟩

/-- The second peer answers, but not as fast as the first. -/
theorem distinct_of_keeps_pair :
    let events : List QueueEvent := [.merge [0, 1], .addRTT 1 { rtt := 100 }, .merge [1], .pollFirst]
    ∃ s, replay (run 0 asItIs) (fun s e => s.Keeps 0 asItIs e) events { statistics := pair } =
        some s ∧ s.alreadyAsked ++ s.ids = [⟨0, 0, 0, 0, 4⟩, ⟨0, 0, 0, 0, 5⟩] ∧ s.Distinct := by
  intro events
  have hsome : (replay (run 0 asItIs) (fun s e => s.Keeps 0 asItIs e) events
      { statistics := pair }).map (fun s => s.alreadyAsked ++ s.ids) =
        some [⟨0, 0, 0, 0, 4⟩, ⟨0, 0, 0, 0, 5⟩] := by decide +kernel
  obtain ⟨s, hs, heq⟩ := Option.map_eq_some_iff.mp hsome
  exact ⟨s, hs, heq, distinct_of_keeps 0 asItIs (Reached.replay events (.start ⟨rfl, nodup_nil⟩) hs)⟩

/-- The second peer overtakes the first one, and is reported again. It is asked twice. -/
theorem not_distinct_pair :
    let events : List QueueEvent := [.merge [0, 1], .addRTT 1 { rtt := 10 }, .merge [1]]
    ∃ s, Reached (run 0 asItIs) (fun _ _ => True) Fresh s ∧
      replay (run 0 asItIs) (fun _ _ => True) events { statistics := pair } = some s ∧
      s.ids = [⟨0, 0, 0, 0, 5⟩, ⟨0, 0, 0, 0, 4⟩, ⟨0, 0, 0, 0, 5⟩] ∧ ¬ s.Distinct ∧
      (((s.step 0 asItIs .pollFirst).step 0 asItIs .pollFirst).step 0 asItIs .pollFirst).alreadyAsked =
        [⟨0, 0, 0, 0, 5⟩, ⟨0, 0, 0, 0, 4⟩, ⟨0, 0, 0, 0, 5⟩] := by
  intro events
  have hsome : (replay (run 0 asItIs) (fun _ _ => True) events { statistics := pair }).map
      (fun s => (s.alreadyAsked, s.ids,
        (((s.step 0 asItIs .pollFirst).step 0 asItIs .pollFirst).step 0 asItIs .pollFirst).alreadyAsked)) =
        some ([], [⟨0, 0, 0, 0, 5⟩, ⟨0, 0, 0, 0, 4⟩, ⟨0, 0, 0, 0, 5⟩],
          [⟨0, 0, 0, 0, 5⟩, ⟨0, 0, 0, 0, 4⟩, ⟨0, 0, 0, 0, 5⟩]) := by decide +kernel
  obtain ⟨s, hs, heq⟩ := Option.map_eq_some_iff.mp hsome
  simp only [Prod.mk.injEq] at heq
  obtain ⟨hasked, hids, hpolls⟩ := heq
  refine ⟨s, Reached.replay events (.start ⟨rfl, nodup_nil⟩) hs, hs, hids, ?_, hpolls⟩
  rw [Distinct, hasked, hids]
  decide

end RoutingQueue

end TomP2P
