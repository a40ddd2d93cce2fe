import TomP2P.Theory.Routing

/-!
# What the Queue Learns from an Answer

An answer reports peers, some of them more than once, some of which were asked, and
some of which are in the queue. Those that were not asked get into the queue, where
there is one entry for each id, the one that was reported last.

Such an answer is news if one of its peers would be the first of the queue. It is
enough to look at the closest of them (`Report.merged_iff_news`), before the queue is changed. If
this one is in the queue itself, none of the others is closer than the whole queue.

The answers without news are counted, and news set the number back. So the end is
reported by the answer that makes them so many in a row. The number has 32 bits, which
is enough up to the first report.

## Main definitions

* `RoutingMechanism.Report`: An answer, with the sets it finds.
* `RoutingMechanism.Report.News`: One of its peers is closer than the queue.
* `RoutingMechanism.streak`: How many answers in a row had no news.

## Theorems

* `RoutingMechanism.merge_learns`: What an answer changes, and when the end is reported.
-/

namespace TomP2P

open PeerMap List

/-! ### Sets of peers -/

namespace PeerSet

variable {location : Number160} {s : PeerSet location} {p : PeerAddress}

/-- The first peer is the closest. -/
theorem first_le {rest : List PeerAddress} (h : s.toList = p :: rest) {q : PeerAddress} (hq : q ∈ s.toList) :
    distance location p.peerId ≤ distance location q.peerId := by
  have hfirst : s.peers.firstEntry = some (distance location p.peerId, p) := by
    unfold toList NavMap.values at h
    unfold NavMap.firstEntry
    rcases hentries : s.peers.entries with _ | ⟨e, es⟩
    · rw [hentries] at h
      cases h
    · rw [hentries] at h
      have hkey := s.keyed e (by rw [hentries]; exact mem_cons_self)
      cases h
      rw [head?_cons, ← hkey]
  exact NavMap.firstEntry_le hfirst (mem_toList.mp hq)

theorem mem_toList_updateAll (ps : List PeerAddress) (s : PeerSet location) {q : PeerAddress}
    (h : q ∈ (ps.foldl update s).toList) : q ∈ ps ∨ q ∈ s.toList := by
  induction ps generalizing s with
  | nil => exact .inr h
  | cons p ps ih =>
      rcases ih (s.update p) h with h | h
      · exact .inl (mem_cons_of_mem _ h)
      · rcases mem_toList_update.mp h with rfl | h
        · exact .inl mem_cons_self
        · exact .inr h.1

end PeerSet

namespace RoutingMechanism

variable {location : Number160}

/-- A peer would be the first of the queue if it is closer than all of it. -/
theorem isNew_iff (queueToAsk : PeerSet location) (item : PeerAddress) :
    isNew queueToAsk item = true ↔
      ∀ q ∈ queueToAsk.toList, distance location item.peerId < distance location q.peerId := by
  unfold isNew
  split
  · next hin =>
      -- it is in the queue, and not closer than itself
      rcases PeerSet.mem_ids.mp (PeerSet.contains_iff.mp hin) with ⟨q, hq, hid⟩
      refine iff_of_false Bool.false_ne_true fun hall => ?_
      have hlt := hall q hq
      rw [hid] at hlt
      exact lt_irrefl _ hlt
  · next hout =>
      rw [decide_eq_true_iff, NavMap.size, length_eq_zero_iff, NavMap.headMap, NavMap.filter,
        filter_eq_nil_iff]
      constructor
      · intro hnone q hq
        have hle := hnone _ (PeerSet.mem_toList.mp hq)
        rw [decide_eq_true_iff, not_lt] at hle
        refine lt_of_le_of_ne hle fun heq => hout ?_
        rw [PeerSet.contains_iff, distance_injective location heq]
        exact PeerSet.mem_ids_of_mem hq
      · intro hall e he
        have hkey := queueToAsk.keyed e he
        have hlt := hall e.2 (PeerSet.mem_toList.mpr (hkey ▸ he))
        rw [decide_eq_true_iff, not_lt, hkey]
        exact hlt.le

/-- An answer, with the queue it finds and the peers that were asked. -/
structure Report (location : Number160) where
  queueToAsk : PeerSet location
  alreadyAsked : PeerSet location
  newNeighbors : List PeerAddress

/-- A peer of the answer that was not asked is closer than the queue. -/
def Report.News (r : Report location) : Prop :=
  ∃ p ∈ r.newNeighbors, p.peerId ∉ r.alreadyAsked.ids ∧
    ∀ q ∈ r.queueToAsk.toList, distance location p.peerId < distance location q.peerId

instance (r : Report location) : Decidable r.News := inferInstanceAs (Decidable (∃ p ∈ _, _ ∧ _))

/-- The peers of an answer that were not asked, each id once. -/
def Report.result (r : Report location) : PeerSet location :=
  (r.newNeighbors.filter fun newPeer => !r.alreadyAsked.contains newPeer).foldl PeerSet.update .empty

/-- The queue after an answer, and whether the answer was news. -/
def Report.merged (r : Report location) : Bool × PeerSet location := merge r.queueToAsk r.newNeighbors r.alreadyAsked

theorem not_contains_iff {s : PeerSet location} {p : PeerAddress} : (!s.contains p) = true ↔ p.peerId ∉ s.ids := by
  rw [Bool.not_eq_true', ← Bool.not_eq_true, PeerSet.contains_iff]

theorem Report.mem_ids_result (r : Report location) {id : Number160} :
    id ∈ r.result.ids ↔ ∃ p ∈ r.newNeighbors, p.peerId ∉ r.alreadyAsked.ids ∧ p.peerId = id := by
  unfold Report.result
  rw [mem_ids_updateAll, mem_map]
  constructor
  · rintro (⟨p, hp, hid⟩ | hnone)
    · rw [mem_filter, not_contains_iff] at hp
      exact ⟨p, hp.1, hp.2, hid⟩
    · cases hnone
  · rintro ⟨p, hp, hasked, hid⟩
    exact .inl ⟨p, mem_filter.mpr ⟨hp, not_contains_iff.mpr hasked⟩, hid⟩

theorem Report.mem_result (r : Report location) {p : PeerAddress} (h : p ∈ r.result.toList) :
    p ∈ r.newNeighbors ∧ p.peerId ∉ r.alreadyAsked.ids := by
  rcases PeerSet.mem_toList_updateAll _ _ h with h | h
  · rw [mem_filter, not_contains_iff] at h
    exact h
  · cases h

theorem Report.merged_eq (r : Report location) :
    r.merged.2 = r.result.toList.foldl PeerSet.update r.queueToAsk ∧
      r.merged.1 = match r.result.toList with
        | [] => false
        | first :: _ => isNew r.queueToAsk first := by
  unfold Report.merged merge Report.result
  dsimp only
  split
  · next hnone =>
      rw [hnone]
      exact ⟨rfl, rfl⟩
  · next hsome =>
      rw [hsome]
      exact ⟨rfl, rfl⟩

/-- The queue is made of what it was and of what is new. -/
theorem Report.mem_ids_merged (r : Report location) {id : Number160} :
    id ∈ r.merged.2.ids ↔
      id ∈ r.queueToAsk.ids ∨ ∃ p ∈ r.newNeighbors, p.peerId ∉ r.alreadyAsked.ids ∧ p.peerId = id := by
  rw [r.merged_eq.1, mem_ids_updateAll, ← r.mem_ids_result, or_comm]
  rfl

theorem Report.mem_merged (r : Report location) {p : PeerAddress} (h : p ∈ r.merged.2.toList) :
    p ∈ r.queueToAsk.toList ∨ p ∈ r.newNeighbors ∧ p.peerId ∉ r.alreadyAsked.ids := by
  rw [r.merged_eq.1] at h
  exact (PeerSet.mem_toList_updateAll _ _ h).symm.imp_right r.mem_result

/-- The closest of the new peers decides. -/
theorem Report.merged_iff_news (r : Report location) : r.merged.1 = true ↔ r.News := by
  rw [r.merged_eq.2]
  rcases hresult : r.result.toList with _ | ⟨first, rest⟩
  · -- nobody is new
    refine iff_of_false Bool.false_ne_true ?_
    rintro ⟨p, hp, hasked, -⟩
    rcases PeerSet.mem_ids.mp (r.mem_ids_result.mpr ⟨p, hp, hasked, rfl⟩) with ⟨q, hq, -⟩
    rw [hresult] at hq
    cases hq
  · rw [isNew_iff]
    constructor
    · intro hall
      rcases r.mem_result (by rw [hresult]; exact mem_cons_self) with ⟨hp, hasked⟩
      exact ⟨first, hp, hasked, hall⟩
    · rintro ⟨p, hp, hasked, hall⟩ q hq
      rcases PeerSet.mem_ids.mp (r.mem_ids_result.mpr ⟨p, hp, hasked, rfl⟩) with ⟨p', hp', hid⟩
      have hle := PeerSet.first_le hresult hp'
      rw [hid] at hle
      exact lt_of_le_of_lt hle (hall q hq)

/-! ### Answers in a row -/

/-- An answer is evaluated. -/
def inform (maxNoNewInfo : BitVec 32) (m : RoutingMechanism location) (r : Report location) :
    Bool × RoutingMechanism location :=
  { m with queueToAsk := r.queueToAsk, alreadyAsked := r.alreadyAsked }.evaluateInformation r.newNeighbors
    maxNoNewInfo.toInt

/-- Answers are evaluated one after the other. What happens to the queue between them is
    up to the search. -/
def informAll (maxNoNewInfo : BitVec 32) (m : RoutingMechanism location) (rs : List (Report location)) :
    RoutingMechanism location :=
  rs.foldl (fun m r => (inform maxNoNewInfo m r).2) m

/-- The number of answers without news since the last news. -/
def streak (rs : List (Report location)) : Nat := (rs.reverse.takeWhile fun r => !decide r.News).length

/-- None of the answers has reported the end. -/
def Silent (maxNoNewInfo : BitVec 32) (m : RoutingMechanism location) (rs : List (Report location)) : Prop :=
  ∀ before r after, rs = before ++ r :: after → (inform maxNoNewInfo (informAll maxNoNewInfo m before) r).1 = false

theorem streak_snoc (rs : List (Report location)) (r : Report location) :
    streak (rs ++ [r]) = if r.News then 0 else streak rs + 1 := by
  unfold streak
  rw [reverse_append, reverse_singleton, singleton_append, takeWhile_cons]
  by_cases hnews : r.News
  · simp [hnews]
  · simp [hnews]

theorem informAll_snoc (maxNoNewInfo : BitVec 32) (m : RoutingMechanism location) (rs : List (Report location))
    (r : Report location) :
    informAll maxNoNewInfo m (rs ++ [r]) = (inform maxNoNewInfo (informAll maxNoNewInfo m rs) r).2 := by
  unfold informAll
  rw [foldl_append]
  rfl

/-- What an answer counts. -/
theorem inform_eq (maxNoNewInfo : BitVec 32) (m : RoutingMechanism location) (r : Report location) :
    ((inform maxNoNewInfo m r).1 = true ↔ ¬ r.News ∧ maxNoNewInfo.toInt ≤ int (m.nrNoNewInfo + 1)) ∧
      (inform maxNoNewInfo m r).2.nrNoNewInfo = if r.News then 0 else int (m.nrNoNewInfo + 1) := by
  have hnews := r.merged_iff_news
  unfold Report.merged at hnews
  unfold inform evaluateInformation
  dsimp only
  by_cases hmerged : (merge r.queueToAsk r.newNeighbors r.alreadyAsked).1 = true
  · rw [if_pos hmerged, if_pos (hnews.mp hmerged)]
    exact ⟨iff_of_false Bool.false_ne_true fun h => h.1 (hnews.mp hmerged), rfl⟩
  · rw [if_neg hmerged, if_neg fun h => hmerged (hnews.mpr h)]
    dsimp only
    rw [decide_eq_true_iff]
    exact ⟨⟨fun h => ⟨fun hno => hmerged (hnews.mpr hno), h⟩, And.right⟩, rfl⟩

theorem nrNoNewInfo_informAll (maxNoNewInfo : BitVec 32) {m : RoutingMechanism location} (hfresh : m.nrNoNewInfo = 0)
    (rs : List (Report location)) : (informAll maxNoNewInfo m rs).nrNoNewInfo = int (streak rs) := by
  induction rs using List.reverseRecOn with
  | nil =>
      have hzero : streak ([] : List (Report location)) = 0 := rfl
      rw [hzero, int_eq (by decide) (by decide)]
      exact hfresh
  | append_singleton rs r ih =>
      rw [informAll_snoc, (inform_eq _ _ r).2, streak_snoc, ih, int_int_add]
      split
      · rfl
      · push_cast
        rfl

theorem Silent.init {maxNoNewInfo : BitVec 32} {m : RoutingMechanism location} {rs : List (Report location)}
    {r : Report location} (h : Silent maxNoNewInfo m (rs ++ [r])) : Silent maxNoNewInfo m rs := by
  rintro before r' after rfl
  exact h before r' (after ++ [r]) (by simp)

/-- Up to the first report the count has enough bits. -/
theorem Silent.streak_lt {maxNoNewInfo : BitVec 32} {m : RoutingMechanism location} (hfresh : m.nrNoNewInfo = 0)
    {rs : List (Report location)} (h : Silent maxNoNewInfo m rs) :
    (streak rs : Int) < max 1 maxNoNewInfo.toInt := by
  induction rs using List.reverseRecOn with
  | nil =>
      have hzero : streak ([] : List (Report location)) = 0 := rfl
      rw [hzero]
      omega
  | append_singleton rs r ih =>
      have hlt := ih h.init
      have hbound := BitVec.toInt_lt (x := maxNoNewInfo)
      have hquiet := h rs r [] rfl
      rw [streak_snoc]
      split
      · omega
      · next hnews =>
          -- one more in a row, and it was not enough
          rw [← Bool.not_eq_true, (inform_eq _ _ r).1, nrNoNewInfo_informAll _ hfresh, int_int_add, not_and,
            not_le] at hquiet
          have hfew := hquiet hnews
          rw [int_eq (by omega) (by omega)] at hfew
          push_cast
          omega

/-- What an answer changes, and when the end is reported: by the first answer that makes
    so many without news in a row. -/
theorem merge_learns {location : Number160} (maxNoNewInfo : BitVec 32) (m : RoutingMechanism location)
    (hfresh : m.nrNoNewInfo = 0) (rs : List (Report location)) (r : Report location) :
    (∀ id, id ∈ r.merged.2.ids ↔
      id ∈ r.queueToAsk.ids ∨ ∃ p ∈ r.newNeighbors, p.peerId ∉ r.alreadyAsked.ids ∧ p.peerId = id) ∧
      r.merged.2.ids.Nodup ∧
      (∀ p ∈ r.merged.2.toList,
        p ∈ r.queueToAsk.toList ∨ p ∈ r.newNeighbors ∧ p.peerId ∉ r.alreadyAsked.ids) ∧
      (r.merged.1 = true ↔ ∃ p ∈ r.newNeighbors, p.peerId ∉ r.alreadyAsked.ids ∧
        ∀ q ∈ r.queueToAsk.toList, distance location p.peerId < distance location q.peerId) ∧
      (Silent maxNoNewInfo m rs →
        ((inform maxNoNewInfo (informAll maxNoNewInfo m rs) r).1 = true ↔
          ¬ r.News ∧ maxNoNewInfo.toInt ≤ streak (rs ++ [r])) ∧
        (1 ≤ maxNoNewInfo.toInt → ((inform maxNoNewInfo (informAll maxNoNewInfo m rs) r).1 = true ↔
          (streak (rs ++ [r]) : Int) = maxNoNewInfo.toInt))) := by
  refine ⟨fun id => r.mem_ids_merged, r.merged.2.nodup_ids, fun p hp => r.mem_merged hp, r.merged_iff_news, ?_⟩
  intro hsilent
  have hlt := hsilent.streak_lt hfresh
  have hbound := BitVec.toInt_lt (x := maxNoNewInfo)
  have hreport : (inform maxNoNewInfo (informAll maxNoNewInfo m rs) r).1 = true ↔
      ¬ r.News ∧ maxNoNewInfo.toInt ≤ streak (rs ++ [r]) := by
    rw [(inform_eq _ _ r).1, nrNoNewInfo_informAll _ hfresh, int_int_add, int_eq (by omega) (by omega), streak_snoc]
    refine and_congr_right fun hnews => ?_
    rw [if_neg hnews]
    push_cast
    rfl
  refine ⟨hreport, fun hpos => hreport.trans ?_⟩
  rw [streak_snoc]
  split
  · next hnews =>
      refine iff_of_false (fun h => h.1 hnews) ?_
      push_cast
      omega
  · next hnews =>
      rw [and_iff_right hnews]
      push_cast
      omega

/-- Peer 9 is in the queue of a search for the location 8, peer 10 was asked, and an
    answer reports both of them, and peer 11 twice. -/
def noNews : Report 8 where
  queueToAsk := PeerSet.empty.update { peerId := 9 }
  alreadyAsked := PeerSet.empty.add { peerId := 10 }
  newNeighbors := [{ peerId := 9 }, { peerId := 11 }, { peerId := 10 }, { peerId := 11 }]

/-- A search that begins. -/
def freshSearch : RoutingMechanism 8 :=
  DistributedRouting.startRouting { peerId := 1 } (some 8) none [{ peerId := 9 }]

theorem merge_learns_noNews :
    noNews.merged.2.ids = [9, 11] ∧ noNews.merged.1 = false ∧
      (inform 2 (informAll 2 freshSearch [noNews]) noNews).1 = true := by
  have hsilent : Silent 2 freshSearch [noNews] := by
    rintro (_ | ⟨b, before⟩) r after h
    · rw [nil_append, List.cons.injEq] at h
      rw [← h.1]
      decide
    · simp at h
  rcases merge_learns 2 freshSearch rfl [noNews] noNews with ⟨-, -, -, hnews, hstreak⟩
  refine ⟨by decide, ?_, ((hstreak hsilent).2 (by decide)).mpr (by decide)⟩
  rw [← Bool.not_eq_true, hnews]
  decide

end RoutingMechanism

end TomP2P
