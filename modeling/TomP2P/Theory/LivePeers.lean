import TomP2P.Theory.PeerBags

/-!
# Live and Dead Peers

A peer that is verified should not be held to be dead.

A peer gets into one of the three maps of dead peers when contact to it fails, and
it leaves the bags then. It gets back into the bags at first hand, or at second
hand without verification, and of the three maps it leaves two. An exception is
not forgotten: it stays until it expires. Whether a call keeps the verified and
the dead apart is therefore a question about the exceptions alone, and `Trusting`
is the answer: a call that takes a peer for alive finds no exception of it that is
not expired.

Looking whether the peer is dead takes an expired exception out, which is why
nothing of it is left to become valid again.

## Main definitions

* `PeerMap.Trusting`: A call that takes a peer for alive finds no exception.
* `PeerMap.TrustingRun`: Sequences of such calls.
* `PeerMap.Consistent`: Verified and dead peers are apart after a call.

## Theorems

* `PeerMap.removed_spec`: What looking for a dead peer answers and leaves.
* `PeerMap.TrustingRun.consistent_iff`: Sequences of trusting calls keep the
  verified and the dead apart, and no other call does.
-/

namespace TomP2P

open ConcurrentCacheMap Function

namespace PeerMap

/-- The peer has an entry in one of the maps of dead peers, expired or not. -/
def Buried (m : PeerMap) (id : Number160) : Prop :=
  m.offlineMap.Has Number160.hashCode id ∨ m.shutdownMap.Has Number160.hashCode id ∨
    m.exceptionMap.Has Number160.hashCode id

/-- No verified peer has one. -/
def Apart (m : PeerMap) : Prop := ∀ j id, (m.peerMapVerified j).contains id = true → ¬ m.Buried id

variable {c : PeerMapConfiguration} {m m' : PeerMap}

/-- Fewer verified and fewer dead peers are apart if more are. -/
theorem Apart.mono (h : Apart m)
    (hv : ∀ j id, (m'.peerMapVerified j).contains id = true → (m.peerMapVerified j).contains id = true)
    (hd : ∀ id, m'.Buried id → m.Buried id) : Apart m' :=
  fun j id hin hdead => h j id (hv j id hin) (hd id hdead)

/-! ### Looking for a dead peer -/

/-- A peer that is found dead is buried, one that is not is not buried any more,
    and nobody is buried by being looked for. -/
theorem removed_spec (m : PeerMap) (now : Int) (id : Number160) :
    ((m.isPeerRemovedTemporarly now id).1 = true → m.Buried id) ∧
      ((m.isPeerRemovedTemporarly now id).1 = false → ¬ (m.isPeerRemovedTemporarly now id).2.Buried id) ∧
      ∀ k, (m.isPeerRemovedTemporarly now id).2.Buried k → m.Buried k := by
  have hoffline := m.offlineMap.containsKey_spec Number160.hashCode now id
  have hshutdown := m.shutdownMap.containsKey_spec Number160.hashCode now id
  have hexception := m.exceptionMap.containsKey_spec Number160.hashCode now id
  unfold isPeerRemovedTemporarly
  dsimp only
  split
  · next hyes =>
      refine ⟨fun _ => .inl (hoffline.1 hyes), nofun, ?_⟩
      rintro k (hk | hk)
      · exact .inl (hoffline.2.2 k hk)
      · exact .inr hk
  · next hno =>
      rw [Bool.not_eq_true] at hno
      split
      · next hyes =>
          refine ⟨fun _ => .inr (.inl (hshutdown.1 hyes)), nofun, ?_⟩
          rintro k (hk | hk | hk)
          · exact .inl (hoffline.2.2 k hk)
          · exact .inr (.inl (hshutdown.2.2 k hk))
          · exact .inr (.inr hk)
      · next hno' =>
          rw [Bool.not_eq_true] at hno'
          refine ⟨fun hyes => .inr (.inr (hexception.1 hyes)), ?_, ?_⟩
          · rintro hno'' (hk | hk | hk)
            · exact hoffline.2.1 hno hk
            · exact hshutdown.2.1 hno' hk
            · exact hexception.2.1 hno'' hk
          · rintro k (hk | hk | hk)
            · exact .inl (hoffline.2.2 k hk)
            · exact .inr (.inl (hshutdown.2.2 k hk))
            · exact .inr (.inr (hexception.2.2 k hk))

theorem not_has_of_containsKey {d : DeadPeers} {now : Int} {id : Number160}
    (h : ¬ d.Has Number160.hashCode id) : (d.containsKey Number160.hashCode now id).1 = false := by
  by_contra hin
  rw [Bool.not_eq_false] at hin
  exact h ((d.containsKey_spec Number160.hashCode now id).1 hin)

theorem trust_buried (m : PeerMap) (id k : Number160) (h : (m.trust id).Buried k) : m.Buried k := by
  rcases h with h | h | h
  · exact .inl (has_remove h).2
  · exact .inr (.inl (has_remove h).2)
  · exact .inr (.inr h)

/-- A peer that is trusted is dead only by an exception. -/
theorem removed_of_trust (m : PeerMap) (now : Int) (id : Number160) :
    ((m.trust id).isPeerRemovedTemporarly now id).1 =
      (m.exceptionMap.containsKey Number160.hashCode now id).1 := by
  have hoffline : ((m.trust id).offlineMap.containsKey Number160.hashCode now id).1 = false :=
    not_has_of_containsKey fun h => (has_remove h).1 rfl
  have hshutdown : ((m.trust id).shutdownMap.containsKey Number160.hashCode now id).1 = false :=
    not_has_of_containsKey fun h => (has_remove h).1 rfl
  unfold isPeerRemovedTemporarly
  dsimp only
  rw [if_neg (by rw [hoffline]; exact Bool.false_ne_true),
    if_neg (by rw [hshutdown]; exact Bool.false_ne_true)]
  rfl

/-- The dead peers of a map. -/
def SameDead (m m' : PeerMap) : Prop :=
  m'.offlineMap = m.offlineMap ∧ m'.shutdownMap = m.shutdownMap ∧ m'.exceptionMap = m.exceptionMap

theorem SameDead.buried (h : SameDead m m') (id : Number160) : m'.Buried id ↔ m.Buried id := by
  rw [Buried, h.1, h.2.1, h.2.2]
  rfl

theorem SameDead.removed (h : SameDead m m') (now : Int) (id : Number160) :
    (m'.isPeerRemovedTemporarly now id).1 = (m.isPeerRemovedTemporarly now id).1 := by
  unfold isPeerRemovedTemporarly
  dsimp only
  rw [h.1, h.2.1, h.2.2]
  split
  · rfl
  · split <;> rfl

/-- Looking twice at one time gives one answer. -/
theorem removed_again (m : PeerMap) (now : Int) (id : Number160) :
    ((m.isPeerRemovedTemporarly now id).2.isPeerRemovedTemporarly now id).1 =
      (m.isPeerRemovedTemporarly now id).1 := by
  have hoffline := m.offlineMap.containsKey_again Number160.hashCode now id
  have hshutdown := m.shutdownMap.containsKey_again Number160.hashCode now id
  have hexception := m.exceptionMap.containsKey_again Number160.hashCode now id
  cases ho : (m.offlineMap.containsKey Number160.hashCode now id).1 with
  | true => simp [isPeerRemovedTemporarly, ho, hoffline]
  | false =>
      cases hs : (m.shutdownMap.containsKey Number160.hashCode now id).1 with
      | true => simp [isPeerRemovedTemporarly, ho, hoffline, hs, hshutdown]
      | false => simp [isPeerRemovedTemporarly, ho, hoffline, hs, hshutdown, hexception]

/-! ### What a call does -/

theorem sameDead_accept (c : PeerMapConfiguration) (m : PeerMap) (now : Int) (p : PeerAddress)
    (firstHand direct : Bool) : SameDead m (accept c m now p firstHand direct).1 := by
  unfold accept
  dsimp only
  split
  · exact ⟨rfl, rfl, rfl⟩
  · exact ⟨rfl, rfl, rfl⟩
  · split <;> exact ⟨rfl, rfl, rfl⟩

/-- What is known of a peer is renewed under its id. -/
theorem contains_update {tmp tmp' : Bag} {p : PeerAddress} {firstHand updated : Bool} {now : Int}
    (h : updateExistingVerifiedPeerAddress tmp p firstHand now = .ok (some (tmp', updated)))
    {id : Number160} (hin : tmp'.contains id = true) : tmp.contains id = true := by
  unfold updateExistingVerifiedPeerAddress at h
  cases hget : tmp.get p.peerId with
  | none =>
      rw [hget] at h
      cases h
  | some old =>
      rw [hget] at h
      dsimp only at h
      split at h
      · split at h
        · cases h
        · cases h
          rcases PairOk.contains_put hin with rfl | hin
          · exact contains_of_get hget
          · exact hin
      · cases h
        exact hin

theorem contains_of_update {bags : Nat → Bag} {i j : Nat} {bag : Bag} {id : Number160}
    (h : (update bags i bag j).contains id = true) :
    (j ≠ i ∧ (bags j).contains id = true) ∨ (j = i ∧ bag.contains id = true) := by
  by_cases hj : j = i
  · subst hj
    rw [update_self] at h
    exact .inr ⟨rfl, h⟩
  · rw [update_of_ne hj] at h
    exact .inl ⟨hj, h⟩

theorem get_of_update {tmp : Bag} {p : PeerAddress} {firstHand : Bool} {now : Int}
    (h : updateExistingVerifiedPeerAddress tmp p firstHand now = .ok none) : tmp.get p.peerId = none := by
  unfold updateExistingVerifiedPeerAddress at h
  cases hget : tmp.get p.peerId with
  | none => rfl
  | some old =>
      rw [hget] at h
      dsimp only at h
      split at h
      · split at h <;> cases h
      · cases h

/-- The peer may become verified if it is known directly and there is room for it. -/
theorem contains_accept {now : Int} {p : PeerAddress} {firstHand direct : Bool} {j : Nat} {id : Number160}
    (h : ((accept c m now p firstHand direct).1.peerMapVerified j).contains id = true) :
    (m.peerMapVerified j).contains id = true ∨
      (id = p.peerId ∧ direct = true ∧
        ¬ (m.peerMapVerified (bagOf c.self p.peerId)).contains p.peerId = true ∧
        ((m.peerMapVerified (bagOf c.self p.peerId)).size : Int) <
          (c.bagSizesVerified (bagOf c.self p.peerId)).toInt) := by
  unfold accept at h
  dsimp only at h
  split at h
  · exact .inl h
  · next hupdate =>
      rcases contains_of_update h with ⟨_, hold⟩ | ⟨rfl, hnew⟩
      · exact .inl hold
      · exact .inl (contains_update hupdate hnew)
  · next hupdate =>
      split at h
      · next hdirect =>
          rw [Bool.and_eq_true, decide_eq_true_eq] at hdirect
          rcases contains_of_update h with ⟨_, hold⟩ | ⟨rfl, hnew⟩
          · exact .inl hold
          · rcases PairOk.contains_put hnew with hid | hold
            · exact .inr ⟨hid, hdirect.1, not_contains_of_get (get_of_update hupdate), hdirect.2⟩
            · exact .inl hold
      · exact .inl h

/-- The peers are apart after a peer was taken, unless it is taken for alive and
    found dead. -/
theorem apart_judge (h : Apart m) {now : Int} {p : PeerAddress} {firstHand thirdHand direct : Bool}
    (hdirect : direct = true → (m.isPeerRemovedTemporarly now p.peerId).1 = true →
      ∀ j, ((judge c m now p firstHand thirdHand direct).1.peerMapVerified j).contains p.peerId = true →
        (m.peerMapVerified j).contains p.peerId = true) :
    Apart (judge c m now p firstHand thirdHand direct).1 := by
  have hdead := removed_spec m now p.peerId
  have hbags := bags_isPeerRemovedTemporarly m now p.peerId
  have hlooked : Apart (m.isPeerRemovedTemporarly now p.peerId).2 :=
    h.mono (fun j id hin => by rwa [hbags.1] at hin) hdead.2.2
  unfold judge at hdirect ⊢
  dsimp only at hdirect ⊢
  split
  · exact h
  · next hid =>
      rw [if_neg hid] at hdirect
      split
      · exact h
      · next hreach =>
          rw [if_neg hreach] at hdirect
          split
          · exact hlooked
          · next hthird =>
              rw [if_neg hthird] at hdirect
              intro j id hin
              rw [(sameDead_accept _ _ _ _ _ _).buried]
              rcases contains_accept hin with hold | ⟨hid', hdir, _⟩
              · exact hlooked j id hold
              · have hid'' : id = p.peerId := hid'
                subst hid''
                cases hremoved : (m.isPeerRemovedTemporarly now p.peerId).1 with
                | false => exact hdead.2.1 hremoved
                | true =>
                    intro hb
                    exact h j p.peerId (hdirect hdir hremoved j hin) (hdead.2.2 _ hb)

theorem Belongs.bagOf_eq {j : Nat} {e : Number160 × PeerStatistic} (h : Belongs c j e) :
    bagOf c.self e.1 = j := by
  rw [bagOf, h.bag, Int.toNat_natCast]

/-- A peer that failed is dead and not verified any more. -/
theorem apart_forceFailed (h : Apart m) (hbags : BagsOk c m) (now : Int) (p : PeerAddress)
    (reason : AbortCause) : Apart (m.forceFailed c now p reason).1 := by
  have hburied (id : Number160) (hb : (m.bury now p reason).Buried id) : id = p.peerId ∨ m.Buried id := by
    cases reason <;> rcases hb with hb | hb | hb
    all_goals first
      | exact .inr (.inl hb)
      | exact .inr (.inr (.inl hb))
      | exact .inr (.inr (.inr hb))
      | exact (has_put hb).imp_right .inl
      | exact (has_put hb).imp_right fun hh => .inr (.inl hh)
      | exact (has_put hb).imp_right fun hh => .inr (.inr hh)
  intro j id hin hb
  have hmaps := bags_bury m now p reason
  have hold : (m.peerMapVerified j).contains id = true ∧ id ≠ p.peerId := by
    rcases contains_of_update hin with ⟨hne, hold⟩ | ⟨rfl, hrem⟩
    · rw [hmaps.1] at hold
      refine ⟨hold, ?_⟩
      rintro rfl
      obtain ⟨s, hs⟩ := (HashedMap.contains_iff _ _).mp hold
      exact hne ((hbags j).verified _ hs).bagOf_eq.symm
    · obtain ⟨hne, hold⟩ := PairOk.contains_remove hrem
      rw [hmaps.1] at hold
      exact ⟨hold, hne⟩
  exact h j id hold.1 ((hburied id hb).resolve_left hold.2)

/-- Counting a failure changes no peer. -/
theorem contains_updatePeerStatistic {p : PeerAddress} {bag : Bag} {maxFail : BitVec 32} {id : Number160}
    (h : (updatePeerStatistic p bag maxFail).2.contains id = true) : bag.contains id = true := by
  rcases updatePeerStatistic_cases p bag maxFail with hsame | ⟨s, hget, hput⟩
  · rwa [hsame] at h
  · rw [hput] at h
    rcases PairOk.contains_put h with rfl | h
    · exact contains_of_get hget
    · exact h

theorem apart_peerFailed (h : Apart m) (hbags : BagsOk c m) (now : Int) (p : PeerAddress)
    (reason : AbortCause) : Apart (peerFailed c m now p reason).1 := by
  have hboth : (fun m => Apart m ∧ BagsOk c m) (peerFailed c m now p reason).1 := by
    refine peerFailed_induction (P := fun m => Apart m ∧ BagsOk c m) ⟨h, hbags⟩ ?_ ?_ ?_
    · rintro m₀ ⟨h₀, hb₀⟩
      refine ⟨h₀.mono ?_ fun _ hb => hb, bagsOk_countVerified hb₀ p⟩
      intro j id hin
      rcases contains_of_update hin with ⟨_, hold⟩ | ⟨rfl, hnew⟩
      · exact hold
      · exact contains_updatePeerStatistic hnew
    · rintro m₀ ⟨h₀, hb₀⟩
      exact ⟨h₀.mono (fun _ _ hin => hin) fun _ hb => hb, bagsOk_countOverflow hb₀ p⟩
    · rintro m₀ cause ⟨h₀, hb₀⟩
      exact ⟨apart_forceFailed h₀ hb₀ now p cause, bagsOk_forceFailed hb₀ now p cause⟩
  exact hboth.1

/-! ### Calls that take a peer for alive -/

/-- The peer was in contact itself, which is trusted. -/
def direct (c : PeerMapConfiguration) (p : PeerAddress) (referrer : Option PeerAddress) : Bool :=
  referrer.isNone || (reportsItself p referrer && !c.peerVerification)

/-- The call takes the peer for alive. At first hand it is enough that the peer is
    not rejected, at second hand it has to be new among the verified ones. -/
structure Takes (c : PeerMapConfiguration) (m : PeerMap) (p : PeerAddress) (referrer : Option PeerAddress) :
    Prop where
  direct : direct c p referrer = true
  valid : (p.peerId.isZero || c.self = p.peerId || reject c (m.trust p.peerId) p) = false
  new : referrer = none ∨
    (p.unreachable = false ∧
      ¬ (m.peerMapVerified (bagOf c.self p.peerId)).contains p.peerId = true ∧
      ((m.peerMapVerified (bagOf c.self p.peerId)).size : Int) <
        (c.bagSizesVerified (bagOf c.self p.peerId)).toInt)

/-- A call that takes a peer for alive finds no exception of it. -/
def Trusting (c : PeerMapConfiguration) (m : PeerMap) : Call → Prop
  | .peerFound now p referrer =>
      Takes c m p referrer → (m.exceptionMap.containsKey Number160.hashCode now p.peerId).1 = false
  | .peerFailed _ _ _ => True

/-- The states after a sequence of trusting calls on a new map. -/
inductive TrustingRun (c : PeerMapConfiguration) : PeerMap → Prop
  | create {m : PeerMap} (h : PeerMap.create c = .ok m) : TrustingRun c m
  | call {m : PeerMap} (h : TrustingRun c m) (call : Call) (ht : Trusting c m call) :
      TrustingRun c (call.apply c m)

/-- No verified peer is held to be dead, whenever one looks. -/
def Disjoint (m : PeerMap) : Prop :=
  ∀ j id now, (m.peerMapVerified j).contains id = true → (m.isPeerRemovedTemporarly now id).1 = false

/-- The verified and the dead are apart after the call, and so is the peer that
    was found at first hand. -/
def Consistent (c : PeerMapConfiguration) (m : PeerMap) (call : Call) : Prop :=
  Disjoint (call.apply c m) ∧
    ∀ now p, call = .peerFound now p none → (peerFound c m now p none).2 = .ok true →
      ∀ later, ((call.apply c m).isPeerRemovedTemporarly later p.peerId).1 = false

/-- A peer that becomes verified is taken for alive. -/
theorem takes_of_contains {now : Int} {p : PeerAddress} {referrer : Option PeerAddress} {thirdHand : Bool}
    (hdirect : direct c p referrer = true) {j : Nat}
    (h : ((judge c (m.trust p.peerId) now p referrer.isNone thirdHand true).1.peerMapVerified j).contains
      p.peerId = true)
    (hnew : ¬ (m.peerMapVerified j).contains p.peerId = true) : Takes c m p referrer := by
  have hbags (id : Number160) (j : Nat) :
      ((m.trust p.peerId).isPeerRemovedTemporarly now id).2.peerMapVerified j = m.peerMapVerified j :=
    congrFun (bags_isPeerRemovedTemporarly (m.trust p.peerId) now id).1 j
  unfold judge at h
  dsimp only at h
  split at h
  · exact absurd h hnew
  · next hvalid =>
      refine ⟨hdirect, Bool.not_eq_true _ ▸ hvalid, ?_⟩
      split at h
      · exact absurd h hnew
      · next hreach =>
          split at h
          · dsimp only at h
            rw [hbags] at h
            exact absurd h hnew
          · rcases contains_accept h with hold | ⟨_, _, hroom⟩
            · rw [hbags] at hold
              exact absurd hold hnew
            · cases referrer with
              | none => exact .inl rfl
              | some r =>
                  rw [hbags] at hroom
                  exact .inr ⟨by simpa using hreach, hroom⟩

/-- A trusting call keeps the verified and the dead apart. -/
theorem apart_call (h : Apart m) (hbags : BagsOk c m) {call : Call} (ht : Trusting c m call) :
    Apart (call.apply c m) := by
  cases call with
  | peerFailed now p reason => exact apart_peerFailed h hbags now p reason
  | peerFound now p referrer =>
      change Apart (judge c (if direct c p referrer then m.trust p.peerId else m) now p _ _
        (direct c p referrer)).1
      cases hdirect : direct c p referrer with
      | false => exact apart_judge h fun hf => absurd hf Bool.false_ne_true
      | true =>
          rw [if_pos rfl]
          have htrust : Apart (m.trust p.peerId) :=
            h.mono (fun _ _ hin => hin) fun k hk => trust_buried m p.peerId k hk
          refine apart_judge htrust ?_
          intro _ hdead j hin
          by_contra hnew
          -- the peer is new, so there is no exception of it
          have hno := ht (takes_of_contains hdirect hin hnew)
          rw [removed_of_trust, hno] at hdead
          exact Bool.false_ne_true hdead

/-- Nobody is buried in a new map. -/
theorem apart_create (h : create c = .ok m) : Apart m := by
  intro j id hin
  obtain ⟨s, hs⟩ := (HashedMap.contains_iff _ _).mp hin
  unfold create at h
  split at h
  · cases h
  · split at h
    · cases h
    · cases h
      exact absurd hs List.not_mem_nil

theorem TrustingRun.bagsOk (h : TrustingRun c m) : BagsOk c m := by
  have hreach : Reachable c m := by
    induction h with
    | create h => exact .create h
    | call _ call _ ih => exact .call ih call
  exact hreach.bagsOk

theorem TrustingRun.apart (h : TrustingRun c m) : Apart m := by
  induction h with
  | create h => exact apart_create h
  | call h call ht ih => exact apart_call ih h.bagsOk ht

theorem Apart.disjoint (h : Apart m) : Disjoint m := by
  intro j id now hin
  by_contra hdead
  rw [Bool.not_eq_false] at hdead
  exact h j id hin ((removed_spec m now id).1 hdead)

/-! ### Exactness -/

/-- A peer that is taken for alive is looked for among the dead, and accepted. -/
theorem peerFound_of_takes {p : PeerAddress} {referrer : Option PeerAddress} (h : Takes c m p referrer)
    (now : Int) :
    peerFound c m now p referrer =
      accept c ((m.trust p.peerId).isPeerRemovedTemporarly now p.peerId).2 now
        (PeerAddress.With.apply p (.field (.unreachable false))) referrer.isNone true := by
  change judge c (if direct c p referrer then m.trust p.peerId else m) now p _ _ (direct c p referrer) = _
  have hthird : (!referrer.isNone && !reportsItself p referrer) = false := by
    have hd := h.direct
    unfold direct at hd
    cases hr : reportsItself p referrer <;> simp_all
  have hreach : (p.unreachable && !referrer.isNone) = false := by
    rcases h.new with rfl | ⟨hreach, _⟩
    · simp
    · rw [hreach, Bool.false_and]
  rw [h.direct, if_pos rfl]
  unfold judge
  rw [h.valid, hreach, hthird]
  rfl

/-- A peer that is taken for alive despite an exception is dead afterwards. -/
theorem removed_of_takes {p : PeerAddress} {referrer : Option PeerAddress} (h : Takes c m p referrer)
    {now : Int} (hdead : (m.exceptionMap.containsKey Number160.hashCode now p.peerId).1 = true) :
    ((peerFound c m now p referrer).1.isPeerRemovedTemporarly now p.peerId).1 = true := by
  rw [peerFound_of_takes h, (sameDead_accept _ _ _ _ _ _).removed, removed_again, removed_of_trust, hdead]

/-- At first hand the answer is that the peer was added or renewed. -/
theorem accept_firstHand (hbags : BagsOk c m) (now : Int) (p : PeerAddress) :
    (accept c m now p true true).2 = .ok true := by
  unfold accept updateExistingVerifiedPeerAddress
  dsimp only
  cases hget : (m.peerMapVerified (bagOf c.self p.peerId)).get p.peerId with
  | none =>
      dsimp only
      split <;> rfl
  | some old =>
      have hbelongs := Belongs.of_get (hbags _).verified hget
      dsimp only
      rw [if_pos rfl, PeerStatistic.setPeerAddress, if_neg (not_not.mpr hbelongs.peerId)]

/-- At second hand it is verified, if there is room for it. -/
theorem contains_accept_of_room {now : Int} {p : PeerAddress} {firstHand : Bool}
    (hnew : ¬ (m.peerMapVerified (bagOf c.self p.peerId)).contains p.peerId = true)
    (hroom : ((m.peerMapVerified (bagOf c.self p.peerId)).size : Int) <
      (c.bagSizesVerified (bagOf c.self p.peerId)).toInt) :
    ((accept c m now p firstHand true).1.peerMapVerified (bagOf c.self p.peerId)).contains p.peerId =
      true := by
  have hget : (m.peerMapVerified (bagOf c.self p.peerId)).get p.peerId = none := by
    rwa [HashedMap.contains, Option.not_isSome_iff_eq_none] at hnew
  unfold accept updateExistingVerifiedPeerAddress insertVerified
  dsimp only
  rw [hget]
  dsimp only
  rw [Bool.true_and, if_pos (decide_eq_true hroom)]
  dsimp only
  rw [update_self, HashedMap.contains_iff]
  exact ⟨_, (HashedMap.mem_put _ _ _ _).mpr (.inl rfl)⟩

theorem takes_of_firstHand {now : Int} {p : PeerAddress} (h : (peerFound c m now p none).2 = .ok true) :
    Takes c m p none := by
  refine ⟨rfl, ?_, .inl rfl⟩
  by_contra hrejected
  rw [Bool.not_eq_false] at hrejected
  have hfalse : (judge c (m.trust p.peerId) now p true false true).2 = .ok false := by
    unfold judge
    rw [if_pos hrejected]
  have hno : (Except.ok false : Except JavaException Bool) = .ok true := hfalse.symm.trans h
  cases hno

/-- In a state that trusting calls lead to no verified peer is held to be dead, and
    a call keeps it that way if and only if it is trusting again. -/
theorem TrustingRun.consistent_iff (h : TrustingRun c m) :
    Disjoint m ∧ ∀ call, Consistent c m call ↔ Trusting c m call := by
  refine ⟨h.apart.disjoint, fun call => ⟨?_, ?_⟩⟩
  · rintro ⟨hdisjoint, hfound⟩
    cases call with
    | peerFailed now p reason => trivial
    | peerFound now p referrer =>
        intro htakes
        by_contra hdead
        rw [Bool.not_eq_false] at hdead
        have hremoved := removed_of_takes htakes hdead
        have hbags := bags_isPeerRemovedTemporarly (m.trust p.peerId) now p.peerId
        have hsame : ((m.trust p.peerId).isPeerRemovedTemporarly now p.peerId).2.peerMapVerified =
            m.peerMapVerified := hbags.1
        rcases htakes.new with rfl | ⟨_, hnew, hroom⟩
        · -- at first hand the answer is that the peer is alive
          have hok : (peerFound c m now p none).2 = .ok true := by
            rw [peerFound_of_takes htakes]
            exact accept_firstHand (h.bagsOk.congr hsame hbags.2) now _
          exact Bool.false_ne_true ((hfound now p rfl hok now).symm.trans hremoved)
        · -- at second hand the peer is verified
          rw [← hsame] at hnew hroom
          have hin : ((peerFound c m now p referrer).1.peerMapVerified (bagOf c.self p.peerId)).contains
              p.peerId = true := by
            rw [peerFound_of_takes htakes]
            exact contains_accept_of_room hnew hroom
          exact Bool.false_ne_true ((hdisjoint _ _ now hin).symm.trans hremoved)
  · intro ht
    have hapart := apart_call h.apart h.bagsOk ht
    refine ⟨hapart.disjoint, ?_⟩
    rintro now p rfl hok later
    have htakes := takes_of_firstHand hok
    have hno : (m.exceptionMap.containsKey Number160.hashCode now p.peerId).1 = false := ht htakes
    rw [← removed_of_trust] at hno
    -- the exception, if there was one, is gone
    have hgone : ¬ (peerFound c m now p none).1.Buried p.peerId := by
      rw [peerFound_of_takes htakes, (sameDead_accept _ _ _ _ _ _).buried]
      exact (removed_spec _ now p.peerId).2.1 hno
    by_contra hdead
    rw [Bool.not_eq_false] at hdead
    exact hgone ((removed_spec _ later p.peerId).1 hdead)

/-- A peer that timed out and is found again at first hand. -/
theorem consistent_sized :
    Consistent (sized 8) ((Call.peerFailed 0 { peerId := 5 } .TIMEOUT).apply (sized 8) (fresh (sized 8)))
      (.peerFound 1 { peerId := 5 } none) :=
  ((((TrustingRun.create (create_sized 8 (by decide))).call (.peerFailed 0 { peerId := 5 } .TIMEOUT)
    trivial).consistent_iff).2 _).mpr (by
      intro _
      decide +kernel)

/-- An exception of a peer that is found again at first hand. -/
theorem not_disjoint_sized : ¬ ∀ c m, Reachable c m → Disjoint m := by
  intro h
  have hsized := h _ _ (((Reachable.create (create_sized 8 (by decide))).call
    (.peerFailed 0 { peerId := 5 } .PEER_ERROR)).call (.peerFound 1 { peerId := 5 } none)) 2 5 1
  revert hsized
  decide +kernel

end PeerMap

end TomP2P
