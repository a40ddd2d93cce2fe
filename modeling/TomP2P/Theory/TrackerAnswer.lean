import TomP2P.Core.TrackerAnswer

/-!
# What Is Drawn

A tracker should send all the peers that match, or as many as fit into a message if there
are more. It draws them one by one, and a peer that was drawn stays among those that are
drawn from. So how many it sends depends on the numbers: as many as there are different ones
among those drawn. Two peers that both fit are sent only if the second draw is not the
first one again. The answer compares what it sends with what there was, so that it says
that there is more also where everything would have fit.

## Main definitions

* `UtilsTracker.drawn`: The entries that some random numbers choose.
* `UtilsTracker.LimitExact`: What is asked of an answer.
* `UtilsTracker.Covers`: The draws that answer so.

## Theorems

* `UtilsTracker.limitPass_eq`: One pass.
* `UtilsTracker.drawn_of_whileUpTo`, `UtilsTracker.whileUpTo_of_drawn`: The loop.
* `UtilsTracker.limitExact_iff`: Which draws cut only when necessary.
* `UtilsTracker.limit_endless`, `UtilsTracker.respond_again`: A loop that does not end, and an
  answer that is cut although everything fits.
-/

namespace TomP2P

open HashedMap List

namespace UtilsTracker

open Effect

/-- The peers of a set, with their attachments. -/
abbrev Entry := PeerKey × PeerAddress × Option Data

variable (peers : TrackerPeers) (size : Int)

/-- The entry that a random number chooses. -/
def chosen (draw : Nat) : Option Entry := peers.peerAddresses.entries[draw % peers.size]?

/-- The entries with an attachment that the first random numbers choose. -/
def drawn : Nat → Stream' Nat → List Entry
  | 0, _ => []
  | k + 1, random =>
      ((chosen peers random.head).filter fun entry => entry.2.2.isSome).toList ++ drawn k random.tail

/-- As many different peers as there are and as fit, all if the answer is `OK`, and
    `PARTIALLY_OK` if more match than fit. -/
def LimitExact (random : Stream' Nat) : Prop :=
  ∃ fuel response rest, TrackerRPC.respond fuel size peers random = .ok (some response) rest ∧
    (response.trackerData.size : Int) = min (peers.size : Int) size ∧
    (∀ entry ∈ response.trackerData.peerAddresses.entries, entry ∈ peers.peerAddresses.entries) ∧
    (response.type = .PARTIALLY_OK ↔ size < peers.size) ∧
    (response.type = .OK ↔ ∀ entry ∈ peers.peerAddresses.entries, entry ∈ response.trackerData.peerAddresses.entries)

/-- There is nothing to draw, or the first draws that count, as many as fit, have enough
    different peers among them. -/
def Covers (random : Stream' Nat) : Prop :=
  0 ≤ size ∧ (peers.size = 0 ∨ ∃ k, ((drawn peers k random).length : Int) = size ∧
    (((drawn peers k random).map Prod.fst).dedup.length : Int) = min (peers.size : Int) size)

variable {peers size}

/-! ### One pass -/

theorem exists_chosen (h : 0 < peers.size) (draw : Nat) :
    ∃ entry ∈ peers.peerAddresses.entries, chosen peers draw = some entry := by
  have hlt : draw % peers.size < peers.peerAddresses.entries.length := Nat.mod_lt _ h
  exact ⟨peers.peerAddresses.entries[draw % peers.size], getElem_mem hlt, getElem?_eq_getElem hlt⟩

/-- A pass counts an entry that has an attachment, and keeps it. -/
theorem limitPass_eq {i : Int} {retVal : HashedMap PeerKey (PeerAddress × Option Data)} {random : Stream' Nat}
    {entry : Entry} (hi : i < size) (hentry : chosen peers random.head = some entry) :
    limitPass peers size (i, retVal) random =
      .ok (.inl (if entry.2.2.isSome then (i + 1, retVal.put entry.1 entry.2) else (i, retVal))) random.tail := by
  have hmem : entry ∈ peers.peerAddresses.entries := mem_of_getElem? hentry
  have hget : peers.peerAddresses.get entry.1 = some entry.2 := (get_eq_some_iff _ _ _).mpr hmem
  have hne : peers.peerAddresses.entries ≠ [] := ne_nil_of_mem hmem
  have hlength : (peers.peerAddresses.entries.map fun e => (e.1, e.2.1)).length = peers.size := by
    rw [length_map]
    rfl
  rcases entry with ⟨key, address, attachment⟩
  have hkey : (peers.peerAddresses.entries.map fun e => (e.1, e.2.1))[random.head % peers.size]? =
      some (key, address) := by
    rw [getElem?_map]
    exact congrArg (Option.map _) hentry
  unfold limitPass
  simp only [hi, List.isEmpty_iff, List.map_eq_nil_iff, hne, not_false_eq_true, and_self, if_true]
  rw [bind_apply, nextInt, hlength]
  simp only [hkey, hget, Option.bind_some]
  cases attachment with
  | none => simp
  | some value => simp

/-- Enough was drawn, or there is nothing to draw from. -/
theorem limitPass_end {i : Int} {retVal : HashedMap PeerKey (PeerAddress × Option Data)} {random : Stream' Nat}
    (h : size ≤ i ∨ peers.size = 0) : limitPass peers size (i, retVal) random = .ok (.inr retVal) random := by
  have hstop : ¬ (i < size ∧ ¬ (peers.peerAddresses.entries.map fun entry => (entry.1, entry.2.1)).isEmpty = true) := by
    rintro ⟨hi, hne⟩
    rcases h with hle | hzero
    · omega
    · exact hne (by simpa [TrackerPeers.size, HashedMap.size] using hzero)
  unfold limitPass
  simp only [if_neg hstop]
  rfl

theorem drawn_succ {random : Stream' Nat} {entry : Entry} (hentry : chosen peers random.head = some entry) (k : Nat) :
    drawn peers (k + 1) random =
      if entry.2.2.isSome then entry :: drawn peers k random.tail else drawn peers k random.tail := by
  rw [drawn, hentry]
  by_cases hsome : entry.2.2.isSome = true
  · rw [if_pos hsome, Option.filter_some, if_pos hsome]
    rfl
  · rw [if_neg hsome, Option.filter_some, if_neg hsome]
    rfl

theorem mem_of_mem_drawn (k : Nat) (random : Stream' Nat) {entry : Entry} (h : entry ∈ drawn peers k random) :
    entry ∈ peers.peerAddresses.entries ∧ entry.2.2.isSome = true := by
  induction k generalizing random with
  | zero => simp [drawn] at h
  | succ k ih =>
      rw [drawn, mem_append] at h
      rcases h with h | h
      · rw [Option.mem_toList, Option.filter_eq_some_iff] at h
        exact ⟨mem_of_getElem? h.1, h.2⟩
      · exact ih _ h

/-- The same number chooses the same entry. -/
theorem chosen_of_mem_drawn_const (k draw : Nat) {entry : Entry} (h : entry ∈ drawn peers k (Stream'.const draw)) :
    chosen peers draw = some entry := by
  induction k with
  | zero => simp [drawn] at h
  | succ k ih =>
      rw [drawn, mem_append] at h
      rcases h with h | h
      · rw [Option.mem_toList, Option.filter_eq_some_iff] at h
        exact h.1
      · exact ih h

/-! ### The loop -/

/-- A loop that ends has counted as many draws as fit. -/
theorem drawn_of_whileUpTo (h : 0 < peers.size) (fuel : Nat) {i : Int} (hi : i ≤ size)
    {retVal out : HashedMap PeerKey (PeerAddress × Option Data)} {random rest : Stream' Nat}
    (hend : whileUpTo (limitPass peers size) fuel (i, retVal) random = .ok (some out) rest) :
    ∃ k, i + (drawn peers k random).length = size ∧
      out = (drawn peers k random).foldl (fun m e => m.put e.1 e.2) retVal := by
  induction fuel generalizing i retVal random with
  | zero => simp [whileUpTo] at hend
  | succ fuel ih =>
      rw [whileUpTo_succ] at hend
      rcases lt_or_eq_of_le hi with hlt | heq
      · rcases exists_chosen h random.head with ⟨entry, _, hentry⟩
        rw [limitPass_eq hlt hentry] at hend
        by_cases hsome : entry.2.2.isSome = true
        · simp only [hsome, if_true] at hend
          rcases ih (by omega) hend with ⟨k, hlength, hout⟩
          refine ⟨k + 1, ?_, ?_⟩
          · simp only [drawn_succ hentry, hsome, if_true, length_cons]
            omega
          · simpa [drawn_succ hentry, hsome] using hout
        · simp only [hsome] at hend
          rcases ih hi hend with ⟨k, hlength, hout⟩
          refine ⟨k + 1, ?_, ?_⟩
          · simpa [drawn_succ hentry, hsome] using hlength
          · simpa [drawn_succ hentry, hsome] using hout
      · rw [limitPass_end (.inl heq.ge)] at hend
        refine ⟨0, by simp [drawn, heq], ?_⟩
        simp only [EStateM.Result.ok.injEq, Option.some.injEq] at hend
        exact hend.1.symm

/-- A loop ends when enough draws were counted. -/
theorem whileUpTo_of_drawn (h : 0 < peers.size) (k : Nat) {i : Int}
    (retVal : HashedMap PeerKey (PeerAddress × Option Data)) (random : Stream' Nat)
    (hlength : i + (drawn peers k random).length = size) :
    ∃ fuel rest, whileUpTo (limitPass peers size) fuel (i, retVal) random =
      .ok (some ((drawn peers k random).foldl (fun m e => m.put e.1 e.2) retVal)) rest := by
  induction k generalizing i retVal random with
  | zero =>
      refine ⟨1, random, ?_⟩
      have hle : size ≤ i := by simp [drawn] at hlength; omega
      exact whileUpTo_first _ 0 _ _ _ _ (limitPass_end (.inl hle))
  | succ k ih =>
      rcases exists_chosen h random.head with ⟨entry, _, hentry⟩
      rw [drawn_succ hentry] at hlength ⊢
      by_cases hsome : entry.2.2.isSome = true
      · simp only [hsome, if_true, length_cons, foldl_cons] at hlength ⊢
        have hlt : i < size := by omega
        have hlength' : (i + 1) + ((drawn peers k random.tail).length : Int) = size := by omega
        rcases ih (retVal.put entry.1 entry.2) random.tail hlength' with ⟨fuel, rest, hend⟩
        refine ⟨fuel + 1, rest, ?_⟩
        rw [whileUpTo_succ, limitPass_eq hlt hentry]
        simpa only [hsome, if_true] using hend
      · rw [if_neg hsome] at hlength ⊢
        rcases lt_or_ge i size with hlt | hge
        · rcases ih retVal random.tail hlength with ⟨fuel, rest, hend⟩
          refine ⟨fuel + 1, rest, ?_⟩
          rw [whileUpTo_succ, limitPass_eq hlt hentry, if_neg hsome]
          exact hend
        · -- nothing more is drawn, so that the rest of the draws counts none
          have hnil : drawn peers k random.tail = [] := length_eq_zero_iff.mp (by omega)
          refine ⟨1, random, ?_⟩
          rw [whileUpTo_first _ 0 _ _ _ _ (limitPass_end (.inl hge))]
          simp [hnil]

/-! ### The answer -/

/-- What is sent once the loop has ended. -/
def answerOf (peers : TrackerPeers) (size : Int) (out : HashedMap PeerKey (PeerAddress × Option Data)) :
    TrackerResponse :=
  ⟨if peers.size > out.size then .PARTIALLY_OK else .OK, ⟨out, peers.size > size⟩⟩

theorem respond_ok_iff {fuel : Nat} {random rest : Stream' Nat} {response : TrackerResponse} :
    TrackerRPC.respond fuel size peers random = .ok (some response) rest ↔
      0 ≤ size ∧ ∃ out, whileUpTo (limitPass peers size) fuel (0, .empty) random = .ok (some out) rest ∧
        response = answerOf peers size out := by
  unfold TrackerRPC.respond limit
  by_cases hneg : size < 0
  · simp only [if_pos hneg, bind_apply, throw_apply, reduceCtorEq, false_iff, not_and]
    omega
  · simp only [if_neg hneg, bind_apply]
    cases hloop : whileUpTo (limitPass peers size) fuel (0, .empty) random with
    | error e rest' => simp
    | ok out rest' =>
        cases out with
        | none => simp
        | some out =>
            simp only [pure_apply, Option.map_some, EStateM.Result.ok.injEq, Option.some.injEq]
            constructor
            · rintro ⟨rfl, rfl⟩
              exact ⟨by omega, out, ⟨rfl, rfl⟩, rfl⟩
            · rintro ⟨_, out', ⟨rfl, rfl⟩, rfl⟩
              exact ⟨rfl, rfl⟩

/-- Entries of a set that are as many as those of the set are all of them. -/
theorem all_mem_iff {out : HashedMap PeerKey (PeerAddress × Option Data)}
    (hsub : ∀ entry ∈ out.entries, entry ∈ peers.peerAddresses.entries) :
    (∀ entry ∈ peers.peerAddresses.entries, entry ∈ out.entries) ↔ ¬ peers.size > out.size := by
  have hout : out.entries.Nodup := List.Nodup.of_map Prod.fst out.nodup
  have hpeers : peers.peerAddresses.entries.Nodup := List.Nodup.of_map Prod.fst peers.peerAddresses.nodup
  constructor
  · intro hall
    exact Nat.not_lt.mpr (hpeers.subperm hall).length_le
  · intro hle entry hentry
    have hperm := (hout.subperm hsub).perm_of_length_le (Nat.not_lt.mp hle)
    exact hperm.mem_iff.mpr hentry

/-- An answer with as many entries of the set as there are and as fit is right in all. -/
theorem answerOf_exact {out : HashedMap PeerKey (PeerAddress × Option Data)}
    (hsub : ∀ entry ∈ out.entries, entry ∈ peers.peerAddresses.entries)
    (hsize : (out.size : Int) = min (peers.size : Int) size) :
    ((answerOf peers size out).type = .PARTIALLY_OK ↔ size < peers.size) ∧
      ((answerOf peers size out).type = .OK ↔ ∀ entry ∈ peers.peerAddresses.entries, entry ∈ out.entries) := by
  rw [all_mem_iff hsub, answerOf]
  dsimp only
  by_cases hmore : peers.size > out.size
  · simp only [hmore, if_true, reduceCtorEq, not_true, iff_self, and_true, true_iff]
    omega
  · simp only [hmore, if_false, reduceCtorEq, not_false_eq_true, iff_self, and_true, false_iff]
    omega

/-- Peers are cut only when necessary if the draws that count have enough different ones
    among them. -/
theorem limitExact_iff (peers : TrackerPeers) (size : Int) (random : Stream' Nat) :
    LimitExact peers size random ↔ Covers peers size random := by
  constructor
  · rintro ⟨fuel, response, rest, hrespond, hsize, _⟩
    rcases respond_ok_iff.mp hrespond with ⟨hnonneg, out, hloop, rfl⟩
    refine ⟨hnonneg, ?_⟩
    rcases Nat.eq_zero_or_pos peers.size with hzero | hpos
    · exact .inl hzero
    · rcases drawn_of_whileUpTo hpos fuel hnonneg hloop with ⟨k, hlength, hout⟩
      have hdistinct : out.size = ((drawn peers k random).map Prod.fst).dedup.length := by
        rw [hout]
        exact size_ofList _
      exact .inr ⟨k, by omega, hdistinct ▸ hsize⟩
  · rintro ⟨hnonneg, hcovers⟩
    rcases Nat.eq_zero_or_pos peers.size with hzero | hpos
    · -- The loop ends at once.
      have hloop : whileUpTo (limitPass peers size) 1 (0, .empty) random = .ok (some .empty) random :=
        whileUpTo_first _ 0 _ _ _ _ (limitPass_end (.inr hzero))
      have hsub : ∀ entry ∈ (HashedMap.empty : HashedMap PeerKey (PeerAddress × Option Data)).entries,
          entry ∈ peers.peerAddresses.entries := fun entry h => (not_mem_nil h).elim
      have hsize : ((HashedMap.empty : HashedMap PeerKey (PeerAddress × Option Data)).size : Int) =
          min (peers.size : Int) size := by
        have hempty : (HashedMap.empty : HashedMap PeerKey (PeerAddress × Option Data)).size = 0 := rfl
        omega
      exact ⟨1, _, random, respond_ok_iff.mpr ⟨hnonneg, _, hloop, rfl⟩, hsize, hsub, answerOf_exact hsub hsize⟩
    · rcases hcovers.resolve_left (by omega) with ⟨k, hlength, hdistinct⟩
      have hlength' : 0 + ((drawn peers k random).length : Int) = size := by omega
      rcases whileUpTo_of_drawn hpos k .empty random hlength' with ⟨fuel, rest, hloop⟩
      have hsub : ∀ entry ∈ (HashedMap.ofList (drawn peers k random)).entries, entry ∈ peers.peerAddresses.entries :=
        fun entry h => (mem_of_mem_drawn k random (mem_of_mem_ofList _ h)).1
      have hsize : ((HashedMap.ofList (drawn peers k random)).size : Int) = min (peers.size : Int) size := by
        rw [size_ofList]
        exact hdistinct
      exact ⟨fuel, _, rest, respond_ok_iff.mpr ⟨hnonneg, _, hloop, rfl⟩, hsize, hsub, answerOf_exact hsub hsize⟩

/-- If no peer has an attachment then the loop does not end. -/
theorem limit_endless (hpos : 0 < peers.size) (hsize : 0 < size)
    (hnone : ∀ entry ∈ peers.peerAddresses.entries, entry.2.2 = none) (fuel : Nat) (random rest : Stream' Nat)
    (response : TrackerResponse) : TrackerRPC.respond fuel size peers random ≠ .ok (some response) rest := by
  intro hrespond
  rcases respond_ok_iff.mp hrespond with ⟨hnonneg, out, hloop, _⟩
  rcases drawn_of_whileUpTo hpos fuel hnonneg hloop with ⟨k, hlength, _⟩
  have hnil : drawn peers k random = [] := by
    rw [eq_nil_iff_forall_not_mem]
    intro entry hentry
    have hmem := mem_of_mem_drawn k random hentry
    simp [hnone entry hmem.1] at hmem
  rw [hnil, length_nil] at hlength
  omega

/-- Two peers with an attachment. -/
def twoPeers : TrackerPeers :=
  .ofPairs [({ peerId := 1 }, Data.new [] 0), ({ peerId := 2 }, Data.new [] 0)]

/-- The same peer is drawn again and again. One of two peers is sent where 35 would fit,
    and the answer says that there are more. -/
theorem respond_again :
    twoPeers.size = 2 ∧
      (match TrackerRPC.respond 36 TrackerRPC.MAX_MSG_SIZE_UDP twoPeers (Stream'.const 0) with
        | .ok response _ => response
        | .error _ _ => none) = some ⟨.PARTIALLY_OK, .ofPairs [({ peerId := 1 }, Data.new [] 0)]⟩ ∧
      ¬ LimitExact twoPeers TrackerRPC.MAX_MSG_SIZE_UDP (Stream'.const 0) := by
  refine ⟨by decide, by decide +kernel, ?_⟩
  rintro ⟨fuel, response, rest, hrespond, hsize, _⟩
  rcases respond_ok_iff.mp hrespond with ⟨hnonneg, out, hloop, rfl⟩
  rcases drawn_of_whileUpTo (by decide) fuel hnonneg hloop with ⟨k, _, rfl⟩
  -- All that was drawn has the key of the first peer.
  have hkeys (key : PeerKey) (hkey : key ∈ ((drawn twoPeers k (Stream'.const 0)).map Prod.fst).dedup) :
      key = ⟨0, 1⟩ := by
    rcases mem_map.mp (mem_dedup.mp hkey) with ⟨entry, hentry, rfl⟩
    have hchosen := chosen_of_mem_drawn_const k 0 hentry
    have hfirst : (chosen twoPeers 0).map Prod.fst = some ⟨0, 1⟩ := by decide
    rw [hchosen] at hfirst
    exact Option.some.inj hfirst
  have hle : ((drawn twoPeers k (Stream'.const 0)).map Prod.fst).dedup.length ≤ 1 := by
    have hsub : ((drawn twoPeers k (Stream'.const 0)).map Prod.fst).dedup.Subperm [⟨0, 1⟩] :=
      (nodup_dedup _).subperm fun key hkey => mem_singleton.mpr (hkeys key hkey)
    exact hsub.length_le
  have hout := size_ofList (drawn twoPeers k (Stream'.const 0))
  have htwo : min (twoPeers.size : Int) TrackerRPC.MAX_MSG_SIZE_UDP = 2 := by decide
  rw [htwo] at hsize
  change ((HashedMap.ofList (drawn twoPeers k (Stream'.const 0))).size : Int) = 2 at hsize
  omega

end UtilsTracker

end TomP2P
