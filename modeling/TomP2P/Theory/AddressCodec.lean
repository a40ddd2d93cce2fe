import TomP2P.Core.AddressBuilder

/-!
# Which Addresses Arrive

An address is written by what its flags say and read by what the three bytes in
front say. `PeerAddress.Coherent` is when the two agree: every socket that is
there is announced and every announced one is there with its IP, the relays are
counted, at most seven, and their types are those of the sockets, the relays that
are announced take their room, and at most one of the two modes that share a
field is set.

For addresses whose ports fit their fields this is exactly when an address
survives being written and read, and when its two sizes are the number of bytes
(`PeerAddress.roundTrips_iff_coherent`). That array and buffer agree needs no
condition.

The number of relays is written in three bits and taken as a whole by the size of
the address, which is an `int`. An address that counts its relays and knows their
types has the right size (`room_of_counted`). One that does not is of the
right size only where the `int` runs over, from 195225787 relays on
(`Coherent.relaySize_eq`), because every relay takes room.

## Main definitions

* `PeerAddress.Coherent`: The flags say what the address holds.
* `PeerAddress.RoundTrips`: The address is read back and its sizes are right.

## Theorems

* `PeerAddress.Coherent.roundTrips`: Coherent addresses are read back.
* `PeerAddress.RoundTrips.coherent`: Only they are.
* `PeerAddress.roundTrips_iff_coherent`: Both, and the agreement of the forms.
-/

namespace TomP2P

open Wire Reader Effect List

namespace PeerAddress

/-- The ports of all sockets fit their fields. -/
structure PortsOk (a : PeerAddress) : Prop where
  ipv4 : ∀ s, a.ipv4Socket = some s → s.WellFormed
  internal : ∀ s, a.ipInternalSocket = some s → s.WellFormed
  ipv6 : ∀ s, a.ipv6Socket = some s → s.WellFormed
  relays : ∀ s ∈ a.relays, s.WellFormed

/-- The flags of an address say what it holds. -/
structure Coherent (a : PeerAddress) : Prop where
  ipv4 : a.ipv4Flag = a.ipv4Socket.isSome
  internal : a.net4Internal = a.ipInternalSocket.isSome
  ipv6 : a.ipv6Flag = a.ipv6Socket.isSome
  ipv4_ip : ∀ s, a.ipv4Socket = some s → a.skipIPv4 = true ∨ s.ipv4.isSome = true
  internal_ip : ∀ s, a.ipInternalSocket = some s → s.ipv4.isSome = true
  ipv6_ip : ∀ s, a.ipv6Socket = some s → a.skipIPv6 = true ∨ s.ipv6.isSome = true
  relay_ip : ∀ s ∈ a.relays, s.hasIp = true
  relaySize_mod : a.relaySize.toNat % 8 = a.relays.length
  relayTypes : 0 < a.relaySize.toInt → a.relayTypes ≠ none
  families : ∀ i (h : i < a.relays.length), a.relayTypesByte.toNat.testBit i = a.relays[i].isV6
  /-- Half of what an IPv4 relay takes, and of what an IPv6 relay takes more. -/
  room : (5 * a.relaySize.toInt.toNat + 6 * a.relayFamilies.count true) % 2 ^ 31 =
    5 * a.relays.length + 6 * a.relays.countP PeerSocketAddress.isV6
  one_mode : ¬ (a.holePunching = true ∧ a.slow = true)

/-- The same peer, at the same sockets, except for IPs that were skipped. -/
structure Same (a b : PeerAddress) : Prop where
  peerId : b.peerId = a.peerId
  ipv4 : b.ipv4Socket = a.ipv4Socket.map (·.transferred a.skipIPv4)
  internal : b.ipInternalSocket = a.ipInternalSocket
  ipv6 : b.ipv6Socket = a.ipv6Socket.map (·.transferred a.skipIPv6)
  reachable4 : b.reachable4UDP = a.reachable4UDP ∧ b.reachable4TCP = a.reachable4TCP ∧
    b.reachable4UDT = a.reachable4UDT
  reachable6 : b.reachable6UDP = a.reachable6UDP ∧ b.reachable6TCP = a.reachable6TCP ∧
    b.reachable6UDT = a.reachable6UDT
  holePunching : b.holePunching = a.holePunching
  slow : b.slow = a.slow
  unreachable : b.unreachable = a.unreachable
  relays : b.relays = a.relays

/-- The bytes written are read back to the same address, and both sizes are
    their number. -/
def RoundTrips (a : PeerAddress) : Prop :=
  ∃ v, a.encode = .ok v ∧ (∃ b, decode.run () v = .done b () [] ∧ Same a b) ∧
    a.ownSize = .ok (v.length : Int) ∧ size (BitVec.ofNat 32 (ofBE (v.take 3))) = v.length ∧
    a.encodeNew = .ok v

variable {a : PeerAddress}

/-! ### Coherent addresses are read back -/

theorem encodeAll_isOk {A : Type} {enc : A → Except JavaException Bytes} (as : List A)
    (h : ∀ x ∈ as, ∃ v, enc x = .ok v) : ∃ v, encodeAll enc as = .ok v := by
  induction as with
  | nil => exact ⟨[], rfl⟩
  | cons x as ih =>
      obtain ⟨v, hv⟩ := h x mem_cons_self
      obtain ⟨w, hw⟩ := ih fun y hy => h y (mem_cons_of_mem x hy)
      exact ⟨v ++ w, by rw [encodeAll, hv, hw]⟩

theorem encode4_isOk (s : PeerSocket4Address) (skip : Bool) (h : skip = true ∨ s.ipv4.isSome = true) :
    ∃ v, s.encode skip = .ok v := by
  unfold PeerSocket4Address.encode
  cases skip with
  | true => exact ⟨_, rfl⟩
  | false =>
      cases hip : s.ipv4 with
      | some ip => exact ⟨_, rfl⟩
      | none => simp [hip] at h

theorem encode6_isOk (s : PeerSocket6Address) (skip : Bool) (h : skip = true ∨ s.ipv6.isSome = true) :
    ∃ v, s.encode skip = .ok v := by
  unfold PeerSocket6Address.encode
  cases skip with
  | true => exact ⟨_, rfl⟩
  | false =>
      cases hip : s.ipv6 with
      | some ip => exact ⟨_, rfl⟩
      | none => simp [hip] at h

theorem encodeSocket_isOk {A : Type} (enc : A → Except JavaException Bytes) {announced : Bool}
    {s : Option A} (hflag : announced = s.isSome) (h : ∀ x, s = some x → ∃ v, enc x = .ok v) :
    ∃ v, encodeSocket announced enc s = .ok v := by
  subst hflag
  cases s with
  | none => exact ⟨[], rfl⟩
  | some x => exact h x rfl

theorem Coherent.encode_isOk (h : a.Coherent) : ∃ v, a.encode = .ok v := by
  have hrelay (s : PeerSocketAddress) (hs : s ∈ a.relays) : ∃ v, s.encode = .ok v := by
    have hip := h.relay_ip s hs
    cases s with
    | v4 s => exact encode4_isOk s false (.inr hip)
    | v6 s => exact encode6_isOk s false (.inr hip)
  obtain ⟨relays, hrelays⟩ := encodeAll_isOk a.relays hrelay
  obtain ⟨ipv4, h4⟩ := encodeSocket_isOk (·.encode a.skipIPv4) h.ipv4
    fun s hs => encode4_isOk s _ (h.ipv4_ip s hs)
  obtain ⟨internal, hi⟩ := encodeSocket_isOk (·.encode false) h.internal
    fun s hs => encode4_isOk s _ (.inr (h.internal_ip s hs))
  obtain ⟨ipv6, h6⟩ := encodeSocket_isOk (·.encode a.skipIPv6) h.ipv6
    fun s hs => encode6_isOk s _ (h.ipv6_ip s hs)
  refine ⟨writeMedium a.encodeHeader ++ (relays ++ (ipv4 ++ (internal ++ (ipv6 ++ a.peerId.encode)))), ?_⟩
  rw [encode, hrelays, except_ok_bind, h4, except_ok_bind, hi, except_ok_bind, h6,
    except_ok_bind]
  rfl

/-- The types that are written, bit by bit. -/
theorem testBit_transferred (a : PeerAddress) (i : Nat) (hi : i < 7) :
    a.toFlags.transferred.types.testBit i = a.relayTypesByte.toNat.testBit i := by
  have htypes : a.toFlags.transferred.types = a.relayTypesByte.toNat % 2 ^ 7 := rfl
  rw [htypes, Nat.testBit_mod_two_pow, decide_eq_true hi, Bool.true_and]

/-- The number of relays that is written. -/
theorem relaySize_transferred (a : PeerAddress) :
    a.toFlags.transferred.relaySize.toInt.toNat = a.relaySize.toNat % 8 := by
  have hval : (BitVec.ofNat 32 (a.relaySize.toNat % 8)).toInt = (a.relaySize.toNat % 8 : Nat) := by
    rw [BitVec.toInt_eq_toNat_of_lt] <;> rw [BitVec.toNat_ofNat] <;> omega
  change (BitVec.ofNat 32 (a.relaySize.toNat % 8)).toInt.toNat = _
  rw [hval, Int.toNat_natCast]

/-- Two lists of families agree if they have one length and agree bit by bit. -/
theorem families_eq_iff (n t : Nat) (rs : List PeerSocketAddress) :
    (List.range n).map t.testBit = rs.map PeerSocketAddress.isV6 ↔
      n = rs.length ∧ ∀ i (h : i < rs.length), t.testBit i = rs[i].isV6 := by
  refine ⟨?_, ?_⟩
  · intro h
    have hlen := congrArg List.length h
    rw [length_map, length_range, length_map] at hlen
    refine ⟨hlen, ?_⟩
    intro i hi
    have hget := congrArg (fun l => l[i]?) h
    simp only [getElem?_map, getElem?_range (hlen ▸ hi), getElem?_eq_getElem hi,
      Option.map_some, Option.some.injEq] at hget
    exact hget
  · intro h
    refine ext_getElem ?_ ?_
    · rw [length_map, length_range, length_map, h.1]
    · intro i h1 h2
      rw [length_map] at h2
      rw [getElem_map, getElem_range, getElem_map]
      exact h.2 i h2

theorem Coherent.families_transferred (h : a.Coherent) :
    a.toFlags.transferred.relayFamilies = a.relays.map PeerSocketAddress.isV6 := by
  have hlt : a.relays.length < 8 := by
    rw [← h.relaySize_mod]
    exact Nat.mod_lt _ (by omega)
  refine (families_eq_iff _ _ _).mpr ⟨(relaySize_transferred a).trans h.relaySize_mod, ?_⟩
  intro i hi
  rw [testBit_transferred a i (by omega)]
  exact h.families i hi

theorem Coherent.wellFormed (h : a.Coherent) (hp : a.PortsOk) : a.WellFormed where
  ipv4 := h.ipv4
  internal := h.internal
  ipv6 := h.ipv6
  families := h.families_transferred
  ipv4_ports := hp.ipv4
  internal_ports := hp.internal
  ipv6_ports := hp.ipv6
  relay_ports := hp.relays

/-- Not both modes: each arrives as it is. -/
theorem modes_eq (hole slow : Bool) :
    ((hole && !slow) = hole ∧ (slow && !hole) = slow) ↔ ¬ (hole = true ∧ slow = true) := by
  cases hole <;> cases slow <;> simp

theorem Coherent.same (h : a.Coherent) : Same a a.transferred where
  peerId := rfl
  ipv4 := rfl
  internal := rfl
  ipv6 := rfl
  reachable4 := ⟨rfl, rfl, rfl⟩
  reachable6 := ⟨rfl, rfl, rfl⟩
  holePunching := ((modes_eq a.holePunching a.slow).mpr h.one_mode).1
  slow := ((modes_eq a.holePunching a.slow).mpr h.one_mode).2
  unreachable := rfl
  relays := rfl

/-- What relays of these families take. -/
theorem sum_socketSize (families : List Bool) :
    (families.map Flags.socketSize).sum = 10 * families.length + 12 * families.count true := by
  induction families with
  | nil => rfl
  | cons v6 families ih =>
      have h4 : Flags.socketSize false = 10 := rfl
      have h6 : Flags.socketSize true = 22 := rfl
      rw [map_cons, sum_cons, ih, length_cons]
      cases v6 with
      | true =>
          rw [count_cons_self, h6]
          omega
      | false =>
          rw [count_cons_of_ne Bool.false_ne_true, h4]
          omega

theorem length_relayFamilies (f : Flags) : f.relayFamilies.length = f.relaySize.toInt.toNat := by
  rw [Flags.relayFamilies, length_map, length_range]

theorem count_isV6 (relays : List PeerSocketAddress) :
    (relays.map PeerSocketAddress.isV6).count true = relays.countP PeerSocketAddress.isV6 := by
  rw [count_eq_countP, countP_map]
  refine countP_congr ?_
  intro s _
  rw [Function.comp_apply, beq_true]

/-- The size, an `int`, is that of the address exactly if the relays that are announced
    take the room of those that are there. -/
theorem int_size_eq_iff (a : PeerAddress) (hn : a.relays.length < 8) :
    int a.toFlags.size = (a.toFlags.sizeWith (a.relays.map PeerSocketAddress.isV6) : Nat) ↔
      (5 * a.relaySize.toInt.toNat + 6 * a.relayFamilies.count true) % 2 ^ 31 =
        5 * a.relays.length + 6 * a.relays.countP PeerSocketAddress.isV6 := by
  have hk : a.relays.countP PeerSocketAddress.isV6 ≤ a.relays.length := countP_le_length
  have hrest : ∃ rest < 100, ∀ families, a.toFlags.sizeWith families =
      rest + (10 * families.length + 12 * families.count true) := by
    refine ⟨a.toFlags.sizeWith [], ?_, ?_⟩
    · unfold Flags.sizeWith
      split_ifs <;> decide
    · intro families
      have hnone : ([].map Flags.socketSize).sum = 0 := rfl
      rw [Flags.sizeWith, Flags.sizeWith, hnone, sum_socketSize]
      omega
  obtain ⟨rest, hlt, hrest⟩ := hrest
  rw [Flags.size, hrest, hrest, length_relayFamilies, length_map, count_isV6, int, Int.bmod_eq_emod]
  split <;> omega

theorem Coherent.ownSize_eq (h : a.Coherent) {v : Bytes} (hv : a.encode = .ok v) :
    a.ownSize = .ok (v.length : Int) := by
  have hnot : ¬ (a.relayTypes = none ∧ 0 < a.relaySize.toInt) := fun hboth => h.relayTypes hboth.2 hboth.1
  have hlt : a.relays.length < 8 := by
    rw [← h.relaySize_mod]
    exact Nat.mod_lt _ (by omega)
  rw [ownSize, if_neg hnot, a.length_encode v hv, (int_size_eq_iff a hlt).mpr h.room]

/-- The three bytes in front are the header. -/
theorem header_encode {v : Bytes} (hv : a.encode = .ok v) :
    BitVec.ofNat 32 (ofBE (v.take 3)) = a.encodeHeader := by
  obtain ⟨relays, ipv4, internal, ipv6, _, _, _, _, rfl⟩ := encode_eq_ok hv
  have hlen : (writeMedium a.encodeHeader).length = 3 := length_toBE 3 _
  rw [take_left' hlen, writeMedium, ofBE_toBE_of_lt 3 _ a.encodeHeader_lt, BitVec.ofNat_toNat,
    BitVec.setWidth_eq]

/-- A new array of the right size is filled. -/
theorem encodeNew_eq {v : Bytes} (hv : a.encode = .ok v) (hsize : a.ownSize = .ok (v.length : Int)) :
    a.encodeNew = .ok v := by
  have hstores := a.storesAs_encodeArray
  rw [hv] at hstores
  have hfits := hstores.fits (List.replicate v.length 0) 0 (by simp)
  have hall : splice (List.replicate v.length 0) 0 v = v := by
    simp [splice]
  have hnonneg : ¬ (v.length : Int) < 0 := by omega
  simp only [encodeNew, hsize, except_ok_bind, if_neg hnonneg, Int.toNat_natCast]
  change (a.encodeArray (List.replicate v.length 0) 0 >>= fun x => .ok x.1) = _
  rw [hfits, except_ok_bind, hall]

theorem Coherent.roundTrips (h : a.Coherent) (hp : a.PortsOk) : a.RoundTrips := by
  obtain ⟨v, hv⟩ := h.encode_isOk
  have hwf := h.wellFormed hp
  have hparse := parses_decode (σ := Unit) a v hwf hv () []
  rw [append_nil] at hparse
  have hown := h.ownSize_eq hv
  refine ⟨v, hv, ⟨a.transferred, hparse, h.same⟩, hown, ?_, encodeNew_eq hv hown⟩
  rw [header_encode hv, a.length_encode_eq_size v hwf hv]

/-! ### Only coherent addresses are read back -/

theorem gives_decode (v6 : Bool) :
    Gives (PeerSocketAddress.decode (σ := Unit) v6) fun s => s.isV6 = v6 := by
  cases v6 with
  | true | false => exact Gives.map fun _ => rfl

theorem gives_decodeSocket {A : Type} (announced : Bool) (p : Reader JavaException Unit A) :
    Gives (decodeSocket announced p) fun s => s.isSome = announced := by
  cases announced with
  | true => exact Gives.map fun _ => rfl
  | false => exact Gives.pure rfl

/-- What is read has the flags of its header, the sockets they announce and
    relays of the families they announce. -/
theorem decode_done {v r : Bytes} {b : PeerAddress} (h : decode.run () v = .done b () r) :
    b.toFlags = Flags.decodeHeader (BitVec.ofNat 32 (ofBE (v.take 3))) ∧
      b.ipv4Socket.isSome = b.ipv4Flag ∧ b.ipInternalSocket.isSome = b.net4Internal ∧
      b.ipv6Socket.isSome = b.ipv6Flag ∧
      b.relays.map PeerSocketAddress.isV6 = b.relayFamilies := by
  unfold decode at h
  obtain ⟨header, _, r₁, hheader, h⟩ := run_bind_done h
  have hval : header = BitVec.ofNat 32 (ofBE (v.take 3)) := by
    obtain ⟨bytes, _, r₂, hread, hret⟩ := run_bind_done hheader
    cases hret
    rw [run_read] at hread
    split at hread
    · cases hread
    · cases hread
      rfl
  unfold decodeAfter at h
  obtain ⟨relays, _, r₂, hrelays, h⟩ := run_bind_done h
  obtain ⟨ipv4, _, r₃, h4, h⟩ := run_bind_done h
  obtain ⟨internal, _, r₄, hi, h⟩ := run_bind_done h
  obtain ⟨ipv6, _, r₅, h6, h⟩ := run_bind_done h
  obtain ⟨peerId, _, r₆, _, h⟩ := run_bind_done h
  cases h
  exact ⟨congrArg Flags.decodeHeader hval, gives_decodeSocket _ _ _ _ _ _ _ h4,
    gives_decodeSocket _ _ _ _ _ _ _ hi, gives_decodeSocket _ _ _ _ _ _ _ h6,
    Gives.each PeerSocketAddress.isV6 gives_decode _ _ _ _ _ _ hrelays⟩

theorem ip_of_encode4 {s : PeerSocket4Address} {skip : Bool} {v : Bytes} (h : s.encode skip = .ok v) :
    skip = true ∨ s.ipv4.isSome = true := by
  unfold PeerSocket4Address.encode at h
  cases skip with
  | true => exact .inl rfl
  | false =>
      cases hip : s.ipv4 with
      | some ip => exact .inr rfl
      | none =>
          rw [hip] at h
          cases h

theorem ip_of_encode6 {s : PeerSocket6Address} {skip : Bool} {v : Bytes} (h : s.encode skip = .ok v) :
    skip = true ∨ s.ipv6.isSome = true := by
  unfold PeerSocket6Address.encode at h
  cases skip with
  | true => exact .inl rfl
  | false =>
      cases hip : s.ipv6 with
      | some ip => exact .inr rfl
      | none =>
          rw [hip] at h
          cases h

theorem ok_of_encodeSocket {A : Type} {enc : A → Except JavaException Bytes} {announced : Bool}
    {s : Option A} {v : Bytes} (h : encodeSocket announced enc s = .ok v) (hflag : announced = s.isSome)
    (x : A) (hx : s = some x) : ∃ w, enc x = .ok w := by
  rw [hx] at h hflag
  rw [hflag] at h
  exact ⟨v, h⟩

theorem ok_of_encodeAll {A : Type} {enc : A → Except JavaException Bytes} {as : List A} {v : Bytes}
    (h : encodeAll enc as = .ok v) (x : A) (hx : x ∈ as) : ∃ w, enc x = .ok w := by
  induction as generalizing v with
  | nil => cases hx
  | cons a as ih =>
      obtain ⟨w, u, hw, hu, _⟩ := encodeAll_cons h
      rcases mem_cons.mp hx with rfl | hx
      · exact ⟨w, hw⟩
      · exact ih hu hx

theorem room_of_ownSize {v : Bytes} (hv : a.encode = .ok v) (hn : a.relays.length < 8)
    (hown : a.ownSize = .ok (v.length : Int)) :
    ¬ (a.relayTypes = none ∧ 0 < a.relaySize.toInt) ∧
      (5 * a.relaySize.toInt.toNat + 6 * a.relayFamilies.count true) % 2 ^ 31 =
        5 * a.relays.length + 6 * a.relays.countP PeerSocketAddress.isV6 := by
  unfold ownSize at hown
  split at hown
  · cases hown
  · next hnot =>
      have hlen := Except.ok.inj hown
      rw [a.length_encode v hv] at hlen
      exact ⟨hnot, (int_size_eq_iff a hn).mp hlen⟩

theorem RoundTrips.coherent (h : a.RoundTrips) : a.Coherent := by
  obtain ⟨v, hv, ⟨b, hb, hsame⟩, hown, _, _⟩ := h
  obtain ⟨_, _, _, _, hrelays, h4, hi, h6, _⟩ := encode_eq_ok hv
  obtain ⟨hflags, hb4, hbi, hb6, hfam⟩ := decode_done hb
  rw [header_encode hv, Flags.decodeHeader_encodeHeader] at hflags
  -- each flag arrives, and the socket that arrives is the one that was there
  have hipv4 : a.ipv4Flag = a.ipv4Socket.isSome := by
    rw [hsame.ipv4, Option.isSome_map, hflags] at hb4
    exact hb4.symm
  have hinternal : a.net4Internal = a.ipInternalSocket.isSome := by
    rw [hsame.internal, hflags] at hbi
    exact hbi.symm
  have hipv6 : a.ipv6Flag = a.ipv6Socket.isSome := by
    rw [hsame.ipv6, Option.isSome_map, hflags] at hb6
    exact hb6.symm
  rw [hsame.relays, hflags] at hfam
  obtain ⟨hcount, hbits⟩ := (families_eq_iff _ _ _).mp hfam.symm
  rw [relaySize_transferred] at hcount
  have hlt : a.relays.length < 8 := by
    rw [← hcount]
    exact Nat.mod_lt _ (by omega)
  obtain ⟨hnot, hroom⟩ := room_of_ownSize hv hlt hown
  exact {
    ipv4 := hipv4
    internal := hinternal
    ipv6 := hipv6
    ipv4_ip := by
      intro s hs
      obtain ⟨w, hw⟩ := ok_of_encodeSocket h4 hipv4 s hs
      exact ip_of_encode4 hw
    internal_ip := by
      intro s hs
      obtain ⟨w, hw⟩ := ok_of_encodeSocket hi hinternal s hs
      exact (ip_of_encode4 hw).resolve_left Bool.false_ne_true
    ipv6_ip := by
      intro s hs
      obtain ⟨w, hw⟩ := ok_of_encodeSocket h6 hipv6 s hs
      exact ip_of_encode6 hw
    relay_ip := by
      intro s hs
      obtain ⟨w, hw⟩ := ok_of_encodeAll hrelays s hs
      cases s with
      | v4 s => exact (ip_of_encode4 hw).resolve_left Bool.false_ne_true
      | v6 s => exact (ip_of_encode6 hw).resolve_left Bool.false_ne_true
    relaySize_mod := hcount
    relayTypes := fun hpos hnone => hnot ⟨hnone, hpos⟩
    families := by
      intro i hi
      rw [← testBit_transferred a i (by omega)]
      exact hbits i hi
    room := hroom
    one_mode := by
      refine (modes_eq a.holePunching a.slow).mp ⟨?_, ?_⟩
      · have hhole := hsame.holePunching
        rw [hflags] at hhole
        exact hhole
      · have hslow := hsame.slow
        rw [hflags] at hslow
        exact hslow }

/-! ### What room the relays take -/

/-- Relays that are counted, of the types that are announced, take their room. -/
theorem room_of_counted (hcount : a.relaySize.toInt.toNat = a.relays.length)
    (hlt : a.relays.length < 8)
    (htypes : ∀ i (h : i < a.relays.length), a.types.testBit i = a.relays[i].isV6) :
    (5 * a.relaySize.toInt.toNat + 6 * a.relayFamilies.count true) % 2 ^ 31 =
      5 * a.relays.length + 6 * a.relays.countP PeerSocketAddress.isV6 := by
  have hfamilies : a.relayFamilies = a.relays.map PeerSocketAddress.isV6 :=
    (families_eq_iff _ _ _).mpr ⟨hcount, htypes⟩
  have hk : a.relays.countP PeerSocketAddress.isV6 ≤ a.relays.length := List.countP_le_length
  rw [hcount, hfamilies, count_isV6]
  omega

/-- The number of relays as a whole is none, or at least what three bits of it
    say. -/
theorem relaySize_mod_le (x : BitVec 32) : x.toInt.toNat = 0 ∨ x.toNat % 8 ≤ x.toInt.toNat := by
  rw [BitVec.toInt_eq_toNat_cond]
  split
  · right
    rw [Int.toNat_natCast]
    exact Nat.mod_le _ _
  · left
    have hlt := x.isLt
    omega

/-- Unless the size runs over, the relays are counted. -/
theorem Coherent.relaySize_eq (h : a.Coherent) (hsmall : a.relaySize.toInt < 195225787) :
    a.relaySize.toInt.toNat = a.relays.length := by
  have hroom := h.room
  have hcount : a.relayFamilies.count true ≤ a.relaySize.toInt.toNat := by
    rw [← length_relayFamilies]
    exact List.count_le_length
  have hn := h.relaySize_mod
  have hle := relaySize_mod_le a.relaySize
  -- of the relays that are there, those that are IPv6 are announced as such
  have hv6 : a.relays.length ≤ a.relaySize.toInt.toNat →
      a.relays.countP PeerSocketAddress.isV6 ≤ a.relayFamilies.count true := by
    intro hlen
    have hwritten : (List.range a.relays.length).map a.relayTypesByte.toNat.testBit =
        a.relays.map PeerSocketAddress.isV6 := (families_eq_iff _ _ _).mpr ⟨rfl, h.families⟩
    rw [← count_isV6, ← hwritten]
    by_cases hfit : a.types < 2 ^ 8
    · have htypes : a.relayTypesByte.toNat = a.types := by
        rw [Flags.relayTypesByte, if_pos hfit, BitVec.toNat_ofNat, Nat.mod_eq_of_lt hfit]
      rw [htypes]
      exact ((List.range_sublist.mpr hlen).map _).count_le true
    · -- types that do not fit their byte are written as IPv4
      have htypes : a.relayTypesByte.toNat = 0 := by
        rw [Flags.relayTypesByte, if_neg hfit]
        rfl
      have hnone : (List.range a.relays.length).map (Nat.testBit 0) =
          (List.range a.relays.length).map fun _ => false :=
        List.map_congr_left fun i _ => Nat.zero_testBit i
      rw [htypes, hnone, List.map_const', List.count_replicate]
      exact Nat.zero_le _
  omega

/-- An address survives being written and read, with the right sizes, exactly if
    its flags say what it holds. Arrays and buffers hold and take the same bytes
    in any case. -/
theorem roundTrips_iff_coherent (a : PeerAddress) (hp : a.PortsOk) :
    (a.RoundTrips ↔ a.Coherent) ∧ StoresAs a.encodeArray a.encode ∧
      ReadsAt decodeArray (decode (σ := Unit)) :=
  ⟨⟨RoundTrips.coherent, fun h => h.roundTrips hp⟩, a.storesAs_encodeArray, readsAt_decodeArray⟩

/-- A peer at an IPv4 socket, without relays. -/
def reachedDirectly : PeerAddress :=
  { peerId := 5, ipv4Flag := true, ipv4Socket := some ⟨some 0x7f000001, 4000, 4000, 4001⟩ }

/-- The same peer with `n` IPv4 relays. -/
def relayedBy (n : Nat) : PeerAddress :=
  With.apply reachedDirectly (.relays (List.replicate n (.v4 ⟨some 0x7f000002, 5000, 5000, 5001⟩)))

theorem portsOk_relayedBy (n : Nat) : (relayedBy n).PortsOk where
  ipv4 s hs := by
    cases hs
    decide
  internal s hs := by cases hs
  ipv6 s hs := by cases hs
  relays s hs := by
    have heq : s = _ := eq_of_mem_replicate hs
    subst heq
    exact (by decide : PortsFit 5000 5000 5001)

theorem coherent_relayedBy_seven : (relayedBy 7).Coherent where
  ipv4 := rfl
  internal := rfl
  ipv6 := rfl
  ipv4_ip s hs := by
    cases hs
    exact .inr rfl
  internal_ip s hs := by cases hs
  ipv6_ip s hs := by cases hs
  relay_ip := by decide
  relaySize_mod := by decide
  relayTypes _ := by decide
  families := by decide
  room := by decide
  one_mode := by decide

theorem roundTrips_relayedBy_seven : (relayedBy 7).PortsOk ∧ (relayedBy 7).RoundTrips :=
  ⟨portsOk_relayedBy 7,
    ((roundTrips_iff_coherent (relayedBy 7) (portsOk_relayedBy 7)).1).mpr coherent_relayedBy_seven⟩

/-- Eight relays are counted as none. -/
theorem not_roundTrips_relayedBy_eight :
    create 5 (.v4 ⟨some 0x7f000001, 4000, 4000, 4001⟩) = .ok reachedDirectly ∧
      (relayedBy 8).PortsOk ∧ ¬ (relayedBy 8).RoundTrips := by
  refine ⟨by decide, portsOk_relayedBy 8, ?_⟩
  intro h
  have hcount := h.coherent.relaySize_mod
  revert hcount
  decide

end PeerAddress

end TomP2P
