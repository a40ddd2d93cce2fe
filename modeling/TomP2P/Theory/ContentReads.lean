import TomP2P.Foundation.ReaderCuts
import TomP2P.Theory.AddressCodec
import TomP2P.Theory.ContentWaits

/-!
# Reading Back Contents

What the decoder makes of the contents of a message, wherever their bytes are cut.

The number of elements is recorded before the elements are, and each element with the
collection. From each of these states the decoder goes on as if it had got there in one call,
and so it reads the whole content in any number of calls. Maps of values are in
`Theory.DataMapReads`.

## Theorems

* `reads_piece`: Contents of one piece.
* `passes_sized`: The number of elements.
* `Collector.reads_decode`: Collections.
* `KeyMap640Keys.reads_decode`, `Buffer.reads_decode`: Maps of collections and buffers.
-/

namespace TomP2P

open Wire Reader Outcome List

/-! ### Pieces -/

section Pieces

variable {σ α : Type} {p : Reader JavaException σ α} {v : Bytes} {a : α} {n : Nat}

theorem idle_piece (hlen : v.length = n) (s : σ) : Idle (need n >>= fun _ => p) s v :=
  Looks.idle _ s (Looks.need (Nat.le_of_eq hlen.symm)) (Nat.le_of_eq hlen)

theorem takes_piece (hp : Parses p v a) (hlen : v.length = n) (s : σ) : Takes (need n >>= fun _ => p) s v a s := by
  intro rest
  rw [run_bind, run_need_of_le _ _ _ (by rw [length_append]; omega), andThen_done, hp]

/-- What is asked for as a whole is read in one piece. -/
theorem reads_piece (hp : Parses p v a) (hlen : v.length = n) (s : σ) :
    Reads (fun _ => True) (need n >>= fun _ => p) s v a s :=
  Reads.ofIdle (takes_piece hp hlen s) (idle_piece hlen s)

end Pieces

/-! ### The number of elements -/

section Sized

variable {σ α : Type} {size : σ → BitVec 32} {set : BitVec 32 → σ → σ} {width : Nat}
  {collect : Reader JavaException σ α} {s : σ} {n : BitVec 32}

theorem run_sized (h : size s ≠ -1#32) (b : Bytes) : (sized size set width collect).run s b = collect.run s b := by
  rw [sized, run_bind, run_state, andThen_done, if_neg h]

/-- The number is recorded as soon as it is read. -/
theorem passes_sized (hs : size s = -1#32) (hset : size (set n s) ≠ -1#32) (hn : n.toNat < 256 ^ width) :
    Passes (sized size set width collect) s (toBE width n.toNat) (set n s) := by
  have hrun (b : Bytes) : (sized size set width collect).run s b = (need width >>= fun _ =>
      field .indexOutOfBounds width 32 >>= fun n => modify (set n) >>= fun _ => collect).run s b := by
    rw [sized, run_bind, run_state, andThen_done, if_pos hs]
  have hlen : (toBE width n.toNat).length = width := length_toBE width n.toNat
  refine ⟨?_, ?_⟩
  · intro r
    rw [run_sized hset, hrun, run_bind, run_need_of_le _ _ _ (by rw [length_append]; omega),
      andThen_done, run_bind, Parses.field _ n hn, andThen_done, run_bind, run_modify,
      andThen_done]
  · intro b c hc hv
    refine ⟨s, b, ?_, fun _ _ => rfl⟩
    rw [hrun, idle_piece hlen s b c hc hv]

theorem ne_neg_one {n : BitVec 32} {k : Nat} (h : n.toInt = k) : n ≠ -1#32 := by
  rintro rfl
  have hneg : (-1#32 : BitVec 32).toInt = -1 := by decide
  omega

theorem toInt_ofNat {k : Nat} (h : k < 2 ^ 31) : (BitVec.ofNat 32 k).toInt = k := by
  rw [BitVec.toInt_eq_toNat_of_lt] <;> rw [BitVec.toNat_ofNat] <;> omega

end Sized

/-! ### Collections -/

namespace Collector

variable {C E : Type} {K : Collector C E} {n : BitVec 32}

/-- The rest of the elements, and the end of the collection. -/
def finished (c : C) : Unit → Collecting C → Bytes → Outcome JavaException (Collecting C) C :=
  fun _ s r => .done (s.collection.getD c) {} r

/-- Once a collection is begun the decoder reads the elements that it lacks. What it would give
    without a collection makes no difference. -/
theorem run_decode_begun (hK : K.Steady) (hn : n ≠ -1#32) (c c' : C) (b : Bytes) :
    K.decode.run ⟨n, some c⟩ b =
      ((repeat_ K.decodeNext (n.toInt - K.count c).toNat).run ⟨n, some c⟩ b).andThen (finished c') := by
  have hrun : K.decode.run ⟨n, some c⟩ b =
      ((repeat_ K.decodeNext (n.toInt - K.count c).toNat).run ⟨n, some c⟩ b).andThen (finished c) := by
    rw [decode_eq, run_sized hn]
    rfl
  have hkeeps : Keeps (fun s : Collecting C => s.collection.isSome = true) K.decodeNext :=
    (hK.keeps _).bind fun e => Keeps.modify fun s hs => by rw [Option.isSome_map]; exact hs
  have hsome := hkeeps.repeat_ (n.toInt - K.count c).toNat ⟨n, some c⟩ b rfl
  rw [hrun]
  cases hrepeat : (repeat_ K.decodeNext (n.toInt - K.count c).toNat).run ⟨n, some c⟩ b with
  | done u s r =>
      rw [hrepeat] at hsome
      change s.collection.isSome = true at hsome
      rcases Option.isSome_iff_exists.mp hsome with ⟨c₁, hc₁⟩
      simp only [andThen_done, finished, hc₁, Option.getD_some]
  | wait s r => rfl
  | fail e s r => rfl

/-- An element is added to the collection, and is one less to come. -/
theorem passes_element (hK : K.Steady) (hn : n ≠ -1#32) (c' : C) {c : C} {e : E} {v : Bytes} {k : Nat}
    (hleft : n.toInt = K.count c + (k + 1 : Nat)) (hadd : K.count (K.add c e) = K.count c + 1)
    (hparse : Parses K.element v e) (hidle : ∀ s, Idle K.element s v) :
    Passes K.decode ⟨n, some c⟩ v ⟨n, some (K.add c e)⟩ := by
  refine Passes.loop (q := K.decodeNext) (n := k) (k := finished c') ?_ ?_ ?_ ((hidle _).bind _)
  · intro b
    rw [run_decode_begun hK hn c c', show (n.toInt - K.count c).toNat = k + 1 by omega]
  · intro b
    rw [run_decode_begun hK hn _ c', show (n.toInt - K.count (K.add c e)).toNat = k by omega]
  · exact (hparse.takes _).thenModify fun e s => { s with collection := s.collection.map fun c => K.add c e }

/-- A collection whose elements are read one by one is read wherever it is cut. `I` is what the
    collection and the elements that are still to come have to meet, so that each of them is
    counted. -/
theorem reads_decode (hK : K.Steady) {I : C → List E → Prop}
    (hI : ∀ c e es, I c (e :: es) → K.count (K.add c e) = K.count c + 1 ∧ I (K.add c e) es)
    {es : List E} {vs : List Bytes} {c : C} (hn : n.toInt = es.length) (hwidth : n.toNat < 256 ^ K.width)
    (hcreate : K.create n = .ok c) (hcount : K.count c = 0) (hc : I c es)
    (h : List.Forall₂ (fun e v => Parses K.element v e ∧ ∀ s, Idle K.element s v) es vs) :
    Reads (fun _ => True) K.decode {} (toBE K.width n.toNat ++ vs.flatten) (es.foldl K.add c) {} := by
  have hne := ne_neg_one hn
  have hsize : Passes K.decode {} (toBE K.width n.toNat) ⟨n, none⟩ := by
    rw [decode_eq]
    exact passes_sized (s := ({} : Collecting C)) rfl hne hwidth
  have hbegin : Passes K.decode ⟨n, none⟩ [] ⟨n, some c⟩ := by
    refine Passes.same fun r => ?_
    have hbegun : K.begun ⟨n, none⟩ = .ok c := hcreate
    rw [decode_eq, run_sized (by exact hne), run_sized (by exact hne)]
    simp only [collect, run_bind, run_state, andThen_done, hbegun, run_lift_ok, run_modify]
    rfl
  have helements := Passes.each (p := K.decode)
    (fun s e => { s with collection := s.collection.map fun c => K.add c e })
    (P := fun s es => ∃ c, s = ⟨n, some c⟩ ∧ I c es ∧ n.toInt = K.count c + es.length) (by
      rintro s e es v ⟨c₁, rfl, hc₁, hleft⟩ ⟨hparse, hidle⟩
      have hadd := hI c₁ e es hc₁
      rw [length_cons] at hleft
      exact ⟨passes_element hK hne c hleft hadd.1 hparse hidle, K.add c₁ e, rfl, hadd.2, by omega⟩)
    h ⟨c, rfl, hc, by omega⟩
  have hfold : es.foldl (fun (s : Collecting C) e => { s with collection := s.collection.map fun c => K.add c e })
      ⟨n, some c⟩ = ⟨n, some (es.foldl K.add c)⟩ := by
    clear helements hbegin hsize hcreate hcount hc h hn hwidth
    induction es generalizing c with
    | nil => rfl
    | cons e es ih => exact ih
  rcases helements with ⟨hpass, c₁, hlast, _, hleft⟩
  rw [hfold] at hpass hlast
  rw [Collecting.mk.injEq] at hlast
  have hall := (hsize.trans hbegin).trans hpass
  rw [append_nil] at hall
  refine hall.ends fun rest => ?_
  have hdone : (n.toInt - K.count (es.foldl K.add c)).toNat = 0 := by
    rw [Option.some.inj hlast.2, hleft]
    simp
  rw [run_decode_begun hK hne _ c, hdone]
  rfl

end Collector

/-! ### The collections -/

namespace NeighborSet

/-- An address is waited for once its header is there. -/
theorem element_address {a : PeerAddress} {v : Bytes} (hwf : a.WellFormed) (hv : a.encode = .ok v) :
    Parses collector.element v a.transferred ∧ ∀ s, Idle collector.element s v := by
  have hsize : v.length = PeerAddress.size a.encodeHeader := a.length_encode_eq_size v hwf hv
  have hparse := PeerAddress.parses_decode (σ := Collecting NeighborSet) a v hwf hv
  rcases PeerAddress.encode_eq_ok hv with ⟨relays, ipv4, internal, ipv6, _, _, _, _, hsplit⟩
  have hheader : (PeerAddress.HEADER_SIZE : Nat) ≤ v.length := by
    rw [hsplit, length_append, writeMedium, length_toBE, PeerAddress.HEADER_SIZE]
    omega
  have hlook := Looks.lookField (ε := JavaException) (σ := Collecting NeighborSet) (n := 3) []
    (relays ++ (ipv4 ++ (internal ++ (ipv6 ++ a.peerId.encode)))) a.encodeHeader a.encodeHeader_lt
  rw [nil_append, ← writeMedium, ← hsplit] at hlook
  refine ⟨?_, fun s => ?_⟩
  · exact (Looks.need hheader).parses (hlook.parses ((Looks.need (Nat.le_of_eq hsize.symm)).parses hparse))
  · exact (Looks.need hheader).idleBind (hlook.idleBind (idle_piece hsize s))

/-- The number of neighbors is one byte, and the limit stays behind. -/
theorem reads_decode {s : NeighborSet} {v : Bytes} (hlen : s.neighbors.length < 256)
    (hwf : ∀ a ∈ s.neighbors, a.WellFormed) (hv : s.encode = .ok v) :
    Reads (fun _ => True) decode {} v ⟨-1, s.neighbors.map PeerAddress.transferred⟩ {} := by
  rcases Effect.except_bind_ok hv with ⟨w, hw, hv⟩
  cases hv
  rcases encodeAll_parts hw with ⟨vs, rfl, hvs⟩
  have hint : (BitVec.ofNat 32 s.neighbors.length).toInt = s.neighbors.length := toInt_ofNat (by omega)
  have hnat : (BitVec.ofNat 32 s.neighbors.length).toNat = s.neighbors.length := by
    rw [BitVec.toNat_ofNat]
    omega
  have helements : List.Forall₂ (fun a v => Parses collector.element v a ∧ ∀ s, Idle collector.element s v)
      (s.neighbors.map PeerAddress.transferred) vs := by
    rw [List.forall₂_map_left_iff]
    exact ((List.forall₂_and_left _ _).mpr ⟨hwf, hvs⟩).imp fun a v h => element_address h.1 h.2
  have hfold (as : List PeerAddress) (t : NeighborSet) : as.foldl collector.add t = ⟨t.neighborLimit, t.neighbors ++ as⟩ := by
    induction as generalizing t with
    | nil => rw [foldl_nil, append_nil]
    | cons a as ih =>
        rw [foldl_cons, ih]
        simp [collector, add]
  have hreads := Collector.reads_decode steady (I := fun _ _ => True) (n := BitVec.ofNat 32 s.neighbors.length)
    (fun t a as _ => ⟨by simp [collector, size, add], trivial⟩) (by rw [hint, length_map])
    (by rw [hnat]; exact hlen) (c := ⟨-1, []⟩) rfl rfl trivial helements
  rw [hfold] at hreads
  exact hreads

end NeighborSet

namespace KeyCollection

/-- Keys are read one by one, whether they were complete or not. -/
theorem reads_decode {c : KeyCollection} (hlen : c.keys.length < 2 ^ 31) :
    Reads (fun _ => True) decode {} c.encode (.ofKeys c.keys) {} := by
  have hint := toInt_ofNat hlen
  have hsize : c.size = c.keys.length := by
    cases c with
    | ofKeys keys => rfl
    | ofConvert l d v keysConvert => exact (length_map _).symm
  have hparts := flatMap_parts Number640.encode c.keys
  have helements : List.Forall₂ (fun k v => Parses collector.element v k ∧ ∀ s, Idle collector.element s v)
      c.keys (c.keys.map Number640.encode) := by
    refine hparts.2.imp fun k v hv => ?_
    have hlen : v.length = KeyMap640Keys.META := by
      rw [← hv, Number640.length_encode]
      rfl
    refine ⟨fun s rest => ?_, fun s => idle_piece hlen s⟩
    rw [← hv] at hlen ⊢
    exact takes_piece (Number640.parses_decode k) hlen s rest
  have hfold (keys keys' : List Number640) : keys'.foldl collector.add (.ofKeys keys) = .ofKeys (keys ++ keys') := by
    induction keys' generalizing keys with
    | nil => rw [foldl_nil, append_nil]
    | cons k keys' ih => exact (ih (keys ++ [k])).trans (by rw [append_assoc, singleton_append])
  have hcreate : newArrayList (BitVec.ofNat 32 c.keys.length) = .ok (.ofKeys []) := if_neg (by omega)
  have hreads := Collector.reads_decode steady (I := fun t _ => ∃ keys, t = .ofKeys keys)
    (n := BitVec.ofNat 32 c.keys.length)
    (by
      rintro _ k ks ⟨keys, rfl⟩
      exact ⟨length_append, keys ++ [k], rfl⟩)
    hint (BitVec.isLt _) hcreate rfl ⟨[], rfl⟩ helements
  rw [hfold, nil_append, ← hparts.1, ← hsize] at hreads
  exact hreads

end KeyCollection

namespace KeyMapByte

theorem reads_decode {m : KeyMapByte} (hlen : m.size < 2 ^ 30) : Reads (fun _ => True) decode {} m.encode m {} := by
  have hint : (BitVec.ofNat 32 m.size).toInt = m.keysMap.entries.length := toInt_ofNat (by omega)
  have hparts := flatMap_parts encodeEntry m.keysMap.entries
  have helements : List.Forall₂ (fun e v => Parses collector.element v e ∧ ∀ s, Idle collector.element s v)
      m.keysMap.entries (m.keysMap.entries.map encodeEntry) := by
    refine hparts.2.imp fun e v hv => ?_
    have hlen : v.length = KeyMap640Keys.META + 1 := by
      rw [← hv, encodeEntry, length_append, Number640.length_encode, length_toBE]
      rfl
    have hvalue : Parses (KeyMap640Keys.readByte (σ := Collecting KeyMapByte)) (toBE 1 e.2.toNat) e.2 :=
      Parses.field _ e.2 e.2.isLt
    have hentry := (Number640.parses_decode (σ := Collecting KeyMapByte) e.1).bind
      (k := fun key => KeyMap640Keys.readByte >>= fun value => Pure.pure (key, value))
      (hvalue.ret fun value => (e.1, value))
    rw [← encodeEntry, hv] at hentry
    exact ⟨fun s => takes_piece hentry hlen s, fun s => idle_piece hlen s⟩
  have hfold (es : List (Number640 × Byte)) (t : HashedMap Number640 Byte) :
      es.foldl collector.add ⟨t⟩ = ⟨es.foldl (fun m e => m.put e.1 e.2) t⟩ := by
    induction es generalizing t with
    | nil => rfl
    | cons e es ih => exact ih (t.put e.1 e.2)
  have hcreate : newHashMap (BitVec.ofNat 32 m.size) = .ok ⟨.empty⟩ := by
    have hdouble : (2 * BitVec.ofNat 32 m.size).toInt = 2 * m.size := by
      rw [BitVec.toInt_eq_toNat_of_lt] <;> rw [BitVec.toNat_mul, BitVec.toNat_ofNat] <;> simp <;> omega
    exact if_neg (by omega)
  have hreads := Collector.reads_decode steady
    (I := fun t es => ((t.keysMap.entries ++ es).map Prod.fst).Nodup) (n := BitVec.ofNat 32 m.size)
    (by
      intro t e es hnodup
      have hnot : e.1 ∉ t.keysMap.entries.map Prod.fst := by
        rw [map_append] at hnodup
        exact fun he => (disjoint_of_nodup_append hnodup) he mem_cons_self
      have hput : (t.keysMap.put e.1 e.2).entries = t.keysMap.entries ++ [e] := by
        rw [HashedMap.put, dif_neg hnot]
      refine ⟨?_, ?_⟩
      · change (t.keysMap.put e.1 e.2).entries.length = t.keysMap.entries.length + 1
        rw [hput, length_append, length_singleton]
      · change (((t.keysMap.put e.1 e.2).entries ++ es).map Prod.fst).Nodup
        rwa [hput, append_assoc, singleton_append])
    hint (BitVec.isLt _) hcreate rfl m.keysMap.nodup helements
  rw [hfold, ← hparts.1] at hreads
  have hall : m.keysMap.entries.foldl (fun m e => m.put e.1 e.2) HashedMap.empty = m.keysMap := m.keysMap.ofList_entries
  rw [hall] at hreads
  exact hreads

end KeyMapByte

/-! ### Maps of collections -/

namespace KeyMap640Keys

theorem idle_decodeEntry {σ : Type} (entry : Number640 × List Number160) (h : entry.2.length < 256) (s : σ) :
    Idle decodeEntry s (encodeEntry entry) := by
  obtain ⟨key, keys⟩ := entry
  have hfits : keys.length < 256 := h
  have hmeta : META = 80 := rfl
  have hlen : (encodeEntry (key, keys)).length = META + 1 + keys.length * 20 := by
    simp only [encodeEntry, length_append, Number640.length_encode, writeByte, length_toBE,
      Data.length_flatMap_encode, hmeta]
    omega
  have hsize : (BitVec.ofNat 32 keys.length).toNat = keys.length := by
    rw [BitVec.toNat_ofNat]
    omega
  have hlook := Looks.lookField (ε := JavaException) (σ := σ) (n := 1) key.encode
    (keys.flatMap Number160.encode) (BitVec.ofNat 32 keys.length) (by rw [hsize]; omega)
  rw [Number640.length_encode, ← hmeta, ← writeByte] at hlook
  have hneed : META + 1 ≤ (encodeEntry (key, keys)).length := by omega
  refine (Looks.need hneed).idleBind (hlook.idleBind ?_)
  rw [hsize]
  exact idle_piece hlen s

/-- The rest of the entries, and the end of the map. -/
def finished : Unit → Decoding → Bytes → Outcome JavaException Decoding KeyMap640Keys :=
  fun _ s r => .done (s.keyMap640Keys.getD .empty) {} r

theorem run_decode_begun {n : BitVec 32} (hn : n ≠ -1#32) (m : KeyMap640Keys) (b : Bytes) :
    decode.run ⟨n, some m⟩ b =
      ((repeat_ decodeNext (n.toInt - m.size).toNat).run ⟨n, some m⟩ b).andThen finished := by
  rw [decode_eq, run_sized hn]
  rfl

/-- An entry with a new key is put into the map, and is one less to come. -/
theorem passes_entry {n : BitVec 32} (hn : n ≠ -1#32) {m : KeyMap640Keys} {entry : Number640 × List Number160}
    {k : Nat} (hleft : n.toInt = m.size + (k + 1 : Nat)) (hput : (m.put entry.1 entry.2).size = m.size + 1)
    (hset : entry.2.Nodup) (hsmall : entry.2.length ≤ 127) :
    Passes decode ⟨n, some m⟩ (encodeEntry entry) ⟨n, some (m.put entry.1 entry.2)⟩ := by
  have hentry := parses_decodeEntry (σ := Decoding) entry hset hsmall
  have hidle := idle_decodeEntry entry (by omega) (⟨n, some m⟩ : Decoding)
  refine Passes.loop (q := decodeNext) (n := k) (k := finished) ?_ ?_ ?_ (hidle.bind _)
  · intro b
    rw [run_decode_begun hn, show (n.toInt - m.size).toNat = k + 1 by omega]
  · intro b
    rw [run_decode_begun hn, show (n.toInt - (m.put entry.1 entry.2).size).toNat = k by omega]
  · exact (hentry.takes _).thenModify fun e s =>
      { s with keyMap640Keys := s.keyMap640Keys.map fun m => m.put e.1 e.2 }

/-- A map of small sets is read wherever it is cut. -/
theorem reads_decode {m : KeyMap640Keys} (hlen : m.size < 2 ^ 31) (hsets : ∀ entry ∈ m.keysMap.entries, entry.2.Nodup)
    (hsmall : ∀ entry ∈ m.keysMap.entries, entry.2.length ≤ 127) :
    Reads (fun _ => True) decode {} m.encode m {} := by
  have hint : (BitVec.ofNat 32 m.size).toInt = m.keysMap.entries.length := toInt_ofNat hlen
  have hne := ne_neg_one hint
  have hparts := flatMap_parts encodeEntry m.keysMap.entries
  have hsize : Passes decode {} (writeInt (BitVec.ofNat 32 m.size)) ⟨BitVec.ofNat 32 m.size, none⟩ := by
    rw [decode_eq]
    exact passes_sized (s := ({} : Decoding)) rfl hne (BitVec.isLt _)
  have hbegin : Passes decode ⟨BitVec.ofNat 32 m.size, none⟩ [] ⟨BitVec.ofNat 32 m.size, some .empty⟩ := by
    refine Passes.same fun r => ?_
    rw [decode_eq, run_sized (by exact hne), run_sized (by exact hne)]
    rfl
  -- The keys are in their order, so that each entry is put behind the others.
  have helements := Passes.each (p := decode)
    (fun s e => { s with keyMap640Keys := s.keyMap640Keys.map fun m => m.put e.1 e.2 })
    (P := fun s es => ∃ t, s = ⟨BitVec.ofNat 32 m.size, some t⟩ ∧
      (t.keysMap.entries ++ es).Pairwise (fun a b => a.1 < b.1) ∧
      (BitVec.ofNat 32 m.size).toInt = t.size + es.length)
    (R := fun e v => (e ∈ m.keysMap.entries) ∧ encodeEntry e = v) (by
      rintro s e es v ⟨t, rfl, hsorted, hleft⟩ ⟨he, rfl⟩
      have hput := t.keysMap.entries_put_last e.1 e.2 fun a ha =>
        (pairwise_append.mp hsorted).2.2 a ha e mem_cons_self
      have hcount : (t.put e.1 e.2).size = t.size + 1 := by
        change (t.keysMap.put e.1 e.2).entries.length = t.keysMap.entries.length + 1
        rw [hput, length_append, length_singleton]
      rw [length_cons] at hleft
      refine ⟨passes_entry hne hleft hcount (hsets e he) (hsmall e he), t.put e.1 e.2, rfl, ?_, by omega⟩
      change ((t.keysMap.put e.1 e.2).entries ++ es).Pairwise _
      rwa [hput, append_assoc, singleton_append])
    ((List.forall₂_and_left _ _).mpr ⟨fun e he => he, hparts.2⟩)
    ⟨.empty, rfl, m.keysMap.sorted, by rw [hint]; exact (Int.zero_add _).symm⟩
  have hfold (es : List (Number640 × List Number160)) (t : NavMap Number640 (List Number160)) :
      es.foldl (fun (s : Decoding) e => { s with keyMap640Keys := s.keyMap640Keys.map fun m => m.put e.1 e.2 })
        ⟨BitVec.ofNat 32 m.size, some ⟨t⟩⟩ =
      ⟨BitVec.ofNat 32 m.size, some ⟨es.foldl (fun m e => m.put e.1 e.2) t⟩⟩ := by
    induction es generalizing t with
    | nil => rfl
    | cons e es ih => exact ih (t.put e.1 e.2)
  rcases helements with ⟨hpass, t, hlast, _, hleft⟩
  rw [show KeyMap640Keys.empty = ⟨.empty⟩ from rfl, hfold, m.keysMap.foldl_put_entries] at hpass hlast
  have hall := (hsize.trans hbegin).trans hpass
  rw [append_nil, ← hparts.1] at hall
  refine hall.ends fun rest => ?_
  rw [run_decode_begun hne, show ((BitVec.ofNat 32 m.size).toInt - (KeyMap640Keys.mk m.keysMap).size).toNat = 0 by
    rw [hint]
    exact Int.toNat_of_nonpos (Int.sub_self _).le]
  rfl

end KeyMap640Keys

/-! ### Buffers -/

namespace Buffer

/-- A buffer is waited for as a whole once its length is known. -/
theorem reads_decode {b : Buffer} (hlen : b.length.toInt = b.buffer.length) :
    Reads (fun _ => True) decode {} b.encode b {} := by
  have hne := ne_neg_one hlen
  have hnat : b.length.toInt.toNat = b.buffer.length := by omega
  have hsize : Passes decode {} (writeInt b.length) ⟨b.length, none⟩ := by
    rw [decode_eq]
    exact passes_sized (s := ({} : Decoding)) rfl hne b.length.isLt
  have hrun (c : Bytes) : decode.run ⟨b.length, none⟩ c = (need b.buffer.length >>= fun _ => transfer).run ⟨b.length, none⟩ c := by
    rw [decode_eq, run_sized (by exact hne), ← hnat]
    rfl
  refine hsize.reads ⟨?_, ?_⟩
  · intro rest
    have hlong : ¬ (b.buffer ++ rest).length < b.buffer.length := by
      rw [length_append]
      omega
    rw [hrun, run_bind, run_need_of_le _ _ _ (Nat.not_lt.mp hlong), andThen_done, run_transfer,
      if_neg (by rw [hlen]; omega), hnat, if_neg hlong, take_left' rfl, drop_left' rfl]
    rfl
  · intro c e he hcut
    refine ⟨⟨b.length, none⟩, c, ?_, fun _ _ => rfl⟩
    rw [hrun, idle_piece rfl _ c e he hcut]

end Buffer

end TomP2P
