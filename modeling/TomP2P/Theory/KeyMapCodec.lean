import TomP2P.Core.KeyMapCodec
import TomP2P.Theory.DataReads

/-!
# Reading Back a Digest Map

The number of keys an entry is based on is one byte. The decoder looks it up without a
sign when it waits for the keys, and reads it with a sign when it reads them. From 128
keys on the two disagree: the keys are waited for, and then a set is made with a
negative capacity, which throws.

A map that is read has therefore at most 127 keys in each set, wherever its bytes come
from, and fewer than 2^31 entries, since their number is read with a sign as well. These
bounds are all a map needs to be read back.

## Main definitions

* `KeyMap640Keys.DecodesBack`: A map is read back from its encoding.

## Theorems

* `KeyMap640Keys.parses_decodeEntry`: A small entry is read back.
* `KeyMap640Keys.run_decodeEntry_throws`: What becomes of the others.
* `KeyMap640Keys.repeat_done`: The bounds of what is read.
* `KeyMap640Keys.decodesBack_iff`: The maps that are read back.
-/

namespace TomP2P

open Wire Reader Outcome List

namespace KeyMap640Keys

/-! ### One entry -/

/-- Keys are read back one after the other. -/
theorem parses_keys {σ : Type} (keys : List Number160) (xs : List Nat) (h : xs.length = keys.length) :
    Parses (each (fun _ => Number160.decode (σ := σ)) xs) (keys.flatMap Number160.encode) keys := by
  induction keys generalizing xs with
  | nil =>
      rw [eq_nil_of_length_eq_zero h]
      exact Parses.pure []
  | cons key keys ih =>
      cases xs with
      | nil => cases h
      | cons x xs =>
          have htail := ih xs (Nat.succ.inj h)
          exact (Number160.parses_decode key).bind (htail.ret fun keys => key :: keys)

/-- The byte of a number that fits it, as it is written and as it is read. -/
theorem writeByte_eq {n : Nat} (h : n < 256) :
    writeByte (BitVec.ofNat 32 n) = toBE 1 n ∧ toBE 1 n = toBE 1 (BitVec.ofNat 8 n).toNat := by
  have h32 : (BitVec.ofNat 32 n).toNat = n := by
    rw [BitVec.toNat_ofNat]
    omega
  have h8 : (BitVec.ofNat 8 n).toNat = n := by
    rw [BitVec.toNat_ofNat]
    omega
  rw [writeByte, h32, h8]
  exact ⟨rfl, rfl⟩

/-- The entry is waited for, and what follows starts in front of it. -/
theorem run_decodeEntry {σ : Type} (entry : Number640 × List Number160) (h : entry.2.length < 256) (s : σ)
    (rest : Bytes) :
    decodeEntry.run s (encodeEntry entry ++ rest) =
      ((lift (newHashSet (BitVec.ofNat 8 entry.2.length).toInt)).run s
        (entry.2.flatMap Number160.encode ++ rest)).andThen fun value s r =>
          ((each (fun _ => Number160.decode) (List.range (BitVec.ofNat 8 entry.2.length).toInt.toNat)).run s
            r).andThen fun basedOnKeys s r =>
              .done (entry.1, (basedOnKeys.foldl HashedSet.add value).elems) s r := by
  obtain ⟨key, keys⟩ := entry
  have hfits : keys.length < 256 := h
  have hmeta : META = 80 := rfl
  obtain ⟨hwritten, hread⟩ := writeByte_eq hfits
  have hlen : (key.encode ++ (toBE 1 keys.length ++ keys.flatMap Number160.encode)).length =
      META + 1 + keys.length * 20 := by
    simp only [length_append, Number640.length_encode, length_toBE, Data.length_flatMap_encode, hmeta]
    omega
  have hsize : (BitVec.ofNat 32 keys.length).toNat = keys.length := by
    rw [BitVec.toNat_ofNat]
    exact Nat.mod_eq_of_lt (by omega)
  have hneed (n : Nat) (hn : n ≤ META + 1 + keys.length * 20) :
      Looks (need n : Reader JavaException σ Unit)
        (key.encode ++ (toBE 1 keys.length ++ keys.flatMap Number160.encode)) n () :=
    Looks.need (by rw [hlen]; exact hn)
  have hlook := Looks.lookField (ε := JavaException) (σ := σ) (n := 1) key.encode
    (keys.flatMap Number160.encode) (BitVec.ofNat 32 keys.length) (by rw [hsize]; omega)
  rw [hsize, Number640.length_encode, ← hmeta] at hlook
  have hkey := Number640.parses_decode (σ := σ) key
  have hbyte : Parses (readByte (σ := σ)) (toBE 1 keys.length) (BitVec.ofNat 8 keys.length) := by
    rw [hread]
    exact Parses.field _ _ (BitVec.isLt _)
  rw [encodeEntry, hwritten, decodeEntry, run_bind, (hneed (META + 1) (by omega)).full,
    andThen_done, run_bind, hlook.full, andThen_done, run_bind, hsize,
    (hneed (META + 1 + keys.length * Number160.BYTE_ARRAY_SIZE) (Nat.le_refl _)).full,
    andThen_done, run_bind, append_assoc, hkey, andThen_done, run_bind,
    append_assoc, hbyte, andThen_done, run_bind]
  rfl

/-- An entry with at most 127 keys is read back. -/
theorem parses_decodeEntry {σ : Type} (entry : Number640 × List Number160) (hset : entry.2.Nodup)
    (h : entry.2.length ≤ 127) : Parses (decodeEntry (σ := σ)) (encodeEntry entry) entry := by
  have hint : (BitVec.ofNat 8 entry.2.length).toInt = entry.2.length := by
    rw [BitVec.toInt_eq_toNat_of_lt] <;> rw [BitVec.toNat_ofNat] <;> omega
  have hempty : newHashSet entry.2.length = .ok .empty := if_neg (by omega)
  have hkeys := parses_keys (σ := σ) entry.2 (List.range entry.2.length) length_range
  have hall : (entry.2.foldl HashedSet.add .empty).elems = entry.2 :=
    HashedSet.elems_foldl_add entry.2 .empty hset
  intro s rest
  rw [run_decodeEntry entry (by omega), hint, hempty, run_lift_ok, andThen_done, Int.toNat_natCast,
    hkeys, andThen_done, hall]

/-- From 128 keys on the number is negative when it is read. -/
theorem run_decodeEntry_throws {σ : Type} (entry : Number640 × List Number160) (hlow : 128 ≤ entry.2.length)
    (hhigh : entry.2.length ≤ 255) (s : σ) (rest : Bytes) :
    decodeEntry.run s (encodeEntry entry ++ rest) =
      .fail (.illegalArgument ("Illegal initial capacity: " ++ toString (entry.2.length - 256 : Int))) s
        (entry.2.flatMap Number160.encode ++ rest) := by
  have hint : (BitVec.ofNat 8 entry.2.length).toInt = entry.2.length - 256 := by
    have hnat : (BitVec.ofNat 8 entry.2.length).toNat = entry.2.length := by
      rw [BitVec.toNat_ofNat]
      omega
    rw [BitVec.toInt_eq_toNat_cond, hnat, if_neg (by omega)]
    rfl
  have hthrows : newHashSet (entry.2.length - 256) = .error (.illegalArgument ("Illegal initial capacity: " ++
      toString (entry.2.length - 256 : Int))) := if_pos (by omega)
  rw [run_decodeEntry entry (by omega), hint, hthrows, run_lift_error, andThen_fail]

/-! ### What an entry can be -/

theorem gives_keys {σ : Type} (xs : List Nat) :
    Gives (each (fun _ => Number160.decode (σ := σ)) xs) fun keys => keys.length = xs.length := by
  induction xs with
  | nil => exact Gives.pure rfl
  | cons x xs ih =>
      refine Gives.skip fun key => ih.bind fun keys hkeys => Gives.pure ?_
      rw [length_cons, length_cons, hkeys]

/-- Whatever bytes it is read from, an entry has at most 127 keys. -/
theorem gives_decodeEntry {σ : Type} :
    Gives (decodeEntry (σ := σ)) fun entry => entry.2.length ≤ 127 := by
  refine Gives.skip fun _ => Gives.skip fun _ => Gives.skip fun _ => Gives.skip fun key =>
    Gives.skip fun numBasedOn => ?_
  have hempty : Gives (lift (newHashSet numBasedOn.toInt) : Reader JavaException σ _) fun value =>
      value.elems.length = 0 := by
    intro s b value s' r hrun
    rw [newHashSet] at hrun
    split at hrun
    · cases hrun
    · cases hrun
      rfl
  refine hempty.bind fun value hvalue => (gives_keys _).bind fun keys hkeys => Gives.pure ?_
  have hfold := (HashedSet.size_foldl_add keys value).2
  have hbyte := numBasedOn.toInt_lt
  rw [length_range] at hkeys
  rw [HashedSet.size, HashedSet.size] at hfold
  change (keys.foldl HashedSet.add value).elems.length ≤ 127
  omega

/-- Reading an entry leaves the state alone. -/
theorem keeps_decodeEntry {σ : Type} (I : σ → Prop) : Keeps I (decodeEntry (σ := σ)) := by
  have hint : Keeps I (readInt (σ := σ)) := Keeps.field _ 4 32
  have hkey : Keeps I (Number160.decode (σ := σ)) :=
    hint.bind fun _ => hint.bind fun _ => hint.bind fun _ => hint.bind fun _ => hint.bind fun _ =>
      Keeps.pure _
  have hkeys : Keeps I (Number640.decode (σ := σ)) :=
    hkey.bind fun _ => hkey.bind fun _ => hkey.bind fun _ => hkey.bind fun _ => Keeps.pure _
  exact (Keeps.need _).bind fun _ => (Keeps.lookField _ _ _).bind fun _ => (Keeps.need _).bind fun _ =>
    hkeys.bind fun _ => (Keeps.field _ 1 8).bind fun _ => (Keeps.lift _).bind fun _ =>
      (Keeps.each (fun _ => hkey) _).bind fun _ => Keeps.pure _

theorem decodeNext_done {s s' : Decoding} {b r : Bytes} (h : decodeNext.run s b = .done () s' r) :
    ∃ entry : Number640 × List Number160, entry.2.length ≤ 127 ∧
      s' = { s with keyMap640Keys := s.keyMap640Keys.map fun m => m.put entry.1 entry.2 } := by
  obtain ⟨entry, s₁, r₁, hentry, hrest⟩ := run_bind_done h
  have hsame := keeps_decodeEntry (fun s₁ => s₁ = s) s b rfl
  rw [hentry] at hsame
  change s₁ = s at hsame
  refine ⟨entry, gives_decodeEntry s b entry s₁ r₁ hentry, ?_⟩
  cases hrest
  rw [hsame]

/-! ### The map -/

/-- All sets of a map have at most 127 keys. -/
def Small (m : KeyMap640Keys) : Prop := ∀ entry ∈ m.keysMap.entries, entry.2.length ≤ 127

/-- The bounds hold for whatever is read. -/
theorem repeat_done {n : Nat} {s s' : Decoding} {b r : Bytes} {m : KeyMap640Keys}
    (h : (repeat_ decodeNext n).run s b = .done () s' r) (hm : s.keyMap640Keys = some m) (hsmall : m.Small) :
    ∃ m', s'.keyMap640Keys = some m' ∧ m'.Small ∧ m'.size ≤ m.size + n := by
  induction n generalizing s b m with
  | zero =>
      cases h
      exact ⟨m, hm, hsmall, Nat.le_refl _⟩
  | succ n ih =>
      obtain ⟨_, s₁, r₁, hnext, hrest⟩ := run_bind_done h
      obtain ⟨entry, hentry, rfl⟩ := decodeNext_done hnext
      have hput : (m.put entry.1 entry.2).Small := by
        intro e he
        rcases (NavMap.mem_put m.keysMap entry.1 entry.2 e).mp he with rfl | ⟨he, _⟩
        · exact hentry
        · exact hsmall e he
      obtain ⟨m', hm', hsmall', hsize⟩ := ih (m := m.put entry.1 entry.2) hrest (by simp only [hm, Option.map_some])
        hput
      have hone := NavMap.size_put_le m.keysMap entry.1 entry.2
      refine ⟨m', hm', hsmall', ?_⟩
      change m'.size ≤ m.keysMap.size + (n + 1)
      have hle : m'.size ≤ (m.keysMap.put entry.1 entry.2).size + n := hsize
      omega

/-- Small entries are read one after the other. -/
theorem run_repeat (entries : List (Number640 × List Number160)) (n : BitVec 32) (m : KeyMap640Keys)
    (rest : Bytes) (hsets : ∀ entry ∈ entries, entry.2.Nodup) (hsmall : ∀ entry ∈ entries, entry.2.length ≤ 127) :
    (repeat_ decodeNext entries.length).run ⟨n, some m⟩ (entries.flatMap encodeEntry ++ rest) =
      .done () ⟨n, some ⟨entries.foldl (fun m e => m.put e.1 e.2) m.keysMap⟩⟩ rest := by
  induction entries generalizing m with
  | nil => rfl
  | cons entry entries ih =>
      have hentry := parses_decodeEntry (σ := Decoding) entry (hsets entry mem_cons_self)
        (hsmall entry mem_cons_self)
      have htail := ih (m.put entry.1 entry.2) (fun e he => hsets e (mem_cons_of_mem entry he))
        fun e he => hsmall e (mem_cons_of_mem entry he)
      rw [length_cons, repeat_, flatMap_cons, append_assoc, run_bind, decodeNext, run_bind,
        hentry, andThen_done, run_modify, andThen_done, Option.map_some]
      exact htail

/-- The number of entries is read first. -/
theorem run_decode (n : BitVec 32) (b : Bytes) :
    decode.run {} (writeInt n ++ b) =
      ((repeat_ decodeNext n.toInt.toNat).run ⟨n, some .empty⟩ b).andThen fun _ s r =>
        .done (s.keyMap640Keys.getD .empty) {} r := by
  have hneed : (need 4 : Reader JavaException Decoding Unit).run {} (writeInt n ++ b) = .done () {} (writeInt n ++ b) :=
    run_need_of_le 4 _ _ (by rw [length_append, writeInt, length_toBE]; omega)
  have hread := parses_readInt (σ := Decoding) n {} b
  have hzero : (n.toInt - ((KeyMap640Keys.empty.size : Nat) : Int)).toNat = n.toInt.toNat := by
    change (n.toInt - 0).toNat = _
    rw [Int.sub_zero]
  rw [decode, run_bind, run_state, andThen_done, if_pos rfl, run_bind, hneed,
    andThen_done, run_bind, hread, andThen_done, run_bind, run_modify, andThen_done,
    run_bind, run_modify, andThen_done, run_bind, run_state, andThen_done, run_bind]
  change ((repeat_ decodeNext (n.toInt - ((KeyMap640Keys.empty.size : Nat) : Int)).toNat).run
    ⟨n, some .empty⟩ b).andThen _ = _
  rw [hzero]
  rfl

/-- The map is read back from its encoding, which is consumed, whatever follows it. -/
def DecodesBack (m : KeyMap640Keys) : Prop := ∀ rest, decode.run {} (m.encode ++ rest) = .done m {} rest

/-- A map of sets is read back if its sets are small. -/
theorem decodesBack_iff (m : KeyMap640Keys) (hsets : ∀ entry ∈ m.keysMap.entries, entry.2.Nodup) :
    m.DecodesBack ↔ m.size < 2 ^ 31 ∧ ∀ entry ∈ m.keysMap.entries, entry.2.length ≤ 127 := by
  constructor
  · intro h
    have hrun := h []
    rw [encode, append_assoc, run_decode] at hrun
    cases hrepeat : (repeat_ decodeNext (BitVec.ofNat 32 m.size).toInt.toNat).run
        ⟨BitVec.ofNat 32 m.size, some .empty⟩ (m.keysMap.entries.flatMap encodeEntry ++ []) with
    | done u s' r =>
        obtain ⟨m', hm', hsmall, hsize⟩ := repeat_done hrepeat rfl (m := .empty) (by intro e he; cases he)
        rw [hrepeat, andThen_done, hm', Option.getD_some, Outcome.done.injEq] at hrun
        have hsame := hrun.1
        subst hsame
        have hint := (BitVec.ofNat 32 m'.size).toInt_lt
        have hzero : KeyMap640Keys.empty.size = 0 := rfl
        exact ⟨by omega, hsmall⟩
    | wait s' r =>
        rw [hrepeat] at hrun
        cases hrun
    | fail e s' r =>
        rw [hrepeat] at hrun
        cases hrun
  · intro ⟨hsize, hsmall⟩ rest
    have hint : (BitVec.ofNat 32 m.size).toInt = m.size := by
      rw [BitVec.toInt_eq_toNat_of_lt] <;> rw [BitVec.toNat_ofNat] <;> omega
    have hall := run_repeat m.keysMap.entries (BitVec.ofNat 32 m.size) .empty rest hsets hsmall
    have hmap : m.keysMap.entries.foldl (fun m e => m.put e.1 e.2) KeyMap640Keys.empty.keysMap = m.keysMap :=
      m.keysMap.foldl_put_entries
    rw [encode, append_assoc, run_decode, hint, Int.toNat_natCast]
    change ((repeat_ decodeNext m.keysMap.entries.length).run _ _).andThen _ = _
    rw [hall, hmap, andThen_done]
    rfl

/-- Keys that are based on none, on one and on two others. -/
theorem decodesBack_mixed :
    DecodesBack ⟨((NavMap.empty.put ⟨.ZERO, .ZERO, .ZERO, 1⟩ []).put ⟨.ZERO, .ZERO, .ZERO, 2⟩ [.ZERO]).put
      ⟨.ZERO, .ZERO, .ZERO, 3⟩ [1, 2]⟩ :=
  (decodesBack_iff _ (by decide)).mpr (by decide)

/-- The first numbers. -/
def numbers (n : Nat) : List Number160 := (List.range n).map fun i => ⟨0, 0, 0, 0, BitVec.ofNat 32 i⟩

theorem nodup_numbers {n : Nat} (hn : n ≤ 2 ^ 32) : (numbers n).Nodup := by
  refine List.Nodup.map_on ?_ nodup_range
  intro i hi j hj h
  have hword : BitVec.ofNat 32 i = BitVec.ofNat 32 j := congrArg Number160.val4 h
  have hmod := congrArg BitVec.toNat hword
  rw [BitVec.toNat_ofNat, BitVec.toNat_ofNat] at hmod
  have hi := mem_range.mp hi
  have hj := mem_range.mp hj
  omega

/-- A key that is based on 128 others. -/
theorem not_decodesBack_128 :
    let m : KeyMap640Keys := ⟨NavMap.empty.put ⟨.ZERO, .ZERO, .ZERO, .ZERO⟩ (numbers 128)⟩
    (∀ entry ∈ m.keysMap.entries, entry.2.Nodup ∧ entry.2.length ≤ 255) ∧
      (∃ s r, decode.run {} m.encode = .fail (.illegalArgument "Illegal initial capacity: -128") s r) ∧
      ¬ m.DecodesBack := by
  intro m
  have hlen : (numbers 128).length = 128 := by rw [numbers, length_map, length_range]
  have hentries : m.keysMap.entries = [(⟨.ZERO, .ZERO, .ZERO, .ZERO⟩, numbers 128)] := rfl
  have hthrows (rest : Bytes) : ∃ s r, decode.run {} (m.encode ++ rest) =
      .fail (.illegalArgument "Illegal initial capacity: -128") s r := by
    have hentry := run_decodeEntry_throws (σ := Decoding) (⟨.ZERO, .ZERO, .ZERO, .ZERO⟩, numbers 128)
      (by rw [hlen]) (by rw [hlen]; decide) ⟨1#32, some .empty⟩ rest
    have hfirst : (repeat_ decodeNext 1).run ⟨1#32, some .empty⟩
        (encodeEntry (⟨.ZERO, .ZERO, .ZERO, .ZERO⟩, numbers 128) ++ rest) =
        .fail (.illegalArgument "Illegal initial capacity: -128") ⟨1#32, some .empty⟩
          ((numbers 128).flatMap Number160.encode ++ rest) := by
      rw [repeat_, run_bind, decodeNext, run_bind, hentry, hlen]
      rfl
    refine ⟨⟨1#32, some .empty⟩, (numbers 128).flatMap Number160.encode ++ rest, ?_⟩
    rw [encode, append_assoc, run_decode, hentries, flatMap_cons, flatMap_nil, append_nil]
    change ((repeat_ decodeNext 1).run ⟨1#32, some .empty⟩ _).andThen _ = _
    rw [hfirst]
    rfl
  refine ⟨?_, ?_, ?_⟩
  · rw [hentries]
    intro entry hentry
    rw [mem_singleton.mp hentry]
    exact ⟨nodup_numbers (by omega), by rw [hlen]; omega⟩
  · obtain ⟨s, r, hrun⟩ := hthrows []
    rw [append_nil] at hrun
    exact ⟨s, r, hrun⟩
  · intro h
    obtain ⟨s, r, hrun⟩ := hthrows []
    rw [h []] at hrun
    cases hrun

end KeyMap640Keys

end TomP2P
