import TomP2P.Theory.DataConsistency

/-!
# Time to Live

How long a value lives at the peer that receives it.

A reply carries the seconds that are left. They are the difference of two 64-bit
times, divided by 1000 and cut to 32 bits, and what is not positive becomes zero. To
the receiver zero means that the value lives forever. So the last second of a life is
endless, and a life without end, whose difference is cut somewhere, may become any
other.

`Data.KeepsLife` says of the seconds that are left when none of this happens, and
`Data.handsOver_iff` is that it is exact.

## Main definitions

* `Data.secondsLeft`: The seconds a value has left.
* `Data.HandsOver`: A life is not prolonged, and is endless if it was.

## Theorems

* `Data.receive_ttlSeconds`: The receiver gets the seconds that were written.
* `Data.handsOver_iff`: When a life is handed over.
-/

namespace TomP2P

open Wire Reader

namespace Data

variable {σ : Type} {f : SignatureFactory} {d : Data}

/-! ### What the receiver gets -/

theorem lookField_done {i n w : Nat} {s s' : σ} {b r : Bytes} {x : BitVec w}
    (h : (lookField i n w : Reader JavaException σ (BitVec w)).run s b = .done x s' r) :
    x = BitVec.ofNat w (ofBE ((b.drop i).take n)) ∧ r = b := by
  obtain ⟨v, s₁, r₁, hlook, hret⟩ := run_bind_done h
  cases hret
  rw [run_look] at hlook
  split at hlook
  · cases hlook
  · cases hlook
    exact ⟨rfl, rfl⟩

theorem need_done {n : Nat} {s s' : σ} {b r : Bytes} {u : Unit}
    (h : (need n : Reader JavaException σ Unit).run s b = .done u s' r) : r = b ∧ n ≤ b.length := by
  rw [run_need] at h
  split at h
  · cases h
  · cases h
    exact ⟨rfl, by omega⟩

/-- Where the time to live is, behind the first byte and the length. -/
def indexTTL : Data.Type → Nat
  | .SMALL => 2
  | .LARGE => 5

/-- The length is looked at behind the first byte. -/
theorem lookLength_done {header : BitVec 32} {s s' : σ} {b r : Bytes} {x : BitVec 32 × Nat}
    (h : (lookLength header).run s b = .done x s' r) :
    x.2 = indexTTL (typeOf header) ∧ r = b := by
  unfold lookLength at h
  cases ht : typeOf header with
  | SMALL =>
      rw [ht] at h
      obtain ⟨length, s₁, r₁, hlook, hret⟩ := run_bind_done h
      cases hret
      exact ⟨rfl, (lookField_done hlook).2⟩
  | LARGE =>
      rw [ht] at h
      obtain ⟨u, s₁, r₁, hneed, h⟩ := run_bind_done h
      obtain ⟨length, s₂, r₂, hlook, hret⟩ := run_bind_done h
      cases hret
      exact ⟨rfl, (lookField_done hlook).2.trans (need_done hneed).1⟩

/-- The time to live is looked at behind the length, where all of it is there. -/
theorem lookHeader_ttl {s s' : σ} {b r : Bytes} {front : Front}
    (h : lookHeader.run s b = .done front s' r) (httl : hasTTL front.header = true) :
    front.ttl = BitVec.ofNat 32
        (ofBE ((b.drop (indexTTL (typeOf front.header))).take 4)) ∧
      indexTTL (typeOf front.header) + 4 ≤ b.length := by
  unfold lookHeader at h
  obtain ⟨u, s₁, r₁, hneed, h⟩ := run_bind_done h
  obtain ⟨header, s₂, r₂, hheader, h⟩ := run_bind_done h
  obtain ⟨⟨length, indexTTL⟩, s₃, r₃, hlength, h⟩ := run_bind_done h
  obtain ⟨⟨ttl, indexBasedOnNr⟩, s₄, r₄, hlook, h⟩ := run_bind_done h
  obtain ⟨⟨basedOn, indexPublicKeySize⟩, s₅, r₅, _, h⟩ := run_bind_done h
  obtain ⟨_, s₆, r₆, _, h⟩ := run_bind_done h
  cases h
  obtain ⟨rfl, rfl⟩ := lookLength_done hlength
  obtain ⟨_, rfl⟩ := lookField_done hheader
  rw [lookTTL, if_pos httl] at hlook
  obtain ⟨u', s₁', r₁', hneed', hlook⟩ := run_bind_done hlook
  obtain ⟨ttl', s₂', r₂', hfield, hret⟩ := run_bind_done hlook
  cases hret
  have hlen := (need_done hneed').2
  rw [(need_done hneed).1] at hlen
  refine ⟨?_, hlen⟩
  rw [(lookField_done hfield).1, (need_done hneed').1, (need_done hneed).1]

/-- The bytes of the time to live are where they are looked for. -/
theorem ttlField_at {v : Bytes} (hv : d.encodeHeader f = .ok v) (httl : d.ttl = true) (r : Bytes) :
    ((v ++ r).drop (indexTTL d.type)).take 4 = writeInt d.ttlSeconds := by
  obtain ⟨key, _, rfl⟩ := encodeHeader_ok hv
  have hlen : (writeByte d.header ++ d.lengthField).length = indexTTL d.type := by
    have hfirst : (writeByte d.header).length = 1 := length_toBE 1 _
    rw [List.length_append, hfirst, lengthField]
    cases d.type with
    | SMALL =>
        have hone : (writeByte d.length).length = 1 := length_toBE 1 _
        rw [hone, indexTTL]
    | LARGE =>
        have hfour : (writeInt d.length).length = 4 := length_toBE 4 _
        rw [hfour, indexTTL]
  have hfour : (writeInt d.ttlSeconds).length = 4 := length_toBE 4 _
  have hsplit : writeByte d.header ++ (d.lengthField ++ (d.ttlField ++ (d.basedOnField ++ key))) ++ r =
      (writeByte d.header ++ d.lengthField) ++ (writeInt d.ttlSeconds ++ ((d.basedOnField ++ key) ++ r)) := by
    simp only [ttlField, httl, if_true, List.append_assoc]
  rw [hsplit, List.drop_left' hlen, List.take_left' hfour]

theorem ofHeader_validFromMillis {header length : BitVec 32} {now : BitVec 64} {e : Data}
    (h : ofHeader header length now = .ok e) : e.validFromMillis = now := by
  unfold ofHeader at h
  split at h
  · cases h
  split at h
  · cases h
  split at h
  · cases h
  cases h
  rfl

/-- A value that was written with a time to live is received with it, from the time
    of the receiver on. -/
theorem receive_ttlSeconds {mk : Option PrivateKey} {k : Option PublicKey} {now : BitVec 64} {v r r' : Bytes}
    {e : Data} (hv : d.encode f mk = .ok v) (httl : d.ttl = true)
    (h : (receive f k now).run none (v ++ r) = .done () (some e) r') :
    e.ttlSeconds = d.ttlSeconds ∧ e.validFromMillis = now := by
  obtain ⟨header, sig, hheader, _, rfl⟩ := encode_ok hv
  obtain ⟨d₀, s, r₀, e₀, hhead, _, he, hfront⟩ := receive_done h
  cases he
  unfold decodeHeader at hhead
  obtain ⟨front, s₁, r₁, hlook, hhead⟩ := run_bind_done hhead
  obtain ⟨_, s₂, r₂, _, hhead⟩ := run_bind_done hhead
  obtain ⟨publicKey, s₃, r₃, _, hhead⟩ := run_bind_done hhead
  obtain ⟨data, s₄, r₄, hlift, hhead⟩ := run_bind_done hhead
  cases hhead
  -- the first byte says that there is a time to live, and where
  have hfirst : front.header = d.header := by
    rw [(lookHeader_done hlook).1, List.append_assoc]
    exact first_encodeHeader hheader _
  have hbits := header_bits d
  have hhas : hasTTL front.header = true := by rw [hfirst, hbits.2.2.2.2.1, httl]
  have hread := (lookHeader_ttl hlook hhas).1
  rw [hfirst, hbits.1, List.append_assoc, ttlField_at hheader httl, writeInt,
    ofBE_toBE_of_lt 4 _ d.ttlSeconds.isLt, BitVec.ofNat_toNat, BitVec.setWidth_eq] at hread
  have hnew : data.validFromMillis = now := by
    cases hof : ofHeader front.header front.length now with
    | error x =>
        rw [hof] at hlift
        cases hlift
    | ok d' =>
        rw [hof] at hlift
        cases hlift
        exact ofHeader_validFromMillis hof
  have hseconds := congrArg Data.ttlSeconds hfront
  have hvalid := congrArg Data.validFromMillis hfront
  exact ⟨Eq.trans hseconds hread, Eq.trans hvalid hnew⟩

/-! ### What is left of a life -/

/-- The expiration of a value that lives forever, the largest `long`. -/
def NEVER : Int := 2 ^ 63 - 1

/-- The seconds that are left at time `now`, of a difference of 64 bits. -/
def secondsLeft (d : Data) (now : BitVec 64) : Int :=
  ((d.expirationMillis - now.toInt).bmod (2 ^ 64)).tdiv 1000

/-- What is sent of the seconds that are left is positive for a value that expires,
    and not for one that never does. The largest time can be reached by seconds too. -/
def KeepsLife (d : Data) (now : BitVec 64) : Prop :=
  if d.expirationMillis = NEVER then
    d.secondsLeft now % 2 ^ 32 = 0 ∨ 2 ^ 31 ≤ d.secondsLeft now % 2 ^ 32 ∨
      now.toInt + 1000 * (d.secondsLeft now % 2 ^ 32) = NEVER
  else 0 < d.secondsLeft now % 2 ^ 32 ∧ d.secondsLeft now % 2 ^ 32 < 2 ^ 31

instance (d : Data) (now : BitVec 64) : Decidable (d.KeepsLife now) :=
  inferInstanceAs (Decidable (ite _ _ _))

/-- The second value does not outlive the first one, and lives forever if that does. -/
def HandsOver (d e : Data) : Prop :=
  (d.expirationMillis ≠ NEVER → e.expirationMillis ≤ d.expirationMillis ∧ e.expirationMillis ≠ NEVER) ∧
    (d.expirationMillis = NEVER → e.expirationMillis = NEVER)

instance (d e : Data) : Decidable (HandsOver d e) := inferInstanceAs (Decidable (_ ∧ _))

theorem expirationMillis_bounds (d : Data) : -2 ^ 63 ≤ d.expirationMillis ∧ d.expirationMillis ≤ NEVER := by
  unfold expirationMillis NEVER
  split
  · omega
  · have hlow := BitVec.le_toInt (d.validFromMillis + d.ttlSeconds.signExtend 64 * 1000)
    have hhigh := BitVec.toInt_lt (x := d.validFromMillis + d.ttlSeconds.signExtend 64 * 1000)
    omega

/-- The seconds that are sent, as the receiver reads them. -/
theorem filter_ttlSeconds (d : Data) (isConvertMeta : Bool) (now : BitVec 64) :
    (d.filter isConvertMeta true now).ttl = true ∧
      (d.filter isConvertMeta true now).ttlSeconds.toInt = max 0 ((d.secondsLeft now).bmod (2 ^ 32)) := by
  have hexp : (if isConvertMeta then d.duplicateMeta else d).expirationMillis = d.expirationMillis := by
    cases isConvertMeta <;> rfl
  have hbounds := expirationMillis_bounds d
  rw [NEVER] at hbounds
  -- the difference and the quotient as integers
  have hdiff : ((BitVec.ofInt 64 d.expirationMillis - now).sdiv 1000).toInt = d.secondsLeft now := by
    have hself : d.expirationMillis.bmod (2 ^ 64) = d.expirationMillis := by
      rw [Int.bmod_def]
      omega
    have hthousand : (1000 : BitVec 64).toInt = 1000 := by decide
    rw [BitVec.toInt_sdiv, BitVec.toInt_sub, BitVec.toInt_ofInt, hself, hthousand, secondsLeft]
    have hlow := Int.le_bmod (x := d.expirationMillis - now.toInt) (m := 2 ^ 64) (by decide)
    have hhigh := Int.bmod_lt (x := d.expirationMillis - now.toInt) (m := 2 ^ 64) (by decide)
    generalize (d.expirationMillis - now.toInt).bmod (2 ^ 64) = diff at hlow hhigh
    have hquot : (diff.tdiv 1000).natAbs = diff.natAbs / 1000 := Int.natAbs_tdiv diff 1000
    rw [Int.bmod_def]
    omega
  have hcut : (((BitVec.ofInt 64 d.expirationMillis - now).sdiv 1000).setWidth 32).toInt =
      (d.secondsLeft now).bmod (2 ^ 32) := by
    rw [BitVec.toInt_setWidth, ← hdiff, BitVec.toInt_eq_toNat_bmod, Int.bmod_bmod_of_dvd]
    decide
  unfold filter
  simp only [if_true, hexp]
  refine ⟨rfl, ?_⟩
  have hzero : (0 : BitVec 32).toInt = 0 := by decide
  simp only [setTtlSeconds, BitVec.slt_iff_toInt_lt, hcut, hzero]
  split
  · rw [hzero]
    omega
  · rw [hcut]
    omega

/-- The life of a received value. -/
theorem expirationMillis_received {e : Data} {now : BitVec 64} (hvalid : e.validFromMillis = now)
    (hpos : 0 ≤ e.ttlSeconds.toInt) :
    e.expirationMillis = if e.ttlSeconds.toInt = 0 then NEVER
      else (now.toInt + 1000 * e.ttlSeconds.toInt).bmod (2 ^ 64) := by
  have hthousand : (1000 : BitVec 64).toInt = 1000 := by decide
  unfold expirationMillis
  by_cases hzero : e.ttlSeconds.toInt = 0
  · rw [if_pos hzero, if_pos (by omega), NEVER]
  · rw [if_neg hzero, if_neg (by omega), BitVec.toInt_add, BitVec.toInt_mul,
      BitVec.toInt_signExtend_of_le (by decide), hthousand, hvalid, Int.add_bmod_bmod, mul_comm]

/-- Seconds that fit what is sent do not lead beyond the life of the value. -/
theorem sum_bmod {now : BitVec 64} (hlive : now.toInt < d.expirationMillis)
    (hfits : d.secondsLeft now % 2 ^ 32 < 2 ^ 31) :
    (now.toInt + 1000 * (d.secondsLeft now % 2 ^ 32)).bmod (2 ^ 64) =
        now.toInt + 1000 * (d.secondsLeft now % 2 ^ 32) ∧
      now.toInt + 1000 * (d.secondsLeft now % 2 ^ 32) ≤ d.expirationMillis := by
  have hbounds := expirationMillis_bounds d
  have hnow := BitVec.le_toInt now
  rw [NEVER] at hbounds
  have hle : now.toInt + 1000 * (d.secondsLeft now % 2 ^ 32) ≤ d.expirationMillis := by
    by_cases hwrap : d.expirationMillis - now.toInt < 2 ^ 63
    · -- the difference is what it says, and what is sent is at most that
      have hdiff : (d.expirationMillis - now.toInt).bmod (2 ^ 64) = d.expirationMillis - now.toInt := by
        rw [Int.bmod_def]
        omega
      rw [secondsLeft, hdiff, Int.tdiv_eq_ediv_of_nonneg (by omega)]
      omega
    · -- the clock is far below zero
      omega
  refine ⟨?_, hle⟩
  rw [Int.bmod_def]
  omega

/-- The life of a value that has not expired is handed over, exactly if what is sent
    of the seconds that are left says whether it ends. -/
theorem handsOver_iff (d : Data) (isConvertMeta : Bool) (now : BitVec 64) (hlive : now.toInt < d.expirationMillis)
    {f : SignatureFactory} {mk : Option PrivateKey} {k : Option PublicKey} {v r r' : Bytes} {e : Data}
    (hsend : d.encodeData f isConvertMeta true mk now = .ok v)
    (hreceive : (receive f k now).run none (v ++ r) = .done () (some e) r') :
    HandsOver d e ↔ KeepsLife d now := by
  obtain ⟨httl, hsent⟩ := filter_ttlSeconds d isConvertMeta now
  obtain ⟨hseconds, hvalid⟩ := receive_ttlSeconds hsend httl hreceive
  rw [← hseconds] at hsent
  have hpos : 0 ≤ e.ttlSeconds.toInt := by omega
  have hexp := expirationMillis_received hvalid hpos
  have hbounds := expirationMillis_bounds d
  have hnow := BitVec.le_toInt now
  unfold HandsOver KeepsLife
  rw [hexp, hsent]
  -- what is sent is positive if it is below half of the range
  have hcut : (d.secondsLeft now).bmod (2 ^ 32) = if d.secondsLeft now % 2 ^ 32 < 2 ^ 31
      then d.secondsLeft now % 2 ^ 32 else d.secondsLeft now % 2 ^ 32 - 2 ^ 32 := by
    rw [Int.bmod_def]
    omega
  have hsum := sum_bmod hlive
  have hrange : 0 ≤ d.secondsLeft now % 2 ^ 32 ∧ d.secondsLeft now % 2 ^ 32 < 2 ^ 32 := by omega
  generalize d.secondsLeft now % 2 ^ 32 = low at hcut hsum hrange
  rw [hcut]
  by_cases hfits : low < 2 ^ 31
  · obtain ⟨hself, hle⟩ := hsum hfits
    rw [if_pos hfits, max_eq_right hrange.1, hself]
    by_cases hnever : d.expirationMillis = NEVER
    · by_cases hzero : low = 0 <;> simp [hnever, hzero]
      omega
    · by_cases hzero : low = 0 <;> simp [hnever, hzero]
      omega
  · rw [if_neg hfits, max_eq_left (by omega), if_pos rfl]
    by_cases hnever : d.expirationMillis = NEVER <;> simp [hnever]
    · exact .inr (.inl (by omega))
    · omega

/-- A value with two seconds to live, as it is received after half a second. -/
theorem handsOver_halfSecond :
    let f := SignatureFactory.zeros
    let d := (Data.new [7#8] 1000).setTtlSeconds 2
    ∃ v, d.encodeData f false true none 1500 = .ok v ∧
      ∃ e, (receive f none 1500).run none v = .done () (some e) [] ∧ HandsOver d e := by
  intro f d
  obtain ⟨v, hsend⟩ : ∃ v, d.encodeData f false true none 1500 = .ok v := ⟨_, rfl⟩
  have hreceive : (receive f none 1500).run none v =
      .done () (some ((Data.new [7#8] 1500).setTtlSeconds 1)) [] := by
    cases hsend
    decide +kernel
  have hrun := hreceive
  rw [← List.append_nil v] at hrun
  exact ⟨v, hsend, _, hreceive, (handsOver_iff d false 1500 (by decide) hsend hrun).mpr (by decide)⟩

/-- In the last second of its life a value becomes endless, and a value that never
    expires gets an end. -/
theorem not_handsOver_lastSecond :
    let f := SignatureFactory.zeros
    (∃ v e, ((Data.new [7#8] 1000).setTtlSeconds 2).encodeData f false true none 2500 = .ok v ∧
      (receive f none 2500).run none v = .done () (some e) [] ∧
      (2500#64).toInt < ((Data.new [7#8] 1000).setTtlSeconds 2).expirationMillis ∧
      ¬ HandsOver ((Data.new [7#8] 1000).setTtlSeconds 2) e) ∧
    ∃ v e, (Data.new [7#8] 1000).encodeData f false true none 1700000000000 = .ok v ∧
      (receive f none 1700000000000).run none v = .done () (some e) [] ∧
      (1700000000000#64).toInt < (Data.new [7#8] 1000).expirationMillis ∧
      ¬ HandsOver (Data.new [7#8] 1000) e := by
  intro f
  refine ⟨⟨_, (Data.new [7#8] 2500).setTtlSeconds 0, rfl, ?_, ?_, ?_⟩,
    ⟨_, (Data.new [7#8] 1700000000000).setTtlSeconds 1083138807, rfl, ?_, ?_, ?_⟩⟩
  all_goals decide +kernel

end Data

end TomP2P
