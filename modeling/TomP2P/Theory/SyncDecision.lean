import TomP2P.Theory.Sync
import TomP2P.Theory.SyncBuffer

/-!
# The Decision to Synchronize

Whether values are sent after the replica has answered, and which ones.

The loop over the answers puts a value into the message for each key that is missing
or has changed, and raises a flag. A key whose values are the same puts nothing into
the message, but it lowers the flag, so that what the message holds already is not
sent. The keys come in their order, so the last mark decides
(`SyncBuilder.foldl_raise`): a message is sent if there is a missing or changed key
with no equal one behind it.

Nothing is sent either if the loop throws. It does so at a key for which there is no
value, at an answer that is not two keys and whole checksums, and for a block size that
is negative (`SyncBuilder.diff_isSome_iff`).

## Main definitions

* `SyncBuilder.mark`, `SyncBuilder.item`: What an answer says, and what is sent for it.
* `SyncBuilder.syncMessage`: The message, if one is sent.
* `SyncBuilder.Decides`: A message is sent if there is something to send, and it has that.
* `SyncBuilder.Served`: What is sent for a key can be made.

## Theorems

* `SyncBuilder.respond_eq`, `SyncBuilder.respondAll_eq`: One answer, and all of them.
* `SyncBuilder.decides_iff`: The decision is right if the last mark is.
-/

namespace TomP2P

open Wire Effect NavMap List

namespace SyncUtils

/-! ### What can be decoded -/

theorem readBytes_isOk_iff (buf : Bytes) (n : Nat) : (∃ x, readBytes buf n = .ok x) ↔ n ≤ buf.length := by
  rw [readBytes]
  by_cases hshort : buf.length < n
  · rw [if_pos hshort]
    constructor
    · rintro ⟨_, hx⟩
      cases hx
    · intro h
      omega
  · rw [if_neg hshort]
    exact ⟨fun _ => by omega, fun _ => ⟨_, rfl⟩⟩

theorem decodeHeader_length {buf rest : Bytes} {n : Number160} (h : decodeHeader buf = .ok (n, rest)) :
    rest.length + 20 = buf.length := by
  rcases except_bind_ok h with ⟨⟨me, buf'⟩, hme, h⟩
  cases h
  exact readBytes_length hme

theorem decodeHeader_isOk_iff (buf : Bytes) : (∃ x, decodeHeader buf = .ok x) ↔ 20 ≤ buf.length := by
  rw [← readBytes_isOk_iff]
  refine ⟨fun h => ?_, fun h => ?_⟩
  · rcases h with ⟨x, hx⟩
    rcases except_bind_ok hx with ⟨y, hy, _⟩
    exact ⟨y, hy⟩
  · rcases h with ⟨⟨me, rest⟩, hx⟩
    refine ⟨(Number160.ofBytes me, rest), ?_⟩
    rw [decodeHeader, show Number160.BYTE_ARRAY_SIZE = 20 from rfl, hx]
    rfl

theorem decodeChecksum_isOk_iff (buf : Bytes) : (∃ x, decodeChecksum buf = .ok x) ↔ 20 ≤ buf.length := by
  refine ⟨fun h => ?_, fun h => ?_⟩
  · rcases h with ⟨x, hx⟩
    rcases except_bind_ok hx with ⟨⟨weak, buf₁⟩, hweak, hx⟩
    rcases except_bind_ok hx with ⟨⟨me, buf₂⟩, hme, _⟩
    have hlen₁ := readBytes_length hweak
    have hlen₂ := readBytes_length hme
    omega
  · rcases (readBytes_isOk_iff buf 4).mpr (by omega) with ⟨⟨weak, buf₁⟩, hweak⟩
    have hlen₁ := readBytes_length hweak
    rcases (readBytes_isOk_iff buf₁ 16).mpr (by omega) with ⟨⟨me, buf₂⟩, hme⟩
    refine ⟨(⟨BitVec.ofNat 32 (ofBE weak), me⟩, buf₂), ?_⟩
    rw [decodeChecksum, hweak, except_ok_bind]
    dsimp only
    rw [hme]
    rfl

theorem decodeChecksum_length {buf rest : Bytes} {c : Checksum} (h : decodeChecksum buf = .ok (c, rest)) :
    rest.length + 20 = buf.length := by
  rcases except_bind_ok h with ⟨⟨weak, buf₁⟩, hweak, h⟩
  rcases except_bind_ok h with ⟨⟨me, buf₂⟩, hme, h⟩
  cases h
  have hlen₁ := readBytes_length hweak
  have hlen₂ := readBytes_length hme
  omega

-- Each pass takes 20 bytes, and it throws if there are some but less.
theorem readChecksums_isOk_iff {fuel : Nat} {buf : Bytes} (hfuel : buf.length ≤ fuel) :
    (∃ x, whileReadable decodeChecksum fuel buf = .ok x) ↔ 20 ∣ buf.length := by
  induction fuel generalizing buf with
  | zero =>
      have hempty : buf.length = 0 := by omega
      rw [hempty]
      exact ⟨fun _ => by omega, fun _ => ⟨_, rfl⟩⟩
  | succ fuel ih =>
      rw [whileReadable]
      by_cases hempty : buf = []
      · rw [if_pos hempty, hempty]
        exact ⟨fun _ => Nat.dvd_zero 20, fun _ => ⟨_, rfl⟩⟩
      · have hpos : 0 < buf.length := length_pos_of_ne_nil hempty
        rw [if_neg hempty]
        refine ⟨fun h => ?_, fun h => ?_⟩
        · rcases h with ⟨x, hx⟩
          rcases except_bind_ok hx with ⟨⟨c, rest⟩, hc, hx⟩
          rcases except_bind_ok hx with ⟨y, hy, _⟩
          have hlen := decodeChecksum_length hc
          have hdvd := (ih (show rest.length ≤ fuel by omega)).mp ⟨y, hy⟩
          omega
        · rcases (decodeChecksum_isOk_iff buf).mpr (by omega) with ⟨⟨c, rest⟩, hc⟩
          have hlen := decodeChecksum_length hc
          rcases (ih (show rest.length ≤ fuel by omega)).mpr (by omega) with ⟨⟨result, rest'⟩, hresult⟩
          refine ⟨(c :: result, rest'), ?_⟩
          rw [hc, except_ok_bind]
          dsimp only
          rw [hresult]
          rfl

theorem decodeChecksums_isOk_iff (buf : Bytes) : (∃ cs, decodeChecksums buf = .ok cs) ↔ 20 ∣ buf.length := by
  rw [← readChecksums_isOk_iff (le_refl _), decodeChecksums_eq, readChecksums]
  rcases whileReadable decodeChecksum buf.length buf with e | x
  · exact ⟨fun ⟨_, hy⟩ => (nomatch hy), fun ⟨_, hy⟩ => (nomatch hy)⟩
  · exact ⟨fun _ => ⟨_, rfl⟩, fun _ => ⟨_, rfl⟩⟩

-- The checksums are no more than the bytes they were read from.
theorem decodeChecksums_length {buf : Bytes} {cs : List Checksum} (h : decodeChecksums buf = .ok cs) :
    cs.length ≤ buf.length := by
  rw [decodeChecksums] at h
  generalize buf.length = fuel at h
  induction fuel generalizing buf cs with
  | zero =>
      cases h
      exact Nat.zero_le _
  | succ fuel ih =>
      rw [decodeChecksumsUpTo] at h
      by_cases hempty : buf = []
      · rw [if_pos hempty] at h
        cases h
        exact Nat.zero_le _
      · rw [if_neg hempty] at h
        rcases except_bind_ok h with ⟨⟨weak, buf₁⟩, hweak, h⟩
        rcases except_bind_ok h with ⟨⟨me, buf₂⟩, hme, h⟩
        rcases except_bind_ok h with ⟨result, hresult, h⟩
        cases h
        have hlen₁ := readBytes_length hweak
        have hlen₂ := readBytes_length hme
        have hle := ih hresult
        rw [length_cons]
        omega

end SyncUtils

namespace SyncBuilder

/-! ### The answers -/

/-- What the replica says of a key. -/
inductive Mark
  | same
  | missing
  | changed
  deriving DecidableEq

/-- An empty value without a user flag says nothing. -/
def mark (data : Data) : Option Mark :=
  if data.length = 0 then
    if data.flag1 then some .same else if data.flag2 then some .missing else none
  else some .changed

/-- There is something to send for the key. -/
def Needed (data : Data) : Prop :=
  mark data = some .missing ∨ mark data = some .changed

instance (data : Data) : Decidable (Needed data) := inferInstanceAs (Decidable (_ ∨ _))

variable (builder : SyncBuilder) (m : StorageMemory)

/-- What is sent for a key, if that can be made: the value, or the difference to it. -/
def item (key : Number640) (data : Data) : Option Data :=
  match mark data with
  | some .missing => StorageLayer.get m key
  | some .changed => (StorageLayer.get m key).bind (builder.diff · data)
  | _ => none

/-- What an answer puts into the message, if it does. The loop throws if that cannot be
    made. -/
def entry (key : Number640) (data : Data) : Option (Option Data) :=
  match mark data with
  | some .missing | some .changed => (builder.item m key data).map some
  | _ => some none

/-- The flag after an answer. -/
def raise (flag : Bool) (entry : Number640 × Data) : Bool :=
  match mark entry.2 with
  | none => flag
  | some .same => false
  | some _ => true

/-- The values of the message, if one is sent. -/
def syncMessage (dataMap : NavMap Number640 Data) : Option (NavMap Number640 Data) :=
  match builder.respondAll m dataMap with
  | some (retVal, true) => some retVal
  | _ => none

/-- A message is sent if there is something to send, and it has one item for each such
    key and none for another one. -/
def Decides (dataMap : NavMap Number640 Data) : Prop :=
  ((builder.syncMessage m dataMap).isSome = true ↔ ∃ e ∈ dataMap.entries, Needed e.2) ∧
    ∀ retVal, builder.syncMessage m dataMap = some retVal → ∀ key,
      retVal.get key = (dataMap.get key).bind (builder.item m key) ∧
        ∀ data, dataMap.get key = some data → Needed data → (retVal.get key).isSome = true

/-- What is sent for a key can be made: there is a value, and an answer with checksums is
    two keys and whole checksums. -/
def Served (key : Number640) (data : Data) : Prop :=
  (StorageLayer.get m key).isSome = true ∧
    (mark data = some .changed → 0 ≤ builder.blockSize ∧ 40 ≤ data.buffer.length ∧ 20 ∣ data.buffer.length)

section Answer

variable {builder m}

/-- A difference can be made if the checksums can be read. -/
theorem diff_isSome_iff (hint : -2 ^ 31 ≤ builder.blockSize) {data2 data : Data}
    (hvalue : data2.buffer.length + 1 < 2 ^ 31) (hdata : data.buffer.length < 2 ^ 31) :
    (builder.diff data2 data).isSome = true ↔
      0 ≤ builder.blockSize ∧ 40 ≤ data.buffer.length ∧ 20 ∣ data.buffer.length := by
  refine ⟨fun h => ?_, ?_⟩
  · rcases Option.isSome_iff_exists.mp h with ⟨y, hy⟩
    unfold diff at hy
    rcases Option.bind_eq_some_iff.mp hy with ⟨⟨versionKey, buf₁⟩, hv, hy⟩
    rcases Option.bind_eq_some_iff.mp hy with ⟨⟨hash, buf₂⟩, hh, hy⟩
    rcases Option.bind_eq_some_iff.mp hy with ⟨cs, hcs, hy⟩
    rcases Option.bind_eq_some_iff.mp hy with ⟨result, hresult, hy⟩
    rcases Option.bind_eq_some_iff.mp hy with ⟨abuf, habuf, _⟩
    have hlen₁ := SyncUtils.decodeHeader_length (toOption_some hv)
    have hlen₂ := SyncUtils.decodeHeader_length (toOption_some hh)
    have hdvd := (SyncUtils.decodeChecksums_isOk_iff buf₂).mp ⟨cs, toOption_some hcs⟩
    rcases except_bind_ok (toOption_some habuf) with ⟨is, rfl, _⟩
    refine ⟨?_, by omega, by omega⟩
    by_contra hneg
    exact RSync.instructions_negative (by omega) hint cs _ is hresult
  · rintro ⟨hsize, hlen, hdvd⟩
    rcases Int.eq_ofNat_of_zero_le hsize with ⟨b, hb⟩
    rcases (SyncUtils.decodeHeader_isOk_iff data.buffer).mpr (by omega) with ⟨⟨versionKey, buf₁⟩, hv⟩
    have hlen₁ := SyncUtils.decodeHeader_length hv
    rcases (SyncUtils.decodeHeader_isOk_iff buf₁).mpr (by omega) with ⟨⟨hash, buf₂⟩, hh⟩
    have hlen₂ := SyncUtils.decodeHeader_length hh
    rcases (SyncUtils.decodeChecksums_isOk_iff buf₂).mpr (by omega) with ⟨cs, hcs⟩
    have hcount := SyncUtils.decodeChecksums_length hcs
    rcases RSync.instructions_total hvalue cs b with ⟨is, his⟩
    have hsendable := RSync.instructions_sendable (by omega) (by omega) his
    rcases SyncUtils.decodeInstructions_encode hsendable with ⟨vs, hvs, _⟩
    unfold diff
    rw [hv, hb]
    simp only [Except.toOption, Option.bind_eq_bind, Option.bind_some]
    rw [hh]
    simp only [Option.bind_some]
    rw [hcs]
    simp only [Option.bind_some]
    rw [his]
    simp only [Option.bind_some, except_ok_bind]
    rw [SyncUtils.encodeInstructions, hvs]
    rfl

/-- An answer puts its item into the message, and sets the flag by what it says. -/
theorem respond_eq (retVal : NavMap Number640 Data) (flag : Bool) (e : Number640 × Data) :
    builder.respond m (retVal, flag) e =
      (builder.entry m e.1 e.2).map fun o => (retVal.putOption e.1 o, raise flag e) := by
  by_cases hlength : e.2.length = 0
  · rw [respond, if_pos hlength]
    cases hflag1 : e.2.flag1 with
    | true =>
        have hmark : mark e.2 = some .same := by rw [mark, if_pos hlength, if_pos hflag1]
        simp only [entry, raise, hmark]
        rfl
    | false =>
        cases hflag2 : e.2.flag2 with
        | false =>
            have hmark : mark e.2 = none := by simp [mark, hlength, hflag1, hflag2]
            simp only [entry, raise, hmark]
            rfl
        | true =>
            have hmark : mark e.2 = some .missing := by simp [mark, hlength, hflag1, hflag2]
            simp only [entry, item, raise, hmark]
            rcases StorageLayer.get m e.1 with _ | data2 <;> rfl
  · have hmark : mark e.2 = some .changed := by rw [mark, if_neg hlength]
    rw [respond, if_neg hlength]
    simp only [entry, item, raise, hmark]
    rcases StorageLayer.get m e.1 with _ | data2
    · rfl
    · simp only [Option.bind_eq_bind, Option.bind_some]
      rcases builder.diff data2 e.2 with _ | y <;> rfl

theorem entry_needed {key : Number640} {data : Data} (h : Needed data) :
    builder.entry m key data = (builder.item m key data).map some := by
  rw [entry]
  rcases h with hmark | hmark <;> rw [hmark]

theorem entry_other {key : Number640} {data : Data} (h : ¬Needed data) :
    builder.entry m key data = some none ∧ builder.item m key data = none := by
  unfold entry item
  rcases hmark : mark data with _ | _ | _ | _
  · exact ⟨rfl, rfl⟩
  · exact ⟨rfl, rfl⟩
  · exact absurd (.inl hmark) h
  · exact absurd (.inr hmark) h

theorem item_isSome_iff (hint : -2 ^ 31 ≤ builder.blockSize) {key : Number640} {data : Data}
    (hvalue : ∀ data2, StorageLayer.get m key = some data2 → data2.buffer.length + 1 < 2 ^ 31)
    (hdata : data.buffer.length < 2 ^ 31) (hneeded : Needed data) :
    (builder.item m key data).isSome = true ↔ Served builder m key data := by
  unfold item Served
  rcases hneeded with hmark | hmark
  · rw [hmark]
    exact ⟨fun h => ⟨h, nofun⟩, fun h => h.1⟩
  · rw [hmark]
    dsimp only
    rcases hget : StorageLayer.get m key with _ | data2
    · exact ⟨fun h => absurd h Bool.false_ne_true, fun h => absurd h.1 Bool.false_ne_true⟩
    · rw [Option.bind_some, diff_isSome_iff hint (hvalue data2 hget) hdata]
      exact ⟨fun h => ⟨rfl, fun _ => h⟩, fun h => h.2 rfl⟩

end Answer

/-! ### All answers -/

section Answers

variable {builder m}

/-- The flag after the answers: something is to be sent, and no equal key is behind it. -/
def Raised (es : List (Number640 × Data)) : Prop :=
  ∃ e ∈ es, Needed e.2 ∧ ∀ e' ∈ es, e.1 < e'.1 → mark e'.2 ≠ some .same

-- The first answer decides only if the other ones leave the flag as it is.
theorem raised_cons {e : Number640 × Data} {es : List (Number640 × Data)} (hsorted : ∀ e' ∈ es, e.1 < e'.1) :
    Raised (e :: es) ↔ Raised es ∨ Needed e.2 ∧ ∀ e' ∈ es, mark e'.2 ≠ some .same := by
  refine ⟨?_, ?_⟩
  · rintro ⟨x, hx, hneeded, hlast⟩
    rcases mem_cons.mp hx with rfl | hx
    · exact .inr ⟨hneeded, fun e' he' => hlast e' (mem_cons_of_mem _ he') (hsorted e' he')⟩
    · exact .inl ⟨x, hx, hneeded, fun e' he' => hlast e' (mem_cons_of_mem _ he')⟩
  · rintro (⟨x, hx, hneeded, hlast⟩ | ⟨hneeded, hlast⟩)
    · refine ⟨x, mem_cons_of_mem _ hx, hneeded, ?_⟩
      intro e' he' hlt
      rcases mem_cons.mp he' with rfl | he'
      · exact absurd (hsorted x hx) (not_lt_of_gt hlt)
      · exact hlast e' he' hlt
    · refine ⟨e, mem_cons_self, hneeded, ?_⟩
      intro e' he' hlt
      rcases mem_cons.mp he' with rfl | he'
      · exact absurd hlt (lt_irrefl _)
      · exact hlast e' he'

theorem foldl_raise {es : List (Number640 × Data)} (hsorted : es.Pairwise fun e e' => e.1 < e'.1) (flag : Bool) :
    es.foldl raise flag = true ↔ Raised es ∨ flag = true ∧ ∀ e ∈ es, mark e.2 ≠ some .same := by
  induction es generalizing flag with
  | nil =>
      refine ⟨fun h => .inr ⟨h, fun e he => absurd he not_mem_nil⟩, ?_⟩
      rintro (⟨e, he, _⟩ | ⟨h, _⟩)
      · exact absurd he not_mem_nil
      · exact h
  | cons e es ih =>
      rcases pairwise_cons.mp hsorted with ⟨hfirst, hrest⟩
      rw [foldl_cons, ih hrest, raised_cons hfirst, forall_mem_cons, raise, Needed]
      rcases mark e.2 with _ | _ | _ | _ <;> simp only [reduceCtorEq, ne_eq, not_true_eq_false, not_false_eq_true,
        Bool.false_eq_true, or_self, or_true, false_and, and_false, true_and, or_false, Option.some.injEq]
      all_goals tauto

-- The two components of the loop do not depend on each other.
theorem foldlM_respond (es : List (Number640 × Data)) (retVal : NavMap Number640 Data) (flag : Bool) :
    es.foldlM (builder.respond m) (retVal, flag) =
      (es.foldlM (fun r e => (builder.entry m e.1 e.2).map (r.putOption e.1)) retVal).map
        fun r => (r, es.foldl raise flag) := by
  induction es generalizing retVal flag with
  | nil => rfl
  | cons e es ih =>
      rw [foldlM_cons, foldlM_cons, respond_eq]
      rcases builder.entry m e.1 e.2 with _ | o
      · rfl
      · exact ih (retVal.putOption e.1 o) (raise flag e)

theorem respondAll_eq (dataMap : NavMap Number640 Data) :
    builder.respondAll m dataMap =
      (dataMap.filterMapM (builder.entry m)).map fun r => (r, dataMap.entries.foldl raise false) := by
  rw [filterMapM_eq]
  exact foldlM_respond dataMap.entries .empty false

/-- The values for the replica, if all of them can be made. The message is sent if the
    last mark says so. -/
theorem respondAll_ok {dataMap : NavMap Number640 Data}
    (hitem : ∀ e ∈ dataMap.entries, Needed e.2 → (builder.item m e.1 e.2).isSome = true) :
    ∃ r flag, builder.respondAll m dataMap = some (r, flag) ∧ (flag = true ↔ Raised dataMap.entries) ∧
      ∀ key, r.get key = (dataMap.get key).bind (builder.item m key) := by
  have hentry (e : Number640 × Data) (he : e ∈ dataMap.entries) :
      builder.entry m e.1 e.2 = some (builder.item m e.1 e.2) := by
    by_cases hneeded : Needed e.2
    · rcases Option.isSome_iff_exists.mp (hitem e he hneeded) with ⟨y, hy⟩
      rw [entry_needed hneeded, hy, Option.map_some]
    · rw [(entry_other hneeded).1, (entry_other hneeded).2]
  rcases filterMapM_total (f := builder.entry m)
    (fun e he => Option.isSome_iff_exists.mpr ⟨_, hentry e he⟩) with ⟨r, hr, hget⟩
  refine ⟨r, dataMap.entries.foldl raise false, ?_, ?_, ?_⟩
  · rw [respondAll_eq, hr, Option.map_some]
  · rw [foldl_raise dataMap.sorted]
    exact ⟨fun h => h.resolve_right fun h => Bool.false_ne_true h.1, .inl⟩
  · intro key
    rw [hget]
    rcases hkey : dataMap.get key with _ | data
    · rfl
    · rw [Option.bind_some, Option.bind_some, hentry (key, data) ((get_eq_some_iff _ _ _).mp hkey)]
      rfl

-- The loop throws at an answer for which there is no item.
theorem respondAll_none {dataMap : NavMap Number640 Data} {e : Number640 × Data} (he : e ∈ dataMap.entries)
    (hneeded : Needed e.2) (hnone : builder.item m e.1 e.2 = none) : builder.respondAll m dataMap = none := by
  have hentry : builder.entry m e.1 e.2 = none := by
    rw [entry_needed hneeded, hnone, Option.map_none]
  rw [respondAll_eq, filterMapM_none he hentry, Option.map_none]

end Answers

/-- The decision is right if nothing has to be sent, or if everything that has to be can
    be made and no equal key follows the last one of it. -/
theorem decides_iff (hint : -2 ^ 31 ≤ builder.blockSize)
    (hvalue : ∀ key data, StorageLayer.get m key = some data → data.buffer.length + 1 < 2 ^ 31)
    (dataMap : NavMap Number640 Data) (hdata : ∀ e ∈ dataMap.entries, e.2.buffer.length < 2 ^ 31) :
    Decides builder m dataMap ↔ (∀ e ∈ dataMap.entries, ¬Needed e.2) ∨
      (∀ e ∈ dataMap.entries, Needed e.2 → Served builder m e.1 e.2) ∧
        ∃ e ∈ dataMap.entries, Needed e.2 ∧ ∀ e' ∈ dataMap.entries, e.1 < e'.1 → mark e'.2 ≠ some .same := by
  have hserved (e : Number640 × Data) (he : e ∈ dataMap.entries) (hneeded : Needed e.2) :
      (builder.item m e.1 e.2).isSome = true ↔ Served builder m e.1 e.2 :=
    item_isSome_iff hint (hvalue e.1) (hdata e he) hneeded
  refine ⟨?_, ?_⟩
  · rintro ⟨hsent, _⟩
    by_cases hall : ∀ e ∈ dataMap.entries, Needed e.2 → (builder.item m e.1 e.2).isSome = true
    · by_cases hneeded : ∃ e ∈ dataMap.entries, Needed e.2
      · refine .inr ⟨fun e he hn => (hserved e he hn).mp (hall e he hn), ?_⟩
        rcases respondAll_ok hall with ⟨r, flag, hrespond, hflag, _⟩
        have hsome := hsent.mpr hneeded
        rw [syncMessage, hrespond] at hsome
        cases flag with
        | false => exact absurd hsome Bool.false_ne_true
        | true => exact hflag.mp rfl
      · exact .inl fun e he hn => hneeded ⟨e, he, hn⟩
    · -- Something cannot be made, so nothing is sent.
      push Not at hall
      rcases hall with ⟨e, he, hn, hnone⟩
      have hsome := hsent.mpr ⟨e, he, hn⟩
      rw [syncMessage, respondAll_none he hn (Option.not_isSome_iff_eq_none.mp hnone)] at hsome
      exact absurd hsome Bool.false_ne_true
  · intro h
    have hall : ∀ e ∈ dataMap.entries, Needed e.2 → (builder.item m e.1 e.2).isSome = true := by
      intro e he hn
      rcases h with hnone | ⟨hall, _⟩
      · exact absurd hn (hnone e he)
      · exact (hserved e he hn).mpr (hall e he hn)
    rcases respondAll_ok hall with ⟨r, flag, hrespond, hflag, hget⟩
    -- The flag is raised, for the last marked entry is not the same.
    have hraised : flag = true ↔ ∃ e ∈ dataMap.entries, Needed e.2 := by
      rw [hflag]
      refine ⟨fun ⟨e, he, hn, _⟩ => ⟨e, he, hn⟩, fun ⟨e, he, hn⟩ => ?_⟩
      rcases h with hnone | ⟨_, hlast⟩
      · exact absurd hn (hnone e he)
      · exact hlast
    refine ⟨?_, ?_⟩
    · rw [← hraised, syncMessage, hrespond]
      cases flag with
      | false | true => exact Iff.rfl
    · intro retVal hretVal key
      have heq : retVal = r := by
        rw [syncMessage, hrespond] at hretVal
        cases flag with
        | false => cases hretVal
        | true => exact (Option.some.inj hretVal).symm
      rw [heq, hget]
      refine ⟨rfl, ?_⟩
      intro data hkey hn
      rw [hkey]
      exact hall (key, data) ((get_eq_some_iff _ _ _).mp hkey) hn

/-- The answers of a replica that has no value for the key. -/
def copyAnswer : NavMap Number640 Data := NavMap.empty.put someKey { Data.new [] 0 with flag2 := true }

/-- The same, and behind that the answer for a key whose values are equal. -/
def copyThenSame : NavMap Number640 Data :=
  copyAnswer.put { someKey with versionKey := ⟨0, 0, 0, 0, 5⟩ } { Data.new [] 0 with flag1 := true }

/-- The missing value is not sent. -/
theorem not_decides_copyThenSame : ¬Decides { keys := [] } (storeOf outdated) copyThenSame := by
  intro h
  have hsent : (syncMessage { keys := [] } (storeOf outdated) copyThenSame).isSome = false := by decide
  have hneeded : ∃ e ∈ copyThenSame.entries, Needed e.2 := by decide
  rw [h.1.mpr hneeded] at hsent
  exact Bool.false_ne_true hsent.symm

/-- The answers for a key whose values are equal, and behind that for the missing one. -/
def sameThenCopy : NavMap Number640 Data :=
  copyAnswer.put { someKey with versionKey := ⟨0, 0, 0, 0, 3⟩ } { Data.new [] 0 with flag1 := true }

/-- The missing value is sent if the last answer is that it is missing. -/
theorem decides_sameThenCopy : Decides { keys := [] } (storeOf outdated) sameThenCopy := by
  have hvalue (key : Number640) (data : Data) (h : StorageLayer.get (storeOf outdated) key = some data) :
      data.buffer.length + 1 < 2 ^ 31 := by
    rw [get_storeOf h]
    decide
  have hlast : ∃ e ∈ sameThenCopy.entries, Needed e.2 ∧ ∀ e' ∈ sameThenCopy.entries, e.1 < e'.1 → mark e'.2 ≠ some .same := by
    decide
  have hmissing : ∀ e ∈ sameThenCopy.entries, Needed e.2 → mark e.2 = some .missing ∧
      (StorageLayer.get (storeOf outdated) e.1).isSome = true := by
    decide
  refine (decides_iff { keys := [] } (storeOf outdated) (by decide) hvalue sameThenCopy (by decide)).mpr (.inr ⟨?_, hlast⟩)
  intro e he hneeded
  obtain ⟨hmark, hstored⟩ := hmissing e he hneeded
  refine ⟨hstored, fun hchanged => ?_⟩
  rw [hmark] at hchanged
  cases hchanged

end SyncBuilder

end TomP2P
