import TomP2P.Theory.PutOutcome

/-!
# What the Answer of a Put Says

The status of a key says what became of its new value, with one exception. `OK`
and `OK_PREPARED` stand for a value that was stored; the version limit may have
removed it again, if it was too old beside another version of its content.
`FAILED_SECURITY`, `FAILED_NOT_ABSENT` and `DELETED` stand for a value that was
dropped. `VERSION_FORK` is used twice: for a value that was dropped because it
is based on other versions than the stored one, and for a key that is among
several heads, stored or not. So the statuses of several calls are of use exactly if the
limit overrules none of them and no two forks have ended differently (`PutCall.truthful_iff`).

A dropped value should leave nothing behind. The value and the timeout under its
key do stay as they are, but the checks record an owner as soon as they grant a
claim, and a check after them may still turn the key down: the entry after the
domain, and a stored value after both. `Leaves` names the passes in which that
makes a difference.

## Main definitions

* `Failed`: The statuses of a key that was turned down for good.
* `Stored`: The pass for a key stored its value.
* `PutCall`, `PutCall.Truthful`: Calls whose statuses say which values were kept.
* `PutCall.offered`: The values the fork check and the version limit see.
* `NewDomainOwner`, `NewEntryOwner`, `Leaves`: A pass that changes an owner and
  then turns its key down.
* `Untouched`: The state attached to a key is as before.

## Theorems

* `putAll_pass`, `PutCall.answer`: What becomes of a key, and what is answered.
* `PutCall.truthful_iff`: When statuses say what became of the values.
* `failed_put_untouched`: When a failed put leaves everything as it was.
-/

namespace TomP2P

open Effect NavMap StorageMemory List

namespace StorageLayer

variable (sl : StorageLayer)

/-- The key was turned down. -/
def Failed (status : PutStatus) : Prop :=
  status = .FAILED_SECURITY ∨ status = .FAILED_NOT_ABSENT ∨ status = .DELETED

theorem not_failed_fork : ¬Failed .VERSION_FORK := by
  rintro (h | h | h) <;> cases h

theorem not_failed_ok (prepared : Bool) : ¬Failed (if prepared then .OK_PREPARED else .OK) := by
  cases prepared <;> rintro (h | h | h) <;>
    exact absurd h (by simp only [Bool.false_eq_true, if_false, if_true, reduceCtorEq,
      not_false_eq_true])

section Call

variable (dataMap : NavMap Number640 Data) (publicKey : Option PublicKey)
  (putIfAbsent domainProtection sendSelf : Bool)

-- Truthful statuses

/-- The pass for the key stored the new value. -/
def Stored (m : StorageMemory) (k : Number640) (newData : Data) : Prop :=
  ∃ m₀, sl.passState publicKey putIfAbsent domainProtection sendSelf k dataMap.entries m =
      some m₀ ∧
    sl.rejection m₀ publicKey putIfAbsent domainProtection sendSelf k newData = none

/-- What the two loops of a call that returns do with one of its keys. -/
theorem putAll_pass (m m' : StorageMemory) (retVal : NavMap Number640 PutStatus)
    (h : sl.putAll dataMap publicKey putIfAbsent domainProtection sendSelf m = .ok retVal m')
    (k : Number640) (newData : Data) (hk : dataMap.get k = some newData) :
    ∃ retVal₁ m₁ m₀ status,
      sl.putLoop publicKey putIfAbsent domainProtection sendSelf dataMap.entries .empty m =
        .ok retVal₁ m₁ ∧
      sl.passState publicKey putIfAbsent domainProtection sendSelf k dataMap.entries m = some m₀ ∧
      (ForkedHead m₁ k → retVal.get k = some .VERSION_FORK) ∧
      (¬ForkedHead m₁ k → retVal.get k = some status) ∧
      (k ∈ sl.outdated m₁ k.locationAndDomainAndContentKey → m'.get k = none) ∧
      (k ∉ sl.outdated m₁ k.locationAndDomainAndContentKey → m'.get k = m₁.get k) ∧
      (sl.rejection m₀ publicKey putIfAbsent domainProtection sendSelf k newData = some status ∧
          m₁.get k = m.get k ∨
        sl.rejection m₀ publicKey putIfAbsent domainProtection sendSelf k newData = none ∧
          status = (if newData.hasPrepareFlag then .OK_PREPARED else .OK) ∧
          m₁.get k = some newData) := by
  rcases sl.putAll_outcome dataMap publicKey putIfAbsent domainProtection sendSelf m m' retVal h with
    ⟨retVal₁, m₁, hloop, _, _, hkeys⟩
  have hmem : (k, newData) ∈ dataMap.entries := (get_eq_some_iff _ _ _).mp hk
  rcases hkeys k (mem_map_of_mem hmem) with ⟨hforked, hnot, hgone, hkept⟩
  -- The passes for other keys leave the value under this one alone.
  rcases sl.putLoop_pass publicKey putIfAbsent domainProtection sendSelf
    (fun m₁ m₂ => m₂.get k = m₁.get k) (fun _ => rfl) (fun _ _ _ h₁ h₂ => h₂.trans h₁) k newData
    dataMap.entries dataMap.nodup_keys hmem
    (fun e _ hne m => sl.putEntry_other m publicKey putIfAbsent domainProtection sendSelf e.1 e.2 k
      (Ne.symm hne)) .empty retVal₁ m m₁ hloop with ⟨m₀, status, m₂, hstate, hbefore, hput, hafter, hget⟩
  have hcontains : retVal₁.contains k = true := (contains_iff _ _).mpr ⟨status, hget⟩
  refine ⟨retVal₁, m₁, m₀, status, hloop, hstate, fun hf => hforked ⟨hf, hcontains⟩,
    fun hf => (hnot fun h => hf h.1).trans hget, fun ho => (hgone ho).1, fun ho => (hkept ho).1, ?_⟩
  rcases sl.putEntry_cases m₀ publicKey putIfAbsent domainProtection sendSelf k newData status m₂
    hput with ⟨hrej, rfl⟩ | ⟨hrej, rfl, rfl⟩
  · exact .inl ⟨hrej, hafter.trans ((sl.owned_get ..).trans hbefore)⟩
  · refine .inr ⟨hrej, rfl, hafter.trans ?_⟩
    rw [StorageMemory.get, store_dataMap, get_put_self]

end Call

-- Calls and their answers

/-- A call of `putAll`, and the state it is made in. -/
structure PutCall where
  layer : StorageLayer
  dataMap : NavMap Number640 Data
  publicKey : Option PublicKey := none
  putIfAbsent : Bool := false
  domainProtection : Bool := false
  sendSelf : Bool := false
  before : StorageMemory

namespace PutCall

variable (c : PutCall) (k : Number640) (newData : Data)

/-- What the call does. -/
def run : EStateM.Result JavaException StorageMemory (NavMap Number640 PutStatus) :=
  c.layer.putAll c.dataMap c.publicKey c.putIfAbsent c.domainProtection c.sendSelf c.before

/-- The new value of the key was stored, and is there at the end. -/
def Kept (m' : StorageMemory) : Prop :=
  c.layer.Stored c.dataMap c.publicKey c.putIfAbsent c.domainProtection c.sendSelf c.before k newData ∧
    m'.get k = some newData

/-- The call answers this status for a key whose new value is kept, or for one whose new value is not. -/
def Answers (status : PutStatus) (kept : Bool) : Prop :=
  ∃ retVal m' k newData, c.run = .ok retVal m' ∧ c.dataMap.get k = some newData ∧
    retVal.get k = some status ∧ (c.Kept k newData m' ↔ kept = true)

/-- In these calls, `OK` and `OK_PREPARED` say that the new value is kept, and no status is answered
    both for one that is kept and for one that is not. -/
structure Truthful (calls : Set PutCall) : Prop where
  kept : ∀ c ∈ calls, ¬c.Answers .OK false ∧ ¬c.Answers .OK_PREPARED false
  decides : ∀ c ∈ calls, ∀ c' ∈ calls, ∀ status, ¬(c.Answers status true ∧ c'.Answers status false)

/-- The status with which the checks turn the key down when its turn comes, if they do. -/
def refusal : Option PutStatus :=
  (c.layer.passState c.publicKey c.putIfAbsent c.domainProtection c.sendSelf k c.dataMap.entries
    c.before).bind fun m =>
      c.layer.rejection m c.publicKey c.putIfAbsent c.domainProtection c.sendSelf k newData

/-- The values from before the call, and the new ones that the checks let through. -/
def offered : StorageMemory where
  dataMap := c.before.dataMap.putAll (c.dataMap.filter fun k newData => (c.refusal k newData).isNone)

/-- The version limit allows the key no more beside the other versions. -/
def Outdated : Prop := k ∈ c.layer.outdated c.offered k.locationAndDomainAndContentKey

/-- A key that was let through, and is no fork, is removed by the version limit. -/
def Overruled : Prop :=
  ∃ k newData, c.dataMap.get k = some newData ∧ c.refusal k newData = none ∧
    ¬ForkedHead c.offered k ∧ c.Outdated k

/-- A key that was let through is one of several heads. -/
def KeepsFork : Prop :=
  ∃ k newData, c.dataMap.get k = some newData ∧ c.refusal k newData = none ∧
    ForkedHead c.offered k ∧ ¬c.Outdated k

/-- A key was turned down as a fork; or it is one of several heads though it was turned down, or is
    removed by the version limit. -/
def LosesFork : Prop :=
  ∃ k newData, c.dataMap.get k = some newData ∧
    (c.refusal k newData = some .VERSION_FORK ∨
      ForkedHead c.offered k ∧ (c.refusal k newData ≠ none ∨ c.Outdated k))

variable {c k newData} {retVal : NavMap Number640 PutStatus} {m' : StorageMemory}

/-- The first loop leaves the values that were offered. -/
theorem offered_eq (h : c.run = .ok retVal m') {retVal₁ : NavMap Number640 PutStatus}
    {m₁ : StorageMemory} (hloop : c.layer.putLoop c.publicKey c.putIfAbsent c.domainProtection
      c.sendSelf c.dataMap.entries .empty c.before = .ok retVal₁ m₁) :
    m₁.dataMap = c.offered.dataMap := by
  refine ext_get _ _ fun k => ?_
  rw [offered, get_putAll, get_filter]
  cases hk : c.dataMap.get k with
  | none =>
      -- No pass is for the key.
      refine (c.layer.putLoop_without c.publicKey c.putIfAbsent c.domainProtection c.sendSelf
        (fun m m' => m'.get k = m.get k) (fun _ => rfl) (fun _ _ _ h h' => h'.trans h) k
        c.dataMap.entries .empty retVal₁ c.before m₁ (fun e he => ?_) hloop).1
      have hne : e.1 ≠ k := by
        rintro rfl
        rw [(get_eq_some_iff c.dataMap e.1 e.2).mpr he] at hk
        cases hk
      exact ⟨hne, fun m => c.layer.putEntry_other m c.publicKey c.putIfAbsent c.domainProtection
        c.sendSelf e.1 e.2 k (Ne.symm hne)⟩
  | some newData =>
      rcases c.layer.putAll_pass c.dataMap c.publicKey c.putIfAbsent c.domainProtection c.sendSelf
        c.before m' retVal h k newData hk with ⟨_, m₂, m₀, status, hloop', hstate, _, _, _, _, hpass⟩
      cases hloop.symm.trans hloop'
      have hrefusal : c.refusal k newData =
          c.layer.rejection m₀ c.publicKey c.putIfAbsent c.domainProtection c.sendSelf k newData := by
        rw [refusal, hstate, Option.bind_some]
      rcases hpass with ⟨hrej, hget⟩ | ⟨hrej, _, hget⟩
      · rw [hrej] at hrefusal
        rw [Option.filter_some, hrefusal]
        exact hget
      · rw [hrej] at hrefusal
        rw [Option.filter_some, hrefusal]
        exact hget

/-- What a call that returns answers for a key, and whether the new value is kept. -/
theorem answer (h : c.run = .ok retVal m') (hk : c.dataMap.get k = some newData) :
    (ForkedHead c.offered k → retVal.get k = some .VERSION_FORK) ∧
      (¬ForkedHead c.offered k → retVal.get k = some ((c.refusal k newData).getD
        (if newData.hasPrepareFlag then .OK_PREPARED else .OK))) ∧
      (c.Kept k newData m' ↔ c.refusal k newData = none ∧ ¬c.Outdated k) := by
  rcases c.layer.putAll_pass c.dataMap c.publicKey c.putIfAbsent c.domainProtection c.sendSelf
    c.before m' retVal h k newData hk with
    ⟨retVal₁, m₁, m₀, status, hloop, hstate, hforked, hnot, hgone, hkept, hpass⟩
  have hrefusal : c.refusal k newData =
      c.layer.rejection m₀ c.publicKey c.putIfAbsent c.domainProtection c.sendSelf k newData := by
    rw [refusal, hstate, Option.bind_some]
  have hversions : m₁.versions k.locationAndDomainAndContentKey =
      c.offered.versions k.locationAndDomainAndContentKey := by
    rw [StorageMemory.versions, offered_eq h hloop]
    rfl
  have hheads : ForkedHead m₁ k ↔ ForkedHead c.offered k := by
    rw [ForkedHead, ForkedHead, heads, heads, hversions]
  have hold : k ∈ c.layer.outdated m₁ k.locationAndDomainAndContentKey ↔ c.Outdated k := by
    rw [Outdated, c.layer.outdated_congr _ _ _ hversions]
  rw [hheads] at hforked hnot
  rw [hold] at hgone hkept
  have hstored : c.layer.Stored c.dataMap c.publicKey c.putIfAbsent c.domainProtection c.sendSelf c.before
      k newData ↔ c.refusal k newData = none := by
    rw [hrefusal]
    refine ⟨?_, fun hrej => ⟨m₀, hstate, hrej⟩⟩
    rintro ⟨m₀', hstate', hrej⟩
    rw [hstate] at hstate'
    cases hstate'
    exact hrej
  refine ⟨hforked, ?_, ?_⟩
  · intro hf
    rw [hnot hf, hrefusal]
    rcases hpass with ⟨hrej, _⟩ | ⟨hrej, rfl, _⟩ <;> rw [hrej] <;> rfl
  · rw [Kept, hstored]
    refine and_congr_right fun hnone => ?_
    rw [hrefusal] at hnone
    rcases hpass with ⟨hrej, _⟩ | ⟨_, _, hnew⟩
    · rw [hnone] at hrej
      cases hrej
    · by_cases ho : c.Outdated k
      · rw [hgone ho]
        exact iff_of_false (fun h => by cases h) (fun h => h ho)
      · rw [hkept ho, hnew]
        exact iff_of_true rfl ho

theorem fork_ne_ok (prepared : Bool) :
    PutStatus.VERSION_FORK ≠ if prepared then .OK_PREPARED else .OK := by
  cases prepared <;> decide

/-- A refused key is answered with no `OK`. -/
theorem refusal_ne_ok {status : PutStatus} (h : c.refusal k newData = some status) :
    status ≠ .OK ∧ status ≠ .OK_PREPARED := by
  rcases Option.bind_eq_some_iff.mp h with ⟨m, _, hrej⟩
  rcases c.layer.rejection_status m c.publicKey c.putIfAbsent c.domainProtection c.sendSelf k newData
    status hrej with rfl | rfl | rfl | rfl <;> exact ⟨by decide, by decide⟩

/-- What the keys that are kept are answered, and the others. -/
theorem answers_iff (h : c.run = .ok retVal m') (status : PutStatus) (kept : Bool) :
    c.Answers status kept ↔ ∃ k newData, c.dataMap.get k = some newData ∧
      ((c.refusal k newData = none ∧ ¬c.Outdated k) ↔ kept = true) ∧
        ((ForkedHead c.offered k ∧ status = .VERSION_FORK) ∨
          (¬ForkedHead c.offered k ∧ status = (c.refusal k newData).getD
            (if newData.hasPrepareFlag then .OK_PREPARED else .OK))) := by
  constructor
  · rintro ⟨retVal', m'', k, newData, h', hk, hget, hkept⟩
    rw [h] at h'
    cases h'
    rcases answer h hk with ⟨hforked, hnot, hiff⟩
    refine ⟨k, newData, hk, hiff.symm.trans hkept, ?_⟩
    by_cases hf : ForkedHead c.offered k
    · rw [hforked hf] at hget
      exact .inl ⟨hf, (Option.some.inj hget).symm⟩
    · rw [hnot hf] at hget
      exact .inr ⟨hf, (Option.some.inj hget).symm⟩
  · rintro ⟨k, newData, hk, hkept, hstatus⟩
    rcases answer h hk with ⟨hforked, hnot, hiff⟩
    refine ⟨retVal, m', k, newData, h, hk, ?_, hiff.trans hkept⟩
    rcases hstatus with ⟨hf, rfl⟩ | ⟨hf, rfl⟩
    · exact hforked hf
    · exact hnot hf

/-- An `OK` is lost to the version limit. -/
theorem overruled_iff (h : c.run = .ok retVal m') :
    c.Answers .OK false ∨ c.Answers .OK_PREPARED false ↔ c.Overruled := by
  constructor
  · have hlost (status : PutStatus) (hok : status = .OK ∨ status = .OK_PREPARED)
        (hanswers : c.Answers status false) : c.Overruled := by
      rcases (answers_iff h status false).mp hanswers with ⟨k, newData, hk, hlost, ⟨_, rfl⟩ | ⟨hf, hstatus⟩⟩
      · rcases hok with hok | hok <;> cases hok
      · cases hrefusal : c.refusal k newData with
        | none => exact ⟨k, newData, hk, hrefusal, hf, by simpa [hrefusal] using hlost⟩
        | some s =>
            rw [hrefusal, Option.getD_some] at hstatus
            subst hstatus
            exact (hok.elim (refusal_ne_ok hrefusal).1 (refusal_ne_ok hrefusal).2).elim
    exact fun hor => hor.elim (hlost .OK (.inl rfl)) (hlost .OK_PREPARED (.inr rfl))
  · rintro ⟨k, newData, hk, hnone, hf, hold⟩
    have hlost := (answers_iff h (if newData.hasPrepareFlag then .OK_PREPARED else .OK) false).mpr
      ⟨k, newData, hk, by simp [hold], .inr ⟨hf, by rw [hnone]; rfl⟩⟩
    cases hprepared : newData.hasPrepareFlag with
    | false => exact .inl (by rwa [hprepared] at hlost)
    | true => exact .inr (by rwa [hprepared] at hlost)

theorem keepsFork_iff (h : c.run = .ok retVal m') : c.Answers .VERSION_FORK true ↔ c.KeepsFork := by
  rw [answers_iff h]
  refine exists_congr fun k => exists_congr fun newData => and_congr_right fun _ => ?_
  simp only [iff_true, and_true]
  constructor
  · rintro ⟨⟨hnone, hcurrent⟩, hf | ⟨_, hstatus⟩⟩
    · exact ⟨hnone, hf, hcurrent⟩
    · rw [hnone] at hstatus
      exact absurd hstatus (fork_ne_ok _)
  · exact fun ⟨hnone, hf, hcurrent⟩ => ⟨⟨hnone, hcurrent⟩, .inl hf⟩

theorem losesFork_iff (h : c.run = .ok retVal m') : c.Answers .VERSION_FORK false ↔ c.LosesFork := by
  rw [answers_iff h]
  refine exists_congr fun k => exists_congr fun newData => and_congr_right fun _ => ?_
  simp only [Bool.false_eq_true, iff_false, not_and_or, not_not]
  constructor
  · rintro ⟨hlost, ⟨hf, _⟩ | ⟨_, hstatus⟩⟩
    · exact .inr ⟨hf, hlost⟩
    · cases hrefusal : c.refusal k newData with
      | none =>
          rw [hrefusal, Option.getD_none] at hstatus
          exact absurd hstatus (fork_ne_ok _)
      | some s =>
          rw [hrefusal, Option.getD_some] at hstatus
          exact .inl (hstatus ▸ rfl)
  · rintro (hrefusal | ⟨hf, hlost⟩)
    · refine ⟨.inl (by rw [hrefusal]; exact fun h => by cases h), ?_⟩
      by_cases hf : ForkedHead c.offered k
      · exact .inl ⟨hf, trivial⟩
      · exact .inr ⟨hf, by rw [hrefusal]; rfl⟩
    · exact ⟨hlost, .inl ⟨hf, trivial⟩⟩

/-- **Put status.** The statuses of calls say which new values were kept exactly if the version limit
    removes none that was let through and is no fork, and no two keys are forks of which one is kept
    and the other is not. -/
theorem truthful_iff (calls : Set PutCall) (hreturns : ∀ c ∈ calls, ∃ retVal m', c.run = .ok retVal m') :
    Truthful calls ↔ (∀ c ∈ calls, ¬c.Overruled) ∧
      ∀ c ∈ calls, ∀ c' ∈ calls, ¬(c.KeepsFork ∧ c'.LosesFork) := by
  have hover (c : PutCall) (hc : c ∈ calls) :
      ¬c.Answers .OK false ∧ ¬c.Answers .OK_PREPARED false ↔ ¬c.Overruled := by
    rcases hreturns c hc with ⟨retVal, m', h⟩
    rw [← not_or, overruled_iff h]
  constructor
  · intro htruthful
    refine ⟨fun c hc => (hover c hc).mp (htruthful.kept c hc), ?_⟩
    rintro c hc c' hc' ⟨hkeeps, hloses⟩
    rcases hreturns c hc with ⟨retVal, m', h⟩
    rcases hreturns c' hc' with ⟨retVal', m'', h'⟩
    exact htruthful.decides c hc c' hc' .VERSION_FORK ⟨(keepsFork_iff h).mpr hkeeps, (losesFork_iff h').mpr hloses⟩
  · rintro ⟨hcurrent, hforks⟩
    have hkept (c : PutCall) (hc : c ∈ calls) := (hover c hc).mpr (hcurrent c hc)
    refine ⟨hkept, ?_⟩
    rintro c hc c' hc' status ⟨hkeeps, hloses⟩
    rcases hreturns c hc with ⟨retVal, m', h⟩
    rcases hreturns c' hc' with ⟨retVal', m'', h'⟩
    -- A key that is kept is a fork, or is answered with one of the two `OK`.
    rcases (answers_iff h status true).mp hkeeps with ⟨k, newData, _, hnone, ⟨_, rfl⟩ | ⟨_, hstatus⟩⟩
    · exact hforks c hc c' hc' ⟨(keepsFork_iff h).mp hkeeps, (losesFork_iff h').mp hloses⟩
    · rw [(hnone.mpr rfl).1, Option.getD_none] at hstatus
      subst hstatus
      cases hprepared : newData.hasPrepareFlag with
      | false => exact (hkept c' hc').1 (by rwa [hprepared] at hloses)
      | true => exact (hkept c' hc').2 (by rwa [hprepared] at hloses)

/-- A first value under a key. -/
def first : PutCall where
  layer := {}
  dataMap := NavMap.empty.put ⟨1, 2, 3, 4⟩ (Data.new [7#8] 1000)
  before := {}

/-- A value for the same key that is based on another version, and one for another content. -/
def second : PutCall where
  layer := {}
  dataMap := (NavMap.empty.put ⟨1, 2, 3, 4⟩
    { Data.new [8#8] 1000 with basedOnSet := HashedSet.ofList [9] }).put ⟨1, 2, 5, 4⟩ (Data.new [9#8] 1000)
  before := after ((StorageOp.put ⟨1, 2, 3, 4⟩ (Data.new [7#8] 1000) none false false false).run {}) {}

/-- The first value is answered with `OK`, and so is the one for another content, while the one that
    is based on another version is a fork and dropped. -/
theorem truthful_iff_second : Truthful {first, second} := by
  have hfirst : (match first.run with | .ok retVal _ => retVal.get ⟨1, 2, 3, 4⟩ | .error _ _ => none) =
      some .OK := by decide +kernel
  have hsecond : (match second.run with
      | .ok retVal _ => (retVal.get ⟨1, 2, 3, 4⟩, retVal.get ⟨1, 2, 5, 4⟩)
      | .error _ _ => (none, none)) = (some .VERSION_FORK, some .OK) := by decide +kernel
  refine (truthful_iff {first, second} ?_).mpr ⟨?_, ?_⟩
  · rintro c (rfl | rfl)
    · rcases h : first.run with ⟨retVal, m'⟩ | ⟨e, m'⟩
      · exact ⟨retVal, m', rfl⟩
      · rw [h] at hfirst
        cases hfirst
    · rcases h : second.run with ⟨retVal, m'⟩ | ⟨e, m'⟩
      · exact ⟨retVal, m', rfl⟩
      · rw [h] at hsecond
        cases hsecond
  · rintro c hc ⟨k, newData, _, _, _, hold⟩
    have hmax : c.layer.maxVersions.toInt ≤ 0 := by rcases hc with rfl | rfl <;> decide
    rw [Outdated, outdated_of_no_limit c.layer _ _ hmax] at hold
    exact absurd hold not_mem_nil
  · have hforked (c : PutCall) (hc : c ∈ ({first, second} : Set PutCall)) :
        ∀ k ∈ c.dataMap.keys, ¬ForkedHead c.offered k := by
      rcases hc with rfl | rfl <;> decide +kernel
    rintro c hc c' _ ⟨⟨k, newData, hk, _, hf, _⟩, _⟩
    exact hforked c hc k ((mem_keys_iff _ _).mpr ((contains_iff _ _).mpr ⟨newData, hk⟩)) hf

end PutCall

/-- `VERSION_FORK` is answered for a value that is dropped, since it is based on
    other versions than the stored one, for a value that is stored beside
    another head, and for a value that is turned down under the key of a head. And
    with a limit of one, a value can be answered with `OK` and be gone. -/
theorem version_fork_both_ways :
    let key : Number640 := ⟨1, 2, 3, 4⟩
    let other : Number640 := ⟨1, 2, 3, 5⟩
    let d := Data.new [7#8] 1000
    let based := { Data.new [8#8] 1000 with basedOnSet := HashedSet.ofList [9] }
    let m := after ((StorageOp.put key d none false false false).run {}) {}
    let dropped := StorageOp.put key based none false false false
    let stored := StorageOp.put other d none false false false
    let absent := StorageOp.put other based none true false false
    let late : Number640 := ⟨1, 2, 3, ⟨0, 9, 0, 0, 0⟩⟩
    let next := { Data.new [9#8] 1000 with basedOnSet := HashedSet.ofList [4] }
    let both := (NavMap.empty.put key d).put late next
    (match dropped.run {} m with | .ok (.status s) _ => some s | _ => none) =
        some .VERSION_FORK ∧
      (after (dropped.run {}) m).get key = some d ∧
      (match stored.run {} m with | .ok (.status s) _ => some s | _ => none) =
        some .VERSION_FORK ∧
      (after (stored.run {}) m).get other = some d ∧
      (match absent.run {} (after (stored.run {}) m) with
        | .ok (.status s) m' => (some s, m'.get other) | _ => (none, none)) =
        (some .VERSION_FORK, some d) ∧
      (match putAll { maxVersions := 1 } both none false false false {} with
        | .ok retVal m' => (retVal.get key, m'.get key) | .error _ _ => (none, none)) =
        (some .OK, none) := by
  refine ⟨by decide +kernel, by decide +kernel, by decide +kernel, by decide +kernel,
    by decide +kernel, by decide +kernel⟩

section Call

variable (dataMap : NavMap Number640 Data) (publicKey : Option PublicKey)
  (putIfAbsent domainProtection sendSelf : Bool)

-- Failed puts

/-- The pass records another owner for the domain of the key. -/
def NewDomainOwner (m : StorageMemory) (k : Number640) : Prop :=
  ∃ owner, sl.domainRecord m publicKey domainProtection k = some owner ∧
    m.protectedMap.get k.locationAndDomainKey ≠ some owner

/-- The pass records another owner for the entry of the key. -/
def NewEntryOwner (m : StorageMemory) (k : Number640) (newData : Data) : Prop :=
  ∃ owner, sl.entryRecord m publicKey domainProtection sendSelf k newData = some owner ∧
    m.entryMap.get k.locationAndDomainAndContentKey ≠ some owner

/-- The pass turns the key down, and the call then says so; but an owner changes,
    or the version limit removes what is stored. -/
def Leaves (m : StorageMemory) (k : Number640) (newData : Data) : Prop :=
  (∃ status, sl.rejection m publicKey putIfAbsent domainProtection sendSelf k newData =
    some status ∧ Failed status) ∧ ¬ForkedHead m k ∧
  (sl.NewDomainOwner publicKey domainProtection m k ∨
    sl.NewEntryOwner publicKey domainProtection sendSelf m k newData ∨
    k ∈ sl.outdated m k.locationAndDomainAndContentKey)

/-- Every selected key of the call was answered with a failure. -/
def AllFailed (retVal : NavMap Number640 PutStatus) (selected : Number640 → Prop) : Prop :=
  ∀ k ∈ dataMap.keys, selected k → ∃ status, retVal.get k = some status ∧ Failed status

/-- If the key failed, its value, its timeout and the owners of its entry and
    its domain are as before, as far as no other key succeeded on them. -/
def Spared (m m' : StorageMemory) (retVal : NavMap Number640 PutStatus) (k : Number640) : Prop :=
  ∀ status, retVal.get k = some status → Failed status →
    (AllFailed dataMap retVal (fun k' => k'.locationAndDomainAndContentKey =
        k.locationAndDomainAndContentKey) →
      m'.get k = m.get k ∧ m'.timeoutMap.get k = m.timeoutMap.get k ∧
        m'.entryMap.get k.locationAndDomainAndContentKey =
          m.entryMap.get k.locationAndDomainAndContentKey) ∧
    (AllFailed dataMap retVal (fun k' => k'.locationAndDomainKey = k.locationAndDomainKey) →
      m'.protectedMap.get k.locationAndDomainKey = m.protectedMap.get k.locationAndDomainKey)

/-- By induction along the entries: what every pass keeps of a region, from the
    state it starts in, the loop keeps, and every pass starts with. -/
theorem putLoop_sameIn (r : Region) (entries : List (Number640 × Data))
    (hnodup : (entries.map Prod.fst).Nodup) (retVal retVal' : NavMap Number640 PutStatus)
    (m m' : StorageMemory)
    (h : sl.putLoop publicKey putIfAbsent domainProtection sendSelf entries retVal m =
      .ok retVal' m')
    (hpass : ∀ e ∈ entries, ∀ m₀ status m₂,
      sl.passState publicKey putIfAbsent domainProtection sendSelf e.1 entries m = some m₀ →
      sl.putEntry publicKey putIfAbsent domainProtection sendSelf e.1 e.2 m₀ = .ok status m₂ →
      retVal'.get e.1 = some status → SameIn r m m₀ → SameIn r m₀ m₂) :
    SameIn r m m' ∧ ∀ e ∈ entries, ∀ m₀,
      sl.passState publicKey putIfAbsent domainProtection sendSelf e.1 entries m = some m₀ →
      SameIn r m m₀ := by
  induction entries generalizing retVal m with
  | nil =>
      rw [putLoop, pure_apply] at h
      cases h
      exact ⟨SameIn.refl r _, fun e he => absurd he not_mem_nil⟩
  | cons e rest ih =>
      rw [map_cons, nodup_cons] at hnodup
      rw [putLoop] at h
      rcases (bind_ok_iff _ _ _ _ _).mp h with ⟨status, m₁, hput, hrest⟩
      have hne : ∀ e' ∈ rest, e'.1 ≠ e.1 := by
        intro e' he' heq
        have hmem : e'.1 ∈ rest.map Prod.fst := mem_map_of_mem he'
        exact hnodup.1 (heq ▸ hmem)
      -- The key of the first pass does not come up again.
      have hget : retVal'.get e.1 = some status := by
        have hwithout := sl.putLoop_without publicKey putIfAbsent domainProtection sendSelf
          (fun _ _ => True) (fun _ => trivial) (fun _ _ _ _ _ => trivial) e.1 rest _ retVal' m₁ m'
          (fun e' he' => ⟨hne e' he', fun _ => trivial⟩) hrest
        rw [hwithout.2, get_put_self]
      have hfirst : SameIn r m m₁ :=
        hpass e mem_cons_self m status m₁ (if_pos rfl) hput hget (SameIn.refl r m)
      have htail : ∀ e' ∈ rest,
          sl.passState publicKey putIfAbsent domainProtection sendSelf e'.1 (e :: rest) m =
            sl.passState publicKey putIfAbsent domainProtection sendSelf e'.1 rest m₁ := by
        intro e' he'
        rw [passState, if_neg (Ne.symm (hne e' he')), hput]
      have hloop := ih hnodup.2 _ _ hrest (by
        intro e' he' m₀ s m₂ hstate hput' hget' hsame
        exact hpass e' (mem_cons_of_mem e he') m₀ s m₂ ((htail e' he').trans hstate) hput' hget'
          (SameIn.trans r _ _ _ hfirst hsame))
      refine ⟨SameIn.trans r _ _ _ hfirst hloop.1, ?_⟩
      intro e' he' m₀ hstate
      rcases mem_cons.mp he' with rfl | hin
      · rw [passState, if_pos rfl, Option.some.injEq] at hstate
        rw [← hstate]
        exact SameIn.refl r m
      · rw [htail e' hin] at hstate
        exact SameIn.trans r _ _ _ hfirst (hloop.2 e' hin m₀ hstate)

/-- A pass that turns its key down without a change of owner changes nothing. -/
theorem sameIn_owned (r : Region) (m : StorageMemory) (k : Number640) (newData : Data)
    (hd : r.domains k.locationAndDomainKey → ¬sl.NewDomainOwner publicKey domainProtection m k)
    (he : r.entries k.locationAndDomainAndContentKey →
      ¬sl.NewEntryOwner publicKey domainProtection sendSelf m k newData) :
    SameIn r m (sl.owned m publicKey domainProtection sendSelf k newData) := by
  have hdomain := SameIn.ownDomain r m k.locationAndDomainKey
    (sl.domainRecord m publicKey domainProtection k) (fun hr owner hrec =>
      Classical.not_not.mp fun hne => hd hr ⟨owner, hrec, hne⟩)
  refine SameIn.trans r _ _ _ hdomain (SameIn.ownEntry r _ k.locationAndDomainAndContentKey _ ?_)
  intro hr owner hrec
  rw [ownDomain_entryMap]
  exact Classical.not_not.mp fun hne => he hr ⟨owner, hrec, hne⟩

/-- The heads of a content depend on its versions only. -/
theorem forkedHead_congr (r : Region) (m m' : StorageMemory) (k : Number640)
    (h : SameIn r m m') (hr : r.contents k.locationAndDomainAndContentKey) :
    ForkedHead m' k ↔ ForkedHead m k := by
  rw [ForkedHead, ForkedHead, heads, heads, SameIn.versions r m m' h _ hr]

/-- If every key aimed at a region was turned down, and none of their passes
    leaves anything, the first loop leaves the region alone and nothing of it
    for the limit. -/
theorem failed_loop (selected : Number640 → Prop) (r : Region)
    (hin : ∀ k, selected k → r.contents k.locationAndDomainAndContentKey)
    (hout : ∀ k : Number640, ¬selected k → ¬r.contents k.locationAndDomainAndContentKey ∧
      ¬r.domains k.locationAndDomainKey ∧ ¬r.entries k.locationAndDomainAndContentKey)
    (m m₁ : StorageMemory) (retVal₁ : NavMap Number640 PutStatus)
    (hloop : sl.putLoop publicKey putIfAbsent domainProtection sendSelf dataMap.entries .empty m =
      .ok retVal₁ m₁)
    (hfailed : ∀ e ∈ dataMap.entries, selected e.1 →
      (∃ status, retVal₁.get e.1 = some status ∧ Failed status) ∧ ¬ForkedHead m₁ e.1)
    (hclean : ∀ e ∈ dataMap.entries, selected e.1 → ∀ m₀,
      sl.passState publicKey putIfAbsent domainProtection sendSelf e.1 dataMap.entries m =
        some m₀ → ¬sl.Leaves publicKey putIfAbsent domainProtection sendSelf m₀ e.1 e.2) :
    SameIn r m m₁ ∧ ∀ e ∈ dataMap.entries, selected e.1 →
      e.1 ∉ sl.outdated m₁ e.1.locationAndDomainAndContentKey := by
  -- A selected pass was turned down, and has done no more than record owners.
  have hturned : ∀ e ∈ dataMap.entries, selected e.1 → ∀ m₀ status m₂,
      sl.putEntry publicKey putIfAbsent domainProtection sendSelf e.1 e.2 m₀ = .ok status m₂ →
      retVal₁.get e.1 = some status → (∃ status, sl.rejection m₀ publicKey putIfAbsent
        domainProtection sendSelf e.1 e.2 = some status ∧ Failed status) ∧
      m₂ = sl.owned m₀ publicKey domainProtection sendSelf e.1 e.2 := by
    intro e he hs m₀ status m₂ hput hget
    rcases (hfailed e he hs).1 with ⟨status', hget', hf⟩
    rw [hget, Option.some.injEq] at hget'
    subst hget'
    rcases sl.putEntry_cases m₀ publicKey putIfAbsent domainProtection sendSelf e.1 e.2 status m₂
      hput with ⟨hrej, heq⟩ | ⟨_, heq, _⟩
    · exact ⟨⟨status, hrej, hf⟩, heq⟩
    · rw [heq] at hf
      exact absurd hf (not_failed_ok _)
  have hother : ∀ (r' : Region), (∀ c, r'.contents c → r.contents c) →
      (∀ d, r'.domains d → r.domains d) → (∀ e, r'.entries e → r.entries e) →
      ∀ e : Number640 × Data, ¬selected e.1 → ∀ m₀ status m₂,
        sl.putEntry publicKey putIfAbsent domainProtection sendSelf e.1 e.2 m₀ = .ok status m₂ →
        SameIn r' m₀ m₂ := by
    intro r' hc hd he e hs m₀ status m₂ hput
    have hsame := sl.sameIn_putEntry r' publicKey putIfAbsent domainProtection sendSelf e.1 e.2 m₀
      (fun h => (hout e.1 hs).1 (hc _ h)) (fun h => (hout e.1 hs).2.1 (hd _ h))
      (fun h => (hout e.1 hs).2.2 (he _ h))
    rw [after_ok _ _ _ _ hput] at hsame
    exact hsame
  -- First the values, which owners do not touch; they decide about forks and limits.
  have hvalues := sl.putLoop_sameIn publicKey putIfAbsent domainProtection sendSelf
    ⟨r.contents, fun _ => False, fun _ => False⟩ dataMap.entries dataMap.nodup_keys .empty retVal₁
    m m₁ hloop (by
      intro e he m₀ status m₂ _ hput hget _
      by_cases hs : selected e.1
      · rw [(hturned e he hs m₀ status m₂ hput hget).2]
        exact sl.sameIn_owned publicKey domainProtection sendSelf _ m₀ e.1 e.2
          (fun h => h.elim) (fun h => h.elim)
      · exact hother ⟨r.contents, fun _ => False, fun _ => False⟩ (fun _ h => h)
          (fun _ h => h.elim) (fun _ h => h.elim) e hs m₀ status m₂ hput)
  have hkept : ∀ e ∈ dataMap.entries, selected e.1 → ∀ m₀,
      sl.passState publicKey putIfAbsent domainProtection sendSelf e.1 dataMap.entries m =
        some m₀ → (∃ status, sl.rejection m₀ publicKey putIfAbsent domainProtection sendSelf e.1
          e.2 = some status ∧ Failed status) →
      ¬sl.NewDomainOwner publicKey domainProtection m₀ e.1 ∧
      ¬sl.NewEntryOwner publicKey domainProtection sendSelf m₀ e.1 e.2 ∧
      e.1 ∉ sl.outdated m₀ e.1.locationAndDomainAndContentKey := by
    intro e he hs m₀ hstate hrej
    have hfork : ¬ForkedHead m₀ e.1 := by
      rw [forkedHead_congr _ m m₀ e.1 (hvalues.2 e he m₀ hstate) (hin _ hs),
        ← forkedHead_congr _ m m₁ e.1 hvalues.1 (hin _ hs)]
      exact (hfailed e he hs).2
    have hleaves := hclean e he hs m₀ hstate
    refine ⟨?_, ?_, ?_⟩
    · exact fun h => hleaves ⟨hrej, hfork, .inl h⟩
    · exact fun h => hleaves ⟨hrej, hfork, .inr (.inl h)⟩
    · exact fun h => hleaves ⟨hrej, hfork, .inr (.inr h)⟩
  refine ⟨?_, ?_⟩
  · refine (sl.putLoop_sameIn publicKey putIfAbsent domainProtection sendSelf r dataMap.entries
      dataMap.nodup_keys .empty retVal₁ m m₁ hloop ?_).1
    intro e he m₀ status m₂ hstate hput hget _
    by_cases hs : selected e.1
    · rcases hturned e he hs m₀ status m₂ hput hget with ⟨hrej, heq⟩
      have hk := hkept e he hs m₀ hstate hrej
      rw [heq]
      exact sl.sameIn_owned publicKey domainProtection sendSelf r m₀ e.1 e.2 (fun _ => hk.1)
        (fun _ => hk.2.1)
    · exact hother r (fun _ h => h) (fun _ h => h) (fun _ h => h) e hs m₀ status m₂ hput
  · intro e he hs
    rcases sl.putLoop_pass publicKey putIfAbsent domainProtection sendSelf (fun _ _ => True)
      (fun _ => trivial) (fun _ _ _ _ _ => trivial) e.1 e.2 dataMap.entries dataMap.nodup_keys he
      (fun _ _ _ _ => trivial) .empty retVal₁ m m₁ hloop with
      ⟨m₀, status, m₂, hstate, _, hput, _, hget⟩
    have hk := hkept e he hs m₀ hstate (hturned e he hs m₀ status m₂ hput hget).1
    have h₀ := SameIn.versions _ _ _ (hvalues.2 e he m₀ hstate) _ (hin _ hs)
    have h₁ := SameIn.versions _ _ _ hvalues.1 _ (hin _ hs)
    rw [sl.outdated_congr m₀ m₁ _ (h₁.trans h₀.symm)]
    exact hk.2.2

/-- A key answered with a failure was answered so by the first loop, and is not
    among several heads. -/
theorem failed_in_loop (m₁ : StorageMemory) (retVal retVal₁ : NavMap Number640 PutStatus)
    (k : Number640)
    (hforked : ForkedHead m₁ k ∧ retVal₁.contains k = true → retVal.get k = some .VERSION_FORK)
    (hnot : ¬(ForkedHead m₁ k ∧ retVal₁.contains k = true) → retVal.get k = retVal₁.get k)
    (h : ∃ status, retVal.get k = some status ∧ Failed status) :
    (∃ status, retVal₁.get k = some status ∧ Failed status) ∧ ¬ForkedHead m₁ k := by
  rcases h with ⟨status, hget, hf⟩
  have hno : ¬(ForkedHead m₁ k ∧ retVal₁.contains k = true) := by
    intro hfork
    rw [hforked hfork, Option.some.injEq] at hget
    exact not_failed_fork (hget ▸ hf)
  rw [hnot hno] at hget
  refine ⟨⟨status, hget, hf⟩, fun hfork => hno ⟨hfork, ?_⟩⟩
  exact (contains_iff _ _).mpr ⟨status, hget⟩

/-- If no pass in the domain of the key leaves anything, the key is spared. -/
theorem spared_of_clean (m m' : StorageMemory) (retVal : NavMap Number640 PutStatus)
    (h : sl.putAll dataMap publicKey putIfAbsent domainProtection sendSelf m = .ok retVal m')
    (k : Number640) (newData : Data) (hk : dataMap.get k = some newData)
    (hclean : ∀ e ∈ dataMap.entries, e.1.locationAndDomainKey = k.locationAndDomainKey → ∀ m₀,
      sl.passState publicKey putIfAbsent domainProtection sendSelf e.1 dataMap.entries m =
        some m₀ → ¬sl.Leaves publicKey putIfAbsent domainProtection sendSelf m₀ e.1 e.2) :
    Spared dataMap m m' retVal k := by
  rcases sl.putAll_outcome dataMap publicKey putIfAbsent domainProtection sendSelf m m' retVal h with
    ⟨retVal₁, m₁, hloop, hdomains, hentries, hkeys⟩
  have hmem : (k, newData) ∈ dataMap.entries := (get_eq_some_iff _ _ _).mp hk
  have hkmem : k ∈ dataMap.keys := mem_map_of_mem hmem
  have hfailed : ∀ (selected : Number640 → Prop), AllFailed dataMap retVal selected →
      ∀ e ∈ dataMap.entries, selected e.1 →
        (∃ status, retVal₁.get e.1 = some status ∧ Failed status) ∧ ¬ForkedHead m₁ e.1 := by
    intro selected hall e he hs
    have he' := mem_map_of_mem (f := Prod.fst) he
    exact failed_in_loop m₁ retVal retVal₁ e.1 (hkeys e.1 he').1 (hkeys e.1 he').2.1
      (hall e.1 he' hs)
  intro status _ _
  refine ⟨?_, ?_⟩
  · intro hall
    have hregion := sl.failed_loop dataMap publicKey putIfAbsent domainProtection sendSelf
      (fun k' => k'.locationAndDomainAndContentKey = k.locationAndDomainAndContentKey)
      ⟨fun c => c = k.locationAndDomainAndContentKey, fun _ => False,
        fun e => e = k.locationAndDomainAndContentKey⟩
      (fun _ hs => hs) (fun _ hs => ⟨hs, not_false, hs⟩) m m₁ retVal₁ hloop (hfailed _ hall) (by
        intro e he hs
        refine hclean e he ?_
        exact congrArg Number480.locationAndDomainKey hs)
    have hnot : k ∉ sl.outdated m₁ k.locationAndDomainAndContentKey :=
      hregion.2 (k, newData) hmem rfl
    have hkept := (hkeys k hkmem).2.2.2 hnot
    refine ⟨hkept.1.trans (hregion.1.data k rfl), hkept.2.trans (hregion.1.timeout k rfl), ?_⟩
    rw [hentries]
    exact hregion.1.entryOwner _ rfl
  · intro hall
    have hregion := sl.failed_loop dataMap publicKey putIfAbsent domainProtection sendSelf
      (fun k' => k'.locationAndDomainKey = k.locationAndDomainKey)
      ⟨fun c => c.locationAndDomainKey = k.locationAndDomainKey,
        fun d => d = k.locationAndDomainKey, fun _ => False⟩
      (fun _ hs => hs) (fun _ hs => ⟨hs, hs, not_false⟩) m m₁ retVal₁ hloop (hfailed _ hall) hclean
    rw [hdomains]
    exact hregion.1.domainOwner _ rfl

-- A key that has its domain for itself

/-- Everything about a domain. -/
def wholeDomain (pair : Number320) : Region where
  contents c := c.locationAndDomainKey = pair
  domains d := d = pair
  entries e := e.locationAndDomainKey = pair

/-- What a pass does to its key depends on the domain of the key only. -/
theorem pass_congr (m m' : StorageMemory) (k : Number640) (newData : Data)
    (h : SameIn (wholeDomain k.locationAndDomainKey) m m') :
    sl.rejection m' publicKey putIfAbsent domainProtection sendSelf k newData =
        sl.rejection m publicKey putIfAbsent domainProtection sendSelf k newData ∧
      sl.domainRecord m' publicKey domainProtection k =
        sl.domainRecord m publicKey domainProtection k ∧
      sl.entryRecord m' publicKey domainProtection sendSelf k newData =
        sl.entryRecord m publicKey domainProtection sendSelf k newData := by
  have hdomain : sl.domainVerdict m' k.locationAndDomainKey publicKey publicKey domainProtection =
      sl.domainVerdict m k.locationAndDomainKey publicKey publicKey domainProtection := by
    unfold domainVerdict canClaimDomain isDomainProtectedByOthers
    rw [h.domainOwner k.locationAndDomainKey rfl]
  have hentry : sl.entryVerdict m' k.locationAndDomainAndContentKey publicKey
      (dataKey publicKey sendSelf newData) newData.isProtectedEntry =
      sl.entryVerdict m k.locationAndDomainAndContentKey publicKey
        (dataKey publicKey sendSelf newData) newData.isProtectedEntry := by
    unfold entryVerdict canClaimEntry isEntryProtectedByOthers
    rw [h.entryOwner k.locationAndDomainAndContentKey rfl]
  have hblocked : blockedBy m' putIfAbsent k newData = blockedBy m putIfAbsent k newData := by
    unfold blockedBy
    rw [h.data k rfl]
  unfold rejection domainRecord entryRecord
  rw [hdomain, hentry, hblocked]
  exact ⟨rfl, rfl, rfl⟩

theorem leaves_congr (m m' : StorageMemory) (k : Number640) (newData : Data)
    (h : SameIn (wholeDomain k.locationAndDomainKey) m m') :
    sl.Leaves publicKey putIfAbsent domainProtection sendSelf m' k newData ↔
      sl.Leaves publicKey putIfAbsent domainProtection sendSelf m k newData := by
  rcases sl.pass_congr publicKey putIfAbsent domainProtection sendSelf m m' k newData h with
    ⟨hrej, hdomain, hentry⟩
  unfold Leaves NewDomainOwner NewEntryOwner
  rw [hrej, hdomain, hentry, h.domainOwner k.locationAndDomainKey rfl,
    h.entryOwner k.locationAndDomainAndContentKey rfl, forkedHead_congr _ m m' k h rfl,
    sl.outdated_congr m m' _ (SameIn.versions _ m m' h k.locationAndDomainAndContentKey rfl)]

/-- A key that shares its domain with no other key of the call and whose pass
    leaves something is not spared. -/
theorem not_spared_of_leaves (m m' : StorageMemory) (retVal : NavMap Number640 PutStatus)
    (h : sl.putAll dataMap publicKey putIfAbsent domainProtection sendSelf m = .ok retVal m')
    (k : Number640) (newData : Data) (hk : dataMap.get k = some newData)
    (halone : ∀ k' ∈ dataMap.keys, k'.locationAndDomainKey = k.locationAndDomainKey → k' = k)
    (hleaves : sl.Leaves publicKey putIfAbsent domainProtection sendSelf m k newData) :
    ¬Spared dataMap m m' retVal k := by
  rcases sl.putAll_outcome dataMap publicKey putIfAbsent domainProtection sendSelf m m' retVal h with
    ⟨retVal₁, m₁, hloop, hdomains, hentries, hkeys⟩
  have hmem : (k, newData) ∈ dataMap.entries := (get_eq_some_iff _ _ _).mp hk
  rcases hkeys k (mem_map_of_mem hmem) with ⟨_, hnot, hgone, _⟩
  -- All other passes are for other domains.
  rcases sl.putLoop_pass publicKey putIfAbsent domainProtection sendSelf
    (SameIn (wholeDomain k.locationAndDomainKey)) (SameIn.refl _) (SameIn.trans _) k newData
    dataMap.entries dataMap.nodup_keys hmem (by
      intro e he hne m₀
      have haway : ¬e.1.locationAndDomainKey = k.locationAndDomainKey :=
        fun heq => hne (halone e.1 (mem_map_of_mem he) heq)
      exact sl.sameIn_putEntry _ publicKey putIfAbsent domainProtection sendSelf e.1 e.2 m₀ haway
        haway haway) .empty retVal₁ m m₁ hloop with
    ⟨m₀, status, m₂, _, hbefore, hput, hafter, hget⟩
  rcases sl.pass_congr publicKey putIfAbsent domainProtection sendSelf m m₀ k newData hbefore with
    ⟨hrej, hdomain, hentry⟩
  rcases hleaves with ⟨⟨failure, hfailure, hf⟩, hfork, hchange⟩
  rw [← hrej] at hfailure
  rw [sl.putEntry_rejection m₀ publicKey putIfAbsent domainProtection sendSelf k newData failure
    hfailure, EStateM.Result.ok.injEq] at hput
  rcases hput with ⟨rfl, rfl⟩
  -- Owners apart, the pass and the loop have left the domain as it was.
  have hvalues : SameIn ⟨fun c => c.locationAndDomainKey = k.locationAndDomainKey,
      fun _ => False, fun _ => False⟩ m m₁ := by
    have howned := sl.sameIn_owned publicKey domainProtection sendSelf
      ⟨fun c => c.locationAndDomainKey = k.locationAndDomainKey, fun _ => False, fun _ => False⟩ m₀
      k newData (fun hr => hr.elim) (fun hr => hr.elim)
    refine SameIn.trans _ _ _ _ ?_ (SameIn.trans _ _ _ _ howned ?_)
    · exact ⟨hbefore.data, hbefore.timeout, fun _ hr => hr.elim, fun _ hr => hr.elim⟩
    · exact ⟨hafter.data, hafter.timeout, fun _ hr => hr.elim, fun _ hr => hr.elim⟩
  have hstatus : retVal.get k = some failure := by
    refine (hnot ?_).trans hget
    exact fun hforked => hfork ((forkedHead_congr _ m m₁ k hvalues rfl).mp hforked.1)
  intro hspared
  have hall : ∀ selected : Number640 → Prop,
      (∀ k', selected k' → k'.locationAndDomainKey = k.locationAndDomainKey) →
        AllFailed dataMap retVal selected := by
    intro selected hsub k' hk' hs
    rw [halone k' hk' (hsub k' hs)]
    exact ⟨failure, hstatus, hf⟩
  have hsame := hspared failure hstatus hf
  have hcontent := hsame.1 (hall _ fun _ hs => congrArg Number480.locationAndDomainKey hs)
  have howner := hsame.2 (hall _ fun _ hs => hs)
  rcases hchange with ⟨owner, hrec, hne⟩ | ⟨owner, hrec, hne⟩ | hold
  · have hnew : m₁.protectedMap.get k.locationAndDomainKey = some owner := by
      rw [hafter.domainOwner _ rfl, owned, ownEntry_protectedMap, hdomain, hrec,
        ownDomain, get_put_self]
    rw [hdomains, hnew] at howner
    exact hne howner.symm
  · have hnew : m₁.entryMap.get k.locationAndDomainAndContentKey = some owner := by
      rw [hafter.entryOwner k.locationAndDomainAndContentKey rfl, owned, hentry, hrec,
        ownEntry,
        get_put_self]
    have hsameEntry := hcontent.2.2
    rw [hentries, hnew] at hsameEntry
    exact hne hsameEntry.symm
  · rcases sl.mem_versions_of_outdated m _ k hold with ⟨_, d, hd⟩
    rw [← sl.outdated_congr m m₁ _ (SameIn.versions _ m m₁ hvalues
      k.locationAndDomainAndContentKey rfl)] at hold
    have hnone := hcontent.1
    rw [(hgone hold).1, hd] at hnone
    cases hnone

/-- **Failed puts.** In every call that returns, for every key of it: if no pass
    in its domain leaves anything, a failure leaves everything attached to the
    key as it was. For a key that shares its domain with no other key of the call
    this is exact, and can be read off the state before the call. -/
theorem failed_put_untouched (m m' : StorageMemory) (retVal : NavMap Number640 PutStatus)
    (h : sl.putAll dataMap publicKey putIfAbsent domainProtection sendSelf m = .ok retVal m')
    (k : Number640) (newData : Data) (hk : dataMap.get k = some newData) :
    ((∀ e ∈ dataMap.entries, e.1.locationAndDomainKey = k.locationAndDomainKey → ∀ m₀,
      sl.passState publicKey putIfAbsent domainProtection sendSelf e.1 dataMap.entries m =
        some m₀ → ¬sl.Leaves publicKey putIfAbsent domainProtection sendSelf m₀ e.1 e.2) →
      Spared dataMap m m' retVal k) ∧
    ((∀ k' ∈ dataMap.keys, k'.locationAndDomainKey = k.locationAndDomainKey → k' = k) →
      (Spared dataMap m m' retVal k ↔
        ¬sl.Leaves publicKey putIfAbsent domainProtection sendSelf m k newData)) := by
  refine ⟨fun hclean => sl.spared_of_clean dataMap publicKey putIfAbsent domainProtection sendSelf
    m m' retVal h k newData hk hclean, fun halone => ⟨?_, ?_⟩⟩
  · intro hspared hleaves
    exact sl.not_spared_of_leaves dataMap publicKey putIfAbsent domainProtection sendSelf m m'
      retVal h k newData hk halone hleaves hspared
  · intro hleaves
    refine sl.spared_of_clean dataMap publicKey putIfAbsent domainProtection sendSelf m m' retVal h
      k newData hk ?_
    intro e he hpair m₀ hstate
    have hkey : e.1 = k := halone e.1 (mem_map_of_mem he) hpair
    have hdata : e.2 = newData := by
      have hget := (get_eq_some_iff dataMap e.1 e.2).mpr he
      rw [hkey, hk, Option.some.injEq] at hget
      exact hget.symm
    rw [hkey] at hstate ⊢
    rw [hdata]
    rcases sl.putAll_outcome dataMap publicKey putIfAbsent domainProtection sendSelf m m' retVal h
      with ⟨retVal₁, m₁, hloop, _⟩
    rcases sl.putLoop_pass publicKey putIfAbsent domainProtection sendSelf
      (SameIn (wholeDomain k.locationAndDomainKey)) (SameIn.refl _) (SameIn.trans _) k newData
      dataMap.entries dataMap.nodup_keys ((get_eq_some_iff _ _ _).mp hk) (by
        intro e' he' hne m₀
        have haway : ¬e'.1.locationAndDomainKey = k.locationAndDomainKey :=
          fun heq => hne (halone e'.1 (mem_map_of_mem he') heq)
        exact sl.sameIn_putEntry _ publicKey putIfAbsent domainProtection sendSelf e'.1 e'.2 m₀
          haway haway haway) .empty retVal₁ m m₁ hloop with ⟨m₂, _, _, hstate₂, hbefore, _⟩
    rw [hstate₂, Option.some.injEq] at hstate
    rw [← hstate, sl.leaves_congr publicKey putIfAbsent domainProtection sendSelf m m₂ k newData
      hbefore]
    exact hleaves

end Call

/-- A put that the domain refuses leaves everything as it was. -/
theorem failed_put_untouched_domain :
    let K := PublicKey.encoded [1#8]
    let key : Number640 := ⟨1, 2, 3, 4⟩
    let m := after ((StorageOp.put key (Data.new [7#8] 1000) (some K) false true false).run
      {}) {}
    let dataMap := NavMap.empty.put key (Data.new [8#8] 1000)
    ∃ retVal m', putAll {} dataMap (some (.encoded [2#8])) false true false m = .ok retVal m' ∧
      retVal.get key = some .FAILED_SECURITY ∧ Spared dataMap m m' retVal key := by
  intro K key m dataMap
  have hok : (match putAll {} dataMap (some (.encoded [2#8])) false true false m with
      | .ok retVal _ => retVal.get key | .error _ _ => none) = some .FAILED_SECURITY := by
    decide +kernel
  have hdomain : domainRecord {} m (some (.encoded [2#8])) true key = none := by decide +kernel
  have hentry : entryRecord {} m (some (.encoded [2#8])) true false key (Data.new [8#8] 1000) =
      none := by decide +kernel
  have hold : outdated {} m key.locationAndDomainAndContentKey = [] :=
    outdated_of_no_limit {} m _ (by decide)
  rcases hcall : putAll {} dataMap (some (.encoded [2#8])) false true false m with
    ⟨retVal, m'⟩ | ⟨e, m'⟩
  · rw [hcall] at hok
    have h := failed_put_untouched {} dataMap (some (.encoded [2#8])) false true false m m' retVal
      hcall key (Data.new [8#8] 1000) rfl
    refine ⟨retVal, m', rfl, hok, (h.2 fun k' hk' _ => mem_singleton.mp hk').mpr ?_⟩
    rintro ⟨_, _, ⟨owner, hrec, _⟩ | ⟨owner, hrec, _⟩ | hin⟩
    · rw [hdomain] at hrec
      cases hrec
    · rw [hentry] at hrec
      cases hrec
    · rw [hold] at hin
      exact absurd hin not_mem_nil
  · rw [hcall] at hok
    cases hok

/-- A put that claims the domain and is then turned down by the entry takes the
    domain all the same. -/
theorem failed_put_takes_domain :
    let K := PublicKey.encoded [1#8]
    let key : Number640 := ⟨1, 2, 3, 4⟩
    let first := { Data.new [7#8] 1000 with protectedEntry := true, publicKey := some K }
    let m := after ((StorageOp.put key first (some K) false false false).run {}) {}
    let dataMap := NavMap.empty.put key (Data.new [8#8] 1000)
    ∃ retVal m', putAll {} dataMap (some (.encoded [2#8])) false true false m = .ok retVal m' ∧
      retVal.get key = some .FAILED_SECURITY ∧ m.protectedMap.get ⟨1, 2⟩ = none ∧
      m'.protectedMap.get ⟨1, 2⟩ = some (.encoded [2#8]) ∧ ¬Spared dataMap m m' retVal key := by
  intro K key first m dataMap
  have hok : (match putAll {} dataMap (some (.encoded [2#8])) false true false m with
      | .ok retVal m' => (retVal.get key, m'.protectedMap.get ⟨1, 2⟩)
      | .error _ _ => (none, none)) = (some .FAILED_SECURITY, some (.encoded [2#8])) := by
    decide +kernel
  have hnone : m.protectedMap.get ⟨1, 2⟩ = none := by decide +kernel
  rcases hcall : putAll {} dataMap (some (.encoded [2#8])) false true false m with
    ⟨retVal, m'⟩ | ⟨e, m'⟩
  · rw [hcall, Prod.mk.injEq] at hok
    refine ⟨retVal, m', rfl, hok.1, hnone, hok.2, fun hspared => ?_⟩
    have hsame := (hspared _ hok.1 (.inl rfl)).2 fun k' hk' _ => by
      rw [mem_singleton.mp hk']
      exact ⟨_, hok.1, .inl rfl⟩
    have howner : m'.protectedMap.get ⟨1, 2⟩ = m.protectedMap.get ⟨1, 2⟩ := hsame
    rw [hok.2, hnone] at howner
    cases howner
  · rw [hcall, Prod.mk.injEq] at hok
    exact nomatch hok.1

end StorageLayer

end TomP2P
