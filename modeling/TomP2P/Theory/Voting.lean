import TomP2P.Core.VotingScheme
import Mathlib.Data.List.Perm.Basic
import Mathlib.Data.List.Count
import Mathlib.Data.List.Forall2

/-!
# What the Majority Has Answered

When the result of the voting scheme is what at least half of the peers have answered,
in whatever order the answers are visited.

The loops over the peers and over their answers make one list of votes (`ballots`),
and a different order of visiting is a permutation of it (`Visits`). Keys are counted
under themselves, so that a key is in the result exactly if the majority has it.

Values are counted under a tag that several keys can share, for instance the versions
of one entry with the same value. A value is in the result if the votes for its tag
have reached the majority when it is visited. Therefore the result is right in every
order exactly if a tag has the majority only when each of the values that share it has
it (`Separate`), and if no key has two values with half of the votes each (`Undivided`).

## Main definitions

* `Answers.ballots`, `Answers.Visits`: The votes, and other orders of visiting them.
* `Answers.holders`, `Answers.votes`, `Answers.tally`: Votes for a key, for a value and
  for a tag.
* `Answers.Elects1`, `Answers.Elects2`: The results are those of the majority.
* `Answers.Separate`, `Answers.Undivided`: When values are counted right.

## Theorems

* `VotingScheme.mem_foldl_voteKey`: The keys that are in the result.
* `VotingScheme.counter_foldl_voteData`: What the counter holds.
* `VotingScheme.foldl_voteData_sound`, `VotingScheme.foldl_voteData_complete`: What can
  be in the result, and what has to be.
* `VotingScheme.evaluates_majority_iff`: When the results are those of the majority.
-/

namespace TomP2P

open HashedMap

namespace Answers

variable {P V : Type}

/-- All votes, in the order in which they are visited. -/
def ballots (raw : Answers P V) : List (Number640 × V) := raw.entries.flatMap (·.2.entries)

/-- The same answers of the same peers, in another order. -/
def Visits (raw' raw : Answers P V) : Prop :=
  ∃ answers, answers.Perm raw.entries ∧
    List.Forall₂ (fun a b => a.1 = b.1 ∧ a.2.entries.Perm b.2.entries) raw'.entries answers

/-- How many peers have answered with a key. -/
def holders (raw : Answers P V) (k : Number640) : Nat := raw.entries.countP fun answer => answer.2.contains k

/-- How many peers have answered with a key and a value of this hash. -/
def votes (raw : Answers P Data) (k : Number640) (h : Number160) : Nat :=
  raw.entries.countP fun answer => (answer.2.get k).any fun d => d.hash = h

/-- How many values were answered that are counted together. -/
def tally (raw : Answers P Data) (tag : Number160) : Nat :=
  raw.ballots.countP fun entry => VotingScheme.tag entry.1 entry.2 = tag

/-- The keys of the result are those that at least half of the peers have, whatever
    the order. -/
def Elects1 (evaluate : Option (Answers P V) → HashedSet Number640) (raw : Answers P V) : Prop :=
  ∀ raw' : Answers P V, raw'.Visits raw →
    ∀ k, k ∈ (evaluate (some raw')).elems ↔ VotingScheme.majority raw.size ≤ raw.holders k

/-- The values of the result are those that at least half of the peers have, whatever
    the order. -/
def Elects2 (raw : Answers P Data) : Prop :=
  ∀ raw' : Answers P Data, raw'.Visits raw → ∃ result, VotingScheme.evaluate2 (some raw') = .ok result ∧
    ∀ k h, (∃ d, result.get k = some d ∧ d.hash = h) ↔ VotingScheme.majority raw.size ≤ raw.votes k h

/-- If the values that are counted together have a majority, then so has each of them. -/
def Separate (raw : Answers P Data) : Prop :=
  ∀ k d, (k, d) ∈ raw.ballots → VotingScheme.majority raw.size ≤ raw.tally (VotingScheme.tag k d) →
    VotingScheme.majority raw.size ≤ raw.votes k d.hash

/-- No key has different values with at least half of the votes each. -/
def Undivided (raw : Answers P Data) : Prop :=
  ∀ k h h', VotingScheme.majority raw.size ≤ raw.votes k h →
    VotingScheme.majority raw.size ≤ raw.votes k h' → h = h'

/-! ### Votes and ballots -/

theorem countP_eq_find {entries : List (Number640 × V)} (nodup : (entries.map Prod.fst).Nodup) (k : Number640)
    (p : V → Bool) : entries.countP (fun e => e.1 = k && p e.2) =
      if ((entries.find? fun e => e.1 = k).map Prod.snd).any p then 1 else 0 := by
  induction entries with
  | nil => rfl
  | cons e entries ih =>
      rw [List.map_cons, List.nodup_cons] at nodup
      rw [List.countP_cons, List.find?_cons]
      by_cases hk : e.1 = k
      · -- The key does not occur again.
        have hzero : entries.countP (fun e => e.1 = k && p e.2) = 0 := by
          rw [List.countP_eq_zero]
          intro e' he' htrue
          simp only [Bool.and_eq_true, decide_eq_true_eq] at htrue
          exact nodup.1 (hk ▸ htrue.1 ▸ List.mem_map_of_mem he')
        rw [hzero]
        simp [hk]
      · rw [ih nodup.2]
        simp [hk]

/-- A peer has one answer for a key, so that it is counted at most once. -/
theorem countP_entries (answer : HashedMap Number640 V) (k : Number640) (p : V → Bool) :
    answer.entries.countP (fun e => e.1 = k && p e.2) = if (answer.get k).any p then 1 else 0 :=
  countP_eq_find answer.nodup k p

theorem countP_flatMap (answers : List (P × HashedMap Number640 V)) (k : Number640) (p : V → Bool) :
    (answers.flatMap (·.2.entries)).countP (fun e => e.1 = k && p e.2) =
      answers.countP fun answer => (answer.2.get k).any p := by
  induction answers with
  | nil => rfl
  | cons answer answers ih =>
      rw [List.flatMap_cons, List.countP_append, List.countP_cons, ih, countP_entries, Nat.add_comm]

theorem votes_eq (raw : Answers P Data) (k : Number640) (h : Number160) :
    raw.votes k h = raw.ballots.countP fun e => e.1 = k && decide (e.2.hash = h) :=
  (countP_flatMap raw.entries k fun d => decide (d.hash = h)).symm

theorem holders_eq (raw : Answers P V) (k : Number640) : raw.holders k = (raw.ballots.map Prod.fst).count k := by
  have hall := countP_flatMap raw.entries k fun _ => true
  have hany : (fun answer : P × HashedMap Number640 V => (answer.2.get k).any fun _ => true) =
      fun answer => answer.2.contains k := by
    funext answer
    rw [HashedMap.contains]
    cases answer.2.get k <;> rfl
  rw [hany] at hall
  rw [holders, ← hall, ballots, List.count, List.countP_map]
  congr 1
  funext e
  simp [Function.comp, beq_eq_decide]

/-! ### Orders of visiting -/

theorem perm_flatMap {as bs : List (P × HashedMap Number640 V)}
    (h : List.Forall₂ (fun a b => a.1 = b.1 ∧ a.2.entries.Perm b.2.entries) as bs) :
    (as.flatMap (·.2.entries)).Perm (bs.flatMap (·.2.entries)) := by
  induction h with
  | nil => exact .refl _
  | cons hab _ ih =>
      rw [List.flatMap_cons, List.flatMap_cons]
      exact hab.2.append ih

theorem Visits.ballots {raw' raw : Answers P V} (h : raw'.Visits raw) : raw'.ballots.Perm raw.ballots := by
  obtain ⟨answers, hperm, hforall⟩ := h
  exact (perm_flatMap hforall).trans (hperm.flatMap_right _)

theorem Visits.size {raw' raw : Answers P V} (h : raw'.Visits raw) : raw'.size = raw.size := by
  obtain ⟨answers, hperm, hforall⟩ := h
  rw [HashedMap.size, hforall.length_eq, hperm.length_eq, HashedMap.size]

theorem perm_moveLast {α : Type} (x : α) (xs ys : List α) : (xs ++ ys ++ [x]).Perm (xs ++ x :: ys) :=
  (List.perm_append_singleton x (xs ++ ys)).trans List.perm_middle.symm

/-- Every vote can be the last one. -/
theorem exists_visits_last {raw : Answers P V} {e : Number640 × V} (h : e ∈ raw.ballots) :
    ∃ raw' : Answers P V, raw'.Visits raw ∧ ∃ es, raw'.ballots = es ++ [e] := by
  obtain ⟨answer, hanswer, he⟩ := List.mem_flatMap.mp h
  obtain ⟨xs, ys, hraw⟩ := List.append_of_mem hanswer
  obtain ⟨as, bs, hentries⟩ := List.append_of_mem he
  have hinner : (as ++ bs ++ [e]).Perm answer.2.entries := hentries ▸ perm_moveLast e as bs
  have houter : (xs ++ ys ++ [answer]).Perm raw.entries := hraw ▸ perm_moveLast answer xs ys
  let moved : HashedMap Number640 V := ⟨as ++ bs ++ [e], (hinner.map Prod.fst).nodup_iff.mpr answer.2.nodup⟩
  have hkeys : (xs ++ ys ++ [(answer.1, moved)]).map Prod.fst = (xs ++ ys ++ [answer]).map Prod.fst := by simp
  refine ⟨⟨xs ++ ys ++ [(answer.1, moved)], ?_⟩, ⟨_, houter, ?_⟩, ?_⟩
  · rw [hkeys]
    exact (houter.map Prod.fst).nodup_iff.mpr raw.nodup
  · refine List.rel_append (List.forall₂_same.mpr fun _ _ => ⟨rfl, .refl _⟩) ?_
    exact .cons ⟨rfl, hinner⟩ .nil
  · refine ⟨(xs ++ ys).flatMap (·.2.entries) ++ (as ++ bs), ?_⟩
    rw [ballots, List.flatMap_append, List.flatMap_singleton, List.append_assoc _ (as ++ bs)]

theorem Visits.refl (raw : Answers P V) : raw.Visits raw :=
  ⟨raw.entries, .refl _, List.forall₂_same.mpr fun _ _ => ⟨rfl, .refl _⟩⟩

end Answers

namespace VotingScheme

variable {P V : Type}

theorem majority_pos {n : Nat} (h : n ≠ 0) : 0 < majority n := by
  unfold majority
  omega

theorem increment_eq {K : Type} [DecidableEq K] (counter : HashedMap K Nat) (key : K) :
    increment counter key = (counter.get key).getD 0 + 1 := by
  unfold increment
  cases counter.get key <;> simp

/-! ### Keys -/

/-- The loops go over the votes one by one. -/
theorem evaluateKeys_eq (raw : Answers P V) :
    evaluateKeys (some raw) = ((raw.ballots.map Prod.fst).foldl (voteKey (majority raw.size)) (.empty, .empty)).2 := by
  rw [evaluateKeys, Answers.ballots, List.foldl_map, List.foldl_flatMap]

theorem counter_foldl_voteKey (m : Nat) (ks : List Number640) (k : Number640) :
    ((ks.foldl (voteKey m) (.empty, .empty)).1.get k).getD 0 = ks.count k := by
  induction ks using List.reverseRecOn with
  | nil => rfl
  | append_singleton ks key ih =>
      rw [List.foldl_append, List.foldl_cons, List.foldl_nil, voteKey, get_put, List.count_append]
      by_cases hk : k = key
      · rw [if_pos hk, Option.getD_some, increment_eq, ← hk, ih, List.count_singleton_self]
      · rw [if_neg hk, ih, List.count_singleton, beq_false_of_ne (Ne.symm hk)]
        rfl

theorem mem_foldl_voteKey {m : Nat} (hm : 0 < m) (ks : List Number640) (k : Number640) :
    k ∈ (ks.foldl (voteKey m) (.empty, .empty)).2.elems ↔ m ≤ ks.count k := by
  induction ks using List.reverseRecOn with
  | nil =>
      rw [List.count_nil]
      exact ⟨fun h => absurd h List.not_mem_nil, fun h => absurd h (by omega)⟩
  | append_singleton ks key ih =>
      have hcount := counter_foldl_voteKey m ks key
      rw [List.foldl_append, List.foldl_cons, List.foldl_nil, voteKey, increment_eq, hcount, List.count_append]
      by_cases hk : k = key
      · -- The count of the key goes up, so that it stays in the result once it is there.
        rw [hk, List.count_singleton_self]
        rw [hk] at ih
        by_cases hc : m ≤ ks.count key + 1
        · rw [if_pos hc, HashedSet.mem_add]
          exact ⟨fun _ => hc, fun _ => .inl rfl⟩
        · rw [if_neg hc, ih]
          omega
      · have hzero : [key].count k = 0 := List.count_eq_zero.mpr (by simpa using hk)
        rw [hzero, Nat.add_zero (ks.count k), ← ih]
        by_cases hc : m ≤ ks.count key + 1
        · rw [if_pos hc, HashedSet.mem_add]
          exact ⟨fun h => h.resolve_left hk, .inr⟩
        · rw [if_neg hc]

theorem evaluateKeys_elects_iff (raw : Answers P V) :
    raw.Elects1 evaluateKeys ↔ raw.size ≠ 0 := by
  constructor
  · intro h hzero
    -- Without answers nobody has to have a key, but none is in the result.
    have hmem := (h raw (.refl raw) default).mpr (by rw [hzero]; exact Nat.zero_le _)
    rw [evaluateKeys_eq, Answers.ballots, List.length_eq_zero_iff.mp hzero] at hmem
    exact absurd hmem List.not_mem_nil
  · intro hsize raw' hvisits k
    rw [evaluateKeys_eq, hvisits.size, mem_foldl_voteKey (majority_pos hsize), Answers.holders_eq,
      (hvisits.ballots.map Prod.fst).count_eq]

/-! ### Values -/

/-- The loops go over the votes one by one. -/
theorem evaluate2_eq (raw : Answers P Data) :
    evaluate2 (some raw) = .ok (raw.ballots.foldl (voteData (majority raw.size)) (.empty, .empty)).2 := by
  rw [evaluate2, Answers.ballots, List.foldl_flatMap]

theorem counter_foldl_voteData (m : Nat) (es : List (Number640 × Data)) (t : Number160) :
    ((es.foldl (voteData m) (.empty, .empty)).1.get t).getD 0 = es.countP fun e => tag e.1 e.2 = t := by
  induction es using List.reverseRecOn with
  | nil => rfl
  | append_singleton es e ih =>
      rw [List.foldl_append, List.foldl_cons, List.foldl_nil, voteData, get_put, List.countP_append,
        List.countP_singleton]
      by_cases ht : t = tag e.1 e.2
      · rw [if_pos ht, Option.getD_some, increment_eq, ← ht, ih]
        simp
      · rw [if_neg ht, ih]
        simp [Ne.symm ht]

/-- The last vote is in the result if its tag has a majority. Otherwise the result
    stays as it was. -/
theorem foldl_voteData_concat (m : Nat) (es : List (Number640 × Data)) (e : Number640 × Data) :
    ((es ++ [e]).foldl (voteData m) (.empty, .empty)).2 =
      if m ≤ (es ++ [e]).countP (fun e' => tag e'.1 e'.2 = tag e.1 e.2) then
        (es.foldl (voteData m) (.empty, .empty)).2.put e.1 e.2
      else (es.foldl (voteData m) (.empty, .empty)).2 := by
  have hcount := counter_foldl_voteData m es (tag e.1 e.2)
  rw [List.foldl_append, List.foldl_cons, List.foldl_nil, voteData, increment_eq, hcount, List.countP_append,
    List.countP_singleton, decide_eq_true rfl]
  rfl

/-- What is in the result was answered, and its tag has a majority. -/
theorem foldl_voteData_sound {m : Nat} {es : List (Number640 × Data)} {k : Number640} {d : Data}
    (h : (es.foldl (voteData m) (.empty, .empty)).2.get k = some d) :
    (k, d) ∈ es ∧ m ≤ es.countP fun e => tag e.1 e.2 = tag k d := by
  induction es using List.reverseRecOn with
  | nil => exact absurd h (by simp [HashedMap.get, HashedMap.empty])
  | append_singleton es e ih =>
      -- The votes for a tag only become more.
      have hlater : (es.foldl (voteData m) (.empty, .empty)).2.get k = some d →
          (k, d) ∈ es ++ [e] ∧ m ≤ (es ++ [e]).countP fun e => tag e.1 e.2 = tag k d := by
        intro h
        obtain ⟨hmem, hle⟩ := ih h
        refine ⟨List.mem_append_left _ hmem, ?_⟩
        rw [List.countP_append]
        omega
      rw [foldl_voteData_concat] at h
      by_cases hc : m ≤ (es ++ [e]).countP fun e' => tag e'.1 e'.2 = tag e.1 e.2
      · rw [if_pos hc, get_put] at h
        by_cases hk : k = e.1
        · rw [if_pos hk] at h
          have he : e = (k, d) := Prod.ext hk.symm (Option.some.inj h)
          rw [he] at hc ⊢
          exact ⟨by simp, hc⟩
        · rw [if_neg hk] at h
          exact hlater h
      · rw [if_neg hc] at h
        exact hlater h

/-- A value with a majority of its own is put into the result, and then its key stays
    there. -/
theorem foldl_voteData_complete {m : Nat} (hm : 0 < m) {es : List (Number640 × Data)} {k : Number640}
    {h : Number160} (hvotes : m ≤ es.countP fun e => e.1 = k && decide (e.2.hash = h)) :
    ∃ d, (es.foldl (voteData m) (.empty, .empty)).2.get k = some d := by
  induction es using List.reverseRecOn with
  | nil =>
      rw [List.countP_nil] at hvotes
      omega
  | append_singleton es e ih =>
      rw [foldl_voteData_concat]
      by_cases he : (e.1 = k && decide (e.2.hash = h)) = true
      · -- The votes for the value are some of those for its tag.
        have hkey : e.1 = k ∧ e.2.hash = h := by simpa using he
        have hle : (es ++ [e]).countP (fun e => e.1 = k && decide (e.2.hash = h)) ≤
            (es ++ [e]).countP fun e' => tag e'.1 e'.2 = tag e.1 e.2 := by
          refine List.countP_mono_left ?_
          intro e' _ he'
          have hkey' : e'.1 = k ∧ e'.2.hash = h := by simpa using he'
          rw [decide_eq_true_eq, tag, tag, hkey.1, hkey.2, hkey'.1, hkey'.2]
        rw [if_pos (hvotes.trans hle), get_put, if_pos hkey.1.symm]
        exact ⟨e.2, rfl⟩
      · rw [List.countP_append, List.countP_singleton, if_neg he] at hvotes
        obtain ⟨d, hd⟩ := ih hvotes
        split
        · rw [get_put]
          split
          · exact ⟨e.2, rfl⟩
          · exact ⟨d, hd⟩
        · exact ⟨d, hd⟩

/-- The values of the result are those of the majority, if no tag has a majority that
    is not one of its values, and no key has two of them. -/
theorem elects2_of_separate {raw : Answers P Data} (hne : raw.size ≠ 0) (hseparate : raw.Separate)
    (hundivided : raw.Undivided) : raw.Elects2 := by
  intro raw' hvisits
  refine ⟨_, evaluate2_eq raw', ?_⟩
  rw [hvisits.size]
  -- What is in the result has a majority.
  have hsound : ∀ k d, (raw'.ballots.foldl (voteData (majority raw.size)) (.empty, .empty)).2.get k = some d →
      majority raw.size ≤ raw.votes k d.hash := by
    intro k d hd
    obtain ⟨hmem, hle⟩ := foldl_voteData_sound hd
    rw [hvisits.ballots.countP_eq] at hle
    exact hseparate k d (hvisits.ballots.mem_iff.mp hmem) hle
  intro k h
  constructor
  · rintro ⟨d, hd, rfl⟩
    exact hsound k d hd
  · intro hvotes
    have hvotes' := hvotes
    rw [Answers.votes_eq, ← hvisits.ballots.countP_eq] at hvotes'
    obtain ⟨d, hd⟩ := foldl_voteData_complete (majority_pos hne) hvotes'
    exact ⟨d, hd, hundivided k d.hash h (hsound k d hd) hvotes⟩

/-- If a tag has a majority but one of its values has not, then that value is in the
    result when it is visited last. -/
theorem separate_of_elects2 {raw : Answers P Data} (h : raw.Elects2) : raw.Separate := by
  intro k d hmem hle
  obtain ⟨raw', hvisits, es, hballots⟩ := Answers.exists_visits_last hmem
  obtain ⟨result, hresult, hiff⟩ := h raw' hvisits
  refine (hiff k d.hash).mp ⟨d, ?_, rfl⟩
  rw [Answers.tally] at hle
  rw [evaluate2_eq, hballots, hvisits.size, foldl_voteData_concat, ← hballots, hvisits.ballots.countP_eq,
    if_pos hle] at hresult
  rw [← Except.ok.inj hresult, get_put, if_pos rfl]

theorem undivided_of_elects2 {raw : Answers P Data} (h : raw.Elects2) : raw.Undivided := by
  intro k h₁ h₂ hle₁ hle₂
  obtain ⟨result, _, hiff⟩ := h raw (.refl raw)
  obtain ⟨d₁, hd₁, rfl⟩ := (hiff k h₁).mpr hle₁
  obtain ⟨d₂, hd₂, rfl⟩ := (hiff k h₂).mpr hle₂
  rw [Option.some.inj (hd₁.symm.trans hd₂)]

theorem size_ne_zero_of_elects2 {raw : Answers P Data} (h : raw.Elects2) : raw.size ≠ 0 := by
  intro hzero
  obtain ⟨result, hresult, hiff⟩ := h raw (.refl raw)
  have hnil : raw.ballots = [] := by rw [Answers.ballots, List.length_eq_zero_iff.mp hzero, List.flatMap_nil]
  rw [evaluate2_eq, hnil] at hresult
  obtain ⟨d, hd, _⟩ := (hiff default default).mpr (by rw [hzero]; exact Nat.zero_le _)
  rw [← Except.ok.inj hresult] at hd
  exact absurd hd (by simp [HashedMap.get, HashedMap.empty])

/-- The results are what at least half of the peers have answered, in every order of
    visiting the answers, exactly if there are answers, the values that are counted
    together have a majority only if each of them has one, and no key has two. -/
theorem evaluates_majority_iff (rawKeysByte : Answers P Number160) (rawKeys480 : Answers P UInt8)
    (rawData : Answers P Data) :
    (rawKeysByte.Elects1 evaluate1 ∧ rawKeys480.Elects1 evaluate6 ∧ rawData.Elects2) ↔
      rawKeysByte.size ≠ 0 ∧ rawKeys480.size ≠ 0 ∧ rawData.size ≠ 0 ∧ rawData.Separate ∧ rawData.Undivided := by
  refine and_congr (evaluateKeys_elects_iff rawKeysByte) (and_congr (evaluateKeys_elects_iff rawKeys480) ?_)
  constructor
  · intro h
    exact ⟨size_ne_zero_of_elects2 h, separate_of_elects2 h, undivided_of_elects2 h⟩
  · rintro ⟨hne, hseparate, hundivided⟩
    exact elects2_of_separate hne hseparate hundivided

/-- Two versions with the same value are counted together: the second one has one vote
    of three, and is in the result all the same. -/
theorem not_elects_two_versions :
    ∃ (d : Data) (v₁ v₂ : Number640) (rawData : Answers (Fin 3) Data), v₁ ≠ v₂ ∧
      rawData.entries.map (fun answer => (answer.1, answer.2.entries)) = [(0, [(v₁, d), (v₂, d)]), (1, []), (2, [])] ∧
      ¬ rawData.Elects2 := by
  let d : Data := Data.new [] 0
  let v₁ : Number640 := ⟨default, default, default, Number160.ZERO⟩
  let v₂ : Number640 := ⟨default, default, default, Number160.MAX_VALUE⟩
  have hne : v₁ ≠ v₂ := by decide
  let rawData : Answers (Fin 3) Data :=
    ⟨[(0, ⟨[(v₁, d), (v₂, d)], by simpa using hne⟩), (1, .empty), (2, .empty)], by simp⟩
  refine ⟨d, v₁, v₂, rawData, hne, rfl, ?_⟩
  intro h
  have htag : tag v₁ d = tag v₂ d := rfl
  have hballots : rawData.ballots = [(v₁, d), (v₂, d)] := rfl
  have hle : majority rawData.size ≤ rawData.tally (tag v₂ d) := by
    rw [Answers.tally, hballots]
    simp [htag, majority, HashedMap.size, rawData]
  have hvotes := separate_of_elects2 h v₂ d (by simp [hballots]) hle
  rw [Answers.votes_eq, hballots] at hvotes
  simp [hne, majority, HashedMap.size, rawData] at hvotes

end VotingScheme

end TomP2P
