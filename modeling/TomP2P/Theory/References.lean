import TomP2P.Core.Message

/-!
# References to Contents

A reference says which element of its list a content is. There are two ways to
it: `Message.contentType` counts, for each content that is added, the contents
of its list in the types entered so far, and `Message.restoreContentReferences`
goes through the types once, with a counter for each. `referencesFrom` is what
both compute.

The two types of public keys share a list but not a counter. The running
counters agree with the count all the same, because a signature comes first or
not at all: when the first plain key is met the list has at most one key in it.

## Main definitions

* `Content.sameList`: Whether contents of two types stand in one list.
* `referencesFrom`: The references to contents of given types.
* `Message.Blank`: A message without contents.
* `Message.Holds`: A message with contents of given types.
* `Message.withoutReferences`: A message as it is received.

## Theorems

* `Message.Holds.setAll`: What the setters leave.
* `Message.restoreLoop_eq`: What is restored from the types.
* `Message.restored_references`: The same references both ways, each to the
  content it was made for.
-/

namespace TomP2P

open List

namespace Content

/-- Whether contents of two types stand in one list. -/
def sameList (a b : Content) : Bool := a == b || (a.isKey && b.isKey)

theorem sameList_self (c : Content) : sameList c c = true := by
  simp [sameList]

/-- Types that are not of keys share their list with none. -/
theorem sameList_eq (a b : Content) (h : a.isKey = false) : sameList a b = (a == b) := by
  simp [sameList, h]

/-- The types of keys share their list with each other. -/
theorem sameList_key (a b : Content) (h : a.isKey = true) : sameList a b = b.isKey := by
  cases a <;> cases b <;> first | rfl | cases h

theorem isKey_cases {c : Content} (h : c.isKey = true) : c = .PUBLIC_KEY_SIGNATURE ∨ c = .PUBLIC_KEY := by
  rw [isKey, Bool.or_eq_true, beq_iff_eq, beq_iff_eq] at h
  exact h

end Content

open Content

/-- The references to contents of these types behind contents of other types. -/
def referencesFrom (before : List Content) : List Content → List MessageContentIndex
  | [] => []
  | c :: cs => ⟨before.countP (sameList c), c⟩ :: referencesFrom (before ++ [c]) cs

theorem referencesFrom_concat (before cs : List Content) (c : Content) :
    referencesFrom before (cs ++ [c]) =
      referencesFrom before cs ++ [⟨(before ++ cs).countP (sameList c), c⟩] := by
  induction cs generalizing before with
  | nil => rw [nil_append, referencesFrom, referencesFrom, referencesFrom, append_nil,
      nil_append]
  | cons d cs ih =>
      rw [cons_append, referencesFrom, referencesFrom, ih, append_assoc,
        singleton_append, cons_append]

theorem length_referencesFrom (before cs : List Content) :
    (referencesFrom before cs).length = cs.length := by
  induction cs generalizing before with
  | nil => rfl
  | cons c cs ih => rw [referencesFrom, length_cons, length_cons, ih]

theorem getElem?_referencesFrom (before cs : List Content) (n : Nat) (c : Content)
    (h : cs[n]? = some c) :
    (referencesFrom before cs)[n]? = some ⟨(before ++ cs.take n).countP (sameList c), c⟩ := by
  induction cs generalizing before n with
  | nil => simp at h
  | cons d cs ih =>
      cases n with
      | zero =>
          rw [getElem?_cons_zero, Option.some.injEq] at h
          rw [referencesFrom, getElem?_cons_zero, take_zero, append_nil, h]
      | succ n =>
          rw [getElem?_cons_succ] at h
          rw [referencesFrom, getElem?_cons_succ, ih _ n h, take_succ_cons,
            append_assoc, singleton_append]

/-! ### Adding contents -/

namespace Message

/-- The types that are entered, and the free places behind them. -/
def entered (cs : List Content) : List (Option Content) :=
  cs.map some ++ List.replicate (CONTENT_TYPE_LENGTH - cs.length) none

/-- A type entered is counted if it shares the list of the new one. -/
theorem contentTypeLoop_reference (c d : Content) (cs : List Content) (reference : Nat) :
    (if d = c then reference + 1
      else if d.isKey && c.isKey then reference + 1 else reference) + cs.countP (sameList c) =
        reference + (d :: cs).countP (sameList c) := by
  rw [countP_cons, sameList, Bool.and_comm d.isKey]
  by_cases hd : d = c
  · simp only [hd, beq_self_eq_true, Bool.true_or, if_true]
    omega
  · have hne : (c == d) = false := beq_eq_false_iff_ne.mpr (Ne.symm hd)
    rw [if_neg hd, hne, Bool.false_or]
    split <;> omega

/-- The types are full, or a signature is not the first, or the new type takes
    the first free place and is referred to by the count of its list. -/
theorem contentTypeLoop_entered (c : Content) (cs : List Content) (k i reference : Nat) :
    contentTypeLoop c (cs.map some ++ List.replicate k none) i reference =
      if k = 0 then .error (.illegalState "Already set 8 content types.")
      else if c = .PUBLIC_KEY_SIGNATURE ∧ i + cs.length ≠ 0 then
        .error (.illegalState "The public key needs to be the first to be set.")
      else .ok (cs.map some ++ some c :: List.replicate (k - 1) none,
        reference + cs.countP (sameList c)) := by
  induction cs generalizing i reference with
  | nil =>
      cases k with
      | zero => rfl
      | succ k => rfl
  | cons d cs ih =>
      have hindex : i + 1 + cs.length = i + (d :: cs).length := by
        rw [length_cons]
        omega
      rw [map_cons, cons_append, contentTypeLoop, ih, hindex, contentTypeLoop_reference]
      by_cases hk : k = 0
      · simp only [if_pos hk]
      · by_cases hc : c = .PUBLIC_KEY_SIGNATURE ∧ i + (d :: cs).length ≠ 0
        · simp only [if_neg hk, if_pos hc]
        · simp only [if_neg hk, if_neg hc, cons_append]

/-- How many contents stand in the list of a type. -/
def count (m : Message) : Content → Nat
  | .EMPTY => 0
  | .KEY => m.keyList.length
  | .MAP_KEY640_DATA => m.dataMapList.length
  | .MAP_KEY640_KEYS => m.keyMap640KeysList.length
  | .SET_KEY640 => m.keyCollectionList.length
  | .SET_NEIGHBORS => m.neighborsList.length
  | .BYTE_BUFFER => m.bufferList.length
  | .LONG => m.longList.length
  | .INTEGER => m.integerList.length
  | .PUBLIC_KEY_SIGNATURE => m.publicKeyList.length
  | .SET_TRACKER_DATA => m.trackerDataList.length
  | .BLOOM_FILTER => m.bloomFilterList.length
  | .MAP_KEY640_BYTE => m.keyMapByteList.length
  | .PUBLIC_KEY => m.publicKeyList.length
  | .PEER_SOCKET4 => m.peerSocket4AddressList.length
  | .PEER_SOCKET6 => m.peerSocket6AddressList.length

theorem count_add (m : Message) (p : Payload) (c : Content) :
    (m.add p).count c = m.count c + if sameList c p.content then 1 else 0 := by
  cases p <;> cases c <;> first | rfl | exact length_append

/-- A new content stands at the end of its list. -/
theorem payload_add (m : Message) (p : Payload) :
    (m.add p).payload ⟨m.count p.content, p.content⟩ = some p := by
  cases p <;> simp [payload, add, count, Payload.content]

theorem payload_lt {m : Message} {next : MessageContentIndex} {q : Payload}
    (h : m.payload next = some q) : next.index < m.count next.content := by
  rcases next with ⟨i, c⟩
  cases c <;> simp only [payload, Option.map_eq_some_iff, reduceCtorEq] at h <;>
    exact (List.getElem?_eq_some_iff.mp h.choose_spec.1).1

/-- What a reference stands for does not change with a new content, unless both
    are signatures. -/
theorem payload_add_of_some {m : Message} {next : MessageContentIndex} {q : Payload}
    (h : m.payload next = some q) (p : Payload) (hp : p.content ≠ .PUBLIC_KEY_SIGNATURE) :
    (m.add p).payload next = some q := by
  have hlt := payload_lt h
  rcases next with ⟨i, c⟩
  cases p <;> cases c <;> first
    | exact h
    | exact absurd rfl hp
    | (simp only [payload, add, count] at h hlt ⊢
       rwa [getElem?_append_left hlt])

/-- A message with contents of the given types, in this order. -/
structure Holds (m : Message) (cs : List Content) : Prop where
  preset : m.presetContentTypes = false
  contentTypes : m.contentTypes = entered cs
  contentReferences : m.contentReferences = referencesFrom [] cs
  count : ∀ c, m.count c = cs.countP (sameList c)
  length_le : cs.length ≤ CONTENT_TYPE_LENGTH
  sign_first : ∀ n, cs[n]? = some .PUBLIC_KEY_SIGNATURE → n = 0

/-- What a setter does. -/
theorem Holds.set {m m' : Message} {cs : List Content} (h : m.Holds cs) {p : Payload}
    (hset : m.set p = .ok m') :
    m'.Holds (cs ++ [p.content]) ∧
      m'.payload ⟨cs.countP (sameList p.content), p.content⟩ = some p ∧
      ∀ next q, m.payload next = some q → m'.payload next = some q := by
  have hloop := contentTypeLoop_entered p.content cs (CONTENT_TYPE_LENGTH - cs.length) 0 0
  rw [Message.set, h.preset, if_neg Bool.false_ne_true, contentType, h.contentTypes, entered,
    hloop] at hset
  -- The two refusals of `contentType`: no place is left, or a signature is not the first.
  by_cases hk : CONTENT_TYPE_LENGTH - cs.length = 0
  · rw [if_pos hk] at hset
    cases hset
  by_cases hc : p.content = .PUBLIC_KEY_SIGNATURE ∧ 0 + cs.length ≠ 0
  · rw [if_neg hk, if_pos hc] at hset
    cases hset
  rw [if_neg hk, if_neg hc, Nat.zero_add] at hset
  cases hset
  have hlen : (cs ++ [p.content]).length = cs.length + 1 := length_append
  have hcount := h.count p.content
  refine ⟨⟨?_, ?_, ?_, ?_, by omega, ?_⟩, ?_, ?_⟩
  · cases p <;> exact h.preset
  · have hfree : CONTENT_TYPE_LENGTH - (cs ++ [p.content]).length =
        CONTENT_TYPE_LENGTH - cs.length - 1 := by omega
    rw [entered, hfree, map_append, map_singleton, append_assoc,
      singleton_append]
    cases p <;> rfl
  · rw [referencesFrom_concat, nil_append, ← h.contentReferences]
    cases p <;> rfl
  · intro c
    rw [count_add, countP_append, countP_singleton, ← h.count c]
    cases p <;> cases c <;> rfl
  · intro n hn
    by_cases hlt : n < cs.length
    · rw [getElem?_append_left hlt] at hn
      exact h.sign_first n hn
    · have hend := (List.getElem?_eq_some_iff.mp hn).1
      have hlast : n = cs.length := by omega
      rw [hlast, getElem?_concat_length, Option.some.injEq] at hn
      by_contra hpos
      exact hc ⟨hn, by omega⟩
  · rw [← hcount]
    exact payload_add _ p
  · intro next q hq
    by_cases hp : p.content = .PUBLIC_KEY_SIGNATURE
    · -- A signature is added to an empty message.
      have hnil : cs.length = 0 := by
        by_contra hne
        exact hc ⟨hp, by omega⟩
      have hlt := payload_lt hq
      rw [h.count, length_eq_zero_iff.mp hnil] at hlt
      exact absurd hlt (Nat.not_lt_zero _)
    · refine payload_add_of_some ?_ p hp
      rcases next with ⟨i, c⟩
      cases c <;> exact hq

/-- What the setters leave, and each content is found by its reference. -/
theorem Holds.setAll {m m' : Message} {cs : List Content} (h : m.Holds cs) {ps : List Payload}
    (hset : m.setAll ps = .ok m') :
    m'.Holds (cs ++ ps.map Payload.content) ∧
      (∀ n p, ps[n]? = some p → m'.payload
        ⟨(cs ++ (ps.take n).map Payload.content).countP (sameList p.content), p.content⟩ = some p) ∧
      ∀ next q, m.payload next = some q → m'.payload next = some q := by
  induction ps generalizing m cs with
  | nil =>
      cases hset
      rw [map_nil, append_nil]
      exact ⟨h, fun n p hp => by simp at hp, fun _ _ hq => hq⟩
  | cons p ps ih =>
      rw [Message.setAll] at hset
      cases hp : m.set p with
      | error e =>
          rw [hp] at hset
          cases hset
      | ok m₁ =>
          rw [hp] at hset
          obtain ⟨hholds, hpayload, hkept⟩ := h.set hp
          obtain ⟨hholds', hfound, hkept'⟩ := ih hholds hset
          rw [append_assoc, singleton_append] at hholds'
          refine ⟨hholds', ?_, fun next q hq => hkept' next q (hkept next q hq)⟩
          intro n q hq
          cases n with
          | zero =>
              rw [getElem?_cons_zero, Option.some.injEq] at hq
              subst hq
              rw [take_zero, map_nil, append_nil]
              exact hkept' _ _ hpayload
          | succ n =>
              rw [getElem?_cons_succ] at hq
              have hq' := hfound n q hq
              rwa [append_assoc, singleton_append] at hq'

/-! ### Restoring references -/

/-- The counters after contents of the given types: none for a type that was not
    met, one for a signature, and what the list has for any other. -/
def Counts (refs : HashedMap Content Nat) (before : List Content) : Prop :=
  ∀ t, refs.get t =
    if t ∈ before then some (if t = .PUBLIC_KEY_SIGNATURE then 1 else before.countP (sameList t))
    else none

/-- Nothing is in front of a signature. -/
def SignFirst (cs : List Content) : Prop := ∀ n, cs[n]? = some .PUBLIC_KEY_SIGNATURE → n = 0

theorem SignFirst.ne_of_cons {before cs : List Content} {c : Content}
    (h : SignFirst (before ++ c :: cs)) (hb : before ≠ []) : c ≠ .PUBLIC_KEY_SIGNATURE := by
  rintro rfl
  have hzero := h before.length (by
    rw [getElem?_append_right (Nat.le_refl _), Nat.sub_self, getElem?_cons_zero])
  exact hb (length_eq_zero_iff.mp hzero)

/-- If a signature but no plain key was met, the list of keys has one key. -/
theorem SignFirst.count {before cs : List Content} (h : SignFirst (before ++ cs))
    (hsign : .PUBLIC_KEY_SIGNATURE ∈ before) (hkey : .PUBLIC_KEY ∉ before) :
    before.countP (sameList .PUBLIC_KEY) = 1 := by
  obtain ⟨n, hn, hget⟩ := getElem_of_mem hsign
  have hzero : n = 0 := h n (by
    rw [getElem?_append_left hn, getElem?_eq_getElem hn, hget])
  subst hzero
  cases before with
  | nil => cases hsign
  | cons c rest =>
      rw [getElem_cons_zero] at hget
      have hrest : rest.countP (sameList .PUBLIC_KEY) = 0 := by
        refine countP_eq_zero.mpr ?_
        intro d hd hsame
        rw [sameList_key _ _ rfl] at hsame
        obtain ⟨i, hi, hdi⟩ := getElem_of_mem hd
        rcases isKey_cases hsame with rfl | rfl
        · have hsucc := h (i + 1) (by
            rw [cons_append, getElem?_cons_succ, getElem?_append_left hi,
              getElem?_eq_getElem hi, hdi])
          omega
        · exact hkey (mem_cons_of_mem c hd)
      rw [countP_cons, hrest, hget]
      rfl

theorem countP_eq_zero_of_not_mem {before : List Content} {c : Content} (hc : c.isKey = false)
    (h : c ∉ before) : before.countP (sameList c) = 0 := by
  refine countP_eq_zero.mpr ?_
  intro d hd hsame
  rw [sameList_eq c d hc, beq_iff_eq] at hsame
  exact h (hsame ▸ hd)

theorem countP_keys_eq_zero {before : List Content} (hs : .PUBLIC_KEY_SIGNATURE ∉ before)
    (hk : .PUBLIC_KEY ∉ before) (c : Content) (hc : c.isKey = true) :
    before.countP (sameList c) = 0 := by
  refine countP_eq_zero.mpr ?_
  intro d hd hsame
  rw [sameList_key c d hc] at hsame
  rcases isKey_cases hsame with rfl | rfl
  · exact hs hd
  · exact hk hd

/-- The counters give the next content of each type its index in its list. -/
theorem Counts.nextIndex_eq {refs : HashedMap Content Nat} {before cs : List Content} {c : Content}
    (h : Counts refs before) (hfirst : SignFirst (before ++ c :: cs)) :
    nextIndex refs c = before.countP (sameList c) := by
  simp only [nextIndex]
  by_cases hmem : c ∈ before
  · have hb : before ≠ [] := ne_nil_of_mem hmem
    rw [h c, if_pos hmem, if_neg (hfirst.ne_of_cons hb), Option.getD_some]
  rw [h c, if_neg hmem, Option.getD_none]
  cases hkey : c.isKey with
  | false =>
      rw [countP_eq_zero_of_not_mem hkey hmem]
      rfl
  | true =>
      rw [if_pos rfl, h .PUBLIC_KEY_SIGNATURE, h .PUBLIC_KEY]
      by_cases hs : Content.PUBLIC_KEY_SIGNATURE ∈ before
      · have hb : before ≠ [] := ne_nil_of_mem hs
        have hc : c = .PUBLIC_KEY := (isKey_cases hkey).resolve_left (hfirst.ne_of_cons hb)
        subst hc
        simp only [if_pos hs, if_true]
        exact (hfirst.count hs hmem).symm
      · by_cases hk : Content.PUBLIC_KEY ∈ before
        · -- A signature behind a plain key is none of the setters' doing.
          have hb : before ≠ [] := ne_nil_of_mem hk
          have hc : c = .PUBLIC_KEY := (isKey_cases hkey).resolve_left (hfirst.ne_of_cons hb)
          exact absurd (hc ▸ hk) hmem
        · simp only [if_neg hs, if_neg hk, Option.getD_none]
          exact (countP_keys_eq_zero hs hk c hkey).symm

theorem Counts.put {refs : HashedMap Content Nat} {before cs : List Content} {c : Content}
    (h : Counts refs before) (hfirst : SignFirst (before ++ c :: cs)) :
    Counts (refs.put c (before.countP (sameList c) + 1)) (before ++ [c]) := by
  intro t
  rw [HashedMap.get_put]
  by_cases ht : t = c
  · have hmem : t ∈ before ++ [c] := mem_append_right _ (mem_singleton.mpr ht)
    rw [if_pos ht, if_pos hmem, ht, countP_append, countP_singleton, if_pos (sameList_self c)]
    by_cases hs : c = .PUBLIC_KEY_SIGNATURE
    · have hb : before = [] := by
        by_contra hb
        exact hfirst.ne_of_cons hb hs
      rw [if_pos hs, hb]
      rfl
    · rw [if_neg hs]
  · have hmem : t ∈ before ++ [c] ↔ t ∈ before := by
      rw [mem_append, mem_singleton]
      exact or_iff_left ht
    rw [if_neg ht, h t]
    by_cases hb : t ∈ before
    · rw [if_pos hb, if_pos (hmem.mpr hb)]
      have hsign := hfirst.ne_of_cons (ne_nil_of_mem hb)
      by_cases hs : t = .PUBLIC_KEY_SIGNATURE
      · rw [if_pos hs, if_pos hs]
      · -- The new content stands in another list.
        have hother : ¬ sameList t c = true := by
          intro hsame
          cases hkey : t.isKey with
          | false =>
              rw [sameList_eq t c hkey, beq_iff_eq] at hsame
              exact ht hsame
          | true =>
              rw [sameList_key t c hkey] at hsame
              have htk := (isKey_cases hkey).resolve_left hs
              have hck := (isKey_cases hsame).resolve_left hsign
              exact ht (htk.trans hck.symm)
        rw [if_neg hs, if_neg hs, countP_append, countP_singleton, if_neg hother,
          Nat.add_zero]
    · rw [if_neg hb, if_neg (mt hmem.mp hb)]

/-- Going through the types once gives the references that were counted, up to
    the free places, be they `EMPTY` or not there. -/
theorem restoreLoop_eq (cs : List Content) (free : List (Option Content))
    (refs : HashedMap Content Nat) (before : List Content) (hcounts : Counts refs before)
    (hfirst : SignFirst (before ++ cs)) (hempty : .EMPTY ∉ cs)
    (hfree : ∀ t ∈ free.head?, t = none ∨ t = some .EMPTY) :
    restoreLoop (cs.map some ++ free) refs = referencesFrom before cs := by
  induction cs generalizing refs before with
  | nil =>
      rw [map_nil, nil_append, referencesFrom]
      cases free with
      | nil => rfl
      | cons t free =>
          rcases hfree t rfl with rfl | rfl
          · rfl
          · rw [restoreLoop, if_pos rfl]
  | cons c cs ih =>
      have hne : c ≠ .EMPTY := fun hc => hempty (hc ▸ mem_cons_self)
      have happ : before ++ c :: cs = before ++ [c] ++ cs := by
        rw [append_assoc, singleton_append]
      rw [map_cons, cons_append, restoreLoop, if_neg hne, hcounts.nextIndex_eq hfirst,
        referencesFrom]
      congr 1
      exact ih _ _ (hcounts.put hfirst) (happ ▸ hfirst) fun h => hempty (mem_cons_of_mem c h)

/-- A message to which no content was added. -/
structure Blank (m : Message) : Prop where
  preset : m.presetContentTypes = false
  contentTypes : m.contentTypes = List.replicate CONTENT_TYPE_LENGTH none
  contentReferences : m.contentReferences = []
  count : ∀ c, m.count c = 0

theorem Blank.holds {m : Message} (h : m.Blank) : m.Holds [] where
  preset := h.preset
  contentTypes := h.contentTypes
  contentReferences := h.contentReferences
  count := h.count
  length_le := Nat.zero_le _
  sign_first n hn := by simp at hn

/-- The message as it is received: without references, and with the free places
    as `EMPTY`. -/
def withoutReferences (m : Message) : Message :=
  { m with
    contentReferences := []
    contentTypes := m.contentTypes.map fun t => some (t.getD .EMPTY) }

theorem Holds.restored {m : Message} {cs : List Content} (h : m.Holds cs) :
    ({ m with contentReferences := [] } : Message).restoreContentReferences.contentReferences =
        m.contentReferences ∧
      m.withoutReferences.restoreContentReferences.contentReferences = m.contentReferences := by
  have hcounts : Counts .empty [] := fun t => rfl
  have hempty : Content.EMPTY ∉ cs := by
    intro hmem
    have hcount := h.count .EMPTY
    have hpos : 0 < cs.countP (sameList .EMPTY) :=
      countP_pos_iff.mpr ⟨.EMPTY, hmem, sameList_self .EMPTY⟩
    rw [Message.count] at hcount
    omega
  refine ⟨?_, ?_⟩
  · change [] ++ restoreLoop m.contentTypes .empty = _
    rw [nil_append, h.contentTypes, h.contentReferences, entered]
    refine restoreLoop_eq cs _ .empty [] hcounts h.sign_first hempty ?_
    intro t ht
    exact .inl (eq_of_mem_replicate (mem_of_mem_head? ht))
  · change [] ++ restoreLoop (m.contentTypes.map fun t => some (t.getD .EMPTY)) .empty = _
    have hmap : (entered cs).map (fun t => some (t.getD .EMPTY)) =
        cs.map some ++ List.replicate (CONTENT_TYPE_LENGTH - cs.length) (some .EMPTY) := by
      rw [entered, map_append, map_map, map_replicate]
      rfl
    rw [nil_append, h.contentTypes, h.contentReferences, hmap]
    refine restoreLoop_eq cs _ .empty [] hcounts h.sign_first hempty ?_
    intro t ht
    exact .inr (eq_of_mem_replicate (mem_of_mem_head? ht))

/-- The references restored from the types are those that were made while the
    contents were added, whether the free places are as they were or as they are
    received. The one of a content is its place in its list. -/
theorem restored_references (m m' : Message) (ps : List Payload) (h : m.Blank)
    (hset : m.setAll ps = .ok m') :
    ({ m' with contentReferences := [] } : Message).restoreContentReferences.contentReferences =
        m'.contentReferences ∧
      m'.withoutReferences.restoreContentReferences.contentReferences = m'.contentReferences ∧
      m'.contentReferences.length = ps.length ∧
      ∀ n p, ps[n]? = some p → ∃ i,
        m'.contentReferences[n]? = some ⟨i, p.content⟩ ∧
        i = (ps.take n).countP (fun q => sameList p.content q.content) ∧
        m'.payload ⟨i, p.content⟩ = some p := by
  obtain ⟨hholds, hpayload, _⟩ := h.holds.setAll hset
  rw [nil_append] at hholds
  obtain ⟨hnull, hempty⟩ := hholds.restored
  refine ⟨hnull, hempty, ?_, ?_⟩
  · rw [hholds.contentReferences, length_referencesFrom, length_map]
  · intro n p hp
    refine ⟨_, ?_, rfl, ?_⟩
    · have hget : (ps.map Payload.content)[n]? = some p.content := by
        rw [getElem?_map, hp, Option.map_some]
      rw [hholds.contentReferences, getElem?_referencesFrom _ _ _ _ hget, nil_append,
        ← map_take, countP_map]
      rfl
    · have hfound := hpayload n p hp
      rw [nil_append, countP_map] at hfound
      exact hfound

theorem blank_new (messageId : BitVec 32) : Blank { messageId := messageId } where
  preset := rfl
  contentTypes := rfl
  contentReferences := rfl
  count c := by cases c <;> rfl

theorem restored_references_signed :
    ∃ m', ({ messageId := 1 } : Message).setAll
        [.publicKeyAndSign (.encoded [1]) none, .key .ZERO, .publicKey (.encoded [2]), .key .MAX_VALUE,
          .publicKey (.encoded [1])] = .ok m' ∧
      m'.withoutReferences.restoreContentReferences.contentReferences =
        [⟨0, .PUBLIC_KEY_SIGNATURE⟩, ⟨0, .KEY⟩, ⟨1, .PUBLIC_KEY⟩, ⟨1, .KEY⟩, ⟨2, .PUBLIC_KEY⟩] := by
  have hrestored := restored_references { messageId := 1 } _
    [.publicKeyAndSign (.encoded [1]) none, .key .ZERO, .publicKey (.encoded [2]), .key .MAX_VALUE,
      .publicKey (.encoded [1])] (blank_new 1) rfl
  exact ⟨_, rfl, hrestored.2.1⟩

end Message

end TomP2P
