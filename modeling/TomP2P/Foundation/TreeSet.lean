import Mathlib.Tactic.Common

/-!
# Sorted Sets as Search Trees

A set that is kept as a search tree. Every lookup goes down from the root and compares what it is
looking for with the keys on its way, so that it finds what there is only if the comparisons lead to
it. They do if they go with the order of the tree (`Steers`): greater than everything up to some
place, and less than everything behind it.

How the tree is balanced is left open. After a change the tree may take any shape that keeps the
order of its keys, depending on how many changes there were before (`Rebalancing`).

The comparison is an argument of every operation. What is compared may change while it is in the
tree, which nobody notices before the next lookup.

## Main definitions

* `SearchTree.contains`, `SearchTree.insert`, `SearchTree.erase`: The operations of a tree.
* `SearchTree.ofSorted`: A balanced tree of a list.
* `TreeSet.add`, `TreeSet.remove`, `TreeSet.pollFirst`: Those of a set, which balance.
* `Steers`: A comparison goes with the order of a list.

## Theorems

* `SearchTree.contains_iff`: What a lookup finds that is led.
* `SearchTree.toList_erase`, `SearchTree.toList_insert`: What such a change does.
-/

namespace TomP2P

open List

/-- Where the elements are in order. -/
inductive SearchTree (α : Type)
  | nil
  | node (left : SearchTree α) (key : α) (right : SearchTree α)
  deriving DecidableEq

/-- The comparison goes with the order of the list: greater at first, and less as soon as it is not
    greater anymore. -/
def Steers {α : Type} (compare : α → Ordering) (l : List α) : Prop :=
  l.Pairwise fun a b => compare a ≠ .gt → compare b = .lt

namespace SearchTree

variable {α : Type} {compare : α → Ordering}

def toList : SearchTree α → List α
  | nil => []
  | node left key right => left.toList ++ key :: right.toList

def size : SearchTree α → Nat
  | nil => 0
  | node left _ right => left.size + right.size + 1

/-- Whether a lookup finds something. It is given by what it compares. -/
def contains (compare : α → Ordering) : SearchTree α → Bool
  | nil => false
  | node left key right =>
      match compare key with
      | .lt => left.contains compare
      | .gt => right.contains compare
      | .eq => true

/-- A key goes where a lookup for it ends. -/
def insert (compare : α → Ordering) (x : α) : SearchTree α → SearchTree α
  | nil => node nil x nil
  | node left key right =>
      match compare key with
      | .lt => node (left.insert compare x) key right
      | .gt => node left key (right.insert compare x)
      | .eq => node left key right

/-- The first key, and the tree without it. -/
def popFirst : SearchTree α → Option (α × SearchTree α)
  | nil => none
  | node left key right =>
      match left.popFirst with
      | none => some (key, right)
      | some (first, left) => some (first, node left key right)

/-- What takes the place of a node: the only child, or the successor. -/
def deleteRoot : SearchTree α → SearchTree α → SearchTree α
  | nil, right => right
  | node l k r, nil => node l k r
  | node l k r, node l' k' r' =>
      match (node l' k' r').popFirst with
      | none => node l k r
      | some (successor, right) => node (node l k r) successor right

/-- Deletes what a lookup finds. -/
def erase (compare : α → Ordering) : SearchTree α → SearchTree α
  | nil => nil
  | node left key right =>
      match compare key with
      | .lt => node (left.erase compare) key right
      | .gt => node left key (right.erase compare)
      | .eq => deleteRoot left right

/-- A tree of a list with its middle at the root. The number of levels is given. -/
def ofSortedLevels : Nat → List α → SearchTree α
  | 0, _ => nil
  | levels + 1, l =>
      match l.drop ((l.length - 1) / 2) with
      | [] => nil
      | middle :: behind =>
          node (ofSortedLevels levels (l.take ((l.length - 1) / 2))) middle (ofSortedLevels levels behind)

def ofSorted (l : List α) : SearchTree α := ofSortedLevels l.length l

theorem length_toList (t : SearchTree α) : t.toList.length = t.size := by
  induction t with
  | nil => rfl
  | node left key right ihl ihr =>
      simp only [toList, size, length_append, length_cons, ihl, ihr]
      omega

theorem toList_ofSortedLevels (levels : Nat) (l : List α) (h : l.length ≤ levels) :
    (ofSortedLevels levels l).toList = l := by
  induction levels generalizing l with
  | zero =>
      have hnil : l = [] := length_eq_zero_iff.1 (by omega)
      rw [hnil, ofSortedLevels, toList]
  | succ levels ih =>
      rw [ofSortedLevels]
      have hsplit : l.take ((l.length - 1) / 2) ++ l.drop ((l.length - 1) / 2) = l := take_append_drop _ _
      cases hdrop : l.drop ((l.length - 1) / 2) with
      | nil =>
          have hlength := congrArg List.length hdrop
          rw [length_drop, length_nil] at hlength
          have hnil : l = [] := length_eq_zero_iff.1 (by omega)
          rw [hnil, toList]
      | cons middle behind =>
          have hlength := congrArg List.length hdrop
          rw [length_drop, length_cons] at hlength
          have htake : (l.take ((l.length - 1) / 2)).length ≤ levels := by
            rw [length_take]
            omega
          rw [hdrop] at hsplit
          rw [toList, ih _ htake, ih _ (by omega)]
          exact hsplit

theorem toList_ofSorted (l : List α) : (ofSorted l).toList = l := toList_ofSortedLevels _ l (Nat.le_refl _)

theorem toList_popFirst (t : SearchTree α) :
    t.popFirst.map (fun p => p.1 :: p.2.toList) = if t.toList = [] then none else some t.toList := by
  induction t with
  | nil => rfl
  | node left key right ihl _ =>
      rw [popFirst, toList]
      cases hpop : left.popFirst with
      | none =>
          rw [hpop] at ihl
          have hnil : left.toList = [] := by
            by_contra hne
            rw [if_neg hne] at ihl
            cases ihl
          simp [hnil]
      | some p =>
          rw [hpop] at ihl
          have hne : left.toList ≠ [] := by
            intro hnil
            rw [if_pos hnil] at ihl
            cases ihl
          rw [if_neg hne] at ihl
          have heq : p.1 :: p.2.toList = left.toList := Option.some.inj ihl
          simp [toList, ← heq]

theorem toList_deleteRoot (left right : SearchTree α) : (deleteRoot left right).toList = left.toList ++ right.toList := by
  cases left with
  | nil => simp [deleteRoot, toList]
  | node l k r =>
      cases right with
      | nil => simp [deleteRoot, toList]
      | node l' k' r' =>
          have hpop := toList_popFirst (node l' k' r')
          rw [deleteRoot]
          cases heq : (node l' k' r').popFirst with
          | none =>
              rw [heq] at hpop
              simp [toList] at hpop
          | some p =>
              rw [heq, if_neg (by simp [toList])] at hpop
              have hlist : p.1 :: p.2.toList = (node l' k' r').toList := Option.some.inj hpop
              rw [← hlist]
              simp [toList]

/-! ### Lookups that are led -/

theorem steers_node {left right : SearchTree α} {key : α} (h : Steers compare (node left key right).toList) :
    Steers compare left.toList ∧ Steers compare right.toList ∧
      (∀ a ∈ left.toList, compare a ≠ .gt → compare key = .lt) ∧
      (∀ a ∈ left.toList, ∀ b ∈ right.toList, compare a ≠ .gt → compare b = .lt) ∧
      ∀ b ∈ right.toList, compare key ≠ .gt → compare b = .lt := by
  unfold Steers at h
  rw [toList, pairwise_append, pairwise_cons] at h
  obtain ⟨hleft, ⟨hkey, hright⟩, hcross⟩ := h
  exact ⟨hleft, hright, fun a ha => hcross a ha key mem_cons_self,
    fun a ha b hb => hcross a ha b (mem_cons_of_mem _ hb), hkey⟩

/-- A lookup that goes left misses nothing on the right, and one that goes right nothing on the left. -/
theorem steers_lt {left right : SearchTree α} {key : α} (h : Steers compare (node left key right).toList)
    (hkey : compare key = .lt) : ∀ b ∈ right.toList, compare b = .lt := by
  intro b hb
  exact (steers_node h).2.2.2.2 b hb (by simp [hkey])

theorem steers_gt {left right : SearchTree α} {key : α} (h : Steers compare (node left key right).toList)
    (hkey : compare key ≠ .lt) : ∀ a ∈ left.toList, compare a = .gt := by
  intro a ha
  by_contra hne
  exact hkey ((steers_node h).2.2.1 a ha hne)

theorem contains_iff {t : SearchTree α} (h : Steers compare t.toList) :
    t.contains compare = true ↔ ∃ a ∈ t.toList, compare a = .eq := by
  induction t with
  | nil => simp [contains, toList]
  | node left key right ihl ihr =>
      obtain ⟨hleft, hright, -⟩ := steers_node h
      cases hkey : compare key with
      | lt =>
          have hlt := steers_lt h hkey
          have hnone : ∀ b ∈ right.toList, compare b ≠ .eq := fun b hb => by simp [hlt b hb]
          simp only [contains, hkey, ihl hleft, toList, mem_append, mem_cons]
          grind
      | gt =>
          have hgt := steers_gt h (by simp [hkey])
          have hnone : ∀ a ∈ left.toList, compare a ≠ .eq := fun a ha => by simp [hgt a ha]
          simp only [contains, hkey, ihr hright, toList, mem_append, mem_cons]
          grind
      | eq =>
          simp only [contains, hkey, toList, true_iff]
          exact ⟨key, by simp, hkey⟩

/-- What compares equal is taken out. -/
theorem toList_erase {t : SearchTree α} (h : Steers compare t.toList) :
    (t.erase compare).toList = t.toList.filter fun a => compare a ≠ .eq := by
  induction t with
  | nil => rfl
  | node left key right ihl ihr =>
      obtain ⟨hleft, hright, -⟩ := steers_node h
      have hkeep (l : List α) (hl : ∀ a ∈ l, compare a ≠ .eq) : l.filter (fun a => compare a ≠ .eq) = l :=
        filter_eq_self.2 fun a ha => decide_eq_true (hl a ha)
      cases hkey : compare key with
      | lt =>
          have hlt := steers_lt h hkey
          simp only [erase, hkey, toList, ihl hleft, filter_append, filter_cons]
          rw [hkeep right.toList fun b hb => by simp [hlt b hb]]
          simp
      | gt =>
          have hgt := steers_gt h (by simp [hkey])
          simp only [erase, hkey, toList, ihr hright, filter_append, filter_cons]
          rw [hkeep left.toList fun a ha => by simp [hgt a ha]]
          simp
      | eq =>
          have hgt := steers_gt h (by simp [hkey])
          have hlt : ∀ b ∈ right.toList, compare b = .lt := fun b hb => (steers_node h).2.2.2.2 b hb (by simp [hkey])
          simp only [erase, hkey, toList, toList_deleteRoot, filter_append, filter_cons]
          rw [hkeep left.toList fun a ha => by simp [hgt a ha], hkeep right.toList fun b hb => by simp [hlt b hb]]
          simp

/-- What is new goes behind everything it is greater than. -/
theorem toList_insert {t : SearchTree α} (h : Steers compare t.toList) (hnew : ∀ a ∈ t.toList, compare a ≠ .eq)
    (x : α) :
    (t.insert compare x).toList =
      t.toList.filter (fun a => compare a = .gt) ++ x :: t.toList.filter (fun a => compare a = .lt) := by
  induction t with
  | nil => rfl
  | node left key right ihl ihr =>
      obtain ⟨hleft, hright, -⟩ := steers_node h
      have hl : ∀ a ∈ left.toList, compare a ≠ .eq := fun a ha => hnew a (mem_append_left _ ha)
      have hr : ∀ b ∈ right.toList, compare b ≠ .eq := fun b hb =>
        hnew b (mem_append_right _ (mem_cons_of_mem _ hb))
      cases hkey : compare key with
      | lt =>
          have hlt := steers_lt h hkey
          have hall : right.toList.filter (fun a => compare a = .lt) = right.toList :=
            filter_eq_self.2 fun b hb => decide_eq_true (hlt b hb)
          have hnone : right.toList.filter (fun a => compare a = .gt) = [] :=
            filter_eq_nil_iff.2 fun b hb => by simp [hlt b hb]
          simp only [insert, hkey, toList, ihl hleft hl, filter_append, filter_cons, hall, hnone]
          simp
      | gt =>
          have hgt := steers_gt h (by simp [hkey])
          have hall : left.toList.filter (fun a => compare a = .gt) = left.toList :=
            filter_eq_self.2 fun a ha => decide_eq_true (hgt a ha)
          have hnone : left.toList.filter (fun a => compare a = .lt) = [] :=
            filter_eq_nil_iff.2 fun a ha => by simp [hgt a ha]
          simp only [insert, hkey, toList, ihr hright hr, filter_append, filter_cons, hall, hnone]
          simp
      | eq => exact absurd hkey (hnew key (by simp [toList]))

end SearchTree

/-- What is done to a tree to balance it, after so many changes. -/
structure Rebalancing (α : Type) where
  fix : Nat → SearchTree α → SearchTree α
  toList_fix : ∀ n t, (fix n t).toList = t.toList

/-- A set that is kept as a tree, with the number of changes. -/
structure TreeSet (α : Type) where
  root : SearchTree α := .nil
  modCount : Nat := 0

namespace TreeSet

variable {α : Type}

def toList (s : TreeSet α) : List α := s.root.toList

def size (s : TreeSet α) : Nat := s.root.size

def contains (compare : α → α → Ordering) (s : TreeSet α) (x : α) : Bool := s.root.contains (compare x)

def change (balance : Rebalancing α) (s : TreeSet α) (root : SearchTree α) : TreeSet α :=
  { root := balance.fix s.modCount root, modCount := s.modCount + 1 }

/-- What compares equal to an element stays. -/
def add (balance : Rebalancing α) (compare : α → α → Ordering) (s : TreeSet α) (x : α) : TreeSet α :=
  if s.contains compare x then s else s.change balance (s.root.insert (compare x) x)

def remove (balance : Rebalancing α) (compare : α → α → Ordering) (s : TreeSet α) (x : α) : TreeSet α :=
  if s.contains compare x then s.change balance (s.root.erase (compare x)) else s

/-- The first element, and the set without it. -/
def pollFirst (balance : Rebalancing α) (s : TreeSet α) : Option (α × TreeSet α) :=
  s.root.popFirst.map fun p => (p.1, s.change balance p.2)

@[simp] theorem toList_change (balance : Rebalancing α) (s : TreeSet α) (root : SearchTree α) :
    (s.change balance root).toList = root.toList :=
  balance.toList_fix _ _

theorem toList_pollFirst (balance : Rebalancing α) (s : TreeSet α) :
    (s.pollFirst balance).map (fun p => p.1 :: p.2.toList) = if s.toList = [] then none else some s.toList := by
  rw [pollFirst, Option.map_map, toList, ← SearchTree.toList_popFirst]
  congr 1
  funext p
  simp

end TreeSet

end TomP2P
