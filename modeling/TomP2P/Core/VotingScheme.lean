import TomP2P.Core.Data

/-!
# The Voting Scheme

How the answers of the peers that were asked become one answer.

The answers come as a map from peers to maps. The maps are visited in an order of
their own, which is that of their entries here. A vote is counted under the key, or
for values under a number that is made of the hash of the value and of the key; the
version of the key is not part of that number. What has reached the majority when
it is counted goes to the result.

## Main definitions

* `Answers`: What the peers have answered.
* `VotingScheme.evaluate1`, `VotingScheme.evaluate6`: The keys of the majority.
* `VotingScheme.evaluate2`: The values of the majority.
-/

namespace TomP2P

/-- The answers of peers, for each key. -/
abbrev Answers (P V : Type) := HashedMap P (HashedMap Number640 V)

namespace VotingScheme

variable {P V : Type}

/-- Half of the peers, rounded up. -/
def majority (size : Nat) : Nat := (size + 1) / 2

/-- The count with one vote more. -/
def increment {K : Type} [DecidableEq K] (counter : HashedMap K Nat) (key : K) : Nat :=
  match counter.get key with
  | none => 1
  | some count => count + 1

/-- Votes for a key. -/
def voteKey (majority : Nat) (s : HashedMap Number640 Nat × HashedSet Number640) (key : Number640) :
    HashedMap Number640 Nat × HashedSet Number640 :=
  let c := increment s.1 key
  (s.1.put key c, if majority ≤ c then s.2.add key else s.2)

/-- The keys that the majority has, whatever is stored under them. -/
def evaluateKeys (rawKeys : Option (Answers P V)) : HashedSet Number640 :=
  match rawKeys with
  | none => .empty
  | some rawKeys =>
      (rawKeys.entries.foldl (fun s answer =>
        answer.2.entries.foldl (fun s entry => voteKey (majority rawKeys.size) s entry.1) s)
        (.empty, .empty)).2

def evaluate1 (rawKeysByte : Option (Answers P Number160)) : HashedSet Number640 := evaluateKeys rawKeysByte

def evaluate6 (rawKeys480 : Option (Answers P UInt8)) : HashedSet Number640 := evaluateKeys rawKeys480

/-- What a value is counted under. -/
def tag (contentKey : Number640) (dat : Data) : Number160 :=
  ((dat.hash.xor contentKey.contentKey).xor contentKey.domainKey).xor contentKey.locationKey

/-- Votes for a value. -/
def voteData (majority : Nat) (s : HashedMap Number160 Nat × HashedMap Number640 Data) (entry : Number640 × Data) :
    HashedMap Number160 Nat × HashedMap Number640 Data :=
  let hash := tag entry.1 entry.2
  let c := increment s.1 hash
  (s.1.put hash c, if majority ≤ c then s.2.put entry.1 entry.2 else s.2)

/-- The values that the majority has. -/
def evaluate2 (rawData : Option (Answers P Data)) : Except JavaException (HashedMap Number640 Data) :=
  match rawData with
  | none => .error (.illegalArgument "cannot evaluate, as no result provided")
  | some rawData => .ok
      (rawData.entries.foldl (fun s answer =>
        answer.2.entries.foldl (voteData (majority rawData.size)) s) (.empty, .empty)).2

end VotingScheme

end TomP2P
