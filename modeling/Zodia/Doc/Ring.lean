import Zodia.Doc.InterpDoc
import Zodia.Lib.LastN

/-!
# Author rings

The recent authors of a block, oldest first, at most `ringSize` of them. An author in the
ring may veto the newest edit of the block.

## Main definitions

* `Ring`, `vetoAuthorised`.
-/

namespace Zodia.Doc

open Lib

def ringSize : ℕ := 5

def vetoWindowDays : ℕ := 7

/-! ## Rings -/

variable {Digest : Type}

structure RingEntry (Digest : Type) where
  author : Bytes32
  editOpId : Digest
  editedAt : ℕ

/-- A ring holds at most `ringSize` entries, the newest at the back. -/
structure Ring (Digest : Type) where
  entries : List (RingEntry Digest)
  length_le : entries.length ≤ ringSize

namespace Ring

def fromEntries (entries : List (RingEntry Digest)) : Ring Digest :=
  ⟨lastN ringSize entries, by simp [length_lastN]⟩

def new : Ring Digest := ⟨[], Nat.zero_le _⟩

/-- Push a new edit author; the oldest falls off at capacity. -/
def push (ring : Ring Digest) (entry : RingEntry Digest) : Ring Digest :=
  ⟨lastN ringSize (ring.entries ++ [entry]), length_lastN_le _⟩

def contains (ring : Ring Digest) (author : Bytes32) : Bool :=
  ring.entries.any (·.author = author)

def newest (ring : Ring Digest) : Option (RingEntry Digest) := ring.entries.getLast?

end Ring

/-- Whether `revoker` may veto the edit `targetEditOpId` of a block with this ring. -/
def vetoAuthorised [DecidableEq Digest] (ring : Ring Digest) (revoker : Bytes32)
    (targetEditOpId : Digest) (editUnixTs nowUnixTs : ℕ) : Bool :=
  if ring.contains revoker then
    if nowUnixTs - editUnixTs > vetoWindowDays * 86400 then false
    else
      match ring.newest with
      | some entry => entry.editOpId = targetEditOpId
      | none => false
  else false

theorem vetoAuthorised_iff [DecidableEq Digest] {ring : Ring Digest} {revoker : Bytes32}
    {target : Digest} {editTs nowTs : ℕ} :
    vetoAuthorised ring revoker target editTs nowTs = true ↔
      (∃ entry ∈ ring.entries, entry.author = revoker) ∧
        nowTs - editTs ≤ vetoWindowDays * 86400 ∧
        ∃ entry, ring.newest = some entry ∧ entry.editOpId = target := by
  unfold vetoAuthorised
  have member : ring.contains revoker = true ↔ ∃ entry ∈ ring.entries, entry.author = revoker := by
    simp [Ring.contains]
  split_ifs with inRing late
  · simp [Nat.not_le.2 late]
  · cases ring.newest with
    | none => simp
    | some entry => simp [member.1 inRing, Nat.not_lt.1 late]
  · simp [← member, inRing]

end Zodia.Doc
